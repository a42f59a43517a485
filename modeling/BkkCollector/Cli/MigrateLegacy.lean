import BkkCollector.Archive.Backup

/-! # The legacy inventory

`LegacyMigrator`: an inventory of what was collected before version two, and its off-site copy. The
inventory says of each completed date whether the backup may leave it alone. -/

namespace BkkCollector.Cli.MigrateLegacy

open BkkCollector.Config BkkCollector.Logic.Program BkkCollector.Python.Objects
open BkkCollector.Python.Documents BkkCollector.Archive.DataDir BkkCollector.Archive.Remote
open BkkCollector.Archive.Backup

variable {B : Type}

/-! ### Files -/

/-- An inventoried file. -/
structure LegacyFile where
  path : String
  kind : String
  size : ℕ
  mtimeNs : ℕ
  sha256 : String

/-- The artifact that is written for it. -/
def LegacyFile.toDoc (f : LegacyFile) : Doc :=
  .dict [("path", .str f.path), ("kind", .str f.kind), ("size", .int f.size),
    ("mtime_ns", .int f.mtimeNs), ("sha256", .str f.sha256)]

/-- `_inventory_file`. -/
def inventoryFile (C : Contents B) (d : DataDir B) (path : Path) (kind : String) :
    Except PyError LegacyFile := do
  if isSymlink d path then
    throw ⟨.valueError, "refusing symlinked legacy artifact: " ++ pathText path⟩
  let f ← stat d path
  let digest ← sha256File C d path
  pure ⟨pathText path, kind, C.size f.content, f.mtimeNs, digest⟩

/-- The trees of a feed and a date. -/
def legacyRoots (date : String) (feed : Feed) : List (Path × String) :=
  [(["raw", feed.name, dateDir date], "legacy_raw"),
    (["parquet", feed.name, dateDir date], "legacy_parquet"),
    (["spool", feed.name, dateDir date], "legacy_spool"),
    (["metadata", "polls", feed.name, dateDir date], "poll_metadata")]

/-- The files of a tree. -/
def filesBelow (d : DataDir B) (root : Path) : List Path :=
  (rglob d root).filter fun path => isFile d path || isSymlink d path

/-- Files by their paths. -/
def byPath {α : Type} (found : List (Path × α)) : List (Path × α) :=
  found.insertionSort fun a b => pathText a.1 ≤ pathText b.1

/-- `_date_files`. -/
def dateFiles (d : DataDir B) (date : String) : List (Path × String) :=
  let roots := (feedNames.flatMap (legacyRoots date)).filter fun root => existsAt d root.1
  let files := roots.flatMap fun root => (filesBelow d root.1).map fun path => (path, root.2)
  let manifest := manifestPath date
  byPath (files ++
    if existsAt d manifest || isSymlink d manifest then [(manifest, "daily_manifest")] else [])

/-- `_static_files`. -/
def staticFiles (d : DataDir B) : List (Path × String) :=
  if existsAt d ["static_gtfs"] then
    byPath ((filesBelow d ["static_gtfs"]).map fun path =>
      (path, if (suffix (path.getLastD "")).toLower = ".zip" then "static_gtfs_zip"
        else "static_gtfs_metadata"))
  else []

/-! ### Classification -/

/-- `f"{path.relative_to(data_dir)}:{type(error).__name__}:{error}"`. -/
def inventoryError (path : Path) (e : PyError) : String :=
  pathText path ++ ":" ++ e.type.name ++ ":" ++ e.message

/-- The problems of the raw log of a feed. -/
def rawProblems (C : Contents B) (d : DataDir B) (date : String) (feed : Feed) : List String :=
  match readFile d ["raw", feed.name, dateDir date, feed.name ++ ".rawlog"] with
  | .error e =>
    if isFile d ["raw", feed.name, dateDir date, feed.name ++ ".rawlog"] then
      [feed.name ++ ":raw_unreadable:" ++ e.type.name]
    else [feed.name ++ ":raw_missing"]
  | .ok content =>
    match C.scanRawLog content with
    | .error e => [feed.name ++ ":raw_unreadable:" ++ e.type.name]
    | .ok (clean, records) =>
      (if clean then [] else [feed.name ++ ":raw_invalid_tail"]) ++
        if records < 1 then [feed.name ++ ":raw_empty"] else []

/-- The Parquet files of a feed and a date: `parquet_dir.glob("*.parquet")`, sorted. -/
def parquetFiles (d : DataDir B) (date : String) (feed : Feed) : List Path :=
  let dir := ["parquet", feed.name, dateDir date]
  ((iterdir d dir).filter (endsWith ".parquet")).insertionSort (· ≤ ·) |>.map fun name =>
    dir ++ [name]

/-- The problems of its Parquet files. -/
def parquetProblems (C : Contents B) (d : DataDir B) (date : String) (feed : Feed) : List String :=
  let files := parquetFiles d date feed
  (if files = [] then [feed.name ++ ":parquet_missing"] else []) ++
    files.filterMap fun path =>
      match (readFile d path).bind C.parquetRowCount with
      | .ok _ => none
      | .error e =>
        some (feed.name ++ ":parquet_unreadable:" ++ path.getLastD "" ++ ":" ++ e.type.name)

/-- `_validate_legacy_date`. -/
def validateLegacyDate (C : Contents B) (d : DataDir B) (date : String) : List String :=
  feedNames.flatMap fun feed =>
    rawProblems C d date feed ++ parquetProblems C d date feed ++
      if iterdir d ["spool", feed.name, dateDir date] = [] then []
      else [feed.name ++ ":uncommitted_spool_present"]

/-- The `try` block of `_is_v2_complete`. -/
def v2Checks (C : Contents B) (parse : String → Option ℤ) (d : DataDir B) (date : String) :
    Except PyError Unit := do
  let manifest := readJson C d (manifestPath date) (.dict [])
  unless (← manifest.get "complete" .null).isTrue do throw (invalid "manifest is incomplete")
  validateManifest parse date manifest
  validateLocal C d true (← localArtifacts C d date manifest)

/-- Poll journals of all three feeds. -/
def hasJournals (d : DataDir B) (date : String) : Bool :=
  feedNames.all fun feed => isFile d (pollJournalPath feed date)

/-- `_is_v2_complete`. -/
def isV2Complete (C : Contents B) (parse : String → Option ℤ) (d : DataDir B) (date : String) :
    Bool :=
  hasJournals d date && (v2Checks C parse d date).isOk

/-- The classifications of a date. -/
inductive Classification where
  | v2Complete
  | corruptOrMissing
  | legacyPresent
  deriving DecidableEq

/-- The text of a classification. -/
def Classification.name : Classification → String
  | .v2Complete => "v2_complete"
  | .corruptOrMissing => "corrupt_or_missing"
  | .legacyPresent => "legacy_present_but_completeness_unverifiable"

/-- What the local files say about a date. -/
structure DateInventory where
  date : String
  classification : Classification
  inventoryComplete : Bool
  problems : List String
  files : List LegacyFile

/-- `legacy_handled`. -/
def DateInventory.legacyHandled (i : DateInventory) : Bool :=
  decide (i.classification ≠ .v2Complete) && i.inventoryComplete

/-- The files that could be inventoried, and the errors of the others. -/
def inventoryFiles (C : Contents B) (d : DataDir B) (files : List (Path × String)) :
    List LegacyFile × List String :=
  (files.filterMap fun f => (inventoryFile C d f.1 f.2).toOption,
    files.filterMap fun f =>
      match inventoryFile C d f.1 f.2 with
      | .ok _ => none
      | .error e => some (inventoryError f.1 e))

/-- The loop body of `inventory`, before it asks the remote. -/
def inventoryDate (C : Contents B) (parse : String → Option ℤ) (d : DataDir B) (date : String) :
    DateInventory :=
  let inventoried := inventoryFiles C d (dateFiles d date)
  let problems := validateLegacyDate C d date ++ inventoried.2
  { date := date
    classification :=
      if isV2Complete C parse d date then .v2Complete
      else if problems ≠ [] then .corruptOrMissing
      else .legacyPresent
    inventoryComplete := inventoried.2.isEmpty
    problems := problems
    files := inventoried.1 }

/-! ### The remote -/

/-- The status of each path on the remote. -/
abbrev Statuses := List (String × String)

/-- The status of a file, by what the remote says about it. -/
def statusOf (returned : List (String × RemoteInfo)) (f : LegacyFile) : String :=
  match returned.lookup f.path with
  | none => "missing"
  | some info =>
    if info.size ≠ some f.size then "size_mismatch"
    else if info.lfsSha ≠ "" then
      if info.lfsSha = f.sha256 then "sha256_match" else "sha256_mismatch"
    else "size_match_checksum_unavailable"

/-- `_remote_statuses`. -/
def remoteStatuses (enabled : Bool) (files : List LegacyFile) : ArchiveProg B Statuses :=
  if enabled then do
    let expected := dictOf (files.map fun f => (f.path, f))
    let infos ← pathsInfos none (hundreds (expected.map Prod.fst))
    let returned := dictOf ((infos.filter fun info => info.path ≠ "").map fun i => (i.path, i))
    pure (expected.map fun f => (f.1, statusOf returned f.2))
  else pure (dictOf (files.map fun f => (f.path, "not_checked_no_credentials")))

/-- The statuses, or the failure of asking for them. -/
def statusesOrFailure (enabled : Bool) (files : List LegacyFile) : ArchiveProg B Statuses := do
  match ← (remoteStatuses enabled files).attempt with
  | .ok statuses => pure statuses
  | .error e =>
    pure (dictOf (files.map fun f => (f.path, "remote_check_failed:" ++ e.type.name)))

/-! ### The inventory -/

/-- What `apply` adds to the entry of a date. -/
structure Applied where
  uploadErrors : List String
  remoteCopyConfirmed : Bool
  receiptVerified : Bool

/-- An entry of the inventory. -/
structure DateEntry where
  inventory : DateInventory
  statuses : Statuses
  wouldUpload : List String
  applied : Option Applied := none

/-- A list of texts. -/
def texts (l : List String) : Doc := .list (l.map .str)

/-- Statuses as a document. -/
def statusesDoc (statuses : Statuses) : Doc := .dict (statuses.map fun s => (s.1, .str s.2))

/-- The entry of a date in `legacy_inventory.json`. -/
def DateEntry.toDoc (e : DateEntry) : Doc :=
  let i := e.inventory
  .dict ([("date", .str i.date), ("classification", .str i.classification.name),
    ("inventory_complete", .bool i.inventoryComplete),
    ("legacy_handled", .bool i.legacyHandled),
    ("scientific_complete", .bool (decide (i.classification = .v2Complete))),
    ("problems", texts i.problems), ("files", .list (i.files.map LegacyFile.toDoc)),
    ("file_count", .int i.files.length),
    ("local_bytes", .int (i.files.map LegacyFile.size).sum),
    ("remote_status", statusesDoc e.statuses),
    ("files_that_would_be_uploaded", texts e.wouldUpload),
    ("files_that_remain_untouched", texts (i.files.map LegacyFile.path))] ++
    match e.applied with
    | none => []
    | some a => [("upload_errors", texts a.uploadErrors),
        ("remote_copy_confirmed", .bool a.remoteCopyConfirmed),
        ("legacy_receipt_remote_verified", .bool a.receiptVerified)])

/-- The inventory of the static archives. -/
structure StaticInventory where
  problems : List String
  inventoryComplete : Bool
  files : List LegacyFile
  statuses : Statuses
  wouldUpload : List String
  applied : Option Applied := none

/-- `classification` of the static archives. -/
def StaticInventory.classification (s : StaticInventory) : Classification :=
  if s.problems = [] then .legacyPresent else .corruptOrMissing

/-- The entry `static_gtfs` of the inventory. -/
def StaticInventory.toDoc (s : StaticInventory) : Doc :=
  .dict ([("classification", .str s.classification.name),
    ("inventory_complete", .bool s.inventoryComplete), ("problems", texts s.problems),
    ("files", .list (s.files.map LegacyFile.toDoc)), ("file_count", .int s.files.length),
    ("local_bytes", .int (s.files.map LegacyFile.size).sum),
    ("remote_status", statusesDoc s.statuses),
    ("files_that_would_be_uploaded", texts s.wouldUpload),
    ("files_that_remain_untouched", texts (s.files.map LegacyFile.path))] ++
    match s.applied with
    | none => []
    | some a => [("upload_errors", texts a.uploadErrors),
        ("remote_copy_confirmed", .bool a.remoteCopyConfirmed),
        ("legacy_receipt_remote_verified", .bool a.receiptVerified)])

/-- `legacy_inventory.json`. -/
structure Inventory where
  generatedAt : String
  dates : List DateEntry
  static : StaticInventory

/-- The document that is written. -/
def Inventory.toDoc (i : Inventory) : Doc :=
  .dict [("inventory_version", .int 1), ("generated_at", .str i.generatedAt),
    ("inventory_complete", .bool true), ("dates", .list (i.dates.map DateEntry.toDoc)),
    ("static_gtfs", i.static.toDoc)]

/-- The paths whose upload is still missing. -/
def toUpload (statuses : Statuses) : List String :=
  (statuses.filter fun s => s.2 ≠ "sha256_match").map Prod.fst

/-- The statuses of an inventory, or that nobody asked for them. -/
def statusesFor (checkRemote enabled : Bool) (files : List LegacyFile) : ArchiveProg B Statuses :=
  if checkRemote then statusesOrFailure enabled files
  else pure (dictOf (files.map fun f => (f.path, "not_checked")))

/-- The entries of the dates. -/
def inventoryDates (C : Contents B) (parse : String → Option ℤ) (checkRemote enabled : Bool) :
    List String → ArchiveProg B (List DateEntry)
  | [] => pure []
  | date :: dates => do
    let i ← look fun d => .ok (inventoryDate C parse d date)
    let statuses ← statusesFor checkRemote enabled i.files
    let rest ← inventoryDates C parse checkRemote enabled dates
    pure (⟨i, statuses, toUpload statuses, none⟩ :: rest)

/-- The problem of a static file: it cannot be inventoried, or is no archive. -/
def staticProblem (C : Contents B) (d : DataDir B) (f : Path × String) : Option String :=
  match inventoryFile C d f.1 f.2 with
  | .error e => some (inventoryError f.1 e)
  | .ok _ =>
    if f.2 = "static_gtfs_zip" then
      match (readFile d f.1).bind C.validateGtfsZip with
      | .ok () => none
      | .error e => some (inventoryError f.1 e)
    else none

/-- The static archives, before the remote is asked. -/
def inventoryStatic (C : Contents B) (d : DataDir B) : StaticInventory :=
  let found := staticFiles d
  let inventoried := inventoryFiles C d found
  { problems := found.filterMap (staticProblem C d) ++
      if inventoried.1.any fun f => decide (f.kind = "static_gtfs_zip") then []
      else ["static_gtfs_zip_missing"]
    inventoryComplete := inventoried.2.isEmpty
    files := inventoried.1
    statuses := []
    wouldUpload := [] }

/-- What the code uses of the standard library: file contents, `int(text)`, and the texts
`strptime` accepts as dates. -/
structure Library (B : Type) where
  contents : Contents B
  intOfText : String → Option ℤ
  isDate : String → Bool

/-- A migrator: its credentials, and the texts of its clock. -/
structure Migrator (B : Type) extends Library B where
  enabled : Bool
  repoId : String
  today : String
  now : String

/-- `LegacyMigrator.inventory`. -/
def inventory (m : Migrator B) (checkRemote : Bool) : ArchiveProg B Inventory := do
  let dates ← look fun d => .ok (discoverCompletedDates m.isDate m.today d)
  let entries ← inventoryDates m.contents m.intOfText checkRemote m.enabled dates
  let static ← look fun d => .ok (inventoryStatic m.contents d)
  let statuses ← statusesFor checkRemote m.enabled static.files
  pure ⟨m.now, entries, { static with statuses := statuses, wouldUpload := toUpload statuses }⟩

/-! ### The copy -/

/-- The uploads of the files that do not match; the errors of those that fail. -/
def uploadFiles (statuses : Statuses) : List LegacyFile → ArchiveProg B (List String)
  | [] => pure []
  | f :: files => do
    if statuses.lookup f.path = some "sha256_match" then uploadFiles statuses files
    else
      match ← (command (.uploadFile (pathParts f.path) f.path)).attempt with
      | .ok () => uploadFiles statuses files
      | .error e => do
        let errors ← uploadFiles statuses files
        pure ((f.path ++ ":" ++ e.type.name) :: errors)

/-- The copy of some files: their statuses after it, and what failed. -/
def copyFiles (enabled : Bool) (statuses : Statuses) (files : List LegacyFile) :
    ArchiveProg B (Statuses × List String) :=
  if enabled then do
    let errors ← uploadFiles statuses files
    match ← (remoteStatuses enabled files).attempt with
    | .ok statuses => pure (statuses, errors)
    | .error e => pure (statuses, errors ++ ["verification:" ++ e.type.name])
  else pure (statuses, [])

/-- Every file is on the remote, as far as it says. -/
def copyConfirmed (enabled : Bool) (statuses : Statuses) (errors : List String) : Bool :=
  enabled && errors.isEmpty && statuses.all fun s =>
    decide (s.2 = "sha256_match" ∨ s.2 = "size_match_checksum_unavailable")

/-- The fields the receipts of a date and of the static archives share. -/
def receiptFields (m : Migrator B) (classification : Classification) (confirmed : Bool)
    (files : List LegacyFile) (statuses : Statuses) (errors : List String) : List (String × Doc) :=
  [("version", .int 1), ("recorded_at", .str m.now),
    ("repo_id", if m.repoId = "" then .null else .str m.repoId),
    ("classification", .str classification.name), ("scientific_complete", .bool false),
    ("remote_copy_confirmed", .bool confirmed),
    ("verification", .str (if confirmed then
      "remote path and size; SHA-256 additionally checked for LFS objects"
      else "remote copy not confirmed")),
    ("artifacts", .list (files.map LegacyFile.toDoc)), ("remote_status", statusesDoc statuses),
    ("upload_errors", texts errors)]

/-- `backup_receipts/legacy/<name>`. -/
def legacyReceiptPath (name : String) : Path := ["backup_receipts", "legacy", name]

/-- The upload of a receipt and its check. -/
def confirmReceipt (kind : String) (pending target : Path) (size : ℕ) (sha256 : String) :
    ArchiveProg B Unit := do
  command (.uploadFile pending (pathText target))
  verifyRemote [(pathText target, .dict [("path", .str (pathText target)), ("kind", .str kind),
    ("size", .int size), ("sha256", .str sha256)])] none

/-- The upload of a receipt whose files are on the remote: was it verified, or what went wrong. -/
def verifyReceipt (m : Migrator B) (kind : String) (pending target : Path) (confirmed : Bool) :
    ArchiveProg B (Except PyError Bool) :=
  if m.enabled && confirmed then do
    let f ← look fun d => stat d pending
    let sha256 ← look fun d => sha256File m.contents d pending
    let r ← (confirmReceipt kind pending target (m.contents.size f.content) sha256).attempt
    pure (r.map fun _ => true)
  else pure (.ok false)

/-- A legacy receipt is written under its pending name, copied to the remote if its files were, and
renamed. -/
def writeReceipt (m : Migrator B) (kind name : String) (confirmed : Bool) (receipt : Doc) :
    ArchiveProg B (Except PyError Bool) := do
  let target := legacyReceiptPath name
  let pending := legacyReceiptPath ("." ++ name ++ ".pending")
  change fun d => putFile d pending (m.contents.dumps receipt)
  let verified ← verifyReceipt m kind pending target confirmed
  onDisk fun d => (replaceFile d pending target).map fun d => (d, ())
  pure verified

/-- What is kept of a copy and its receipt. -/
def appliedOf (errors : List String) (confirmed : Bool) (verified : Except PyError Bool) :
    Applied :=
  match verified with
  | .ok v => ⟨errors, confirmed, v⟩
  | .error e => ⟨errors ++ ["legacy_receipt:" ++ e.type.name], confirmed, false⟩

/-- The loop of `apply` over the dates. -/
def applyDates (m : Migrator B) : List DateEntry → ArchiveProg B (List DateEntry)
  | [] => pure []
  | e :: entries => do
    let i := e.inventory
    if i.classification = .v2Complete then do
      let rest ← applyDates m entries
      pure (e :: rest)
    else do
      let (statuses, errors) ← copyFiles m.enabled e.statuses i.files
      let confirmed := copyConfirmed m.enabled statuses errors
      let verified ← writeReceipt m "legacy_backup_receipt" (dateDir i.date ++ ".json") confirmed
        (.dict (("date", .str i.date) ::
          receiptFields m i.classification confirmed i.files statuses errors))
      let rest ← applyDates m entries
      pure ({ e with statuses := statuses, applied := some (appliedOf errors confirmed verified) }
        :: rest)

/-- The part of `apply` that is about the static archives. -/
def applyStatic (m : Migrator B) (s : StaticInventory) : ArchiveProg B StaticInventory := do
  let (statuses, errors) ← copyFiles m.enabled s.statuses s.files
  let confirmed := copyConfirmed m.enabled statuses errors && !s.files.isEmpty
  let verified ← writeReceipt m "legacy_static_gtfs_receipt" "static_gtfs.json" confirmed
    (.dict (receiptFields m s.classification confirmed s.files statuses errors))
  pure { s with statuses := statuses, applied := some (appliedOf errors confirmed verified) }

/-- `create_repo`, if there are credentials. -/
def createRepo (enabled : Bool) : ArchiveProg B Unit :=
  if enabled then command .createRepo else pure ()

/-- `LegacyMigrator.apply`, up to its last write. -/
def applyCopies (m : Migrator B) (i : Inventory) : ArchiveProg B Inventory := do
  createRepo m.enabled
  let dates ← applyDates m i.dates
  let static ← applyStatic m i.static
  pure ⟨i.generatedAt, dates, static⟩

/-- `LegacyMigrator.apply`. -/
def apply (m : Migrator B) (i : Inventory) : ArchiveProg B Inventory := do
  let result ← applyCopies m i
  change fun d => putFile d legacyInventoryPath (m.contents.dumps result.toDoc)
  pure result

/-- A migration: an inventory, and its application. -/
def migrate (m : Migrator B) (checkRemote : Bool) : ArchiveProg B Inventory := do
  let i ← inventory m checkRemote
  apply m i

end BkkCollector.Cli.MigrateLegacy
