import BkkCollector.Archive.Backup

/-! # Eviction of verified files

`_prune_date` removes the raw or the Parquet files of a date whose receipt is verified. Every check
of all three feeds comes before the first removal; an intent written before it says which files the
call is about, so that a call after an interrupted one may find some of them missing. -/

namespace BkkCollector.Archive.Retention

open BkkCollector.Config BkkCollector.Logic.Program BkkCollector.Python.Objects
open BkkCollector.Python.Documents
open BkkCollector.Archive.DataDir BkkCollector.Archive.Remote BkkCollector.Archive.Backup

variable {B : Type}

/-! ### The files of a date -/

/-- The operations `prune_confirmed` supports. -/
inductive Kind where
  | raw
  | parquet
  deriving DecidableEq

/-- The name of a kind. -/
def Kind.name : Kind → String
  | .raw => "raw"
  | .parquet => "parquet"

/-- What `_inventory` keeps of a file: device, inode, size and modification time. -/
abbrev Stamp := ℕ × ℕ × ℕ × ℕ

/-- The partition of a kind, a feed and a date. -/
def partitionPath (kind : Kind) (date : String) (feed : Feed) : Path :=
  [kind.name, feed.name, dateDir date]

/-- An entry of a partition. -/
def inventoryEntry (C : Contents B) (d : DataDir B) (kind : Kind) (directory : Path)
    (name : String) : Except PyError (String × Stamp) :=
  if isSymlink d (directory ++ [name]) then
    .error (invalid ("unexpected directory/symlink: " ++ name))
  else
    match fileAt d (directory ++ [name]) with
    | none => .error (invalid ("unexpected directory/symlink: " ++ name))
    | some f =>
      if kind = .parquet ∧ suffix name ≠ ".parquet" then
        .error (invalid ("unexpected Parquet partition entry: " ++ name))
      else .ok (pathText (directory ++ [name]), f.device, f.inode, C.size f.content, f.mtimeNs)

/-- The entries of a partition. -/
def inventoryEntries (C : Contents B) (d : DataDir B) (kind : Kind) (directory : Path) :
    List String → Except PyError (List (String × Stamp))
  | [] => pure []
  | name :: names => do
    let entry ← inventoryEntry C d kind directory name
    let rest ← inventoryEntries C d kind directory names
    pure (entry :: rest)

/-- The loop body of `_inventory`. -/
def inventoryFeed (C : Contents B) (d : DataDir B) (kind : Kind) (date : String) (feed : Feed) :
    Except PyError (List (String × Stamp)) := do
  let directory ← safePath d (pathText (partitionPath kind date feed))
  let spool ← safePath d (pathText ["spool", feed.name, dateDir date])
  if existsAt d spool && !(iterdir d spool).isEmpty then
    throw (invalid "pending spool/recovery work")
  else if existsAt d directory then
    inventoryEntries C d kind directory (iterdir d directory)
  else pure []

/-- `_inventory`, for some feeds. -/
def inventoryFeeds (C : Contents B) (d : DataDir B) (kind : Kind) (date : String) :
    List Feed → Except PyError (List (String × Stamp))
  | [] => pure []
  | feed :: feeds => do
    let files ← inventoryFeed C d kind date feed
    let rest ← inventoryFeeds C d kind date feeds
    pure (files ++ rest)

/-- `_inventory`. -/
def inventory (C : Contents B) (kind : Kind) (date : String) (d : DataDir B) :
    Except PyError (List (String × Stamp)) :=
  inventoryFeeds C d kind date feedNames

/-- `actual == _inventory(..)`, of dicts. -/
def sameInventory (actual again : List (String × Stamp)) : Bool :=
  decide (actual.length = again.length) &&
    actual.all fun entry => decide (again.lookup entry.1 = some entry.2)

/-! ### The receipt -/

/-- The first checks of a receipt. -/
def receiptArtifacts (repoId date : String) (receipt : Doc) : Except PyError (List Doc) := do
  unless (← receipt.get "version" .null).eqInt 2 && (← receipt.get "date" .null).eqStr date &&
      (← receipt.get "remote_verified" .null).isTrue &&
      (← receipt.get "repo_id" .null).eqStr repoId do
    throw (invalid "missing or unverified v2 receipt")
  match (← receipt.get "artifacts" .null).asList with
  | some (artifact :: artifacts) => pure (artifact :: artifacts)
  | _ => throw (invalid "receipt lacks artifacts")

/-- The size and the hash of an artifact are of their types, and its path is new. -/
def checkArtifact (indexed : List Artifact) (artifact : Artifact) : Except PyError Unit := do
  let size ← artifact.2.get "size" .null
  let sha256 ← artifact.2.get "sha256" (.str "")
  match size.exactInt with
  | some n =>
    if (indexed.lookup artifact.1).isSome || decide (n < 0) then
      throw (invalid "invalid/duplicate receipt artifact")
    else
      match sha256 with
      | .str s =>
        unless isHex 64 s do throw (invalid "invalid/duplicate receipt artifact")
      | _ => throw ⟨.typeError, "expected string or bytes-like object"⟩
  | none => throw (invalid "invalid/duplicate receipt artifact")

/-- The artifacts of a receipt by their paths. -/
def indexArtifacts : List Artifact → List Doc → ArchiveProg B (List Artifact)
  | indexed, [] => pure indexed
  | indexed, artifact :: artifacts => do
    let name ← lift (artifactPath artifact)
    let _ ← look fun d => safePath d name
    lift (checkArtifact indexed (name, artifact))
    indexArtifacts (indexed ++ [(name, artifact)]) artifacts

/-- The manifest among the artifacts, with the hash the receipt gives. -/
def authenticManifest (date : String) (receipt : Doc) (indexed : List Artifact) :
    Except PyError Artifact := do
  match indexed.lookup (manifestName date) with
  | none => throw (invalid "receipt lacks authenticated daily manifest")
  | some artifact =>
    match (← artifact.item "sha256").asStr with
    | none => throw (invalid "receipt lacks authenticated daily manifest")
    | some sha256 =>
      if (← receipt.get "manifest_sha256" .null).eqStr sha256 then
        pure (manifestName date, artifact)
      else throw (invalid "receipt lacks authenticated daily manifest")

/-- `a.get("kind") == kind`. -/
def ofKind (kind : Kind) (artifact : Artifact) : Bool :=
  match artifact.2.get "kind" .null with
  | .ok k => k.eqStr kind.name
  | .error _ => false

/-- The artifacts of a kind. -/
def expectedArtifacts (kind : Kind) (indexed : List Artifact) : List Artifact :=
  indexed.filter (ofKind kind)

/-- A path lies directly in a partition of the kind and the date. -/
def inPartition (kind : Kind) (date name : String) : Bool :=
  match pathParts name with
  | [k, feed, day, _] =>
    decide (k = kind.name ∧ feed ∈ feedNames.map Feed.name ∧ day = dateDir date) &&
      (decide (kind ≠ .parquet) || endsWith ".parquet" name)
  | _ => false

/-- The checks of the expected artifacts against each other and against the files. -/
def checkExpected (kind : Kind) (date : String) (expected : List Artifact)
    (actual : List (String × Stamp)) : Except PyError Unit := do
  unless feedNames.all (fun feed => expected.any fun a =>
      startsWith (pathText (partitionPath kind date feed) ++ "/") a.1) do
    throw (invalid "receipt lacks evidence of a feed")
  unless expected.all fun a => inPartition kind date a.1 do
    throw (invalid "receipt artifact is outside the requested date/kind")
  unless actual.all fun file => (expected.lookup file.1).isSome do
    throw (invalid "unexpected files absent from receipt")

/-! ### The intent -/

/-- `maintenance/prune-<kind>-<date>.json`. -/
def statePath (kind : Kind) (date : String) : Path :=
  ["maintenance", "prune-" ++ kind.name ++ "-" ++ date ++ ".json"]

/-- `sorted(expected)`. -/
def plannedFiles (expected : List Artifact) : List String :=
  (expected.map Prod.fst).insertionSort (· ≤ ·)

/-- A list of texts. -/
def eqTexts (d : Doc) (texts : List String) : Bool :=
  match d.asList with
  | some items => decide (items.map Doc.asStr = texts.map some)
  | none => false

/-- The intent of an earlier call is one for the same files and the same receipt. -/
def resumes (kind : Kind) (date receiptSha : String) (expected : List Artifact) (previous : Doc) :
    Except PyError Bool := do
  pure ((← previous.get "receipt_sha256" .null).eqStr receiptSha &&
    (← previous.get "operation" .null).eqStr (kind.name ++ "_prune") &&
    (← previous.get "date" .null).eqStr date &&
    eqTexts (← previous.get "planned_files" .null) (plannedFiles expected))

/-- Missing files are those of an interrupted call. -/
def checkMissing (kind : Kind) (date receiptSha : String) (expected : List Artifact)
    (actual : List (String × Stamp)) (previous : Doc) : Except PyError Unit := do
  if expected.any (fun a => (actual.lookup a.1).isNone) then do
    unless ← resumes kind date receiptSha expected previous do
      throw (invalid "missing local files without matching prune recovery intent")

/-- The files that are there. -/
def candidateArtifacts (expected : List Artifact) (actual : List (String × Stamp)) :
    List Artifact :=
  ((actual.map Prod.fst).insertionSort (· ≤ ·)).filterMap fun name =>
    (expected.lookup name).map fun artifact => (name, artifact)

/-- The revision the objects are verified at: the one the receipt pins, or the head. -/
def pinnedRevision (receipt : Doc) (head : String) : Except PyError String := do
  match (← receipt.get "remote_revision" (.str head)).asStr with
  | some revision =>
    if isHex 40 revision then pure revision else throw (invalid "invalid receipt revision")
  | none => throw (invalid "invalid receipt revision")

/-- What a call has authorized. -/
structure Plan where
  receiptSha : String
  head : String
  revision : String
  expected : List Artifact
  candidates : List Artifact

/-- What all calls share: how files are read, and the repository. -/
structure Site (B : Type) where
  contents : Contents B
  intOfText : String → Option ℤ
  repoId : String

/-- A pruner: its settings and its clock. -/
structure Pruner (B : Type) extends Site B where
  enabled : Bool
  /-- The day `strptime` makes of a text. -/
  dayOf : String → Option ℤ
  today : ℤ
  now : String

/-- The intent. -/
def intentDoc (P : Pruner B) (kind : Kind) (date : String) (plan : Plan) (status : String)
    (removed : List Artifact) : Doc :=
  .dict [("version", .int 2), ("operation", .str (kind.name ++ "_prune")), ("date", .str date),
    ("timestamp", .str P.now), ("receipt_sha256", .str plan.receiptSha),
    ("remote_revision", .str plan.revision),
    ("planned_files", .list ((plannedFiles plan.expected).map .str)), ("status", .str status),
    ("files_deleted", .list (removed.map fun a => .str a.1)),
    ("bytes_deleted", .int (removed.map fun a =>
      match a.2 with
      | .dict members => (((members.lookup "size").getD .null).exactInt).getD 0
      | _ => 0).sum)]

/-! ### Pruning -/

/-- `_validate_local`, noted. -/
def validate (C : Contents B) (artifacts : List Artifact) : ArchiveProg B Unit :=
  noting (fun d => validateLocal C d true artifacts) fun d _ => .validated d artifacts

/-- `_inventory`, noted. -/
def listFiles (C : Contents B) (kind : Kind) (date : String) :
    ArchiveProg B (List (String × Stamp)) :=
  noting (inventory C kind date) fun d _ => .listed d

/-- `safe_path` and `read_json` of the receipt. -/
def readReceipt (C : Contents B) (date : String) : ArchiveProg B Doc := do
  let _ ← look fun d => safePath d (pathText (receiptPath date))
  readDoc C (receiptPath date) (.dict [])

/-- What `_verify_remote` is asked about the receipt itself. -/
def receiptArtifact (date : String) (size : ℕ) (sha256 : String) : Artifact :=
  (pathText (receiptPath date), .dict [("path", .str (pathText (receiptPath date))),
    ("size", .int size), ("sha256", .str sha256)])

/-- The last look before the removal: the same files, and the same receipt. -/
def checkUnchanged (C : Contents B) (kind : Kind) (date : String)
    (actual : List (String × Stamp)) (receiptSha : String) : ArchiveProg B Unit := do
  let again ← listFiles C kind date
  let sha256 ← look fun d => sha256File C d (receiptPath date)
  unless sameInventory actual again && decide (sha256 = receiptSha) do
    throw (invalid "date changed during prune validation")

/-- The local checks of `_prune_date`: the receipt, its hash, and the expected artifacts. -/
def checkLocal (P : Pruner B) (kind : Kind) (date : String) (actual : List (String × Stamp)) :
    ArchiveProg B (Doc × String × List Artifact) := do
  let receipt ← readReceipt P.contents date
  let artifacts ← lift (receiptArtifacts P.repoId date receipt)
  let indexed ← indexArtifacts [] artifacts
  let manifestArtifact ← lift (authenticManifest date receipt indexed)
  validate P.contents [manifestArtifact]
  let manifest ← readDoc P.contents (manifestPath date) (.dict [])
  unless (← lift (manifest.get "complete" .null)).isTrue do
    throw (invalid "manifest is incomplete")
  lift (validateManifest P.intOfText date manifest)
  let expected := expectedArtifacts kind indexed
  lift (checkExpected kind date expected actual)
  let receiptSha ← look fun d => sha256File P.contents d (receiptPath date)
  let previous ← readDoc P.contents (statePath kind date) (.dict [])
  lift (checkMissing kind date receiptSha expected actual previous)
  pure (receipt, receiptSha, expected)

/-- `_prune_date`, up to the intent. -/
def authorize (P : Pruner B) (kind : Kind) (date : String) (actual : List (String × Stamp)) :
    ArchiveProg B Plan := do
  let (receipt, receiptSha, expected) ← checkLocal P kind date actual
  let candidates := candidateArtifacts expected actual
  validate P.contents candidates
  let head ← remoteRevision
  let revision ← lift (pinnedRevision receipt head)
  let f ← look fun d => stat d (receiptPath date)
  verifyRemote [receiptArtifact date (P.contents.size f.content) receiptSha] (some head)
  verifyRemote expected (some revision)
  validate P.contents candidates
  checkUnchanged P.contents kind date actual receiptSha
  pure ⟨receiptSha, head, revision, expected, candidates⟩

/-- The intent is written, and logged. -/
def writeIntent (P : Pruner B) (kind : Kind) (date : String) (plan : Plan) (status : String)
    (removed : List Artifact) : ArchiveProg B Unit := do
  let intent := intentDoc P kind date plan status removed
  change fun d => putFile d (statePath kind date) (P.contents.dumps intent)
  change fun d => appendFile P.contents d ["prune_history.jsonl"] intent

/-- `path.unlink()` and `fsync_directory(path.parent)`. -/
def removeFile (path : Path) : ArchiveProg B Unit := do
  onDisk fun d => (unlinkFile d path).map fun d => (d, ())
  change id

/-- The loop over the candidates: those that were removed, and what stopped it. -/
def unlinkAll : List Artifact → ArchiveProg B (List Artifact × Option PyError)
  | [] => pure ([], none)
  | a :: rest => do
    match ← (removeFile (pathParts a.1)).attempt with
    | .error e => pure ([], some e)
    | .ok () => do
      let (removed, stopped) ← unlinkAll rest
      pure (a :: removed, stopped)

/-- `_prune_date`, from the intent on. -/
def carryOut (P : Pruner B) (kind : Kind) (date : String) (plan : Plan) :
    ArchiveProg B (List Path) := do
  writeIntent P kind date plan "validated" []
  let (removed, stopped) ← unlinkAll plan.candidates
  writeIntent P kind date plan (if stopped.isNone then "complete" else "interrupted") removed
  match stopped with
  | some e => throw e
  | none => pure (removed.map fun a => pathParts a.1)

/-- `_prune_date`. -/
def pruneDate (P : Pruner B) (kind : Kind) (date : String) : ArchiveProg B (List Path) := do
  let actual ← listFiles P.contents kind date
  if actual.isEmpty then pure []
  else do
    let plan ← authorize P kind date actual
    carryOut P kind date plan

/-- A new page of the history: what is seen from here on belongs to this date. -/
def newPage : ArchiveProg B Unit :=
  .act .disk (fun _ w => { w with history := [] }) fun _ _ => .pure ()

/-- The loop body of `prune_confirmed`: what raises is a refusal. -/
def pruneDue (P : Pruner B) (kind : Kind) (cutoff : ℤ) (date : String) :
    ArchiveProg B (List Path) :=
  match P.dayOf date with
  | none => pure []
  | some day =>
    if cutoff ≤ day then pure []
    else do
      newPage
      match ← (pruneDate P kind date).attempt with
      | .ok removed => pure removed
      | .error _ => pure []

/-- The loop of `prune_confirmed`. -/
def pruneDates (P : Pruner B) (kind : Kind) (cutoff : ℤ) : List String → ArchiveProg B (List Path)
  | [] => pure []
  | date :: dates => do
    let removed ← pruneDue P kind cutoff date
    let rest ← pruneDates P kind cutoff dates
    pure (removed ++ rest)

/-- `prune_confirmed`. The first operation takes the lock; another pruner may hold it. -/
def pruneConfirmed (P : Pruner B) (kind : Kind) (afterDays : ℤ) : ArchiveProg B (List Path) :=
  if afterDays ≤ 0 ∨ P.enabled = false then pure []
  else do
    match ← (change id).attempt with
    | .error _ => pure []
    | .ok () => do
      let dates ← look fun d => .ok (confirmedDates P.contents P.repoId d)
      pruneDates P kind (P.today - afterDays) (dates.insertionSort (· ≤ ·))

end BkkCollector.Archive.Retention
