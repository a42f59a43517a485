import BkkCollector.Archive.Retention

/-! # Backing up dates

`backup_date` checks a complete manifest and the files it lists, uploads what the remote does not
have yet, verifies everything at one revision, uploads the receipt and only then gives it its name.
`run_backlog` goes through the pending dates, oldest first.

What `build_daily_manifest` does is a parameter: it is any program that returns a manifest. -/

namespace BkkCollector.Archive.BackupDate

open BkkCollector.Logic.Program BkkCollector.Python.Objects BkkCollector.Python.Documents
open BkkCollector.Archive.DataDir BkkCollector.Archive.Remote BkkCollector.Archive.Backup
open BkkCollector.Archive.Retention

variable {B : Type}

/-- A `BackupManager`: its settings, its clock, and the manifests it builds. -/
structure BackupManager (B : Type) extends Site B where
  /-- What `strptime` accepts. -/
  isDate : String → Bool
  today : String
  now : String
  /-- The reason of a failure: URLs and the token are redacted. -/
  redact : PyError → String
  buildDailyManifest : String → ArchiveProg B Doc

/-- `BackupResult`. -/
structure BackupResult where
  date : String
  success : Bool
  reason : String
  deriving DecidableEq

/-! ### Status -/

/-- `backup_status.json`. -/
def statusPath : Path := ["backup_status.json"]

/-- `backup_history.jsonl`. -/
def historyPath : Path := ["backup_history.jsonl"]

/-- The status with another attempt for a date. -/
def nextStatus (parse : String → Option ℤ) (now date : String) (success : Bool) (reason : String)
    (state : Doc) : Except PyError Doc := do
  match state with
  | .dict members => do
    let dates := (members.lookup "dates").getD (.dict [])
    let previous ← dates.get date (.dict [])
    let attempts ← (← previous.get "attempts" (.int 0)).toInt parse
    match dates with
    | .dict entries => do
      let entry : Doc := .dict [("last_attempt_at", .str now), ("success", .bool success),
        ("reason", .str (String.ofList (reason.toList.take 2000))), ("attempts", .int (attempts + 1))]
      pure (.dict (assign "updated_at" (.str now)
        (assign "dates" (.dict (assign date entry entries)) members)))
    | _ => throw ⟨.typeError, "object does not support item assignment"⟩
  | _ => throw ⟨.attributeError, "object has no attribute 'setdefault'"⟩

/-- `_record_status`. -/
def recordStatus (M : BackupManager B) (date : String) (success : Bool) (reason : String) :
    ArchiveProg B Unit := do
  let state ← readDoc M.contents statusPath (.dict [("version", .int 1), ("dates", .dict [])])
  let next ← lift (nextStatus M.intOfText M.now date success reason state)
  change fun d => putFile d statusPath (M.contents.dumps next)

/-! ### Manifests -/

/-- The file of `data_dir / text`; outside of the data directory there is none. -/
def localFile (d : DataDir B) (text : String) : Option (FileData B) :=
  if isAbsolute text || decide (".." ∈ pathParts text) then none else fileAt d (pathParts text)

/-- Is the file of an artifact the one the manifest describes. -/
def isCurrent (C : Contents B) (d : DataDir B) (artifact : Doc) : Except PyError Bool := do
  let path ← artifactPath artifact
  match localFile d path with
  | none => pure false
  | some f =>
    if (← artifact.get "size" .null).eqInt (C.size f.content) then
      pure ((← artifact.get "mtime_ns" .null).eqInt f.mtimeNs)
    else pure false

/-- The loop of `_load_or_build_manifest` over the artifacts. -/
def allCurrent (C : Contents B) (d : DataDir B) : List Doc → Except PyError Bool
  | [] => pure true
  | artifact :: artifacts => do
    if ← isCurrent C d artifact then allCurrent C d artifacts else pure false

/-- Is a stored manifest one to keep: it is complete, and no file it lists has changed. -/
def keepsManifest (C : Contents B) (d : DataDir B) (manifest : Doc) : Except PyError Bool := do
  if (← manifest.get "complete" .null).truthy && (← manifest.get "artifacts" .null).truthy &&
      (← manifest.get "static_gtfs_timeline" .null).truthy then do
    allCurrent C d (← (← manifest.item "artifacts").items)
  else pure false

/-- `_load_or_build_manifest`. -/
def loadOrBuildManifest (M : BackupManager B) (date : String) : ArchiveProg B Doc := do
  let manifest ← readDoc M.contents (manifestPath date) (.dict [])
  if ← look fun d => keepsManifest M.contents d manifest then pure manifest
  else M.buildDailyManifest date

/-- The texts of a list: `separator.join(d)` needs nothing else. -/
def textsOf : List Doc → Except PyError (List String)
  | [] => pure []
  | d :: ds => do
    match d.asStr with
    | some text => pure (text :: (← textsOf ds))
    | none => throw ⟨.typeError, "sequence item: expected str instance"⟩

/-- Why a manifest is incomplete. -/
def incompleteReason (manifest : Doc) : Except PyError String := do
  let errors ← textsOf (← (← manifest.item "completeness_errors").items)
  pure ("local date is incomplete: " ++ "; ".intercalate errors)

/-- `manifest["complete"]`. -/
def isComplete (manifest : Doc) : Except PyError Bool :=
  (manifest.item "complete").map Doc.truthy

/-! ### A date -/

/-- The paths among some infos that are the expected files, by size and LFS hash. -/
def matchedPaths (expected : List Artifact) : List RemoteInfo → Except PyError (List String)
  | [] => pure []
  | info :: infos => do
    let matched ← match expected.lookup info.path with
      | none => pure false
      | some artifact =>
        if sizeMatches info (← artifact.item "size") then
          pure (decide (info.lfsSha ≠ "") && (← artifact.item "sha256").eqStr info.lfsSha)
        else pure false
    let rest ← matchedPaths expected infos
    pure (if matched then info.path :: rest else rest)

/-- The loop of `_remote_lfs_matches`, in requests for a hundred paths. -/
def lfsMatches (expected : List Artifact) : List (List String) → ArchiveProg B (List String)
  | [] => pure []
  | paths :: rest => do
    let infos ← getPathsInfo paths none
    let matched ← lift (matchedPaths expected infos)
    let others ← lfsMatches expected rest
    pure (matched ++ others)

/-- `_remote_lfs_matches`. -/
def remoteLfsMatches (artifacts : List Artifact) : ArchiveProg B (List String) :=
  lfsMatches artifacts (hundreds (artifacts.map Prod.fst))

/-- The uploads of the artifacts the remote does not have. -/
def uploadMissing (verified : List String) : List Artifact → ArchiveProg B Unit
  | [] => pure ()
  | artifact :: artifacts => do
    unless decide (artifact.1 ∈ verified) do
      command (.uploadFile (pathParts artifact.1) artifact.1)
    uploadMissing verified artifacts

/-- The local checks of `backup_date`: the manifest, and the files it lists. -/
def checkedArtifacts (M : BackupManager B) (date : String) (manifest : Doc) :
    ArchiveProg B (List Artifact) := do
  lift (validateManifest M.intOfText date manifest)
  let artifacts ← look fun d => localArtifacts M.contents d date manifest
  validate M.contents artifacts
  pure artifacts

/-- The artifacts go to the remote, and are verified at its revision. -/
def uploadArtifacts (artifacts : List Artifact) : ArchiveProg B String := do
  command .createRepo
  let verified ← remoteLfsMatches artifacts
  uploadMissing verified artifacts
  let revision ← remoteRevision
  verifyRemote artifacts (some revision)
  pure revision

/-- `next(artifact for artifact in artifacts if artifact["kind"] == "daily_manifest")`. -/
def dailyManifest : List Artifact → Except PyError Doc
  | [] => throw ⟨.runtimeError, "StopIteration"⟩
  | artifact :: artifacts => do
    if (← artifact.2.item "kind").eqStr "daily_manifest" then pure artifact.2
    else dailyManifest artifacts

/-- The receipt of a date. -/
def receiptDoc (M : BackupManager B) (date revision : String) (manifestSha : Doc)
    (artifacts : List Artifact) : Doc :=
  .dict [("version", .int 2), ("date", .str date), ("confirmed_at", .str M.now),
    ("repo_id", .str M.repoId), ("remote_verified", .bool true),
    ("verification", .str ("size and SHA-256 for every artifact at remote_revision " ++
      "(LFS hash or streamed download)")),
    ("remote_revision", .str revision), ("manifest_sha256", manifestSha),
    ("artifacts", .list (artifacts.map Prod.snd))]

/-- `.date=<date>.pending.json`. -/
def pendingReceiptPath (date : String) : Path :=
  ["backup_receipts", "." ++ dateDir date ++ ".pending.json"]

/-- The receipt under its pending name, after the files were validated again. -/
def writeReceipt (M : BackupManager B) (date revision : String) (artifacts : List Artifact) :
    ArchiveProg B Artifact := do
  validate M.contents artifacts
  let manifest ← lift (dailyManifest artifacts)
  let manifestSha ← lift (manifest.item "sha256")
  change fun d => putFile d (pendingReceiptPath date)
    (M.contents.dumps (receiptDoc M date revision manifestSha artifacts))
  let f ← look fun d => stat d (pendingReceiptPath date)
  let sha256 ← look fun d => sha256File M.contents d (pendingReceiptPath date)
  pure (pathText (receiptPath date), .dict [("path", .str (pathText (receiptPath date))),
    ("kind", .str "backup_receipt"), ("size", .int (M.contents.size f.content)),
    ("sha256", .str sha256)])

/-- The receipt goes to the remote. -/
def uploadReceipt (date : String) (receipt : Artifact) : ArchiveProg B Unit := do
  command (.uploadFile (pendingReceiptPath date) receipt.1)
  verifyRemote [receipt] none

/-- The receipt gets its name, and the success is recorded. -/
def installReceipt (M : BackupManager B) (date : String) : ArchiveProg B Unit := do
  onDisk fun d => (replaceFile d (pendingReceiptPath date) (receiptPath date)).map fun d => (d, ())
  change fun d => appendFile M.contents d historyPath (.dict [("date", .str date),
    ("confirmed_at", .str M.now), ("version", .int 2)])
  recordStatus M date true "remote artifacts verified"

/-- The `try` block of `backup_date`, for a complete manifest. -/
def backupComplete (M : BackupManager B) (date : String) (manifest : Doc) :
    ArchiveProg B BackupResult := do
  let artifacts ← checkedArtifacts M date manifest
  let revision ← uploadArtifacts artifacts
  let receipt ← writeReceipt M date revision artifacts
  uploadReceipt date receipt
  installReceipt M date
  pure ⟨date, true, "remote artifacts verified"⟩

/-- `manifest or build_daily_manifest(..)`. -/
def givenOrBuilt (M : BackupManager B) (date : String) : Option Doc → ArchiveProg B Doc
  | some manifest => if manifest.truthy then pure manifest else M.buildDailyManifest date
  | none => M.buildDailyManifest date

/-- The `try` block of `backup_date`. -/
def backupTry (M : BackupManager B) (date : String) (manifest : Option Doc) :
    ArchiveProg B BackupResult := do
  if ← look fun d => .ok (decide (date ∈ confirmedDates M.contents M.repoId d)) then
    pure ⟨date, true, "immutable receipt already exists"⟩
  else do
    let manifest ← givenOrBuilt M date manifest
    if ← lift (isComplete manifest) then backupComplete M date manifest
    else do
      let reason ← lift (incompleteReason manifest)
      recordStatus M date false reason
      pure ⟨date, false, reason⟩

/-- `backup_date`. -/
def backupDate (M : BackupManager B) (date : String) (manifest : Option Doc) :
    ArchiveProg B BackupResult :=
  (backupTry M date manifest).tryCatch fun e => do
    recordStatus M date false (M.redact e)
    pure ⟨date, false, M.redact e⟩

/-! ### The backlog -/

/-- A date whose manifest is incomplete. -/
def recordIncomplete (M : BackupManager B) (date : String) (manifest : Doc) :
    ArchiveProg B BackupResult := do
  let reason ← lift (incompleteReason manifest)
  recordStatus M date false reason
  pure ⟨date, false, reason⟩

/-- The loop of `run_backlog`. -/
def backlog (M : BackupManager B) (maxUploadAttempts : ℤ) :
    List String → ℕ → List BackupResult → ArchiveProg B (List BackupResult)
  | [], _, results => pure results
  | date :: dates, attempts, results => do
    match ← (loadOrBuildManifest M date).attempt with
    | .error e =>
      backlog M maxUploadAttempts dates attempts
        (results ++ [⟨date, false, "manifest failed: " ++ e.message⟩])
    | .ok manifest =>
      if ← lift (isComplete manifest) then
        if maxUploadAttempts ≤ attempts then pure results
        else do
          let result ← backupDate M date (some manifest)
          if result.success then
            backlog M maxUploadAttempts dates (attempts + 1) (results ++ [result])
          else pure (results ++ [result])
      else do
        let result ← recordIncomplete M date manifest
        backlog M maxUploadAttempts dates attempts (results ++ [result])

/-- `run_backlog`. -/
def runBacklog (M : BackupManager B) (maxUploadAttempts : ℤ) :
    ArchiveProg B (List BackupResult) := do
  let dates ← look (pendingDates M.contents M.isDate M.today M.repoId)
  backlog M maxUploadAttempts dates 0 []

end BkkCollector.Archive.BackupDate
