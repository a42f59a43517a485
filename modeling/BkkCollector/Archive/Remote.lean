import BkkCollector.Archive.DataDir
import BkkCollector.Logic.Program

/-! # Programs of the archive

The archive code reads and writes the data directory and asks the remote repository. One node of a
program is one look at the directory, one change of it, or one request; the environment decides
whether it fails and what the remote answers. A history keeps the answers, and what the checks saw
in the directory: what was verified can be read off it. -/

namespace BkkCollector.Archive.Remote

open BkkCollector.Logic.Program BkkCollector.Python.Objects BkkCollector.Python.Documents
open BkkCollector.Archive.DataDir

/-! ### Requests -/

/-- What the remote says about a file. A path or a hash it does not give is empty. -/
structure RemoteInfo where
  path : String
  size : Option ℕ
  lfsSha : String
  deriving DecidableEq

/-- A request to the remote. -/
inductive Request where
  | createRepo
  | getPathsInfo (paths : List String) (revision : Option String)
  | download (path revision : String)
  | repoInfo
  | uploadFile (source : Path) (pathInRepo : String)
  deriving DecidableEq

/-- What becomes of an operation. -/
inductive Reply where
  | done
  | fault (e : PyError)
  | infos (infos : List RemoteInfo)
  | digest (sha256 : String)
  | revision (sha : String)
  deriving DecidableEq

/-- An operation: on the data directory, or a request. -/
inductive Op where
  | disk
  | remote (request : Request)

variable {B α : Type}

/-- An artifact, and the path it names. -/
abbrev Artifact := String × Doc

/-- What happened in a call: the remote answered, a document was read, artifacts matched the files of
the directory, or its files were listed. -/
inductive Event (B : Type) where
  | answer (request : Request) (reply : Reply)
  | read (path : Path) (document : Doc)
  | validated (disk : DataDir B) (artifacts : List Artifact)
  | listed (disk : DataDir B)

/-- The data directory, and the history of this call. -/
structure World (B : Type) where
  disk : DataDir B
  history : List (Event B) := []

/-- A program of the archive. -/
abbrev ArchiveProg (B α : Type) := Prog (World B) Op Reply PyError α

/-! ### Operations -/

/-- An operation on the data directory. -/
def onDisk (f : DataDir B → Except PyError (DataDir B × α)) : ArchiveProg B α :=
  .act .disk
    (fun c w =>
      match c with
      | .fault _ => w
      | _ =>
        match f w.disk with
        | .ok r => { w with disk := r.1 }
        | .error _ => w)
    fun c w =>
      match c with
      | .fault e => .throw e
      | _ =>
        match f w.disk with
        | .ok r => .pure r.2
        | .error e => .throw e

/-- A look at the data directory. -/
def look (f : DataDir B → Except PyError α) : ArchiveProg B α :=
  onDisk fun d => (f d).map fun a => (d, a)

/-- A change of the data directory. -/
def change (f : DataDir B → DataDir B) : ArchiveProg B Unit :=
  onDisk fun d => .ok (f d, ())

/-- A look whose finding is noted. -/
def noting (f : DataDir B → Except PyError α) (note : DataDir B → α → Event B) :
    ArchiveProg B α :=
  .act .disk
    (fun c w =>
      match c with
      | .fault _ => w
      | _ =>
        match f w.disk with
        | .ok a => { w with history := w.history ++ [note w.disk a] }
        | .error _ => w)
    fun c w =>
      match c with
      | .fault e => .throw e
      | _ =>
        match f w.disk with
        | .ok a => .pure a
        | .error e => .throw e

/-- `read_json`, noted: whatever goes wrong, the caller gets the default. -/
def readDoc (C : Contents B) (path : Path) (default : Doc) : ArchiveProg B Doc :=
  (noting (fun d => .ok (readJson C d path default)) fun _ document =>
    .read path document).tryCatch fun _ => .pure default

/-- A computation without operations. -/
def lift : Except PyError α → ArchiveProg B α
  | .ok a => .pure a
  | .error e => .throw e

/-- A request; `answer` is what the code makes of a reply. -/
def ask (request : Request) (answer : Reply → Option α) : ArchiveProg B α :=
  .act (.remote request)
    (fun c w => { w with history := w.history ++ [.answer request c] })
    fun c _ =>
      match c with
      | .fault e => .throw e
      | c =>
        match answer c with
        | some a => .pure a
        | none => .throw ⟨.runtimeError, "unexpected reply"⟩

/-- A request without an answer. -/
def command (request : Request) : ArchiveProg B Unit := ask request fun _ => some ()

/-- `api.get_paths_info`. -/
def getPathsInfo (paths : List String) (revision : Option String) :
    ArchiveProg B (List RemoteInfo) :=
  ask (.getPathsInfo paths revision) fun
    | .infos infos => some infos
    | _ => none

/-- `_download_sha256`. -/
def downloadSha256 (path revision : String) : ArchiveProg B String :=
  ask (.download path revision) fun
    | .digest sha256 => some sha256
    | _ => none

/-- A text of `n` digits of `[0-9a-f]`. -/
def isHex (n : ℕ) (s : String) : Bool :=
  decide (s.toList.length = n) && s.toList.all fun c => "0123456789abcdef".toList.contains c

/-- `remote_revision`. -/
def remoteRevision : ArchiveProg B String := do
  let revision ← ask .repoInfo fun
    | .revision sha => some sha
    | _ => none
  if isHex 40 revision then pure revision
  else throw ⟨.valueError, "HF did not return an immutable commit revision"⟩

/-! ### Dicts and slices -/

/-- `d[key] = value`, for a dict that keeps the order of its keys. -/
def assign {κ β : Type} [DecidableEq κ] (key : κ) (value : β) : List (κ × β) → List (κ × β)
  | [] => [(key, value)]
  | (k, v) :: rest => if k = key then (k, value) :: rest else (k, v) :: assign key value rest

/-- `{key: value for ..}`. -/
def dictOf {κ β : Type} [DecidableEq κ] (items : List (κ × β)) : List (κ × β) :=
  items.foldl (fun d item => assign item.1 item.2 d) []

/-- `items[start : start + n] for start in range(0, len(items), n)`; `fuel` bounds their number. -/
def slices {β : Type} (n : ℕ) : (fuel : ℕ) → List β → List (List β)
  | 0, _ => []
  | _, [] => []
  | fuel + 1, items => items.take n :: slices n fuel (items.drop n)

/-- The infos of all paths, in requests for a hundred of them. -/
def pathsInfos (revision : Option String) : List (List String) → ArchiveProg B (List RemoteInfo)
  | [] => pure []
  | paths :: rest => do
    let infos ← getPathsInfo paths revision
    let others ← pathsInfos revision rest
    pure (infos ++ others)

/-- A list in slices of a hundred. -/
def hundreds {β : Type} (items : List β) : List (List β) := slices 100 items.length items

/-! ### Verification -/

/-- `artifact["path"]`, which has to be a text wherever it is used. -/
def artifactPath (artifact : Doc) : Except PyError String := do
  match (← artifact.item "path").asStr with
  | some path => pure path
  | none => throw ⟨.typeError, "argument should be a str"⟩

/-- `self._remote_size(info) == artifact["size"]`. -/
def sizeMatches (info : RemoteInfo) (size : Doc) : Bool :=
  match info.size with
  | some n => size.eqInt n
  | none => size.isNone

/-- `lfs_sha or self._download_sha256(path, revision)`. -/
def remoteDigest (info : RemoteInfo) (path revision : String) : ArchiveProg B String :=
  if info.lfsSha ≠ "" then pure info.lfsSha else downloadSha256 path revision

/-- The loop of `_verify_remote` over the expected artifacts. -/
def checkInfos (revision : String) (returned : List (String × RemoteInfo)) :
    List Artifact → ArchiveProg B Unit
  | [] => pure ()
  | (path, artifact) :: rest => do
    match returned.lookup path with
    | none => throw ⟨.osError, "remote verification could not find " ++ path⟩
    | some info =>
      match artifact.item "size" with
      | .error e => throw e
      | .ok size =>
        if sizeMatches info size then do
          let digest ← remoteDigest info path revision
          match artifact.item "sha256" with
          | .error e => throw e
          | .ok sha256 =>
            if sha256.eqStr digest then checkInfos revision returned rest
            else throw ⟨.osError, "remote checksum mismatch for " ++ path⟩
        else throw ⟨.osError, "remote size mismatch for " ++ path⟩

/-- `revision or self.remote_revision()`. -/
def revisionOrHead : Option String → ArchiveProg B String
  | some revision => pure revision
  | none => remoteRevision

/-- `_verify_remote`. -/
def verifyRemote (artifacts : List Artifact) (revision : Option String) : ArchiveProg B Unit := do
  let revision ← revisionOrHead revision
  let expected := dictOf artifacts
  let infos ← pathsInfos (some revision) (hundreds (expected.map Prod.fst))
  let named := infos.filter fun info => info.path ≠ ""
  checkInfos revision (dictOf (named.map fun info => (info.path, info))) expected

/-- Some operations of a program that starts with a change: it is not made, or it is. -/
theorem change_after {β : Type} (f : DataDir B → DataDir B) (k : Unit → ArchiveProg B β)
    (cs : List Reply) (w : World B) :
    (∃ p, ((change f).bind k).after cs w = (p, w) ∧ ∀ b, p ≠ .pure b) ∨
      ∃ es, ((change f).bind k).after cs w = (k ()).after es { w with disk := f w.disk } := by
  rcases cs with _ | ⟨c, es⟩
  · exact Or.inl ⟨_, rfl, fun b h => by cases h⟩
  · cases c with
    | fault e =>
      refine Or.inl ⟨.throw e, ?_, fun b h => by cases h⟩
      exact Prog.after_throw es e w
    | _ => exact Or.inr ⟨es, rfl⟩

/-! ### Footprints -/

section Moves

variable {R : DataDir B → DataDir B → Prop}

/-- A relation of the directories of two worlds. -/
def Between (R : DataDir B → DataDir B → Prop) (s t : World B) : Prop := R s.disk t.disk

theorem moves_onDisk {f : DataDir B → Except PyError (DataDir B × α)} (hrefl : ∀ d, R d d)
    (h : ∀ d r, f d = .ok r → R d r.1) : (onDisk f).Moves (Between R) := by
  intro c w
  have hsame := hrefl w.disk
  cases hf : f w.disk with
  | ok r =>
    have hstep := h w.disk r hf
    cases c <;> simpa [hf, Prog.Moves, Between]
  | error e => cases c <;> simpa [hf, Prog.Moves, Between]

theorem moves_look {f : DataDir B → Except PyError α} (hrefl : ∀ d, R d d) :
    (look f).Moves (Between R) := by
  refine moves_onDisk hrefl fun d r hr => ?_
  cases hf : f d with
  | ok a =>
    rw [hf] at hr
    cases hr
    exact hrefl d
  | error e =>
    rw [hf] at hr
    cases hr

theorem moves_change {f : DataDir B → DataDir B} (hrefl : ∀ d, R d d) (h : ∀ d, R d (f d)) :
    (change f).Moves (Between R) := by
  refine moves_onDisk hrefl fun d r hr => ?_
  cases hr
  exact h d

theorem moves_ask {request : Request} {answer : Reply → Option α} (hrefl : ∀ d, R d d) :
    (ask request answer : ArchiveProg B α).Moves (Between R) := by
  intro c w
  refine ⟨hrefl w.disk, ?_⟩
  cases c with
  | fault e => exact trivial
  | _ =>
    dsimp only
    split <;> exact trivial

theorem moves_pathsInfos (revision : Option String) (hrefl : ∀ d, R d d)
    (slices : List (List String)) :
    (pathsInfos revision slices : ArchiveProg B _).Moves (Between R) := by
  induction slices with
  | nil => exact trivial
  | cons paths rest ih =>
    unfold pathsInfos
    exact (moves_ask hrefl).bind fun infos => ih.bind fun _ => trivial

theorem moves_remoteRevision (hrefl : ∀ d, R d d) :
    (remoteRevision : ArchiveProg B String).Moves (Between R) := by
  unfold remoteRevision
  refine (moves_ask hrefl).bind fun revision => ?_
  split <;> exact trivial

theorem moves_remoteDigest (info : RemoteInfo) (path revision : String) (hrefl : ∀ d, R d d) :
    (remoteDigest info path revision : ArchiveProg B String).Moves (Between R) := by
  unfold remoteDigest
  split
  · exact trivial
  · exact moves_ask hrefl

theorem moves_checkInfos (revision : String) (returned : List (String × RemoteInfo))
    (hrefl : ∀ d, R d d) (expected : List Artifact) :
    (checkInfos revision returned expected : ArchiveProg B Unit).Moves (Between R) := by
  induction expected with
  | nil => exact trivial
  | cons artifact rest ih =>
    obtain ⟨path, artifact⟩ := artifact
    unfold checkInfos
    split
    · exact trivial
    · split
      · exact trivial
      · split
        · refine (moves_remoteDigest _ _ _ hrefl).bind fun digest => ?_
          split
          · exact trivial
          · split
            · exact ih
            · exact trivial
        · exact trivial

theorem moves_verifyRemote (artifacts : List Artifact) (revision : Option String)
    (hrefl : ∀ d, R d d) :
    (verifyRemote artifacts revision : ArchiveProg B Unit).Moves (Between R) := by
  unfold verifyRemote
  have hrevision : (revisionOrHead revision : ArchiveProg B String).Moves (Between R) := by
    cases revision with
    | some revision => exact trivial
    | none => exact moves_remoteRevision hrefl
  exact hrevision.bind fun _ => (moves_pathsInfos _ hrefl _).bind fun infos =>
    moves_checkInfos _ _ hrefl _

end Moves

end BkkCollector.Archive.Remote
