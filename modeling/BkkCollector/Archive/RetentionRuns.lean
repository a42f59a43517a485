import BkkCollector.Archive.Checks
import BkkCollector.Archive.Retention

/-! # What a pruner removes

A call of `prune_confirmed` removes a file only after every check of `_prune_date` has passed, for
all three feeds. `Audit` holds what a call has looked at, `Audit.Authorized` that it passed all
checks; both are read off the history of the call. `Run` are the runs of calls: any directory, any
answers, an interruption at any operation, and any change of the directory between two calls. -/

namespace BkkCollector.Archive.RetentionRuns

open BkkCollector.Config BkkCollector.Logic.Program BkkCollector.Python.Objects
open BkkCollector.Python.Documents
open BkkCollector.Archive.DataDir BkkCollector.Archive.Remote BkkCollector.Archive.Backup
open BkkCollector.Archive.Checks BkkCollector.Archive.Retention

variable {B : Type}

/-! ### Evidence -/

/-- The size and the hash of an artifact are of their types. -/
structure WellFormed (artifact : Artifact) : Prop where
  size : ∃ n : ℤ, artifact.2.get "size" .null = .ok (.int n) ∧ 0 ≤ n
  sha256 : ∃ s, artifact.2.get "sha256" (.str "") = .ok (.str s) ∧ isHex 64 s = true

/-- What a call has looked at before it removes files. -/
structure Audit where
  actual : List (String × Stamp)
  receipt : Doc
  receiptSha : String
  docs : List Doc
  indexed : List Artifact
  manifestArtifact : Artifact
  manifest : Doc
  previous : Doc

/-- The artifacts of the kind in the receipt. -/
def Audit.expected (s : Audit) (kind : Kind) : List Artifact := expectedArtifacts kind s.indexed

/-- Those of them whose files are there. -/
def Audit.candidates (s : Audit) (kind : Kind) : List Artifact :=
  candidateArtifacts (s.expected kind) s.actual

/-- The paths that are left alone while a call runs. -/
def IsReceipt (path : Path) : Prop := ∃ date, path = receiptPath date

/-- The local checks: the receipt that is there, the manifest it lists, its artifacts of the kind,
and the intent of an interrupted call if one of them is missing. -/
structure Audit.Local (S : Site B) (kind : Kind) (date : String) (s : Audit) (w : World B) :
    Prop where
  receiptHere : readJson S.contents w.disk (receiptPath date) (.dict []) = s.receipt
  receiptHash : sha256File S.contents w.disk (receiptPath date) = .ok s.receiptSha
  receiptChecked : receiptArtifacts S.repoId date s.receipt = .ok s.docs
  indexed : namedArtifacts s.docs = .ok s.indexed
  distinct : (s.indexed.map Prod.fst).Nodup
  wellFormed : ∀ artifact ∈ s.indexed, WellFormed artifact
  manifestListed : authenticManifest date s.receipt s.indexed = .ok s.manifestArtifact
  manifestMatched : ∃ d, .validated d [s.manifestArtifact] ∈ w.history ∧
    Matches S.contents d s.manifestArtifact
  manifestRead : .read (manifestPath date) s.manifest ∈ w.history
  manifestComplete : s.manifest.get "complete" .null = .ok (.bool true)
  manifestAccepted : validateManifest S.intOfText date s.manifest = .ok ()
  expectedChecked : checkExpected kind date (s.expected kind) s.actual = .ok ()
  resumed : (∃ artifact ∈ s.expected kind, (s.actual.lookup artifact.1).isNone = true) →
    .read (statePath kind date) s.previous ∈ w.history ∧
      resumes kind date s.receiptSha (s.expected kind) s.previous = .ok true

/-- **All checks passed**: the local ones, the receipt at the head of the remote, every artifact of
the kind at its revision, and once more the files that are there. -/
structure Audit.Authorized (S : Site B) (kind : Kind) (date : String) (s : Audit) (plan : Plan)
    (w : World B) : Prop extends s.Local S kind date w where
  listed : ∃ d, .listed d ∈ w.history ∧ inventory S.contents kind date d = .ok s.actual
  head : isHex 40 plan.head = true ∧ .answer .repoInfo (.revision plan.head) ∈ w.history
  revision : pinnedRevision s.receipt plan.head = .ok plan.revision
  receiptAttested : ∃ f info, stat w.disk (receiptPath date) = .ok f ∧
    Attested w.history plan.head
      (receiptArtifact date (S.contents.size f.content) s.receiptSha) info
  attested : ∀ artifact ∈ s.expected kind, ∃ info,
    Attested w.history plan.revision artifact info
  last : ∃ earlier d d' again,
    w.history = earlier ++ [.validated d (s.candidates kind), .listed d'] ∧
      validateLocal S.contents d true (s.candidates kind) = .ok () ∧
      inventory S.contents kind date d' = .ok again ∧ sameInventory s.actual again = true
  candidates : plan.candidates = s.candidates kind

theorem Audit.Local.later {S : Site B} {kind : Kind} {date : String} {s : Audit} {w t : World B}
    (h : s.Local S kind date w) (hl : Later IsReceipt w t) : s.Local S kind date t where
  receiptHere := (hl.readJson ⟨date, rfl⟩ _ _).trans h.receiptHere
  receiptHash := (hl.sha256File ⟨date, rfl⟩ _).trans h.receiptHash
  receiptChecked := h.receiptChecked
  indexed := h.indexed
  distinct := h.distinct
  wellFormed := h.wellFormed
  manifestListed := h.manifestListed
  manifestMatched := by
    obtain ⟨d, hd, hmatches⟩ := h.manifestMatched
    exact ⟨d, hl.mem hd, hmatches⟩
  manifestRead := hl.mem h.manifestRead
  manifestComplete := h.manifestComplete
  manifestAccepted := h.manifestAccepted
  expectedChecked := h.expectedChecked
  resumed := fun hmissing => ⟨hl.mem (h.resumed hmissing).1, (h.resumed hmissing).2⟩

/-- What is authorized stays so while only other files change and nothing is noted. -/
theorem Audit.Authorized.kept {S : Site B} {kind : Kind} {date : String} {s : Audit} {plan : Plan}
    {w t : World B} (h : s.Authorized S kind date plan w) (hk : Kept IsReceipt w t) :
    s.Authorized S kind date plan t where
  toLocal := h.toLocal.later hk.later
  listed := by
    rw [hk.2]
    exact h.listed
  head := by
    rw [hk.2]
    exact h.head
  revision := h.revision
  receiptAttested := by
    rw [hk.2, hk.later.stat ⟨date, rfl⟩]
    exact h.receiptAttested
  attested := by
    rw [hk.2]
    exact h.attested
  last := by
    rw [hk.2]
    exact h.last
  candidates := h.candidates

/-- **The runs of a pruner**: the directory with the history of the present call, and what is left
of that call. Other files may change while a call runs, anything between two calls. -/
inductive Run (S : Site B) : World B → Option (ArchiveProg B (List Path)) → Prop
  | boot (d : DataDir B) : Run S ⟨d, []⟩ none
  | changes {w : World B} (d : DataDir B) : Run S w none → Run S { w with disk := d } none
  | start {w : World B} (P : Pruner B) (site : P.toSite = S) (kind : Kind) (afterDays : ℤ) :
      Run S w none → Run S ⟨w.disk, []⟩ (some (pruneConfirmed P kind afterDays))
  | meanwhile {w w' : World B} {p : ArchiveProg B (List Path)} (kept : Kept IsReceipt w w') :
      Run S w (some p) → Run S w' (some p)
  | op {w : World B} {o : Op} {eff : Reply → World B → World B}
      {next : Reply → World B → ArchiveProg B (List Path)} (c : Reply) :
      Run S w (some (.act o eff next)) → Run S (eff c w) (some (next c w))
  /-- The call returned, raised or was killed. -/
  | ends {w : World B} {p : ArchiveProg B (List Path)} : Run S w (some p) → Run S w none

/-- Some operations of a call. -/
theorem Run.after {S : Site B} {w : World B} {p : ArchiveProg B (List Path)}
    (h : Run S w (some p)) (cs : List Reply) : Run S (p.after cs w).2 (some (p.after cs w).1) := by
  induction cs generalizing p w with
  | nil => exact h
  | cons c cs ih =>
    cases p with
    | pure a => exact h
    | throw e => exact h
    | act o eff next => exact ih (Run.op c h)

end BkkCollector.Archive.RetentionRuns
