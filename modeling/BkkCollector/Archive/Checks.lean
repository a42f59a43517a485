import BkkCollector.Archive.Backup

/-! # Rules for checks

Checks look at the directory and ask the remote, and change neither: what they establish stays true
while the history grows and the files that are left alone in a call stay as they are. `Sees` is the
weakest precondition of a check that may always refuse; `Sees.bind` hands over, beside what a check
established, that nothing before it was lost.

`Attested` is what the remote said about an artifact: its size, and its hash, which came with the
size or was computed from a download. -/

namespace BkkCollector.Archive.Checks

open BkkCollector.Logic.Program BkkCollector.Python.Objects BkkCollector.Python.Documents
open BkkCollector.Archive.DataDir BkkCollector.Archive.Remote BkkCollector.Archive.Backup

variable {B α β : Type} {kept : Path → Prop}

/-! ### What lasts -/

/-- The entries of these paths are the same. -/
def SameAt (kept : Path → Prop) (d e : DataDir B) : Prop :=
  ∀ path, kept path → e.lookup path = d.lookup path

theorem SameAt.refl (d : DataDir B) : SameAt kept d d := fun _ _ => rfl

theorem SameAt.trans {c d e : DataDir B} (h : SameAt kept c d) (h' : SameAt kept d e) :
    SameAt kept c e := fun path hp => (h' path hp).trans (h path hp)

/-- What others may do to the world while a call runs. -/
def Kept (kept : Path → Prop) (s t : World B) : Prop :=
  SameAt kept s.disk t.disk ∧ t.history = s.history

/-- What a check may find when it comes back to the world. -/
def Later (kept : Path → Prop) (s t : World B) : Prop :=
  SameAt kept s.disk t.disk ∧ s.history <+: t.history

theorem Kept.refl (w : World B) : Kept kept w w := ⟨SameAt.refl _, rfl⟩

theorem Kept.trans {s t u : World B} (h : Kept kept s t) (h' : Kept kept t u) : Kept kept s u :=
  ⟨h.1.trans h'.1, h'.2.trans h.2⟩

theorem Kept.later {s t : World B} (h : Kept kept s t) : Later kept s t :=
  ⟨h.1, h.2 ▸ List.prefix_rfl⟩

theorem Later.refl (w : World B) : Later kept w w := (Kept.refl w).later

theorem Later.trans {s t u : World B} (h : Later kept s t) (h' : Later kept t u) :
    Later kept s u := ⟨h.1.trans h'.1, h.2.trans h'.2⟩

theorem Later.mem {s t : World B} (h : Later kept s t) {e : Event B} (he : e ∈ s.history) :
    e ∈ t.history := h.2.subset he

theorem Later.readJson {s t : World B} (h : Later kept s t) {path : Path} (hp : kept path)
    (C : Contents B) (default : Doc) :
    readJson C t.disk path default = readJson C s.disk path default :=
  readJson_congr C default (h.1 path hp)

theorem Later.sha256File {s t : World B} (h : Later kept s t) {path : Path} (hp : kept path)
    (C : Contents B) : sha256File C t.disk path = sha256File C s.disk path := by
  unfold DataDir.sha256File
  rw [readFile_congr (h.1 path hp)]

theorem Later.stat {s t : World B} (h : Later kept s t) {path : Path} (hp : kept path) :
    stat t.disk path = stat s.disk path :=
  stat_congr (h.1 path hp)

/-! ### Checks -/

/-- The contract of a check. -/
def looking (kept : Path → Prop) : Contract (World B) Op Reply where
  rely := Kept kept
  admits _ _ _ := True
  guarantee s t := t.disk = s.disk ∧ s.history <+: t.history
  rely_refl := Kept.refl
  rely_trans := Kept.trans

/-- What a check establishes, if it does not refuse. -/
def Sees (kept : Path → Prop) (post : α → World B → Prop) (p : ArchiveProg B α) (w : World B) :
    Prop :=
  Ensures (looking kept) post (fun _ _ => True) p w

theorem Sees.mono {post post' : α → World B → Prop} {p : ArchiveProg B α} {w : World B}
    (h : Sees kept post p w) (hpost : ∀ a t, post a t → post' a t) : Sees kept post' p w :=
  Ensures.mono h hpost fun _ _ _ => trivial

/-- Nothing that was there is lost. -/
theorem Sees.later {post : α → World B → Prop} {p : ArchiveProg B α} {w : World B}
    (h : Sees kept post p w) : Sees kept (fun a t => post a t ∧ Later kept w t) p w := by
  have hguarantee : ∀ s t : World B, True → (looking kept).guarantee s t →
      True ∧ Later kept s t := fun s t _ hg => ⟨trivial, fun _ _ => by rw [hg.1], hg.2⟩
  have hrely : ∀ s t : World B, True → (looking kept).rely s t → True ∧ Later kept s t :=
    fun s t _ hr => ⟨trivial, Kept.later hr⟩
  have htrans : ∀ s t u : World B, Later kept s t → Later kept t u → Later kept s u :=
    fun s t u => Later.trans
  exact (Ensures.track (R := Later kept) htrans hrely hguarantee trivial h).mono
    (fun a t ha => ha) fun e t _ => trivial

/-- **Checks in a row.** -/
theorem Sees.bind {mid : α → World B → Prop} {post : β → World B → Prop} {p : ArchiveProg B α}
    {k : α → ArchiveProg B β} {w : World B} (h : Sees kept mid p w)
    (hk : ∀ a t, mid a t → Later kept w t → Sees kept post (k a) t) :
    Sees kept post (p.bind k) w :=
  Ensures.bind h.later fun a t ha => hk a t ha.1 ha.2

/-- The remote gave this info. -/
def Told (history : List (Event B)) (revision : Option String) (info : RemoteInfo) : Prop :=
  ∃ paths infos, .answer (.getPathsInfo paths revision) (.infos infos) ∈ history ∧ info ∈ infos

/-- **What the remote said about an artifact** at a revision: it has its size and its hash. -/
structure Attested (history : List (Event B)) (revision : String) (artifact : Artifact)
    (info : RemoteInfo) : Prop where
  told : Told history (some revision) info
  path : info.path = artifact.1
  size : ∃ size, artifact.2.item "size" = .ok size ∧ sizeMatches info size = true
  hash : ∃ sha256, artifact.2.item "sha256" = .ok sha256 ∧
    (info.lfsSha ≠ "" ∧ sha256 = .str info.lfsSha ∨
      ∃ digest, .answer (.download artifact.1 revision) (.digest digest) ∈ history ∧
        sha256 = .str digest)

theorem Told.later {s t : World B} (h : Later kept s t) {revision : Option String}
    {info : RemoteInfo} (ht : Told s.history revision info) : Told t.history revision info := by
  obtain ⟨paths, infos, hanswer, hinfo⟩ := ht
  exact ⟨paths, infos, h.mem hanswer, hinfo⟩

theorem Attested.later {s t : World B} (h : Later kept s t) {revision : String}
    {artifact : Artifact} {info : RemoteInfo} (ha : Attested s.history revision artifact info) :
    Attested t.history revision artifact info := by
  refine ⟨ha.told.later h, ha.path, ha.size, ?_⟩
  obtain ⟨sha256, hsha, hdigest⟩ := ha.hash
  refine ⟨sha256, hsha, hdigest.imp_right ?_⟩
  rintro ⟨digest, hanswer, rfl⟩
  exact ⟨digest, h.mem hanswer, rfl⟩

section Dicts

variable {κ : Type} [DecidableEq κ]

/-- An assignment to a new key comes last. -/
theorem assign_new {key : κ} {value : β} {d : List (κ × β)} (h : key ∉ d.map Prod.fst) :
    assign key value d = d ++ [(key, value)] := by
  induction d with
  | nil => rfl
  | cons first rest ih =>
    obtain ⟨k', v⟩ := first
    have hne : k' ≠ key := fun heq => h (heq ▸ List.mem_cons_self)
    have hrest : key ∉ rest.map Prod.fst := fun hmem => h (List.mem_cons_of_mem _ hmem)
    unfold assign
    rw [if_neg hne, ih hrest, List.cons_append]

theorem foldl_assign_new {items d : List (κ × β)} (h : ((d ++ items).map Prod.fst).Nodup) :
    items.foldl (fun d item => assign item.1 item.2 d) d = d ++ items := by
  induction items generalizing d with
  | nil => rw [List.foldl_nil, List.append_nil]
  | cons item items ih =>
    have hnew : item.1 ∉ d.map Prod.fst := by
      rw [List.map_append, List.map_cons] at h
      intro hmem
      exact (List.nodup_append.mp h).2.2 _ hmem _ List.mem_cons_self rfl
    rw [List.foldl_cons, assign_new hnew, ih (by rwa [List.append_assoc]), List.append_assoc]
    rfl

/-- A dict of items with different keys. -/
theorem dictOf_eq {items : List (κ × β)} (h : (items.map Prod.fst).Nodup) :
    dictOf items = items := foldl_assign_new h

theorem mem_of_lookup {d : List (κ × β)} {key : κ} {value : β} (h : d.lookup key = some value) :
    (key, value) ∈ d := by
  obtain ⟨l₁, l₂, rfl, -⟩ := List.lookup_eq_some_iff.mp h
  exact List.mem_append_right _ List.mem_cons_self

end Dicts

/-- A file of the directory has the size and the hash of an artifact. -/
def Matches (C : Contents B) (d : DataDir B) (artifact : Artifact) : Prop :=
  ∃ f size sha256, fileAt d (pathParts artifact.1) = some f ∧
    artifact.2.item "size" = .ok size ∧ size.eqInt (C.size f.content) = true ∧
    artifact.2.item "sha256" = .ok sha256 ∧ sha256 = .str (C.sha256 f.content)

end BkkCollector.Archive.Checks
