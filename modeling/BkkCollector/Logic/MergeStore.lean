import Mathlib.Algebra.BigOperators.Group.Finset.Basic
import Mathlib.Algebra.Order.BigOperators.Group.Finset
import Mathlib.Algebra.Order.Group.Multiset

/-! # Stores of files that merges replace

Files hold rows. A merge replaces some files, its sources, by one file, its output, and takes
several steps for it: it is opened (a record of its intent), its output is installed, its sources
are retired one after the other, and it is closed. A merge counts as installed once its output is
there with the expected number of rows; from then on its sources are hidden, whether they are
retired yet or not.

`Store.visible` are the rows of the files that are not hidden. No step of a merge changes them, and
creating a file adds its rows: this is what "no row is lost and none is counted twice" comes to,
at every step. `Store.WF` is what the steps keep. -/

namespace BkkCollector.Logic.MergeStore

variable {ν κ ρ : Type}

/-- A merge: the files it replaces, and the file it replaces them by. -/
structure Merge (ν : Type) where
  sources : Finset ν
  output : ν
  expected : ℕ

/-- A store: its files with their rows, and the open merges. -/
@[ext]
structure Store (ν κ ρ : Type) where
  files : Finset ν
  rows : ν → Multiset ρ
  merges : κ → Option (Merge ν)

namespace Store

variable (st : Store ν κ ρ)

/-- The output of a merge is in place. -/
def Installed (m : Merge ν) : Prop := m.output ∈ st.files ∧ (st.rows m.output).card = m.expected

/-- A file whose rows are in the output of an installed merge. -/
def Hidden (n : ν) : Prop :=
  ∃ k m, st.merges k = some m ∧ st.Installed m ∧ n ∈ m.sources ∧ n ≠ m.output

open Classical in
/-- What a file contributes. -/
noncomputable def share (n : ν) : Multiset ρ :=
  if n ∈ st.files ∧ ¬ st.Hidden n then st.rows n else 0

/-- **The rows of the store**, each counted once. -/
noncomputable def visible : Multiset ρ := ∑ n ∈ st.files, st.share n

/-- What holds between the steps of merges: a merge that is not installed has all its sources, and
nothing in the way of its output; merges do not get in each other's way. -/
structure WF : Prop where
  sources : ∀ k m, st.merges k = some m → ¬ st.Installed m → m.sources ⊆ st.files
  expected : ∀ k m, st.merges k = some m → ¬ st.Installed m →
    ∑ n ∈ m.sources, (st.rows n).card = m.expected
  output : ∀ k m, st.merges k = some m → ¬ st.Installed m → m.output ∈ st.files →
    m.output ∈ m.sources
  disjoint : ∀ k k' m m', st.merges k = some m → st.merges k' = some m' → k ≠ k' →
    Disjoint m.sources m'.sources
  outputs : ∀ k k' m m', st.merges k = some m → st.merges k' = some m' → k ≠ k' →
    m.output ≠ m'.output
  apart : ∀ k k' m m', st.merges k = some m → st.merges k' = some m' → k ≠ k' →
    ¬ st.Installed m → m.output ∉ m'.sources

/-! ### Visible rows -/

variable {st}

theorem share_of_not_mem {n : ν} (h : n ∉ st.files) : st.share n = 0 := if_neg fun h' => h h'.1

theorem share_of_hidden {n : ν} (h : st.Hidden n) : st.share n = 0 := if_neg fun h' => h'.2 h

theorem share_of_mem {n : ν} (h : n ∈ st.files) (hn : ¬ st.Hidden n) : st.share n = st.rows n :=
  if_pos ⟨h, hn⟩

/-- The visible rows, over any files that contain those of the store. -/
theorem visible_eq {F : Finset ν} (h : st.files ⊆ F) : st.visible = ∑ n ∈ F, st.share n :=
  Finset.sum_subset h fun _ _ hn => share_of_not_mem hn

open Classical in
theorem share_congr {st' : Store ν κ ρ} {n : ν} (hfiles : n ∈ st'.files ↔ n ∈ st.files)
    (hhidden : st'.Hidden n ↔ st.Hidden n) (hrows : st'.rows n = st.rows n) :
    st'.share n = st.share n := by
  unfold share
  rw [hrows]
  exact if_congr (and_congr hfiles (not_congr hhidden)) rfl rfl

theorem share_le_rows (n : ν) : st.share n ≤ st.rows n := by
  unfold share
  split
  · exact le_rfl
  · exact Multiset.zero_le _

/-- No visible row is missing from the files. -/
theorem visible_le : st.visible ≤ ∑ n ∈ st.files, st.rows n :=
  Finset.sum_le_sum fun n _ => share_le_rows n

/-- Without hidden files that have rows, the visible rows are those of the files. -/
theorem visible_eq_sum (h : ∀ n ∈ st.files, st.Hidden n → st.rows n = 0) :
    st.visible = ∑ n ∈ st.files, st.rows n := by
  refine Finset.sum_congr rfl fun n hn => ?_
  by_cases hh : st.Hidden n
  · rw [share_of_hidden hh, h n hn hh]
  · exact share_of_mem hn hh

/-- Two stores in which every file contributes the same. -/
theorem visible_congr {st' : Store ν κ ρ} [DecidableEq ν] (h : ∀ n, st.share n = st'.share n) :
    st.visible = st'.visible := by
  rw [visible_eq (F := st.files ∪ st'.files) Finset.subset_union_left,
    visible_eq (Finset.subset_union_right : st'.files ⊆ st.files ∪ st'.files)]
  exact Finset.sum_congr rfl fun n _ => h n

/-! ### Steps -/

variable [DecidableEq ν] (st)

/-- A new file. -/
def create (n : ν) (w : Multiset ρ) : Store ν κ ρ :=
  { st with files := insert n st.files, rows := Function.update st.rows n w }

/-- The record of a merge. -/
def openMerge [DecidableEq κ] (k : κ) (m : Merge ν) : Store ν κ ρ :=
  { st with merges := Function.update st.merges k (some m) }

/-- The output of a merge, with the rows of its sources. -/
def install (m : Merge ν) : Store ν κ ρ :=
  { st with
    files := insert m.output st.files
    rows := Function.update st.rows m.output (∑ n ∈ m.sources, st.rows n) }

/-- The removal of a file. -/
def retire (n : ν) : Store ν κ ρ :=
  { st with files := st.files.erase n, rows := Function.update st.rows n 0 }

/-- The removal of the record of a merge. -/
def closeMerge [DecidableEq κ] (k : κ) : Store ν κ ρ :=
  { st with merges := Function.update st.merges k none }

variable {st}

/-! ### Creating -/

omit [DecidableEq ν] in
/-- Which merges are installed decides which files are hidden. -/
theorem hidden_congr {st' : Store ν κ ρ} (hmerges : st'.merges = st.merges)
    (h : ∀ k m, st.merges k = some m → (st'.Installed m ↔ st.Installed m)) (n : ν) :
    st'.Hidden n ↔ st.Hidden n := by
  unfold Hidden
  rw [hmerges]
  constructor
  · rintro ⟨k, m, hm, hi, hn⟩
    exact ⟨k, m, hm, (h k m hm).mp hi, hn⟩
  · rintro ⟨k, m, hm, hi, hn⟩
    exact ⟨k, m, hm, (h k m hm).mpr hi, hn⟩

section create

variable {n : ν} {w : Multiset ρ}

theorem installed_create {m : Merge ν} (h : m.output ≠ n) :
    (st.create n w).Installed m ↔ st.Installed m := by
  simp [Installed, create, h]

theorem rows_create {x : ν} (h : x ≠ n) : (st.create n w).rows x = st.rows x :=
  Function.update_of_ne h _ _

/-- **A new file** that no merge knows. -/
theorem WF.create (hst : st.WF) (hn : n ∉ st.files)
    (houtput : ∀ k m, st.merges k = some m → m.output ≠ n) : (st.create n w).WF where
  sources k m hm hi x hx := by
    rw [installed_create (houtput k m hm)] at hi
    exact Finset.mem_insert_of_mem (hst.sources k m hm hi hx)
  expected k m hm hi := by
    rw [installed_create (houtput k m hm)] at hi
    refine (Finset.sum_congr rfl fun x hx => ?_).trans (hst.expected k m hm hi)
    have hne : x ≠ n := fun h => hn (h ▸ hst.sources k m hm hi hx)
    rw [rows_create hne]
  output k m hm hi ho := by
    rw [installed_create (houtput k m hm)] at hi
    exact hst.output k m hm hi ((Finset.mem_insert.mp ho).resolve_left (houtput k m hm))
  disjoint := hst.disjoint
  outputs := hst.outputs
  apart k k' m m' hm hm' hk hi := by
    rw [installed_create (houtput k m hm)] at hi
    exact hst.apart k k' m m' hm hm' hk hi

theorem visible_create (hn : n ∉ st.files)
    (houtput : ∀ k m, st.merges k = some m → m.output ≠ n)
    (hsource : ∀ k m, st.merges k = some m → n ∉ m.sources) :
    (st.create n w).visible = w + st.visible := by
  have hhidden : ∀ x, (st.create n w).Hidden x ↔ st.Hidden x :=
    hidden_congr rfl fun k m hm => installed_create (houtput k m hm)
  have hshare : ∀ x ∈ st.files, (st.create n w).share x = st.share x := by
    intro x hx
    have hne : x ≠ n := fun h => hn (h ▸ hx)
    exact share_congr (Finset.mem_insert.trans (or_iff_right hne)) (hhidden x) (rows_create hne)
  have hnew : (st.create n w).share n = w := by
    rw [share_of_mem (Finset.mem_insert_self _ _)]
    · exact Function.update_self _ _ _
    · rintro ⟨k, m, hm, -, hs, -⟩
      exact hsource k m hm hs
  have hfiles : (st.create n w).visible = ∑ x ∈ insert n st.files, (st.create n w).share x := rfl
  rw [hfiles, Finset.sum_insert hn, hnew, Finset.sum_congr rfl hshare]
  rfl

end create

/-! ### Opening -/

section openMerge

variable [DecidableEq κ] {k : κ} {m : Merge ν}

/-- A merge that can be opened. -/
structure Opens (st : Store ν κ ρ) (k : κ) (m : Merge ν) : Prop where
  free : st.merges k = none
  sources : m.sources ⊆ st.files
  expected : ∑ n ∈ m.sources, (st.rows n).card = m.expected
  output : m.output ∈ st.files → m.output ∈ m.sources
  disjoint : ∀ k' m', st.merges k' = some m' → Disjoint m.sources m'.sources
  outputs : ∀ k' m', st.merges k' = some m' → m.output ≠ m'.output
  apart : ∀ k' m', st.merges k' = some m' → m.output ∉ m'.sources
  apart' : ∀ k' m', st.merges k' = some m' → ¬ st.Installed m' → m'.output ∉ m.sources

omit [DecidableEq ν] in
/-- An open merge is the new one, or was there before. -/
theorem merges_openMerge {k' : κ} {m' : Merge ν} (h : (st.openMerge k m).merges k' = some m') :
    k' = k ∧ m' = m ∨ k' ≠ k ∧ st.merges k' = some m' := by
  simp only [openMerge] at h
  by_cases hk : k' = k
  · subst hk
    rw [Function.update_self] at h
    exact Or.inl ⟨rfl, (Option.some.inj h).symm⟩
  · rw [Function.update_of_ne hk] at h
    exact Or.inr ⟨hk, h⟩

omit [DecidableEq ν] in
/-- **Opening a merge.** -/
theorem WF.openMerge (hst : st.WF) (h : Opens st k m) : (st.openMerge k m).WF where
  sources k' m' hm' hi := by
    rcases merges_openMerge hm' with ⟨-, rfl⟩ | ⟨-, hm'⟩
    · exact h.sources
    · exact hst.sources k' m' hm' hi
  expected k' m' hm' hi := by
    rcases merges_openMerge hm' with ⟨-, rfl⟩ | ⟨-, hm'⟩
    · exact h.expected
    · exact hst.expected k' m' hm' hi
  output k' m' hm' hi := by
    rcases merges_openMerge hm' with ⟨-, rfl⟩ | ⟨-, hm'⟩
    · exact h.output
    · exact hst.output k' m' hm' hi
  disjoint k1 k2 m1 m2 h1 h2 hne := by
    rcases merges_openMerge h1 with ⟨rfl, rfl⟩ | ⟨-, hold1⟩ <;>
      rcases merges_openMerge h2 with ⟨rfl, rfl⟩ | ⟨-, hold2⟩
    · exact absurd rfl hne
    · exact h.disjoint k2 m2 hold2
    · exact (h.disjoint k1 m1 hold1).symm
    · exact hst.disjoint k1 k2 m1 m2 hold1 hold2 hne
  outputs k1 k2 m1 m2 h1 h2 hne := by
    rcases merges_openMerge h1 with ⟨rfl, rfl⟩ | ⟨-, hold1⟩ <;>
      rcases merges_openMerge h2 with ⟨rfl, rfl⟩ | ⟨-, hold2⟩
    · exact absurd rfl hne
    · exact h.outputs k2 m2 hold2
    · exact (h.outputs k1 m1 hold1).symm
    · exact hst.outputs k1 k2 m1 m2 hold1 hold2 hne
  apart k1 k2 m1 m2 h1 h2 hne hi := by
    rcases merges_openMerge h1 with ⟨rfl, rfl⟩ | ⟨-, hold1⟩ <;>
      rcases merges_openMerge h2 with ⟨rfl, rfl⟩ | ⟨-, hold2⟩
    · exact absurd rfl hne
    · exact h.apart k2 m2 hold2
    · exact h.apart' k1 m1 hold1 hi
    · exact hst.apart k1 k2 m1 m2 hold1 hold2 hne hi

omit [DecidableEq κ] in
/-- A merge that is installed as it opens has its rows in its output already. -/
theorem Opens.rows_eq_zero (h : Opens st k m) (hi : st.Installed m) {n : ν} (hn : n ∈ m.sources)
    (hne : n ≠ m.output) : st.rows n = 0 := by
  have hout : m.output ∈ m.sources := h.output hi.1
  have hsum := h.expected
  rw [← hi.2, ← Finset.add_sum_erase _ _ hout, Nat.add_eq_left, Finset.sum_eq_zero_iff] at hsum
  exact Multiset.card_eq_zero.mp (hsum n (Finset.mem_erase.mpr ⟨hne, hn⟩))

theorem visible_openMerge (h : Opens st k m) : (st.openMerge k m).visible = st.visible := by
  refine visible_congr fun n => ?_
  by_cases hn : n ∈ st.files
  · by_cases hh : st.Hidden n
    · obtain ⟨k', m', hm', hi, hs⟩ := hh
      have hk : k' ≠ k := fun hk => by
        rw [hk, h.free] at hm'
        cases hm'
      have hnew : (st.openMerge k m).Hidden n :=
        ⟨k', m', (Function.update_of_ne hk _ _).trans hm', hi, hs⟩
      rw [share_of_hidden hnew, share_of_hidden ⟨k', m', hm', hi, hs⟩]
    · rw [share_of_mem hn hh]
      by_cases hnew : (st.openMerge k m).Hidden n
      · rw [share_of_hidden hnew]
        obtain ⟨k', m', hm', hi, hs⟩ := hnew
        rcases merges_openMerge hm' with ⟨-, rfl⟩ | ⟨-, hm'⟩
        · exact (h.rows_eq_zero hi hs.1 hs.2).symm
        · exact absurd ⟨k', m', hm', hi, hs⟩ hh
      · exact share_of_mem hn hnew
  · rw [share_of_not_mem hn, share_of_not_mem (show n ∉ (st.openMerge k m).files from hn)]

end openMerge

/-! ### Installing -/

section install

variable {k : κ} {m : Merge ν}

theorem rows_install {x : ν} (h : x ≠ m.output) : (st.install m).rows x = st.rows x :=
  Function.update_of_ne h _ _

theorem rows_install_output : (st.install m).rows m.output = ∑ n ∈ m.sources, st.rows n :=
  Function.update_self _ _ _

theorem installed_install_of_ne {m' : Merge ν} (h : m'.output ≠ m.output) :
    (st.install m).Installed m' ↔ st.Installed m' := by
  simp [Installed, install, h]

/-- What was to be installed is. -/
theorem WF.installed_install (hst : st.WF) (hm : st.merges k = some m) (hi : ¬ st.Installed m) :
    (st.install m).Installed m := by
  refine ⟨Finset.mem_insert_self _ _, ?_⟩
  rw [rows_install_output, Multiset.card_sum]
  exact hst.expected k m hm hi

omit [DecidableEq ν] in
/-- The other open merges of a store that is about to install one. -/
theorem WF.other_of_not_installed (hst : st.WF) (hm : st.merges k = some m)
    (hi : ¬ st.Installed m) {k' : κ} {m' : Merge ν} (hm' : st.merges k' = some m') (hne : k' ≠ k) :
    m'.output ≠ m.output ∧ m.output ∉ m'.sources :=
  ⟨hst.outputs k' k m' m hm' hm hne, hst.apart k k' m m' hm hm' hne.symm hi⟩

/-- **Installing the output of a merge.** -/
theorem WF.install (hst : st.WF) (hm : st.merges k = some m) (hi : ¬ st.Installed m) :
    (st.install m).WF := by
  -- a merge that is not installed afterwards is another one, and was not installed before
  have hother : ∀ k' m', st.merges k' = some m' → ¬ (st.install m).Installed m' →
      k' ≠ k ∧ m'.output ≠ m.output ∧ m.output ∉ m'.sources ∧ ¬ st.Installed m' := by
    intro k' m' hm' hi'
    have hne : k' ≠ k := by
      rintro rfl
      rw [hm] at hm'
      cases hm'
      exact hi' (hst.installed_install hm hi)
    obtain ⟨hout, hsrc⟩ := hst.other_of_not_installed hm hi hm' hne
    exact ⟨hne, hout, hsrc, by rwa [installed_install_of_ne hout] at hi'⟩
  exact
    { sources := fun k' m' hm' hi' => by
        obtain ⟨-, -, -, hold⟩ := hother k' m' hm' hi'
        exact (hst.sources k' m' hm' hold).trans (Finset.subset_insert _ _)
      expected := fun k' m' hm' hi' => by
        obtain ⟨-, -, hsrc, hold⟩ := hother k' m' hm' hi'
        refine (Finset.sum_congr rfl fun x hx => ?_).trans (hst.expected k' m' hm' hold)
        have hne : x ≠ m.output := fun h => hsrc (h ▸ hx)
        rw [rows_install hne]
      output := fun k' m' hm' hi' ho => by
        obtain ⟨-, hout, -, hold⟩ := hother k' m' hm' hi'
        exact hst.output k' m' hm' hold ((Finset.mem_insert.mp ho).resolve_left hout)
      disjoint := hst.disjoint
      outputs := hst.outputs
      apart := fun k1 k2 m1 m2 h1 h2 hne hi' =>
        hst.apart k1 k2 m1 m2 h1 h2 hne (hother k1 m1 h1 hi').2.2.2 }

/-- Files a merge has nothing to do with contribute as before. -/
theorem share_install (hst : st.WF) (hm : st.merges k = some m) (hi : ¬ st.Installed m) {x : ν}
    (hx : x ∉ insert m.output m.sources) : (st.install m).share x = st.share x := by
  obtain ⟨hout, hsrc⟩ := not_or.mp (mt Finset.mem_insert.mpr hx)
  have hhidden : (st.install m).Hidden x ↔ st.Hidden x := by
    constructor
    · rintro ⟨k', m', hm', hi', hs⟩
      have hne : k' ≠ k := by
        rintro rfl
        obtain rfl : m = m' := Option.some.inj (hm.symm.trans hm')
        exact hsrc hs.1
      have ho := (hst.other_of_not_installed hm hi hm' hne).1
      exact ⟨k', m', hm', (installed_install_of_ne ho).mp hi', hs⟩
    · rintro ⟨k', m', hm', hi', hs⟩
      have hne : k' ≠ k := by
        rintro rfl
        rw [hm] at hm'
        cases hm'
        exact hi hi'
      have ho := (hst.other_of_not_installed hm hi hm' hne).1
      exact ⟨k', m', hm', (installed_install_of_ne ho).mpr hi', hs⟩
  exact share_congr (Finset.mem_insert.trans (or_iff_right hout)) hhidden (rows_install hout)

/-- Its output takes the place of the sources. -/
theorem visible_install (hst : st.WF) (hm : st.merges k = some m) (hi : ¬ st.Installed m) :
    (st.install m).visible = st.visible := by
  have hsources : m.sources ⊆ st.files := hst.sources k m hm hi
  -- before: each source counts, and the output only if it is one of them
  have hbefore : ∑ x ∈ insert m.output m.sources, st.share x = ∑ x ∈ m.sources, st.rows x := by
    rw [← Finset.sum_subset (Finset.subset_insert m.output m.sources)]
    · refine Finset.sum_congr rfl fun x hx => share_of_mem (hsources hx) ?_
      rintro ⟨k', m', hm', hi', hs⟩
      by_cases hne : k' = k
      · subst hne
        rw [hm] at hm'
        cases hm'
        exact hi hi'
      · exact Finset.disjoint_left.mp (hst.disjoint k' k m' m hm' hm hne) hs.1 hx
    · intro x hx hnot
      obtain rfl := (Finset.mem_insert.mp hx).resolve_right hnot
      exact share_of_not_mem fun h => hnot (hst.output k m hm hi h)
  -- after: only the output counts
  have hafter : ∑ x ∈ insert m.output m.sources, (st.install m).share x =
      ∑ x ∈ m.sources, st.rows x := by
    rw [Finset.sum_eq_single_of_mem m.output (Finset.mem_insert_self _ _)]
    · rw [share_of_mem (Finset.mem_insert_self _ _), rows_install_output]
      rintro ⟨k', m', hm', -, hs, hout⟩
      by_cases hne : k' = k
      · subst hne
        obtain rfl : m = m' := Option.some.inj (hm.symm.trans hm')
        exact hout rfl
      · exact (hst.other_of_not_installed hm hi hm' hne).2 hs
    · intro x hx hne
      exact share_of_hidden ⟨k, m, hm, hst.installed_install hm hi,
        (Finset.mem_insert.mp hx).resolve_left hne, hne⟩
  have hsub : insert m.output m.sources ⊆ insert m.output st.files :=
    Finset.insert_subset_insert _ hsources
  rw [visible_eq (F := insert m.output st.files) (Finset.Subset.refl _),
    visible_eq (Finset.subset_insert m.output st.files),
    ← Finset.sum_sdiff hsub, ← Finset.sum_sdiff (f := st.share) hsub, hbefore, hafter]
  congr 1
  exact Finset.sum_congr rfl fun x hx => share_install hst hm hi (Finset.mem_sdiff.mp hx).2

end install

/-! ### Retiring -/

section retire

variable {n : ν}

theorem installed_retire {m : Merge ν} (h : m.output ≠ n) :
    (st.retire n).Installed m ↔ st.Installed m := by
  simp [Installed, retire, h]

theorem rows_retire {x : ν} (h : x ≠ n) : (st.retire n).rows x = st.rows x :=
  Function.update_of_ne h _ _

/-- **Retiring a hidden file** that no open merge has as its output. -/
theorem WF.retire (hst : st.WF) (hn : st.Hidden n)
    (houtput : ∀ k m, st.merges k = some m → m.output ≠ n) : (st.retire n).WF := by
  obtain ⟨k, m, hm, hi, hs, -⟩ := hn
  have hother : ∀ k' m', st.merges k' = some m' → ¬ st.Installed m' → n ∉ m'.sources := by
    intro k' m' hm' hi' hs'
    by_cases hne : k' = k
    · subst hne
      rw [hm] at hm'
      cases hm'
      exact hi' hi
    · exact Finset.disjoint_left.mp (hst.disjoint k' k m' m hm' hm hne) hs' hs
  have hold : ∀ k' m', st.merges k' = some m' → ¬ (st.retire n).Installed m' →
      ¬ st.Installed m' := fun k' m' hm' hi' => by
    rwa [installed_retire (houtput k' m' hm')] at hi'
  exact
    { sources := fun k' m' hm' hi' x hx => by
        have hold' := hold k' m' hm' hi'
        exact Finset.mem_erase.mpr ⟨fun h => hother k' m' hm' hold' (h ▸ hx),
          hst.sources k' m' hm' hold' hx⟩
      expected := fun k' m' hm' hi' => by
        have hold' := hold k' m' hm' hi'
        refine (Finset.sum_congr rfl fun x hx => ?_).trans (hst.expected k' m' hm' hold')
        have hne : x ≠ n := fun h => hother k' m' hm' hold' (h ▸ hx)
        rw [rows_retire hne]
      output := fun k' m' hm' hi' ho =>
        hst.output k' m' hm' (hold k' m' hm' hi') (Finset.mem_erase.mp ho).2
      disjoint := hst.disjoint
      outputs := hst.outputs
      apart := fun k1 k2 m1 m2 h1 h2 hne hi' => hst.apart k1 k2 m1 m2 h1 h2 hne (hold k1 m1 h1 hi') }

theorem visible_retire (hn : st.Hidden n)
    (houtput : ∀ k m, st.merges k = some m → m.output ≠ n) :
    (st.retire n).visible = st.visible := by
  have hhidden : ∀ x, (st.retire n).Hidden x ↔ st.Hidden x :=
    hidden_congr rfl fun k m hm => installed_retire (houtput k m hm)
  refine visible_congr fun x => ?_
  by_cases hx : x = n
  · subst hx
    rw [share_of_hidden hn, share_of_hidden ((hhidden x).mpr hn)]
  · exact share_congr (Finset.mem_erase.trans (and_iff_right hx)) (hhidden x) (rows_retire hx)

end retire

/-! ### Closing -/

section closeMerge

variable [DecidableEq κ] {k : κ} {m : Merge ν}

omit [DecidableEq ν] in
theorem merges_closeMerge {k' : κ} {m' : Merge ν} (h : (st.closeMerge k).merges k' = some m') :
    k' ≠ k ∧ st.merges k' = some m' := by
  simp only [closeMerge] at h
  by_cases hk : k' = k
  · subst hk
    rw [Function.update_self] at h
    cases h
  · exact ⟨hk, by rwa [Function.update_of_ne hk] at h⟩

omit [DecidableEq ν] in
theorem WF.closeMerge (hst : st.WF) (k : κ) : (st.closeMerge k).WF where
  sources k' m' hm' := hst.sources k' m' (merges_closeMerge hm').2
  expected k' m' hm' := hst.expected k' m' (merges_closeMerge hm').2
  output k' m' hm' := hst.output k' m' (merges_closeMerge hm').2
  disjoint k1 k2 m1 m2 h1 h2 :=
    hst.disjoint k1 k2 m1 m2 (merges_closeMerge h1).2 (merges_closeMerge h2).2
  outputs k1 k2 m1 m2 h1 h2 :=
    hst.outputs k1 k2 m1 m2 (merges_closeMerge h1).2 (merges_closeMerge h2).2
  apart k1 k2 m1 m2 h1 h2 :=
    hst.apart k1 k2 m1 m2 (merges_closeMerge h1).2 (merges_closeMerge h2).2

/-- A merge that can be closed without a trace: it is given up, or its sources have no rows left. -/
def Closes (st : Store ν κ ρ) (m : Merge ν) : Prop :=
  st.Installed m → ∀ n ∈ m.sources, n ≠ m.output → n ∈ st.files → st.rows n = 0

/-- **Closing a merge.** -/
theorem visible_closeMerge (hm : st.merges k = some m) (h : st.Closes m) :
    (st.closeMerge k).visible = st.visible := by
  refine visible_congr fun n => ?_
  by_cases hh : st.Hidden n
  · obtain ⟨k', m', hm', hi, hs, hne⟩ := hh
    rw [share_of_hidden ⟨k', m', hm', hi, hs, hne⟩]
    by_cases hk : k' = k
    · subst hk
      obtain rfl : m = m' := Option.some.inj (hm.symm.trans hm')
      by_cases hn : n ∈ st.files
      · exact le_antisymm ((share_le_rows n).trans (h hi n hs hne hn).le) (Multiset.zero_le _)
      · exact share_of_not_mem hn
    · exact share_of_hidden ⟨k', m', (Function.update_of_ne hk _ _).trans hm', hi, hs, hne⟩
  · have hnew : ¬ (st.closeMerge k).Hidden n := by
      rintro ⟨k', m', hm', hi, hs⟩
      exact hh ⟨k', m', (merges_closeMerge hm').2, hi, hs⟩
    exact share_congr Iff.rfl (iff_of_false hnew hh) rfl

end closeMerge

end Store

end BkkCollector.Logic.MergeStore
