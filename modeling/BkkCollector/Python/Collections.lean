import Mathlib.Algebra.GroupWithZero.Nat
import Mathlib.Data.List.AList
import Mathlib.Data.List.Dedup
import Mathlib.Data.List.Perm.Basic
import Mathlib.Data.List.Sort

/-! # Sets and dictionaries

A Python set is a list without repetition, of which only the members matter; a dictionary of sets
is an association list, of which only the lookups matter. -/

namespace BkkCollector.Python.Collections

variable {α κ : Type}

/-- `sorted(set(strings))`. -/
def sortedSet (strings : List String) : List String := strings.dedup.insertionSort (· ≤ ·)

theorem mem_sortedSet {strings : List String} {s : String} :
    s ∈ sortedSet strings ↔ s ∈ strings := by
  rw [sortedSet, List.mem_insertionSort, List.mem_dedup]

/-- A set. -/
structure PySet (α : Type) where
  toList : List α
  nodup : toList.Nodup

namespace PySet

instance [DecidableEq α] : DecidableEq (PySet α) := fun s t =>
  decidable_of_iff (s.toList = t.toList) (by cases s; cases t; simp)

instance : EmptyCollection (PySet α) := ⟨⟨[], List.nodup_nil⟩⟩

/-- `len(s)`. -/
def len (s : PySet α) : ℕ := s.toList.length

/-- The truth value of a set. -/
def isEmpty (s : PySet α) : Bool := s.toList.isEmpty

/-- The same members. -/
def Same (s t : PySet α) : Prop := ∀ a, a ∈ s.toList ↔ a ∈ t.toList

@[simp] theorem mem_empty (a : α) : a ∈ (∅ : PySet α).toList ↔ False := by
  simp [EmptyCollection.emptyCollection]

theorem isEmpty_iff (s : PySet α) : s.isEmpty = true ↔ ∀ a, a ∉ s.toList := by
  simp [isEmpty, List.eq_nil_iff_forall_not_mem]

theorem Same.refl (s : PySet α) : Same s s := fun _ => Iff.rfl

theorem Same.symm {s t : PySet α} (h : Same s t) : Same t s := fun a => (h a).symm

theorem Same.trans {s t u : PySet α} (h : Same s t) (h' : Same t u) : Same s u := fun a =>
  (h a).trans (h' a)

theorem Same.len_eq {s t : PySet α} (h : Same s t) : s.len = t.len :=
  ((List.perm_ext_iff_of_nodup s.nodup t.nodup).mpr h).length_eq

section Operations

variable [DecidableEq α]

/-- `set(values)`. -/
def ofList (l : List α) : PySet α := ⟨l.dedup, l.nodup_dedup⟩

/-- `s.add(a)`. -/
def add (s : PySet α) (a : α) : PySet α := ⟨s.toList.insert a, s.nodup.insert⟩

/-- `s - t`. -/
def diff (s t : PySet α) : PySet α := ⟨s.toList.filter fun a => a ∉ t.toList, s.nodup.filter _⟩

/-- `s | t`. -/
def union (s t : PySet α) : PySet α := ⟨s.toList ∪ t.toList, t.nodup.union _⟩

/-- `s & t` is empty. -/
def isDisjoint (s t : PySet α) : Bool := s.toList.all fun a => a ∉ t.toList

/-- `s <= t`. -/
def isSubset (s t : PySet α) : Bool := s.toList.all fun a => a ∈ t.toList

@[simp] theorem mem_ofList (l : List α) (a : α) : a ∈ (ofList l).toList ↔ a ∈ l := by simp [ofList]

@[simp] theorem mem_add (s : PySet α) (a b : α) : b ∈ (s.add a).toList ↔ b = a ∨ b ∈ s.toList := by
  simp [add]

@[simp] theorem mem_diff (s t : PySet α) (a : α) :
    a ∈ (s.diff t).toList ↔ a ∈ s.toList ∧ a ∉ t.toList := by simp [diff]

@[simp] theorem mem_union (s t : PySet α) (a : α) :
    a ∈ (s.union t).toList ↔ a ∈ s.toList ∨ a ∈ t.toList := by simp [union]

theorem isDisjoint_iff (s t : PySet α) : s.isDisjoint t = true ↔ ∀ a ∈ s.toList, a ∉ t.toList := by
  simp [isDisjoint]

theorem isSubset_iff (s t : PySet α) : s.isSubset t = true ↔ ∀ a ∈ s.toList, a ∈ t.toList := by
  simp [isSubset]

end Operations

end PySet

/-! ### Dictionaries of sets -/

/-- A dictionary of sets. -/
abbrev SetDict (κ α : Type) := AList fun _ : κ => PySet α

namespace SetDict

variable [DecidableEq κ]

/-- `sum(map(len, d.values()))`. -/
def total (d : SetDict κ α) : ℕ := (d.entries.map fun e => e.2.len).sum

/-- The same keys, with the same sets. -/
def Same (d e : SetDict κ α) : Prop := ∀ k, Option.Rel PySet.Same (d.lookup k) (e.lookup k)

theorem Same.refl (d : SetDict κ α) : Same d d := fun k => by
  cases d.lookup k with
  | none => exact Option.Rel.none
  | some s => exact Option.Rel.some (PySet.Same.refl s)

theorem Same.mem_iff {d e : SetDict κ α} (h : Same d e) (k : κ) : k ∈ d ↔ k ∈ e := by
  rw [← AList.lookup_isSome, ← AList.lookup_isSome]
  have := h k
  revert this
  generalize d.lookup k = s
  generalize e.lookup k = t
  rintro (_ | _) <;> simp

theorem Same.keys_perm {d e : SetDict κ α} (h : Same d e) : d.keys.Perm e.keys :=
  (List.perm_ext_iff_of_nodup d.keys_nodup e.keys_nodup).mpr fun k => by
    rw [← AList.mem_keys, ← AList.mem_keys, h.mem_iff]

theorem Same.size_eq {d e : SetDict κ α} (h : Same d e) : d.keys.length = e.keys.length :=
  h.keys_perm.length_eq

/-- The total, from the keys and their lookups. -/
theorem total_eq (d : SetDict κ α) :
    d.total = (d.keys.map fun k => ((d.lookup k).map PySet.len).getD 0).sum := by
  unfold total
  rw [AList.keys, List.keys, List.map_map]
  congr 1
  refine List.map_congr_left fun e he => ?_
  have : d.lookup e.1 = some e.2 := AList.mem_lookup_iff.mpr he
  simp [this]

theorem Same.total_eq {d e : SetDict κ α} (h : Same d e) : d.total = e.total := by
  rw [SetDict.total_eq, SetDict.total_eq]
  have hlen : ∀ k, ((d.lookup k).map PySet.len).getD 0 = ((e.lookup k).map PySet.len).getD 0 := by
    intro k
    have := h k
    revert this
    generalize d.lookup k = s
    generalize e.lookup k = t
    rintro (hst | _)
    · simp [hst.len_eq]
    · rfl
  rw [List.map_congr_left fun k _ => hlen k]
  exact (h.keys_perm.map _).sum_nat

end SetDict

end BkkCollector.Python.Collections
