import Mathlib.Data.List.Forall2
import Mathlib.Data.List.Induction

/-! # Interning

A list of optional values as a list of distinct values in the order of their first occurrences, and
the positions in it. Values with the same key share a position.

`decode_intern`: mapping the distinct values by a function that may fail, and decoding, is mapping
all values, if the function does not tell values with one key apart. -/

namespace BkkCollector.Logic.Interning

variable {α β κ : Type} [DecidableEq κ] (key : α → κ)

/-- The distinct values, and the position of each value. -/
structure Interned (α : Type) where
  dictionary : List α := []
  indices : List (Option ℕ) := []
  deriving DecidableEq

/-- One more value. -/
def Interned.push (t : Interned α) : Option α → Interned α
  | none => { t with indices := t.indices ++ [none] }
  | some a =>
    match t.dictionary.findIdx? fun b => key b = key a with
    | some i => { t with indices := t.indices ++ [some i] }
    | none =>
      { dictionary := t.dictionary ++ [a]
        indices := t.indices ++ [some t.dictionary.length] }

/-- All values, one after the other. -/
def intern (values : List (Option α)) : Interned α := values.foldl (Interned.push key) {}

/-- The values behind the positions. -/
def decode (dictionary : List β) (indices : List (Option ℕ)) : List (Option β) :=
  indices.map fun i => i.bind fun i => dictionary[i]?

/-- A value mapped. -/
def mapValue (f : α → Option β) : Option α → Option (Option β)
  | none => some none
  | some a => (f a).map some

/-! ### The loop -/

/-- A position points to a value with the same key, and no position to no value. -/
def Points (dictionary : List α) : Option α → Option ℕ → Prop
  | none, none => True
  | some a, some i => ∃ b, dictionary[i]? = some b ∧ key b = key a
  | _, _ => False

/-- What the loop keeps for the values so far. -/
structure Stores (values : List (Option α)) (t : Interned α) : Prop where
  indices : List.Forall₂ (Points key t.dictionary) values t.indices
  dictionary : ∀ b ∈ t.dictionary, some b ∈ values
  size : t.dictionary.length ≤ values.length

variable {key}

omit [DecidableEq κ] in
/-- A new entry moves no entry that is there. -/
theorem Points.append {dictionary : List α} {v : Option α} {i : Option ℕ}
    (h : Points key dictionary v i) (a : α) : Points key (dictionary ++ [a]) v i := by
  match v, i, h with
  | none, none, _ => trivial
  | some _, some i, ⟨b, hb, hkey⟩ =>
    obtain ⟨hlt, -⟩ := List.getElem?_eq_some_iff.mp hb
    exact ⟨b, by rw [List.getElem?_append_left hlt, hb], hkey⟩

variable {values : List (Option α)} {t : Interned α}

theorem Stores.push (h : Stores key values t) (v : Option α) :
    Stores key (values ++ [v]) (t.push key v) := by
  have hsize : t.dictionary.length ≤ (values ++ [v]).length := by
    rw [List.length_append]
    exact Nat.le_add_right_of_le h.size
  have hmem : ∀ b ∈ t.dictionary, some b ∈ values ++ [v] := fun b hb =>
    List.mem_append_left _ (h.dictionary b hb)
  cases v with
  | none => exact ⟨List.rel_append h.indices (.cons trivial .nil), hmem, hsize⟩
  | some a =>
    cases hfind : t.dictionary.findIdx? fun b => key b = key a with
    | some i =>
      obtain ⟨hi, hkey, -⟩ := List.findIdx?_eq_some_iff_getElem.mp hfind
      have hpoints : Points key t.dictionary (some a) (some i) :=
        ⟨t.dictionary[i], List.getElem?_eq_getElem hi, of_decide_eq_true hkey⟩
      have hpush : t.push key (some a) = { t with indices := t.indices ++ [some i] } := by
        simp only [Interned.push, hfind]
      rw [hpush]
      exact ⟨List.rel_append h.indices (.cons hpoints .nil), hmem, hsize⟩
    | none =>
      have hpoints : Points key (t.dictionary ++ [a]) (some a) (some t.dictionary.length) :=
        ⟨a, by simp, rfl⟩
      have hpush : t.push key (some a) = ⟨t.dictionary ++ [a],
          t.indices ++ [some t.dictionary.length]⟩ := by
        simp only [Interned.push, hfind]
      rw [hpush]
      refine ⟨List.rel_append (h.indices.imp fun v i hvi => hvi.append a) (.cons hpoints .nil), ?_,
        ?_⟩
      · intro b hb
        rcases List.mem_append.mp hb with hb | hb
        · exact hmem b hb
        · rw [List.mem_singleton.mp hb]
          exact List.mem_append_right _ List.mem_cons_self
      · rw [List.length_append, List.length_append]
        exact Nat.add_le_add_right h.size 1

theorem stores_intern (values : List (Option α)) : Stores key values (intern key values) := by
  induction values using List.reverseRecOn with
  | nil => exact ⟨.nil, nofun, Nat.le_refl 0⟩
  | append_singleton values v ih =>
    rw [intern, List.foldl_append]
    exact ih.push v

omit [DecidableEq κ] in
/-- The positions are those of entries. -/
theorem Stores.lt_length (h : Stores key values t) {i : ℕ} (hi : some i ∈ t.indices) :
    i < t.dictionary.length := by
  obtain ⟨n, hn, hget⟩ := List.mem_iff_getElem.mp hi
  have hn' : n < values.length := h.indices.length_eq ▸ hn
  have hpoints := h.indices.get hn' hn
  simp only [List.get_eq_getElem, hget] at hpoints
  cases hv : values[n] with
  | none =>
    rw [hv] at hpoints
    exact hpoints.elim
  | some a =>
    rw [hv] at hpoints
    obtain ⟨b, hb, -⟩ := hpoints
    exact (List.getElem?_eq_some_iff.mp hb).1

/-! ### Decoding -/

theorem mapM_eq_some {f : α → Option β} {l : List α} {l' : List β} :
    l.mapM f = some l' ↔ List.Forall₂ (fun a b => f a = some b) l l' := by
  induction l generalizing l' with
  | nil =>
    rw [List.mapM_nil, List.forall₂_nil_left_iff]
    exact ⟨fun h => (Option.some.inj h).symm, fun h => by rw [h]; rfl⟩
  | cons a l ih =>
    rw [List.mapM_cons]
    constructor
    · intro h
      obtain ⟨b, hb, h⟩ := Option.bind_eq_some_iff.mp h
      obtain ⟨r, hr, h⟩ := Option.bind_eq_some_iff.mp h
      obtain rfl := Option.some.inj h
      exact .cons hb (ih.mp hr)
    · rintro (_ | ⟨hb, hr⟩)
      rw [hb, ih.mpr hr]
      rfl

theorem exists_mapM {f : α → Option β} {l : List α} :
    (∃ l', l.mapM f = some l') ↔ ∀ a ∈ l, ∃ b, f a = some b := by
  induction l with
  | nil => exact iff_of_true ⟨[], rfl⟩ nofun
  | cons a l ih =>
    rw [List.forall_mem_cons, ← ih]
    constructor
    · rintro ⟨_, h⟩
      rcases mapM_eq_some.mp h with _ | ⟨hb, hr⟩
      exact ⟨⟨_, hb⟩, _, mapM_eq_some.mpr hr⟩
    · rintro ⟨⟨b, hb⟩, r, hr⟩
      exact ⟨b :: r, mapM_eq_some.mpr (.cons hb (mapM_eq_some.mp hr))⟩

omit [DecidableEq κ] in
/-- **Decoding**, for what the loop keeps. -/
theorem Stores.mapM_dictionary (h : Stores key values t) {f : α → Option β}
    (hf : ∀ a b, key a = key b → f a = f b) :
    (t.dictionary.mapM f).map (fun d => decode d t.indices) = values.mapM (mapValue f) := by
  cases hd : t.dictionary.mapM f with
  | some d =>
    have hentries := mapM_eq_some.mp hd
    refine (mapM_eq_some.mpr ?_).symm
    simp only [decode]
    rw [List.forall₂_map_right_iff]
    refine h.indices.imp fun v i hvi => ?_
    match v, i, hvi with
    | none, none, _ => rfl
    | some a, some i, ⟨b, hb, hkey⟩ =>
      obtain ⟨hlt, rfl⟩ := List.getElem?_eq_some_iff.mp hb
      have hlt' : i < d.length := hentries.length_eq ▸ hlt
      have hi := hentries.get hlt hlt'
      rw [List.get_eq_getElem] at hi
      simp [mapValue, hf a _ hkey.symm, hi, hlt']
  | none =>
    -- an entry that is not mapped is one of the values
    cases hv : values.mapM (mapValue f) with
    | none => rfl
    | some l =>
      have hvalues := exists_mapM.mp ⟨l, hv⟩
      have hentries : ∃ d, t.dictionary.mapM f = some d := by
        refine exists_mapM.mpr fun b hb => ?_
        obtain ⟨c, hc⟩ := hvalues (some b) (h.dictionary b hb)
        obtain ⟨c', hc', -⟩ := Option.map_eq_some_iff.mp hc
        exact ⟨c', hc'⟩
      obtain ⟨d, hd'⟩ := hentries
      rw [hd] at hd'
      cases hd'

/-- **Interning loses nothing.** -/
theorem decode_intern (values : List (Option α)) {f : α → Option β}
    (hf : ∀ a b, key a = key b → f a = f b) :
    ((intern key values).dictionary.mapM f).map (fun d => decode d (intern key values).indices) =
      values.mapM (mapValue f) :=
  (stores_intern values).mapM_dictionary hf

end BkkCollector.Logic.Interning
