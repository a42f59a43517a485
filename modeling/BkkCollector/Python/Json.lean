import Mathlib.Data.List.Sort
import Mathlib.Data.String.Basic

/-! # JSON texts

`json.dumps(value, ensure_ascii=False, sort_keys=True, separators=(",", ":"))`, for values without
floats. A text determines its value up to the order of the members of its objects: `dumps_inj`.

The writer is a prefix code: a written value ends where it ends, whatever stands behind it, unless
it is a number with another digit behind it. -/

namespace BkkCollector.Python.Json

/-- A value `json.dumps` accepts. -/
inductive JsonValue where
  | null
  | bool (b : Bool)
  | int (i : ℤ)
  | str (s : String)
  | list (items : List JsonValue)
  | dict (members : List (String × JsonValue))

/-! ### Writing -/

/-- The digit of a number below sixteen. -/
def hexDigit (n : ℕ) : Char := Nat.digitChar n

/-- A character in a string: a quote, a backslash and the control characters are escaped. -/
def escape (c : Char) : List Char :=
  if c = '"' then ['\\', '"']
  else if c = '\\' then ['\\', '\\']
  else if c = '\n' then ['\\', 'n']
  else if c = '\r' then ['\\', 'r']
  else if c = '\t' then ['\\', 't']
  else if c = Char.ofNat 8 then ['\\', 'b']
  else if c = Char.ofNat 12 then ['\\', 'f']
  else if c.toNat < 32 then
    ['\\', 'u', '0', '0', hexDigit (c.toNat / 16), hexDigit (c.toNat % 16)]
  else [c]

/-- A string behind its opening quote. -/
def writeChars : List Char → List Char
  | [] => ['"']
  | c :: cs => escape c ++ writeChars cs

/-- A string. -/
def writeString (s : String) : List Char := '"' :: writeChars s.toList

/-- An integer in decimal. -/
def writeInt : ℤ → List Char
  | .ofNat n => Nat.toDigits 10 n
  | .negSucc n => '-' :: Nat.toDigits 10 (n + 1)

mutual

/-- A value, its objects as they stand. -/
def write : JsonValue → List Char
  | .null => ['n', 'u', 'l', 'l']
  | .bool true => ['t', 'r', 'u', 'e']
  | .bool false => ['f', 'a', 'l', 's', 'e']
  | .int i => writeInt i
  | .str s => writeString s
  | .list [] => ['[', ']']
  | .list (v :: vs) => '[' :: (write v ++ writeItems vs)
  | .dict [] => ['{', '}']
  | .dict ((k, v) :: ms) => '{' :: (writeString k ++ ':' :: (write v ++ writeMembers ms))

/-- The items of a list behind the first one. -/
def writeItems : List JsonValue → List Char
  | [] => [']']
  | v :: vs => ',' :: (write v ++ writeItems vs)

/-- The members of an object behind the first one. -/
def writeMembers : List (String × JsonValue) → List Char
  | [] => ['}']
  | (k, v) :: ms => ',' :: (writeString k ++ ':' :: (write v ++ writeMembers ms))

end

mutual

/-- `sort_keys=True`. -/
def sortKeys : JsonValue → JsonValue
  | .list items => .list (sortItems items)
  | .dict members => .dict ((sortMembers members).insertionSort fun a b => a.1 ≤ b.1)
  | v => v

/-- The items of a list, with their keys sorted. -/
def sortItems : List JsonValue → List JsonValue
  | [] => []
  | v :: vs => sortKeys v :: sortItems vs

/-- The members of an object, with their own keys sorted. -/
def sortMembers : List (String × JsonValue) → List (String × JsonValue)
  | [] => []
  | (k, v) :: ms => (k, sortKeys v) :: sortMembers ms

end

/-- `json.dumps(value, ensure_ascii=False, sort_keys=True, separators=(",", ":"))`. -/
def dumps (v : JsonValue) : String := String.ofList (write (sortKeys v))

/-! ### Strings -/

/-- The inverse of `hexDigit`. -/
def hexValue (c : Char) : ℕ := if c.isDigit then c.toNat - 48 else c.toNat - 87

theorem hexValue_hexDigit : ∀ n, n < 16 → hexValue (hexDigit n) = n := by decide

/-- Reading one escaped character. -/
def unescape : List Char → Option (Char × List Char)
  | '\\' :: 'u' :: '0' :: '0' :: h :: l :: r =>
    some (Char.ofNat (16 * hexValue h + hexValue l), r)
  | '\\' :: 'n' :: r => some ('\n', r)
  | '\\' :: 'r' :: r => some ('\r', r)
  | '\\' :: 't' :: r => some ('\t', r)
  | '\\' :: 'b' :: r => some (Char.ofNat 8, r)
  | '\\' :: 'f' :: r => some (Char.ofNat 12, r)
  | '\\' :: c :: r => some (c, r)
  | c :: r => some (c, r)
  | [] => none

theorem unescape_escape (c : Char) (r : List Char) : unescape (escape c ++ r) = some (c, r) := by
  unfold escape
  split_ifs with h1 h2 h3 h4 h5 h6 h7 h8
  · subst h1; rfl
  · subst h2; rfl
  · subst h3; rfl
  · subst h4; rfl
  · subst h5; rfl
  · subst h6; rfl
  · subst h7; rfl
  · have hh := hexValue_hexDigit (c.toNat / 16) (by omega)
    have hl := hexValue_hexDigit (c.toNat % 16) (by omega)
    have hc : 16 * (c.toNat / 16) + c.toNat % 16 = c.toNat := by omega
    show some (Char.ofNat (16 * hexValue (hexDigit (c.toNat / 16)) +
      hexValue (hexDigit (c.toNat % 16))), r) = some (c, r)
    rw [hh, hl, hc, Char.ofNat_toNat]
  · show unescape (c :: r) = some (c, r)
    unfold unescape
    split <;> simp_all

/-- No escaped character looks like the closing quote. -/
theorem escape_head (c : Char) : ∃ d t, escape c = d :: t ∧ d ≠ '"' := by
  unfold escape
  split_ifs with h1
  all_goals first | exact ⟨_, _, rfl, by decide⟩ | exact ⟨_, _, rfl, h1⟩

theorem writeChars_inj {cs ds r s : List Char} (h : writeChars cs ++ r = writeChars ds ++ s) :
    cs = ds ∧ r = s := by
  induction cs generalizing ds with
  | nil =>
    cases ds with
    | nil => exact ⟨rfl, List.cons.inj h |>.2⟩
    | cons d ds =>
      obtain ⟨e, t, he, hne⟩ := escape_head d
      simp only [writeChars, he, List.cons_append, List.nil_append] at h
      exact absurd (List.cons.inj h).1.symm hne
  | cons c cs ih =>
    cases ds with
    | nil =>
      obtain ⟨e, t, he, hne⟩ := escape_head c
      simp only [writeChars, he, List.cons_append, List.nil_append] at h
      exact absurd (List.cons.inj h).1 hne
    | cons d ds =>
      simp only [writeChars, List.append_assoc] at h
      have hc := unescape_escape c (writeChars cs ++ r)
      rw [h, unescape_escape, Option.some.injEq, Prod.mk.injEq] at hc
      obtain ⟨rfl, rfl⟩ := ih hc.2.symm
      exact ⟨by rw [hc.1], rfl⟩

theorem writeString_inj {k l : String} {r s : List Char}
    (h : writeString k ++ r = writeString l ++ s) : k = l ∧ r = s := by
  obtain ⟨hkl, hrs⟩ := writeChars_inj (List.cons.inj h).2
  exact ⟨String.toList_inj.mp hkl, hrs⟩

/-! ### Numbers -/

/-- No digit stands here. -/
def NoDigit (r : List Char) : Prop := ∀ c t, r = c :: t → c.isDigit = false

theorem noDigit_cons {c : Char} {r : List Char} (h : c.isDigit = false) : NoDigit (c :: r) := by
  intro d t hd
  cases hd
  exact h

theorem takeWhile_digits {ds r : List Char} (hd : ∀ c ∈ ds, c.isDigit = true) (hr : NoDigit r) :
    (ds ++ r).takeWhile Char.isDigit = ds := by
  rw [List.takeWhile_append_of_pos hd]
  cases r with
  | nil => simp
  | cons c t => simp [hr c t rfl]

theorem isDigit_of_mem_toDigits {n : ℕ} {c : Char} (h : c ∈ Nat.toDigits 10 n) :
    c.isDigit = true :=
  Nat.isDigit_of_mem_toDigits (by decide) (by decide) h

theorem toDigits_inj {m n : ℕ} {r s : List Char}
    (h : Nat.toDigits 10 m ++ r = Nat.toDigits 10 n ++ s) (hr : NoDigit r) (hs : NoDigit s) :
    m = n ∧ r = s := by
  have hdigits : Nat.toDigits 10 m = Nat.toDigits 10 n := by
    rw [← takeWhile_digits (fun c => isDigit_of_mem_toDigits (n := m)) hr, h,
      takeWhile_digits (fun c => isDigit_of_mem_toDigits) hs]
  have hmn : m = n := by
    rw [← Nat.ofDigitChars_ten_toDigits (n := m), hdigits, Nat.ofDigitChars_ten_toDigits]
  rw [hdigits] at h
  exact ⟨hmn, List.append_cancel_left h⟩

/-- A number starts with a sign or a digit. -/
theorem writeInt_head (i : ℤ) : ∃ c t, writeInt i = c :: t ∧ (c = '-' ∨ c.isDigit = true) := by
  cases i with
  | ofNat n =>
    obtain ⟨c, t, h⟩ := List.exists_cons_of_ne_nil (Nat.toDigits_ne_nil (n := n) (b := 10))
    exact ⟨c, t, h, Or.inr (isDigit_of_mem_toDigits (n := n) (by rw [h]; exact List.mem_cons_self))⟩
  | negSucc n => exact ⟨_, _, rfl, Or.inl rfl⟩

theorem writeInt_inj {i j : ℤ} {r s : List Char} (h : writeInt i ++ r = writeInt j ++ s)
    (hr : NoDigit r) (hs : NoDigit s) : i = j ∧ r = s := by
  have hsign : ∀ m n : ℕ, ∀ t : List Char, Nat.toDigits 10 m ++ t ≠ '-' :: Nat.toDigits 10 n ++ s ∧
      Nat.toDigits 10 m ++ s ≠ '-' :: Nat.toDigits 10 n ++ r := by
    intro m n t
    obtain ⟨c, u, hc⟩ := List.exists_cons_of_ne_nil (Nat.toDigits_ne_nil (n := m) (b := 10))
    have hdigit := isDigit_of_mem_toDigits (n := m) (c := c) (by rw [hc]; exact List.mem_cons_self)
    rw [hc]
    constructor <;> intro heq <;> rw [(List.cons.inj heq).1] at hdigit <;>
      exact absurd hdigit (by decide)
  cases i with
  | ofNat m =>
    cases j with
    | ofNat n =>
      obtain ⟨rfl, rfl⟩ := toDigits_inj h hr hs
      exact ⟨rfl, rfl⟩
    | negSucc n => exact absurd h (hsign m (n + 1) r).1
  | negSucc m =>
    cases j with
    | ofNat n => exact absurd h.symm (hsign n (m + 1) s).2
    | negSucc n =>
      obtain ⟨hmn, rfl⟩ := toDigits_inj (List.cons.inj h).2 hr hs
      exact ⟨by rw [Nat.succ_injective hmn], rfl⟩

/-! ### Values -/

/-- What a written value starts with tells its kind. -/
def kind : JsonValue → ℕ
  | .null => 0
  | .bool true => 1
  | .bool false => 2
  | .int _ => 3
  | .str _ => 4
  | .list _ => 5
  | .dict _ => 6

/-- The kind of the value that starts with a character. -/
def kindOf (c : Char) : ℕ :=
  if c = 'n' then 0
  else if c = 't' then 1
  else if c = 'f' then 2
  else if c = '-' ∨ c.isDigit = true then 3
  else if c = '"' then 4
  else if c = '[' then 5
  else 6

theorem write_head (v : JsonValue) : ∃ c t, write v = c :: t ∧ kindOf c = kind v := by
  cases v with
  | null => exact ⟨_, _, by rw [write], by decide⟩
  | bool b => cases b <;> exact ⟨_, _, by rw [write], by decide⟩
  | int i =>
    obtain ⟨c, t, h, hc⟩ := writeInt_head i
    refine ⟨c, t, by rw [write, h], ?_⟩
    have hne : ∀ d : Char, d.isDigit = false → d ≠ '-' → c ≠ d := by
      rintro d hd hs rfl
      rcases hc with rfl | hc
      · exact hs rfl
      · rw [hd] at hc
        cases hc
    rw [kindOf, if_neg (hne _ (by decide) (by decide)), if_neg (hne _ (by decide) (by decide)),
      if_neg (hne _ (by decide) (by decide)), if_pos hc]
    rfl
  | str s => exact ⟨_, _, by rw [write, writeString], rfl⟩
  | list items => cases items <;> exact ⟨_, _, by rw [write], rfl⟩
  | dict members => rcases members with _ | ⟨⟨k, v⟩, ms⟩ <;> exact ⟨_, _, by rw [write], rfl⟩

theorem kind_eq {v w : JsonValue} {r s : List Char} (h : write v ++ r = write w ++ s) :
    kind v = kind w := by
  obtain ⟨c, t, hv, hc⟩ := write_head v
  obtain ⟨d, u, hw, hd⟩ := write_head w
  rw [hv, hw, List.cons_append, List.cons_append] at h
  rw [← hc, ← hd, (List.cons.inj h).1]

/-- What follows an item or a member is no digit. -/
theorem noDigit_items (vs : List JsonValue) (r : List Char) : NoDigit (writeItems vs ++ r) := by
  cases vs <;> rw [writeItems] <;> exact noDigit_cons (by decide)

theorem noDigit_members (ms : List (String × JsonValue)) (r : List Char) :
    NoDigit (writeMembers ms ++ r) := by
  rcases ms with _ | ⟨⟨k, v⟩, ms⟩ <;> rw [writeMembers] <;> exact noDigit_cons (by decide)

/-- No value starts with the bracket that closes a list. -/
theorem write_ne_close (v : JsonValue) (r s : List Char) : write v ++ r ≠ ']' :: s := by
  intro h
  obtain ⟨c, t, hv, hc⟩ := write_head v
  rw [hv, List.cons_append] at h
  rw [(List.cons.inj h).1] at hc
  have hk : kind v = 6 := by rw [← hc]; decide
  cases v with
  | dict members =>
    rcases members with _ | ⟨⟨k, v⟩, ms⟩ <;> rw [write] at hv <;> cases hv <;> cases h
  | bool b => cases b <;> cases hk
  | _ => cases hk

mutual

/-- **A written value ends where it ends.** -/
theorem write_inj : ∀ (v w : JsonValue) {r s : List Char}, write v ++ r = write w ++ s →
    NoDigit r → NoDigit s → v = w ∧ r = s
  | .null, w, r, s, h, _, _ => by
    have hk := kind_eq h
    cases w with
    | null => exact ⟨rfl, List.append_cancel_left h⟩
    | bool b => cases b <;> cases hk
    | _ => cases hk
  | .bool true, w, r, s, h, _, _ => by
    have hk := kind_eq h
    cases w with
    | bool b =>
      cases b with
      | true => exact ⟨rfl, List.append_cancel_left h⟩
      | false => cases hk
    | _ => cases hk
  | .bool false, w, r, s, h, _, _ => by
    have hk := kind_eq h
    cases w with
    | bool b =>
      cases b with
      | true => cases hk
      | false => exact ⟨rfl, List.append_cancel_left h⟩
    | _ => cases hk
  | .int i, w, r, s, h, hr, hs => by
    have hk := kind_eq h
    cases w with
    | int j =>
      rw [write, write] at h
      obtain ⟨rfl, rfl⟩ := writeInt_inj h hr hs
      exact ⟨rfl, rfl⟩
    | bool b => cases b <;> cases hk
    | _ => cases hk
  | .str k, w, r, s, h, _, _ => by
    have hk := kind_eq h
    cases w with
    | str l =>
      rw [write, write] at h
      obtain ⟨rfl, rfl⟩ := writeString_inj h
      exact ⟨rfl, rfl⟩
    | bool b => cases b <;> cases hk
    | _ => cases hk
  | .list [], w, r, s, h, _, _ => by
    have hk := kind_eq h
    cases w with
    | list ws =>
      cases ws with
      | nil => exact ⟨rfl, List.append_cancel_left h⟩
      | cons w ws =>
        rw [write, write] at h
        have htail := (List.cons.inj h).2.symm
        rw [List.append_eq, List.append_assoc] at htail
        exact absurd htail (write_ne_close w _ r)
    | bool b => cases b <;> cases hk
    | _ => cases hk
  | .list (v :: vs), w, r, s, h, _, _ => by
    have hk := kind_eq h
    cases w with
    | list ws =>
      cases ws with
      | nil =>
        rw [write, write, List.cons_append, List.cons_append, List.append_assoc] at h
        exact absurd (List.cons.inj h).2 (write_ne_close v _ s)
      | cons w ws =>
        rw [write, write, List.cons_append, List.cons_append, List.append_assoc,
          List.append_assoc] at h
        obtain ⟨rfl, hrest⟩ := write_inj v w (List.cons.inj h).2 (noDigit_items vs r)
          (noDigit_items ws s)
        obtain ⟨rfl, rfl⟩ := writeItems_inj vs ws hrest
        exact ⟨rfl, rfl⟩
    | bool b => cases b <;> cases hk
    | _ => cases hk
  | .dict [], w, r, s, h, _, _ => by
    have hk := kind_eq h
    cases w with
    | dict ns =>
      rcases ns with _ | ⟨⟨l, w⟩, ns⟩
      · exact ⟨rfl, List.append_cancel_left h⟩
      · rw [write, write] at h
        exact absurd (List.cons.inj (List.cons.inj h).2).1 (by decide)
    | bool b => cases b <;> cases hk
    | _ => cases hk
  | .dict ((k, v) :: ms), w, r, s, h, _, _ => by
    have hk := kind_eq h
    cases w with
    | dict ns =>
      rcases ns with _ | ⟨⟨l, w⟩, ns⟩
      · rw [write, write] at h
        exact absurd (List.cons.inj (List.cons.inj h).2).1 (by decide)
      · rw [write, write, List.cons_append, List.cons_append, List.append_assoc,
          List.append_assoc, List.cons_append, List.cons_append, List.append_assoc,
          List.append_assoc] at h
        obtain ⟨rfl, hvalue⟩ := writeString_inj (List.cons.inj h).2
        obtain ⟨rfl, hrest⟩ := write_inj v w (List.cons.inj hvalue).2 (noDigit_members ms r)
          (noDigit_members ns s)
        obtain ⟨rfl, rfl⟩ := writeMembers_inj ms ns hrest
        exact ⟨rfl, rfl⟩
    | bool b => cases b <;> cases hk
    | _ => cases hk

theorem writeItems_inj : ∀ (vs ws : List JsonValue) {r s : List Char},
    writeItems vs ++ r = writeItems ws ++ s → vs = ws ∧ r = s
  | [], ws, r, s, h => by
    cases ws with
    | nil => exact ⟨rfl, List.append_cancel_left h⟩
    | cons w ws =>
      rw [writeItems, writeItems] at h
      exact absurd (List.cons.inj h).1 (by decide)
  | v :: vs, ws, r, s, h => by
    cases ws with
    | nil =>
      rw [writeItems, writeItems] at h
      exact absurd (List.cons.inj h).1 (by decide)
    | cons w ws =>
      rw [writeItems, writeItems, List.cons_append, List.cons_append, List.append_assoc,
        List.append_assoc] at h
      obtain ⟨rfl, hrest⟩ := write_inj v w (List.cons.inj h).2 (noDigit_items vs r)
        (noDigit_items ws s)
      obtain ⟨rfl, rfl⟩ := writeItems_inj vs ws hrest
      exact ⟨rfl, rfl⟩

theorem writeMembers_inj : ∀ (ms ns : List (String × JsonValue)) {r s : List Char},
    writeMembers ms ++ r = writeMembers ns ++ s → ms = ns ∧ r = s
  | [], ns, r, s, h => by
    rcases ns with _ | ⟨⟨l, w⟩, ns⟩
    · exact ⟨rfl, List.append_cancel_left h⟩
    · rw [writeMembers, writeMembers] at h
      exact absurd (List.cons.inj h).1 (by decide)
  | (k, v) :: ms, ns, r, s, h => by
    rcases ns with _ | ⟨⟨l, w⟩, ns⟩
    · rw [writeMembers, writeMembers] at h
      exact absurd (List.cons.inj h).1 (by decide)
    · rw [writeMembers, writeMembers, List.cons_append, List.cons_append, List.append_assoc,
        List.append_assoc, List.cons_append, List.cons_append, List.append_assoc,
        List.append_assoc] at h
      obtain ⟨rfl, hvalue⟩ := writeString_inj (List.cons.inj h).2
      obtain ⟨rfl, hrest⟩ := write_inj v w (List.cons.inj hvalue).2 (noDigit_members ms r)
        (noDigit_members ns s)
      obtain ⟨rfl, rfl⟩ := writeMembers_inj ms ns hrest
      exact ⟨rfl, rfl⟩

end

/-- **A text determines its value**, up to the order of members. -/
theorem dumps_inj {v w : JsonValue} (h : dumps v = dumps w) : sortKeys v = sortKeys w := by
  have hnil : NoDigit [] := fun c t ht => by cases ht
  have htexts : write (sortKeys v) ++ [] = write (sortKeys w) ++ [] := by
    rw [String.ofList_inj.mp h]
  exact (write_inj _ _ htexts hnil hnil).1

end BkkCollector.Python.Json
