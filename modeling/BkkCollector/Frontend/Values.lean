import Mathlib.Data.List.Perm.Subperm
import Mathlib.Data.Rat.Defs
import BkkCollector.Frontend.Strings

/-! # JSON values

What `JSON.parse` makes of a text, and `json.loads` of the same text. A number is a double, a string
is a list of UTF-16 code units, with or without a partner for every surrogate, and the members of an
object stand in the order of the text. -/

namespace BkkCollector.Frontend.Values

open BkkCollector.Frontend.Strings

/-! ### Strings -/

/-- The first half of a surrogate pair. -/
def isHigh (u : UInt16) : Bool := 0xd800 ≤ u && u < 0xdc00

/-- The second half of a surrogate pair. -/
def isLow (u : UInt16) : Bool := 0xdc00 ≤ u && u < 0xe000

/-- Every surrogate has its partner. -/
def isWellFormed : JsString → Bool
  | [] => true
  | [u] => !isHigh u && !isLow u
  | u :: v :: rest =>
    if isHigh u then isLow v && isWellFormed rest else !isLow u && isWellFormed (v :: rest)

theorem isWellFormed_of_ascii {s : JsString} (h : ∀ u ∈ s, u < 0x80) : isWellFormed s = true := by
  have hunit : ∀ u : UInt16, u < 0x80 → isHigh u = false ∧ isLow u = false := by
    intro u hu
    have hlt : u.toNat < 0x80 := hu
    refine ⟨?_, ?_⟩
    · rw [isHigh, Bool.and_eq_false_iff, decide_eq_false_iff_not, UInt16.le_iff_toNat_le]
      exact Or.inl (not_le.mpr (lt_trans hlt (by decide)))
    · rw [isLow, Bool.and_eq_false_iff, decide_eq_false_iff_not, UInt16.le_iff_toNat_le]
      exact Or.inl (not_le.mpr (lt_trans hlt (by decide)))
  induction s using isWellFormed.induct with
  | case1 => rfl
  | case2 u =>
    obtain ⟨hhigh, hlow⟩ := hunit u (h u List.mem_cons_self)
    rw [isWellFormed, hhigh, hlow]
    rfl
  | case3 u v rest hhigh ih =>
    rw [(hunit u (h u List.mem_cons_self)).1] at hhigh
    cases hhigh
  | case4 u v rest hhigh ih =>
    rw [isWellFormed, if_neg hhigh, (hunit u (h u List.mem_cons_self)).2]
    exact ih fun w hw => h w (List.mem_cons_of_mem _ hw)

theorem codeUnits_inj {c d : Char} {r s : JsString}
    (h : codeUnits c ++ r = codeUnits d ++ s) : c = d ∧ r = s := by
  have hc : c.toNat < 0xd800 ∨ 0xdfff < c.toNat ∧ c.toNat < 0x110000 := c.valid
  have hd : d.toNat < 0xd800 ∨ 0xdfff < d.toNat ∧ d.toNat < 0x110000 := d.valid
  have hunit : ∀ {m n : ℕ}, UInt16.ofNat m = UInt16.ofNat n → m % 65536 = n % 65536 := by
    intro m n h
    simpa using congrArg UInt16.toNat h
  have hchar : c.toNat = d.toNat → c = d := fun h => Char.toNat_inj.mp h
  unfold codeUnits at h
  split_ifs at h with h1 h2 h2
  · obtain ⟨hu, hrest⟩ := List.cons.inj h
    have hu := hunit hu
    exact ⟨hchar (by omega), hrest⟩
  · obtain ⟨hu, -⟩ := List.cons.inj h
    have hu := hunit hu
    omega
  · obtain ⟨hu, -⟩ := List.cons.inj h
    have hu := hunit hu
    omega
  · obtain ⟨hu, htail⟩ := List.cons.inj h
    obtain ⟨hv, hrest⟩ := List.cons.inj htail
    have hu := hunit hu
    have hv := hunit hv
    exact ⟨hchar (by omega), hrest⟩

theorem codeUnits_ne_nil (c : Char) : codeUnits c ≠ [] := by
  unfold codeUnits
  split_ifs
  · exact List.cons_ne_nil _ _
  · exact List.cons_ne_nil _ _

theorem js_injective : Function.Injective js := by
  have hflat : ∀ {l m : List Char}, l.flatMap codeUnits = m.flatMap codeUnits → l = m := by
    intro l
    induction l with
    | nil =>
      intro m h
      cases m with
      | nil => rfl
      | cons d m =>
        rw [List.flatMap_cons] at h
        exact absurd (List.append_eq_nil_iff.mp h.symm).1 (codeUnits_ne_nil d)
    | cons c l ih =>
      intro m h
      cases m with
      | nil =>
        rw [List.flatMap_cons] at h
        exact absurd (List.append_eq_nil_iff.mp h).1 (codeUnits_ne_nil c)
      | cons d m =>
        rw [List.flatMap_cons, List.flatMap_cons] at h
        obtain ⟨rfl, hrest⟩ := codeUnits_inj h
        rw [ih hrest]
  exact fun s t h => String.toList_inj.mp (hflat h)

@[simp] theorem js_inj {s t : String} : js s = js t ↔ s = t := js_injective.eq_iff

@[simp] theorem js_beq (s t : String) : (js s == js t) = (s == t) := by
  rw [Bool.eq_iff_iff, beq_iff_eq, beq_iff_eq, js_inj]

/-! ### Values -/

/-- A JSON value. A number without a value is an infinity; `-0` is `0`, from which no code tells it
apart. -/
inductive JsValue where
  | null
  | bool (b : Bool)
  | number (q : Option ℚ)
  | string (s : JsString)
  | array (items : List JsValue)
  | object (members : List (JsString × JsValue))

namespace JsValue

/-- `value[key]` of an object that has this key. -/
def get : JsValue → String → JsValue
  | .object members, key => (members.lookup (js key)).getD .null
  | _, _ => .null

/-- The elements of an array. -/
def items : JsValue → List JsValue
  | .array items => items
  | _ => []

/-- `value[i]` of an array that is long enough. -/
def nth (value : JsValue) (i : ℕ) : JsValue := value.items[i]?.getD .null

/-- The code units of a string. -/
def text : JsValue → JsString
  | .string s => s
  | _ => []

/-- The value of a finite number. -/
def numberValue : JsValue → Option ℚ
  | .number q => q
  | _ => none

/-- `value === s`. -/
def is : JsValue → String → Bool
  | .string t, s => t == js s
  | _, _ => false

/-- `Array.isArray(value)`. -/
def isArray : JsValue → Bool
  | .array _ => true
  | _ => false

/-- `value === null`. -/
def isNull : JsValue → Bool
  | .null => true
  | _ => false

end JsValue

/-- `{...members, [key]: value}`: a key that is there keeps its place. -/
def setMember (key : JsString) (value : JsValue) :
    List (JsString × JsValue) → List (JsString × JsValue)
  | [] => [(key, value)]
  | (k, v) :: members =>
    if k = key then (k, value) :: members else (k, v) :: setMember key value members

/-- `{...value, key: member}`. -/
def JsValue.set : JsValue → String → JsValue → JsValue
  | .object members, key, member => .object (setMember (js key) member members)
  | value, _, _ => value

section Members

variable {key k : JsString} {value value' v : JsValue} {members : List (JsString × JsValue)}

theorem lookup_setMember_self : (setMember key value members).lookup key = some value := by
  induction members with
  | nil => exact List.lookup_cons_self
  | cons m members ih =>
    obtain ⟨k, v⟩ := m
    rw [setMember]
    split_ifs with h
    · rw [h, List.lookup_cons_self]
    · rw [List.lookup_cons, beq_false_of_ne (Ne.symm h)]
      exact ih

theorem lookup_setMember_ne (hk : k ≠ key) :
    (setMember key value members).lookup k = members.lookup k := by
  induction members with
  | nil => rw [setMember, List.lookup_cons, beq_false_of_ne hk]
  | cons m members ih =>
    obtain ⟨k', v⟩ := m
    rw [setMember]
    split_ifs with h
    · rw [List.lookup_cons, List.lookup_cons, h, beq_false_of_ne hk]
    · rw [List.lookup_cons, List.lookup_cons, ih]

theorem setMember_setMember :
    setMember key value' (setMember key value members) = setMember key value' members := by
  induction members with
  | nil => simp only [setMember, if_true]
  | cons m members ih =>
    obtain ⟨k, v⟩ := m
    by_cases h : k = key
    · simp only [setMember, if_pos h]
    · simp only [setMember, if_neg h, ih]

/-- A key that is there keeps its place. -/
theorem setMember_split (h : members.lookup key = some v) :
    ∃ l r, members = l ++ (key, v) :: r ∧ ∀ w, setMember key w members = l ++ (key, w) :: r := by
  induction members with
  | nil => cases h
  | cons m members ih =>
    obtain ⟨k, u⟩ := m
    rw [List.lookup_cons] at h
    by_cases hk : k = key
    · rw [hk, beq_self_eq_true] at h
      cases h
      exact ⟨[], members, by rw [hk]; rfl, fun w => by rw [setMember, if_pos hk, hk]; rfl⟩
    · rw [beq_false_of_ne (Ne.symm hk)] at h
      obtain ⟨l, r, hmembers, hset⟩ := ih h
      refine ⟨(k, u) :: l, r, by rw [hmembers]; rfl, fun w => ?_⟩
      rw [setMember, if_neg hk, hset]
      rfl

end Members

namespace JsValue

variable {value : JsValue} {key k : String} {member member' : JsValue}

theorem is_iff {s : String} : value.is s = true ↔ value = .string (js s) := by
  cases value <;> simp [is]

theorem isNull_iff : value.isNull = true ↔ value = .null := by
  cases value <;> simp [isNull]

theorem eq_array (h : value.isArray = true) : value = .array value.items := by
  cases value <;> first | rfl | cases h

theorem get_set_self {members : List (JsString × JsValue)} :
    ((object members).set key member).get key = member := by
  rw [set, get, lookup_setMember_self, Option.getD_some]

theorem get_set_ne (h : k ≠ key) : (value.set key member).get k = value.get k := by
  cases value with
  | object members => rw [set, get, get, lookup_setMember_ne (js_inj.not.mpr h)]
  | _ => rfl

theorem set_set : (value.set key member).set key member' = value.set key member' := by
  cases value with
  | object members => rw [set, set, set, setMember_setMember]
  | _ => rfl

end JsValue

/-! ### Numbers and strings within a value -/

mutual

/-- All numbers and all strings of a value, keys included. -/
def JsValue.all (number : Option ℚ → Bool) (string : JsString → Bool) : JsValue → Bool
  | .number q => number q
  | .string s => string s
  | .array items => allItems number string items
  | .object members => allMembers number string members
  | _ => true

/-- Those of the elements of an array. -/
def allItems (number : Option ℚ → Bool) (string : JsString → Bool) : List JsValue → Bool
  | [] => true
  | v :: vs => v.all number string && allItems number string vs

/-- Those of the members of an object. -/
def allMembers (number : Option ℚ → Bool) (string : JsString → Bool) :
    List (JsString × JsValue) → Bool
  | [] => true
  | (k, v) :: ms => string k && v.all number string && allMembers number string ms

end

section All

variable {number : Option ℚ → Bool} {string : JsString → Bool}

theorem allItems_eq (items : List JsValue) :
    allItems number string items = items.all (·.all number string) := by
  induction items with
  | nil => rw [allItems, List.all_nil]
  | cons v items ih => rw [allItems, ih, List.all_cons]

theorem allMembers_eq (members : List (JsString × JsValue)) :
    allMembers number string members =
      members.all fun m => string m.1 && m.2.all number string := by
  induction members with
  | nil => rw [allMembers, List.all_nil]
  | cons m members ih => rw [allMembers, ih, List.all_cons]

end All

/-! ### Equal values -/

/-- **Equality** up to the order of the members of objects. -/
inductive Same : JsValue → JsValue → Prop
  | refl (v : JsValue) : Same v v
  | trans {u v w : JsValue} : Same u v → Same v w → Same u w
  | element {v w : JsValue} (l r : List JsValue) :
    Same v w → Same (.array (l ++ v :: r)) (.array (l ++ w :: r))
  | member {v w : JsValue} (k : JsString) (l r : List (JsString × JsValue)) :
    Same v w → Same (.object (l ++ (k, v) :: r)) (.object (l ++ (k, w) :: r))
  | perm {ms ns : List (JsString × JsValue)} : ms.Perm ns → Same (.object ms) (.object ns)

namespace Same

theorem array {l m : List JsValue} (h : List.Forall₂ Same l m) : Same (.array l) (.array m) := by
  have hbehind : ∀ front, Same (.array (front ++ l)) (.array (front ++ m)) := by
    induction h with
    | nil => exact fun front => .refl _
    | @cons v w l m hvw _ ih =>
      intro front
      refine .trans (.element front l hvw) ?_
      have hrest := ih (front ++ [w])
      rwa [List.append_assoc, List.append_assoc] at hrest
  exact hbehind []

theorem set {members : List (JsString × JsValue)} {key : String} {v w : JsValue}
    (h : members.lookup (js key) = some v) (hs : Same w v) :
    Same ((JsValue.object members).set key w) (.object members) := by
  obtain ⟨l, r, hmembers, hset⟩ := setMember_split h
  rw [JsValue.set, hset, hmembers]
  exact .member _ l r hs

end Same

end BkkCollector.Frontend.Values
