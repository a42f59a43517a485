import Mathlib.Data.Rat.Floor
import BkkCollector.Python.Objects

/-! # Parsed JSON documents

What `json.load` returns, and how the code looks into it: `.get`, indexing, comparisons with
constants, truth, `int(..)`. Looking into a value of the wrong type raises. -/

namespace BkkCollector.Python.Documents

open BkkCollector.Python.Objects

/-- A parsed document. A float without a value is `nan` or an infinity. -/
inductive Doc where
  | null
  | bool (b : Bool)
  | int (i : ℤ)
  | float (q : Option ℚ)
  | str (s : String)
  | list (items : List Doc)
  | dict (members : List (String × Doc))

namespace Doc

/-- `d.get(key)`, if there is such a key. -/
def find (d : Doc) (key : String) : Except PyError (Option Doc) :=
  match d with
  | .dict members => .ok (members.lookup key)
  | _ => .error ⟨.attributeError, "object has no attribute 'get'"⟩

/-- `d.get(key, default)`. -/
def get (d : Doc) (key : String) (default : Doc) : Except PyError Doc :=
  (d.find key).map fun v => v.getD default

/-- `d[key]`. -/
def item (d : Doc) (key : String) : Except PyError Doc :=
  match d with
  | .dict members =>
    match members.lookup key with
    | some v => .ok v
    | none => .error ⟨.keyError, key⟩
  | _ => .error ⟨.typeError, "object is not subscriptable by a string"⟩

/-- `for item in d`, where the code expects a list. -/
def items (d : Doc) : Except PyError (List Doc) :=
  match d with
  | .list items => .ok items
  | .dict members => .ok (members.map fun m => .str m.1)
  | .str s => .ok (s.toList.map fun c => .str c.toString)
  | _ => .error ⟨.typeError, "object is not iterable"⟩

/-- `isinstance(d, dict)`. -/
def isDict : Doc → Bool
  | .dict _ => true
  | _ => false

/-- A list, if `isinstance(d, list)`. -/
def asList : Doc → Option (List Doc)
  | .list items => some items
  | _ => none

/-- A text, if `isinstance(d, str)`. -/
def asStr : Doc → Option String
  | .str s => some s
  | _ => none

/-- `d is True`. -/
def isTrue : Doc → Bool
  | .bool b => b
  | _ => false

/-- `d is None`. -/
def isNone : Doc → Bool
  | .null => true
  | _ => false

/-- `bool(d)`. -/
def truthy : Doc → Bool
  | .null => false
  | .bool b => b
  | .int i => decide (i ≠ 0)
  | .float q => decide (q ≠ some 0)
  | .str s => decide (s ≠ "")
  | .list items => !items.isEmpty
  | .dict members => !members.isEmpty

/-- The number a value compares as. -/
def number : Doc → Option ℚ
  | .bool b => some (if b then 1 else 0)
  | .int i => some i
  | .float q => q
  | _ => none

/-- `d == i`. -/
def eqInt (d : Doc) (i : ℤ) : Bool := decide (d.number = some (i : ℚ))

/-- `d == s`. -/
def eqStr (d : Doc) (s : String) : Bool := decide (d.asStr = some s)

/-- An integer, if `type(d) is int`. -/
def exactInt : Doc → Option ℤ
  | .int i => some i
  | _ => none

/-- `int(d)`; `parse` is what it makes of a text. -/
def toInt (parse : String → Option ℤ) : Doc → Except PyError ℤ
  | .bool b => .ok (if b then 1 else 0)
  | .int i => .ok i
  | .float (some q) => .ok (if 0 ≤ q then ⌊q⌋ else ⌈q⌉)
  | .float none => .error ⟨.valueError, "cannot convert float to integer"⟩
  | .str s =>
    match parse s with
    | some i => .ok i
    | none => .error ⟨.valueError, "invalid literal for int()"⟩
  | _ => .error ⟨.typeError, "int() argument must be a string or a number"⟩

/-! ### Equality -/

mutual

/-- Are two documents the same. -/
def same : Doc → Doc → Bool
  | .null, .null => true
  | .bool a, .bool b => a == b
  | .int a, .int b => a == b
  | .float a, .float b => a == b
  | .str a, .str b => a == b
  | .list a, .list b => sameItems a b
  | .dict a, .dict b => sameMembers a b
  | _, _ => false

/-- Are two lists of documents the same. -/
def sameItems : List Doc → List Doc → Bool
  | [], [] => true
  | a :: as, b :: bs => same a b && sameItems as bs
  | _, _ => false

/-- Are the members of two objects the same, in the same order. -/
def sameMembers : List (String × Doc) → List (String × Doc) → Bool
  | [], [] => true
  | (k, a) :: as, (l, b) :: bs => k == l && same a b && sameMembers as bs
  | _, _ => false

end

mutual

theorem same_iff : ∀ a b : Doc, same a b = true ↔ a = b
  | .null, b => by cases b <;> simp [same]
  | .bool a, b => by cases b <;> simp [same]
  | .int a, b => by cases b <;> simp [same]
  | .float a, b => by cases b <;> simp [same]
  | .str a, b => by cases b <;> simp [same]
  | .list as, b => by
    cases b with
    | list bs => simp [same, sameItems_iff as bs]
    | _ => simp [same]
  | .dict as, b => by
    cases b with
    | dict bs => simp [same, sameMembers_iff as bs]
    | _ => simp [same]

theorem sameItems_iff : ∀ as bs : List Doc, sameItems as bs = true ↔ as = bs
  | [], bs => by cases bs <;> simp [sameItems]
  | a :: as, bs => by
    cases bs with
    | nil => simp [sameItems]
    | cons b bs => simp [sameItems, same_iff a b, sameItems_iff as bs]

theorem sameMembers_iff : ∀ as bs : List (String × Doc), sameMembers as bs = true ↔ as = bs
  | [], bs => by cases bs <;> simp [sameMembers]
  | (k, a) :: as, bs => by
    cases bs with
    | nil => simp [sameMembers]
    | cons b bs =>
      obtain ⟨l, b⟩ := b
      simp [sameMembers, same_iff a b, sameMembers_iff as bs, and_assoc]

end

instance : DecidableEq Doc := fun a b => decidable_of_iff _ (same_iff a b)

/-! ### Looking into a document -/

theorem find_dict (members : List (String × Doc)) (key : String) :
    (Doc.dict members).find key = .ok (members.lookup key) := rfl

theorem get_dict (members : List (String × Doc)) (key : String) (default : Doc) :
    (Doc.dict members).get key default = .ok ((members.lookup key).getD default) := rfl

@[simp] theorem isTrue_bool (b : Bool) : (Doc.bool b).isTrue = b := rfl

@[simp] theorem eqStr_str (s t : String) : (Doc.str s).eqStr t = decide (s = t) := by
  simp [eqStr, asStr]

@[simp] theorem eqInt_int (i j : ℤ) : (Doc.int i).eqInt j = decide (i = j) := by
  simp [eqInt, number]

theorem asStr_eq_some {d : Doc} {s : String} : d.asStr = some s ↔ d = .str s := by
  cases d <;> simp [asStr]

theorem asList_eq_some {d : Doc} {l : List Doc} : d.asList = some l ↔ d = .list l := by
  cases d <;> simp [asList]

end Doc

end BkkCollector.Python.Documents
