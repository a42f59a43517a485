import Mathlib.Data.Rat.Defs

/-! # Python values, rows and exceptions

The values a parsed row can hold, rows as dictionaries from column names to values, and the
exceptions the modelled code raises, catches or lets through. -/

namespace BkkCollector.Python.Objects

/-- A scalar in a parsed row. A float is a finite one; `bytes` is what the protobuf runtime returns
for a string field whose wire bytes are not UTF-8. -/
inductive Value where
  | null
  | bool (b : Bool)
  | int (i : ℤ)
  | float (q : ℚ)
  | str (s : String)
  | bytes (b : List UInt8)
  deriving DecidableEq

/-- `value is None`. -/
def Value.isNone : Value → Bool
  | .null => true
  | _ => false

theorem isNone_iff {v : Value} : v.isNone = true ↔ v = .null := by
  cases v <;> simp [Value.isNone]

/-- The truth value of an object. -/
def Value.truthy : Value → Bool
  | .null => false
  | .bool b => b
  | .int i => i != 0
  | .float q => q != 0
  | .str s => s != ""
  | .bytes b => b != []

/-- The number behind a bool, an int or a float. -/
def Value.number : Value → Option ℚ
  | .bool b => some (if b then 1 else 0)
  | .int i => some i
  | .float q => some q
  | _ => none

/-- The integer behind an instance of `int`, of which `bool` is a subclass. -/
def Value.asInt : Value → Option ℤ
  | .bool b => some (if b then 1 else 0)
  | .int i => some i
  | _ => none

/-- What `==` and `hash` see of a value: bools, ints and floats are one numeric type. -/
def Value.key (v : Value) : Value :=
  match v.number with
  | some q => .float q
  | none => v

/-- A row: a dictionary from columns to values. -/
abbrev Row := List (String × Value)

/-- `row.get(field)`. -/
def Row.get (row : Row) (field : String) : Value := (row.lookup field).getD .null

/-- The exception classes of the modelled code. -/
inductive ExceptionType where
  | osError
  | fileNotFoundError
  | fileExistsError
  | badGzipFile
  | eofError
  | zlibError
  | valueError
  | typeError
  | keyError
  | attributeError
  | runtimeError
  | changeTrackerSignalError
  deriving DecidableEq

/-- `type(error).__name__`. -/
def ExceptionType.name : ExceptionType → String
  | .osError => "OSError"
  | .fileNotFoundError => "FileNotFoundError"
  | .fileExistsError => "FileExistsError"
  | .badGzipFile => "BadGzipFile"
  | .eofError => "EOFError"
  | .zlibError => "error"
  | .valueError => "ValueError"
  | .typeError => "TypeError"
  | .keyError => "KeyError"
  | .attributeError => "AttributeError"
  | .runtimeError => "RuntimeError"
  | .changeTrackerSignalError => "ChangeTrackerSignalError"

/-- The subclasses of `OSError`; `zlib.error` is not one of them. -/
def ExceptionType.isOSError : ExceptionType → Bool
  | .osError | .fileNotFoundError | .fileExistsError | .badGzipFile => true
  | _ => false

/-- An exception object. -/
structure PyError where
  type : ExceptionType
  message : String
  deriving DecidableEq

/-- `f"{type(error).__name__}: {error}"`. -/
def PyError.text (e : PyError) : String := e.type.name ++ ": " ++ e.message

/-- The steps of a computation that did not raise. -/
theorem bind_eq_ok {α β : Type} {x : Except PyError α} {f : α → Except PyError β} {b : β} :
    (x >>= f) = .ok b ↔ ∃ a, x = .ok a ∧ f a = .ok b := by
  cases x with
  | error e => simp [bind, Except.bind]
  | ok a => simp [bind, Except.bind]

theorem map_eq_ok {α β : Type} {x : Except PyError α} {f : α → β} {b : β} :
    x.map f = .ok b ↔ ∃ a, x = .ok a ∧ f a = b := by
  cases x with
  | error e => exact iff_of_false (fun h => by cases h) fun ⟨a, h, _⟩ => by cases h
  | ok a =>
    constructor
    · exact fun h => ⟨a, rfl, Except.ok.inj h⟩
    · rintro ⟨_, ⟨⟩, rfl⟩
      rfl

theorem pure_eq_ok {α : Type} {a b : α} : (pure a : Except PyError α) = .ok b ↔ a = b := by
  simp [pure, Except.pure]

/-! ### JSON -/

/-- Is a value a `bytes` object, which JSON does not have. -/
def Value.isBytes : Value → Bool
  | .bytes _ => true
  | _ => false

/-- `json.dumps` of a list of scalars: a text, or `TypeError` if there is a `bytes` object in it. -/
structure Json where
  dumps : List Value → Except PyError String
  dumps_ok : ∀ l, (∀ v ∈ l, v.isBytes = false) → ∃ text, dumps l = .ok text
  dumps_bytes : ∀ l, (∃ v ∈ l, v.isBytes = true) →
    dumps l = .error ⟨.typeError, "Object of type bytes is not JSON serializable"⟩

/-- The JSON text of a scalar whose characters need no escape. -/
def Value.plainJson : Value → String
  | .null => "null"
  | .bool b => if b then "true" else "false"
  | .int i => toString i
  | .float q => toString q
  | .str s => "\"" ++ s ++ "\""
  | .bytes _ => ""

/-- A `json.dumps` that agrees with Python's on lists of null, bools, integers and plain strings. -/
def plainJson : Json where
  dumps l :=
    if l.any Value.isBytes then .error ⟨.typeError, "Object of type bytes is not JSON serializable"⟩
    else .ok ("[" ++ ",".intercalate (l.map Value.plainJson) ++ "]")
  dumps_ok l h := ⟨_, if_neg (by simpa using h)⟩
  dumps_bytes l h := if_pos (by simpa using h)

end BkkCollector.Python.Objects
