import Mathlib.Data.List.GetD
import BkkCollector.Config
import BkkCollector.Storage.Jsonl
import BkkCollector.Storage.RawLog
import BkkCollector.Storage.RawScan

/-! # Spool segments

`stage` writes the rows of a poll as one compressed JSON object, and `_read_segment` reads them
back. In the rows of alerts a string of 4096 characters or more stands once, in a list of its own,
and the rows refer to it by its index.

The rows that `stage` is given are dictionaries of the caller, by their address in memory; what
`share_large_strings` builds are new ones.

* `shareRows_spec`: what the encoder builds, and that it leaves the rest of the memory as it is.
* `restoreSharedStrings_spec`: what the decoder accepts.
* `spoolSegment_roundTrip`: both, through a segment.
-/

namespace BkkCollector.Storage.SpoolCodec

open BkkCollector.Config BkkCollector.Python.Objects BkkCollector.Python.Documents
open BkkCollector.Python.Text hiding Bytes
open BkkCollector.Storage.Jsonl BkkCollector.Storage.RawLog BkkCollector.Storage.RawScan

/-! ### Dictionaries in memory -/

/-- A dictionary with text keys. -/
structure RowObject where
  members : List (String × Doc)
  nodup : (members.map Prod.fst).Nodup

namespace RowObject

/-- `{}`. -/
def empty : RowObject := ⟨[], List.nodup_nil⟩

/-- `item[field] = value`. -/
def set (item : RowObject) (field : String) (value : Doc) : RowObject :=
  if h : field ∈ item.members.map Prod.fst then
    { members := item.members.map fun m => if m.1 = field then (field, value) else m
      nodup := by
        have hkeys : (item.members.map fun m => if m.1 = field then (field, value) else m).map
            Prod.fst = item.members.map Prod.fst := by
          rw [List.map_map]
          refine List.map_congr_left fun m _ => ?_
          rw [Function.comp_apply]
          split_ifs with hm
          · exact hm.symm
          · rfl
        rw [hkeys]
        exact item.nodup }
  else
    { members := item.members ++ [(field, value)]
      nodup := by
        rw [List.map_append, List.map_singleton, List.nodup_append]
        refine ⟨item.nodup, List.nodup_singleton _, fun a ha b hb hab => h ?_⟩
        rwa [hab, List.mem_singleton.mp hb] at ha }

theorem members_set_new {item : RowObject} {field : String} (value : Doc)
    (h : field ∉ item.members.map Prod.fst) :
    (item.set field value).members = item.members ++ [(field, value)] := by
  rw [set, dif_neg h]

end RowObject

/-- The dictionaries, by address. -/
abbrev Memory := List RowObject

/-- An address. -/
abbrev Ref := ℕ

/-- The dictionary at an address. -/
def Memory.dict (memory : Memory) (r : Ref) : RowObject := memory[r]?.getD .empty

/-! ### Sharing -/

/-- `SHARED_STRING_MIN_CHARS`. -/
def sharedStringMinChars : ℕ := 4096

/-- `REFERENCE_KEY`. -/
def referenceKey : String := "$shared_string"

/-- `{REFERENCE_KEY: index}`. -/
def reference (index : ℕ) : Doc := .dict [(referenceKey, .int index)]

/-- The variables of `share_large_strings`, and the memory. -/
structure Sharing where
  memory : Memory
  strings : List String := []
  indices : List (String × ℕ) := []

namespace Sharing

/-- The index of a string, which is a new one if the string is. -/
def index (s : Sharing) (value : String) : Sharing × ℕ :=
  match s.indices.lookup value with
  | some index => (s, index)
  | none =>
    ({ s with strings := s.strings ++ [value], indices := (value, s.strings.length) :: s.indices },
      s.strings.length)

/-- `item[field] = value`, for the dictionary at an address. -/
def setItem (s : Sharing) (item : Ref) (field : String) (value : Doc) : Sharing :=
  { s with memory := s.memory.modify item (·.set field value) }

/-- The body of the inner loop. -/
def shareField (item : Ref) (s : Sharing) (member : String × Doc) : Sharing :=
  match member.2 with
  | .str value =>
    if sharedStringMinChars ≤ value.length then
      (s.index value).1.setItem item member.1 (reference (s.index value).2)
    else s.setItem item member.1 (.str value)
  | value => s.setItem item member.1 value

/-- The body of the outer loop: the new dictionary. -/
def shareRow (s : Sharing) (row : Ref) : Sharing × Ref :=
  let item := s.memory.length
  ((s.memory.dict row).members.foldl (shareField item) { s with memory := s.memory ++ [.empty] },
    item)

/-- The outer loop. -/
def shareRows : Sharing → List Ref → Sharing × List Ref
  | s, [] => (s, [])
  | s, row :: rows =>
    let (s, item) := s.shareRow row
    let (s, encoded) := s.shareRows rows
    (s, item :: encoded)

end Sharing

/-- `share_large_strings`. -/
def shareLargeStrings (memory : Memory) (rows : List Ref) : Memory × List Ref × List String :=
  let (s, encoded) := Sharing.shareRows { memory } rows
  if s.strings = [] then (s.memory, rows, []) else (s.memory, encoded, s.strings)

/-! ### Restoring -/

/-- A value that is no reference stays; a reference becomes the string it names. -/
def restoreValue (strings : List String) : Doc → Except PyError Doc
  | .dict members =>
    match members.lookup referenceKey with
    | none => .ok (.dict members)
    | some index =>
      match members.all (·.1 == referenceKey), index with
      | true, .int i =>
        if 0 ≤ i ∧ i < strings.length then .ok (.str (strings.getD i.toNat ""))
        else .error ⟨.valueError, "invalid spool shared-string reference"⟩
      | _, _ => .error ⟨.valueError, "invalid spool shared-string reference"⟩
  | value => .ok value

/-- The fields of a row. -/
def restoreMembers (strings : List String) :
    List (String × Doc) → Except PyError (List (String × Doc))
  | [] => .ok []
  | (field, value) :: members => do
    let value ← restoreValue strings value
    let members ← restoreMembers strings members
    pure ((field, value) :: members)

/-- The rows. -/
def restoreRows (strings : List String) : List Doc → Except PyError (List Doc)
  | [] => .ok []
  | .dict members :: rows => do
    let members ← restoreMembers strings members
    let rows ← restoreRows strings rows
    pure (.dict members :: rows)
  | _ :: _ => .error ⟨.valueError, "invalid spool row"⟩

/-- The texts of a list, if they are texts. -/
def asTexts : List Doc → Option (List String)
  | [] => some []
  | .str value :: values => (asTexts values).map (value :: ·)
  | _ :: _ => none

/-- `restore_shared_strings`. -/
def restoreSharedStrings (rows : List Doc) (strings : Doc) : Except PyError (List Doc) :=
  match strings.asList.bind asTexts with
  | some strings => restoreRows strings rows
  | none => .error ⟨.valueError, "invalid spool shared strings"⟩

/-! ### Segments -/

/-- `MAX_ALERT_SPOOL_STRING_BYTES`. -/
def maxAlertSpoolStringBytes : ℕ := 128 * 1024 * 1024

/-- Four bytes for each character of the strings of a row. -/
def stringBytes (members : List (String × Doc)) : ℕ :=
  4 * ((members.filterMap (·.2.asStr)).map String.length).sum

/-- The loop of `check_alert_spool_size`. -/
def checkSizeFrom (total : ℕ) : List (List (String × Doc)) → Except PyError Unit
  | [] => .ok ()
  | row :: rows =>
    if maxAlertSpoolStringBytes < total + stringBytes row then
      .error ⟨.valueError,
        "Alerts derived string expansion exceeds safe spool limit; raw fallback required"⟩
    else checkSizeFrom (total + stringBytes row) rows

/-- `check_alert_spool_size`. -/
def checkAlertSpoolSize (rows : List (List (String × Doc))) : Except PyError Unit :=
  checkSizeFrom 0 rows

/-- The object of a segment. -/
def payload (feed : Feed) (date pollId : String) (rows : List Doc) (strings : List String) : Doc :=
  .dict ([("version", .int (if strings = [] then 1 else 2)), ("feed", .str feed.name),
    ("date", .str date), ("poll_id", .str pollId), ("rows", .list rows)] ++
      if strings = [] then [] else [("shared_strings", .list (strings.map .str))])

/-- The `json` module as segments use it: a text without a line end at its end is read back too. -/
structure SegmentJson extends JsonModule where
  loads_text : ∀ d text, dumps d = .ok text → loads text = some (sortKeys d)

section Segments

variable (json : SegmentJson) (gz : Gzip)

/-- `stored_rows` and `strings`, and the memory. -/
def storedRows (feed : Feed) (memory : Memory) (rows : List Ref) :
    Memory × List Ref × List String :=
  if feed = .alerts then shareLargeStrings memory rows else (memory, rows, [])

/-- `stage`, as far as the content of the segment: the bytes of its file. -/
def stage (mtime : UInt32) (feed : Feed) (date pollId : String) (memory : Memory)
    (rows : List Ref) : Memory × Except PyError (Option Bytes) :=
  if rows = [] then (memory, .ok none)
  else
    let (memory, stored, strings) := storedRows feed memory rows
    (memory, do
      if feed = .alerts then
        checkAlertSpoolSize (stored.map fun r => (memory.dict r).members)
        checkAlertSpoolSize (strings.map fun value => [("value", .str value)])
      let text ← json.dumps
        (payload feed date pollId (stored.map fun r => .dict (memory.dict r).members) strings)
      pure (some (gz.compress mtime (encodeUtf8 text))))

/-- The object in the file of a segment. -/
def loadSegment (bytes : Bytes) : Except PyError Doc := do
  let bytes ← gz.decompress bytes
  match decodeUtf8 bytes with
  | none => throw ⟨.valueError, "'utf-8' codec can't decode"⟩
  | some text =>
    match json.loads (universalNewlines text) with
    | none => throw ⟨.valueError, "Expecting value"⟩
    | some segment => pure segment

/-- `_read_segment`. -/
def readSegment (path : String) (bytes : Bytes) : Except PyError (List Doc) := do
  let segment ← loadSegment json gz bytes
  let version ← segment.get "version" .null
  let rows ← segment.get "rows" .null
  match version.eqInt 1 || version.eqInt 2, rows.asList with
  | true, some rows =>
    if version.eqInt 2 then
      let strings ← segment.get "shared_strings" .null
      restoreSharedStrings rows strings
    else pure rows
  | _, _ => throw ⟨.valueError, "unsupported or corrupt spool segment: " ++ path⟩

end Segments

/-! ### What the encoder builds -/

/-- A string that is shared. -/
def Large (d : Doc) (value : String) : Prop := d = .str value ∧ sharedStringMinChars ≤ value.length

/-- A value as it is stored, next to a list of strings. -/
def stored (strings : List String) : Doc → Doc
  | .str value =>
    if sharedStringMinChars ≤ value.length then reference (strings.idxOf value) else .str value
  | value => value

/-- The members of a row as they are stored. -/
def storedMembers (strings : List String) (members : List (String × Doc)) :
    List (String × Doc) :=
  members.map fun m => (m.1, stored strings m.2)

/-- **The invariant** of the encoder: its strings are large and distinct, and its index map knows
their places. -/
structure Interns (s : Sharing) : Prop where
  nodup : s.strings.Nodup
  large : ∀ value ∈ s.strings, sharedStringMinChars ≤ value.length
  lookup : ∀ value, s.indices.lookup value =
    if value ∈ s.strings then some (s.strings.idxOf value) else none

/-- What a part of the encoder does with the strings: those of the members are added, and no
others. -/
structure Adds (s t : Sharing) (values : List Doc) : Prop where
  interns : Interns t
  kept : s.strings <+: t.strings
  added : ∀ value ∈ t.strings, value ∈ s.strings ∨ .str value ∈ values
  complete : ∀ value, .str value ∈ values → sharedStringMinChars ≤ value.length →
    value ∈ t.strings

theorem interns_empty (memory : Memory) : Interns { memory } where
  nodup := List.nodup_nil
  large := nofun
  lookup value := by simp

theorem map_values_eq_self {members : List (String × Doc)} {f : Doc → Doc}
    (h : ∀ m ∈ members, f m.2 = m.2) : members.map (fun m => (m.1, f m.2)) = members := by
  have hid : ∀ m ∈ members, (m.1, f m.2) = id m := fun m hm => Prod.ext rfl (h m hm)
  rw [List.map_congr_left hid, List.map_id]

theorem stored_of_small {strings : List String} {d : Doc} (hd : ∀ value, ¬ Large d value) :
    stored strings d = d := by
  cases d with
  | str value => rw [stored, if_neg fun hlarge => hd value ⟨rfl, hlarge⟩]
  | _ => rfl

theorem stored_not_large (strings : List String) (d : Doc) (value : String) :
    ¬ Large (stored strings d) value := by
  cases d with
  | str text =>
    rw [stored]
    split_ifs with h
    · exact fun hl => by cases hl.1
    · exact fun hl => h (by
        obtain ⟨heq, hlarge⟩ := hl
        cases heq
        exact hlarge)
  | _ => exact fun hl => by cases hl.1

theorem idxOf_grown {l m : List String} (h : l <+: m) {value : String} (hv : value ∈ l) :
    m.idxOf value = l.idxOf value := by
  obtain ⟨r, rfl⟩ := h
  exact List.idxOf_append_of_mem hv

theorem stored_grown {l m : List String} (h : l <+: m) {d : Doc}
    (hd : ∀ value, Large d value → value ∈ l) : stored m d = stored l d := by
  cases d with
  | str value =>
    simp only [stored]
    split_ifs with hlarge
    · rw [idxOf_grown h (hd value ⟨rfl, hlarge⟩)]
    · rfl
  | _ => rfl

/-- The index of a string, and the strings behind it. -/
theorem index_spec {s : Sharing} (hs : Interns s) {value : String}
    (hlarge : sharedStringMinChars ≤ value.length) :
    Adds s (s.index value).1 [.str value] ∧ (s.index value).1.memory = s.memory ∧
      (s.index value).2 = (s.index value).1.strings.idxOf value := by
  unfold Sharing.index
  by_cases hv : value ∈ s.strings
  · have hlookup := hs.lookup value
    rw [if_pos hv] at hlookup
    simp only [hlookup]
    refine ⟨⟨hs, List.prefix_rfl, fun _ h => Or.inl h, fun v h _ => ?_⟩, trivial, trivial⟩
    rw [List.mem_singleton, Doc.str.injEq] at h
    rwa [h]
  · have hlookup := hs.lookup value
    rw [if_neg hv] at hlookup
    simp only [hlookup]
    have hidx : (s.strings ++ [value]).idxOf value = s.strings.length := by
      rw [List.idxOf_append_of_notMem hv, List.idxOf_cons_self, Nat.add_zero]
    refine ⟨⟨⟨?_, ?_, ?_⟩, List.prefix_append _ _, ?_, ?_⟩, trivial, hidx.symm⟩
    · rw [List.nodup_append]
      refine ⟨hs.nodup, List.nodup_singleton _, fun a ha b hb hab => hv ?_⟩
      rwa [hab, List.mem_singleton.mp hb] at ha
    · exact List.forall_mem_append.mpr ⟨hs.large, List.forall_mem_singleton.mpr hlarge⟩
    · intro v
      rw [List.lookup_cons]
      by_cases hvv : v = value
      · subst hvv
        simp [hidx]
      · have hbeq : (v == value) = false := beq_false_of_ne hvv
        simp only [hbeq, hs.lookup v, List.mem_append, List.mem_singleton, hvv, or_false]
        split_ifs with hmem
        · rw [List.idxOf_append_of_mem hmem]
        · rfl
    · intro v hv'
      rcases List.mem_append.mp hv' with h | h
      · exact Or.inl h
      · rw [List.mem_singleton.mp h]
        exact Or.inr List.mem_cons_self
    · intro v h _
      rw [List.mem_singleton, Doc.str.injEq] at h
      rw [h]
      exact List.mem_append_right _ List.mem_cons_self

namespace Adds

variable {s t u : Sharing} {values values' : List Doc}

theorem refl (hs : Interns s) : Adds s s [] where
  interns := hs
  kept := List.prefix_rfl
  added _ h := Or.inl h
  complete _ h := by cases h

theorem trans (h : Adds s t values) (h' : Adds t u values') : Adds s u (values ++ values') where
  interns := h'.interns
  kept := h.kept.trans h'.kept
  added value hv := by
    rcases h'.added value hv with hv | hv
    · rcases h.added value hv with hv | hv
      · exact Or.inl hv
      · exact Or.inr (List.mem_append_left _ hv)
    · exact Or.inr (List.mem_append_right _ hv)
  complete value hv hlarge := by
    rcases List.mem_append.mp hv with hv | hv
    · exact h'.kept.subset (h.complete value hv hlarge)
    · exact h'.complete value hv hlarge

end Adds

theorem modify_last {memory : Memory} {item : RowObject} (f : RowObject → RowObject) :
    (memory ++ [item]).modify memory.length f = memory ++ [f item] := by
  induction memory with
  | nil => rfl
  | cons m memory ih => exact congrArg (m :: ·) ih

/-- One field: its value goes into the new dictionary as it is stored. -/
theorem shareField_spec {s : Sharing} (hs : Interns s) {memory : Memory} {item : RowObject}
    (hmemory : s.memory = memory ++ [item]) {member : String × Doc}
    (hnew : member.1 ∉ item.members.map Prod.fst) :
    Adds s (s.shareField memory.length member) [member.2] ∧
      ∃ item', (s.shareField memory.length member).memory = memory ++ [item'] ∧
        item'.members = item.members ++
          storedMembers (s.shareField memory.length member).strings [member] := by
  obtain ⟨field, value⟩ := member
  have hset : ∀ (t : Sharing) (d : Doc), t.memory = memory ++ [item] → ∃ item',
      (t.setItem memory.length field d).memory = memory ++ [item'] ∧
        item'.members = item.members ++ [(field, d)] := by
    intro t d ht
    refine ⟨item.set field d, ?_, RowObject.members_set_new d hnew⟩
    rw [Sharing.setItem, ht, modify_last]
  have hplain : (∀ text, ¬ Large value text) → ∀ d, d = value →
      Adds s (s.setItem memory.length field d) [value] ∧
      ∃ item', (s.setItem memory.length field d).memory = memory ++ [item'] ∧
        item'.members = item.members ++
          storedMembers (s.setItem memory.length field d).strings [(field, value)] := by
    rintro hsmall d rfl
    refine ⟨⟨⟨hs.nodup, hs.large, hs.lookup⟩, List.prefix_rfl, fun _ h => Or.inl h, ?_⟩, ?_⟩
    · intro text htext hlarge
      exact absurd ⟨(List.mem_singleton.mp htext).symm, hlarge⟩ (hsmall text)
    · obtain ⟨item', hm, hmembers⟩ := hset s d hmemory
      refine ⟨item', hm, ?_⟩
      rw [hmembers, storedMembers, List.map_singleton]
      rw [stored_of_small hsmall]
  cases value with
  | str text =>
    simp only [Sharing.shareField]
    split_ifs with hlarge
    · obtain ⟨hadds, hm, hindex⟩ := index_spec hs hlarge
      obtain ⟨item', hm', hmembers⟩ := hset (s.index text).1 (reference (s.index text).2)
        (hm.trans hmemory)
      refine ⟨⟨⟨hadds.interns.nodup, hadds.interns.large, hadds.interns.lookup⟩, hadds.kept,
        hadds.added, hadds.complete⟩, item', hm', ?_⟩
      rw [hmembers, storedMembers, List.map_singleton, hindex]
      simp only [stored, if_pos hlarge]
      rfl
    · exact hplain (fun t h => hlarge (by
        obtain ⟨heq, hl⟩ := h
        cases heq
        exact hl)) _ rfl
  | null => exact hplain (fun t h => by cases h.1) _ rfl
  | bool b => exact hplain (fun t h => by cases h.1) _ rfl
  | int i => exact hplain (fun t h => by cases h.1) _ rfl
  | float q => exact hplain (fun t h => by cases h.1) _ rfl
  | list l => exact hplain (fun t h => by cases h.1) _ rfl
  | dict m => exact hplain (fun t h => by cases h.1) _ rfl

theorem storedMembers_grown {l m : List String} (h : l <+: m) {members : List (String × Doc)}
    (hmembers : ∀ p ∈ members, ∀ value, Large p.2 value → value ∈ l) :
    storedMembers m members = storedMembers l members :=
  List.map_congr_left fun p hp => by rw [stored_grown h (hmembers p hp)]

/-- The fields of a row. -/
theorem shareFields_spec {memory : Memory} (members : List (String × Doc)) {s : Sharing}
    (hs : Interns s) {item : RowObject} (hmemory : s.memory = memory ++ [item])
    (hnodup : (item.members.map Prod.fst ++ members.map Prod.fst).Nodup) :
    Adds s (members.foldl (Sharing.shareField memory.length) s) (members.map Prod.snd) ∧
      ∃ item', (members.foldl (Sharing.shareField memory.length) s).memory = memory ++ [item'] ∧
        item'.members = item.members ++ storedMembers
          (members.foldl (Sharing.shareField memory.length) s).strings members := by
  induction members generalizing s item with
  | nil => exact ⟨Adds.refl hs, item, hmemory, (List.append_nil _).symm⟩
  | cons member members ih =>
    have hnew : member.1 ∉ item.members.map Prod.fst := by
      rw [List.map_cons, List.nodup_append] at hnodup
      exact fun hmem => hnodup.2.2 _ hmem _ List.mem_cons_self rfl
    obtain ⟨hadds, item', hm, hmembers⟩ := shareField_spec hs hmemory hnew
    have hkeys : (item'.members.map Prod.fst ++ members.map Prod.fst).Nodup := by
      rw [hmembers, List.map_append, List.append_assoc]
      exact hnodup
    obtain ⟨hadds', item'', hm', hmembers'⟩ := ih hadds.interns hm hkeys
    refine ⟨hadds.trans hadds', item'', hm', ?_⟩
    rw [hmembers', hmembers, List.append_assoc]
    congr 1
    rw [List.foldl_cons]
    have hfirst : ∀ p ∈ [member], ∀ value, Large p.2 value →
        value ∈ (s.shareField memory.length member).strings := by
      intro p hp value hl
      rw [List.mem_singleton.mp hp] at hl
      exact hadds.complete value (hl.1 ▸ List.mem_cons_self) hl.2
    rw [← storedMembers_grown hadds'.kept hfirst]
    rfl

/-- A row: a new dictionary, behind the others. -/
theorem shareRow_spec {s : Sharing} (hs : Interns s) (row : Ref) :
    Adds s (s.shareRow row).1 ((s.memory.dict row).members.map Prod.snd) ∧
      (s.shareRow row).2 = s.memory.length ∧
      ∃ item, (s.shareRow row).1.memory = s.memory ++ [item] ∧
        item.members = storedMembers (s.shareRow row).1.strings (s.memory.dict row).members := by
  have hinterns : Interns { s with memory := s.memory ++ [.empty] } :=
    ⟨hs.nodup, hs.large, hs.lookup⟩
  obtain ⟨hadds, item, hm, hmembers⟩ := shareFields_spec (s.memory.dict row).members hinterns
    (show _ = s.memory ++ [RowObject.empty] from rfl) (s.memory.dict row).nodup
  exact ⟨⟨hadds.interns, hadds.kept, hadds.added, hadds.complete⟩, rfl, item, hm, hmembers⟩

theorem dict_append {memory : Memory} {r : Ref} (h : r < memory.length) (more : Memory) :
    (memory ++ more).dict r = memory.dict r := by
  rw [Memory.dict, Memory.dict, List.getElem?_append_left h]

/-- **What the encoder builds**: behind the memory as it was, a dictionary for each row. -/
theorem shareRows_spec (rows : List Ref) {s : Sharing} (hs : Interns s)
    (hrows : ∀ r ∈ rows, r < s.memory.length) :
    Adds s (s.shareRows rows).1 (rows.flatMap fun r => (s.memory.dict r).members.map Prod.snd) ∧
      (∃ more, (s.shareRows rows).1.memory = s.memory ++ more) ∧
      List.Forall₂ (fun r item => ((s.shareRows rows).1.memory.dict item).members =
        storedMembers (s.shareRows rows).1.strings (s.memory.dict r).members)
        rows (s.shareRows rows).2 := by
  induction rows generalizing s with
  | nil => exact ⟨Adds.refl hs, ⟨[], (List.append_nil _).symm⟩, List.Forall₂.nil⟩
  | cons row rows ih =>
    obtain ⟨hrow, hrest⟩ := List.forall_mem_cons.mp hrows
    obtain ⟨hadds, hitem, item, hm, hmembers⟩ := shareRow_spec hs row
    have hlt : ∀ r ∈ rows, r < (s.shareRow row).1.memory.length := by
      intro r hr
      rw [hm, List.length_append]
      exact Nat.lt_add_right _ (hrest r hr)
    obtain ⟨hadds', ⟨more, hmore⟩, hforall⟩ := ih hadds.interns hlt
    have hdict : ∀ r ∈ rows, (s.shareRow row).1.memory.dict r = s.memory.dict r := by
      intro r hr
      rw [hm, dict_append (hrest r hr)]
    refine ⟨?_, ⟨item :: more, ?_⟩, List.Forall₂.cons ?_ ?_⟩
    · have htrans := hadds.trans hadds'
      rw [List.flatMap_cons]
      rwa [List.flatMap_congr fun r hr => by rw [hdict r hr]] at htrans
    · show ((s.shareRow row).1.shareRows rows).1.memory = _
      rw [hmore, hm, List.append_assoc]
      rfl
    · show (((s.shareRow row).1.shareRows rows).1.memory.dict (s.shareRow row).2).members =
        storedMembers ((s.shareRow row).1.shareRows rows).1.strings (s.memory.dict row).members
      have hlast : (s.memory ++ [item]).dict s.memory.length = item := by
        simp [Memory.dict]
      rw [hmore, hm, hitem, dict_append (by simp), hlast, hmembers]
      refine (storedMembers_grown hadds'.kept fun p hp value hl => ?_).symm
      exact hadds.complete value (hl.1 ▸ List.mem_map_of_mem hp) hl.2
    · refine ((List.forall₂_and_left _ _).mpr ⟨hdict, hforall⟩).imp fun r item' h => ?_
      rw [← h.1]
      exact h.2

/-- The rows that are written: those of the caller, or their new dictionaries. -/
structure Shared (memory : Memory) (rows : List Ref) (memory' : Memory) (stored : List Ref)
    (strings : List String) : Prop where
  kept : ∃ more, memory' = memory ++ more
  nodup : strings.Nodup
  large : ∀ value ∈ strings, sharedStringMinChars ≤ value.length
  only : ∀ value ∈ strings, ∃ r ∈ rows, ∃ p ∈ (memory.dict r).members, Large p.2 value
  complete : ∀ r ∈ rows, ∀ p ∈ (memory.dict r).members, ∀ value, Large p.2 value →
    value ∈ strings
  members : List.Forall₂ (fun r item => (memory'.dict item).members =
    storedMembers strings (memory.dict r).members) rows stored

theorem shareLargeStrings_spec {memory : Memory} {rows : List Ref}
    (hrows : ∀ r ∈ rows, r < memory.length) :
    Shared memory rows (shareLargeStrings memory rows).1 (shareLargeStrings memory rows).2.1
      (shareLargeStrings memory rows).2.2 := by
  obtain ⟨hadds, hmemory, hforall⟩ := shareRows_spec rows (interns_empty memory) hrows
  have hcomplete : ∀ r ∈ rows, ∀ p ∈ (memory.dict r).members, ∀ value, Large p.2 value →
      value ∈ (Sharing.shareRows { memory } rows).1.strings := fun r hr p hp value hl =>
    hadds.complete value (List.mem_flatMap.mpr ⟨r, hr, hl.1 ▸ List.mem_map_of_mem hp⟩) hl.2
  simp only [shareLargeStrings]
  split_ifs with hnone
  · -- without a large string the rows of the caller are written
    rw [hnone] at hcomplete
    refine ⟨hmemory, List.nodup_nil, nofun, nofun, hcomplete,
      List.forall₂_same.mpr fun r hr => ?_⟩
    obtain ⟨more, hmore⟩ := hmemory
    show ((Sharing.shareRows { memory } rows).1.memory.dict r).members = _
    rw [hmore, dict_append (hrows r hr)]
    refine (map_values_eq_self fun p hp => ?_).symm
    exact stored_of_small fun value hl => nomatch hcomplete r hr p hp value hl
  · refine ⟨hmemory, hadds.interns.nodup, hadds.interns.large, fun value hv => ?_, hcomplete,
      hforall⟩
    have hvalue := (hadds.added value hv).resolve_left List.not_mem_nil
    obtain ⟨r, hr, hmem⟩ := List.mem_flatMap.mp hvalue
    obtain ⟨p, hp, heq⟩ := List.mem_map.mp hmem
    exact ⟨r, hr, p, hp, heq, hadds.interns.large value hv⟩

/-! ### What the decoder accepts -/

/-- A value with the reference key. -/
def CarriesReference (value : Doc) : Prop :=
  ∃ members index, value = .dict members ∧ members.lookup referenceKey = some index

/-- A value and what it is restored to: a reference names a string of the list by a valid index and
has nothing else; what carries no reference stays. -/
inductive RestoredValue (strings : List String) : Doc → Doc → Prop
  | reference {members : List (String × Doc)} {i : ℕ} {text : String}
    (key : ∀ m ∈ members, m.1 = referenceKey)
    (index : members.lookup referenceKey = some (.int i)) (valid : strings[i]? = some text) :
    RestoredValue strings (.dict members) (.str text)
  | other {value : Doc} (h : ¬ CarriesReference value) : RestoredValue strings value value

/-- A row and what it is restored to. -/
inductive RestoredRow (strings : List String) : Doc → Doc → Prop
  | row {members members' : List (String × Doc)}
    (h : List.Forall₂ (fun m m' => m'.1 = m.1 ∧ RestoredValue strings m.2 m'.2) members members') :
    RestoredRow strings (.dict members) (.dict members')

theorem restoreValue_iff {strings : List String} {value value' : Doc} :
    restoreValue strings value = .ok value' ↔ RestoredValue strings value value' := by
  cases value with
  | dict members =>
    constructor
    · intro h
      simp only [restoreValue] at h
      cases hl : members.lookup referenceKey with
      | none =>
        rw [hl, Except.ok.injEq] at h
        subst h
        refine .other fun ⟨ms, index, hms, hindex⟩ => ?_
        cases hms
        rw [hl] at hindex
        cases hindex
      | some index =>
        rw [hl] at h
        simp only at h
        split at h
        · rename_i i hkeys
          split_ifs at h with hvalid
          cases h
          obtain ⟨h0, hlt⟩ := hvalid
          obtain ⟨n, rfl⟩ := Int.eq_ofNat_of_zero_le h0
          have hn : n < strings.length := by exact_mod_cast hlt
          refine .reference (fun m hm => ?_) hl (i := n) ?_
          · exact beq_iff_eq.mp (List.all_eq_true.mp hkeys m hm)
          · rw [Int.toNat_natCast, List.getElem?_eq_getElem hn, List.getD_eq_getElem _ _ hn]
        · cases h
    · intro h
      cases h with
      | reference hkeys hindex hvalid =>
        rename_i i text
        have hall : members.all (·.1 == referenceKey) = true :=
          List.all_eq_true.mpr fun m hm => beq_iff_eq.mpr (hkeys m hm)
        obtain ⟨hlt, rfl⟩ := List.getElem?_eq_some_iff.mp hvalid
        have hrange : (0 : ℤ) ≤ i ∧ (i : ℤ) < strings.length := by omega
        simp only [restoreValue, hindex, hall, if_pos hrange, Int.toNat_natCast,
          List.getD_eq_getElem _ _ hlt]
      | other hnone =>
        cases hl : members.lookup referenceKey with
        | none => simp only [restoreValue, hl]
        | some index => exact absurd ⟨members, index, rfl, hl⟩ hnone
  | _ =>
    refine ⟨fun h => ?_, fun h => ?_⟩
    · cases h
      exact .other fun ⟨_, _, hms, _⟩ => by cases hms
    · cases h
      rfl

theorem restoreMembers_iff {strings : List String} {members members' : List (String × Doc)} :
    restoreMembers strings members = .ok members' ↔
      List.Forall₂ (fun m m' => m'.1 = m.1 ∧ RestoredValue strings m.2 m'.2) members members' := by
  induction members generalizing members' with
  | nil =>
    rw [restoreMembers, Except.ok.injEq, List.forall₂_nil_left_iff]
    exact eq_comm
  | cons m members ih =>
    obtain ⟨field, value⟩ := m
    rw [List.forall₂_cons_left_iff]
    simp only [restoreMembers, bind_eq_ok, pure_eq_ok, ih, restoreValue_iff]
    constructor
    · rintro ⟨value', hvalue, rest, hrest, rfl⟩
      exact ⟨_, rest, ⟨rfl, hvalue⟩, hrest, rfl⟩
    · rintro ⟨⟨_, value'⟩, rest, ⟨rfl, hvalue⟩, hrest, rfl⟩
      exact ⟨value', hvalue, rest, hrest, rfl⟩

theorem restoreRows_iff {strings : List String} {rows rows' : List Doc} :
    restoreRows strings rows = .ok rows' ↔ List.Forall₂ (RestoredRow strings) rows rows' := by
  induction rows generalizing rows' with
  | nil =>
    rw [restoreRows, Except.ok.injEq, List.forall₂_nil_left_iff]
    exact eq_comm
  | cons row rows ih =>
    rw [List.forall₂_cons_left_iff]
    cases row with
    | dict members =>
      simp only [restoreRows, bind_eq_ok, pure_eq_ok, ih, restoreMembers_iff]
      constructor
      · rintro ⟨members', hmembers, rest, hrest, rfl⟩
        exact ⟨_, rest, .row hmembers, hrest, rfl⟩
      · rintro ⟨_, rest, ⟨hmembers⟩, hrest, rfl⟩
        exact ⟨_, hmembers, rest, hrest, rfl⟩
    | _ =>
      refine ⟨fun h => ?_, ?_⟩
      · cases h
      · rintro ⟨_, _, ⟨⟩, -⟩

theorem asTexts_iff {values : List Doc} {texts : List String} :
    asTexts values = some texts ↔ values = texts.map .str := by
  induction values generalizing texts with
  | nil =>
    rw [asTexts, Option.some.injEq]
    cases texts <;> simp
  | cons value values ih =>
    cases value with
    | str text =>
      rw [asTexts, Option.map_eq_some_iff]
      constructor
      · rintro ⟨rest, hrest, rfl⟩
        rw [ih.mp hrest, List.map_cons]
      · intro h
        cases texts with
        | nil => cases h
        | cons t texts =>
          rw [List.map_cons, List.cons.injEq, Doc.str.injEq] at h
          exact ⟨texts, ih.mpr h.2, by rw [h.1]⟩
    | _ =>
      refine ⟨fun h => ?_, fun h => ?_⟩
      · cases h
      · cases texts <;> cases h

/-- **What the decoder accepts**, and what it makes of it. -/
theorem restoreSharedStrings_spec {rows rows' : List Doc} {strings : Doc} :
    restoreSharedStrings rows strings = .ok rows' ↔
      ∃ texts : List String, strings = .list (texts.map .str) ∧
        List.Forall₂ (RestoredRow texts) rows rows' := by
  unfold restoreSharedStrings
  constructor
  · intro h
    cases htexts : strings.asList.bind asTexts with
    | none =>
      rw [htexts] at h
      cases h
    | some texts =>
      rw [htexts] at h
      obtain ⟨values, hvalues, hasTexts⟩ := Option.bind_eq_some_iff.mp htexts
      rw [Doc.asList_eq_some.mp hvalues, asTexts_iff.mp hasTexts]
      exact ⟨texts, rfl, restoreRows_iff.mp h⟩
  · rintro ⟨texts, rfl, h⟩
    have htexts : (Doc.list (texts.map .str)).asList.bind asTexts = some texts :=
      asTexts_iff.mpr rfl
    rw [htexts]
    exact restoreRows_iff.mpr h

/-- A reference is not left. -/
theorem RestoredValue.no_reference {strings : List String} {value value' : Doc}
    (h : RestoredValue strings value value') : ¬ CarriesReference value' := by
  cases h with
  | reference => exact fun ⟨_, _, htext, _⟩ => by cases htext
  | other hvalue => exact hvalue

theorem restoredRows_no_reference {strings : List String} {docs result : List Doc}
    (h : List.Forall₂ (RestoredRow strings) docs result) :
    ∀ doc ∈ result, ∃ members, doc = .dict members ∧ ∀ m ∈ members, ¬ CarriesReference m.2 := by
  have hmembers : ∀ {members members' : List (String × Doc)},
      List.Forall₂ (fun m m' => m'.1 = m.1 ∧ RestoredValue strings m.2 m'.2) members members' →
      ∀ m ∈ members', ¬ CarriesReference m.2 := by
    intro members members' h
    induction h with
    | nil => exact nofun
    | cons hm _ ih => exact List.forall_mem_cons.mpr ⟨hm.2.no_reference, ih⟩
  induction h with
  | nil => exact nofun
  | cons hrow _ ih =>
    obtain ⟨h⟩ := hrow
    exact List.forall_mem_cons.mpr ⟨⟨_, rfl, hmembers h⟩, ih⟩

/-! ### Through the file -/

/-- A value of a row: a string, an integer, a finite float, a boolean or `None`. -/
def Scalar : Doc → Prop
  | .list _ | .dict _ | .float none => False
  | _ => True

/-- The members in the order of their keys. -/
def inOrder (members : List (String × Doc)) : List (String × Doc) :=
  members.insertionSort fun a b => a.1 ≤ b.1

theorem sortItems_eq_map (items : List Doc) : sortItems items = items.map sortKeys := by
  induction items with
  | nil => rw [sortItems, List.map_nil]
  | cons d items ih => rw [sortItems, ih, List.map_cons]

theorem sortMembers_eq_map (members : List (String × Doc)) :
    sortMembers members = members.map fun m => (m.1, sortKeys m.2) := by
  induction members with
  | nil => rw [sortMembers, List.map_nil]
  | cons m members ih => rw [sortMembers, ih, List.map_cons]

/-- Keys of their own make the order of the members irrelevant. -/
theorem lookup_perm {α : Type} {l m : List (String × α)} (h : l.Perm m)
    (hl : (l.map Prod.fst).Nodup) (key : String) : l.lookup key = m.lookup key := by
  induction h with
  | nil => rfl
  | cons x _ ih =>
    rw [List.map_cons, List.nodup_cons] at hl
    rw [List.lookup_cons, List.lookup_cons, ih hl.2]
  | swap x y l =>
    simp only [List.map_cons, List.nodup_cons, List.mem_cons, not_or] at hl
    rw [List.lookup_cons, List.lookup_cons, List.lookup_cons, List.lookup_cons]
    by_cases hx : key = x.1
    · have hy : (key == y.1) = false := beq_false_of_ne fun hy => hl.1.1 (hy.symm.trans hx)
      rw [hy]
    · have hx' : (key == x.1) = false := beq_false_of_ne hx
      rw [hx']
  | trans h₁ _ ih₁ ih₂ => exact (ih₁ hl).trans (ih₂ ((h₁.map _).nodup_iff.mp hl))

theorem lookup_map_snd {α β : Type} (f : α → β) (l : List (String × α)) (key : String) :
    (l.map fun m => (m.1, f m.2)).lookup key = (l.lookup key).map f := by
  induction l with
  | nil => rfl
  | cons m l ih =>
    rw [List.map_cons, List.lookup_cons, List.lookup_cons, ih]
    split <;> rfl

/-- Looking into an object that was written and read. -/
theorem get_sortKeys {members : List (String × Doc)} (h : (members.map Prod.fst).Nodup)
    (key : String) : (sortKeys (.dict members)).get key .null =
      .ok (((members.lookup key).map sortKeys).getD .null) := by
  rw [sortKeys, Doc.get_dict, ← lookup_map_snd, ← sortMembers_eq_map]
  have hperm := List.perm_insertionSort (fun a b : String × Doc => a.1 ≤ b.1) (sortMembers members)
  rw [← lookup_perm hperm.symm]
  rwa [sortMembers_eq_map, List.map_map]

theorem sortKeys_scalar {d : Doc} (h : Scalar d) : sortKeys d = d := by
  cases d with
  | list items => exact h.elim
  | dict members => exact h.elim
  | _ => rw [sortKeys] <;> exact nofun

theorem sortKeys_stored {d : Doc} (h : Scalar d) (strings : List String) :
    sortKeys (stored strings d) = stored strings d := by
  cases d with
  | str value =>
    rw [stored]
    split_ifs
    · simp [reference, sortKeys, sortMembers]
    · exact sortKeys_scalar h
  | _ => exact sortKeys_scalar h

/-- A row without nested values that was written and read. -/
theorem sortKeys_flat {members : List (String × Doc)} (h : ∀ m ∈ members, sortKeys m.2 = m.2) :
    sortKeys (.dict members) = .dict (inOrder members) := by
  have hsame : sortMembers members = members := by
    rw [sortMembers_eq_map, map_values_eq_self h]
  rw [sortKeys, hsame, inOrder]

/-- A stored row that was written and read. -/
theorem sortKeys_row {members : List (String × Doc)} (h : ∀ m ∈ members, Scalar m.2)
    (strings : List String) : sortKeys (.dict (storedMembers strings members)) =
      .dict (storedMembers strings (inOrder members)) := by
  have hflat : ∀ m ∈ storedMembers strings members, sortKeys m.2 = m.2 := by
    rw [storedMembers, List.forall_mem_map]
    exact fun m hm => sortKeys_stored (h m hm) strings
  rw [sortKeys_flat hflat, inOrder, storedMembers, storedMembers, inOrder,
    List.map_insertionSort _ (fun a b : String × Doc => a.1 ≤ b.1) _ _ fun _ _ _ _ => Iff.rfl]

theorem sortKeys_strings (strings : List String) :
    sortKeys (.list (strings.map .str)) = .list (strings.map .str) := by
  rw [sortKeys, sortItems_eq_map, List.map_map]
  exact congrArg Doc.list (List.map_congr_left fun value _ => sortKeys_scalar trivial)

/-- A stored value is restored. -/
theorem restoredValue_stored {strings : List String} {d : Doc} (h : Scalar d)
    (hd : ∀ value, Large d value → value ∈ strings) :
    RestoredValue strings (stored strings d) d := by
  have hplain : RestoredValue strings d d := .other fun ⟨members, _, hm, _⟩ => by
    subst hm
    exact h
  cases d with
  | str value =>
    rw [stored]
    split_ifs with hlarge
    · refine .reference (i := strings.idxOf value) ?_ ?_ ?_
      · exact List.forall_mem_singleton.mpr rfl
      · rfl
      · have hlt := List.idxOf_lt_length_of_mem (hd value ⟨rfl, hlarge⟩)
        rw [List.getElem?_eq_getElem hlt, List.getElem_idxOf]
    · exact hplain
  | _ => exact hplain

/-- A stored row is restored. -/
theorem restoredRow_stored {strings : List String} {members : List (String × Doc)}
    (h : ∀ m ∈ members, Scalar m.2)
    (hstrings : ∀ m ∈ members, ∀ value, Large m.2 value → value ∈ strings) :
    RestoredRow strings (.dict (storedMembers strings (inOrder members)))
      (.dict (inOrder members)) := by
  refine .row ?_
  rw [storedMembers, List.forall₂_map_left_iff, List.forall₂_same]
  intro m hm
  have hmem : m ∈ members := (List.mem_insertionSort _).mp hm
  exact ⟨rfl, restoredValue_stored (h m hmem) (hstrings m hmem)⟩

theorem map_eq_of_forall₂ {α β γ : Type} {f : β → γ} {g : α → γ} {l : List α} {m : List β}
    (h : List.Forall₂ (fun a b => f b = g a) l m) : m.map f = l.map g := by
  induction h with
  | nil => rfl
  | cons h _ ih => rw [List.map_cons, List.map_cons, h, ih]

/-- What is written: the rows as they are, or next to a list of strings. -/
theorem storedRows_spec (feed : Feed) {memory : Memory} {rows : List Ref}
    (hrows : ∀ r ∈ rows, r < memory.length) {memory' : Memory} {stored : List Ref}
    {strings : List String} (h : storedRows feed memory rows = (memory', stored, strings)) :
    (∃ more, memory' = memory ++ more) ∧
      ((strings = [] ∧ List.Forall₂ (fun r item =>
          (memory'.dict item).members = (memory.dict r).members) rows stored) ∨
        (strings ≠ [] ∧ Shared memory rows memory' stored strings)) := by
  unfold storedRows at h
  split_ifs at h
  · have hspec := shareLargeStrings_spec hrows
    rw [h] at hspec
    refine ⟨hspec.kept, ?_⟩
    by_cases hnone : strings = []
    · refine Or.inl ⟨hnone, ?_⟩
      have hcomplete := hspec.complete
      subst hnone
      refine ((List.forall₂_and_left _ _).mpr ⟨hcomplete, hspec.members⟩).imp ?_
      rintro r item ⟨hsmall, hmembers⟩
      rw [hmembers]
      exact map_values_eq_self fun p hp =>
        stored_of_small fun value hl => nomatch hsmall p hp value hl
    · exact Or.inr ⟨hnone, hspec⟩
  · cases h
    exact ⟨⟨[], (List.append_nil _).symm⟩, Or.inl ⟨rfl, List.forall₂_same.mpr fun _ _ => rfl⟩⟩

section RoundTrip

variable (json : SegmentJson) (gz : Gzip) {mtime : UInt32} {feed : Feed} {date pollId : String}

/-- What looking into the object of a segment gives. -/
theorem get_payload (feed : Feed) (date pollId : String) (docs : List Doc)
    (strings : List String) :
    let segment := sortKeys (payload feed date pollId docs strings)
    segment.get "version" .null = .ok (.int (if strings = [] then 1 else 2)) ∧
      segment.get "rows" .null = .ok (.list (docs.map sortKeys)) ∧
      (strings ≠ [] →
        segment.get "shared_strings" .null = .ok (.list (strings.map .str))) := by
  intro segment
  have hget : ∀ key, segment.get key .null = _ := get_sortKeys (by
    by_cases h : strings = []
    · simp [h]
    · simp [h])
  refine ⟨?_, ?_, fun h => ?_⟩
  · rw [hget]
    rfl
  · rw [hget, ← sortItems_eq_map]
    rfl
  · rw [hget]
    simp only [if_neg h]
    exact congrArg Except.ok (sortKeys_strings strings)

/-- The file of a segment holds its object. -/
theorem loadSegment_staged {d : Doc} {text : List Char} (h : json.dumps d = .ok text) :
    loadSegment json gz (gz.compress mtime (encodeUtf8 text)) = .ok (sortKeys d) := by
  have hread := universalNewlines_of_not_mem (json.dumps_newline d text h).2
  rw [loadSegment, gz.decompress_compress]
  simp only [bind, Except.bind, decodeUtf8_encodeUtf8, hread, json.loads_text d text h]
  rfl

theorem readSegment_staged {docs : List Doc} {strings : List String} {text : List Char}
    (path : String) (h : json.dumps (payload feed date pollId docs strings) = .ok text) :
    readSegment json gz path (gz.compress mtime (encodeUtf8 text)) =
      if strings = [] then .ok (docs.map sortKeys)
      else restoreSharedStrings (docs.map sortKeys) (.list (strings.map .str)) := by
  obtain ⟨hversion, hrows, hstrings⟩ := get_payload feed date pollId docs strings
  rw [readSegment, loadSegment_staged json gz h]
  by_cases hnone : strings = []
  · rw [if_pos hnone] at hversion ⊢
    simp only [bind, Except.bind, hversion, hrows]
    rfl
  · rw [if_neg hnone] at hversion ⊢
    simp only [bind, Except.bind, hversion, hrows, hstrings hnone]
    rfl

/-- What `stage` has written when it returns. -/
theorem stage_eq_some {memory memory' : Memory} {rows stored : List Ref} {strings : List String}
    (hstored : storedRows feed memory rows = (memory', stored, strings)) {bytes : Bytes}
    (h : (stage json gz mtime feed date pollId memory rows).2 = .ok (some bytes)) :
    ∃ text, json.dumps (payload feed date pollId
        (stored.map fun r => .dict (memory'.dict r).members) strings) = .ok text ∧
      bytes = gz.compress mtime (encodeUtf8 text) := by
  unfold stage at h
  by_cases hnone : rows = []
  · rw [if_pos hnone] at h
    cases h
  · rw [if_neg hnone, hstored] at h
    by_cases hfeed : feed = .alerts
    · simp only [if_pos hfeed, bind_eq_ok, pure_eq_ok, Option.some.injEq] at h
      obtain ⟨_, -, _, -, text, htext, hbytes⟩ := h
      exact ⟨text, htext, hbytes.symm⟩
    · simp only [if_neg hfeed, bind_eq_ok, pure_eq_ok, Option.some.injEq] at h
      obtain ⟨text, htext, hbytes⟩ := h
      exact ⟨text, htext, hbytes.symm⟩

/-- The memory `stage` leaves. -/
theorem stage_memory {memory : Memory} {rows : List Ref} (hrows : ∀ r ∈ rows, r < memory.length) :
    ∃ more, (stage json gz mtime feed date pollId memory rows).1 = memory ++ more := by
  unfold stage
  by_cases hnone : rows = []
  · rw [if_pos hnone]
    exact ⟨[], (List.append_nil _).symm⟩
  · rw [if_neg hnone]
    exact (storedRows_spec feed hrows rfl).1

/-- **What is read back**: the rows, their fields in the order of their names. -/
theorem readSegment_stage (path : String) {memory : Memory} {rows : List Ref}
    (hrows : ∀ r ∈ rows, r < memory.length)
    (hscalar : ∀ r ∈ rows, ∀ m ∈ (memory.dict r).members, Scalar m.2) {bytes : Bytes}
    (h : (stage json gz mtime feed date pollId memory rows).2 = .ok (some bytes)) :
    readSegment json gz path bytes =
      .ok (rows.map fun r => .dict (inOrder (memory.dict r).members)) := by
  rcases hstored : storedRows feed memory rows with ⟨memory', stored, strings⟩
  obtain ⟨text, htext, rfl⟩ := stage_eq_some json gz hstored h
  rw [readSegment_staged json gz path htext, List.map_map]
  obtain ⟨-, ⟨hnone, hsame⟩ | ⟨hsome, hshared⟩⟩ := storedRows_spec feed hrows hstored
  · rw [if_pos hnone]
    refine congrArg Except.ok (map_eq_of_forall₂ ?_)
    refine ((List.forall₂_and_left _ _).mpr ⟨hscalar, hsame⟩).imp fun r item h => ?_
    rw [Function.comp_apply, h.2]
    exact sortKeys_flat fun m hm => sortKeys_scalar (h.1 m hm)
  · rw [if_neg hsome, restoreSharedStrings_spec]
    refine ⟨strings, rfl, ?_⟩
    rw [List.forall₂_map_left_iff, List.forall₂_map_right_iff]
    have hall := (List.forall₂_and_left _ _).mpr ⟨hscalar, (List.forall₂_and_left _ _).mpr
      ⟨hshared.complete, hshared.members⟩⟩
    refine hall.flip.imp fun item r h => ?_
    obtain ⟨hs, hcomplete, hmembers⟩ := h
    rw [Function.comp_apply, hmembers, sortKeys_row hs]
    exact restoredRow_stored hs hcomplete

/-- **A segment of version 2**: a large string of the rows stands once in its list, and nowhere in
its rows. -/
theorem stage_shared {memory : Memory} {rows : List Ref} (hrows : ∀ r ∈ rows, r < memory.length)
    (hscalar : ∀ r ∈ rows, ∀ m ∈ (memory.dict r).members, Scalar m.2) {bytes : Bytes}
    (h : (stage json gz mtime feed date pollId memory rows).2 = .ok (some bytes)) {segment : Doc}
    (hsegment : loadSegment json gz bytes = .ok segment)
    (hversion : segment.get "version" .null = .ok (.int 2)) :
    ∃ (strings : List String) (docs : List Doc),
      segment.get "shared_strings" .null = .ok (.list (strings.map .str)) ∧
      segment.get "rows" .null = .ok (.list docs) ∧
      (∀ r ∈ rows, ∀ m ∈ (memory.dict r).members, ∀ value, Large m.2 value →
        strings.count value = 1) ∧
      (∀ value ∈ strings, ∃ r ∈ rows, ∃ m ∈ (memory.dict r).members, Large m.2 value) ∧
      ∀ doc ∈ docs, ∃ members, doc = .dict members ∧ ∀ m ∈ members, ∀ value, ¬ Large m.2 value := by
  rcases hstored : storedRows feed memory rows with ⟨memory', stored, strings⟩
  obtain ⟨text, htext, rfl⟩ := stage_eq_some json gz hstored h
  rw [loadSegment_staged json gz htext, Except.ok.injEq] at hsegment
  subst hsegment
  obtain ⟨hv, hdocs, hstrings⟩ := get_payload feed date pollId
    (stored.map fun r => .dict (memory'.dict r).members) strings
  rw [hv, Except.ok.injEq, Doc.int.injEq] at hversion
  have hsome : strings ≠ [] := by
    rintro rfl
    cases hversion
  obtain ⟨-, ⟨hnone, -⟩ | ⟨-, hshared⟩⟩ := storedRows_spec feed hrows hstored
  · exact absurd hnone hsome
  refine ⟨strings, _, hstrings hsome, hdocs, fun r hr m hm value hl => ?_, hshared.only, ?_⟩
  · exact List.count_eq_one_of_mem hshared.nodup (hshared.complete r hr m hm value hl)
  · rw [List.map_map, List.forall_mem_map]
    intro item hitem
    have hmem : (memory'.dict item).members ∈
        rows.map fun r => storedMembers strings (memory.dict r).members := by
      rw [← map_eq_of_forall₂ hshared.members]
      exact List.mem_map_of_mem hitem
    obtain ⟨r, hr, hmembers⟩ := List.mem_map.mp hmem
    rw [Function.comp_apply, ← hmembers, sortKeys_row (hscalar r hr)]
    refine ⟨_, rfl, ?_⟩
    rw [storedMembers, List.forall_mem_map]
    exact fun m _ value => stored_not_large strings m.2 value

/-- **Spool segments round-trip.** `stage` leaves the rows of the caller as they are; the segment
that it writes is read back as equal rows, whichever version it has; in version 2 the large strings
stand once in the list and nowhere in the rows; and the decoder leaves no reference. -/
theorem spoolSegment_roundTrip (json : SegmentJson) (gz : Gzip) (mtime : UInt32) (feed : Feed)
    (date pollId path : String) (memory : Memory) (rows : List Ref)
    (hrows : ∀ r ∈ rows, r < memory.length) :
    (∃ more, (stage json gz mtime feed date pollId memory rows).1 = memory ++ more) ∧
    ((∀ r ∈ rows, ∀ m ∈ (memory.dict r).members, Scalar m.2) →
      ∀ bytes, (stage json gz mtime feed date pollId memory rows).2 = .ok (some bytes) →
      (∃ docs, readSegment json gz path bytes = .ok docs ∧
        List.Forall₂ (fun r doc => ∃ members, doc = .dict members ∧
          members.Perm (memory.dict r).members) rows docs) ∧
      ∀ segment, loadSegment json gz bytes = .ok segment →
        segment.get "version" .null = .ok (.int 2) →
        ∃ (strings : List String) (docs : List Doc),
          segment.get "shared_strings" .null = .ok (.list (strings.map .str)) ∧
          segment.get "rows" .null = .ok (.list docs) ∧
          (∀ r ∈ rows, ∀ m ∈ (memory.dict r).members, ∀ value, Large m.2 value →
            strings.count value = 1) ∧
          (∀ value ∈ strings, ∃ r ∈ rows, ∃ m ∈ (memory.dict r).members, Large m.2 value) ∧
          ∀ doc ∈ docs, ∃ members, doc = .dict members ∧
            ∀ m ∈ members, ∀ value, ¬ Large m.2 value) ∧
    ∀ docs strings result, restoreSharedStrings docs strings = .ok result →
      ∃ texts : List String, strings = .list (texts.map .str) ∧
        List.Forall₂ (RestoredRow texts) docs result ∧
        ∀ doc ∈ result, ∃ members, doc = .dict members ∧
          ∀ m ∈ members, ¬ CarriesReference m.2 := by
  refine ⟨stage_memory json gz hrows, fun hscalar bytes h => ⟨?_, fun segment hsegment hversion =>
    stage_shared json gz hrows hscalar h hsegment hversion⟩, fun docs strings result h => ?_⟩
  · refine ⟨_, readSegment_stage json gz path hrows hscalar h, ?_⟩
    rw [List.forall₂_map_right_iff, List.forall₂_same]
    exact fun r _ => ⟨_, rfl, List.perm_insertionSort _ _⟩
  · obtain ⟨texts, htexts, hresult⟩ := restoreSharedStrings_spec.mp h
    exact ⟨texts, htexts, hresult, restoredRows_no_reference hresult⟩

end RoundTrip

/-! ### A row with a large string -/

/-- 4096 characters. -/
@[irreducible] def sampleChars : List Char := List.replicate sharedStringMinChars 'a'

/-- A row with them. -/
def sampleRow : RowObject :=
  ⟨[("id", .str "a1"), ("text", .str (String.ofList sampleChars))], by decide +kernel⟩

/-- The object of its segment. -/
def samplePayload : Doc :=
  payload .alerts "2026-01-01" "p1" [.dict [("id", .str "a1"), ("text", reference 0)]]
    [String.ofList sampleChars]

/-- Its text. -/
def sampleText : List Char :=
  ("\x7b\"date\":\"2026-01-01\",\"feed\":\"alerts\",\"poll_id\":\"p1\",\"rows\":[\x7b\"id\":\"a1\"," ++
    "\"text\":\x7b\"$shared_string\":0\x7d\x7d],\"shared_strings\":[\"").toList ++
  (sampleChars ++ "\"],\"version\":2\x7d".toList)

theorem sampleChars_eq : ∀ c ∈ sampleChars, c = 'a' := by
  rw [sampleChars]
  exact fun c hc => List.eq_of_mem_replicate hc

theorem not_mem_around {c : Char} {l m r : List Char} (hl : c ∉ l) (hm : c ∉ m) (hr : c ∉ r) :
    c ∉ l ++ (m ++ r) := by
  rw [List.mem_append, List.mem_append, not_or, not_or]
  exact ⟨hl, hm, hr⟩

theorem sampleText_newline : '\n' ∉ sampleText ∧ '\r' ∉ sampleText := by
  have hchars : ∀ c, c ≠ 'a' → c ∉ sampleChars := fun c hc hmem => hc (sampleChars_eq c hmem)
  unfold sampleText
  refine ⟨not_mem_around ?_ (hchars _ (by decide)) ?_, not_mem_around ?_ (hchars _ (by decide)) ?_⟩
  all_goals decide +kernel

/-- A `json` module that agrees with Python's on that object. -/
def segmentJson : SegmentJson where
  dumps d :=
    if d = samplePayload then .ok sampleText
    else .error ⟨.typeError, "Object is not JSON serializable"⟩
  dumps_error d e h := by
    split_ifs at h
    cases h
    rfl
  loads text :=
    if text = sampleText ∨ text = sampleText ++ ['\n'] then some (sortKeys samplePayload) else none
  loads_dumps d text h := by
    split_ifs at h with hd
    rw [Except.ok.injEq] at h
    rw [← h, if_pos (Or.inr rfl), hd]
  dumps_newline d text h := by
    split_ifs at h
    rw [Except.ok.injEq] at h
    exact h ▸ sampleText_newline
  loads_text d text h := by
    split_ifs at h with hd
    rw [Except.ok.injEq] at h
    rw [← h, if_pos (Or.inl rfl), hd]

/-- The deflate stream, checksum and size of the text. -/
def segmentBody : Bytes :=
  [0xed, 0xcb, 0xc1, 0x0a, 2, 0x21, 0x10, 0xc6, 0xf1, 0x77, 0xf9, 0xe8, 0x68, 0x60, 0x1e,
    0x3a, 0xf8, 0x2a, 0xb1, 0x2c, 0x82, 0x53, 9, 0xb2, 0x2e, 0x2a, 0x15, 0x88, 0xef, 0xbe,
    0xda, 0xad, 0x57, 0x88, 0xef, 0xc7, 0x5c, 0xe6, 0x3f, 0x4c, 0x83, 0x77, 0x55, 0x60,
    0x61, 0xb4, 0xb9, 0x9e, 0xf5, 0x65, 0x0c, 0x14, 0xee, 0x22, 0x7e, 0x34, 0x17, 0x25,
    0xd7, 0x32, 0xf6, 0x3d, 0xc5, 0xb8, 0x86, 0x99, 0xf6, 0x79, 0xce, 0xe9, 0x5d, 0x60,
    0x6f, 0x0d, 0xdf, 0xe4, 0x66, 0xaa, 0xf2, 0xa9, 0xb0, 0x0d, 0xa7, 0xf2, 0x74, 0x59,
    0xfc, 0x5a, 0x6a, 0x0e, 0xdb, 3, 0x56, 0xf7, 0xbe, 0x28, 0xfc, 0xc4, 0xf9, 0x0a, 0x47,
    0x44, 0x44, 0x44, 0x44, 0x44, 0x44, 0x44, 0x7f, 0x0f, 0x8b, 0xc2, 0x4b, 0x72, 9, 0x69,
    0x83, 0x35, 0xfd, 0, 0xdd, 0x98, 0x90, 0x8b, 0x87, 0x10, 0, 0]

/-- A compressor that agrees with `gzip` on the text. -/
def segmentGzip : Gzip where
  compress mtime b :=
    if b = encodeUtf8 sampleText then gzipHeader mtime ++ segmentBody
    else sampleGzip.compress mtime b
  decompress b :=
    if b.take 2 = [0x1f, 0x8b] ∧ b.drop 10 = segmentBody then .ok (encodeUtf8 sampleText)
    else sampleGzip.decompress b
  decompress_compress mtime b := by
    have hlen : (gzipHeader mtime).length = 10 := by simp [gzipHeader]
    by_cases hb : b = encodeUtf8 sampleText
    · rw [if_pos hb, if_pos ⟨rfl, List.drop_left' hlen⟩, hb]
    · have hbody : (sampleGzip.compress mtime b).drop 10 ≠ segmentBody := by
        rw [sampleGzip, List.drop_left' hlen]
        split
        · decide
        · exact fun h => absurd (List.head_eq_of_cons_eq h) (by decide)
      rw [if_neg hb, if_neg fun h => hbody h.2]
      exact sampleGzip.decompress_compress mtime b
  error_type b e h := by
    split_ifs at h
    exact sampleGzip.error_type b e h

/-- The row that is written. -/
def storedSample : RowObject := ⟨[("id", .str "a1"), ("text", reference 0)], by decide +kernel⟩

theorem sampleString_length : (String.ofList sampleChars).length = sharedStringMinChars := by
  rw [String.length_ofList, sampleChars, List.length_replicate]

theorem storedRows_sample : storedRows .alerts [sampleRow] [0] =
    ([sampleRow, storedSample], [1], [String.ofList sampleChars]) := by
  have hlarge : sharedStringMinChars ≤ (String.ofList sampleChars).length :=
    sampleString_length.ge
  have hsmall : ¬ sharedStringMinChars ≤ "a1".length := by decide +kernel
  simp only [storedRows, shareLargeStrings, Sharing.shareRows, Sharing.shareRow, sampleRow,
    Memory.dict, List.getElem?_cons_zero, Option.getD_some, List.foldl_cons, List.foldl_nil,
    Sharing.shareField, if_pos hlarge, if_neg hsmall, Sharing.index, List.lookup_nil]
  rfl

theorem stage_sample : (stage segmentJson segmentGzip 1 .alerts "2026-01-01" "p1" [sampleRow]
    [0]).2 = .ok (some (gzipHeader 1 ++ segmentBody)) := by
  have hrow : checkAlertSpoolSize [storedSample.members] = .ok () := by decide +kernel
  have hstring : checkAlertSpoolSize [[("value", .str (String.ofList sampleChars))]] = .ok () := by
    rw [checkAlertSpoolSize, checkSizeFrom, stringBytes]
    simp only [List.filterMap_cons, List.filterMap_nil, Doc.asStr, List.map_cons, List.map_nil,
      sampleString_length, List.sum_cons, List.sum_nil]
    decide +kernel
  have hdumps : segmentJson.dumps samplePayload = .ok sampleText := by
    simp only [segmentJson, ↓reduceIte]
  have hbytes : segmentGzip.compress 1 (encodeUtf8 sampleText) = gzipHeader 1 ++ segmentBody := by
    simp only [segmentGzip, ↓reduceIte]
  rw [stage, if_neg (List.cons_ne_nil _ _), storedRows_sample]
  simp only [if_pos, List.map_cons, List.map_nil]
  show (do
    checkAlertSpoolSize [storedSample.members]
    checkAlertSpoolSize [[("value", .str (String.ofList sampleChars))]]
    let text ← segmentJson.dumps samplePayload
    pure (some (segmentGzip.compress 1 (encodeUtf8 text)))) = _
  rw [hrow, hstring, hdumps, ← hbytes]
  rfl

/-- A row with a large string. -/
theorem spoolSegment_roundTrip_sample :
    (∃ docs, readSegment segmentJson segmentGzip "batch-p1.json.gz" (gzipHeader 1 ++ segmentBody) =
        .ok docs ∧
      List.Forall₂ (fun r doc => ∃ members, doc = .dict members ∧
        members.Perm (Memory.dict [sampleRow] r).members) [0] docs) := by
  have hrows : ∀ r ∈ [0], r < [sampleRow].length := by decide
  have hscalar : ∀ r ∈ [0], ∀ m ∈ (Memory.dict [sampleRow] r).members, Scalar m.2 := by
    refine List.forall_mem_singleton.mpr ?_
    exact List.forall_mem_cons.mpr ⟨trivial, List.forall_mem_singleton.mpr trivial⟩
  exact ((spoolSegment_roundTrip segmentJson segmentGzip 1 .alerts "2026-01-01" "p1"
    "batch-p1.json.gz" [sampleRow] [0] hrows).2.1 hscalar _ stage_sample).1

end BkkCollector.Storage.SpoolCodec
