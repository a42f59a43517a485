import Mathlib.Data.List.DropRight

/-! # Strings of the frontend

A string is a list of UTF-16 code units, with or without a partner for every surrogate. -/

namespace BkkCollector.Frontend.Strings

/-- A string: its UTF-16 code units. -/
abbrev JsString := List UInt16

/-- The code units of a character. -/
def codeUnits (c : Char) : JsString :=
  if c.toNat < 0x10000 then [UInt16.ofNat c.toNat]
  else
    [UInt16.ofNat (0xd800 + (c.toNat - 0x10000) / 0x400),
      UInt16.ofNat (0xdc00 + (c.toNat - 0x10000) % 0x400)]

/-- A string literal. -/
def js (s : String) : JsString := s.toList.flatMap codeUnits

/-- White space and line ends, as `trim` removes them. -/
def isWhiteSpace (u : UInt16) : Bool :=
  (0x09 ≤ u && u ≤ 0x0d) || u == 0x20 || u == 0xa0 || u == 0x1680 || (0x2000 ≤ u && u ≤ 0x200a) ||
    u == 0x2028 || u == 0x2029 || u == 0x202f || u == 0x205f || u == 0x3000 || u == 0xfeff

/-- `s.trim()`. -/
def trim (s : JsString) : JsString := (s.dropWhile isWhiteSpace).rdropWhile isWhiteSpace

/-- What is not trimmed away is white space or stays. -/
theorem mem_trim_or_isWhiteSpace {s : JsString} {u : UInt16} (h : u ∈ s) :
    isWhiteSpace u = true ∨ u ∈ trim s := by
  rw [← List.takeWhile_append_dropWhile (p := isWhiteSpace) (l := s), List.mem_append] at h
  rcases h with h | h
  · exact Or.inl (List.mem_takeWhile_imp h)
  · rw [← List.rdropWhile_append_rtakeWhile (p := isWhiteSpace)
      (l := s.dropWhile isWhiteSpace), List.mem_append] at h
    rcases h with h | h
    · exact Or.inr h
    · exact Or.inl (List.mem_rtakeWhile_imp h)

theorem mem_of_mem_trim {s : JsString} {u : UInt16} (h : u ∈ trim s) : u ∈ s :=
  (List.dropWhile_suffix _).subset ((List.rdropWhile_prefix _ _).subset h)

/-- White space around a text without any is trimmed away. -/
theorem trim_surrounded {l r : JsString} (hl : ∀ u ∈ l, isWhiteSpace u = true)
    (hr : ∀ u ∈ r, isWhiteSpace u = true) {u : UInt16} (hu : isWhiteSpace u = false) :
    trim (l ++ [u] ++ r) = [u] := by
  have hdrop : (l ++ ([u] ++ r)).dropWhile isWhiteSpace = [u] ++ r := by
    rw [List.dropWhile_append_of_pos hl, List.singleton_append,
      List.dropWhile_cons_of_neg (by simp [hu])]
  rw [trim, List.append_assoc, hdrop, List.rdropWhile, List.reverse_append,
    List.dropWhile_append_of_pos fun v hv => hr v (List.mem_reverse.mp hv), List.reverse_singleton,
    List.dropWhile_cons_of_neg (by simp [hu]), List.reverse_singleton]

end BkkCollector.Frontend.Strings
