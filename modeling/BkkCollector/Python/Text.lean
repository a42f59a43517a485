import Mathlib.Data.List.Basic
import Mathlib.Data.String.Basic

/-! # Bytes and text

`str.encode("utf-8")` and its inverse, and what `open(path, "r")` makes of line ends. -/

namespace BkkCollector.Python.Text

/-- A byte string. -/
abbrev Bytes := List UInt8

/-- `text.encode("utf-8")`. -/
def encodeUtf8 (text : List Char) : Bytes := text.flatMap String.utf8EncodeChar

/-- `b.decode("utf-8")`, or nothing where it raises `UnicodeDecodeError`. -/
def decodeUtf8 (b : Bytes) : Option (List Char) := b.toByteArray.utf8Decode?.map (·.toList)

@[simp] theorem encodeUtf8_nil : encodeUtf8 [] = [] := rfl

@[simp] theorem encodeUtf8_append (s t : List Char) :
    encodeUtf8 (s ++ t) = encodeUtf8 s ++ encodeUtf8 t := List.flatMap_append

@[simp] theorem decodeUtf8_encodeUtf8 (text : List Char) :
    decodeUtf8 (encodeUtf8 text) = some text := by
  have h : (encodeUtf8 text).toByteArray = text.utf8Encode := rfl
  rw [decodeUtf8, h, List.utf8Decode?_utf8Encode, Option.map_some]

theorem toByteArray_inj {b c : Bytes} (h : b.toByteArray = c.toByteArray) : b = c := by
  have := congrArg (fun x => x.data.toList) h
  simpa using this

theorem decodeUtf8_eq_some {b : Bytes} {text : List Char} (h : decodeUtf8 b = some text) :
    b = encodeUtf8 text := by
  rw [decodeUtf8, Option.map_eq_some_iff] at h
  obtain ⟨chars, hchars, rfl⟩ := h
  have hsome : b.toByteArray.utf8Decode?.isSome := by rw [hchars]; rfl
  have hget := @ByteArray.utf8Encode_get_utf8Decode? b.toByteArray hsome
  simp only [hchars, Option.get_some] at hget
  exact toByteArray_inj hget.symm

/-- The encoding of a character is not empty. -/
theorem encodeUtf8_eq_nil {text : List Char} : encodeUtf8 text = [] ↔ text = [] := by
  constructor
  · intro h
    have := congrArg decodeUtf8 h
    rw [decodeUtf8_encodeUtf8, ← encodeUtf8_nil, decodeUtf8_encodeUtf8] at this
    exact Option.some.inj this
  · rintro rfl
    rfl

/-- Only an ASCII character is encoded with its own byte. -/
theorem eq_of_ascii_mem {c d : Char} (hd : d.toNat < 128)
    (h : UInt8.ofNat d.toNat ∈ String.utf8EncodeChar c) : c = d := by
  have hbyte (n : ℕ) (h1 : 128 ≤ n) (h2 : n < 256) (h : UInt8.ofNat d.toNat = UInt8.ofNat n) :
      False := by
    have := congrArg UInt8.toNat h
    rw [UInt8.toNat_ofNat', UInt8.toNat_ofNat'] at this
    omega
  unfold String.utf8EncodeChar at h
  dsimp only at h
  split_ifs at h with h1 h2 h3
  · rw [List.mem_singleton] at h
    have hnat := congrArg UInt8.toNat h
    rw [UInt8.toNat_ofNat', UInt8.toNat_ofNat'] at hnat
    apply Char.ext
    apply UInt32.toNat_inj.mp
    change c.val.toNat = d.toNat
    omega
  · -- the bytes of a longer encoding are at least 128
    simp only [List.mem_cons, List.not_mem_nil, or_false] at h
    rcases h with h | h <;> exact (hbyte _ (by omega) (by omega) h).elim
  · simp only [List.mem_cons, List.not_mem_nil, or_false] at h
    rcases h with h | h | h <;> exact (hbyte _ (by omega) (by omega) h).elim
  · simp only [List.mem_cons, List.not_mem_nil, or_false] at h
    rcases h with h | h | h | h <;> exact (hbyte _ (by omega) (by omega) h).elim

theorem ascii_mem_encodeUtf8 {text : List Char} {d : Char} (hd : d.toNat < 128) :
    UInt8.ofNat d.toNat ∈ encodeUtf8 text ↔ d ∈ text := by
  constructor
  · intro h
    obtain ⟨c, hc, hb⟩ := List.mem_flatMap.mp h
    rwa [eq_of_ascii_mem hd hb] at hc
  · intro h
    refine List.mem_flatMap.mpr ⟨d, h, ?_⟩
    have hval : d.val.toNat ≤ 127 := Nat.le_of_lt_succ hd
    unfold String.utf8EncodeChar
    rw [if_pos hval]
    exact List.mem_cons_self

theorem encodeUtf8_newline : encodeUtf8 ['\n'] = [10] := by decide

/-- A text ends with a newline if its bytes do. -/
theorem getLast_of_encodeUtf8 {text : List Char} (h : (encodeUtf8 text).getLast? = some 10) :
    text.getLast? = some '\n' := by
  rcases List.eq_nil_or_concat text with rfl | ⟨init, c, rfl⟩
  · cases h
  · rw [List.concat_eq_append] at h ⊢
    rw [List.getLast?_concat]
    rw [encodeUtf8_append, List.getLast?_append_of_ne_nil _ (by simp [encodeUtf8_eq_nil])] at h
    have hmem := List.mem_of_getLast? h
    simp only [encodeUtf8, List.flatMap_cons, List.flatMap_nil, List.append_nil] at hmem
    rw [eq_of_ascii_mem (d := '\n') (by decide) hmem]

/-- Universal newlines: every line end becomes a newline. -/
def universalNewlines : List Char → List Char
  | [] => []
  | '\r' :: '\n' :: text => '\n' :: universalNewlines text
  | '\r' :: text => '\n' :: universalNewlines text
  | c :: text => c :: universalNewlines text

theorem universalNewlines_of_not_mem {text : List Char} (h : '\r' ∉ text) :
    universalNewlines text = text := by
  fun_induction universalNewlines text with
  | case1 => rfl
  | case2 => exact absurd List.mem_cons_self h
  | case3 => exact absurd List.mem_cons_self h
  | case4 c text _ _ ih => rw [ih fun hmem => h (List.mem_cons_of_mem _ hmem)]

end BkkCollector.Python.Text
