import BkkCollector.Logic.Regex

/-! # Redaction

What is logged is rewritten twice: the API key is replaced wherever it stands, and so is the value
of every `key` parameter. The mark that replaces them has delimiters that the key does not have, so
neither pass can make an occurrence of the key, and what the second pass leaves it leaves again.

* `not_infix_values`: the second pass makes no occurrence of the key.
* `redacted_values`: what it leaves behind a parameter name.
* `redactText_leaves_no_credential`: both passes.
-/

namespace BkkCollector.Collector.Redaction

open BkkCollector.Logic.Regex

/-! ### The two passes -/

/-- A string: its code points, surrogates included. -/
abbrev CodePoints := List UInt32

/-- A string literal. -/
def str (s : String) : CodePoints := s.toList.map Char.val

/-- `<redacted>`. -/
def mark : CodePoints := str "<redacted>"

/-- `[?&]`. -/
def startsParameter (c : UInt32) : Bool := c == 0x3f || c == 0x26

/-- The letter `k` regardless of case, the Kelvin sign among its forms. -/
def isK (c : UInt32) : Bool := c == 0x6b || c == 0x4b || c == 0x212a

/-- The letter `e` regardless of case. -/
def isE (c : UInt32) : Bool := c == 0x65 || c == 0x45

/-- The letter `y` regardless of case. -/
def isY (c : UInt32) : Bool := c == 0x79 || c == 0x59

/-- `\s`. -/
def isSpace (c : UInt32) : Bool :=
  (0x09 ≤ c && c ≤ 0x0d) || (0x1c ≤ c && c ≤ 0x20) || c == 0x85 || c == 0xa0 || c == 0x1680 ||
    (0x2000 ≤ c && c ≤ 0x200a) || c == 0x2028 || c == 0x2029 || c == 0x202f || c == 0x205f ||
    c == 0x3000

/-- `[^&\s]`. -/
def isValueChar (c : UInt32) : Bool := !(c == 0x26 || isSpace c)

/-- `([?&]key=)`, regardless of case. -/
def parameterName : Pattern UInt32 :=
  .group <| .seq (.char startsParameter) <| .seq (.char isK) <| .seq (.char isE) <|
    .seq (.char isY) (.char (· == 0x3d))

/-- `([?&]key=)[^&\s]+`, regardless of case. -/
def keyParameter : Pattern UInt32 :=
  .seq parameterName (.seq (.char isValueChar) (.star isValueChar))

/-- `_redact_text`. -/
def redactText (message apiKey : CodePoints) : CodePoints :=
  sub keyParameter (· ++ mark) (if apiKey = [] then message else replace apiKey mark message)

/-! ### A match -/

/-- A text starts with the name of a `key` parameter. -/
def isName : CodePoints → Bool
  | q :: k :: e :: y :: c :: _ => startsParameter q && isK k && isE e && isY y && c == 0x3d
  | _ => false

/-- A text starts with a `key` parameter that has a value. -/
def isHit (text : CodePoints) : Bool := isName text && (text.drop 5).head?.any isValueChar

/-- What stands behind a value. -/
def Ends (text : CodePoints) : Prop := ∀ c ∈ text.head?, isValueChar c = false

theorem ends_dropWhile (text : CodePoints) : Ends (text.dropWhile isValueChar) := by
  intro c hc
  have h := List.head?_dropWhile_not isValueChar text
  rw [hc] at h
  simpa using h

theorem isName_iff {text : CodePoints} : isName text = true ↔ ∃ q k e y l,
    text = q :: k :: e :: y :: 0x3d :: l ∧ startsParameter q = true ∧ isK k = true ∧
      isE e = true ∧ isY y = true := by
  constructor
  · intro h
    unfold isName at h
    split at h
    · rename_i q k e y c l
      simp only [Bool.and_eq_true, beq_iff_eq] at h
      obtain ⟨⟨⟨⟨hq, hk⟩, he⟩, hy⟩, rfl⟩ := h
      exact ⟨q, k, e, y, l, rfl, hq, hk, he, hy⟩
    · cases h
  · rintro ⟨q, k, e, y, l, rfl, hq, hk, he, hy⟩
    simp [isName, hq, hk, he, hy]

/-- The name matches where it stands. -/
theorem exec_parameterName (b : Bool) (text : CodePoints) :
    exec parameterName ⟨b, text, []⟩ =
      if isName text then [⟨false, text.drop 5, text.take 5⟩] else [] := by
  rw [parameterName, exec_group]
  rcases text with _ | ⟨q, _ | ⟨k, _ | ⟨e, _ | ⟨y, _ | ⟨c, l⟩⟩⟩⟩⟩
  case cons.cons.cons.cons.cons =>
    have hlength : (q :: k :: e :: y :: c :: l).length - l.length = 5 := by
      simp only [List.length_cons]
      omega
    simp only [exec_char_seq_cons, exec_char_cons, isName, Bool.and_eq_true, beq_iff_eq]
    by_cases h : (((startsParameter q = true ∧ isK k = true) ∧ isE e = true) ∧ isY y = true) ∧
        c = 0x3d
    · rw [if_pos h]
      obtain ⟨⟨⟨⟨hq, hk⟩, he⟩, hy⟩, hc⟩ := h
      simp only [hq, hk, he, hy, if_pos hc, if_true, List.map_singleton, hlength]
      rfl
    · rw [if_neg h]
      split_ifs with hq hk he hy hc
      · exact absurd ⟨⟨⟨⟨hq, hk⟩, he⟩, hy⟩, hc⟩ h
      all_goals rfl
  case nil => rfl
  all_goals
    simp only [exec_char_seq_cons, exec_char_seq_nil, exec_char_nil, isName, Bool.false_eq_true,
      if_false]
    split_ifs <;> rfl

theorem exec_of_hit {b : Bool} {text : CodePoints} (h : isHit text = true) :
    (exec keyParameter ⟨b, text, []⟩).head? =
      some ⟨false, (text.drop 5).dropWhile isValueChar, text.take 5⟩ := by
  rw [isHit, Bool.and_eq_true] at h
  obtain ⟨hname, hvalue⟩ := h
  cases htail : text.drop 5 with
  | nil =>
    rw [htail] at hvalue
    cases hvalue
  | cons v l =>
    rw [htail, List.head?_cons, Option.any_some] at hvalue
    rw [keyParameter, exec_seq, exec_parameterName, if_pos hname, List.flatMap_singleton, htail,
      exec_char_seq_cons, if_pos hvalue, List.dropWhile_cons_of_pos hvalue]
    have hvalues : ∀ c ∈ l.takeWhile isValueChar, isValueChar c = true :=
      fun c hc => List.mem_takeWhile_imp hc
    have hruns : (runs isValueChar (text.take 5) false
        (l.takeWhile isValueChar ++ l.dropWhile isValueChar)).head? = _ :=
      head?_runs hvalues (ends_dropWhile l)
    rw [List.takeWhile_append_dropWhile, Bool.false_and] at hruns
    exact hruns

theorem exec_of_not_hit {b : Bool} {text : CodePoints} (h : isHit text = false) :
    exec keyParameter ⟨b, text, []⟩ = [] := by
  rw [isHit, Bool.and_eq_false_iff] at h
  rw [keyParameter, exec_seq, exec_parameterName]
  rcases h with h | h
  · rw [if_neg (by rw [h]; exact Bool.false_ne_true)]
    rfl
  · split_ifs with hname
    · rw [List.flatMap_singleton]
      cases htail : text.drop 5 with
      | nil => rfl
      | cons v l =>
        rw [htail, List.head?_cons, Option.any_some] at h
        rw [exec_char_seq_cons, if_neg (by rw [h]; exact Bool.false_ne_true)]
    · rfl

/-! ### The second pass -/

/-- The second pass, from any position on. -/
def values (text : CodePoints) : CodePoints := sub keyParameter (· ++ mark) text false

theorem values_nil : values [] = [] := sub_nil rfl

theorem values_of_not_hit {a : UInt32} {text : CodePoints} (h : isHit (a :: text) = false) :
    values (a :: text) = a :: values text := sub_skip (exec_of_not_hit h)

theorem values_of_hit {text : CodePoints} (h : isHit text = true) :
    values text = text.take 5 ++ (mark ++ values ((text.drop 5).dropWhile isValueChar)) := by
  have hne : text ≠ [] := by
    rintro rfl
    cases h
  have hlt : ((text.drop 5).dropWhile isValueChar).length < text.length :=
    lt_of_le_of_lt (List.length_dropWhile_le _ _) (by
      rw [List.length_drop]
      have := List.length_pos_iff.mpr hne
      omega)
  rw [values, sub_hit (exec_of_hit h) hlt, List.append_assoc]
  rfl

/-- The second pass keeps the first character. -/
theorem head?_values (text : CodePoints) : (values text).head? = text.head? := by
  cases text with
  | nil => rw [values_nil]
  | cons a text =>
    cases h : isHit (a :: text) with
    | true => rw [values_of_hit h]; rfl
    | false => rw [values_of_not_hit h]; rfl

theorem Ends.values {text : CodePoints} (h : Ends text) : Ends (values text) := by
  rw [Ends, head?_values]
  exact h

/-- Induction over the matches of a text. -/
theorem values_induction {motive : CodePoints → Prop} (nil : motive [])
    (skip : ∀ a text, isHit (a :: text) = false → motive text → motive (a :: text))
    (hit : ∀ text, isHit text = true → motive ((text.drop 5).dropWhile isValueChar) →
      motive text) (text : CodePoints) : motive text := by
  induction h : text.length using Nat.strong_induction_on generalizing text with
  | _ n ih =>
    subst h
    cases text with
    | nil => exact nil
    | cons a text =>
      cases hhit : isHit (a :: text) with
      | false => exact skip a text hhit (ih text.length (by simp) text rfl)
      | true =>
        refine hit _ hhit (ih _ ?_ _ rfl)
        refine lt_of_le_of_lt (List.length_dropWhile_le _ _) ?_
        simp only [List.drop_succ_cons, List.length_drop, List.length_cons]
        omega

/-! ### No occurrence of the key -/

section Key

variable {key : CodePoints}

/-- A key without the delimiters of the mark stands outside of it. -/
theorem infix_of_mark (hopen : 0x3c ∉ key) (hclose : 0x3e ∉ key)
    (hword : ¬ key <:+: str "redacted") {l r : CodePoints} (h : key <:+: l ++ mark ++ r) :
    key <:+: l ∨ key <:+: r := by
  have hmark : l ++ mark ++ r = l ++ 0x3c :: (str "redacted" ++ 0x3e :: r) := by
    rw [List.append_assoc]
    rfl
  rw [hmark] at h
  rcases infix_of_separated hopen h with h | h
  · exact Or.inl h
  · exact Or.inr ((infix_of_separated hclose h).resolve_left hword)

/-- **The second pass** makes no occurrence of the key. -/
theorem not_infix_values (hopen : 0x3c ∉ key) (hclose : 0x3e ∉ key)
    (hword : ¬ key <:+: str "redacted") (text l : CodePoints) (h : ¬ key <:+: l ++ text) :
    ¬ key <:+: l ++ values text := by
  induction text using values_induction generalizing l with
  | nil => rwa [values_nil]
  | skip a text hhit ih =>
    rw [values_of_not_hit hhit, List.append_cons]
    exact ih (l ++ [a]) (by rwa [← List.append_cons])
  | hit text hhit ih =>
    rw [values_of_hit hhit, ← List.append_assoc, ← List.append_assoc]
    intro hi
    rcases infix_of_mark hopen hclose hword hi with hi | hi
    · refine h (hi.trans ⟨[], text.drop 5, ?_⟩)
      rw [List.nil_append, List.append_assoc, List.take_append_drop]
    · refine ih [] (fun hrest => h (hrest.trans ?_)) hi
      rw [List.nil_append]
      exact (((List.dropWhile_suffix _).trans (List.drop_suffix _ _)).trans
        (List.suffix_append _ _)).isInfix

end Key

/-! ### What stands behind a name -/

/-- What may stand behind the name of a parameter: the mark and the end of the value, or no value. -/
def Marked (text : CodePoints) : Prop := (∃ rest, text = mark ++ rest ∧ Ends rest) ∨ Ends text

/-- Every `key` parameter is redacted or empty. -/
def Redacted (text : CodePoints) : Prop :=
  ∀ t, t <:+ text → isName t = true → Marked (t.drop 5)

/-- A name does not start with one of its own letters, or within the mark. -/
theorem suffix_of_isName {l r t : CodePoints} (hl : ∀ c ∈ l, startsParameter c = false)
    (h : t <:+ l ++ r) (hname : isName t = true) : t <:+ r := by
  induction l with
  | nil => exact h
  | cons a l ih =>
    obtain ⟨ha, hl⟩ := List.forall_mem_cons.mp hl
    rcases List.suffix_cons_iff.mp h with rfl | h
    · obtain ⟨q, k, e, y, l', heq, hq, -⟩ := isName_iff.mp hname
      rw [(List.cons.inj heq).1, hq] at ha
      cases ha
    · exact ih hl h

/-- A character of the output that starts no parameter stands in the input. -/
theorem values_eq_cons {a : UInt32} (ha : startsParameter a = false) {text o : CodePoints}
    (h : values text = a :: o) : ∃ text', text = a :: text' ∧ values text' = o := by
  cases text with
  | nil =>
    rw [values_nil] at h
    cases h
  | cons b text =>
    have hb : b = a := by
      have := head?_values (b :: text)
      rw [h] at this
      exact (Option.some.inj this).symm
    subst hb
    cases hhit : isHit (b :: text) with
    | true =>
      rw [isHit, Bool.and_eq_true] at hhit
      obtain ⟨q, k, e, y, l, heq, hq, -⟩ := isName_iff.mp hhit.1
      rw [(List.cons.inj heq).1, hq] at ha
      cases ha
    | false =>
      rw [values_of_not_hit hhit, List.cons.injEq] at h
      exact ⟨text, rfl, h.2⟩

theorem not_startsParameter_of_isK {c : UInt32} (h : isK c = true) : startsParameter c = false := by
  simp only [isK, Bool.or_eq_true, beq_iff_eq] at h
  rcases h with (rfl | rfl) | rfl <;> rfl

theorem not_startsParameter_of_isE {c : UInt32} (h : isE c = true) : startsParameter c = false := by
  simp only [isE, Bool.or_eq_true, beq_iff_eq] at h
  rcases h with rfl | rfl <;> rfl

theorem not_startsParameter_of_isY {c : UInt32} (h : isY c = true) : startsParameter c = false := by
  simp only [isY, Bool.or_eq_true, beq_iff_eq] at h
  rcases h with rfl | rfl <;> rfl

/-- A name in the output stands in the input, with the same first character behind it. -/
theorem isName_of_values {a : UInt32} {text : CodePoints} (h : isName (a :: values text) = true) :
    isName (a :: text) = true ∧ (values text).drop 4 = values (text.drop 4) := by
  obtain ⟨q, k, e, y, l, heq, hq, hk, he, hy⟩ := isName_iff.mp h
  rw [List.cons.injEq] at heq
  obtain ⟨rfl, heq⟩ := heq
  obtain ⟨t₁, rfl, h₁⟩ := values_eq_cons (not_startsParameter_of_isK hk) heq
  obtain ⟨t₂, rfl, h₂⟩ := values_eq_cons (not_startsParameter_of_isE he) h₁
  obtain ⟨t₃, rfl, h₃⟩ := values_eq_cons (not_startsParameter_of_isY hy) h₂
  obtain ⟨t₄, rfl, h₄⟩ := values_eq_cons rfl h₃
  refine ⟨isName_iff.mpr ⟨_, _, _, _, _, rfl, hq, hk, he, hy⟩, ?_⟩
  rw [heq]
  exact h₄.symm

theorem mark_quiet : ∀ c ∈ mark, startsParameter c = false := by
  have hall : (mark.all fun c => !startsParameter c) = true := by decide +kernel
  exact fun c hc => (Bool.not_eq_true' _).mp (List.all_eq_true.mp hall c hc)

theorem mark_values : ∀ c ∈ mark, isValueChar c = true :=
  List.all_eq_true.mp (by decide +kernel)

/-- **What the second pass leaves** behind the name of a parameter. -/
theorem redacted_values (text : CodePoints) : Redacted (values text) := by
  induction text using values_induction with
  | nil =>
    rw [values_nil]
    intro t ht hname
    rw [List.suffix_nil.mp ht] at hname
    cases hname
  | skip a text hhit ih =>
    rw [values_of_not_hit hhit]
    intro t ht hname
    rcases List.suffix_cons_iff.mp ht with rfl | ht
    · -- the parameter stands in the input, where it has no value
      obtain ⟨hin, hdrop⟩ := isName_of_values hname
      rw [isHit, hin, Bool.true_and] at hhit
      have hends : Ends (text.drop 4) := by
        intro c hc
        have hhit : (text.drop 4).head?.any isValueChar = false := hhit
        rw [hc, Option.any_some] at hhit
        exact hhit
      rw [List.drop_succ_cons, hdrop]
      exact Or.inr hends.values
    · exact ih t ht hname
  | hit text hhit ih =>
    rw [values_of_hit hhit]
    obtain ⟨hin, -⟩ := (Bool.and_eq_true _ _).mp (isHit.eq_def text ▸ hhit)
    obtain ⟨q, k, e, y, l, rfl, hq, hk, he, hy⟩ := isName_iff.mp hin
    intro t ht hname
    rcases List.suffix_cons_iff.mp ht with rfl | ht
    · exact Or.inl ⟨_, rfl, (ends_dropWhile _).values⟩
    · refine ih t (suffix_of_isName (l := [k, e, y, 0x3d] ++ mark) ?_ ht hname) hname
      refine List.forall_mem_append.mpr ⟨?_, mark_quiet⟩
      simp only [List.forall_mem_cons]
      exact ⟨not_startsParameter_of_isK hk, not_startsParameter_of_isE he,
        not_startsParameter_of_isY hy, rfl, nofun⟩

/-- A text whose parameters are redacted stays. -/
theorem values_of_redacted {text : CodePoints} (h : Redacted text) : values text = text := by
  induction text using values_induction with
  | nil => exact values_nil
  | skip a text hhit ih =>
    rw [values_of_not_hit hhit, ih fun t ht => h t (ht.trans (List.suffix_cons a text))]
  | hit text hhit ih =>
    obtain ⟨hname, hvalue⟩ := (Bool.and_eq_true _ _).mp (isHit.eq_def text ▸ hhit)
    rcases h text (List.suffix_refl _) hname with ⟨rest, hrest, hends⟩ | hends
    · have hdrop : (text.drop 5).dropWhile isValueChar = rest := by
        rw [hrest, List.dropWhile_append_of_pos mark_values]
        cases rest with
        | nil => rfl
        | cons c rest => rw [List.dropWhile_cons_of_neg (by simp [hends c rfl])]
      rw [values_of_hit hhit]
      rw [hdrop] at ih ⊢
      rw [ih fun t ht => h t (ht.trans ?_), ← hrest, List.take_append_drop]
      rw [← hdrop]
      exact (List.dropWhile_suffix _).trans (List.drop_suffix _ _)
    · cases hhead : (text.drop 5).head? with
      | none =>
        rw [hhead] at hvalue
        cases hvalue
      | some c =>
        rw [hhead, Option.any_some, hends c hhead] at hvalue
        cases hvalue

/-! ### Both passes -/

/-- The second pass does not look at what stands before a match. -/
theorem sub_eq_values (text : CodePoints) : sub keyParameter (· ++ mark) text = values text := by
  rw [values, sub, sub, scan_congr]
  cases text <;> rfl

/-- **Redaction leaves no credential.** Take a key that has no `<` and no `>` and is no part of the
word in the mark. In the redacted text the key does not occur; every `key` parameter has the mark
for its value, or none; and redacting it again changes nothing. -/
theorem redactText_leaves_no_credential (message key : CodePoints) (hne : key ≠ [])
    (hopen : 0x3c ∉ key) (hclose : 0x3e ∉ key) (hword : ¬ key <:+: str "redacted") :
    ¬ key <:+: redactText message key ∧
    (∀ t, t <:+ redactText message key → isName t = true →
      (∃ rest, t.drop 5 = mark ++ rest ∧ Ends rest) ∨ Ends (t.drop 5)) ∧
    redactText (redactText message key) key = redactText message key := by
  have hredact : ∀ text, redactText text key = values (replace key mark text) := by
    intro text
    rw [redactText, if_neg hne, sub_eq_values]
  have hfirst : ¬ key <:+: replace key mark message :=
    not_infix_append_replace hne (fun l r => infix_of_mark hopen hclose hword) [] message
      fun l₁ l₂ h hl₂ => absurd (List.append_eq_nil_iff.mp h.symm).2 hl₂
  have hsecond : ¬ key <:+: values (replace key mark message) :=
    not_infix_values hopen hclose hword _ [] hfirst
  rw [hredact message]
  refine ⟨hsecond, redacted_values _, ?_⟩
  rw [hredact, replace_of_not_infix hsecond, values_of_redacted (redacted_values _)]

/-- A message with the key twice, once under another parameter. -/
theorem redactText_leaves_no_credential_retry :
    redactText (str "GET /feed?key=s3cret&KEY=x y?token=s3cret") (str "s3cret") =
        str "GET /feed?key=<redacted>&KEY=<redacted> y?token=<redacted>" ∧
      ¬ str "s3cret" <:+:
        redactText (str "GET /feed?key=s3cret&KEY=x y?token=s3cret") (str "s3cret") := by
  refine ⟨by decide +kernel, (redactText_leaves_no_credential _ _ ?_ ?_ ?_ ?_).1⟩
  all_goals decide +kernel

end BkkCollector.Collector.Redaction
