import BkkCollector.Frontend.Strings
import BkkCollector.Logic.Regex

/-! # Conditional requests

`If-None-Match` of a snapshot request: `*`, or a list of entity tags. The tags are found with one
expression, whose matches start at a comma or at the start of the header and end at the next comma,
or at the end of the header; a comma within a tag is passed over with its tag.

* `groups_render`: the matches in a list of tags are the tags.
* `matchesSnapshotEtag_iff`: what a conditional request is compared with.
-/

namespace BkkCollector.Frontend.Conditional

open BkkCollector.Frontend.Strings BkkCollector.Logic.Regex

/-! ### The worker -/

/-- `,`. -/
def comma : UInt16 := 0x2c

/-- `"`. -/
def quote : UInt16 := 0x22

/-- `[\t ]`. -/
def isBlank (u : UInt16) : Bool := u == 0x09 || u == 0x20

/-- `[\x21\x23-\x7e\x80-\xff]`. -/
def isTagChar (u : UInt16) : Bool :=
  u == 0x21 || (0x23 ≤ u && u ≤ 0x7e) || (0x80 ≤ u && u ≤ 0xff)

/-- `("[\x21\x23-\x7e\x80-\xff]*")`. -/
def quotedTag : Pattern UInt16 :=
  .group (.seq (.char (· == quote)) (.seq (.star isTagChar) (.char (· == quote))))

/-- `[\t ]*(?=,|$)`. -/
def blanksToBoundary : Pattern UInt16 :=
  .seq (.star isBlank) (.ahead (.alt (.char (· == comma)) .stop))

/-- `(?:W\/)?("[\x21\x23-\x7e\x80-\xff]*")[\t ]*(?=,|$)`. -/
def tagToBoundary : Pattern UInt16 :=
  .seq (.opt (.seq (.char (· == 0x57)) (.char (· == 0x2f)))) (.seq quotedTag blanksToBoundary)

/-- What follows a comma in the expression. -/
def listedTag : Pattern UInt16 := .seq (.star isBlank) tagToBoundary

/-- `/(?:^|,)[\t ]*(?:W\/)?("[\x21\x23-\x7e\x80-\xff]*")[\t ]*(?=,|$)/g`. -/
def entityTags : Pattern UInt16 := .seq (.alt .start (.char (· == comma))) listedTag

/-- `matchesSnapshotEtag`. -/
def matchesSnapshotEtag (header : Option JsString) (etag : JsString) : Bool :=
  match header with
  | none => false
  | some header =>
    if header.isEmpty then false
    else if trim header = js "*" then true
    else (groups entityTags header).any (· == etag)

/-! ### Lists of tags -/

/-- An entity tag, weak or strong. -/
structure EntityTag where
  weak : Bool
  text : JsString
  chars : ∀ u ∈ text, isTagChar u = true

/-- The quoted part of a tag. -/
def EntityTag.quoted (t : EntityTag) : JsString := quote :: t.text ++ [quote]

/-- A tag as it stands in a list. -/
def EntityTag.render (t : EntityTag) : JsString := (if t.weak then js "W/" else []) ++ t.quoted

/-- An element of a list: blanks, and a tag between them unless the element is empty. -/
structure Element where
  before : JsString
  tag : Option EntityTag
  after : JsString
  before_blank : ∀ u ∈ before, isBlank u = true
  after_blank : ∀ u ∈ after, isBlank u = true

/-- An element as it stands in a list. -/
def Element.render (e : Element) : JsString :=
  e.before ++ (e.tag.map EntityTag.render).getD [] ++ e.after

namespace Element

theorem blanks (e : Element) : ∀ u ∈ e.before ++ e.after, isBlank u = true :=
  List.forall_mem_append.mpr ⟨e.before_blank, e.after_blank⟩

theorem render_of_none (e : Element) (h : e.tag = none) : e.render = e.before ++ e.after := by
  simp [render, h]

end Element

/-- The elements behind the first one. -/
def renderRest (elements : List Element) : JsString :=
  elements.flatMap fun e => comma :: e.render

/-- A list of elements, with commas between them. -/
def render : List Element → JsString
  | [] => []
  | e :: elements => e.render ++ renderRest elements

/-! ### One match -/

/-- The expression goes on at a comma or stops. -/
def AtBoundary (rest : JsString) : Prop := ∀ u ∈ rest.head?, u = comma

theorem atBoundary_renderRest (elements : List Element) : AtBoundary (renderRest elements) := by
  cases elements with
  | nil => nofun
  | cons e elements =>
    rintro u ⟨⟩
    rfl

theorem AtBoundary.not_blank {rest : JsString} (h : AtBoundary rest) :
    ∀ u ∈ rest.head?, isBlank u = false := by
  intro u hu
  rw [h u hu]
  rfl

/-- A tag does not start with a blank. -/
theorem exec_tagToBoundary_blank (b : Bool) {u : UInt16} (hu : isBlank u = true)
    (l captured : JsString) : exec tagToBoundary ⟨b, u :: l, captured⟩ = [] := by
  rw [isBlank, Bool.or_eq_true, beq_iff_eq, beq_iff_eq] at hu
  rcases hu with rfl | rfl <;> rfl

/-- An empty element does not match. -/
theorem exec_listedTag_empty (e : Element) (ht : e.tag = none) (b : Bool) {rest : JsString}
    (hrest : AtBoundary rest) (captured : JsString) :
    exec listedTag ⟨b, e.render ++ rest, captured⟩ = [] := by
  rw [listedTag, e.render_of_none ht,
    exec_star_seq (fun b u l hu => exec_tagToBoundary_blank b hu l captured) e.blanks
      hrest.not_blank]
  cases rest with
  | nil => rfl
  | cons u rest =>
    rw [hrest u rfl]
    rfl

/-- The blanks behind a tag match up to the boundary. -/
theorem exec_blanksToBoundary {blanks rest : JsString} (hblanks : ∀ u ∈ blanks, isBlank u = true)
    (hrest : AtBoundary rest) (captured : JsString) :
    exec blanksToBoundary ⟨false, blanks ++ rest, captured⟩ = [⟨false, rest, captured⟩] := by
  rw [blanksToBoundary, exec_star_seq (fun b u l hu => ?_) hblanks hrest.not_blank]
  · cases rest with
    | nil => rfl
    | cons u rest =>
      rw [hrest u rfl]
      rfl
  · rw [isBlank, Bool.or_eq_true, beq_iff_eq, beq_iff_eq] at hu
    rcases hu with rfl | rfl <;> rfl

/-- A quoted text matches, up to its closing quote. -/
theorem exec_quotedTag (t : EntityTag) (b : Bool) (rest captured : JsString) :
    exec quotedTag ⟨b, t.quoted ++ rest, captured⟩ = [⟨false, rest, t.quoted⟩] := by
  have hchars : exec (.seq (.star isTagChar) (.char (· == quote)))
      ⟨false, t.text ++ quote :: rest, captured⟩ = [⟨false, rest, captured⟩] := by
    rw [exec_star_seq (fun b u l hu => ?_) t.chars]
    · rfl
    · rintro u ⟨⟩
      rfl
    · rw [exec_char_cons, if_neg]
      rw [beq_iff_eq]
      rintro rfl
      cases hu
  have hquoted : t.quoted ++ rest = quote :: (t.text ++ quote :: rest) := by
    simp [EntityTag.quoted]
  rw [quotedTag, exec_group, hquoted, exec_seq, exec_char_cons, if_pos (beq_self_eq_true quote),
    List.flatMap_singleton, hchars, List.map_singleton, ← hquoted]
  simp only [List.length_append, Nat.add_sub_cancel_right, List.take_left]

/-- A tag matches, weak or strong. -/
theorem exec_tagToBoundary (t : EntityTag) (b : Bool) {blanks rest : JsString}
    (hblanks : ∀ u ∈ blanks, isBlank u = true) (hrest : AtBoundary rest) (captured : JsString) :
    exec tagToBoundary ⟨b, t.render ++ (blanks ++ rest), captured⟩ =
      [⟨false, rest, t.quoted⟩] := by
  have hquoted : ∀ b, exec (.seq quotedTag blanksToBoundary)
      ⟨b, t.quoted ++ (blanks ++ rest), captured⟩ = [⟨false, rest, t.quoted⟩] := by
    intro b
    rw [exec_seq, exec_quotedTag, List.flatMap_singleton, exec_blanksToBoundary hblanks hrest]
  cases hweak : t.weak with
  | false =>
    have hrender : t.render = t.quoted := by simp [EntityTag.render, hweak]
    have hopt : exec (.opt (.seq (.char (· == 0x57)) (.char (· == 0x2f))))
        ⟨b, t.quoted ++ (blanks ++ rest), captured⟩ =
          [⟨b, t.quoted ++ (blanks ++ rest), captured⟩] := rfl
    rw [hrender, tagToBoundary, exec_seq, hopt, List.flatMap_singleton, hquoted]
  | true =>
    have hrender : t.render = 0x57 :: 0x2f :: t.quoted := by
      simp [EntityTag.render, hweak]
      rfl
    have hopt : exec (.opt (.seq (.char (· == 0x57)) (.char (· == 0x2f))))
        ⟨b, t.render ++ (blanks ++ rest), captured⟩ =
          [⟨false, t.quoted ++ (blanks ++ rest), captured⟩,
            ⟨b, t.render ++ (blanks ++ rest), captured⟩] := by
      rw [hrender]
      rfl
    -- without its mark a weak tag does not start with a quote
    have hnone : exec (.seq quotedTag blanksToBoundary)
        ⟨b, t.render ++ (blanks ++ rest), captured⟩ = [] := by
      rw [hrender]
      rfl
    rw [tagToBoundary, exec_seq, hopt, List.flatMap_cons, List.flatMap_singleton, hquoted, hnone,
      List.append_nil]

/-- An element with a tag matches, up to the next comma. -/
theorem exec_listedTag (e : Element) {t : EntityTag} (ht : e.tag = some t) (b : Bool)
    {rest : JsString} (hrest : AtBoundary rest) (captured : JsString) :
    exec listedTag ⟨b, e.render ++ rest, captured⟩ = [⟨false, rest, t.quoted⟩] := by
  have hrender : e.render ++ rest = e.before ++ (t.render ++ (e.after ++ rest)) := by
    simp [Element.render, ht]
  have hnot : ∀ u ∈ (t.render ++ (e.after ++ rest)).head?, isBlank u = false := by
    cases hweak : t.weak <;> simp [EntityTag.render, EntityTag.quoted, hweak] <;> rfl
  rw [listedTag, hrender, exec_star_seq (fun b u l hu => exec_tagToBoundary_blank b hu l captured)
    e.before_blank hnot, exec_tagToBoundary t _ e.after_blank hrest]

/-! ### All matches -/

/-- Blanks in front of a boundary are skipped. -/
theorem groups_blanks {blanks rest : JsString} (hblanks : ∀ u ∈ blanks, isBlank u = true) :
    groups entityTags (blanks ++ rest) false = groups entityTags rest false := by
  induction blanks with
  | nil => rfl
  | cons u blanks ih =>
    obtain ⟨hu, hblanks⟩ := List.forall_mem_cons.mp hblanks
    have hnone : exec entityTags ⟨false, u :: (blanks ++ rest), []⟩ = [] := by
      rw [isBlank, Bool.or_eq_true, beq_iff_eq, beq_iff_eq] at hu
      rcases hu with rfl | rfl <;> rfl
    rw [List.cons_append, groups_skip hnone, ih hblanks]

/-- The quoted parts of the tags of a list. -/
def tags (elements : List Element) : List JsString :=
  elements.filterMap fun e => e.tag.map EntityTag.quoted

theorem tags_cons (e : Element) (elements : List Element) :
    tags (e :: elements) = (e.tag.map EntityTag.quoted).toList ++ tags elements := by
  rw [tags, List.filterMap_cons, tags]
  cases e.tag <;> rfl

/-- **From a comma on**, the matches are the tags behind it. -/
theorem groups_renderRest (elements : List Element) :
    groups entityTags (renderRest elements) false = tags elements := by
  induction elements with
  | nil => exact groups_nil rfl
  | cons e elements ih =>
    have hexec : exec entityTags ⟨false, comma :: (e.render ++ renderRest elements), []⟩ =
        exec listedTag ⟨false, e.render ++ renderRest elements, []⟩ := by
      simp [entityTags]
    have hcons : renderRest (e :: elements) = comma :: (e.render ++ renderRest elements) := by
      simp [renderRest]
    rw [hcons, tags_cons]
    cases ht : e.tag with
    | some t =>
      rw [exec_listedTag e ht false (atBoundary_renderRest elements)] at hexec
      rw [groups_hit (by rw [hexec]; rfl) (by simp [Nat.lt_succ_of_le]), ih]
      rfl
    | none =>
      rw [exec_listedTag_empty e ht false (atBoundary_renderRest elements)] at hexec
      rw [groups_skip hexec, e.render_of_none ht, groups_blanks e.blanks, ih]
      rfl

/-- **The matches in a list of tags** are the tags. -/
theorem groups_render (elements : List Element) :
    groups entityTags (render elements) = tags elements := by
  cases elements with
  | nil => exact groups_nil rfl
  | cons e elements =>
    have hrest := atBoundary_renderRest elements
    have hexec : exec entityTags ⟨true, e.render ++ renderRest elements, []⟩ =
        exec listedTag ⟨true, e.render ++ renderRest elements, []⟩ ++
          exec (.seq (.char (· == comma)) listedTag)
            ⟨true, e.render ++ renderRest elements, []⟩ := by
      simp [entityTags]
    rw [render, tags_cons]
    cases ht : e.tag with
    | some t =>
      rw [exec_listedTag e ht true hrest, List.singleton_append] at hexec
      rw [groups_hit (by rw [hexec]; rfl) ?_, groups_renderRest]
      · rfl
      · simp [Element.render, EntityTag.render, EntityTag.quoted, ht]
        omega
    | none =>
      rw [exec_listedTag_empty e ht true hrest, List.nil_append, e.render_of_none ht] at hexec
      rw [e.render_of_none ht, Option.map_none, Option.toList_none, List.nil_append,
        ← groups_renderRest elements]
      have hblanks := e.blanks
      cases hbl : e.before ++ e.after with
      | nil =>
        -- the first match may start at the comma that ends the empty element
        rw [hbl, List.nil_append] at hexec
        rw [List.nil_append]
        refine groups_congr (hexec.trans ?_)
        cases renderRest elements <;> simp [entityTags]
      | cons u blanks =>
        rw [hbl] at hexec hblanks
        have hu := hblanks u List.mem_cons_self
        have hnone : exec entityTags ⟨true, u :: (blanks ++ renderRest elements), []⟩ = [] := by
          rw [← List.cons_append, hexec]
          rw [isBlank, Bool.or_eq_true, beq_iff_eq, beq_iff_eq] at hu
          rcases hu with rfl | rfl <;> rfl
        rw [List.cons_append, groups_skip hnone,
          groups_blanks fun v hv => hblanks v (List.mem_cons_of_mem _ hv)]

/-! ### The header -/

theorem isWhiteSpace_of_isBlank {u : UInt16} (h : isBlank u = true) : isWhiteSpace u = true := by
  rw [isBlank, Bool.or_eq_true, beq_iff_eq, beq_iff_eq] at h
  rcases h with rfl | rfl <;> rfl

theorem mem_render {elements : List Element} {u : UInt16} :
    u ∈ render elements → u = comma ∨ ∃ e ∈ elements, u ∈ e.render := by
  cases elements with
  | nil => nofun
  | cons e elements =>
    simp only [render, renderRest, List.mem_append, List.mem_flatMap, List.mem_cons]
    rintro (hu | ⟨e', he', rfl | hu⟩)
    · exact Or.inr ⟨e, Or.inl rfl, hu⟩
    · exact Or.inl rfl
    · exact Or.inr ⟨e', Or.inr he', hu⟩

theorem mem_render_of_mem {elements : List Element} {e : Element} (he : e ∈ elements)
    {u : UInt16} (hu : u ∈ e.render) : u ∈ render elements := by
  cases elements with
  | nil => cases he
  | cons e' elements =>
    simp only [render, renderRest, List.mem_append, List.mem_flatMap, List.mem_cons] at he ⊢
    rcases he with rfl | he
    · exact Or.inl hu
    · exact Or.inr ⟨e, he, Or.inr hu⟩

/-- A list of tags is not `*`. -/
theorem trim_render_ne (elements : List Element) : trim (render elements) ≠ js "*" := by
  intro htrim
  have hstar : js "*" = [0x2a] := rfl
  by_cases htag : ∃ e ∈ elements, e.tag ≠ none
  · -- a tag has a quote
    obtain ⟨e, he, hne⟩ := htag
    obtain ⟨t, ht⟩ := Option.ne_none_iff_exists'.mp hne
    have hquote : quote ∈ e.render := by simp [Element.render, EntityTag.render, EntityTag.quoted, ht]
    rcases mem_trim_or_isWhiteSpace (mem_render_of_mem he hquote) with h | h
    · cases h
    · rw [htrim, hstar, List.mem_singleton] at h
      cases h
  · -- the rest of a list has no star
    have hmem : (0x2a : UInt16) ∈ render elements :=
      mem_of_mem_trim (htrim ▸ hstar ▸ List.mem_singleton_self _)
    rcases mem_render hmem with h | ⟨e, he, h⟩
    · cases h
    · have hnone : e.tag = none := not_not.mp fun hne => htag ⟨e, he, hne⟩
      rw [e.render_of_none hnone] at h
      cases e.blanks _ h

/-- **The tags that match** are the listed ones, and `*` with white space around it: whatever else a
list has, the text of another tag included, does not match. -/
theorem matchesSnapshotEtag_iff (etag : JsString) :
    (∀ elements, matchesSnapshotEtag (some (render elements)) etag = true ↔
      ∃ e ∈ elements, ∃ t, e.tag = some t ∧ t.quoted = etag) ∧
    ∀ l r, (∀ u ∈ l, isWhiteSpace u = true) → (∀ u ∈ r, isWhiteSpace u = true) →
      matchesSnapshotEtag (some (l ++ js "*" ++ r)) etag = true := by
  constructor
  · intro elements
    have htags : etag ∈ tags elements ↔ ∃ e ∈ elements, ∃ t, e.tag = some t ∧ t.quoted = etag := by
      simp [tags, List.mem_filterMap]
    rw [← htags, ← groups_render]
    by_cases hempty : (render elements).isEmpty = true
    · have hnil := List.isEmpty_iff.mp hempty
      have hnone : groups entityTags [] = [] := groups_nil rfl
      simp [matchesSnapshotEtag, hnil, hnone]
    · simp only [matchesSnapshotEtag, hempty, if_neg (trim_render_ne elements)]
      simp
  · intro l r hl hr
    have htrim : trim (l ++ js "*" ++ r) = js "*" := trim_surrounded hl hr rfl
    have hne : (l ++ js "*" ++ r).isEmpty = false := by simp [js, codeUnits]
    simp only [matchesSnapshotEtag, hne, htrim]
    rfl

/-- The list `W/"first,other", "test-etag"`. -/
def sampleElements : List Element :=
  [⟨[], some ⟨true, js "first,other", List.all_eq_true.mp (by decide +kernel)⟩, [], nofun, nofun⟩,
    ⟨js " ", some ⟨false, js "test-etag", List.all_eq_true.mp (by decide +kernel)⟩, [],
      List.all_eq_true.mp (by decide +kernel), nofun⟩]

/-- It matches its second tag, and not the text within its first one. -/
theorem matchesSnapshotEtag_iff_sample :
    matchesSnapshotEtag (some (render sampleElements)) (js "\"test-etag\"") = true ∧
      matchesSnapshotEtag (some (render sampleElements)) (js "\"other\"") = false ∧
      matchesSnapshotEtag (some (js " " ++ js "*" ++ js " ")) (js "\"other\"") = true := by
  refine ⟨((matchesSnapshotEtag_iff _).1 sampleElements).mpr ?_, ?_,
    (matchesSnapshotEtag_iff _).2 _ _ (List.all_eq_true.mp (by decide +kernel))
      (List.all_eq_true.mp (by decide +kernel))⟩
  · exact ⟨_, List.mem_cons_of_mem _ List.mem_cons_self, _, rfl, by decide⟩
  · rw [← Bool.not_eq_true, (matchesSnapshotEtag_iff _).1]
    simp only [sampleElements, List.mem_cons, List.not_mem_nil, or_false]
    rintro ⟨e, rfl | rfl, t, ⟨⟩, h⟩
    · revert h
      decide
    · revert h
      decide

end BkkCollector.Frontend.Conditional
