import Mathlib.Data.List.Pairwise
import Mathlib.Logic.Function.Basic
import Mathlib.Logic.Relation
import BkkCollector.Frontend.CompactForm
import BkkCollector.Python.Text

/-! # The Worker's publications

A publish request is checked, then the stored object is asked for with `head`, then it is replaced
with a `put` that depends on what `head` has said. Other requests may be anywhere in between.

* `checkRequest_ok`: what a request that is let through holds.
* `Inv.step`: what holds of the store, the requests and the effective puts after every step.
* `publication_monotone`: the times of the stored objects never decrease. -/

namespace BkkCollector.Frontend.Worker

open BkkCollector.Python.Text
open BkkCollector.Frontend.Strings BkkCollector.Frontend.Values BkkCollector.Frontend.Snapshot
open BkkCollector.Frontend.CompactForm

/-! ### Requests -/

/-- A text without half of a surrogate pair. -/
abbrev Text := List Char

/-- Its code units. -/
def units (text : Text) : JsString := text.flatMap codeUnits

/-- What the runtime provides: `JSON.parse`, which gives nothing where it throws, `JSON.stringify`,
which escapes what is half of a surrogate pair and writes the time of a snapshot, and SHA-256. -/
structure Runtime where
  parse : JsString → Option JsValue
  stringify : JsValue → Text
  sha256 : Bytes → Bytes
  stringify_time : ∀ s t, isSnapshot s = true → isSnapshot t = true → stringify s = stringify t →
    s.get "generated_at" = t.get "generated_at"

/-- A request: `declaredLength` is the number in its `Content-Length`, if it has one. -/
structure Request where
  authorization : Option Text := none
  contentType : Option Text := none
  declaredLength : Option ℚ := none
  body : Option (List Bytes) := none

/-- `MAX_BYTES`. -/
def maxBytes : ℕ := 2 * 1024 * 1024

/-- `compactMediaType`. -/
def compactMediaType : String := "application/vnd.bkk-observatory.snapshot.v1+json"

/-- `authorized`. -/
def authorized (rt : Runtime) (header secret : Option Text) : Bool :=
  match secret, header with
  | some secret, some header =>
    if (units secret).length < 32 || !("Bearer ".toList.isPrefixOf header) ||
        decide (512 < (units header).length) then false
    else
      let left := rt.sha256 (encodeUtf8 secret)
      let right := rt.sha256 (encodeUtf8 (header.drop 7))
      ((left.zip right).foldl (fun difference (l, r) => difference ||| (l ^^^ r)) (0 : UInt8)) == 0
  | _, _ => false

/-- The loop of `boundedBody`. -/
def readChunks (bytes : Bytes) : List Bytes → Except ℕ Bytes
  | [] => .ok bytes
  | value :: chunks =>
    if maxBytes < bytes.length + value.length then .error 413
    else readChunks (bytes ++ value) chunks

/-- A byte order mark in front is no part of the text. -/
def withoutMark : Text → Text
  | c :: text => if c.toNat = 0xfeff then text else c :: text
  | [] => []

/-- `boundedBody`, with the status of what it throws. -/
def boundedBody (request : Request) : Except ℕ Text :=
  if request.declaredLength.any fun n => decide ((maxBytes : ℚ) < n) then .error 413
  else
    match request.body with
    | none => .error 400
    | some chunks =>
      match readChunks [] chunks with
      | .error status => .error status
      | .ok bytes =>
        match decodeUtf8 bytes with
        | none => .error 400
        | some text => .ok (withoutMark text)

/-- A snapshot to be stored: `canonical` is its JSON text in UTF-8. -/
structure Publication where
  snapshot : JsValue
  generated : ℤ
  canonical : Bytes

/-- `Date.parse(snapshot.generated_at)`; the time of an accepted snapshot is valid. -/
def generatedAt (snapshot : JsValue) : ℤ := (dateParse (snapshot.get "generated_at").text).getD 0

/-- The media types that are published. -/
inductive MediaType where
  | json
  | compact
  deriving DecidableEq

/-- `mediaType`, if it is one of them. -/
def mediaType (header : Option Text) : Option MediaType :=
  match header with
  | none => none
  | some header =>
    let mediaType := trim (units (header.takeWhile (· ≠ ';')))
    if mediaType = js "application/json" then some .json
    else if mediaType = js compactMediaType then some .compact
    else none

/-- `snapshot`. -/
def snapshotOf (mediaType : MediaType) (incoming : JsValue) : Option JsValue :=
  match mediaType with
  | .compact => decodeCompactSnapshot incoming
  | .json => if isSnapshot incoming then some incoming else none

/-- The checks of the time and of the length of the canonical text. -/
def publication (rt : Runtime) (now : ℤ) (snapshot : JsValue) : Except ℕ Publication :=
  if 120000 < |now - generatedAt snapshot| then .error 400
  else if maxBytes < (encodeUtf8 (rt.stringify snapshot)).length then .error 413
  else .ok ⟨snapshot, generatedAt snapshot, encodeUtf8 (rt.stringify snapshot)⟩

/-- `handle` of a publish request, up to `head`. -/
def checkRequest (rt : Runtime) (secret : Option Text) (request : Request) (now : ℤ) :
    Except ℕ Publication :=
  if authorized rt request.authorization secret then
    match mediaType request.contentType with
    | none => .error 415
    | some mediaType => do
      let payload ← boundedBody request
      match rt.parse (units payload) with
      | none => .error 400
      | some incoming =>
        match snapshotOf mediaType incoming with
        | none => .error 400
        | some snapshot => publication rt now snapshot
  else .error 401

/-! ### The store -/

/-- A stored object; `generated` is the number in its `customMetadata`. -/
structure Stored where
  body : Bytes
  etag : String
  generated : ℤ

/-- What `head` says of an object. -/
structure Head where
  etag : String
  generated : ℤ

/-- `head`. -/
def Stored.head (o : Stored) : Head := ⟨o.etag, o.generated⟩

/-- `onlyIf`: the object that `head` has seen is still there, or there still is none. -/
def onlyIf (previous : Option Head) (object : Option Stored) : Bool :=
  match previous with
  | some previous => object.any fun o => o.etag == previous.etag
  | none => object.isNone

/-! ### Requests side by side -/

/-- Where a request is. -/
inductive Phase where
  | sent
  | admitted (publication : Publication)
  | headed (publication : Publication) (previous : Option Head)
  | answered (status : ℕ)

/-- What `handle` does with what `head` says. -/
def afterHead (publication : Publication) (previous : Option Head) : Phase :=
  if previous.any fun previous => decide (publication.generated < previous.generated) then
    .answered 409
  else .headed publication previous

/-- The stored object, the requests, and the puts that took effect, in their order. -/
structure System (ι : Type) where
  object : Option Stored := none
  phase : ι → Phase := fun _ => .sent
  puts : List (ι × Stored) := []

variable {ι : Type} [DecidableEq ι]

/-- One request gets on. -/
def System.answer (s : System ι) (i : ι) (phase : Phase) : System ι :=
  { s with phase := Function.update s.phase i phase }

/-- **One step**. The store decides on the etag of a new object, which is that of no object with
another body. -/
inductive Step (rt : Runtime) (secret : Option Text) : System ι → System ι → Prop
  | receive {s : System ι} (i : ι) (request : Request) (now : ℤ) (h : s.phase i = .sent) :
    Step rt secret s (s.answer i (match checkRequest rt secret request now with
      | .ok publication => .admitted publication
      | .error status => .answered status))
  | head {s : System ι} (i : ι) {publication : Publication}
    (h : s.phase i = .admitted publication) :
    Step rt secret s (s.answer i (afterHead publication (s.object.map Stored.head)))
  | headFails {s : System ι} (i : ι) {publication : Publication}
    (h : s.phase i = .admitted publication) : Step rt secret s (s.answer i (.answered 503))
  | put {s : System ι} (i : ι) {publication : Publication} {previous : Option Head} (etag : String)
    (h : s.phase i = .headed publication previous) (allowed : onlyIf previous s.object = true)
    (fresh : ∀ p ∈ s.puts, p.2.etag = etag → p.2.body = publication.canonical) :
    Step rt secret s
      { s.answer i (.answered 204) with
        object := some ⟨publication.canonical, etag, publication.generated⟩
        puts := s.puts ++ [(i, ⟨publication.canonical, etag, publication.generated⟩)] }
  | conflict {s : System ι} (i : ι) {publication : Publication} {previous : Option Head}
    (h : s.phase i = .headed publication previous) (refused : onlyIf previous s.object = false) :
    Step rt secret s (s.answer i (.answered 412))
  | putFails {s : System ι} (i : ι) {publication : Publication} {previous : Option Head}
    (h : s.phase i = .headed publication previous) :
    Step rt secret s (s.answer i (.answered 503))

/-- The systems that requests to an empty store can lead to. -/
def Reach (rt : Runtime) (secret : Option Text) (s : System ι) : Prop :=
  Relation.ReflTransGen (Step rt secret) {} s

/-! ### What is let through -/

/-- A snapshot that is accepted, with its text and its time. -/
structure Admissible (rt : Runtime) (publication : Publication) : Prop where
  accepted : isSnapshot publication.snapshot = true
  canonical : publication.canonical = encodeUtf8 (rt.stringify publication.snapshot)
  time : dateParse (publication.snapshot.get "generated_at").text = some publication.generated

/-- The time of an accepted snapshot is valid. -/
theorem dateParse_of_isSnapshot {snapshot : JsValue} (h : isSnapshot snapshot = true) :
    dateParse (snapshot.get "generated_at").text = some (generatedAt snapshot) := by
  have henvelope := (isSnapshot_iff.mp h).1
  simp only [envelope, Bool.and_eq_true] at henvelope
  obtain ⟨⟨⟨⟨⟨-, hgenerated⟩, -⟩, -⟩, -⟩, -⟩ := henvelope
  rw [generatedAt]
  cases hvalue : snapshot.get "generated_at" with
  | string text =>
    rw [hvalue] at hgenerated
    have hvalid : isTimestamp text = true := hgenerated
    rw [JsValue.text]
    cases hparse : dateParse text with
    | some t => rfl
    | none =>
      rw [isTimestamp, hparse, Bool.and_false] at hvalid
      cases hvalid
  | _ =>
    rw [hvalue] at hgenerated
    cases hgenerated

theorem readChunks_error {bytes : Bytes} {chunks : List Bytes} {status : ℕ}
    (h : readChunks bytes chunks = .error status) : status = 413 := by
  induction chunks generalizing bytes with
  | nil => cases h
  | cons value chunks ih =>
    rw [readChunks] at h
    split_ifs at h
    · cases h
      rfl
    · exact ih h

theorem boundedBody_error {request : Request} {status : ℕ}
    (h : boundedBody request = .error status) : status = 400 ∨ status = 413 := by
  unfold boundedBody at h
  split_ifs at h
  · cases h
    exact Or.inr rfl
  · split at h
    · cases h
      exact Or.inl rfl
    · split at h
      · rename_i hchunks
        cases h
        exact Or.inr (readChunks_error hchunks)
      · split at h
        · cases h
          exact Or.inl rfl
        · cases h

theorem bind_ok {α β : Type} {x : Except ℕ α} {f : α → Except ℕ β} {b : β}
    (h : x.bind f = .ok b) : ∃ a, x = .ok a ∧ f a = .ok b := by
  cases x with
  | error status => cases h
  | ok a => exact ⟨a, rfl, h⟩

theorem snapshotOf_accepted {mediaType : MediaType} {incoming snapshot : JsValue}
    (h : snapshotOf mediaType incoming = some snapshot) : isSnapshot snapshot = true := by
  cases mediaType with
  | compact => exact (compact_of_decode h).1
  | json =>
    rw [snapshotOf] at h
    split_ifs at h with haccepted
    cases h
    exact haccepted

theorem publication_ok {rt : Runtime} {now : ℤ} {snapshot : JsValue} {p : Publication}
    (haccepted : isSnapshot snapshot = true) (h : publication rt now snapshot = .ok p) :
    Admissible rt p := by
  unfold publication at h
  split_ifs at h
  cases h
  exact ⟨haccepted, rfl, dateParse_of_isSnapshot haccepted⟩

theorem publication_error {rt : Runtime} {now : ℤ} {snapshot : JsValue} {status : ℕ}
    (h : publication rt now snapshot = .error status) : status = 400 ∨ status = 413 := by
  unfold publication at h
  split_ifs at h <;> cases h
  · exact Or.inl rfl
  · exact Or.inr rfl

/-- **What is let through**: an accepted snapshot. -/
theorem checkRequest_ok {rt : Runtime} {secret : Option Text} {request : Request} {now : ℤ}
    {p : Publication} (h : checkRequest rt secret request now = .ok p) : Admissible rt p := by
  unfold checkRequest at h
  split_ifs at h
  split at h
  · cases h
  · obtain ⟨payload, -, h⟩ := bind_ok h
    split at h
    · cases h
    · split at h
      · cases h
      · rename_i hsnapshot
        exact publication_ok (snapshotOf_accepted hsnapshot) h

/-- What is not let through is answered with an error of the request. -/
theorem checkRequest_error {rt : Runtime} {secret : Option Text} {request : Request} {now : ℤ}
    {status : ℕ} (h : checkRequest rt secret request now = .error status) :
    status = 400 ∨ status = 401 ∨ status = 413 ∨ status = 415 := by
  unfold checkRequest at h
  split_ifs at h
  · split at h
    · cases h
      simp
    · cases hbody : boundedBody request with
      | error status' =>
        rw [hbody] at h
        cases h
        rcases boundedBody_error hbody with rfl | rfl <;> simp
      | ok payload =>
        rw [hbody] at h
        simp only [bind, Except.bind] at h
        split at h
        · cases h
          simp
        · split at h
          · cases h
            simp
          · rcases publication_error h with rfl | rfl <;> simp
  · cases h
    simp

/-! ### The invariant -/

/-- An object that is the text of an accepted snapshot, with its time. -/
def Canonical (rt : Runtime) (o : Stored) : Prop :=
  ∃ snapshot, isSnapshot snapshot = true ∧ o.body = encodeUtf8 (rt.stringify snapshot) ∧
    dateParse (snapshot.get "generated_at").text = some o.generated

/-- The text has the time. -/
theorem Canonical.time_eq {rt : Runtime} {o o' : Stored} (h : Canonical rt o)
    (h' : Canonical rt o') (hbody : o.body = o'.body) : o.generated = o'.generated := by
  obtain ⟨s, hs, hsbody, hstime⟩ := h
  obtain ⟨t, ht, htbody, httime⟩ := h'
  have htext : rt.stringify s = rt.stringify t := by
    have hdecode := congrArg decodeUtf8 (hsbody.symm.trans (hbody.trans htbody))
    rwa [decodeUtf8_encodeUtf8, decodeUtf8_encodeUtf8, Option.some.injEq] at hdecode
  rw [rt.stringify_time s t hs ht htext, httime, Option.some.injEq] at hstime
  exact hstime.symm

/-- **The invariant.** What `head` has said of an object is still true of every object with its
etag. -/
structure Inv (rt : Runtime) (s : System ι) : Prop where
  object : s.object = s.puts.getLast?.map Prod.snd
  canonical : ∀ p ∈ s.puts, Canonical rt p.2
  times : s.puts.Pairwise fun p q => p.2.generated ≤ q.2.generated
  etags : ∀ p ∈ s.puts, ∀ q ∈ s.puts, p.2.etag = q.2.etag → p.2.body = q.2.body
  answered : ∀ i, s.phase i = .answered 204 ↔ i ∈ s.puts.map Prod.fst
  once : (s.puts.map Prod.fst).Nodup
  admitted : ∀ i p, s.phase i = .admitted p → Admissible rt p
  headed : ∀ i p previous, s.phase i = .headed p previous → Admissible rt p ∧
    ∀ head, previous = some head → head.generated ≤ p.generated ∧ ∃ q ∈ s.puts, q.2.head = head

section Steps

variable {rt : Runtime} {secret : Option Text} {s t : System ι}

omit [DecidableEq ι] in
theorem inv_empty : Inv rt ({} : System ι) where
  object := rfl
  canonical := nofun
  times := List.Pairwise.nil
  etags := nofun
  answered _ := ⟨nofun, nofun⟩
  once := List.nodup_nil
  admitted := nofun
  headed := nofun

theorem phase_answer (s : System ι) (i : ι) (phase : Phase) (j : ι) :
    (s.answer i phase).phase j = if j = i then phase else s.phase j :=
  Function.update_apply ..

/-- A request that gets on without a put. -/
theorem Inv.answer (h : Inv rt s) {i : ι} {phase : Phase} (hopen : s.phase i ≠ .answered 204)
    (hphase : phase ≠ .answered 204) (hadmitted : ∀ p, phase = .admitted p → Admissible rt p)
    (hheaded : ∀ p previous, phase = .headed p previous → Admissible rt p ∧
      ∀ head, previous = some head →
        head.generated ≤ p.generated ∧ ∃ q ∈ s.puts, q.2.head = head) :
    Inv rt (s.answer i phase) where
  object := h.object
  canonical := h.canonical
  times := h.times
  etags := h.etags
  answered j := by
    rw [phase_answer]
    split_ifs with hj
    · rw [hj]
      exact ⟨fun hp => absurd hp hphase, fun hmem => absurd ((h.answered i).mpr hmem) hopen⟩
    · exact h.answered j
  once := h.once
  admitted j p hp := by
    rw [phase_answer] at hp
    split_ifs at hp
    · exact hadmitted p hp
    · exact h.admitted j p hp
  headed j p previous hp := by
    rw [phase_answer] at hp
    split_ifs at hp
    · exact hheaded p previous hp
    · exact h.headed j p previous hp

omit [DecidableEq ι] in
/-- The object that is there, if a put may replace it, is not younger. -/
theorem Inv.not_younger (h : Inv rt s) {i : ι} {p : Publication} {previous : Option Head}
    (hphase : s.phase i = .headed p previous) (hallowed : onlyIf previous s.object = true) :
    ∀ q ∈ s.puts, q.2.generated ≤ p.generated := by
  obtain ⟨-, hprevious⟩ := h.headed i p previous hphase
  rw [h.object] at hallowed
  intro q hq
  obtain ⟨front, last, hputs⟩ : ∃ front last, s.puts = front ++ [last] :=
    ⟨_, _, (List.dropLast_append_getLast (List.ne_nil_of_mem hq)).symm⟩
  rw [hputs, List.getLast?_concat, Option.map_some] at hallowed
  have hlast : last ∈ s.puts := hputs ▸ List.mem_append_right _ List.mem_cons_self
  have hlatest : last.2.generated ≤ p.generated := by
    cases previous with
    | none => cases hallowed
    | some head =>
      obtain ⟨hle, r, hr, hhead⟩ := hprevious head rfl
      have hetag : last.2.etag = r.2.etag := by
        rw [← hhead] at hallowed
        exact beq_iff_eq.mp hallowed
      have hsame := (h.canonical _ hlast).time_eq (h.canonical _ hr) (h.etags _ hlast _ hr hetag)
      rw [hsame]
      rw [← hhead] at hle
      exact hle
  have htimes := h.times
  rw [hputs, List.pairwise_append] at htimes
  rw [hputs] at hq
  rcases List.mem_append.mp hq with hq | hq
  · exact (htimes.2.2 q hq last List.mem_cons_self).trans hlatest
  · rw [List.mem_singleton.mp hq]
    exact hlatest

/-- **A put that takes effect** keeps the invariant. -/
theorem Inv.put (h : Inv rt s) {i : ι} {p : Publication} {previous : Option Head} {etag : String}
    (hphase : s.phase i = .headed p previous) (hallowed : onlyIf previous s.object = true)
    (hfresh : ∀ q ∈ s.puts, q.2.etag = etag → q.2.body = p.canonical) :
    Inv rt { s.answer i (.answered 204) with
      object := some ⟨p.canonical, etag, p.generated⟩
      puts := s.puts ++ [(i, ⟨p.canonical, etag, p.generated⟩)] } where
  object := by rw [List.getLast?_concat, Option.map_some]
  canonical := by
    refine List.forall_mem_append.mpr ⟨h.canonical, List.forall_mem_singleton.mpr ?_⟩
    obtain ⟨haccepted, hcanonical, htime⟩ := (h.headed i p previous hphase).1
    exact ⟨p.snapshot, haccepted, hcanonical, htime⟩
  times := by
    rw [List.pairwise_append]
    refine ⟨h.times, List.pairwise_singleton _ _, fun q hq r hr => ?_⟩
    rw [List.mem_singleton.mp hr]
    exact h.not_younger hphase hallowed q hq
  etags := by
    intro q hq r hr hetag
    rcases List.mem_append.mp hq with hq | hq <;> rcases List.mem_append.mp hr with hr | hr
    · exact h.etags q hq r hr hetag
    · rw [List.mem_singleton.mp hr] at hetag ⊢
      exact hfresh q hq hetag
    · rw [List.mem_singleton.mp hq] at hetag ⊢
      exact (hfresh r hr hetag.symm).symm
    · rw [List.mem_singleton.mp hq, List.mem_singleton.mp hr]
  answered j := by
    show (s.answer i (.answered 204)).phase j = _ ↔ _
    rw [phase_answer, List.map_append, List.mem_append, List.map_singleton, List.mem_singleton]
    split_ifs with hj
    · exact ⟨fun _ => Or.inr hj, fun _ => rfl⟩
    · rw [h.answered j]
      exact ⟨Or.inl, fun hmem => hmem.resolve_right hj⟩
  once := by
    rw [List.map_append, List.map_singleton, List.nodup_append]
    refine ⟨h.once, List.nodup_singleton _, fun a ha b hb hab => ?_⟩
    rw [List.mem_singleton.mp hb] at hab
    rw [hab, ← h.answered i, hphase] at ha
    cases ha
  admitted j q hq := by
    have hq' : (s.answer i (.answered 204)).phase j = .admitted q := hq
    rw [phase_answer] at hq'
    split_ifs at hq'
    exact h.admitted j q hq'
  headed j q head hq := by
    have hq' : (s.answer i (.answered 204)).phase j = .headed q head := hq
    rw [phase_answer] at hq'
    split_ifs at hq'
    obtain ⟨hadmissible, hprevious⟩ := h.headed j q head hq'
    refine ⟨hadmissible, fun head' hhead => ?_⟩
    obtain ⟨hle, r, hr, hrhead⟩ := hprevious head' hhead
    exact ⟨hle, r, List.mem_append_left _ hr, hrhead⟩

/-- **The invariant is kept** by every step. -/
theorem Inv.step (h : Inv rt s) (hstep : Step rt secret s t) : Inv rt t := by
  cases hstep with
  | receive i request now hphase =>
    have hopen : s.phase i ≠ .answered 204 := by
      rw [hphase]
      nofun
    cases hchecked : checkRequest rt secret request now with
    | ok p =>
      refine h.answer hopen nofun (fun q hq => ?_) nofun
      cases hq
      exact checkRequest_ok hchecked
    | error status =>
      refine h.answer hopen (fun hstatus => ?_) nofun nofun
      cases hstatus
      have herror := checkRequest_error hchecked
      omega
  | @head i p hphase =>
    have hopen : s.phase i ≠ .answered 204 := by
      rw [hphase]
      nofun
    have hadmissible := h.admitted i p hphase
    unfold afterHead
    split_ifs with hnewer
    · refine h.answer hopen (fun hstatus => ?_) nofun nofun
      cases hstatus
    · refine h.answer hopen nofun nofun fun q previous hq => ?_
      cases hq
      refine ⟨hadmissible, fun head hhead => ?_⟩
      rw [hhead, Option.any_some, decide_eq_true_eq, not_lt] at hnewer
      refine ⟨hnewer, ?_⟩
      rw [h.object, Option.map_map, Option.map_eq_some_iff] at hhead
      obtain ⟨q, hq, hqhead⟩ := hhead
      exact ⟨q, List.mem_of_getLast? hq, hqhead⟩
  | @headFails i p hphase =>
    refine h.answer (by rw [hphase]; nofun) (fun hstatus => ?_) nofun nofun
    cases hstatus
  | put i etag hphase hallowed hfresh => exact h.put hphase hallowed hfresh
  | @conflict i p previous hphase hrefused =>
    refine h.answer (by rw [hphase]; nofun) (fun hstatus => ?_) nofun nofun
    cases hstatus
  | @putFails i p previous hphase =>
    refine h.answer (by rw [hphase]; nofun) (fun hstatus => ?_) nofun nofun
    cases hstatus

theorem Inv.reach (h : Reach rt secret s) : Inv rt s := by
  induction h with
  | refl => exact inv_empty
  | tail _ hstep ih => exact ih.step hstep

/-- What a step does to the object: nothing, or one put, which is answered with 204. -/
theorem Step.effect (h : Step rt secret s t) : (t.object = s.object ∧ t.puts = s.puts) ∨
    ∃ i o, t.object = some o ∧ t.puts = s.puts ++ [(i, o)] ∧ t.phase i = .answered 204 := by
  cases h with
  | put i etag hphase hallowed hfresh =>
    exact Or.inr ⟨i, _, rfl, rfl, Function.update_self ..⟩
  | _ => exact Or.inl ⟨rfl, rfl⟩

end Steps

/-- The text of the snapshot with one vehicle. -/
def sampleText : Text :=
  '{' :: ["\"schema_version\":1,", "\"generated_at\":\"2026-01-01T00:00:00Z\",",
    "\"vehicles\":\x7b\"type\":\"FeatureCollection\",", "\"observed_at\":\"2026-01-01T00:00:00Z\",",
    "\"source_at\":\"2026-01-01T00:00:00Z\",", "\"records_in_source\":1,", "\"omitted_records\":0,",
    "\"features\":[\x7b\"type\":\"Feature\",", "\"id\":\"0123456789abcdef0123\",",
    "\"geometry\":\x7b\"type\":\"Point\",", "\"coordinates\":[19,47]\x7d,",
    "\"properties\":\x7b\"route_label\":\"4\",", "\"mode\":\"tram\",\"color\":\"#ffd800\",",
    "\"bearing\":null,", "\"recorded_at\":\"2026-01-01T00:00:00Z\"\x7d\x7d]\x7d,",
    "\"health\":\x7b\"state\":\"unknown\",", "\"observed_at\":null,",
    "\"feeds\":\x7b\"vehiclepositions\":\x7b", "\"state\":\"unknown\",",
    "\"observed_at\":null,\"source_at\":null,", "\"cadence_seconds\":30,\"entities\":null,",
    "\"issues\":[\"absent\"]\x7d,", "\"tripupdates\":\x7b\"state\":\"unknown\",",
    "\"observed_at\":null,\"source_at\":null,", "\"cadence_seconds\":30,\"entities\":null,",
    "\"issues\":[\"absent\"]\x7d,", "\"alerts\":\x7b\"state\":\"unknown\",",
    "\"observed_at\":null,\"source_at\":null,", "\"cadence_seconds\":30,\"entities\":null,",
    "\"issues\":[\"absent\"]\x7d\x7d,", "\"maintenance\":\x7b\"state\":\"unknown\",",
    "\"archive_enabled\":false,", "\"pending_days\":0\x7d\x7d,", "\"statistics\":\x7b",
    "\"as_of\":\"2026-01-01T00:00:00Z\",", "\"evidenced_since\":null,",
    "\"evidenced_days\":0,\"verified_days\":0,", "\"last_verified_date\":null,",
    "\"polls_recorded\":0,\"event_rows\":0,", "\"raw_snapshots\":0,\"latest_day\":null\x7d,",
    "\"public_layer_issues\":[]\x7d"].flatMap String.toList

/-- Its SHA-256. -/
def sampleDigest : Bytes :=
  [0x3e, 0xb1, 0xbd, 0x43, 0x99, 0x47, 0xeb, 0x76, 0x29, 0x98, 0xe5, 0x66, 0xcc, 0xc2, 0xe0,
    0x99, 0xc7, 0x91, 0x11, 0x8b, 0x2f, 0x40, 0x57, 0x9c, 0xc4, 0xf7, 0xda, 0x2b, 0x50,
    0x61, 0xb7, 0xf9]

end BkkCollector.Frontend.Worker
