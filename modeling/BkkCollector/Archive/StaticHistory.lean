import BkkCollector.Archive.StaticGtfs
import BkkCollector.Logic.Threads

/-! # The history of static checks

`append_jsonl` writes its line behind whatever the file holds. A line that a kill or a full disk cut
off stays there without its line end, and the next line continues it; cut off within a character, it
makes the file unreadable.

* `keeps_appendHistory`: one append, interrupted or not.
* `historyKept`: in runs without such a cut, every event whose append returned is read back.
* `not_historyKept`: a cut line swallows the next event, a cut character the whole history.
-/

namespace BkkCollector.Archive.StaticHistory

open BkkCollector.Logic.Program BkkCollector.Logic.Threads BkkCollector.Logic.Lines
open BkkCollector.Python.Objects BkkCollector.Python.Documents BkkCollector.Python.Text
open BkkCollector.Storage.AtomicIo BkkCollector.Storage.Jsonl BkkCollector.Archive.StaticGtfs
open BkkCollector.Archive.DataDir (Path)

/-! ### Runs -/

/-- What a history file holds before its last bytes, which are those of `line`. -/
def before (line : List Char) (s : StaticStore) : Bytes :=
  (s.history.getD []).take ((s.history.getD []).length - (encodeUtf8 line).length)

/-- A step that leaves the lines of the history apart: an interrupted append stops between two
characters, and an append that returns found the file empty or ending with a newline. -/
def Clean (json : JsonModule) : StaticOp → Choice → StaticStore → Prop
  | .append (.write line), .fault n, _ => (decodeUtf8 (line.take n)).isSome = true
  | .appended event, _, s =>
    match jsonLine json event with
    | .ok line => AtLineStart 10 (before line s)
    | .error _ => True
  | _, _, _ => True

instance (json : JsonModule) (op : StaticOp) (c : Choice) (s : StaticStore) :
    Decidable (Clean json op c s) := by
  unfold Clean
  split
  · infer_instance
  · split <;> infer_instance
  · infer_instance

/-- The calls of the maintenance process on the store. -/
inductive StaticCall (t : StaticTools) : StaticProg Unit → Prop
  | check (response : Except PyError Bytes) (nowTs : ℚ) :
      StaticCall t ((check t response nowTs).bind fun _ => .pure ())
  | migrate : StaticCall t ((migrateLegacyArchives t).bind fun _ => .pure ())

/-- The maintenance process: one call after the other, killed at any time and started again. -/
def staticRules (t : StaticTools) (admits : StaticOp → Choice → StaticStore → Prop) :
    Rules StaticStore StaticOp Choice PyError Unit Unit Unit where
  starts _ _ p := StaticCall t p
  admits _ := admits
  finish _ _ s := s
  process _ := ()
  kill _ s := s

/-- `history()` does not raise, and returns every event whose append returned, in order. -/
def HistoryKept (json : JsonModule) (s : StaticStore) : Prop :=
  ∃ events, history json s.history = .ok events ∧ (s.appended.map sortKeys).Sublist events

/-! ### The invariant -/

/-- The file holds text without carriage returns, and the events whose append returned stand in
complete lines of it. -/
structure Holds (json : JsonModule) (text : List Char) (appended : List Doc) : Prop where
  plain : '\r' ∉ text
  events : (appended.map sortKeys).Sublist (parsedLines json text)
  truthy : ∀ event ∈ appended, (sortKeys event).truthy = true

/-- The invariant of the store. -/
def Inv (json : JsonModule) (s : StaticStore) : Prop :=
  ∃ text, s.history.getD [] = encodeUtf8 text ∧ Holds json text s.appended

variable {json : JsonModule} {t : StaticTools}

theorem Holds.append {text more : List Char} {appended : List Doc} (h : Holds json text appended)
    (hmore : '\r' ∉ more) : Holds json (text ++ more) appended where
  plain := by
    rw [List.mem_append, not_or]
    exact ⟨h.plain, hmore⟩
  events := h.events.trans (parsedLines_append text more)
  truthy := h.truthy

/-- One more event, whose line was written at the start of a line. -/
theorem Holds.line {text line : List Char} {appended : List Doc} {event : Doc}
    (h : Holds json text appended) (hstart : AtLineStart '\n' text)
    (hline : jsonLine json event = .ok line) (hevent : (sortKeys event).truthy = true) :
    Holds json (text ++ line) (appended ++ [event]) where
  plain := (h.append (loads_jsonLine hline).2.1).plain
  events := by
    rw [parsedLines_line hstart hline, List.map_append]
    exact h.events.append (List.Sublist.refl _)
  truthy := by
    intro e he
    rcases List.mem_append.mp he with he | he
    · exact h.truthy e he
    · rw [List.mem_singleton] at he
      exact he ▸ hevent

/-- **What is read back** from a file of this kind. -/
theorem Inv.kept {s : StaticStore} (h : Inv json s) : HistoryKept json s := by
  obtain ⟨text, htext, hholds⟩ := h
  cases hfile : s.history with
  | none =>
    rw [hfile] at htext
    obtain rfl := encodeUtf8_eq_nil.mp htext.symm
    exact ⟨[], by rw [hfile]; rfl, hholds.events⟩
  | some b =>
    rw [hfile] at htext
    obtain rfl : b = encodeUtf8 text := htext
    obtain ⟨values, hvalues, hsub⟩ := iterJsonl_text hholds.plain
    refine ⟨(values.map (·.2)).filter Doc.truthy, by rw [hfile, history, hvalues]; rfl, ?_⟩
    have hall : (s.appended.map sortKeys).filter Doc.truthy = s.appended.map sortKeys := by
      rw [List.filter_eq_self]
      intro d hd
      obtain ⟨event, hevent, rfl⟩ := List.mem_map.mp hd
      exact hholds.truthy event hevent
    rw [← hall]
    exact (hholds.events.trans hsub).filter _

/-! ### One append -/

/-- The contract of the store. -/
def storeContract (json : JsonModule) : Contract StaticStore StaticOp Choice :=
  Contract.alone (Clean json) fun s s' => Inv json s → Inv json s'

theorem stable_alone (P : StaticStore → Prop) : (storeContract json).Stable P := by
  rintro s _ rfl h
  exact h

theorem keeps_store : Keeps (storeContract json) (Inv json) True where
  inv := stable_alone _
  refl _ h := h
  fault _ _ _ _ := trivial

/-- A program that keeps the invariant. -/
def Keeping (json : JsonModule) {α : Type} (p : StaticProg α) : Prop :=
  ∀ s, Inv json s → Ensures (storeContract json) (fun _ => Inv json) (Raised (Inv json) True) p s

/-- A cut line, where the cut is between two characters. -/
theorem cut_line {line : List Char} {n : ℕ} (hr : '\r' ∉ line)
    (h : (decodeUtf8 ((encodeUtf8 line).take n)).isSome = true) :
    ∃ more, '\r' ∉ more ∧ (encodeUtf8 line).take n = encodeUtf8 more := by
  obtain ⟨more, hmore⟩ := Option.isSome_iff_exists.mp h
  have hbytes := decodeUtf8_eq_some hmore
  refine ⟨more, fun hmem => hr ?_, hbytes⟩
  have h13 : UInt8.ofNat ('\r' : Char).toNat ∈ encodeUtf8 more :=
    (ascii_mem_encodeUtf8 (by decide)).mpr hmem
  rw [← hbytes] at h13
  exact (ascii_mem_encodeUtf8 (by decide)).mp (List.mem_of_mem_take h13)

/-- **One append**, interrupted or not. -/
theorem keeps_appendHistory {event : Doc} (hevent : (sortKeys event).truthy = true) :
    Keeping t.json (appendHistory t event) := by
  rintro s ⟨text, htext, hholds⟩
  have hs : Inv t.json s := ⟨text, htext, hholds⟩
  refine Ensures.through (fun _ u => ∃ line, jsonLine t.json event = .ok line ∧
    u = { s with history := some (encodeUtf8 (text ++ line)) }) ?_ fun _ u hu => ?_
  · refine alone_appendJsonl ⟨fun h => h, hs, trivial⟩ (fun e _ => ⟨hs, trivial⟩)
      fun line hline => ?_
    have hr : '\r' ∉ line := (loads_jsonLine hline).2.1
    have hopened : Inv t.json { s with history := some (encodeUtf8 text) } := ⟨text, rfl, hholds⟩
    have hwritten : Inv t.json { s with history := some (encodeUtf8 (text ++ line)) } :=
      ⟨text ++ line, rfl, hholds.append hr⟩
    refine alone_appendLine ⟨fun h => h, hs, trivial⟩ (by simp only [htext]) (fun _ => hopened)
      (by simp only [Option.map_some, encodeUtf8_append]) (fun _ => hwritten) (fun n hn => ?_)
      ⟨fun h => h, hwritten, trivial⟩ ⟨line, hline, rfl⟩
    obtain ⟨more, hmore, hbytes⟩ := cut_line hr hn
    have htorn : Inv t.json
        { s with history := some (encodeUtf8 text ++ (encodeUtf8 line).take n) } := by
      refine ⟨text ++ more, ?_, hholds.append hmore⟩
      rw [hbytes, encodeUtf8_append]
      rfl
    exact ⟨fun _ => htorn, htorn, trivial⟩
  · obtain ⟨line, hline, rfl⟩ := hu
    rintro _ rfl c hc
    -- the append that returns started a line
    have hstart : AtLineStart 10 (encodeUtf8 text) := by
      simp only [storeContract, Contract.alone, Clean, hline, before, Option.getD_some,
        encodeUtf8_append, List.length_append, Nat.add_sub_cancel, List.take_left] at hc
      exact hc
    have hnew : Inv t.json { s with
        history := some (encodeUtf8 (text ++ line)), appended := s.appended ++ [event] } := by
      refine ⟨text ++ line, rfl, hholds.line ?_ hline hevent⟩
      rcases hstart with hnil | hlast
      · exact Or.inl (encodeUtf8_eq_nil.mp hnil)
      · exact Or.inr (getLast_of_encodeUtf8 hlast)
    exact ⟨fun _ => hnew, alone_pure hnew⟩

/-! ### The calls -/

/-- The history and the events whose append returned are as they were. -/
def SameHistory (s u : StaticStore) : Prop := u.history = s.history ∧ u.appended = s.appended

theorem SameHistory.refl (s : StaticStore) : SameHistory s s := ⟨rfl, rfl⟩

theorem Inv.same {s u : StaticStore} (h : Inv json s) (hs : SameHistory s u) : Inv json u := by
  obtain ⟨text, htext, hholds⟩ := h
  exact ⟨text, by rw [hs.1, htext], hs.2 ▸ hholds⟩

section Keeping

variable {α β : Type}

theorem Keeping.pure (a : α) : Keeping json (.pure a : StaticProg α) := by
  rintro s hs _ rfl
  exact hs

theorem Keeping.throw (e : PyError) : Keeping json (.throw e : StaticProg α) := by
  rintro s hs _ rfl
  exact ⟨hs, trivial⟩

theorem Keeping.lift (r : Except PyError α) : Keeping json (lift r : StaticProg α) := by
  cases r with
  | ok a => exact Keeping.pure a
  | error e => exact Keeping.throw e

theorem Keeping.bind {p : StaticProg α} {k : α → StaticProg β} (hp : Keeping json p)
    (hk : ∀ a, Keeping json (k a)) : Keeping json (p.bind k) :=
  fun s hs => (hp s hs).bind fun a u hu => hk a u hu

theorem Keeping.attempt {p : StaticProg α} (hp : Keeping json p) : Keeping json p.attempt :=
  fun s hs => Ensures.attempt ((hp s hs).mono (fun _ _ hu => hu) fun _ _ hu => hu.1)

theorem Keeping.withCleanup {p : StaticProg α} {cleanup : StaticProg Unit} (hp : Keeping json p)
    (hc : Keeping json cleanup) : Keeping json (withCleanup p cleanup) := by
  refine Keeping.bind (fun s hs => ?_) fun a => hc.bind fun _ => Keeping.pure a
  refine (hp s hs).onError (fun e u hu => ?_) fun e => stable_alone _
  exact (hc u hu.1).mono (fun _ _ hv => ⟨hv, trivial⟩) fun _ _ hv => hv

/-- A program that does not touch the history. -/
theorem Keeping.of_moves {p : StaticProg α} (hp : p.Moves SameHistory) : Keeping json p := by
  induction p with
  | pure a => exact Keeping.pure a
  | throw e => exact Keeping.throw e
  | act op eff next ih =>
    rintro s hs _ rfl c -
    obtain ⟨hsame, hnext⟩ := hp c s
    exact ⟨fun h => h.same hsame, ih c s hnext _ (hs.same hsame)⟩

end Keeping

theorem keeping_read {α : Type} {op : StaticOp} {f : StaticStore → Except PyError α} :
    Keeping json (fsRead op f) :=
  Keeping.of_moves (moves_fsRead SameHistory.refl)

theorem keeping_fsOp {op : StaticOp} {eff : StaticStore → StaticStore}
    (h : ∀ s, SameHistory s (eff s)) : Keeping json (fsOp op eff) :=
  Keeping.of_moves (moves_fsOp SameHistory.refl h)

theorem keeping_readState : Keeping json readState :=
  Keeping.of_moves (moves_readJson SameHistory.refl)

theorem keeping_writeState (state : Doc) : Keeping json (writeState state) :=
  Keeping.of_moves (moves_atomicWriteBytes SameHistory.refl SameHistory.refl SameHistory.refl
    fun _ => ⟨rfl, rfl⟩)

theorem keeping_unlinkTemporary : Keeping json
    (unlink .unlinkTemporary (·.temporary.isSome) fun s => { s with temporary := none }) :=
  Keeping.of_moves (moves_unlink SameHistory.refl fun _ => ⟨rfl, rfl⟩)

theorem truthy_staticEvent (checkedAt digest : String) (size : ℕ) (versionPath : Path)
    (changed : Bool) (source : String) (details : ZipDetails) :
    (sortKeys (staticEvent checkedAt digest size versionPath changed source details)).truthy =
      true := by
  simp only [staticEvent, sortKeys, sortMembers, Doc.truthy, Bool.not_eq_true', List.isEmpty_eq_false_iff]
  intro h
  have := congrArg List.length h
  rw [List.length_insertionSort] at this
  cases this

theorem keeping_indexArchives (names : List String) (known : List Doc) (added : ℕ) :
    Keeping t.json (indexArchives t names known added) := by
  induction names generalizing known added with
  | nil => exact Keeping.pure added
  | cons name names ih =>
    rw [indexArchives]
    split
    · exact ih known added
    · have hexamine : Keeping t.json (examineArchive t name) :=
        Keeping.bind keeping_read fun _ => Keeping.bind keeping_read fun _ => Keeping.pure _
      have hchecked : Keeping t.json (legacyCheckedAt t name) := by
        rw [legacyCheckedAt]
        split
        · exact Keeping.pure _
        · exact keeping_read
      refine Keeping.bind hexamine.attempt fun found => ?_
      cases found with
      | error e => exact ih known added
      | ok found =>
        refine Keeping.bind ?_ fun _ => ih _ _
        refine Keeping.bind hchecked fun checkedAt => Keeping.bind keeping_read fun size => ?_
        exact keeps_appendHistory (truthy_staticEvent ..)

theorem keeping_stateFromHistory : Keeping t.json (stateFromHistory t) := by
  refine Keeping.bind keeping_read fun events => ?_
  refine Keeping.bind (Keeping.lift _) fun latest => ?_
  refine Keeping.bind keeping_readState fun state => ?_
  refine Keeping.bind (Keeping.lift _) fun digest => ?_
  refine Keeping.bind (Keeping.lift _) fun versionPath => ?_
  refine Keeping.bind (Keeping.lift _) fun feedVersion => ?_
  exact Keeping.bind (Keeping.lift _) fun state => keeping_writeState state

theorem keeping_migrate : Keeping t.json (migrateLegacyArchives t) := by
  refine Keeping.bind keeping_read fun events => ?_
  refine Keeping.bind (Keeping.lift _) fun known => ?_
  refine Keeping.bind keeping_read fun names => ?_
  refine Keeping.bind (keeping_indexArchives names known 0) fun added => ?_
  split
  · exact Keeping.pure 0
  · exact Keeping.bind keeping_stateFromHistory fun _ => Keeping.pure added

theorem keeping_download (response : Except PyError Bytes) : Keeping json (download response) := by
  refine Keeping.bind keeping_read fun body => ?_
  refine Keeping.bind (keeping_fsOp fun _ => ⟨rfl, rfl⟩) fun _ => ?_
  refine Keeping.bind ?_ fun _ => keeping_fsOp SameHistory.refl
  refine Keeping.of_moves (moves_fsStep (fun s r hr => ?_) SameHistory.refl fun _ _ => ⟨rfl, rfl⟩)
  cases hr
  exact ⟨rfl, rfl⟩

theorem keeping_keepArchive (destination : Path) : Keeping json (keepArchive destination) := by
  refine Keeping.bind keeping_read fun present => ?_
  split
  · exact keeping_unlinkTemporary
  · exact keeping_fsOp fun _ => ⟨rfl, rfl⟩

theorem keeping_recordCheck (nowTs : ℚ) : Keeping t.json (recordCheck t nowTs) := by
  refine Keeping.bind keeping_read fun details => ?_
  refine Keeping.bind keeping_read fun digest => ?_
  refine Keeping.bind keeping_read fun size => ?_
  refine Keeping.bind keeping_readState fun state => ?_
  refine Keeping.bind (Keeping.lift _) fun previousHash => ?_
  refine Keeping.bind keeping_read fun events => ?_
  refine Keeping.bind (Keeping.lift _) fun matching => ?_
  refine Keeping.bind (Keeping.lift _) fun destination => ?_
  refine Keeping.bind (keeping_keepArchive destination) fun _ => ?_
  refine Keeping.bind (keeps_appendHistory (truthy_staticEvent ..)) fun _ => ?_
  exact Keeping.bind (keeping_writeState _) fun _ => Keeping.pure _

theorem keeping_check (response : Except PyError Bytes) (nowTs : ℚ) :
    Keeping t.json (check t response nowTs) := by
  refine Keeping.bind (keeping_fsOp SameHistory.refl) fun _ => ?_
  refine Keeping.withCleanup ?_ ?_
  · exact Keeping.bind (keeping_download response) fun _ => keeping_recordCheck nowTs
  · exact Keeping.of_moves (moves_ignoreMissing
      (moves_unlink SameHistory.refl fun _ => ⟨rfl, rfl⟩))

/-! ### Runs keep the history -/

/-- The rules are sound: every call keeps the invariant. -/
theorem sound (t : StaticTools) : Sound (staticRules t (Clean t.json)) (Inv t.json)
    (fun _ => storeContract t.json) (fun _ _ => Inv t.json) (fun _ => Raised (Inv t.json) True) where
  starts := by
    rintro - s _ hs (⟨response, nowTs⟩ | -)
    · exact ((keeping_check response nowTs).bind fun _ => Keeping.pure ()) s hs
    · exact (keeping_migrate.bind fun _ => Keeping.pure ()) s hs
  admits := fun _ _ _ _ _ h => h
  op_inv := fun _ _ _ hs hg => hg hs
  op_rely := fun i j _ _ _ hij => absurd rfl hij
  returns_inv := fun _ _ _ _ h => h
  returns_rely := fun i j _ _ _ hij => absurd rfl hij
  raises_inv := fun _ _ _ _ h => h.1
  raises_rely := fun i j _ _ _ hij => absurd rfl hij
  kill_inv := fun _ _ h => h
  kill_rely := fun _ _ _ _ h => absurd rfl h

/-- **The history is kept** in every run in which an interrupted append stops between two characters,
and an append that returns found the file empty or ending with a newline. -/
theorem historyKept (t : StaticTools) {s : StaticStore} (hfile : s.history = none)
    (hnone : s.appended = []) {u : Sys StaticStore StaticOp Choice PyError Unit Unit}
    (hr : Reach (staticRules t (Clean t.json)) (Sys.boot Unit s) u) : HistoryKept t.json u.state := by
  have hinv : Inv t.json s := by
    refine ⟨[], by rw [hfile]; rfl, List.not_mem_nil, ?_, ?_⟩
    · rw [hnone]
      exact List.nil_sublist _
    · rw [hnone]
      exact fun _ h => absurd h List.not_mem_nil
  exact ((sound t).reach hinv hr).1.kept

/-! ### A cut line -/

/-- The event of the archive `[1]`, whose feed version is not ASCII. -/
def firstEvent : Doc := staticEvent "2026-01-01T00:00:00+00:00" "a1" 1 ["versions", "a1.zip"] true
  staticGtfsUrl ⟨5, some "é"⟩

/-- The event of the archive `[2]`. -/
def secondEvent : Doc := staticEvent "2026-01-01T00:00:00+00:00" "b2" 1 ["versions", "b2.zip"] true
  staticGtfsUrl ⟨5, some "2"⟩

/-- The JSON text of such an event. -/
def eventText (feedVersion digest : String) : List Char :=
  ("\x7b\"changed\":true,\"checked_at\":\"2026-01-01T00:00:00+00:00\",\"feed_version\":\"" ++
    feedVersion ++ "\",\"file_count\":5,\"sha256\":\"" ++ digest ++
    "\",\"size\":1,\"source\":\"" ++ staticGtfsUrl ++
    "\",\"version\":1,\"version_path\":\"versions/" ++ digest ++ ".zip\"\x7d").toList

theorem not_mem_eventText {c : Char} (hc : c = '\n' ∨ c = '\r') {feedVersion digest : String}
    (hversion : c ∉ feedVersion.toList) (hdigest : c ∉ digest.toList) :
    c ∉ eventText feedVersion digest := by
  unfold eventText staticGtfsUrl
  simp only [String.toList_append, List.mem_append, hversion, hdigest, String.reduceToList, or_false]
  rcases hc with rfl | rfl
  · decide
  · decide

theorem eventText_newline : ∀ text ∈ [eventText "é" "a1", eventText "2" "b2"],
    '\n' ∉ text ∧ '\r' ∉ text := by
  have hfirst : ∀ c, c = '\n' ∨ c = '\r' → c ∉ "é".toList ∧ c ∉ "a1".toList := by
    simp only [String.reduceToList]
    rintro c (rfl | rfl)
    · decide
    · decide
  have hsecond : ∀ c, c = '\n' ∨ c = '\r' → c ∉ "2".toList ∧ c ∉ "b2".toList := by
    simp only [String.reduceToList]
    rintro c (rfl | rfl)
    · decide
    · decide
  intro text htext
  rcases List.mem_cons.mp htext with htext | htext
  · rw [htext]
    exact ⟨not_mem_eventText (Or.inl rfl) (hfirst _ (Or.inl rfl)).1 (hfirst _ (Or.inl rfl)).2,
      not_mem_eventText (Or.inr rfl) (hfirst _ (Or.inr rfl)).1 (hfirst _ (Or.inr rfl)).2⟩
  · rw [List.mem_singleton.mp htext]
    exact ⟨not_mem_eventText (Or.inl rfl) (hsecond _ (Or.inl rfl)).1 (hsecond _ (Or.inl rfl)).2,
      not_mem_eventText (Or.inr rfl) (hsecond _ (Or.inr rfl)).1 (hsecond _ (Or.inr rfl)).2⟩

theorem eventText_ne : eventText "2" "b2" ++ ['\n'] ≠ eventText "é" "a1" ∧
    eventText "2" "b2" ++ ['\n'] ≠ eventText "é" "a1" ++ ['\n'] := by
  constructor
  · -- the texts have the same length
    intro h
    have hlength := congrArg List.length h
    unfold eventText at hlength
    simp only [String.toList_append, List.length_append, String.length_toList,
      List.length_singleton] at hlength
    have hversion : "2".length = "é".length := by decide
    have hdigest : "b2".length = "a1".length := by decide
    omega
  · intro h
    have htexts := List.append_cancel_right h
    unfold eventText at htexts
    simp only [String.toList_append, List.append_assoc] at htexts
    have hrest := List.append_cancel_left htexts
    rw [show "2".toList = ['2'] from rfl, show "é".toList = ['é'] from rfl] at hrest
    exact absurd (List.head_eq_of_cons_eq hrest) (by decide)

/-- A `json` module that agrees with Python's on these two events. -/
def sampleJson : JsonModule where
  dumps_error d e h := by
    split_ifs at h
    cases h
    rfl
  dumps d :=
    if d = firstEvent then .ok (eventText "é" "a1")
    else if d = secondEvent then .ok (eventText "2" "b2")
    else .error ⟨.typeError, "Object is not JSON serializable"⟩
  loads text :=
    if text = eventText "é" "a1" ∨ text = eventText "é" "a1" ++ ['\n'] then
      some (sortKeys firstEvent)
    else if text = eventText "2" "b2" ∨ text = eventText "2" "b2" ++ ['\n'] then
      some (sortKeys secondEvent)
    else none
  loads_dumps d text h := by
    split_ifs at h with h1 h2
    · rw [Except.ok.injEq] at h
      rw [← h, if_pos (Or.inr rfl), h1]
    · rw [Except.ok.injEq] at h
      rw [← h, if_neg (not_or.mpr eventText_ne), if_pos (Or.inr rfl), h2]
  dumps_newline d text h := by
    split_ifs at h with h1 h2
    · rw [Except.ok.injEq] at h
      exact eventText_newline text (h ▸ List.mem_cons_self)
    · rw [Except.ok.injEq] at h
      exact eventText_newline text (h ▸ List.mem_cons_of_mem _ List.mem_cons_self)

/-- Library calls that tell the archives `[1]` and `[2]` apart. -/
def sampleTools : StaticTools where
  json := sampleJson
  validateGtfsZip b := .ok ⟨5, some (if b = [1] then "é" else "2")⟩
  sha256 b := if b = [1] then "a1" else "b2"
  isoOfDate _ := none
  isoOfTimestamp _ := "2026-01-01T00:00:00+00:00"

/-- A check that downloads an archive. -/
def sampleCheck (body : Bytes) : StaticProg Unit :=
  (check sampleTools (.ok body) 0).bind fun _ => .pure ()

/-- A check that is killed when `n` bytes of its line are written. -/
def cutStore (n : ℕ) : StaticStore :=
  ((sampleCheck [1]).after (List.replicate 15 .ok ++ [.fault n]) {}).2

/-- The check after it, which returns. -/
def laterStore (n : ℕ) : StaticStore := ((sampleCheck [2]).runWith .ok (cutStore n)).2

theorem laterStore_history :
    history sampleJson (laterStore 20).history = .ok [] ∧
      (laterStore 20).appended = [secondEvent] ∧
      history sampleJson (laterStore 74).history =
        .error ⟨.valueError, "'utf-8' codec can't decode"⟩ := by
  unfold laterStore cutStore sampleCheck sampleTools sampleJson
  simp only [eventText, staticGtfsUrl, String.toList_append, String.reduceToList]
  decide +kernel

/-- The runs that the witness and the counterexample are about. -/
theorem reach_cutStore (n : ℕ) : Reach (staticRules sampleTools fun _ _ _ => True)
    (Sys.boot Unit {}) ⟨cutStore n, fun _ => none⟩ := by
  have hstart : Reach (staticRules sampleTools fun _ _ _ => True) (Sys.boot Unit {})
      ⟨{}, Function.update (fun _ => none) () (some (sampleCheck [1]))⟩ :=
    Relation.ReflTransGen.single (Step.start () _ rfl (StaticCall.check (.ok [1]) 0))
  have hafter := hstart.after () (List.replicate 15 .ok ++ [.fault n]) (Function.update_self ..)
    (Prog.admitted_of_forall (fun _ _ _ => trivial) ..)
  exact hafter.tail (Step.kill ())

theorem reach_laterStore (n : ℕ) : Reach (staticRules sampleTools fun _ _ _ => True)
    (Sys.boot Unit {}) ⟨laterStore n, fun _ => none⟩ :=
  (reach_cutStore n).call () .ok (fun _ _ => trivial) rfl (StaticCall.check (.ok [2]) 0)

/-- **A cut line**: the event of the next check, which returned, is lost behind it; cut within a
character, it makes `history()` raise. -/
theorem not_historyKept :
    Reach (staticRules sampleTools fun _ _ _ => True) (Sys.boot Unit {})
      ⟨laterStore 20, fun _ => none⟩ ∧
    (laterStore 20).appended = [secondEvent] ∧ ¬ HistoryKept sampleJson (laterStore 20) ∧
    Reach (staticRules sampleTools fun _ _ _ => True) (Sys.boot Unit {})
      ⟨laterStore 74, fun _ => none⟩ ∧
    ¬ HistoryKept sampleJson (laterStore 74) := by
  obtain ⟨hlost, happended, hraises⟩ := laterStore_history
  refine ⟨reach_laterStore 20, happended, ?_, reach_laterStore 74, ?_⟩
  · rintro ⟨events, hevents, hsub⟩
    rw [hlost, Except.ok.injEq] at hevents
    rw [happended, ← hevents] at hsub
    exact List.cons_ne_nil _ _ (List.sublist_nil.mp hsub)
  · rintro ⟨events, hevents, -⟩
    rw [hraises] at hevents
    cases hevents

/-- What one check leaves that is not interrupted. -/
def checkedStore : StaticStore := ((sampleCheck [1]).after (List.replicate 40 .ok) {}).2

theorem admitted_check : Prog.Admitted (Clean sampleJson) (List.replicate 40 .ok) (sampleCheck [1])
    {} := by
  decide +kernel

theorem reach_checkedStore : Reach (staticRules sampleTools (Clean sampleJson)) (Sys.boot Unit {})
    ⟨checkedStore, Function.update (Function.update (fun _ => none) () (some (sampleCheck [1]))) ()
      (some ((sampleCheck [1]).after (List.replicate 40 .ok) {}).1)⟩ := by
  have hstart : Reach (staticRules sampleTools (Clean sampleJson)) (Sys.boot Unit {})
      ⟨{}, Function.update (fun _ => none) () (some (sampleCheck [1]))⟩ :=
    Relation.ReflTransGen.single (Step.start () _ rfl (StaticCall.check (.ok [1]) 0))
  exact hstart.after () (List.replicate 40 .ok) (Function.update_self ..) admitted_check

theorem appended_checkedStore : checkedStore.appended = [firstEvent] := by decide +kernel

/-- A check that is not interrupted. -/
theorem historyKept_check :
    checkedStore.appended = [firstEvent] ∧ HistoryKept sampleJson checkedStore := by
  refine ⟨appended_checkedStore, ?_⟩
  have hkept := historyKept sampleTools (s := {}) rfl rfl reach_checkedStore
  exact hkept

end BkkCollector.Archive.StaticHistory
