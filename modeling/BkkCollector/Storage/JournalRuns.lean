import BkkCollector.Logic.Threads
import BkkCollector.Storage.PollJournal

/-! # Runs of a poll journal

Between two operations a journal is a list of complete lines, and behind them nothing or what the
newest call wrote before it was interrupted. A repair starts to check at the start of a line, and
what it finds is that tail.

* `lastLineStart_eq`: the search finds the start of the last line.
* `lastLineStart_lastNewline`: so it does in any bytes.
* `checkLines_tail`: the check finds the tail, and never an interior line.
* `ensures_repair`, `ensures_appendPollJsonl`: one call, interrupted or not.
* `journal_runs`: after every call that returned the lines are the events.
-/

namespace BkkCollector.Storage.JournalRuns

open BkkCollector.Logic.Program BkkCollector.Logic.Threads BkkCollector.Logic.Lines
open BkkCollector.Python.Objects BkkCollector.Python.Documents BkkCollector.Python.Text
open BkkCollector.Storage.AtomicIo BkkCollector.Storage.Jsonl BkkCollector.Storage.PollJournal

/-! ### The last line -/

theorem rfind_spec (block : Bytes) :
    match rfind block with
    | some k => ∃ p q, block = p ++ newline :: q ∧ newline ∉ q ∧ p.length = k
    | none => newline ∉ block := by
  induction block with
  | nil => exact List.not_mem_nil
  | cons a block ih =>
    rw [rfind]
    cases hfind : rfind block with
    | some k =>
      rw [hfind] at ih
      obtain ⟨p, q, rfl, hq, rfl⟩ := ih
      exact ⟨a :: p, q, rfl, hq, rfl⟩
    | none =>
      rw [hfind] at ih
      by_cases ha : a = newline
      · subst ha
        simp only [if_true]
        exact ⟨[], block, rfl, ih, rfl⟩
      · simp only [if_neg ha]
        rw [List.mem_cons, not_or]
        exact ⟨Ne.symm ha, ih⟩

/-- The search finds the end of the last complete line. -/
theorem searchBack_eq (blockSize : ℕ) (hpos : 0 < blockSize) (b : Bytes) (stop : ℕ) :
    searchBack blockSize hpos b stop = (split newline (b.take stop)).1.flatten.length := by
  induction stop using Nat.strong_induction_on with
  | _ stop ih =>
    rw [searchBack]
    by_cases hstop : stop = 0
    · rw [if_pos hstop, hstop]
      rfl
    · rw [if_neg hstop]
      have htake : b.take stop = b.take (stop - blockSize) ++
          (b.drop (stop - blockSize)).take (stop - (stop - blockSize)) := by
        rw [← List.take_add]
        congr 1
        omega
      have hspec := rfind_spec ((b.drop (stop - blockSize)).take (stop - (stop - blockSize)))
      dsimp only
      cases hfind : rfind ((b.drop (stop - blockSize)).take (stop - (stop - blockSize))) with
      | some k =>
        rw [hfind] at hspec
        obtain ⟨p, q, hblock, hq, hk⟩ := hspec
        have hlen : (b.take (stop - blockSize)).length = stop - blockSize := by
          have hne : (b.drop (stop - blockSize)).take (stop - (stop - blockSize)) ≠ [] := by
            rw [hblock]
            simp
          rw [List.length_take]
          by_contra hlt
          apply hne
          rw [List.drop_eq_nil_of_le (by omega), List.take_nil]
        rw [htake, hblock, ← List.append_assoc, length_lines_of_last hq, List.length_append, hlen, hk]
      | none =>
        rw [hfind] at hspec
        simp only
        rw [ih (stop - blockSize) (by omega), htake, lines_append_of_not_mem hspec]

/-- **The start of the last line** of a journal with complete lines `ls` and a tail: behind the lines
if there is a tail, otherwise behind all lines but the last. -/
theorem lastLineStart_eq {ls : List Bytes} {tail : Bytes} (hls : ∀ l ∈ ls, IsLine newline l)
    (htail : newline ∉ tail) : ∃ k ≤ ls.length,
      lastLineStart (ls.flatten ++ tail) (ls.flatten ++ tail).length = (ls.take k).flatten.length := by
  rw [lastLineStart, searchBack_eq]
  have hsplit := split_flatten hls tail
  rw [split_of_not_mem htail, List.append_nil] at hsplit
  split_ifs with hlast
  · -- the journal ends with a newline, so there is no tail
    obtain ⟨hne, hlast⟩ := hlast
    have hget : (ls.flatten ++ tail).getLast? = some newline := by
      rw [List.getLast?_eq_getElem?]
      exact hlast
    have hnil : tail = [] := by
      have := rest_of_atLineStart (Or.inr hget)
      rwa [hsplit] at this
    subst hnil
    rcases List.eq_nil_or_concat ls with rfl | ⟨init, l, rfl⟩
    · exact absurd rfl hne
    · rw [List.concat_eq_append] at hls ⊢
      obtain ⟨p, hp, rfl⟩ := hls l (List.mem_append_right _ List.mem_cons_self)
      refine ⟨init.length, by rw [List.length_append]; omega, ?_⟩
      have hbytes : (init ++ [p ++ [newline]]).flatten ++ [] = init.flatten ++ p ++ [newline] := by
        simp
      have htake : (init.flatten ++ p ++ [newline]).take ((init.flatten ++ p ++ [newline]).length - 1) =
          init.flatten ++ p := by
        rw [← List.dropLast_eq_take, List.dropLast_concat]
      have hinit := split_flatten (fun l hl => hls l (List.mem_append_left _ hl)) p
      rw [split_of_not_mem hp, List.append_nil] at hinit
      rw [hbytes, htake, hinit, List.take_left]
  · refine ⟨ls.length, le_rfl, ?_⟩
    rw [List.take_length, List.take_length, hsplit]

/-- A journal without its final separator, if it has one. -/
def withoutSeparator (b : Bytes) : Bytes := if b.getLast? = some newline then b.dropLast else b

/-- **The search finds the last line**, a final separator ignored: it starts behind the last of the
other newlines, or at the start of the journal if there is none. -/
theorem lastLineStart_lastNewline (b : Bytes) :
    (∃ p q, withoutSeparator b = p ++ newline :: q ∧ newline ∉ q ∧
        lastLineStart b b.length = p.length + 1) ∨
      newline ∉ withoutSeparator b ∧ lastLineStart b b.length = 0 := by
  have htake : b.take (if b.length ≠ 0 ∧ b[b.length - 1]? = some newline then b.length - 1
      else b.length) = withoutSeparator b := by
    rw [withoutSeparator, List.getLast?_eq_getElem?]
    by_cases hlast : b[b.length - 1]? = some newline
    · have hne : b.length ≠ 0 := by
        intro hzero
        rw [List.length_eq_zero_iff.mp hzero] at hlast
        cases hlast
      rw [if_pos ⟨hne, hlast⟩, if_pos hlast, List.dropLast_eq_take]
    · rw [if_neg fun h => hlast h.2, if_neg hlast, List.take_length]
  rw [lastLineStart, searchBack_eq, htake]
  obtain ⟨hlines, hline, hrest⟩ := @split_sound _ _ newline (withoutSeparator b)
  rcases List.eq_nil_or_concat (split newline (withoutSeparator b)).1 with hnil | ⟨init, l, hsplit⟩
  · -- without a complete line there is no newline
    rw [hnil, List.flatten_nil, List.nil_append] at hlines
    refine Or.inr ⟨?_, by rw [hnil]; rfl⟩
    rw [hlines]
    exact hrest
  · rw [List.concat_eq_append] at hsplit
    rw [hsplit] at hlines hline ⊢
    obtain ⟨p, -, rfl⟩ := hline l (List.mem_append_right _ List.mem_cons_self)
    refine Or.inl ⟨init.flatten ++ p, (split newline (withoutSeparator b)).2, ?_, hrest, ?_⟩
    · conv_lhs => rw [hlines]
      simp
    · simp [Nat.add_assoc]

/-- A block boundary between the last two newlines. -/
example : lastLineStart (newline :: List.replicate 10 0x41 ++ [newline]) 12 = 1 := by
  decide +kernel

/-! ### The invariant -/

variable {json : JsonBytes}

/-- The complete JSON text of the event was written. -/
def complete (json : JsonBytes) (call : PollCall) : Bool :=
  match json.dumps (.dict call.event) with
  | .ok text => (encodeUtf8 text).isPrefixOf call.written
  | .error _ => false

/-- The line of an event. -/
def lineOf (json : JsonBytes) (call : PollCall) : Bytes :=
  match json.dumps (.dict call.event) with
  | .ok text => encodeUtf8 (text ++ ['\n'])
  | .error _ => []

/-- The calls whose complete JSON text was written, the oldest first. -/
def journalled (json : JsonBytes) (calls : List PollCall) : List PollCall :=
  calls.reverse.filter (complete json)

/-- The complete lines `ls` are those of the calls; what the others wrote is in a sidecar; and a
call that returned wrote its complete text. -/
structure Accounted (json : JsonBytes) (sidecars : List Bytes) (calls : List PollCall)
    (ls : List Bytes) : Prop where
  lines : ls = (journalled json calls).map (lineOf json)
  saved : ∀ call ∈ calls, complete json call = false →
    call.written = [] ∨ call.written ∈ sidecars
  returned : ∀ call ∈ calls, call.returned = true → complete json call = true

/-- **A settled journal**: its lines are those of the calls whose complete text was written, in their
order, and parse to their events; what the other calls wrote is in a sidecar; and a call that
returned wrote its complete text. -/
structure Settled (json : JsonBytes) (s : JournalFiles) : Prop where
  lines : byteLines (s.journal.getD []) = (journalled json s.calls).map (lineOf json)
  events : (byteLines (s.journal.getD [])).map json.loadsBytes =
    (journalled json s.calls).map fun call => some (sortKeys (.dict call.event))
  saved : ∀ call ∈ s.calls, complete json call = false →
    call.written = [] ∨ call.written ∈ s.sidecars
  returned : ∀ call ∈ s.calls, call.returned = true → complete json call = true

/-- Behind the lines of the calls stands nothing, or what the newest call wrote of its text. -/
inductive Tail (json : JsonBytes) (sidecars : List Bytes) :
    List PollCall → List Bytes → Bytes → Prop
  | none {calls : List PollCall} {ls : List Bytes} (h : Accounted json sidecars calls ls) :
      Tail json sidecars calls ls []
  | cut {call : PollCall} {calls : List PollCall} {ls : List Bytes} {text : List Char}
      (h : Accounted json sidecars calls ls) (dumps : json.dumps (.dict call.event) = .ok text)
      (start : call.written <+: encodeUtf8 text) (written : call.written ≠ [])
      (returned : call.returned = false) :
      Tail json sidecars (call :: calls) ls call.written

/-- The journal consists of the lines `ls` and the tail, and a checkpoint names the end of a line. -/
structure View (json : JsonBytes) (s : JournalFiles) (ls : List Bytes) (tail : Bytes) : Prop where
  content : s.journal.getD [] = ls.flatten ++ tail
  calls : Tail json s.sidecars s.calls ls tail
  checkpoint : ∀ n, checkpointSize (s.checkpoint.getD []) = some n →
    ∃ k ≤ ls.length, n = ((ls.take k).flatten.length : ℤ)

/-- Where the directory sync of a repair failed, the journal and its checkpoint are as the repair
found them. -/
def SyncSafe (s : JournalFiles) : Prop :=
  s.syncFailed = true → (s.journal, s.checkpoint) = s.found

/-- **The invariant** between two operations. -/
def Inv (json : JsonBytes) (s : JournalFiles) : Prop :=
  (∃ ls tail, View json s ls tail) ∧ SyncSafe s

theorem lineOf_spec {call : PollCall} (h : complete json call = true) :
    IsLine newline (lineOf json call) ∧
      json.loadsBytes (lineOf json call) = some (sortKeys (.dict call.event)) := by
  unfold complete at h
  cases htext : json.dumps (.dict call.event) with
  | error e =>
    rw [htext] at h
    cases h
  | ok text =>
    rw [lineOf, htext]
    obtain ⟨hnewline, -⟩ := json.dumps_newline _ _ htext
    refine ⟨⟨encodeUtf8 text, ?_, by simp [encodeUtf8_newline]⟩, json.loadsBytes_line _ _ htext⟩
    exact fun hmem => hnewline ((ascii_mem_encodeUtf8 (d := '\n') (by decide)).mp hmem)

theorem isDict_sortKeys (members : List (String × Doc)) :
    (sortKeys (.dict members)).isDict = true := by
  rw [sortKeys]
  rfl

section Lines

variable {sidecars : List Bytes} {calls : List PollCall} {ls : List Bytes} {tail : Bytes}

theorem Accounted.isLine (h : Accounted json sidecars calls ls) : ∀ l ∈ ls, IsLine newline l := by
  intro l hl
  rw [h.lines] at hl
  obtain ⟨call, hcall, rfl⟩ := List.mem_map.mp hl
  exact (lineOf_spec (List.mem_filter.mp hcall).2).1

theorem Accounted.parses (h : Accounted json sidecars calls ls) :
    ∀ l ∈ ls, (json.loadsBytes l).any Doc.isDict = true := by
  intro l hl
  rw [h.lines] at hl
  obtain ⟨call, hcall, rfl⟩ := List.mem_map.mp hl
  rw [(lineOf_spec (List.mem_filter.mp hcall).2).2]
  exact isDict_sortKeys call.event

theorem Accounted.mono {sidecars' : List Bytes} (h : Accounted json sidecars calls ls)
    (hsub : ∀ b ∈ sidecars, b ∈ sidecars') : Accounted json sidecars' calls ls where
  lines := h.lines
  saved call hcall hc := (h.saved call hcall hc).imp id (hsub _)
  returned := h.returned

/-- A call that did not write its text; what it wrote is in a sidecar. -/
theorem Accounted.cut (h : Accounted json sidecars calls ls) {call : PollCall}
    (hc : complete json call = false) (hsaved : call.written = [] ∨ call.written ∈ sidecars)
    (hreturned : call.returned = false) : Accounted json sidecars (call :: calls) ls where
  lines := by
    rw [h.lines, journalled, journalled, List.reverse_cons, List.filter_append,
      List.filter_cons_of_neg (by rw [hc]; exact Bool.false_ne_true), List.filter_nil,
      List.append_nil]
  saved c hcall hcut := by
    rcases List.mem_cons.mp hcall with rfl | hcall
    · exact hsaved
    · exact h.saved c hcall hcut
  returned c hcall hret := by
    rcases List.mem_cons.mp hcall with rfl | hcall
    · rw [hreturned] at hret
      cases hret
    · exact h.returned c hcall hret

/-- A call that wrote its text, which now stands in a complete line. -/
theorem Accounted.done (h : Accounted json sidecars calls ls) {call : PollCall}
    (hc : complete json call = true) :
    Accounted json sidecars (call :: calls) (ls ++ [lineOf json call]) where
  lines := by
    rw [h.lines, journalled, journalled, List.reverse_cons, List.filter_append,
      List.filter_cons_of_pos hc, List.filter_nil, List.map_append]
    rfl
  saved c hcall hcut := by
    rcases List.mem_cons.mp hcall with rfl | hcall
    · rw [hc] at hcut
      cases hcut
    · exact h.saved c hcall hcut
  returned c hcall hret := by
    rcases List.mem_cons.mp hcall with rfl | hcall
    · exact hc
    · exact h.returned c hcall hret

end Lines

/-- A call that wrote nothing did not write its text. -/
theorem complete_of_nil {call : PollCall} (h : call.written = []) : complete json call = false := by
  unfold complete
  cases htext : json.dumps (.dict call.event) with
  | error e => rfl
  | ok text =>
    rw [← Bool.not_eq_true, List.isPrefixOf_iff_prefix, h, List.prefix_nil, encodeUtf8_eq_nil]
    exact json.dumps_ne_nil _ _ htext

/-- Which part of its text a call wrote. -/
theorem complete_iff {call : PollCall} {text : List Char}
    (htext : json.dumps (.dict call.event) = .ok text) :
    complete json call = true ↔ encodeUtf8 text <+: call.written := by
  rw [complete, htext]
  exact List.isPrefixOf_iff_prefix

/-! ### What a repair finds -/

/-- The lines of a journal from the start of a line on. -/
theorem byteLines_drop {ls : List Bytes} {tail : Bytes} (hls : ∀ l ∈ ls, IsLine newline l)
    (htail : newline ∉ tail) (k : ℕ) :
    byteLines ((ls.flatten ++ tail).drop (ls.take k).flatten.length) =
      ls.drop k ++ if tail = [] then [] else [tail] := by
  have hdrop : (ls.flatten ++ tail).drop (ls.take k).flatten.length =
      (ls.drop k).flatten ++ tail := by
    have hflat : ls.flatten = (ls.take k).flatten ++ (ls.drop k).flatten := by
      rw [← List.flatten_append, List.take_append_drop]
    rw [hflat, List.append_assoc, List.drop_left]
  have hsplit := split_flatten (fun l hl => hls l (List.mem_of_mem_drop (i := k) hl)) tail
  rw [split_of_not_mem htail, List.append_nil] at hsplit
  rw [byteLines, hdrop, hsplit]

/-- The check passes complete lines that parse. -/
theorem checkLines_lines {ls rest : List Bytes} {size tell : ℕ}
    (hls : ∀ l ∈ ls, IsLine newline l) (hparses : ∀ l ∈ ls, (json.loadsBytes l).any Doc.isDict = true) :
    checkLines json size tell false (ls ++ rest) =
      checkLines json size (tell + ls.flatten.length) false rest := by
  induction ls generalizing tell with
  | nil => rfl
  | cons l ls ih =>
    obtain ⟨⟨p, -, rfl⟩, hlines⟩ := List.forall_mem_cons.mp hls
    obtain ⟨hl, hparses⟩ := List.forall_mem_cons.mp hparses
    have hended : ((p ++ [newline]).getLast? != some newline) = false := by
      rw [List.getLast?_concat]
      rfl
    have hlen : tell + (p ++ [newline]).length + ls.flatten.length =
        tell + ((p ++ [newline]) :: ls).flatten.length := by
      simp only [List.flatten_cons, List.length_append]
      omega
    rw [List.cons_append, checkLines, if_pos hl, hended, ih hlines hparses, hlen]

/-- What the check finds behind the complete lines. -/
def findTail (json : JsonBytes) (ls : List Bytes) (tail : Bytes) : Option (ℕ × Bytes) × Bool :=
  if tail = [] then (none, false)
  else if (json.loadsBytes tail).any Doc.isDict then (none, true)
  else (some (ls.flatten.length, tail), false)

/-- **The check** finds the tail, and never an interior line. -/
theorem checkLines_tail {ls : List Bytes} {tail : Bytes} (hls : ∀ l ∈ ls, IsLine newline l)
    (hparses : ∀ l ∈ ls, (json.loadsBytes l).any Doc.isDict = true) (htail : newline ∉ tail) (k : ℕ) :
    checkLines json (ls.flatten ++ tail).length (ls.take k).flatten.length false
      (byteLines ((ls.flatten ++ tail).drop (ls.take k).flatten.length)) =
        .ok (findTail json ls tail) := by
  rw [byteLines_drop hls htail, checkLines_lines (fun l hl => hls l (List.mem_of_mem_drop hl))
    fun l hl => hparses l (List.mem_of_mem_drop hl), ← List.length_append, ← List.flatten_append,
    List.take_append_drop, findTail]
  by_cases hnil : tail = []
  · rw [if_pos hnil, if_pos hnil]
    rfl
  · rw [if_neg hnil, if_neg hnil, checkLines]
    split_ifs with hdict hend
    · have hlast : (tail.getLast? != some newline) = true := by
        rw [bne_iff_ne]
        exact fun h => htail (List.mem_of_getLast? h)
      rw [hlast]
      rfl
    · exact absurd (List.length_append ..).symm hend
    · rfl

/-! ### One repair -/

/-- What one operation does: it keeps the invariant, and a call is only begun on a settled journal. -/
structure JournalStep (json : JsonBytes) (s t : JournalFiles) : Prop where
  inv : Inv json s → Inv json t
  begins : t.calls.length ≠ s.calls.length → Settled json s

theorem JournalStep.refl (s : JournalFiles) : JournalStep json s s :=
  ⟨fun h => h, fun h => absurd rfl h⟩

theorem JournalStep.of_inv {s t : JournalFiles} (h : Inv json t)
    (hcalls : t.calls.length = s.calls.length) : JournalStep json s t :=
  ⟨fun _ => h, fun hne => absurd hcalls hne⟩

/-- The contract of the process that writes the journal. -/
def journalContract (json : JsonBytes) : Contract JournalFiles JournalOp Choice :=
  Contract.alone (fun _ _ _ => True) (JournalStep json)

/-- Where a call raises: the invariant holds, and a repair did not find interior corruption. -/
def Raises (json : JsonBytes) (e : PyError) (s : JournalFiles) : Prop :=
  e ≠ interiorCorruption ∧ Inv json s

/-- Where a repair returns: there is no tail. -/
def Repaired (json : JsonBytes) (ls : List Bytes) (s : JournalFiles) : Prop :=
  View json s ls [] ∧ s.syncFailed = false

variable {s : JournalFiles} {ls : List Bytes} {tail : Bytes}

theorem Tail.accounted {sidecars : List Bytes} {calls : List PollCall}
    (h : Tail json sidecars calls ls tail) : ∃ older, Accounted json sidecars older ls := by
  cases h with
  | none h => exact ⟨calls, h⟩
  | @cut call calls ls text h => exact ⟨calls, h⟩

theorem Tail.of_nil {sidecars : List Bytes} {calls : List PollCall}
    (h : Tail json sidecars calls ls []) : Accounted json sidecars calls ls := by
  generalize htail : ([] : Bytes) = tail at h
  cases h with
  | none h => exact h
  | cut h dumps start written => exact absurd htail.symm written

theorem Tail.mono {sidecars sidecars' : List Bytes} {calls : List PollCall}
    (h : Tail json sidecars calls ls tail) (hsub : ∀ b ∈ sidecars, b ∈ sidecars') :
    Tail json sidecars' calls ls tail := by
  cases h with
  | none h => exact Tail.none (h.mono hsub)
  | cut h dumps start written returned => exact Tail.cut (h.mono hsub) dumps start written returned

theorem Tail.newline_not_mem {sidecars : List Bytes} {calls : List PollCall}
    (h : Tail json sidecars calls ls tail) : newline ∉ tail := by
  cases h with
  | none h => exact List.not_mem_nil
  | cut h dumps start =>
    intro hmem
    have hnot := (json.dumps_newline _ _ dumps).1
    exact hnot ((ascii_mem_encodeUtf8 (d := '\n') (by decide)).mp (start.subset hmem))

theorem Repaired.inv (h : Repaired json ls s) : Inv json s := by
  refine ⟨⟨ls, [], h.1⟩, fun hsync => ?_⟩
  rw [h.2] at hsync
  cases hsync

theorem View.inv (h : View json s ls tail) (hsync : s.syncFailed = false) : Inv json s := by
  refine ⟨⟨ls, tail, h⟩, fun hfailed => ?_⟩
  rw [hsync] at hfailed
  cases hfailed

theorem raises_io (h : Inv json s) : Raises json ioError s := by
  refine ⟨?_, h⟩
  intro he
  cases he

/-- A checkpoint at the end of the lines. -/
theorem View.checkpointed (h : View json s ls []) :
    View json { s with checkpoint := some (journalCheckpoint ls.flatten.length) } ls [] where
  content := h.content
  calls := h.calls
  checkpoint n hn := by
    have hsize : checkpointSize (journalCheckpoint ls.flatten.length) =
        some (ls.flatten.length : ℤ) := rfl
    rw [Option.getD_some, hsize, Option.some.injEq] at hn
    exact ⟨ls.length, le_rfl, by rw [List.take_length, hn]⟩

/-- Syncing a journal without a tail and writing its checkpoint. -/
theorem ensures_checkpoint (h : Repaired json ls s) :
    Ensures (journalContract json) (fun _ => Repaired json ls) (Raises json)
      (writeCheckpoint ls.flatten.length) s := by
  have hdone : Repaired json ls
      { s with checkpoint := some (journalCheckpoint ls.flatten.length) } :=
    ⟨h.1.checkpointed, h.2⟩
  exact alone_atomicWriteJson ⟨.of_inv hdone.inv rfl, hdone⟩ ⟨.refl _, raises_io h.inv⟩
    ⟨.refl _, raises_io hdone.inv⟩

theorem ensures_fsync (h : Repaired json ls s) :
    Ensures (journalContract json) (fun _ => Repaired json ls) (Raises json) (fsOp .fsync id) s :=
  alone_fsOp (fun _ => ⟨.refl _, h⟩) ⟨.refl _, raises_io h.inv⟩

/-- A repair that looks at the journal: nothing changed since it began. -/
structure Looking (json : JsonBytes) (ls : List Bytes) (tail : Bytes) (s : JournalFiles) : Prop where
  view : View json s ls tail
  journal : s.journal = some (ls.flatten ++ tail)
  sync : s.syncFailed = false
  found : s.found = (s.journal, s.checkpoint)

theorem Looking.inv (h : Looking json ls tail s) : Inv json s := h.view.inv h.sync

/-- A tail that is no object is not the whole text. -/
theorem Tail.incomplete {sidecars : List Bytes} {calls : List PollCall}
    (h : Tail json sidecars calls ls tail) (hne : tail ≠ [])
    (hdict : ¬ (json.loadsBytes tail).any Doc.isDict = true) (hmem : tail ∈ sidecars) :
    Accounted json sidecars calls ls := by
  cases h with
  | none h => exact absurd rfl hne
  | @cut call calls ls text h dumps start written returned =>
    refine h.cut ?_ (Or.inr hmem) returned
    rw [← Bool.not_eq_true, complete_iff dumps]
    intro hprefix
    have heq : call.written = encodeUtf8 text :=
      List.IsPrefix.eq_of_length_le start hprefix.length_le
    apply hdict
    rw [heq, json.loadsBytes_text _ _ dumps]
    exact isDict_sortKeys call.event

/-- A tail that is an object is the whole text, and lacks its separator. -/
theorem Tail.unterminated {sidecars : List Bytes} {calls : List PollCall}
    (h : Tail json sidecars calls ls tail) (hne : tail ≠ [])
    (hdict : (json.loadsBytes tail).any Doc.isDict = true) :
    Accounted json sidecars calls (ls ++ [tail ++ [newline]]) := by
  cases h with
  | none h => exact absurd rfl hne
  | @cut call calls ls text h dumps start written returned =>
    have heq : call.written = encodeUtf8 text := by
      by_contra hne'
      cases hd : json.loadsBytes call.written with
      | none =>
        rw [hd] at hdict
        cases hdict
      | some d =>
        have hnot := json.loadsBytes_prefix _ _ dumps _ start hne' d hd
        rw [hd, Option.any_some, hnot] at hdict
        cases hdict
    have hc : complete json call = true :=
      (complete_iff dumps).mpr (heq ▸ List.prefix_refl _)
    have hline : lineOf json call = call.written ++ [newline] := by
      rw [lineOf, dumps, heq]
      simp [encodeUtf8_newline]
    rw [← hline]
    exact h.done hc

/-- **The tail in a sidecar**: the journal and its checkpoint are as they were found, also where the
directory sync fails. -/
theorem ensures_saveTail (h : Looking json ls tail s) :
    Ensures (journalContract json) (fun _ t => Looking json ls tail t ∧ tail ∈ t.sidecars)
      (Raises json) (saveTail tail) s := by
  have hsub : ∀ b ∈ s.sidecars, b ∈ tail :: s.sidecars := fun b hb => List.mem_cons_of_mem _ hb
  have hsaved : Looking json ls tail { s with sidecars := tail :: s.sidecars } := by
    exact ⟨⟨h.view.content, h.view.calls.mono hsub, h.view.checkpoint⟩, h.journal, h.sync, h.found⟩
  refine Ensures.through (fun _ t => t = { s with sidecars := tail :: s.sidecars }) ?_
    fun _ t ht => ?_
  · exact alone_atomicWriteJson ⟨.of_inv hsaved.inv rfl, rfl⟩ ⟨.refl _, raises_io h.inv⟩
      ⟨.refl _, raises_io hsaved.inv⟩
  · subst ht
    refine alone_fsStep (fun r _ hr => ?_) (fun e he => ?_) fun n _ => ?_
    · cases hr
      exact ⟨.refl _, hsaved, List.mem_cons_self⟩
    · cases he
    · have hfailed : Inv json
          { s with sidecars := tail :: s.sidecars, syncFailed := true } :=
        ⟨⟨ls, tail, hsaved.view.content, hsaved.view.calls, hsaved.view.checkpoint⟩,
          fun _ => h.found.symm⟩
      exact ⟨.of_inv hfailed rfl, raises_io hfailed⟩

theorem View.truncated (h : View json s ls tail) (hjournal : s.journal = some (ls.flatten ++ tail))
    (hcalls : Accounted json s.sidecars s.calls ls) :
    View json { s with journal := s.journal.map (·.take ls.flatten.length) } ls [] where
  content := by
    rw [hjournal, Option.map_some, List.take_left, List.append_nil]
    rfl
  calls := Tail.none hcalls
  checkpoint := h.checkpoint

/-- **A torn tail** goes into a sidecar before it is cut off. -/
theorem ensures_detach (h : Looking json ls tail s) (hne : tail ≠ [])
    (hdict : ¬ (json.loadsBytes tail).any Doc.isDict = true) :
    Ensures (journalContract json) (fun _ => Repaired json ls) (Raises json)
      (do
        saveTail tail
        truncate ls.flatten.length
        fsOp .fsync id
        writeCheckpoint ls.flatten.length
        pure (some tail)) s := by
  refine Ensures.bind (ensures_saveTail h) fun _ t ht => ?_
  obtain ⟨ht, hmem⟩ := ht
  have hcut : Repaired json ls { t with journal := t.journal.map (·.take ls.flatten.length) } :=
    ⟨ht.view.truncated ht.journal (ht.view.calls.incomplete hne hdict hmem), ht.sync⟩
  refine Ensures.through (fun _ => Repaired json ls) ?_ fun _ u hu => ?_
  · exact alone_fsOp (fun _ => ⟨.of_inv hcut.inv rfl, hcut⟩) ⟨.refl _, raises_io ht.inv⟩
  refine Ensures.bind (ensures_fsync hu) fun _ v hv => ?_
  exact Ensures.bind (ensures_checkpoint hv) fun _ w hw => alone_pure hw

/-- **A tail without separator** gets it. -/
theorem ensures_separate (h : Looking json ls tail s) (hne : tail ≠ [])
    (hdict : (json.loadsBytes tail).any Doc.isDict = true) :
    Ensures (journalContract json) (fun _ t => ∃ ls', Repaired json ls' t) (Raises json)
      (do
        truncate (ls.flatten ++ tail).length
        fsStep .writeSeparator
          (fun s => .ok ({ s with journal := s.journal.map (· ++ [newline]) }, ()))
          fun n s => { s with journal := s.journal.map (· ++ [newline].take n) }
        fsOp .fsync id
        writeCheckpoint ((ls.flatten ++ tail).length + 1)
        pure (none : Option Bytes)) s := by
  have hsame : { s with journal := s.journal.map (·.take (ls.flatten ++ tail).length) } = s := by
    rw [h.journal, Option.map_some, List.take_length, ← h.journal]
  have hended : Repaired json (ls ++ [tail ++ [newline]])
      { s with journal := some (ls.flatten ++ tail ++ [newline]) } := by
    refine ⟨⟨by simp, Tail.none (h.view.calls.unterminated hne hdict), fun n hn => ?_⟩, h.sync⟩
    obtain ⟨k, hk, hn⟩ := h.view.checkpoint n hn
    refine ⟨k, by rw [List.length_append]; omega, ?_⟩
    rw [hn, List.take_append_of_le_length hk]
  refine Ensures.through (fun _ t => t = s) ?_ fun _ t ht => ?_
  · refine alone_fsOp (fun _ => ?_) ⟨.refl _, raises_io h.inv⟩
    rw [hsame]
    exact ⟨.refl _, rfl⟩
  subst ht
  refine Ensures.through (fun _ => Repaired json (ls ++ [tail ++ [newline]])) ?_
    fun _ u hu => ?_
  · refine alone_fsStep (fun r _ hr => ?_) (fun e he => ?_) fun n _ => ?_
    · cases hr
      dsimp only
      rw [h.journal, Option.map_some]
      exact ⟨.of_inv hended.inv rfl, hended⟩
    · cases he
    · rw [h.journal, Option.map_some]
      cases n with
      | zero =>
        rw [List.take_zero, List.append_nil, ← h.journal]
        exact ⟨.refl _, raises_io h.inv⟩
      | succ n =>
        rw [List.take_succ_cons, List.take_nil]
        exact ⟨.of_inv hended.inv rfl, raises_io hended.inv⟩
  refine Ensures.bind (ensures_fsync hu) fun _ v hv => ?_
  have hsize : (ls.flatten ++ tail).length + 1 = (ls ++ [tail ++ [newline]]).flatten.length := by
    simp [Nat.add_assoc]
  rw [hsize]
  exact Ensures.bind (ensures_checkpoint hv) fun _ w hw => alone_pure ⟨_, hw⟩

/-- **The repair** from the start of a line. -/
theorem ensures_repairFrom (h : Looking json ls tail s) (k : ℕ) :
    Ensures (journalContract json) (fun _ t => ∃ ls', Repaired json ls' t) (Raises json)
      (repairFrom json (ls.flatten ++ tail).length (ls.take k).flatten.length) s := by
  obtain ⟨older, hcalls⟩ := h.view.calls.accounted
  have hcheck := checkLines_tail hcalls.isLine hcalls.parses h.view.calls.newline_not_mem k
  refine Ensures.through (fun found t => found = findTail json ls tail ∧ t = s) ?_
    fun found t ht => ?_
  · refine alone_fsRead (.refl _) (fun found hfound => ?_) (fun e he => ?_) (raises_io h.inv)
    · rw [h.journal] at hfound
      simp only [hcheck, Except.ok.injEq] at hfound
      exact ⟨hfound.symm, rfl⟩
    · rw [h.journal] at he
      simp only [hcheck] at he
      cases he
  · obtain ⟨rfl, rfl⟩ := ht
    unfold findTail
    split_ifs with hnil hdict
    · subst hnil
      rw [List.append_nil]
      exact Ensures.bind (ensures_checkpoint ⟨h.view, h.sync⟩) fun _ u hu => alone_pure ⟨ls, hu⟩
    · exact ensures_separate h hnil hdict
    · exact (ensures_detach h hnil hdict).mono (fun _ u hu => ⟨ls, hu⟩) fun _ _ hu => hu

/-- A checkpoint within the journal names the end of a line. -/
theorem provenSize_eq {checkpoint : Row} {size valid : ℕ}
    (hcp : ∀ n, checkpointSize checkpoint = some n →
      ∃ k ≤ ls.length, n = ((ls.take k).flatten.length : ℤ))
    (h : provenSize checkpoint size = some valid) : ∃ k, valid = (ls.take k).flatten.length := by
  unfold provenSize at h
  cases hn : checkpointSize checkpoint with
  | none =>
    rw [hn] at h
    cases h
  | some n =>
    rw [hn] at h
    simp only at h
    split_ifs at h
    obtain ⟨k, -, hk⟩ := hcp n hn
    rw [Option.some.injEq] at h
    exact ⟨k, by omega⟩

/-- A checkpoint that names the whole journal leaves no tail. -/
theorem tail_of_proven {k : ℕ} (h : (ls.take k).flatten.length = (ls.flatten ++ tail).length) :
    tail = [] := by
  have hflat : ls.flatten.length = (ls.take k).flatten.length + (ls.drop k).flatten.length := by
    rw [← List.length_append, ← List.flatten_append, List.take_append_drop]
  rw [List.length_append] at h
  exact List.length_eq_zero_iff.mp (by omega)

/-- The repair of a journal that is there. -/
theorem ensures_repairPresent (h : Looking json ls tail s) :
    Ensures (journalContract json) (fun _ t => ∃ ls', Repaired json ls' t) (Raises json)
      (do
        let size ← onJournal .stat fun b => .ok b.length
        let checkpoint ← readJson .readCheckpoint [] fun s => s.checkpoint.getD []
        match provenSize checkpoint size with
        | some valid => if valid = size then pure none else repairFrom json size valid
        | none =>
          let start ← onJournal .lastLine fun b => .ok (lastLineStart b size)
          repairFrom json size start) s := by
  obtain ⟨older, hcalls⟩ := h.view.calls.accounted
  refine Ensures.through (fun size t => size = (ls.flatten ++ tail).length ∧ t = s) ?_
    fun size t ht => ?_
  · refine alone_fsRead (.refl _) (fun size hsize => ?_) (fun e he => ?_) (raises_io h.inv)
    · rw [h.journal] at hsize
      cases hsize
      exact ⟨rfl, rfl⟩
    · rw [h.journal] at he
      cases he
  obtain ⟨rfl, rfl⟩ := ht
  refine Ensures.through (fun checkpoint u => u = t ∧
    ∀ n, checkpointSize checkpoint = some n →
      ∃ k ≤ ls.length, n = ((ls.take k).flatten.length : ℤ)) ?_ fun checkpoint u hu => ?_
  · refine alone_readJson (.refl _) ⟨rfl, h.view.checkpoint⟩ ⟨rfl, fun n hn => ?_⟩
    cases hn
  obtain ⟨rfl, hcp⟩ := hu
  cases hproven : provenSize checkpoint (ls.flatten ++ tail).length with
  | some valid =>
    obtain ⟨k, rfl⟩ := provenSize_eq hcp hproven
    simp only
    split_ifs with hall
    · obtain rfl := tail_of_proven hall
      exact alone_pure ⟨ls, h.view, h.sync⟩
    · exact ensures_repairFrom h k
  | none =>
    refine Ensures.through (fun start v => v = u ∧ ∃ k, start = (ls.take k).flatten.length) ?_
      fun start v hv => ?_
    · refine alone_fsRead (.refl _) (fun start hstart => ?_) (fun e he => ?_) (raises_io h.inv)
      · rw [h.journal] at hstart
        cases hstart
        obtain ⟨k, -, hk⟩ := lastLineStart_eq hcalls.isLine h.view.calls.newline_not_mem
        exact ⟨rfl, k, hk⟩
      · rw [h.journal] at he
        cases he
    · obtain ⟨rfl, k, rfl⟩ := hv
      exact ensures_repairFrom h k

/-- **One repair**, interrupted or not. -/
theorem ensures_repair (h : Inv json s) :
    Ensures (journalContract json) (fun _ t => ∃ ls, Repaired json ls t) (Raises json)
      (repairJsonlTail json) s := by
  obtain ⟨⟨ls, tail, hview⟩, -⟩ := h
  have hfresh : View json { s with found := (s.journal, s.checkpoint), syncFailed := false } ls tail :=
    ⟨hview.content, hview.calls, hview.checkpoint⟩
  have hinv := hfresh.inv rfl
  unfold repairJsonlTail beginRepair
  refine Ensures.through (fun present t =>
    t = { s with found := (s.journal, s.checkpoint), syncFailed := false } ∧
      present = s.journal.isSome) ?_ fun present t ht => ?_
  · refine alone_fsStep (fun r _ hr => ?_) (fun e he => ?_) fun n _ => ?_
    · cases hr
      exact ⟨.of_inv hinv rfl, rfl, rfl⟩
    · cases he
    · exact ⟨.of_inv hinv rfl, raises_io hinv⟩
  · obtain ⟨rfl, rfl⟩ := ht
    cases hjournal : s.journal with
    | none =>
      have hcontent := hview.content
      rw [hjournal] at hcontent
      have hnil : tail = [] := (List.append_eq_nil_iff.mp hcontent.symm).2
      subst hnil
      rw [hjournal] at hfresh
      exact alone_pure ⟨ls, hfresh, rfl⟩
    | some b =>
      have hlooking : Looking json ls tail
          { s with found := (s.journal, s.checkpoint), syncFailed := false } := by
        refine ⟨hfresh, ?_, rfl, rfl⟩
        have hcontent := hview.content
        rw [hjournal] at hcontent
        exact hjournal.trans (congrArg some hcontent)
      rw [hjournal] at hlooking
      exact ensures_repairPresent hlooking

/-! ### One call -/

/-- A journal without a tail is settled. -/
theorem View.settled (h : View json s ls []) : Settled json s := by
  have hcalls := h.calls.of_nil
  have hlines : byteLines (s.journal.getD []) = ls := by
    have hsplit := split_flatten hcalls.isLine []
    rw [split_of_not_mem List.not_mem_nil] at hsplit
    rw [byteLines, h.content, hsplit, if_pos rfl, List.append_nil, List.append_nil]
  refine ⟨hlines.trans hcalls.lines, ?_, hcalls.saved, hcalls.returned⟩
  rw [hlines, hcalls.lines, List.map_map]
  refine List.map_congr_left fun call hcall => ?_
  exact (lineOf_spec (List.mem_filter.mp hcall).2).2

theorem alone_note {op : JournalOp} {f : JournalFiles → JournalFiles} {post : Unit → JournalFiles → Prop}
    (hstep : JournalStep json s (f s)) (hpost : post () (f s)) :
    Ensures (journalContract json) post (Raises json) (note op f) s := by
  rintro _ rfl c -
  exact ⟨hstep, alone_pure hpost⟩

section Append

variable {event : List (String × Doc)} {older : List PollCall} {text : List Char}

/-- The state where a call has written `b` behind the lines. -/
def written (s : JournalFiles) (ls : List Bytes) (event : List (String × Doc)) (b : Bytes) :
    JournalFiles :=
  { s with
    journal := some (ls.flatten ++ b), calls := { event := event, written := b } :: s.calls }

/-- A call that wrote its whole line. -/
theorem view_line (h : View json s ls []) (hdumps : json.dumps (.dict event) = .ok text) :
    View json (written s ls event (encodeUtf8 (text ++ ['\n'])))
      (ls ++ [encodeUtf8 (text ++ ['\n'])]) [] ∧
      complete json { event := event, written := encodeUtf8 (text ++ ['\n']) } = true := by
  have hc : complete json { event := event, written := encodeUtf8 (text ++ ['\n']) } = true := by
    rw [complete_iff hdumps]
    exact ⟨encodeUtf8 ['\n'], by simp⟩
  have hline : lineOf json { event := event, written := encodeUtf8 (text ++ ['\n']) } =
      encodeUtf8 (text ++ ['\n']) := by
    rw [lineOf, hdumps]
  have hcalls := h.calls.of_nil.done hc
  rw [hline] at hcalls
  refine ⟨⟨?_, Tail.none hcalls, fun n hn => ?_⟩, hc⟩
  · unfold written
    simp
  · obtain ⟨k, hk, hn⟩ := h.checkpoint n hn
    refine ⟨k, by rw [List.length_append]; omega, ?_⟩
    rw [hn, List.take_append_of_le_length hk]

/-- A call that wrote nothing yet. -/
theorem Accounted.begun {sidecars : List Bytes} {calls : List PollCall}
    (h : Accounted json sidecars calls ls) :
    Accounted json sidecars ({ event := event } :: calls) ls :=
  h.cut (complete_of_nil rfl) (Or.inl rfl) rfl

theorem view_empty (h : View json s ls []) : View json (written s ls event []) ls [] :=
  ⟨rfl, Tail.none h.calls.of_nil.begun, h.checkpoint⟩

theorem Repaired.begun (h : Repaired json ls s) :
    Repaired json ls { s with calls := { event := event } :: s.calls } :=
  ⟨⟨h.1.content, Tail.none h.1.calls.of_nil.begun, h.1.checkpoint⟩, h.2⟩

/-- **A call that wrote a part of its line**: nothing, a part of the text, or the whole line. -/
theorem view_torn (h : View json s ls []) (hdumps : json.dumps (.dict event) = .ok text) (n : ℕ) :
    ∃ ls' tail,
      View json (written s ls event ((encodeUtf8 (text ++ ['\n'])).take n)) ls' tail := by
  have hline : encodeUtf8 (text ++ ['\n']) = encodeUtf8 text ++ [newline] := by
    rw [encodeUtf8_append, encodeUtf8_newline]
  by_cases hn : n ≤ (encodeUtf8 text).length
  · rw [hline, List.take_append_of_le_length hn]
    by_cases hnil : (encodeUtf8 text).take n = []
    · rw [hnil]
      exact ⟨ls, [], view_empty h⟩
    · have hcut : Tail json s.sidecars
          ({ event := event, written := (encodeUtf8 text).take n } :: s.calls) ls
          ((encodeUtf8 text).take n) :=
        Tail.cut h.calls.of_nil hdumps (List.take_prefix n _) hnil rfl
      exact ⟨ls, _, rfl, hcut, h.checkpoint⟩
  · have htake : (encodeUtf8 (text ++ ['\n'])).take n = encodeUtf8 (text ++ ['\n']) := by
      refine List.take_of_length_le ?_
      rw [hline, List.length_append, List.length_singleton]
      omega
    rw [htake]
    exact ⟨_, _, (view_line h hdumps).1⟩

/-- What the append establishes: the newest call wrote its complete text, and there is no tail. -/
structure Appended (json : JsonBytes) (s : JournalFiles) : Prop where
  present : ∃ ls, s.journal = some (ls.flatten) ∧ Repaired json ls s
  complete : ∃ call older, s.calls = call :: older ∧ complete json call = true

/-- **The append** of one event, interrupted or not. -/
theorem ensures_appendEvent (h : Repaired json ls s) :
    Ensures (journalContract json) (fun _ => Appended json) (Raises json)
      (appendJsonl json.toJsonModule JournalOp.append JournalFiles.journal modifyJournal
        (.dict event)) { s with calls := { event := event } :: s.calls } := by
  have hbegun : Inv json { s with calls := { event := event } :: s.calls } := h.begun.inv
  have hinv : ∀ b ls' tail, View json (written s ls event b) ls' tail →
      Inv json (written s ls event b) := fun b ls' tail hview => hview.inv h.2
  refine alone_appendJsonl ⟨.refl _, raises_io hbegun⟩ (fun e he => ⟨?_, hbegun⟩) fun line hline => ?_
  · rintro rfl
    cases he
  obtain ⟨text, hdumps, rfl⟩ := map_eq_ok.mp hline
  obtain ⟨hview, hcomplete⟩ := view_line h.1 hdumps
  have hopened : modifyJournal (fun file => some (file.getD []))
      { s with calls := { event := event } :: s.calls } = written s ls event [] := by
    unfold modifyJournal written
    rw [← h.1.content]
    simp
  have hwrote : ∀ b, modifyJournal (·.map (· ++ b)) (written s ls event []) =
      written s ls event b := by
    intro b
    unfold modifyJournal written
    simp
  refine alone_appendLine ⟨.refl _, raises_io hbegun⟩ hopened
    (.of_inv (hinv _ _ _ (view_empty h.1)) rfl) (hwrote _) (.of_inv (hinv _ _ _ hview) rfl)
    (fun n _ => ?_) ⟨.refl _, raises_io (hinv _ _ _ hview)⟩ ⟨⟨_, ?_, hview, h.2⟩, _, _, rfl, hcomplete⟩
  · rw [hwrote]
    obtain ⟨ls', tail, htorn⟩ := view_torn h.1 hdumps n
    exact ⟨.of_inv (hinv _ _ _ htorn) rfl, raises_io (hinv _ _ _ htorn)⟩
  · unfold written
    simp

/-- A complete call that returns. -/
theorem Accounted.marked {sidecars : List Bytes} {call : PollCall}
    (h : Accounted json sidecars (call :: older) ls) (hc : complete json call = true) :
    Accounted json sidecars ({ call with returned := true } :: older) ls where
  lines := by
    have hc' : complete json { call with returned := true } = true := hc
    rw [h.lines, journalled, journalled, List.reverse_cons, List.reverse_cons, List.filter_append,
      List.filter_append, List.filter_cons_of_pos hc, List.filter_cons_of_pos hc', List.map_append,
      List.map_append]
    rfl
  saved c hcall hcut := by
    rcases List.mem_cons.mp hcall with rfl | hcall
    · cases hc.symm.trans hcut
    · exact h.saved c (List.mem_cons_of_mem _ hcall) hcut
  returned c hcall hret := by
    rcases List.mem_cons.mp hcall with rfl | hcall
    · exact hc
    · exact h.returned c (List.mem_cons_of_mem _ hcall) hret

/-- **One call**, interrupted or not. -/
theorem ensures_appendPollJsonl (h : Inv json s) :
    Ensures (journalContract json) (fun _ => Settled json) (Raises json)
      (appendPollJsonl json event) s := by
  refine Ensures.bind (ensures_repair h) fun _ t ht => ?_
  obtain ⟨ls, ht⟩ := ht
  refine Ensures.through (fun _ u => u = { t with calls := { event := event } :: t.calls }) ?_
    fun _ u hu => ?_
  · exact alone_note ⟨fun _ => ht.begun.inv, fun _ => ht.1.settled⟩ rfl
  subst hu
  refine Ensures.bind (ensures_appendEvent ht) fun _ v hv => ?_
  obtain ⟨⟨ls', hjournal, hv⟩, call, older, hcalls, hcomplete⟩ := hv
  refine Ensures.through (fun size w => size = ls'.flatten.length ∧ w = v) ?_ fun size w hw => ?_
  · refine alone_fsRead (.refl _) (fun size hsize => ?_) (fun e he => ?_) (raises_io hv.inv)
    · rw [hjournal] at hsize
      cases hsize
      exact ⟨rfl, rfl⟩
    · rw [hjournal] at he
      cases he
  obtain ⟨rfl, rfl⟩ := hw
  have hdone : Repaired json ls'
      { w with checkpoint := some (journalCheckpoint ls'.flatten.length) } :=
    ⟨hv.1.checkpointed, hv.2⟩
  refine Ensures.through (fun _ x => x =
    { w with checkpoint := some (journalCheckpoint ls'.flatten.length) }) ?_ fun _ x hx => ?_
  · exact alone_atomicWriteJson ⟨.of_inv hdone.inv rfl, rfl⟩ ⟨.refl _, raises_io hv.inv⟩
      ⟨.refl _, raises_io hdone.inv⟩
  subst hx
  have hmarked : markReturned { w with checkpoint := some (journalCheckpoint ls'.flatten.length) } =
      { w with
        checkpoint := some (journalCheckpoint ls'.flatten.length)
        calls := { call with returned := true } :: older } := by
    unfold markReturned
    simp only [hcalls]
  have haccounted := hdone.1.calls.of_nil
  simp only [hcalls] at haccounted
  have hview : View json
      { w with
        checkpoint := some (journalCheckpoint ls'.flatten.length)
        calls := { call with returned := true } :: older }
      ls' [] :=
    ⟨hdone.1.content, Tail.none (haccounted.marked hcomplete), hdone.1.checkpoint⟩
  refine alone_note ?_ ?_
  · rw [hmarked]
    exact .of_inv (hview.inv hv.2) (by simp [hcalls])
  · rw [hmarked]
    exact hview.settled

end Append

/-! ### Every run -/

/-- What the process calls: a repair when it starts, and then one append for each poll. -/
inductive JournalCall (json : JsonBytes) : JournalProg Unit → Prop
  | repair : JournalCall json ((repairJsonlTail json).bind fun _ => .pure ())
  | append (event : List (String × Doc)) : JournalCall json (appendPollJsonl json event)

/-- One process on one journal, which can be killed between any two operations and started again. -/
def journalRules (json : JsonBytes) :
    Rules JournalFiles JournalOp Choice PyError Unit Unit Unit where
  starts _ _ p := JournalCall json p
  admits _ _ _ _ := True
  finish _ _ s := s
  process _ := ()
  kill _ s := s

theorem sound (json : JsonBytes) :
    Sound (journalRules json) (Inv json) (fun _ => journalContract json) (fun _ _ => Settled json)
      fun _ => Raises json where
  starts _ s p h hp := by
    cases hp with
    | repair =>
      refine Ensures.bind (ensures_repair h) fun _ t ht => ?_
      obtain ⟨ls, ht⟩ := ht
      exact alone_pure ht.1.settled
    | append event => exact ensures_appendPollJsonl h
  admits _ _ _ _ _ _ := trivial
  op_inv _ _ _ h hstep := hstep.inv h
  op_rely i j _ _ _ hij _ := absurd (Subsingleton.elim i j) hij
  returns_inv _ _ _ h _ := h
  returns_rely i j _ _ _ hij _ := absurd (Subsingleton.elim i j) hij
  raises_inv _ _ _ h _ := h
  raises_rely i j _ _ _ hij _ := absurd (Subsingleton.elim i j) hij
  kill_inv _ _ h := h
  kill_rely _ _ _ _ hq := absurd (Subsingleton.elim _ _) hq

theorem inv_boot (json : JsonBytes) : Inv json {} := by
  have hcalls : Accounted json [] [] [] := by
    refine ⟨rfl, fun _ h => ?_, fun _ h => ?_⟩
    · cases h
    · cases h
  refine ⟨⟨[], [], rfl, Tail.none hcalls, fun n hn => ?_⟩, fun hsync => ?_⟩
  · cases hn
  · cases hsync

/-- **Every run**: a call that returned, and every append that has yet to begin its write, finds a
settled journal; no call reports interior corruption; and where a directory sync failed the journal
and its checkpoint are as the repair found them. -/
theorem journal_runs (json : JsonBytes) {s : Sys JournalFiles JournalOp Choice PyError Unit Unit}
    (h : Reach (journalRules json) (Sys.boot Unit {}) s) :
    (∀ a, s.running () = some (.pure a) → Settled json s.state) ∧
      (∀ t, Step (journalRules json) s t → t.state.calls.length ≠ s.state.calls.length →
        Settled json s.state) ∧
      (∀ e, s.running () = some (.throw e) → e ≠ interiorCorruption) ∧
      (s.state.syncFailed = true →
        (s.state.journal, s.state.checkpoint) = s.state.found) := by
  have hgood := (sound json).reach (inv_boot json) h
  refine ⟨fun a ha => hgood.returned ha, fun t ht hne => ?_, fun e he => ?_, hgood.1.2⟩
  · cases ht with
    | start => exact absurd rfl hne
    | @op i c op eff next run ok =>
      obtain ⟨hstep, -⟩ := hgood.2 i _ run s.state rfl c trivial
      exact hstep.begins hne
    | returns => exact absurd rfl hne
    | raises => exact absurd rfl hne
    | kill => exact absurd rfl hne
  · exact (hgood.2 () _ he s.state rfl).1

/-! ### A torn line -/

/-- The event of a poll. -/
def sampleEvent : List (String × Doc) := [("poll_id", .str "one")]

/-- Its JSON text. -/
def sampleText : List Char := "\x7b\"poll_id\":\"one\"\x7d".toList

/-- A `json` module that agrees with Python's on this event. -/
def sampleJson : JsonBytes where
  dumps d :=
    if d = .dict sampleEvent then .ok sampleText
    else .error ⟨.typeError, "Object is not JSON serializable"⟩
  loads text := if text = sampleText ++ ['\n'] then some (.dict sampleEvent) else none
  loadsBytes b :=
    if b = encodeUtf8 sampleText ∨ b = encodeUtf8 (sampleText ++ ['\n']) then
      some (.dict sampleEvent)
    else none
  dumps_error d e h := by
    split_ifs at h
    cases h
    rfl
  loads_dumps d text h := by
    split_ifs at h with hd
    rw [Except.ok.injEq] at h
    rw [← h, if_pos rfl, hd]
    rfl
  dumps_newline d text h := by
    split_ifs at h
    rw [Except.ok.injEq] at h
    rw [← h]
    decide
  dumps_ne_nil d text h := by
    split_ifs at h
    rw [Except.ok.injEq] at h
    rw [← h]
    decide
  loadsBytes_line d text h := by
    split_ifs at h with hd
    rw [Except.ok.injEq] at h
    rw [← h, if_pos (Or.inr rfl), hd]
    rfl
  loadsBytes_text d text h := by
    split_ifs at h with hd
    rw [Except.ok.injEq] at h
    rw [← h, if_pos (Or.inl rfl), hd]
    rfl
  loadsBytes_prefix members text h p hp hne d hd := by
    split_ifs at h
    rw [Except.ok.injEq] at h
    rw [← h] at hp hne
    split_ifs at hd with hsame
    rcases hsame with hsame | hsame
    · exact absurd hsame hne
    · have hlen := hp.length_le
      rw [hsame, encodeUtf8_append, List.length_append, encodeUtf8_newline] at hlen
      simp at hlen

/-- A first append, which returns. -/
def firstFiles : JournalFiles :=
  ((appendPollJsonl sampleJson sampleEvent).runWith .ok {}).2

/-- A second append, killed when five bytes of its line are written. -/
def tornFiles : JournalFiles :=
  ((appendPollJsonl sampleJson sampleEvent).after (List.replicate 7 .ok ++ [.fault 5]) firstFiles).2

/-- The repair of the process that starts again. -/
def sampleRepair : JournalProg Unit := (repairJsonlTail sampleJson).bind fun _ => .pure ()

/-- The system when this repair returns. -/
def repaired : JournalProg Unit × JournalFiles :=
  sampleRepair.after (List.replicate 40 .ok) tornFiles

theorem repaired_returns : repaired.1 = .pure () := rfl

theorem repaired_sidecars : repaired.2.sidecars = [(encodeUtf8 sampleText).take 5] := by
  decide +kernel

theorem reach_repaired : Reach (journalRules sampleJson) (Sys.boot Unit {})
    ⟨repaired.2, Function.update (Function.update (fun _ => none) () (some sampleRepair)) ()
      (some repaired.1)⟩ := by
  have hboot : Reach (journalRules sampleJson) (Sys.boot Unit {}) (Sys.boot Unit {}) :=
    Relation.ReflTransGen.refl
  have hfirst := hboot.call () .ok (fun _ _ => trivial) rfl (JournalCall.append sampleEvent)
  have hsecond : Reach (journalRules sampleJson) (Sys.boot Unit {}) ⟨firstFiles,
      Function.update (fun _ => none) () (some (appendPollJsonl sampleJson sampleEvent))⟩ :=
    hfirst.tail (Step.start () _ rfl (JournalCall.append sampleEvent))
  have htorn := hsecond.after () (List.replicate 7 .ok ++ [.fault 5]) (Function.update_self ..)
    (Prog.admitted_of_forall (fun _ _ _ => trivial) ..)
  have hkilled : Reach (journalRules sampleJson) (Sys.boot Unit {})
      ⟨tornFiles, fun _ => none⟩ := htorn.tail (Step.kill ())
  have hrestarted : Reach (journalRules sampleJson) (Sys.boot Unit {})
      ⟨tornFiles, Function.update (fun _ => none) () (some sampleRepair)⟩ :=
    hkilled.tail (Step.start () _ rfl JournalCall.repair)
  exact hrestarted.after () (List.replicate 40 .ok) (Function.update_self ..)
    (Prog.admitted_of_forall (fun _ _ _ => trivial) ..)

/-- **A torn line** is in a sidecar when the next repair returns, and the line before it is read
back. -/
theorem journal_runs_tornLine :
    repaired.2.sidecars = [(encodeUtf8 sampleText).take 5] ∧ Settled sampleJson repaired.2 := by
  refine ⟨repaired_sidecars, ?_⟩
  have hruns := journal_runs sampleJson reach_repaired
  have hrunning : Function.update (Function.update (fun _ => none) () (some sampleRepair)) ()
      (some repaired.1) () = some (.pure ()) := by
    rw [Function.update_self, repaired_returns]
  exact hruns.1 () hrunning

end BkkCollector.Storage.JournalRuns
