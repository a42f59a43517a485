import Mathlib
import BkkCollector.Logic.Framing
import BkkCollector.Storage.RawLog

/-! # Reading a raw log

The three readers of a raw log, `scan_raw_log`, `_scan_raw_log_from` and `iter_records`, against
the frames of the log. The readers catch `BadGzipFile` and `EOFError`; a payload on which the
decompressor raises `zlib.error` goes through all three.

* `scanLoop_eq`: the scan finds the longest prefix of decodable records.
* `iterRecords_eq`: the iteration skips undecodable records.
* `run_repairTruncatedTail`: the repair keeps that prefix and detaches the rest.
-/

namespace BkkCollector.Storage.RawScan

open BkkCollector.Logic.Program BkkCollector.Logic.Framing BkkCollector.Python.Objects
open BkkCollector.Storage.AtomicIo BkkCollector.Storage.RawLog

/-! ### Records as frames -/

/-- The frames of a raw log. -/
def rawFormat : Format UInt8 where
  headSize := headerSize
  headSize_pos := by decide
  size header :=
    if (unpackHeader header).2 > maxCompressedRecordBytes then none
    else some (unpackHeader header).2

/-- The complete records of a log, up to the first incomplete or oversized header. -/
def records (b : Bytes) : List (Frame UInt8) := (chain rawFormat b).1

/-- What `iter_records` yields for a record. -/
def decode (gz : Gzip) (f : Frame UInt8) : Option (Timestamp × Bytes) :=
  match gz.decompress f.payload with
  | .ok raw => some ((unpackHeader f.head).1, raw)
  | .error _ => none

/-- The longest prefix of complete records whose payload decompresses. -/
def validRecords (gz : Gzip) (b : Bytes) : List (Frame UInt8) :=
  (records b).takeWhile fun f => (decode gz f).isSome

/-- The bytes of that prefix. -/
def validPrefix (gz : Gzip) (b : Bytes) : Bytes := encode (validRecords gz b)

/-- The bytes behind that prefix. -/
def tornTail (gz : Gzip) (b : Bytes) : Bytes := b.drop (validPrefix gz b).length

/-- The first record whose payload does not decompress. -/
def firstUndecodable (gz : Gzip) (b : Bytes) : Option (Frame UInt8) :=
  (records b).find? fun f => !(decode gz f).isSome

/-- That record raises `zlib.error`, which no reader catches. -/
def Blocked (gz : Gzip) (b : Bytes) : Prop :=
  ∃ f e, firstUndecodable gz b = some f ∧ gz.decompress f.payload = .error e ∧ e.type = .zlibError

/-- No complete record raises `zlib.error`. -/
def NoZlibError (gz : Gzip) (b : Bytes) : Prop :=
  ∀ f ∈ records b, ∀ e, gz.decompress f.payload = .error e → e.type ≠ .zlibError

variable {gz : Gzip}

theorem records_of_none {b : Bytes} (h : next rawFormat b = none) : records b = [] := by
  rw [records, chain_of_none h]

theorem records_of_some {b rest : Bytes} {f : Frame UInt8} (h : next rawFormat b = some (f, rest)) :
    records b = f :: records rest := by
  rw [records, chain_of_some h, records]

/-- An undecodable payload is caught unless it raises `zlib.error`. -/
theorem undecodable_iff {b : Bytes} {e : PyError} (h : gz.decompress b = .error e) :
    undecodable e = true ↔ e.type ≠ .zlibError := by
  rcases gz.error_type b e h with h | h | h <;> simp [undecodable, h, ExceptionType.isOSError]

/-! ### The frame at the reader -/

/-- One step of a reader, in the terms of its own tests. -/
theorem next_rawFormat (b : Bytes) : next rawFormat b =
    if (b.take headerSize).length < headerSize then none
    else if (unpackHeader (b.take headerSize)).2 > maxCompressedRecordBytes then none
    else if ((b.drop headerSize).take (unpackHeader (b.take headerSize)).2).length <
        (unpackHeader (b.take headerSize)).2 then none
    else some (⟨b.take headerSize, (b.drop headerSize).take (unpackHeader (b.take headerSize)).2⟩,
      b.drop (headerSize + (unpackHeader (b.take headerSize)).2)) := by
  simp only [next, rawFormat]
  by_cases h : (unpackHeader (b.take headerSize)).2 > maxCompressedRecordBytes
  · simp only [if_pos h]
  · simp only [if_neg h]
    rfl

/-- The frame `append_record` writes. -/
def recordFrame (timestamp : Timestamp) (compressed : Bytes) : Frame UInt8 :=
  ⟨packHeader timestamp compressed.length, compressed⟩

theorem recordFrame_bytes (timestamp : Timestamp) (compressed : Bytes) :
    (recordFrame timestamp compressed).bytes = record timestamp compressed := rfl

theorem recordFrame_ok (timestamp : Timestamp) {compressed : Bytes}
    (h : compressed.length ≤ maxCompressedRecordBytes) :
    (recordFrame timestamp compressed).Ok rawFormat where
  head := length_packHeader _ _
  size := by
    simp only [rawFormat, recordFrame, unpackHeader_packHeader timestamp h]
    exact if_neg (not_lt.mpr h)

theorem iterRecords_of_none {b : Bytes} (h : next rawFormat b = none) :
    iterRecords gz b = ⟨[], none⟩ := by
  rw [next_rawFormat] at h
  rw [iterRecords]
  split_ifs at h with h1 h2 h3
  · simp only [if_pos h1]
  · simp only [if_neg h1, if_pos h2]
  · simp only [if_neg h1, if_neg h2, if_pos h3]

theorem iterRecords_of_some {b rest : Bytes} {f : Frame UInt8}
    (h : next rawFormat b = some (f, rest)) : iterRecords gz b =
      match gz.decompress f.payload with
      | .ok raw => ⟨((unpackHeader f.head).1, raw) :: (iterRecords gz rest).yielded,
          (iterRecords gz rest).raised⟩
      | .error e => if undecodable e then iterRecords gz rest else ⟨[], some e⟩ := by
  rw [next_rawFormat] at h
  rw [iterRecords]
  split_ifs at h with h1 h2 h3
  simp only [Option.some.injEq, Prod.mk.injEq] at h
  obtain ⟨rfl, rfl⟩ := h
  exact (if_neg h1).trans ((if_neg h2).trans (if_neg h3))

section Scan

variable {advancing : Bool} {fileSize count validEnd tell : ℕ}

theorem scanLoop_of_none {b : Bytes} (h : next rawFormat b = none) :
    scanLoop gz true advancing fileSize count validEnd tell b =
      .ok ⟨count, validEnd, fileSize, b.isEmpty && validEnd == fileSize⟩ := by
  rw [next_rawFormat] at h
  rw [scanLoop]
  have he : (b.take headerSize).isEmpty = b.isEmpty := by
    rw [Bool.eq_iff_iff, List.isEmpty_iff, List.isEmpty_iff, List.take_eq_nil_iff]
    simp [headerSize]
  by_cases hb : b.isEmpty = true
  · simp only [he, hb, if_true, Bool.true_and]
  · have hlen : (b.take headerSize).length ≤ headerSize := List.length_take_le _ _
    simp only [he, hb, Bool.false_and]
    split_ifs at h with h1 h2 h3
    · simp only [if_pos h1.ne, Bool.false_eq_true, if_false]
    · simp only [if_neg (not_not.mpr (le_antisymm hlen (not_lt.mp h1))), if_pos h2,
        Bool.false_eq_true, if_false]
    · simp only [if_neg (not_not.mpr (le_antisymm hlen (not_lt.mp h1))), if_neg h2, if_pos h3.ne,
        Bool.false_eq_true, if_false]

theorem scanLoop_of_some {b rest : Bytes} {f : Frame UInt8}
    (h : next rawFormat b = some (f, rest)) :
    scanLoop gz true advancing fileSize count validEnd tell b =
      match gz.decompress f.payload with
      | .error e => if undecodable e then .ok ⟨count, validEnd, fileSize, false⟩ else .error e
      | .ok _ => scanLoop gz true advancing fileSize (count + 1) (tell + f.bytes.length)
          (tell + f.bytes.length) rest := by
  have hf := (next_sound h).1
  rw [next_rawFormat] at h
  rw [scanLoop]
  split_ifs at h with h1 h2 h3
  simp only [Option.some.injEq, Prod.mk.injEq] at h
  obtain ⟨rfl, rfl⟩ := h
  have h1' : (b.take headerSize).length = headerSize :=
    le_antisymm (List.length_take_le _ _) (not_lt.mp h1)
  have hsize := hf.size
  simp only [rawFormat, if_neg h2, Option.some.injEq] at hsize
  have hbytes : (b.take headerSize ++ (b.drop headerSize).take
      (unpackHeader (b.take headerSize)).2).length =
        headerSize + (unpackHeader (b.take headerSize)).2 := by
    rw [List.length_append, h1', ← hsize]
  have hne : (b.take headerSize).isEmpty = false := by
    rw [← Bool.not_eq_true, List.isEmpty_iff]
    intro he
    rw [he] at h1'
    exact absurd h1' (by decide)
  have hadv : (advancing && decide (tell + (headerSize +
      (unpackHeader (b.take headerSize)).2) ≤ tell)) = false := by
    rw [Bool.and_eq_false_iff, decide_eq_false_iff_not]
    right
    unfold headerSize
    omega
  simp only [hne, Bool.false_eq_true, if_false, h1', ne_eq, not_true_eq_false, if_neg h2, ← hsize,
    if_true, Frame.bytes, hbytes, Nat.add_assoc, hadv] <;> rfl

end Scan

/-! ### The longest decodable prefix -/

theorem validRecords_of_none {b : Bytes} (h : next rawFormat b = none) : validRecords gz b = [] := by
  rw [validRecords, records_of_none h, List.takeWhile_nil]

theorem validRecords_of_some {b rest : Bytes} {f : Frame UInt8}
    (h : next rawFormat b = some (f, rest)) : validRecords gz b =
      if (decode gz f).isSome then f :: validRecords gz rest else [] := by
  rw [validRecords, records_of_some h, List.takeWhile_cons]
  rfl

theorem validRecords_isPrefixOf (b : Bytes) : validRecords gz b <+: records b :=
  List.takeWhile_prefix _

/-- **The two parts of a log**: decodable records, and what follows them. -/
theorem validPrefix_append_tornTail (b : Bytes) : validPrefix gz b ++ tornTail gz b = b := by
  obtain ⟨fs, hfs⟩ := @validRecords_isPrefixOf gz b
  have hb : b = encode (records b) ++ (chain rawFormat b).2 := (chain_sound b).1
  rw [← hfs, encode_append, List.append_assoc] at hb
  have htail : tornTail gz b = encode fs ++ (chain rawFormat b).2 := by
    have := congrArg (List.drop (encode (validRecords gz b)).length) hb
    rwa [List.drop_left] at this
  rw [htail]
  exact hb.symm

theorem ok_of_mem_validRecords {b : Bytes} {f : Frame UInt8} (h : f ∈ validRecords gz b) :
    f.Ok rawFormat :=
  (chain_sound b).2.1 f ((validRecords_isPrefixOf b).subset h)

theorem firstUndecodable_of_some {b rest : Bytes} {f : Frame UInt8}
    (h : next rawFormat b = some (f, rest)) : firstUndecodable gz b =
      if (decode gz f).isSome then firstUndecodable gz rest else some f := by
  rw [firstUndecodable, records_of_some h, List.find?_cons]
  cases (decode gz f).isSome <;> rfl

theorem NoZlibError.not_blocked {b : Bytes} (hb : NoZlibError gz b) : ¬ Blocked gz b := by
  rintro ⟨f, e, hf, he, hz⟩
  exact hb f (List.mem_of_find?_eq_some hf) e he hz

/-- A scan that is not blocked at its first undecodable record is not blocked before it. -/
theorem not_blocked_of_some {b rest : Bytes} {f : Frame UInt8}
    (h : next rawFormat b = some (f, rest)) (hb : ¬ Blocked gz b) :
    (∀ e, gz.decompress f.payload = .error e → undecodable e = true) ∧
      ((decode gz f).isSome → ¬ Blocked gz rest) := by
  have hfirst := @firstUndecodable_of_some gz _ _ _ h
  refine ⟨fun e he => (undecodable_iff he).mpr fun hz => hb ⟨f, e, ?_, he, hz⟩, fun hd => ?_⟩
  · rw [hfirst, if_neg (by simp [decode, he])]
  · rw [if_pos hd] at hfirst
    rintro ⟨g, e, hg, he, hz⟩
    exact hb ⟨g, e, hfirst.trans hg, he, hz⟩

/-- **The scan** of a log that does not block it, from position `tell` on. -/
theorem scanLoop_eq {advancing : Bool} {fileSize : ℕ} (b : Bytes) (count tell : ℕ)
    (hb : ¬ Blocked gz b) (hsize : fileSize = tell + b.length) :
    scanLoop gz true advancing fileSize count tell tell b =
      .ok ⟨count + (validRecords gz b).length, tell + (validPrefix gz b).length, fileSize,
        (tornTail gz b).isEmpty⟩ := by
  induction b using chain.induct (F := rawFormat) generalizing count tell with
  | case1 b h =>
    have htail : tornTail gz b = b := by simp [tornTail, validPrefix, validRecords_of_none h]
    rw [scanLoop_of_none h, htail, validPrefix, validRecords_of_none h]
    cases b <;> simp_all
  | case2 b f rest h ih =>
    obtain ⟨-, hbytes⟩ := next_sound h
    obtain ⟨hcaught, hrest⟩ := not_blocked_of_some h hb
    rw [scanLoop_of_some h]
    have hvalid := @validRecords_of_some gz _ _ _ h
    cases hd : gz.decompress f.payload with
    | error e =>
      have hun : undecodable e = true := hcaught e hd
      have hdec : decode gz f = none := by rw [decode, hd]
      have htail : tornTail gz b = b := by simp [tornTail, validPrefix, hvalid, hdec]
      have hne : b ≠ [] := by rintro rfl; rw [next_nil] at h; cases h
      simp only [hun, if_true, htail, validPrefix, hvalid, hdec]
      simp [hne]
    | ok raw =>
      have hdec : decode gz f = some ((unpackHeader f.head).1, raw) := by rw [decode, hd]
      simp only [hdec, Option.isSome_some, if_true] at hvalid
      have htail : tornTail gz b = tornTail gz rest := by
        simp only [tornTail, validPrefix, hvalid, encode_cons, List.length_append]
        rw [hbytes, List.drop_append]
        simp
      rw [ih (count + 1) (tell + f.bytes.length) (hrest (by rw [hdec]; rfl))
        (by rw [hsize, hbytes, List.length_append]; omega), htail]
      simp only [validPrefix, hvalid, List.length_cons, encode_cons, List.length_append,
        Except.ok.injEq, RawLogScan.mk.injEq, and_true]
      omega

theorem records_append {fs : List (Frame UInt8)} (hfs : ∀ f ∈ fs, f.Ok rawFormat) (b : Bytes) :
    records (encode fs ++ b) = fs ++ records b := by
  rw [records, chain_append hfs, records]

theorem validRecords_append {fs : List (Frame UInt8)} (hfs : ∀ f ∈ fs, f.Ok rawFormat)
    (hdec : ∀ f ∈ fs, (decode gz f).isSome) (b : Bytes) :
    validRecords gz (encode fs ++ b) = fs ++ validRecords gz b := by
  rw [validRecords, records_append hfs, List.takeWhile_append_of_pos hdec, validRecords]

theorem firstUndecodable_append {fs : List (Frame UInt8)} (hfs : ∀ f ∈ fs, f.Ok rawFormat)
    (hdec : ∀ f ∈ fs, (decode gz f).isSome) (b : Bytes) :
    firstUndecodable gz (encode fs ++ b) = firstUndecodable gz b := by
  rw [firstUndecodable, records_append hfs, List.find?_append, firstUndecodable]
  have hnone : fs.find? (fun f => !(decode gz f).isSome) = none := by
    rw [List.find?_eq_none]
    intro f hf
    simp [hdec f hf]
  rw [hnone, Option.none_or]

theorem decode_of_mem_validRecords {b : Bytes} {f : Frame UInt8} (h : f ∈ validRecords gz b) :
    (decode gz f).isSome :=
  List.mem_takeWhile_imp (p := fun f => (decode gz f).isSome) h

/-! ### Iteration -/

/-- **The iteration** skips undecodable records, and raises exactly on `zlib.error`. -/
theorem iterRecords_eq {b : Bytes} (hb : NoZlibError gz b) :
    iterRecords gz b = ⟨(records b).filterMap (decode gz), none⟩ := by
  induction b using chain.induct (F := rawFormat) with
  | case1 b h => rw [iterRecords_of_none h, records_of_none h, List.filterMap_nil]
  | case2 b f rest h ih =>
    have hrec := records_of_some h
    have hrest : NoZlibError gz rest := fun g hg =>
      hb g (by rw [hrec]; exact List.mem_cons_of_mem _ hg)
    rw [iterRecords_of_some h, ih hrest, hrec, List.filterMap_cons]
    cases hd : gz.decompress f.payload with
    | error e =>
      have hun : undecodable e = true :=
        (undecodable_iff hd).mpr (hb f (by rw [hrec]; exact List.mem_cons_self) e hd)
      simp only [hun, if_true, decode, hd]
    | ok raw => simp only [decode, hd]

theorem noZlibError_of_iterRecords {b : Bytes} (hb : (iterRecords gz b).raised = none) :
    NoZlibError gz b := by
  induction b using chain.induct (F := rawFormat) with
  | case1 b h =>
    intro f hf
    rw [records_of_none h] at hf
    cases hf
  | case2 b f rest h ih =>
    rw [iterRecords_of_some h] at hb
    intro g hg e he
    rw [records_of_some h] at hg
    cases hd : gz.decompress f.payload with
    | error e' =>
      simp only [hd] at hb
      split_ifs at hb with hun
      rcases List.mem_cons.mp hg with rfl | hg
      · rw [hd, Except.error.injEq] at he
        exact he ▸ (undecodable_iff hd).mp hun
      · exact ih hb g hg e he
    | ok raw =>
      simp only [hd] at hb
      rcases List.mem_cons.mp hg with rfl | hg
      · rw [hd] at he; cases he
      · exact ih hb g hg e he

/-! ### Scan and repair -/

theorem scanRawLog_eq {b : Bytes} (hb : ¬ Blocked gz b) :
    scanRawLog gz b = .ok ⟨(validRecords gz b).length, (validPrefix gz b).length, b.length,
      (tornTail gz b).isEmpty⟩ := by
  rw [scanRawLog, scanLoop_eq b 0 0 hb (by omega), Nat.zero_add, Nat.zero_add]

/-- A blocked scan raises. -/
theorem scanLoop_of_blocked {advancing : Bool} {fileSize : ℕ} (b : Bytes) (count validEnd tell : ℕ)
    (hb : Blocked gz b) :
    ∃ e, scanLoop gz true advancing fileSize count validEnd tell b = .error e := by
  induction b using chain.induct (F := rawFormat) generalizing count validEnd tell with
  | case1 b h =>
    obtain ⟨f, e, hf, -, -⟩ := hb
    rw [firstUndecodable, records_of_none h] at hf
    cases hf
  | case2 b f rest h ih =>
    obtain ⟨g, e, hg, he, hz⟩ := hb
    rw [firstUndecodable_of_some h] at hg
    rw [scanLoop_of_some h]
    cases hd : gz.decompress f.payload with
    | error e' =>
      rw [if_neg (by simp [decode, hd]), Option.some.injEq] at hg
      subst hg
      have hun : undecodable e' ≠ true := by
        rw [hd, Except.error.injEq] at he
        rw [ne_eq, undecodable_iff hd, not_not, he, hz]
      exact ⟨e', if_neg hun⟩
    | ok raw =>
      rw [if_pos (by simp [decode, hd])] at hg
      exact ih _ _ _ ⟨g, e, hg, he, hz⟩

/-- A checkpoint that names no length, or a record boundary within the decodable prefix. -/
def CheckpointAtBoundary (gz : Gzip) (b : Bytes) (checkpoint : Row) : Prop :=
  ∀ n, checkpointBytes checkpoint = some n →
    ∃ k ≤ (validRecords gz b).length, n = ((encode ((validRecords gz b).take k)).length : ℤ)

/-- From a boundary the scan finds the same prefix. -/
theorem scanRawLogFrom_eq {b : Bytes} (hb : ¬ Blocked gz b) {k : ℕ}
    (hk : k ≤ (validRecords gz b).length) :
    scanRawLogFrom gz b (encode ((validRecords gz b).take k)).length =
      .ok ⟨(validRecords gz b).length - k, (validPrefix gz b).length, b.length,
        (tornTail gz b).isEmpty⟩ := by
  set fs := (validRecords gz b).take k with hfs
  obtain ⟨rest, hrest⟩ : ∃ rest, b = encode fs ++ rest := by
    refine ⟨encode ((validRecords gz b).drop k) ++ tornTail gz b, ?_⟩
    rw [← List.append_assoc, ← encode_append, List.take_append_drop]
    exact (validPrefix_append_tornTail b).symm
  have hok : ∀ f ∈ fs, f.Ok rawFormat := fun f hf => ok_of_mem_validRecords (List.mem_of_mem_take hf)
  have hdec : ∀ f ∈ fs, (decode gz f).isSome := fun f hf =>
    decode_of_mem_validRecords (List.mem_of_mem_take hf)
  have hlen : fs.length = k := by rw [hfs, List.length_take, Nat.min_eq_left hk]
  clear_value fs
  subst hrest
  have hvalid := validRecords_append hok hdec rest
  have hprefix : validPrefix gz (encode fs ++ rest) = encode fs ++ validPrefix gz rest := by
    rw [validPrefix, hvalid, encode_append, validPrefix]
  have htail : tornTail gz (encode fs ++ rest) = tornTail gz rest := by
    rw [tornTail, hprefix, List.length_append, List.drop_append, tornTail]
    simp
  have hb' : ¬ Blocked gz rest := by rwa [Blocked, firstUndecodable_append hok hdec] at hb
  rw [scanRawLogFrom, List.drop_left, scanLoop_eq rest 0 _ hb' (by rw [List.length_append]),
    hvalid, hprefix, htail]
  simp only [List.length_append, hlen, Nat.zero_add, Nat.add_sub_cancel_left]

theorem tornTail_eq_nil_iff {b : Bytes} : tornTail gz b = [] ↔ validPrefix gz b = b := by
  have h := @validPrefix_append_tornTail gz b
  constructor
  · intro ht
    rwa [ht, List.append_nil] at h
  · intro hp
    rw [hp] at h
    exact List.append_right_eq_self.mp h

/-- The scan of a repair finds the prefix, or the checkpoint covers a log without a torn tail. -/
theorem run_scanTail {b : Bytes} {files : LogFiles} {checkpoint : Row} (hlog : files.log = some b)
    (hb : ¬ Blocked gz b) (hcp : CheckpointAtBoundary gz b checkpoint) :
    (run (scanTail gz checkpoint) files = (.ok none, files) ∧ tornTail gz b = []) ∨
    ∃ n, run (scanTail gz checkpoint) files =
      (.ok (some ⟨n, (validPrefix gz b).length, b.length, (tornTail gz b).isEmpty⟩), files) := by
  have hfull : run (some <$> onLog .scan (scanRawLog gz ·)) files = (.ok (some
      ⟨(validRecords gz b).length, (validPrefix gz b).length, b.length, (tornTail gz b).isEmpty⟩),
      files) := by
    simp [onLog, hlog, scanRawLog_eq hb]
  cases hc : checkpointBytes checkpoint with
  | none =>
    right
    refine ⟨(validRecords gz b).length, ?_⟩
    simpa [scanTail, onLog, hlog, hc] using hfull
  | some n =>
    obtain ⟨k, hk, rfl⟩ := hcp n hc
    have hle : (encode ((validRecords gz b).take k)).length ≤ b.length := by
      conv_rhs => rw [← @validPrefix_append_tornTail gz b]
      conv_rhs => rw [validPrefix, ← List.take_append_drop k (validRecords gz b)]
      simp only [encode_append, List.length_append]
      omega
    by_cases heq : (encode ((validRecords gz b).take k)).length = b.length
    · left
      refine ⟨by simp [scanTail, onLog, hlog, hc, heq], ?_⟩
      have h := congrArg List.length (@validPrefix_append_tornTail gz b)
      conv_lhs at h => rw [validPrefix, ← List.take_append_drop k (validRecords gz b)]
      simp only [encode_append, List.length_append] at h
      exact List.length_eq_zero_iff.mp (by omega)
    · right
      refine ⟨(validRecords gz b).length - k, ?_⟩
      have hle' : (0 : ℤ) ≤ (encode ((validRecords gz b).take k)).length ∧
          ((encode ((validRecords gz b).take k)).length : ℤ) ≤ b.length := by omega
      simp [scanTail, onLog, hlog, hc, heq, hle, scanRawLogFrom_eq hb hk]

theorem run_detachTail {b : Bytes} {files : LogFiles} {stamp : String} (hlog : files.log = some b)
    (hstamp : files.sidecars.lookup stamp = none) (n : ℕ) :
    run (detachTail stamp n) files = (.ok (),
      { files with log := some (b.take n), sidecars := (stamp, b.drop n) :: files.sidecars }) := by
  have hold : ∀ e ∈ files.sidecars, (if e.1 = stamp then (stamp, b.drop n) else e) = e := by
    intro e he
    rw [List.lookup_eq_none_iff] at hstamp
    exact if_neg fun h => by simpa [h] using hstamp e he
  simp [detachTail, hlog, hstamp, List.map_congr_left hold]

/-- Where the scan of a repair ends early, the checkpoint covers the log. -/
theorem checkpointBytes_of_scanTail {b : Bytes} {files : LogFiles} {checkpoint : Row}
    (hlog : files.log = some b) (h : run (scanTail gz checkpoint) files = (.ok none, files)) :
    checkpointBytes checkpoint = some (b.length : ℤ) := by
  have hscan : ∀ f : Bytes → Except PyError RawLogScan,
      run (some <$> onLog .scan f : FsProg LogFiles RawOp (Option RawLogScan)) files ≠
        (.ok none, files) := by
    intro f hf
    cases hb : f b with
    | error e => simp [onLog, hlog, hb] at hf
    | ok scan => simp [onLog, hlog, hb] at hf
  cases hc : checkpointBytes checkpoint with
  | none =>
    refine absurd ?_ (hscan (scanRawLog gz ·))
    simpa [scanTail, onLog, hlog, hc] using h
  | some n =>
    by_cases hrange : 0 ≤ n ∧ n ≤ b.length
    · by_cases hn : n = b.length
      · rw [hn]
      · refine absurd ?_ (hscan (scanRawLogFrom gz · n.toNat))
        simpa [scanTail, onLog, hlog, hc, hrange, hn] using h
    · refine absurd ?_ (hscan (scanRawLog gz ·))
      simpa [scanTail, onLog, hlog, hc, if_neg hrange] using h

theorem checkpointBytes_checkpointRow (n : ℕ) (updatedAt : Option Timestamp) :
    checkpointBytes (checkpointRow n updatedAt) = some (n : ℤ) := by
  simp [checkpointBytes, checkpointRow, Row.get, List.lookup, Value.asInt]

/-- The repair behind a scan that found the prefix, or did not have to look: the prefix stays, the
torn tail goes into one sidecar, and the checkpoint names the prefix. -/
theorem run_repair_of_scan {b : Bytes} {files : LogFiles} {stamp : String}
    (hlog : files.log = some b)
    (hstamp : tornTail gz b ≠ [] → files.sidecars.lookup stamp = none)
    (hscan : (run (scanTail gz (files.checkpoint.getD [])) files = (.ok none, files) ∧
        tornTail gz b = []) ∨
      ∃ n, run (scanTail gz (files.checkpoint.getD [])) files =
        (.ok (some ⟨n, (validPrefix gz b).length, b.length, (tornTail gz b).isEmpty⟩), files)) :
    ∃ checkpoint, run (repairTruncatedTail gz stamp) files =
      (.ok (if tornTail gz b = [] then none else some stamp),
        { log := some (validPrefix gz b)
          checkpoint
          sidecars :=
            if tornTail gz b = [] then files.sidecars
            else (stamp, tornTail gz b) :: files.sidecars }) ∧
      checkpointBytes (checkpoint.getD []) = some ((validPrefix gz b).length : ℤ) := by
  rcases hscan with ⟨hscan, htail⟩ | ⟨n, hscan⟩
  · refine ⟨files.checkpoint, ?_, ?_⟩
    · have hfiles : files = { files with log := some (validPrefix gz b) } := by
        rw [tornTail_eq_nil_iff.mp htail, ← hlog]
      simp only [if_pos htail]
      rw [← hfiles]
      simp [repairTruncatedTail, hlog, hscan]
    · rw [checkpointBytes_of_scanTail hlog hscan, tornTail_eq_nil_iff.mp htail]
  · refine ⟨some (checkpointRow (validPrefix gz b).length none), ?_,
      checkpointBytes_checkpointRow _ _⟩
    by_cases htail : tornTail gz b = []
    · simp [repairTruncatedTail, hlog, hscan, htail, writeCheckpoint,
        tornTail_eq_nil_iff.mp htail]
    · have htake := congrArg (List.take (validPrefix gz b).length)
        (@validPrefix_append_tornTail gz b)
      rw [List.take_left] at htake
      have hdrop : b.drop (validPrefix gz b).length = tornTail gz b := rfl
      simp [repairTruncatedTail, hlog, hscan, htail, writeCheckpoint,
        run_detachTail hlog (hstamp htail), ← htake, hdrop]

/-- **The repair** of a log that does not block the scan, run without faults: the prefix stays, the
torn tail goes into one sidecar, and a checkpoint it writes names the prefix. -/
theorem run_repairTruncatedTail {b : Bytes} {files : LogFiles} {stamp : String}
    (hlog : files.log = some b) (hb : ¬ Blocked gz b)
    (hcp : CheckpointAtBoundary gz b (files.checkpoint.getD []))
    (hstamp : files.sidecars.lookup stamp = none) :
    ∃ checkpoint, run (repairTruncatedTail gz stamp) files =
      (.ok (if tornTail gz b = [] then none else some stamp),
        { log := some (validPrefix gz b)
          checkpoint
          sidecars :=
            if tornTail gz b = [] then files.sidecars
            else (stamp, tornTail gz b) :: files.sidecars }) := by
  obtain ⟨checkpoint, hrun, -⟩ := run_repair_of_scan hlog (fun _ => hstamp) (run_scanTail hlog hb hcp)
  exact ⟨checkpoint, hrun⟩

/-! ### A sample compressor -/

/-- The header `gzip.compress` writes. -/
def gzipHeader (mtime : UInt32) : Bytes :=
  [0x1f, 0x8b, 8, 0] ++ (bigEndian 4 mtime.toNat).reverse ++ [0, 0xff]

/-- The deflate stream, checksum and size of the payload `"\n"`. -/
def newlineBody : Bytes := [0xe3, 2, 0, 0x93, 6, 0xd7, 0x32, 1, 0, 0, 0]

/-- Decompression behind the header: a stream that starts with the reserved block type is what
`zlib` rejects. -/
def sampleInflate : Bytes → Except PyError Bytes
  | [] => .error ⟨.eofError, "Compressed file ended before the end-of-stream marker was reached"⟩
  | 0 :: b => .ok b
  | b =>
    if b = newlineBody then .ok [0x0a]
    else .error ⟨.zlibError, "Error -3 while decompressing data: invalid block type"⟩

theorem sampleInflate_error {b : Bytes} {e : PyError} (h : sampleInflate b = .error e) :
    e.type = .eofError ∨ e.type = .zlibError := by
  unfold sampleInflate at h
  split at h
  · cases h
    exact Or.inl rfl
  · cases h
  · split_ifs at h
    cases h
    exact Or.inr rfl

/-- A compressor that agrees with `gzip` on the payload `"\n"`, on the empty byte string, on what
is not a gzip file, on a bare header and on the reserved block type. -/
def sampleGzip : Gzip where
  compress mtime b := gzipHeader mtime ++ if b = [0x0a] then newlineBody else 0 :: b
  decompress
    | [] => .ok []
    | b =>
      if b.take 2 ≠ [0x1f, 0x8b] then .error ⟨.badGzipFile, "Not a gzipped file"⟩
      else sampleInflate (b.drop 10)
  decompress_compress mtime b := by
    have hlen : (gzipHeader mtime).length = 10 := by simp [gzipHeader]
    have htake : ∀ c, (gzipHeader mtime ++ c).take 2 = [0x1f, 0x8b] := fun c => rfl
    have hdrop : ∀ c, (gzipHeader mtime ++ c).drop 10 = c := fun c => List.drop_left' hlen
    by_cases hb : b = [0x0a]
    · simp [htake, hdrop, hb, sampleInflate, newlineBody]
    · simp [htake, hdrop, hb, sampleInflate]
  error_type b e h := by
    split at h
    · cases h
    · split_ifs at h
      · cases h
        exact Or.inl rfl
      · exact Or.inr (sampleInflate_error h)

/-! ### Recovery is total on content -/

/-- Recovery from the content `b` of a raw log does not fail: the scan finds the longest prefix of
decodable records, the repair keeps exactly that prefix and copies what it removes into one
sidecar, and the iteration yields every decodable record up to the first incomplete or oversized
header. -/
structure RecoveryTotal (gz : Gzip) (b : Bytes) (files : LogFiles) (stamp : String) : Prop where
  scan : scanRawLog gz b = .ok ⟨(validRecords gz b).length, (validPrefix gz b).length, b.length,
    (tornTail gz b).isEmpty⟩
  repair : ∃ checkpoint, run (repairTruncatedTail gz stamp) files =
    (.ok (if tornTail gz b = [] then none else some stamp),
      { log := some (validPrefix gz b)
        checkpoint
        sidecars :=
          if tornTail gz b = [] then files.sidecars
          else (stamp, tornTail gz b) :: files.sidecars })
  iter : iterRecords gz b = ⟨(records b).filterMap (decode gz), none⟩

/-- **When recovery is total**: exactly on the contents in which no complete record raises
`zlib.error`, the exception the readers do not catch. -/
theorem recoveryTotal_iff (gz : Gzip) (b : Bytes) (files : LogFiles) (stamp : String)
    (hlog : files.log = some b)
    (hcp : CheckpointAtBoundary gz b (files.checkpoint.getD []))
    (hstamp : files.sidecars.lookup stamp = none) :
    RecoveryTotal gz b files stamp ↔ NoZlibError gz b := by
  constructor
  · intro h
    exact noZlibError_of_iterRecords (by rw [h.iter])
  · intro hb
    exact ⟨scanRawLog_eq hb.not_blocked, run_repairTruncatedTail hlog hb.not_blocked hcp hstamp,
      iterRecords_eq hb⟩

/-- A log without such a record: a good record, and the first byte of a second one. -/
theorem recoveryTotal_iff_tornLog :
    let b := record 1 (sampleGzip.compress 0 [0x0a]) ++ [0x41]
    RecoveryTotal sampleGzip b { log := some b } "20260101T000000000000Z" ↔
      NoZlibError sampleGzip b :=
  recoveryTotal_iff sampleGzip _ _ _ rfl (fun n hn => by cases hn) rfl

/-- A payload that raises `zlib.error`. -/
def reservedBlock : Bytes := gzipHeader 0 ++ [0xff, 0xff]

/-- A log in which a good record follows such a payload. -/
def blockedLog : Bytes :=
  record 0 reservedBlock ++ record 1 (sampleGzip.compress 0 [0x0a])

/-- All three readers raise on it. -/
theorem recoveryTotal_blockedLog :
    let e : PyError := ⟨.zlibError, "Error -3 while decompressing data: invalid block type"⟩
    let files : LogFiles := { log := some blockedLog }
    CheckpointAtBoundary sampleGzip blockedLog (files.checkpoint.getD []) ∧
      scanRawLog sampleGzip blockedLog = .error e ∧
      run (repairTruncatedTail sampleGzip "20260101T000000000000Z") files = (.error e, files) ∧
      iterRecords sampleGzip blockedLog = ⟨[], some e⟩ ∧
      ¬ RecoveryTotal sampleGzip blockedLog files "20260101T000000000000Z" := by
  intro e files
  have hnext : next rawFormat blockedLog =
      some (recordFrame 0 reservedBlock, record 1 (sampleGzip.compress 0 [0x0a])) :=
    next_append (recordFrame_ok 0 (by decide)) _
  have hd : sampleGzip.decompress (recordFrame 0 reservedBlock).payload = .error e := by rfl
  have hun : undecodable e = false := by decide
  have hscan : scanRawLog sampleGzip blockedLog = .error e := by
    rw [scanRawLog, scanLoop_of_some hnext, hd]
    simp [hun]
  have hiter : iterRecords sampleGzip blockedLog = ⟨[], some e⟩ := by
    rw [iterRecords_of_some hnext, hd]
    simp [hun]
  refine ⟨(fun n hn => by cases hn), hscan, ?_, hiter, fun h => ?_⟩
  · have hnone : checkpointBytes [] = none := rfl
    simp [repairTruncatedTail, files, scanTail, onLog, hnone, hscan]
  · have := h.scan
    rw [hscan] at this
    cases this

end BkkCollector.Storage.RawScan
