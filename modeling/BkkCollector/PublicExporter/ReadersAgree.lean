import BkkCollector.PublicExporter.Source

/-! # The readers of a raw log against each other

Four loops read the headers of a raw log: the scan, the scan from a checkpoint, the iteration and
the exporter's. They agree on the frames; they disagree on a frame with an empty payload, which
decompresses to nothing, so that both scans count it, while the exporter refuses it. Twelve zero
bytes are such a frame.

* `iterRecords_append`: the iteration yields the decodable records first.
* `run_read`: the exporter over records it accepts, from any reader that resumes behind some of them.
* `readersAgree_iff`: the readers agree exactly where no header announces an empty payload.
-/

namespace BkkCollector.PublicExporter.ReadersAgree

open BkkCollector.Logic.Program BkkCollector.Logic.Framing BkkCollector.Python.Objects
open BkkCollector.Storage.AtomicIo BkkCollector.Storage.RawLog BkkCollector.Storage.RawScan
open BkkCollector.PublicExporter.Source

/-! ### The records a scan counted -/

/-- The records that `scan_raw_log` counted: those of the prefix it found. -/
def counted (b : Bytes) (scan : RawLogScan) : List (Frame UInt8) := records (b.take scan.validBytes)

/-- A frame that `append_record` could have written: a header, and behind it a nonempty payload
that is complete gzip data. -/
def Writable (gz : Gzip) (f : Frame UInt8) : Prop :=
  ∃ timestamp compressed raw, f = recordFrame timestamp compressed ∧ compressed ≠ [] ∧
    compressed.length ≤ maxCompressedRecordBytes ∧ gz.decompress compressed = .ok raw

/-- A finite timestamp, and sizes within the exporter's limits. -/
structure Exportable (gz : Gzip) (f : Frame UInt8) : Prop where
  finite : isFinite (unpackHeader f.head).1 = true
  frame : f.payload.length ≤ maxFrameBytes
  protobuf : ∀ raw, gz.decompress f.payload = .ok raw → raw.length ≤ maxProtobufBytes

/-- What the last of these records decodes to. -/
def lastFrame (gz : Gzip) (fs : List (Frame UInt8)) : Option (Timestamp × Bytes) :=
  fs.getLast?.bind (decode gz)

/-- A reader that read this file before stands behind some of these records, and kept the last of
them; where it stands beyond all of them it starts again. -/
def Resumes (gz : Gzip) (identity : ℕ × ℕ × ℕ) (fs : List (Frame UInt8))
    (r : LatestVehicleFrame) : Prop :=
  r.identity = some identity → r.offset ≤ (encode fs).length →
    ∃ k ≤ fs.length, r.offset = (encode (fs.take k)).length ∧ r.latest = lastFrame gz (fs.take k)

/-- The newest raw log starts with the records `fs`, and its checkpoint is the one that a repair or
an append writes behind them. -/
structure Published (fs : List (Frame UInt8)) (today date : ℕ) (day : DailyLog) (e : Export) :
    Prop where
  newest : newest today e.days = some date
  lookup : e.days.lookup date = some day
  log : ∃ more, day.files.log = some (encode fs ++ more)
  checkpoint : ∃ updatedAt, day.files.checkpoint = some (checkpointRow (encode fs).length updatedAt)

variable {gz : Gzip}

theorem ok_of_records_take {b : Bytes} {n : ℕ} {f : Frame UInt8} (h : f ∈ records (b.take n)) :
    f.Ok rawFormat :=
  (chain_sound (b.take n)).2.1 f h

theorem take_validPrefix (b : Bytes) : b.take (validPrefix gz b).length = validPrefix gz b := by
  have h := congrArg (List.take (validPrefix gz b).length) (@validPrefix_append_tornTail gz b)
  rw [List.take_left] at h
  exact h.symm

/-- The records of the prefix are the decodable ones. -/
theorem records_validPrefix (b : Bytes) : records (validPrefix gz b) = validRecords gz b := by
  have hok : ∀ f ∈ validRecords gz b, f.Ok rawFormat := fun f hf => ok_of_mem_validRecords hf
  have h := records_append hok []
  rw [List.append_nil, records_of_none next_nil, List.append_nil] at h
  exact h

/-- A frame with an accepted header is the packing of its timestamp and its payload. -/
theorem eq_recordFrame {f : Frame UInt8} (hf : f.Ok rawFormat) :
    f = recordFrame (unpackHeader f.head).1 f.payload ∧
      f.payload.length ≤ maxCompressedRecordBytes := by
  have hsize := hf.size
  simp only [rawFormat] at hsize
  split_ifs at hsize with hmax
  rw [Option.some.injEq] at hsize
  refine ⟨?_, by omega⟩
  have hhead : packHeader (unpackHeader f.head).1 f.payload.length = f.head := by
    rw [← hsize]
    exact packHeader_unpackHeader hf.head
  obtain ⟨head, payload⟩ := f
  rw [recordFrame, hhead]

theorem writable_of_mem {b : Bytes} {f : Frame UInt8} (hf : f ∈ validRecords gz b)
    (hne : f.payload ≠ []) : Writable gz f := by
  obtain ⟨heq, hlen⟩ := eq_recordFrame (ok_of_mem_validRecords hf)
  have hdec := decode_of_mem_validRecords hf
  cases hd : gz.decompress f.payload with
  | error e => simp [decode, hd] at hdec
  | ok raw => exact ⟨_, _, raw, heq, hne, hlen, hd⟩

/-! ### The iteration -/

/-- The iteration yields the decodable records at the start of a log first. -/
theorem iterRecords_append {fs : List (Frame UInt8)} (hfs : ∀ f ∈ fs, f.Ok rawFormat)
    (hdec : ∀ f ∈ fs, (decode gz f).isSome) (b : Bytes) :
    (iterRecords gz (encode fs ++ b)).yielded.map some =
      fs.map (decode gz) ++ (iterRecords gz b).yielded.map some := by
  induction fs with
  | nil => rfl
  | cons f fs ih =>
    obtain ⟨hf, hfs⟩ := List.forall_mem_cons.mp hfs
    obtain ⟨hd, hdec⟩ := List.forall_mem_cons.mp hdec
    have hnext : next rawFormat (encode (f :: fs) ++ b) = some (f, encode fs ++ b) := by
      rw [encode_cons, List.append_assoc]
      exact next_append hf _
    rw [iterRecords_of_some hnext]
    cases hraw : gz.decompress f.payload with
    | error e => simp [decode, hraw] at hd
    | ok raw =>
      have hdecode : decode gz f = some ((unpackHeader f.head).1, raw) := by rw [decode, hraw]
      simp only [List.map_cons, List.cons_append, hdecode, ih hfs hdec]

/-! ### The exporter -/

/-- `last_header` behind the frames `fs`, which start at `tell`. -/
def lastHeader (tell : ℕ) : List (Frame UInt8) → Option LastHeader → Option LastHeader
  | [], last => last
  | f :: fs, _ => lastHeader (tell + f.bytes.length) fs
      (some ⟨(unpackHeader f.head).1, tell + headerSize, f.payload.length⟩)

theorem lastHeader_concat (fs : List (Frame UInt8)) (f : Frame UInt8) (tell : ℕ)
    (last : Option LastHeader) : lastHeader tell (fs ++ [f]) last =
      some ⟨(unpackHeader f.head).1, tell + (encode fs).length + headerSize, f.payload.length⟩ := by
  induction fs generalizing tell last with
  | nil => rfl
  | cons g fs ih =>
    rw [List.cons_append, lastHeader, ih, encode_cons, List.length_append, Nat.add_assoc tell]

/-- The size a header announces is that of the payload. -/
theorem length_of_ok {f : Frame UInt8} (hf : f.Ok rawFormat) :
    (unpackHeader f.head).2 = f.payload.length ∧
      f.bytes.length = headerSize + f.payload.length := by
  refine ⟨?_, by rw [Frame.bytes, List.length_append, hf.head]; rfl⟩
  have hsize := hf.size
  simp only [rawFormat] at hsize
  split_ifs at hsize
  exact Option.some.inj hsize

/-- **The header loop** over frames it accepts ends at the last of them. -/
theorem readHeaders_frames {fs : List (Frame UInt8)} (hfs : ∀ f ∈ fs, f.Ok rawFormat)
    (hexp : ∀ f ∈ fs, Exportable gz f) (hne : ∀ f ∈ fs, f.payload ≠ []) (before more : Bytes)
    (last : Option LastHeader) :
    readHeaders (before ++ (encode fs ++ more)) (before.length + (encode fs).length) before.length
      last = .ok (lastHeader before.length fs last) := by
  induction fs generalizing before last with
  | nil =>
    rw [readHeaders, if_neg (by simp)]
    rfl
  | cons f fs ih =>
    obtain ⟨hf, hfs⟩ := List.forall_mem_cons.mp hfs
    obtain ⟨hx, hexp⟩ := List.forall_mem_cons.mp hexp
    obtain ⟨hn, hne⟩ := List.forall_mem_cons.mp hne
    obtain ⟨hsize, hbytes⟩ := length_of_ok hf
    have hhead : (((before ++ (encode (f :: fs) ++ more)).drop before.length).take headerSize) =
        f.head := by
      rw [List.drop_left, encode_cons, Frame.bytes, List.append_assoc, List.append_assoc]
      exact List.take_left' hf.head
    have hpos : 0 < f.payload.length := List.length_pos_iff.mpr hn
    have hframe := hx.frame
    have hlog : before ++ (encode (f :: fs) ++ more) = (before ++ f.bytes) ++ (encode fs ++ more) := by
      rw [encode_cons, List.append_assoc, List.append_assoc]
    have hend : before.length + (encode (f :: fs)).length =
        (before ++ f.bytes).length + (encode fs).length := by
      rw [encode_cons, List.length_append, List.length_append, Nat.add_assoc]
    have htell : before.length + headerSize + f.payload.length = (before ++ f.bytes).length := by
      rw [List.length_append, hbytes, Nat.add_assoc]
    have hlt : before.length < before.length + (encode (f :: fs)).length := by
      rw [encode_cons, List.length_append, hbytes]
      omega
    have hinvalid : (!isFinite (unpackHeader f.head).1 || f.payload.length == 0 ||
        decide (f.payload.length > maxFrameBytes)) = false := by
      simp only [hx.finite, Bool.not_true, Bool.false_or, Bool.or_eq_false_iff, beq_eq_false_iff_ne,
        decide_eq_false_iff_not]
      exact ⟨hpos.ne', by omega⟩
    have hfits : ¬ before.length + headerSize + f.payload.length >
        before.length + (encode (f :: fs)).length := by
      rw [htell, hend]
      omega
    have hheadlen : ¬ f.head.length ≠ headerSize := fun h => h hf.head
    rw [readHeaders, if_pos hlt]
    simp only [hhead, hsize, hinvalid, Bool.false_eq_true, if_false]
    rw [if_neg hheadlen, if_neg hfits, htell, hlog, hend, ih hfs hexp hne, lastHeader, hbytes,
      List.length_append, hbytes]

variable {gz : GzipReader}

/-- The last frame is read and decompressed. -/
theorem readFrame_last {f : Frame UInt8} (hx : Exportable gz.toGzip f) (before more : Bytes)
    (hf : f.Ok rawFormat) (hdec : (decode gz.toGzip f).isSome) :
    ∃ frame, decode gz.toGzip f = some frame ∧
      readFrame gz (before ++ (f.bytes ++ more))
        ⟨(unpackHeader f.head).1, before.length + headerSize, f.payload.length⟩ = .ok frame := by
  have hpayload : ((before ++ (f.bytes ++ more)).drop (before.length + headerSize)).take
      f.payload.length = f.payload := by
    have hassoc : before ++ (f.bytes ++ more) = (before ++ f.head) ++ (f.payload ++ more) := by
      rw [Frame.bytes, List.append_assoc, List.append_assoc]
    have hlen : (before ++ f.head).length = before.length + headerSize := by
      rw [List.length_append, hf.head]
      rfl
    rw [hassoc, List.drop_left' hlen, List.take_left]
  cases hd : gz.decompress f.payload with
  | error e => simp [decode, hd] at hdec
  | ok raw =>
    have hraw : raw.length ≤ maxProtobufBytes := hx.protobuf raw hd
    have hread := gz.read_of_decompress (maxProtobufBytes + 1) _ _ hd
    rw [List.take_of_length_le (by omega)] at hread
    refine ⟨((unpackHeader f.head).1, raw), by rw [decode, hd], ?_⟩
    simp only [readFrame, hpayload, if_true]
    show (gz.read (maxProtobufBytes + 1) f.payload >>= _) = _
    rw [hread]
    show ((if raw.length ≤ maxProtobufBytes then _ else _) : Except PyError _) = _
    rw [if_pos hraw]
    rfl

theorem checkpointEnd_row (n : ℕ) (updatedAt : Option Timestamp) :
    checkpointEnd (checkpointRow n updatedAt) = some n := by
  have hn : ¬ (n : ℤ) < 0 := by omega
  show (if (n : ℤ) < 0 then none else some (n : ℤ).toNat) = some n
  rw [if_neg hn, Int.toNat_natCast]

/-- Where a reader starts to read: behind some of the records, with the last of them at hand. -/
theorem follow_resumes {identity : ℕ × ℕ × ℕ} {fs : List (Frame UInt8)} {r : LatestVehicleFrame}
    (hr : Resumes gz.toGzip identity fs r) :
    ∃ k ≤ fs.length, r.follow identity (encode fs).length =
      ⟨some identity, (encode (fs.take k)).length, lastFrame gz.toGzip (fs.take k)⟩ := by
  unfold LatestVehicleFrame.follow
  split_ifs with h
  · exact ⟨0, Nat.zero_le _, rfl⟩
  · rw [not_or, not_not, not_lt] at h
    obtain ⟨k, hk, hoffset, hlatest⟩ := hr h.1.symm h.2
    refine ⟨k, hk, ?_⟩
    obtain ⟨identity', offset, latest⟩ := r
    subst hoffset hlatest
    rw [h.1]

/-- The reader after all of the records. -/
def standing (gz : Gzip) (identity : ℕ × ℕ × ℕ) (fs : List (Frame UInt8)) : LatestVehicleFrame :=
  ⟨some identity, (encode fs).length, lastFrame gz fs⟩

/-- The reader resumes there when more records follow. -/
theorem resumes_standing (identity : ℕ × ℕ × ℕ) (fs more : List (Frame UInt8)) :
    Resumes gz.toGzip identity (fs ++ more) (standing gz.toGzip identity fs) := by
  intro _ _
  refine ⟨fs.length, by rw [List.length_append]; omega, ?_, ?_⟩
  · rw [List.take_left]; rfl
  · rw [List.take_left]; rfl

/-- The answer of a reader that accepts the records: the last of them, if there is one. -/
def answer (gz : Gzip) (fs : List (Frame UInt8)) : Except PyError (Timestamp × Bytes) :=
  match lastFrame gz fs with
  | some frame => .ok frame
  | none => .error ⟨.valueError, "no committed vehicle frame"⟩

/-- From behind the first `k` records the header loop ends at the last record, if it reads any. -/
theorem readHeaders_resumed {fs : List (Frame UInt8)} (hfs : ∀ f ∈ fs, f.Ok rawFormat)
    (hexp : ∀ f ∈ fs, Exportable gz.toGzip f) (hne : ∀ f ∈ fs, f.payload ≠ []) (k : ℕ)
    (more : Bytes) :
    readHeaders (encode fs ++ more) (encode fs).length (encode (fs.take k)).length none =
      .ok (lastHeader (encode (fs.take k)).length (fs.drop k) none) := by
  have hdrop : ∀ f ∈ fs.drop k, f ∈ fs := fun f hf => List.mem_of_mem_drop hf
  have hsplit : encode fs = encode (fs.take k) ++ encode (fs.drop k) := by
    rw [← encode_append, List.take_append_drop]
  have h := readHeaders_frames (fun f hf => hfs f (hdrop f hf)) (fun f hf => hexp f (hdrop f hf))
    (fun f hf => hne f (hdrop f hf)) (encode (fs.take k)) more none
  rw [← List.append_assoc, ← hsplit, ← List.length_append, ← hsplit] at h
  exact h

/-- The reader then stands behind all of the records. -/
theorem keepFrame_resumed {fs : List (Frame UInt8)} {date : ℕ} {day : DailyLog} {e : Export}
    {more : Bytes} (hfs : ∀ f ∈ fs, f.Ok rawFormat) (hdec : ∀ f ∈ fs, (decode gz.toGzip f).isSome)
    (hexp : ∀ f ∈ fs, Exportable gz.toGzip f) (hday : e.days.lookup date = some day)
    (hlog : day.files.log = some (encode fs ++ more)) (identity : ℕ × ℕ × ℕ) (k : ℕ)
    (hreader : e.reader =
      ⟨some identity, (encode (fs.take k)).length, lastFrame gz.toGzip (fs.take k)⟩) :
    keepFrame gz date (encode fs).length
      (lastHeader (encode (fs.take k)).length (fs.drop k) none) e =
        .ok ({ e with reader := standing gz.toGzip identity fs }, lastFrame gz.toGzip fs) := by
  rcases List.eq_nil_or_concat (fs.drop k) with hnil | ⟨init, f, hinit⟩
  · -- nothing new: the frame at hand is the last one
    have htake : fs.take k = fs := by
      have h := List.take_append_drop k fs
      rwa [hnil, List.append_nil] at h
    rw [hnil]
    simp only [lastHeader, keepFrame, hreader, htake, standing]
  · rw [List.concat_eq_append] at hinit
    have hf : f ∈ fs := List.mem_of_mem_drop (hinit ▸ List.mem_append_right _ List.mem_cons_self)
    have hall : fs = (fs.take k ++ init) ++ [f] := by
      rw [List.append_assoc, ← hinit, List.take_append_drop]
    have hbytes : encode fs ++ more = encode (fs.take k ++ init) ++ (f.bytes ++ more) := by
      conv_lhs => rw [hall]
      rw [encode_append, encode_cons, encode_nil, List.append_nil, List.append_assoc]
    obtain ⟨frame, hframe, hread⟩ := readFrame_last (hexp f hf) (encode (fs.take k ++ init)) more
      (hfs f hf) (hdec f hf)
    have hlast : lastFrame gz.toGzip fs = some frame := by
      conv_lhs => rw [hall]
      rw [lastFrame, List.getLast?_concat, Option.bind_some, hframe]
    have hpos : (encode (fs.take k)).length + (encode init).length + headerSize =
        (encode (fs.take k ++ init)).length + headerSize := by
      rw [encode_append, List.length_append]
    rw [hinit, lastHeader_concat, hpos]
    simp only [keepFrame, onDay, hday, hlog, hbytes, hread, Except.map, standing, hlast, hreader]

/-- **The exporter** over records it accepts, from any reader that resumes behind some of them. -/
theorem run_read {fs : List (Frame UInt8)} {today date : ℕ} {day : DailyLog} {e : Export}
    (hfs : ∀ f ∈ fs, f.Ok rawFormat) (hdec : ∀ f ∈ fs, (decode gz.toGzip f).isSome)
    (hexp : ∀ f ∈ fs, Exportable gz.toGzip f) (hne : ∀ f ∈ fs, f.payload ≠ [])
    (hp : Published fs today date day e)
    (hr : Resumes gz.toGzip (date, day.device, day.inode) fs e.reader) :
    run (LatestVehicleFrame.read gz today) e = (answer gz.toGzip fs,
      { e with reader := standing gz.toGzip (date, day.device, day.inode) fs }) := by
  obtain ⟨more, hlog⟩ := hp.log
  obtain ⟨updatedAt, hcheckpoint⟩ := hp.checkpoint
  obtain ⟨k, hk, hfollow⟩ := follow_resumes hr
  set r : LatestVehicleFrame := ⟨some (date, day.device, day.inode), (encode (fs.take k)).length,
    lastFrame gz.toGzip (fs.take k)⟩ with hreader
  have hsize : ¬ (encode fs).length > (encode fs ++ more).length := by
    rw [List.length_append]
    omega
  have hcp : readCheckpoint date e = .ok (checkpointRow (encode fs).length updatedAt) := by
    simp only [readCheckpoint, hp.lookup, Option.bind_some, hcheckpoint]
  have hstat : followFile date (encode fs).length e = .ok ({ e with reader := r }, ()) := by
    simp only [followFile, onDay, hp.lookup, hlog, if_neg hsize, hfollow]
  have hheaders : onDay date { e with reader := r } (fun _ b =>
      readHeaders b (encode fs).length r.offset none) =
        .ok (lastHeader (encode (fs.take k)).length (fs.drop k) none) := by
    simp only [onDay, hp.lookup, hlog]
    exact readHeaders_resumed hfs hexp hne k more
  have hkeep := keepFrame_resumed (e := { e with reader := r }) hfs hdec hexp hp.lookup hlog
    (date, day.device, day.inode) k hreader
  cases hlast : lastFrame gz.toGzip fs with
  | none =>
    simp [LatestVehicleFrame.read, hp.newest, hcp, checkpointEnd_row, hstat, hheaders, hkeep, hlast,
      answer]
  | some frame =>
    simp [LatestVehicleFrame.read, hp.newest, hcp, checkpointEnd_row, hstat, hheaders, hkeep, hlast,
      answer]

/-! ### Agreement -/

/-- The readers of the raw format agree on the content `b` of a raw log.

The records that the scan counts are the first ones that the iteration yields, and each of them is a
frame that `append_record` could have written; the repair keeps them and detaches whatever follows;
and where all of them are within the exporter's limits, the exporter answers with the last of
them. -/
structure Agree (gz : GzipReader) (b : Bytes) (scan : RawLogScan) : Prop where
  counts : (counted b scan).length = scan.completeRecords ∧
    encode (counted b scan) = b.take scan.validBytes
  first : ((iterRecords gz.toGzip b).yielded.take scan.completeRecords).map some =
    (counted b scan).map (decode gz.toGzip)
  writable : ∀ f ∈ counted b scan, Writable gz.toGzip f
  detached : ∀ files stamp, files.log = some b →
    CheckpointAtBoundary gz.toGzip b (files.checkpoint.getD []) →
    files.sidecars.lookup stamp = none →
    ∃ checkpoint, run (repairTruncatedTail gz.toGzip stamp) files =
      (.ok (if b.drop scan.validBytes = [] then none else some stamp),
        { log := some (b.take scan.validBytes)
          checkpoint
          sidecars :=
            if b.drop scan.validBytes = [] then files.sidecars
            else (stamp, b.drop scan.validBytes) :: files.sidecars })
  exported : (∀ f ∈ counted b scan, Exportable gz.toGzip f) → ∀ today date day e,
    Published (counted b scan) today date day e →
    Resumes gz.toGzip (date, day.device, day.inode) (counted b scan) e.reader →
    run (LatestVehicleFrame.read gz today) e = (answer gz.toGzip (counted b scan),
      { e with reader :=
          standing gz.toGzip (date, day.device, day.inode) (counted b scan) })

/-- Behind decodable records stands a header that announces an empty payload. -/
def EmptyPayload (gz : Gzip) (b : Bytes) : Prop :=
  ∃ fs timestamp rest, (∀ f ∈ fs, f.Ok rawFormat ∧ (decode gz f).isSome) ∧
    b = encode fs ++ (packHeader timestamp 0 ++ rest)

theorem scan_eq {b : Bytes} {scan : RawLogScan} (h : scanRawLog gz.toGzip b = .ok scan) :
    ¬ Blocked gz.toGzip b ∧ scan = ⟨(validRecords gz.toGzip b).length,
      (validPrefix gz.toGzip b).length, b.length, (tornTail gz.toGzip b).isEmpty⟩ := by
  have hb : ¬ Blocked gz.toGzip b := by
    intro hb
    have hloop : ∃ e, scanLoop gz.toGzip true true b.length 0 0 0 b = .error e :=
      scanLoop_of_blocked b 0 0 0 hb
    obtain ⟨e, he⟩ := hloop
    rw [scanRawLog, he] at h
    cases h
  rw [scanRawLog_eq hb, Except.ok.injEq] at h
  exact ⟨hb, h.symm⟩

/-- A decodable record with an empty payload is where such a header stands. -/
theorem emptyPayload_iff (hnil : gz.decompress [] = .ok []) (b : Bytes) :
    EmptyPayload gz.toGzip b ↔ ∃ f ∈ validRecords gz.toGzip b, f.payload = [] := by
  constructor
  · rintro ⟨fs, timestamp, rest, hfs, rfl⟩
    have hok : (recordFrame timestamp []).Ok rawFormat := recordFrame_ok timestamp (by decide)
    have hdec : (decode gz.toGzip (recordFrame timestamp [])).isSome := by
      simp [decode, recordFrame, hnil]
    have hbytes : packHeader timestamp 0 ++ rest = encode [recordFrame timestamp []] ++ rest := by
      simp [recordFrame, Frame.bytes]
    refine ⟨recordFrame timestamp [], ?_, rfl⟩
    rw [validRecords_append (fun f hf => (hfs f hf).1) (fun f hf => (hfs f hf).2), hbytes,
      validRecords_append (by simpa using hok) (by simpa using hdec)]
    simp
  · rintro ⟨f, hf, hpayload⟩
    obtain ⟨before, after, hsplit⟩ := List.append_of_mem hf
    have hmem : ∀ g ∈ before, g ∈ validRecords gz.toGzip b := fun g hg => by
      rw [hsplit]
      exact List.mem_append_left _ hg
    obtain ⟨heq, -⟩ := eq_recordFrame (ok_of_mem_validRecords hf)
    refine ⟨before, (unpackHeader f.head).1, encode after ++ tornTail gz.toGzip b,
      fun g hg => ⟨ok_of_mem_validRecords (hmem g hg), decode_of_mem_validRecords (hmem g hg)⟩, ?_⟩
    have hhead : f.bytes = packHeader (unpackHeader f.head).1 0 := by
      rw [heq, recordFrame_bytes, record, hpayload, List.append_nil]
      simp [recordFrame, unpackHeader_packHeader]
    conv_lhs => rw [← @validPrefix_append_tornTail gz.toGzip b, validPrefix, hsplit]
    rw [encode_append, encode_cons, hhead, List.append_assoc, List.append_assoc]

/-- **When the readers agree**: exactly where no header behind decodable records announces an empty
payload. A scan that raises counts nothing. -/
theorem readersAgree_iff (gz : GzipReader) (hnil : gz.decompress [] = .ok []) (b : Bytes) :
    (∀ scan, scanRawLog gz.toGzip b = .ok scan → Agree gz b scan) ↔
      (EmptyPayload gz.toGzip b → Blocked gz.toGzip b) := by
  constructor
  · intro h hempty
    by_contra hb
    obtain ⟨f, hf, hpayload⟩ := (emptyPayload_iff hnil b).mp hempty
    have hagree := h _ (scanRawLog_eq hb)
    have hcounted : f ∈ counted b ⟨(validRecords gz.toGzip b).length,
        (validPrefix gz.toGzip b).length, b.length, (tornTail gz.toGzip b).isEmpty⟩ := by
      rw [counted, take_validPrefix, records_validPrefix]
      exact hf
    obtain ⟨timestamp, compressed, raw, rfl, hne, -⟩ := hagree.writable f hcounted
    exact hne hpayload
  · intro h scan hscan
    obtain ⟨hb, rfl⟩ := scan_eq hscan
    have hne : ∀ f ∈ validRecords gz.toGzip b, f.payload ≠ [] := fun f hf hpayload =>
      hb (h ((emptyPayload_iff hnil b).mpr ⟨f, hf, hpayload⟩))
    have hok : ∀ f ∈ validRecords gz.toGzip b, f.Ok rawFormat := fun f hf =>
      ok_of_mem_validRecords hf
    have hdec : ∀ f ∈ validRecords gz.toGzip b, (decode gz.toGzip f).isSome := fun f hf =>
      decode_of_mem_validRecords hf
    have hcounted : counted b ⟨(validRecords gz.toGzip b).length,
        (validPrefix gz.toGzip b).length, b.length, (tornTail gz.toGzip b).isEmpty⟩ =
          validRecords gz.toGzip b := by
      rw [counted, take_validPrefix, records_validPrefix]
    have htail : b.drop (validPrefix gz.toGzip b).length = tornTail gz.toGzip b := rfl
    have hfirst := iterRecords_append hok hdec (tornTail gz.toGzip b)
    rw [show encode (validRecords gz.toGzip b) ++ tornTail gz.toGzip b = b from
      validPrefix_append_tornTail b] at hfirst
    refine ⟨?_, ?_, ?_, ?_, ?_⟩
    · rw [hcounted, take_validPrefix]
      exact ⟨rfl, rfl⟩
    · rw [hcounted, List.map_take, hfirst, List.take_left' (List.length_map _)]
    · rw [hcounted]
      exact fun f hf => writable_of_mem hf (hne f hf)
    · intro files stamp hlog hcp hstamp
      simp only [take_validPrefix, htail]
      exact run_repairTruncatedTail hlog hb hcp hstamp
    · rw [hcounted]
      intro hexp today date day e hp hr
      exact run_read hok hdec hexp hne hp hr

/-- The sample compressor with a reader. -/
def sampleReader : GzipReader where
  toGzip := sampleGzip
  read size b := (sampleGzip.decompress b).map (·.take size)
  read_of_decompress size b raw h := by rw [h]; rfl

/-- A good record, and the first byte of a second one. -/
theorem readersAgree_iff_tornLog :
    let b := record 1 (sampleGzip.compress 0 [0x0a]) ++ [0x41]
    (∀ scan, scanRawLog sampleGzip b = .ok scan → Agree sampleReader b scan) ↔
      (EmptyPayload sampleGzip b → Blocked sampleGzip b) :=
  readersAgree_iff sampleReader rfl _

/-- A good record, and twelve zero bytes behind it. -/
def zeroTail : Bytes := record 1 (sampleGzip.compress 0 [0x0a]) ++ List.replicate 12 0

/-- The log with the checkpoint that an append behind the zero bytes writes. -/
def zeroTailExport : Export where
  days := [(20000, ⟨{ log := some zeroTail, checkpoint := some (checkpointRow 45 none) }, 0, 1⟩)]

/-- The zero bytes count as a record, the repair leaves them where they are, and the exporter
refuses the log. -/
theorem not_readersAgree_zeroTail :
    scanRawLog sampleGzip zeroTail = .ok ⟨2, 45, 45, true⟩ ∧
      (run (repairTruncatedTail sampleGzip "20260101T000000000000Z") { log := some zeroTail }).2.log =
        some zeroTail ∧
      (run (LatestVehicleFrame.read sampleReader 20000) zeroTailExport).1 =
        .error ⟨.valueError, "invalid vehicle frame"⟩ ∧
      ¬ ∀ scan, scanRawLog sampleGzip zeroTail = .ok scan → Agree sampleReader zeroTail scan := by
  have hscan : scanRawLog sampleGzip zeroTail = .ok ⟨2, 45, 45, true⟩ := by decide +kernel
  have hmem : recordFrame 0 [] ∈ counted zeroTail ⟨2, 45, 45, true⟩ := by decide +kernel
  refine ⟨hscan, by decide +kernel, by decide +kernel, fun h => ?_⟩
  obtain ⟨timestamp, compressed, raw, heq, hne, -⟩ := (h _ hscan).writable _ hmem
  rw [recordFrame, recordFrame, Frame.mk.injEq] at heq
  exact hne heq.2.symm

end BkkCollector.PublicExporter.ReadersAgree
