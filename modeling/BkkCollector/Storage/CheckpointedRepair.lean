import BkkCollector.Storage.RawScan

/-! # Repairing from a checkpoint

A repair starts to scan at the checkpoint. Wherever the checkpoint names a boundary of the complete
records, or nothing within the file, the repair does what it does without a checkpoint, and a further
repair has nothing left to do.

* `run_repair_checkpointed`: the repair of a log of complete records and a tail.
* `ensures_repair`: one that fails or is interrupted does not cut below a boundary either.
* `checkpointedRepair_eq_fullScan` has both.
-/

namespace BkkCollector.Storage.CheckpointedRepair

open BkkCollector.Logic.Program BkkCollector.Logic.Framing BkkCollector.Python.Objects
open BkkCollector.Storage.AtomicIo BkkCollector.Storage.RawLog BkkCollector.Storage.RawScan

/-! ### Logs and checkpoints -/

/-- A log of complete decodable records, and a tail whose decoding does not raise `zlib.error`. -/
structure Log (gz : Gzip) (fs : List (Frame UInt8)) (tail : Bytes) : Prop where
  ok : ∀ f ∈ fs, f.Ok rawFormat
  decodable : ∀ f ∈ fs, (decode gz f).isSome
  tail : ¬ Blocked gz tail

/-- The checkpoint names the end of a record, or no position of the file: it has another version or
lies beyond the end. One that is missing or cannot be parsed reads as an empty one. -/
def AtBoundary (fs : List (Frame UInt8)) (size : ℕ) (checkpoint : Row) : Prop :=
  ∀ n, checkpointBytes checkpoint = some n →
    (∃ k ≤ fs.length, n = ((encode (fs.take k)).length : ℤ)) ∨ ¬ (0 ≤ n ∧ n ≤ size)

variable {gz : Gzip} {fs : List (Frame UInt8)} {tail : Bytes} {files : LogFiles} {stamp : String}

namespace Log

theorem notBlocked (h : Log gz fs tail) : ¬ Blocked gz (encode fs ++ tail) := by
  rw [Blocked, firstUndecodable_append h.ok h.decodable]
  exact h.tail

theorem validRecords (h : Log gz fs tail) :
    RawScan.validRecords gz (encode fs ++ tail) = fs ++ RawScan.validRecords gz tail :=
  validRecords_append h.ok h.decodable tail

/-- A boundary of the complete records is one of the records that a scan finds. -/
theorem take (h : Log gz fs tail) {k : ℕ} (hk : k ≤ fs.length) :
    k ≤ (RawScan.validRecords gz (encode fs ++ tail)).length ∧
      (RawScan.validRecords gz (encode fs ++ tail)).take k = fs.take k := by
  rw [h.validRecords]
  refine ⟨hk.trans ?_, List.take_append_of_le_length hk⟩
  rw [List.length_append]
  exact Nat.le_add_right _ _

/-- The records before a boundary are part of the prefix that stays. -/
theorem length_take_le (h : Log gz fs tail) (k : ℕ) :
    (encode (fs.take k)).length ≤ (validPrefix gz (encode fs ++ tail)).length := by
  rw [validPrefix, h.validRecords]
  conv_rhs => rw [← List.take_append_drop k fs]
  simp only [encode_append, List.length_append]
  omega

end Log

/-! ### The repair -/

/-- A checkpoint that lies outside the file is ignored. -/
theorem run_scanTail_outside {b : Bytes} {checkpoint : Row} {n : ℤ} (hlog : files.log = some b)
    (hb : ¬ Blocked gz b) (hn : checkpointBytes checkpoint = some n)
    (hout : ¬ (0 ≤ n ∧ n ≤ b.length)) :
    run (scanTail gz checkpoint) files = (.ok (some ⟨(validRecords gz b).length,
      (validPrefix gz b).length, b.length, (tornTail gz b).isEmpty⟩), files) := by
  simp [scanTail, onLog, hlog, hn, if_neg hout, scanRawLog_eq hb]

/-- The scan of the repair, from the checkpoint or from the start. -/
theorem run_scanTail_checkpointed (h : Log gz fs tail) (hlog : files.log = some (encode fs ++ tail))
    {checkpoint : Row} (hcp : AtBoundary fs (encode fs ++ tail).length checkpoint) :
    (run (scanTail gz checkpoint) files = (.ok none, files) ∧
        tornTail gz (encode fs ++ tail) = []) ∨
      ∃ n, run (scanTail gz checkpoint) files =
        (.ok (some ⟨n, (validPrefix gz (encode fs ++ tail)).length, (encode fs ++ tail).length,
          (tornTail gz (encode fs ++ tail)).isEmpty⟩), files) := by
  by_cases hrange : ∃ n, checkpointBytes checkpoint = some n ∧
      ¬ (0 ≤ n ∧ n ≤ (encode fs ++ tail).length)
  · obtain ⟨n, hn, hout⟩ := hrange
    exact Or.inr ⟨_, run_scanTail_outside hlog h.notBlocked hn hout⟩
  · refine run_scanTail hlog h.notBlocked fun n hn => ?_
    rcases hcp n hn with ⟨k, hk, rfl⟩ | hout
    · obtain ⟨hle, htake⟩ := h.take hk
      exact ⟨k, hle, by rw [htake]⟩
    · exact absurd ⟨n, hn, hout⟩ hrange

/-- **The repair**: what it leaves, and the checkpoint that covers it. -/
theorem run_repair_checkpointed (h : Log gz fs tail) (hlog : files.log = some (encode fs ++ tail))
    (hcp : AtBoundary fs (encode fs ++ tail).length (files.checkpoint.getD []))
    (hstamp : tornTail gz (encode fs ++ tail) ≠ [] → files.sidecars.lookup stamp = none) :
    ∃ checkpoint, run (repairTruncatedTail gz stamp) files =
      (.ok (if tornTail gz (encode fs ++ tail) = [] then none else some stamp),
        { log := some (validPrefix gz (encode fs ++ tail))
          checkpoint
          sidecars :=
            if tornTail gz (encode fs ++ tail) = [] then files.sidecars
            else (stamp, tornTail gz (encode fs ++ tail)) :: files.sidecars }) ∧
      checkpointBytes (checkpoint.getD []) =
        some ((validPrefix gz (encode fs ++ tail)).length : ℤ) :=
  run_repair_of_scan hlog hstamp (run_scanTail_checkpointed h hlog hcp)

/-- Where the name of the sidecar is taken, a repair with something to detach raises and leaves
everything. -/
theorem run_repair_taken (h : Log gz fs tail) (hlog : files.log = some (encode fs ++ tail))
    (hcp : AtBoundary fs (encode fs ++ tail).length (files.checkpoint.getD []))
    (htorn : tornTail gz (encode fs ++ tail) ≠ []) {taken : Bytes}
    (hstamp : files.sidecars.lookup stamp = some taken) :
    run (repairTruncatedTail gz stamp) files = (.error ⟨.fileExistsError, ""⟩, files) := by
  rcases run_scanTail_checkpointed h hlog hcp with ⟨-, hclean⟩ | ⟨n, hscan⟩
  · exact absurd hclean htorn
  · have hunclean : (tornTail gz (encode fs ++ tail)).isEmpty = false := by
      rw [← Bool.not_eq_true, List.isEmpty_iff]
      exact htorn
    rw [hunclean] at hscan
    simp [repairTruncatedTail, hlog, hscan, detachTail, hstamp]

/-- A repair of a log that its checkpoint covers does nothing. -/
theorem run_repair_covered {b : Bytes} (hlog : files.log = some b)
    (hcp : checkpointBytes (files.checkpoint.getD []) = some (b.length : ℤ)) (stamp : String) :
    run (repairTruncatedTail gz stamp) files = (.ok none, files) := by
  simp [repairTruncatedTail, scanTail, onLog, hlog, hcp]

/-! ### Failures and interruptions -/

/-- The log is whole, or cut behind its longest prefix of decodable records. -/
def Whole (gz : Gzip) (b : Bytes) (s : LogFiles) : Prop :=
  s.log = some b ∨ s.log = some (validPrefix gz b)

/-- A repair alone with its log, whatever fails. -/
abbrev Repairing (gz : Gzip) (b : Bytes) : Contract LogFiles RawOp Choice :=
  Contract.alone (fun _ _ _ => True) fun _ t => Whole gz b t

theorem take_validPrefix (b : Bytes) : b.take (validPrefix gz b).length = validPrefix gz b := by
  conv_lhs => arg 2; rw [← @validPrefix_append_tornTail gz b]
  rw [List.take_left]

/-- Whatever a scan raises, what it returns ends behind the prefix. -/
theorem ensures_onLog_scan {b : Bytes} {f : Bytes → Except PyError RawLogScan}
    (hlog : files.log = some b)
    (hf : ∃ n, f b = .ok ⟨n, (validPrefix gz b).length, b.length, (tornTail gz b).isEmpty⟩) :
    Ensures (Repairing gz b)
      (fun scan t => t.log = some b ∧ ∀ r, scan = some r → r.validBytes = (validPrefix gz b).length)
      (fun _ t => Whole gz b t) (some <$> onLog .scan f) files := by
  obtain ⟨n, hn⟩ := hf
  refine Ensures.through (fun r t => t.log = some b ∧ r.validBytes = (validPrefix gz b).length)
    (alone_fsRead (Or.inl hlog) (fun r hr => ⟨hlog, ?_⟩) (fun _ _ => Or.inl hlog) (Or.inl hlog))
    fun r t ht => alone_pure ⟨ht.1, fun r' hr => ?_⟩
  · simp only [hlog, hn, Except.ok.injEq] at hr
    rw [← hr]
  · cases hr
    exact ht.2

/-- The scan of a repair, from any checkpoint that it may have read. -/
theorem ensures_scanTail (h : Log gz fs tail) (hlog : files.log = some (encode fs ++ tail))
    {checkpoint : Row} (hcp : AtBoundary fs (encode fs ++ tail).length checkpoint) :
    Ensures (Repairing gz (encode fs ++ tail))
      (fun scan t => t.log = some (encode fs ++ tail) ∧ ∀ r, scan = some r →
        r.validBytes = (validPrefix gz (encode fs ++ tail)).length)
      (fun _ t => Whole gz (encode fs ++ tail) t) (scanTail gz checkpoint) files := by
  refine Ensures.through
    (fun size t => t.log = some (encode fs ++ tail) ∧ size = (encode fs ++ tail).length)
    (alone_fsRead (Or.inl hlog) (fun size hs => ⟨hlog, ?_⟩) (fun _ _ => Or.inl hlog)
      (Or.inl hlog)) fun size t ht => ?_
  · simp only [hlog, Except.ok.injEq] at hs
    exact hs.symm
  · obtain ⟨ht, rfl⟩ := ht
    have hfull := ensures_onLog_scan (f := (scanRawLog gz ·)) ht ⟨_, scanRawLog_eq h.notBlocked⟩
    cases hc : checkpointBytes checkpoint with
    | none => exact hfull
    | some n =>
      simp only
      split_ifs with hrange hn
      · exact alone_pure ⟨ht, nofun⟩
      · rcases hcp n hc with ⟨k, hk, rfl⟩ | hout
        · obtain ⟨hle, htake⟩ := h.take hk
          have hfrom := scanRawLogFrom_eq h.notBlocked hle
          rw [htake] at hfrom
          exact ensures_onLog_scan ht ⟨_, hfrom⟩
        · exact absurd hrange hout
      · exact hfull

/-- Detaching the tail behind the prefix. -/
theorem ensures_detachTail {b : Bytes} (hlog : files.log = some b) (stamp : String) :
    Ensures (Repairing gz b) (fun _ t => Whole gz b t) (fun _ t => Whole gz b t)
      (detachTail stamp (validPrefix gz b).length) files := by
  have hwhole : ∀ s : LogFiles, s.log = some b → Whole gz b s := fun s hs => Or.inl hs
  have hkeep : ∀ {op : RawOp} {f : LogFiles → Except PyError (LogFiles × Unit)}
      {torn : ℕ → LogFiles → LogFiles} {s : LogFiles}, s.log = some b →
      (∀ r, f s = .ok r → r.1.log = s.log) → (∀ n, (torn n s).log = s.log) →
      Ensures (Repairing gz b) (fun _ t => t.log = some b) (fun _ t => Whole gz b t)
        (fsStep op f torn) s := by
    intro op f torn s hs hok htorn
    refine alone_fsStep (fun r _ hr => ?_) (fun e _ => ⟨hwhole s hs, hwhole s hs⟩) fun n _ => ?_
    · have := (hok r hr).trans hs
      exact ⟨hwhole _ this, this⟩
    · have := (htorn n).trans hs
      exact ⟨hwhole _ this, hwhole _ this⟩
  refine (hkeep hlog (fun r hr => ?_) fun n => rfl).bind fun _ s hs => ?_
  · split_ifs at hr
    cases hr
    rfl
  refine (hkeep hs (fun r hr => by cases hr; rfl) fun n => rfl).bind fun _ s hs => ?_
  refine (hkeep hs (fun r hr => by cases hr; rfl) fun n => rfl).bind fun _ s hs => ?_
  refine (hkeep hs (fun r hr => by cases hr; rfl) fun n => rfl).bind fun _ s hs => ?_
  have hcut : Whole gz b { s with log := s.log.map (·.take (validPrefix gz b).length) } := by
    refine Or.inr ?_
    simp only [hs, Option.map_some, take_validPrefix]
  refine Ensures.through (fun _ t => Whole gz b t)
    (alone_fsOp (fun _ => ⟨hcut, hcut⟩) ⟨hwhole s hs, hwhole s hs⟩) fun _ t ht => ?_
  exact alone_fsOp (fun _ => ⟨ht, ht⟩) ⟨ht, ht⟩

theorem ensures_writeCheckpoint {b : Bytes} (h : Whole gz b files) (n : ℕ) :
    Ensures (Repairing gz b) (fun _ t => Whole gz b t) (fun _ t => Whole gz b t)
      (writeCheckpoint n none) files :=
  alone_atomicWriteJson ⟨h, h⟩ ⟨h, h⟩ ⟨h, h⟩

/-- **At every instant of a repair** the log is whole or cut behind the prefix, whatever fails. -/
theorem ensures_repair (h : Log gz fs tail) (hlog : files.log = some (encode fs ++ tail))
    (hcp : AtBoundary fs (encode fs ++ tail).length (files.checkpoint.getD [])) (stamp : String) :
    Ensures (Repairing gz (encode fs ++ tail)) (fun _ t => Whole gz (encode fs ++ tail) t)
      (fun _ t => Whole gz (encode fs ++ tail) t) (repairTruncatedTail gz stamp) files := by
  refine Ensures.through (fun _ t => t = files)
    (alone_fsRead (Or.inl hlog) (fun _ _ => rfl) (fun _ _ => Or.inl hlog) (Or.inl hlog))
    fun present t ht => ?_
  subst ht
  cases present with
  | false => exact alone_pure (Or.inl hlog)
  | true =>
    -- a checkpoint that cannot be read counts as missing
    refine Ensures.through (fun checkpoint s => s = t ∧
        AtBoundary fs (encode fs ++ tail).length checkpoint)
      (alone_readJson (Or.inl hlog) ⟨rfl, hcp⟩ ⟨rfl, nofun⟩) fun checkpoint s hs => ?_
    obtain ⟨rfl, hcheckpoint⟩ := hs
    refine (ensures_scanTail h hlog hcheckpoint).bind fun scan u hu => ?_
    obtain ⟨hu, hscan⟩ := hu
    cases scan with
    | none => exact alone_pure (Or.inl hu)
    | some scan =>
      simp only [hscan scan rfl]
      cases scan.clean with
      | true =>
        exact (ensures_writeCheckpoint (Or.inl hu) _).bind fun _ v hv => alone_pure hv
      | false =>
        refine (ensures_detachTail hu stamp).bind fun _ v hv => ?_
        exact (ensures_writeCheckpoint hv _).bind fun _ w hw => alone_pure hw

/-! ### With and without a checkpoint -/

/-- What a repair leaves does not depend on the checkpoint, and is repaired. -/
theorem repair_eq_fullScan (h : Log gz fs tail) (hlog : files.log = some (encode fs ++ tail))
    (hcp : AtBoundary fs (encode fs ++ tail).length (files.checkpoint.getD [])) (stamp : String) :
    ∃ result log sidecars checkpoint checkpoint',
      run (repairTruncatedTail gz stamp) files = (result, ⟨log, checkpoint, sidecars⟩) ∧
      run (repairTruncatedTail gz stamp) { files with checkpoint := none } =
        (result, ⟨log, checkpoint', sidecars⟩) ∧
      (files.sidecars.lookup stamp = none → (∃ detached, result = .ok detached) ∧ ∀ stamp',
        run (repairTruncatedTail gz stamp') ⟨log, checkpoint, sidecars⟩ =
          (.ok none, ⟨log, checkpoint, sidecars⟩) ∧
        run (repairTruncatedTail gz stamp') ⟨log, checkpoint', sidecars⟩ =
          (.ok none, ⟨log, checkpoint', sidecars⟩)) := by
  have hlog' : ({ files with checkpoint := none } : LogFiles).log = some (encode fs ++ tail) := hlog
  have hnone : AtBoundary fs (encode fs ++ tail).length
      (({ files with checkpoint := none } : LogFiles).checkpoint.getD []) := nofun
  by_cases hstamp : tornTail gz (encode fs ++ tail) ≠ [] → files.sidecars.lookup stamp = none
  · obtain ⟨checkpoint, hrun, hcovers⟩ := run_repair_checkpointed h hlog hcp hstamp
    obtain ⟨checkpoint', hrun', hcovers'⟩ :=
      run_repair_checkpointed h hlog' hnone hstamp
    exact ⟨_, _, _, checkpoint, checkpoint', hrun, hrun', fun _ => ⟨⟨_, rfl⟩, fun stamp' =>
      ⟨run_repair_covered rfl hcovers stamp', run_repair_covered rfl hcovers' stamp'⟩⟩⟩
  · obtain ⟨htorn, hsome⟩ := Classical.not_imp.mp hstamp
    obtain ⟨taken, htaken⟩ := Option.ne_none_iff_exists'.mp hsome
    exact ⟨_, _, _, _, _, run_repair_taken h hlog hcp htorn htaken,
      run_repair_taken h hlog' hnone htorn htaken,
      fun hfree => absurd hfree hsome⟩

/-- **The checkpoint only saves work.** Take a log of complete decodable records and a tail, and a
checkpoint at the end of a record, or one that names no position of the file. The repair returns or
raises the same as without the checkpoint, leaves the same log and detaches the same tail. Where
the name of its sidecar is free, it returns, and any further repair changes nothing. At no instant
of a repair, whatever fails in it, is the log shorter than at the end of a record. -/
theorem checkpointedRepair_eq_fullScan (gz : Gzip) (fs : List (Frame UInt8)) (tail : Bytes)
    (h : Log gz fs tail) (files : LogFiles) (hlog : files.log = some (encode fs ++ tail))
    (hcp : AtBoundary fs (encode fs ++ tail).length (files.checkpoint.getD [])) (stamp : String) :
    (∃ result log sidecars checkpoint checkpoint',
      run (repairTruncatedTail gz stamp) files = (result, ⟨log, checkpoint, sidecars⟩) ∧
      run (repairTruncatedTail gz stamp) { files with checkpoint := none } =
        (result, ⟨log, checkpoint', sidecars⟩) ∧
      (files.sidecars.lookup stamp = none → (∃ detached, result = .ok detached) ∧ ∀ stamp',
        run (repairTruncatedTail gz stamp') ⟨log, checkpoint, sidecars⟩ =
          (.ok none, ⟨log, checkpoint, sidecars⟩) ∧
        run (repairTruncatedTail gz stamp') ⟨log, checkpoint', sidecars⟩ =
          (.ok none, ⟨log, checkpoint', sidecars⟩))) ∧
    ∀ k ≤ fs.length, ∀ cs b, ((repairTruncatedTail gz stamp).after cs files).2.log = some b →
      (encode (fs.take k)).length ≤ b.length := by
  refine ⟨repair_eq_fullScan h hlog hcp stamp, fun k _ cs b hb => ?_⟩
  have hwhole := Ensures.holds_after (P := Whole gz (encode fs ++ tail)) (fun _ _ _ => trivial)
    (fun _ _ hg => hg) (Or.inl hlog) (ensures_repair h hlog hcp stamp) cs
  have hprefix := h.length_take_le k
  rcases hwhole with hwhole | hwhole
  · rw [hwhole, Option.some.injEq] at hb
    have htorn := congrArg List.length (@validPrefix_append_tornTail gz (encode fs ++ tail))
    rw [List.length_append] at htorn
    rw [← hb]
    omega
  · rw [hwhole, Option.some.injEq] at hb
    rwa [← hb]

/-- A log of one record and the first byte of another, with the checkpoint behind the record. -/
theorem checkpointedRepair_eq_fullScan_torn :
    let fs := [recordFrame 1 (sampleGzip.compress 0 [0x0a])]
    let files : LogFiles :=
      { log := some (encode fs ++ [0x41])
        checkpoint := some (checkpointRow (encode fs).length (some 1)) }
    let stamp := "20260101T000000000000Z"
    (∃ result log sidecars checkpoint checkpoint',
      run (repairTruncatedTail sampleGzip stamp) files = (result, ⟨log, checkpoint, sidecars⟩) ∧
      run (repairTruncatedTail sampleGzip stamp) { files with checkpoint := none } =
        (result, ⟨log, checkpoint', sidecars⟩) ∧
      (files.sidecars.lookup stamp = none → (∃ detached, result = .ok detached) ∧ ∀ stamp',
        run (repairTruncatedTail sampleGzip stamp') ⟨log, checkpoint, sidecars⟩ =
          (.ok none, ⟨log, checkpoint, sidecars⟩) ∧
        run (repairTruncatedTail sampleGzip stamp') ⟨log, checkpoint', sidecars⟩ =
          (.ok none, ⟨log, checkpoint', sidecars⟩))) ∧
    ∀ k ≤ fs.length, ∀ cs b,
      ((repairTruncatedTail sampleGzip stamp).after cs files).2.log = some b →
      (encode (fs.take k)).length ≤ b.length := by
  intro fs files stamp
  refine checkpointedRepair_eq_fullScan sampleGzip fs [0x41] ⟨?_, ?_, ?_⟩ files rfl ?_ stamp
  · exact List.forall_mem_singleton.mpr (recordFrame_ok 1 (by decide))
  · exact List.forall_mem_singleton.mpr (by decide +kernel)
  · rintro ⟨f, e, hf, -, -⟩
    rw [firstUndecodable, records_of_none (by decide +kernel)] at hf
    cases hf
  · intro n hn
    refine Or.inl ⟨1, le_refl _, ?_⟩
    rw [Option.getD_some, checkpointBytes_checkpointRow, Option.some.injEq] at hn
    exact hn.symm

end BkkCollector.Storage.CheckpointedRepair
