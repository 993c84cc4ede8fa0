import RealtimeTests.Job.Account

/-!
# The size of the ring array

`jobstats_ringbuf_create` requests `sizeof(job_statistics) * slot_count` bytes for the array,
computed in a `size_t`. Every slot that a job writes or that `jobstats_ringbuf_save` reads is less
than `slot_count`, and every slot is written once there have been as many jobs.

* `Indexed.jobStart`, `Indexed.runStarts`: what the jobs keep;
* `jobStart_frame`, `jobstatsRingbufSave_congr`: no other slot is written or read;
* `accessesInBounds_iff`: the array has the bytes of every slot that is accessed exactly when the
  product does not overflow;
* `AccessesInBounds.save_eq`: then what is saved is told by the bytes requested.
-/

namespace RealtimeTests

open JobstatsRingbuf

variable {h : Host}

/-! ## What is written and read -/

/-- The times that the clock gives a job, when it starts and when it finishes. -/
abbrev JobTimes (h : Host) := Option (Timespec h) × Option (Timespec h)

namespace JobstatsRingbuf

/-- The ring buffer after a job. -/
def afterJob (log : JobstatsRingbuf h) (job : JobTimes h) : JobstatsRingbuf h :=
  (RealtimeTests.jobStart (some log) job.1 job.2).2.getD log

/-- Where the statistics of the jobs are written, in order. -/
def writes (log : JobstatsRingbuf h) : List (JobTimes h) → List StatsPtr
  | [] => []
  | job :: jobs => (jobStartClaim log).1 :: (log.afterJob job).writes jobs

/-- The ring buffer after the jobs. -/
def runStarts (log : JobstatsRingbuf h) (jobs : List (JobTimes h)) : JobstatsRingbuf h :=
  jobs.foldl afterJob log

/-- The slots that the loop of `jobstats_ringbuf_save` reads, in order. -/
def saveLoopReads (log : JobstatsRingbuf h) (stop : ULong h) :
    ℕ → ULong h → OutFile → List ℕ
  | 0, _, _ => []
  | fuel + 1, i, recordFile =>
    let i := i % log.slotCount
    i.toNat ::
      match recordFile.fwrite (log.ringbuf i.toNat).toBytes with
      | (false, _) => []
      | (true, recordFile) =>
        let i := i + 1
        if i ≠ stop then saveLoopReads log stop fuel i recordFile else []

/-- The slots that `jobstats_ringbuf_save` reads. -/
def saveReads (log : JobstatsRingbuf h) (fuel : ℕ) (recordFile : OutFile) : List ℕ :=
  if log.writeCount = 0 then []
  else log.saveLoopReads (saveEnd log) fuel (saveBegin log) recordFile

/-- The bytes of a slot are among those requested from `malloc`. -/
def Covers (log : JobstatsRingbuf h) (slot : ℕ) : Prop :=
  (slot + 1) * JobStatistics.sizeof h ≤ log.ringbufSize.toNat

end JobstatsRingbuf

/-- With `N` slots, whatever the overrun mode and the jobs, every record that a job writes and
    every one that `jobstats_ringbuf_save` reads after the jobs lies in the bytes requested. -/
def AccessesInBounds (N : ULong h) : Prop :=
  ∀ (disableOverrun : ℤ) (malloc1 malloc2 : Bool) (log : JobstatsRingbuf h),
    jobstatsRingbufCreate N disableOverrun malloc1 malloc2 = some log →
    ∀ jobs : List (JobTimes h),
      (∀ slot, .ringbuf slot ∈ log.writes jobs → log.Covers slot) ∧
      ∀ (fuel : ℕ) (recordFile : OutFile),
        ∀ slot ∈ (log.runStarts jobs).saveReads fuel recordFile, log.Covers slot

/-- The slot count of `hrt_cbs` and of `client`: `duration_ms / period_ms`. -/
def ringbufSlotCount (h : Host) (durationMs periodMs : BitVec 32) : ULong h :=
  (durationMs.sdiv periodMs).signExtend _

/-! ## No other slot -/

/-- A claim leaves the array as it is, and goes by `next`. -/
theorem jobStartClaim_spec (log : JobstatsRingbuf h) :
    ((jobStartClaim log).2.ringbuf = log.ringbuf ∧
      (jobStartClaim log).2.slotCount = log.slotCount ∧
      (jobStartClaim log).2.ringbufSize = log.ringbufSize) ∧
    ((log.next ≠ log.slotCount ∧ (jobStartClaim log).1 = .ringbuf log.next.toNat ∧
        (jobStartClaim log).2.next = log.next + 1) ∨
      (log.next = log.slotCount ∧ (jobStartClaim log).1 = .ringbuf 0 ∧
        (jobStartClaim log).2.next = 1) ∨
      (log.next = log.slotCount ∧ (jobStartClaim log).1 = .dummy ∧
        (jobStartClaim log).2.next = log.next)) := by
  by_cases hn : log.next = log.slotCount
  · by_cases hd : log.overrunDisabled = 0
    · rw [jobStartClaim_of_enabled hn hd]
      exact ⟨⟨rfl, rfl, rfl⟩, .inr (.inl ⟨hn, rfl, rfl⟩)⟩
    · rw [jobStartClaim_of_disabled hn hd]
      exact ⟨⟨rfl, rfl, rfl⟩, .inr (.inr ⟨hn, rfl, rfl⟩)⟩
  · rw [jobStartClaim_of_ne hn]
    exact ⟨⟨rfl, rfl, rfl⟩, .inl ⟨hn, rfl, rfl⟩⟩

/-- Storing a time changes nothing but the slot. -/
theorem modify_frame (log : JobstatsRingbuf h) (stats : StatsPtr)
    (f : JobStatistics h → JobStatistics h) :
    ((log.modify stats f).slotCount = log.slotCount ∧
      (log.modify stats f).ringbufSize = log.ringbufSize ∧
      (log.modify stats f).next = log.next) ∧
    ∀ slot, stats ≠ .ringbuf slot → (log.modify stats f).ringbuf slot = log.ringbuf slot := by
  cases stats with
  | dummy => exact ⟨⟨rfl, rfl, rfl⟩, fun _ _ => rfl⟩
  | ringbuf k =>
    refine ⟨⟨rfl, rfl, rfl⟩, fun slot hslot => Function.update_of_ne (fun heq => hslot ?_) _ _⟩
    rw [heq]

/-- What a job keeps: the array but for the slot that it claims, and the sizes. -/
theorem jobStart_frame (log : JobstatsRingbuf h) (job : JobTimes h) :
    ((log.afterJob job).slotCount = log.slotCount ∧
      (log.afterJob job).ringbufSize = log.ringbufSize ∧
      (log.afterJob job).next = (jobStartClaim log).2.next) ∧
    ∀ slot, (jobStartClaim log).1 ≠ .ringbuf slot →
      (log.afterJob job).ringbuf slot = log.ringbuf slot := by
  obtain ⟨⟨hring, hcount, hsize⟩, -⟩ := jobStartClaim_spec log
  have hbegin := modify_frame (jobStartClaim log).2 (jobStartClaim log).1 (storeBegin job.1)
  have hend := modify_frame ((jobStartClaim log).2.modify (jobStartClaim log).1 (storeBegin job.1))
    (jobStartClaim log).1 (storeEnd job.2)
  have hafter : log.afterJob job = ((jobStartClaim log).2.modify (jobStartClaim log).1
    (storeBegin job.1)).modify (jobStartClaim log).1 (storeEnd job.2) := rfl
  rw [hafter]
  refine ⟨⟨?_, ?_, ?_⟩, fun slot hslot => ?_⟩
  · rw [hend.1.1, hbegin.1.1, hcount]
  · rw [hend.1.2.1, hbegin.1.2.1, hsize]
  · rw [hend.1.2.2, hbegin.1.2.2]
  · rw [hend.2 slot hslot, hbegin.2 slot hslot, hring]

/-- The loop depends on the slots that it reads only. -/
theorem jobstatsRingbufSaveLoop_congr {log : JobstatsRingbuf h} {stop : ULong h}
    {ring : ℕ → JobStatistics h} {fuel : ℕ} {i : ULong h} {f : OutFile}
    (hring : ∀ slot ∈ log.saveLoopReads stop fuel i f, ring slot = log.ringbuf slot) :
    jobstatsRingbufSaveLoop { log with ringbuf := ring } stop fuel i f =
      jobstatsRingbufSaveLoop log stop fuel i f := by
  induction fuel generalizing i f with
  | zero => rfl
  | succ fuel ih =>
    rw [saveLoopReads] at hring
    have hi := hring _ List.mem_cons_self
    rw [jobstatsRingbufSaveLoop, jobstatsRingbufSaveLoop]
    simp only [hi]
    cases hw : f.fwrite (log.ringbuf (i % log.slotCount).toNat).toBytes with
    | mk ok f' =>
      cases ok with
      | false => rfl
      | true =>
        by_cases hstop : i % log.slotCount + 1 = stop
        · simp only [ne_eq, hstop, not_true_eq_false, if_false]
        · simp only [ne_eq, hstop, not_false_eq_true, if_true]
          refine ih fun slot hslot => hring slot (List.mem_cons_of_mem _ ?_)
          simpa only [hw, ne_eq, hstop, not_false_eq_true, if_true] using hslot

theorem jobstatsRingbufSave_congr {log : JobstatsRingbuf h} {ring : ℕ → JobStatistics h}
    {fuel : ℕ} {f : OutFile} (hring : ∀ slot ∈ log.saveReads fuel f, ring slot = log.ringbuf slot) :
    jobstatsRingbufSave fuel { log with ringbuf := ring } f = jobstatsRingbufSave fuel log f := by
  rw [jobstatsRingbufSave, jobstatsRingbufSave]
  rw [saveReads] at hring
  split_ifs with hzero
  · rfl
  · rw [if_neg hzero] at hring
    exact jobstatsRingbufSaveLoop_congr hring

/-! ## The slots accessed -/

/-- A ring buffer with `N` slots: the next slot is one of them, or past the last one. -/
structure Indexed (N size : ULong h) (log : JobstatsRingbuf h) : Prop where
  slotCount : log.slotCount = N
  size : log.ringbufSize = size
  pos : 0 < N.toNat
  next : log.next.toNat ≤ N.toNat

section Indexed

variable {N size : ULong h} {log : JobstatsRingbuf h}

theorem indexed_create {disableOverrun : ℤ} {malloc1 malloc2 : Bool}
    (hc : jobstatsRingbufCreate N disableOverrun malloc1 malloc2 = some log) :
    Indexed N (.ofNat _ (JobStatistics.sizeof h) * N) log := by
  have hlogs := logs_create hc
  rw [jobstatsRingbufCreate] at hc
  split_ifs at hc
  all_goals
    cases hc
    exact ⟨rfl, rfl, hlogs.pos, by simp⟩

/-- A job keeps the next slot in place, and is never given the one past the last. -/
theorem Indexed.jobStart (hl : Indexed N size log) (job : JobTimes h) :
    Indexed N size (log.afterJob job) ∧
      ∀ slot, (jobStartClaim log).1 = .ringbuf slot → slot < N.toNat := by
  obtain ⟨⟨hcount, hsize, hnext⟩, -⟩ := jobStart_frame log job
  have hpos := hl.pos
  have hle := hl.next
  obtain ⟨-, hclaim⟩ := jobStartClaim_spec log
  have hlt : log.next ≠ log.slotCount → log.next.toNat < N.toNat := fun hn => by
    refine lt_of_le_of_ne hle fun heq => hn ?_
    rw [hl.slotCount]
    exact BitVec.eq_of_toNat_eq heq
  refine ⟨⟨hcount.trans hl.slotCount, hsize.trans hl.size, hl.pos, ?_⟩, fun slot hslot => ?_⟩
  · rw [hnext]
    obtain ⟨hn, -, hnext⟩ | ⟨-, -, hnext⟩ | ⟨-, -, hnext⟩ := hclaim
    · rw [hnext, toNat_add_one (hlt hn)]
      exact hlt hn
    · rw [hnext, toNat_one]
      exact hpos
    · rwa [hnext]
  · obtain ⟨hn, hstats, -⟩ | ⟨-, hstats, -⟩ | ⟨-, hstats, -⟩ := hclaim
    all_goals cases hstats.symm.trans hslot
    · exact hlt hn
    · exact hpos

/-- So do the jobs of a run. -/
theorem Indexed.runStarts (hl : Indexed N size log) (jobs : List (JobTimes h)) :
    Indexed N size (log.runStarts jobs) ∧
      ∀ slot, .ringbuf slot ∈ log.writes jobs → slot < N.toNat := by
  induction jobs generalizing log with
  | nil => exact ⟨hl, fun slot hslot => absurd hslot List.not_mem_nil⟩
  | cons job jobs ih =>
    obtain ⟨hjob, hslots⟩ := hl.jobStart job
    obtain ⟨hrun, hrest⟩ := ih hjob
    refine ⟨hrun, fun slot hslot => ?_⟩
    rcases List.mem_cons.1 hslot with heq | hmem
    · exact hslots slot heq.symm
    · exact hrest slot hmem

/-- Saving reads slots of the ring. -/
theorem Indexed.lt_of_mem_saveReads (hl : Indexed N size log) {fuel : ℕ} {f : OutFile} {slot : ℕ}
    (hslot : slot ∈ log.saveReads fuel f) : slot < N.toNat := by
  have hloop {stop : ULong h} {fuel : ℕ} {i : ULong h} {f : OutFile}
      (hslot : slot ∈ log.saveLoopReads stop fuel i f) : slot < N.toNat := by
    induction fuel generalizing i f with
    | zero => cases hslot
    | succ fuel ih =>
      rw [saveLoopReads] at hslot
      rcases List.mem_cons.1 hslot with rfl | hslot
      · rw [hl.slotCount, BitVec.toNat_umod]
        exact Nat.mod_lt _ hl.pos
      · split at hslot
        · cases hslot
        · dsimp only at hslot
          split_ifs at hslot
          · exact ih hslot
          · cases hslot
  rw [saveReads] at hslot
  split_ifs at hslot
  · cases hslot
  · exact hloop hslot

end Indexed

/-- As many jobs as there are slots write all of them. -/
theorem mem_writes_last {N : ULong h} {log : JobstatsRingbuf h} {disableOverrun : ℤ}
    (hl : log.Logs N disableOverrun []) :
    .ringbuf (N.toNat - 1) ∈ log.writes (List.replicate N.toNat (some ⟨0, 0⟩, some ⟨0, 0⟩)) := by
  have hwrites (xs : List (JobStatistics h)) (log : JobstatsRingbuf h) :
      log.writes (xs.map fun x => (some x.tBegin, some x.tEnd)) = log.claimed xs := by
    induction xs generalizing log with
    | nil => rfl
    | cons x xs ih =>
      rw [List.map_cons, writes, claimed, ih]
      rfl
  have hpos := hl.pos
  rw [← List.map_replicate (f := fun x : JobStatistics h => (some x.tBegin, some x.tEnd))
    (a := ⟨⟨0, 0⟩, ⟨0, 0⟩⟩), hwrites, hl.claimed_eq]
  refine List.mem_map.2 ⟨N.toNat - 1, ?_, ?_⟩
  · rw [List.mem_range'_1, List.length_replicate, List.length_nil]
    omega
  · rw [statsPtrOf, if_neg (by omega), Nat.mod_eq_of_lt (by omega)]

/-! ## The bytes requested -/

/-- The size of the array, unless it overflows. -/
theorem toNat_ringbufSize (N : ULong h) :
    (BitVec.ofNat h.longBits (JobStatistics.sizeof h) * N).toNat =
      JobStatistics.sizeof h * N.toNat % 2 ^ h.longBits := by
  rw [BitVec.toNat_mul, BitVec.toNat_ofNat, Nat.mod_mul_mod]

/-- The accesses are in bounds exactly when the size does not overflow. -/
theorem accessesInBounds_iff_lt (N : ULong h) :
    AccessesInBounds N ↔ JobStatistics.sizeof h * N.toNat < 2 ^ h.longBits := by
  constructor
  · intro hall
    by_cases hN : N = 0
    · rw [hN, show (0 : ULong h).toNat = 0 from BitVec.toNat_zero, Nat.mul_zero]
      positivity
    · obtain ⟨log, hlog⟩ := exists_create hN 0
      have hsize := (indexed_create hlog).size
      -- The last slot is written in the end.
      have hcovers := (hall 0 true true log hlog _).1 _ (mem_writes_last (logs_create hlog))
      rw [Covers, hsize, toNat_ringbufSize, Nat.sub_add_cancel (logs_create hlog).pos,
        Nat.mul_comm] at hcovers
      exact hcovers.trans_lt (Nat.mod_lt _ (by positivity))
  · intro hlt disableOverrun malloc1 malloc2 log hlog jobs
    have hindexed := indexed_create hlog
    have hcovers {slot : ℕ} (hslot : slot < N.toNat) : log.Covers slot := by
      rw [Covers, hindexed.size, toNat_ringbufSize, Nat.mod_eq_of_lt hlt, Nat.mul_comm]
      exact Nat.mul_le_mul_left _ hslot
    obtain ⟨hrun, hwrites⟩ := hindexed.runStarts jobs
    exact ⟨fun slot hslot => hcovers (hwrites slot hslot),
      fun fuel recordFile slot hslot => hcovers (hrun.lt_of_mem_saveReads hslot)⟩

/-- When the accesses are in bounds, what is saved after jobs is told by the slots whose bytes have
    been requested. -/
theorem AccessesInBounds.save_eq {N : ULong h} (hN : AccessesInBounds N) {disableOverrun : ℤ}
    {malloc1 malloc2 : Bool} {log : JobstatsRingbuf h}
    (hlog : jobstatsRingbufCreate N disableOverrun malloc1 malloc2 = some log)
    (jobs : List (JobTimes h)) {ring : ℕ → JobStatistics h}
    (hring : ∀ slot, log.Covers slot → ring slot = (log.runStarts jobs).ringbuf slot) (fuel : ℕ)
    (f : OutFile) :
    jobstatsRingbufSave fuel { log.runStarts jobs with ringbuf := ring } f =
      jobstatsRingbufSave fuel (log.runStarts jobs) f := by
  refine jobstatsRingbufSave_congr fun slot hslot => hring slot ?_
  exact (hN disableOverrun malloc1 malloc2 log hlog jobs).2 fuel f slot hslot

/-- The slot count that the programs compute from their positive arguments. -/
theorem toNat_ringbufSlotCount {durationMs periodMs : BitVec 32} (hperiod : 0 < periodMs.toInt)
    (hduration : periodMs.toInt ≤ durationMs.toInt) :
    (ringbufSlotCount h durationMs periodMs).toNat = durationMs.toNat / periodMs.toNat := by
  have hp : periodMs.msb = false := by
    rw [BitVec.msb_eq_toInt]
    exact decide_eq_false (by omega)
  have hd : durationMs.msb = false := by
    rw [BitVec.msb_eq_toInt]
    exact decide_eq_false (by omega)
  have hdiv : durationMs.sdiv periodMs = durationMs / periodMs := by
    rw [BitVec.sdiv_eq, hd, hp]
    rfl
  have hmsb : (durationMs / periodMs).msb = false := by
    rw [BitVec.msb_eq_false_iff_two_mul_lt, BitVec.toNat_udiv]
    have hlt := BitVec.msb_eq_false_iff_two_mul_lt.1 hd
    have hle := Nat.div_le_self durationMs.toNat periodMs.toNat
    omega
  rw [ringbufSlotCount, hdiv, BitVec.signExtend_eq_setWidth_of_msb_false hmsb,
    BitVec.toNat_setWidth, BitVec.toNat_udiv]
  have hle := Nat.div_le_self durationMs.toNat periodMs.toNat
  have hlt := durationMs.isLt
  have hlong := h.two_pow_32_le_longBits
  exact Nat.mod_eq_of_lt (by omega)

/-- The array is as large as the slot count says exactly when its size does not overflow; in
    particular for the slot counts of `hrt_cbs` and of `client`. -/
theorem accessesInBounds_iff (h : Host) :
    (∀ N : ULong h, AccessesInBounds N ↔ JobStatistics.sizeof h * N.toNat < 2 ^ h.longBits) ∧
    ∀ durationMs periodMs : BitVec 32, 0 < periodMs.toInt → periodMs.toInt ≤ durationMs.toInt →
      (AccessesInBounds (ringbufSlotCount h durationMs periodMs) ↔
        JobStatistics.sizeof h * (durationMs.toNat / periodMs.toNat) < 2 ^ h.longBits) := by
  refine ⟨accessesInBounds_iff_lt, fun durationMs periodMs hperiod hduration => ?_⟩
  rw [accessesInBounds_iff_lt, toNat_ringbufSlotCount hperiod hduration]

/-- On the usual 64-bit platform, it is so for all the slot counts of the programs. -/
theorem accessesInBounds_lp64 {durationMs periodMs : BitVec 32} (hperiod : 0 < periodMs.toInt)
    (hduration : periodMs.toInt ≤ durationMs.toInt) :
    AccessesInBounds (ringbufSlotCount .lp64 durationMs periodMs) := by
  rw [accessesInBounds_iff_lt, toNat_ringbufSlotCount hperiod hduration]
  have hle := Nat.div_le_self durationMs.toNat periodMs.toNat
  have hlt := durationMs.isLt
  have hsize : JobStatistics.sizeof .lp64 = 32 := rfl
  have hlong : Host.lp64.longBits = 64 := rfl
  rw [hsize, hlong]
  omega

/-- On the usual 32-bit platform, `-x 268435457 -t 1` requests 16 bytes, and the second job writes
    after them. -/
theorem not_accessesInBounds :
    ∃ log : JobstatsRingbuf .ilp32,
      jobstatsRingbufCreate (ringbufSlotCount .ilp32 268435457 1) 1 true true = some log ∧
      log.ringbufSize.toNat = 16 ∧
      log.writes [(some ⟨9, 0⟩, some ⟨9, 5⟩), (some ⟨10, 0⟩, some ⟨10, 5⟩)] =
        [.ringbuf 0, .ringbuf 1] ∧
      ¬log.Covers 1 ∧ ¬AccessesInBounds (ringbufSlotCount .ilp32 268435457 1) := by
  refine ⟨_, rfl, by decide, rfl, by rw [Covers]; decide, fun hall => ?_⟩
  have hcovers := (hall 1 true true _ rfl [(some ⟨9, 0⟩, some ⟨9, 5⟩),
    (some ⟨10, 0⟩, some ⟨10, 5⟩)]).1 1 (List.mem_cons_of_mem _ List.mem_cons_self)
  rw [Covers] at hcovers
  exact absurd hcovers (by decide)

end RealtimeTests
