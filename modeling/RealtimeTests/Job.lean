import RealtimeTests.File
import RealtimeTests.Time

/-!
# Jobs and their statistics

`job.c`: a job records its start and finish times in a slot of a ring buffer
(`jobstats_ringbuf`), which is saved to a file when the task ends, and read back
record by record.

* `job_start` is given in its three parts, between which other threads may run:
  it claims a slot (`jobStartClaim`), stores the start time, runs the program of
  the job, and stores the finish time. `jobStart` puts them together.
* `jobstats_ringbuf_save` is a loop over the slots which goes on until an index
  hits the end it computed. `fuel` bounds its iterations: a result is `none` when
  the loop is not over by then.
-/

namespace RealtimeTests

open Words

/-- `job_statistics`: the statistics of a job. -/
@[ext]
structure JobStatistics (h : Host) where
  tBegin : Timespec h
  tEnd : Timespec h
  deriving DecidableEq

variable {h : Host}

namespace JobStatistics

/-- The sizes of the words of the (packed) structure. -/
def sizes (h : Host) : List ℕ := [h.sizeofTimeT, h.sizeofLong, h.sizeofTimeT, h.sizeofLong]

/-- `sizeof(job_statistics)`. -/
def sizeof (h : Host) : ℕ := (sizes h).sum

/-- The bytes of the structure in memory. -/
def toBytes (stats : JobStatistics h) : Bytes :=
  pack h.byteOrder [(h.sizeofTimeT, stats.tBegin.tvSec.toNat),
    (h.sizeofLong, stats.tBegin.tvNsec.toNat), (h.sizeofTimeT, stats.tEnd.tvSec.toNat),
    (h.sizeofLong, stats.tEnd.tvNsec.toNat)]

/-- The structure that bytes in memory are. -/
def ofBytes (h : Host) (bs : Bytes) : JobStatistics h :=
  let v := unpack h.byteOrder (sizes h) bs
  { tBegin := ⟨.ofNat _ (v.getD 0 0), .ofNat _ (v.getD 1 0)⟩
    tEnd := ⟨.ofNat _ (v.getD 2 0), .ofNat _ (v.getD 3 0)⟩ }

@[simp]
theorem length_toBytes (stats : JobStatistics h) : stats.toBytes.length = sizeof h := by
  simp [toBytes, sizeof, sizes]

theorem sizeof_pos (h : Host) : 0 < sizeof h := by
  have := h.timeT_mem.1
  simp [sizeof, sizes]
  omega

/-- A record is in its first `sizeof` bytes. -/
theorem ofBytes_append {bs : Bytes} (hbs : sizeof h ≤ bs.length) (rest : Bytes) :
    ofBytes h (bs ++ rest) = ofBytes h bs := by
  rw [ofBytes, ofBytes, unpack_append h.byteOrder hbs]

/-- A record is read back from its bytes, whatever follows them. -/
theorem ofBytes_toBytes_append (stats : JobStatistics h) (rest : Bytes) :
    ofBytes h (stats.toBytes ++ rest) = stats := by
  have hv := unpack_pack h.byteOrder [(h.sizeofTimeT, stats.tBegin.tvSec.toNat),
    (h.sizeofLong, stats.tBegin.tvNsec.toNat), (h.sizeofTimeT, stats.tEnd.tvSec.toNat),
    (h.sizeofLong, stats.tEnd.tvNsec.toNat)] rest
  simp only [List.map_cons, List.map_nil] at hv
  simp only [ofBytes, toBytes, sizes, hv, List.getD_cons_zero, List.getD_cons_succ,
    ofNat_toNat_mod]

theorem ofBytes_toBytes (stats : JobStatistics h) : ofBytes h stats.toBytes = stats := by
  simpa using ofBytes_toBytes_append stats []

end JobStatistics

/-! ## The ring buffer -/

/-- `jobstats_ringbuf`. The array is what the code reads and writes at each
    index, and has no bounds of its own: how many bytes were requested for it is
    `ringbufSize`, and whether the code stays in them is the subject of
    `accessesInBounds_iff`. -/
structure JobstatsRingbuf (h : Host) where
  ringbuf : ℕ → JobStatistics h
  /-- The size that `malloc` was given for `ringbuf`. -/
  ringbufSize : ULong h
  slotCount : ULong h
  next : ULong h
  overrunCount : ULong h
  overrunDisabled : ℤ
  overrun : ℤ
  writeCount : ULong h

/-- `jobstats_ringbuf_create`; `malloc1` and `malloc2` tell whether the two
    allocations succeed. -/
def jobstatsRingbufCreate (slotCount : ULong h) (disableOverrun : ℤ) (malloc1 malloc2 : Bool) :
    Option (JobstatsRingbuf h) :=
  if slotCount = 0 then none
  else if !malloc1 then none
  else if !malloc2 then none
  else some
    { ringbuf := fun _ => ⟨⟨0, 0⟩, ⟨0, 0⟩⟩
      ringbufSize := .ofNat _ (JobStatistics.sizeof h) * slotCount
      slotCount := slotCount
      next := 0
      overrunCount := 0
      overrunDisabled := if disableOverrun ≠ 0 then 1 else 0
      overrun := 0
      writeCount := 0 }

/-! ## Running jobs -/

/-- Where `job_start` puts the statistics of a job: a slot of the ring buffer, or
    its own variable `dummy`. -/
inductive StatsPtr
  | ringbuf (slot : ℕ)
  | dummy
  deriving DecidableEq

/-- The first part of `job_start`: where the statistics go. -/
def jobStartClaim (log : JobstatsRingbuf h) : StatsPtr × JobstatsRingbuf h :=
  let (stats, log) :=
    if log.next = log.slotCount then
      let log := if log.overrun = 0 then { log with overrun := 1 } else log
      if log.overrunDisabled = 0 then
        (.ringbuf 0, { log with next := 1, overrunCount := log.overrunCount + 1 })
      else (.dummy, log)
    else (.ringbuf log.next.toNat, { log with next := log.next + 1 })
  (stats, { log with writeCount := log.writeCount + 1 })

/-- `overrun` once there has been no slot for a job. -/
def overrunSet (overrun : ℤ) : ℤ := if overrun = 0 then 1 else overrun

theorem overrunSet_ne_zero (overrun : ℤ) : overrunSet overrun ≠ 0 := by
  rw [overrunSet]
  split_ifs with ho
  · exact one_ne_zero
  · exact ho

/-- Claiming a slot when the last one has not been reached. -/
theorem jobStartClaim_of_ne {log : JobstatsRingbuf h} (hn : log.next ≠ log.slotCount) :
    jobStartClaim log = (.ringbuf log.next.toNat,
      { log with next := log.next + 1, writeCount := log.writeCount + 1 }) := by
  simp [jobStartClaim, hn]

/-- Claiming a slot when the last one has been reached, and overrun is enabled. -/
theorem jobStartClaim_of_enabled {log : JobstatsRingbuf h} (hn : log.next = log.slotCount)
    (hd : log.overrunDisabled = 0) :
    jobStartClaim log = (.ringbuf 0,
      { log with
        next := 1
        overrun := overrunSet log.overrun
        overrunCount := log.overrunCount + 1
        writeCount := log.writeCount + 1 }) := by
  by_cases ho : log.overrun = 0 <;> simp [jobStartClaim, overrunSet, hn, hd, ho]

/-- Claiming a slot when the last one has been reached, and overrun is disabled. -/
theorem jobStartClaim_of_disabled {log : JobstatsRingbuf h} (hn : log.next = log.slotCount)
    (hd : log.overrunDisabled ≠ 0) :
    jobStartClaim log = (.dummy,
      { log with overrun := overrunSet log.overrun, writeCount := log.writeCount + 1 }) := by
  by_cases ho : log.overrun = 0 <;> simp [jobStartClaim, overrunSet, hn, hd, ho]

namespace JobstatsRingbuf

/-- Changing the statistics that `stats` points to, if they are in the ring. -/
def modify (log : JobstatsRingbuf h) (stats : StatsPtr)
    (f : JobStatistics h → JobStatistics h) : JobstatsRingbuf h :=
  match stats with
  | .ringbuf slot => { log with ringbuf := Function.update log.ringbuf slot (f (log.ringbuf slot)) }
  | .dummy => log

/-- The statistics that `stats` points to. -/
def deref (log : JobstatsRingbuf h) (stats : StatsPtr) (dummy : JobStatistics h) :
    JobStatistics h :=
  match stats with
  | .ringbuf slot => log.ringbuf slot
  | .dummy => dummy

end JobstatsRingbuf

/-- `clock_gettime(CLOCK_TYPE, &stats->t_begin)`: `t` is the time, if it can be read. -/
def storeBegin (t : Option (Timespec h)) (stats : JobStatistics h) : JobStatistics h :=
  match t with
  | some t => { stats with tBegin := t }
  | none => stats

/-- `clock_gettime(CLOCK_TYPE, &stats->t_end)`. -/
def storeEnd (t : Option (Timespec h)) (stats : JobStatistics h) : JobStatistics h :=
  match t with
  | some t => { stats with tEnd := t }
  | none => stats

/-- The return value of `clock_gettime`. -/
def clockGettime (t : Option (Timespec h)) : ℤ := if t.isSome then 0 else -1

/-- `job_start`, for a job at the start and finish of which the clock gives
    `tBegin` and `tEnd`: its return value and the ring buffer. -/
def jobStart (statsLog : Option (JobstatsRingbuf h)) (tBegin tEnd : Option (Timespec h)) :
    ℤ × Option (JobstatsRingbuf h) :=
  match statsLog with
  | none => (0, none)
  | some log =>
    let (stats, log) := jobStartClaim log
    let log := log.modify stats (storeBegin tBegin)
    let log := log.modify stats (storeEnd tEnd)
    (0 - clockGettime tBegin - clockGettime tEnd, some log)

/-! ## Saving the ring buffer -/

/-- The loop of `jobstats_ringbuf_save`, from the slot `i` to the slot before `stop`. -/
def jobstatsRingbufSaveLoop (ringbuf : JobstatsRingbuf h) (stop : ULong h) :
    ℕ → ULong h → OutFile → Option (ℤ × OutFile)
  | 0, _, _ => none
  | fuel + 1, i, recordFile =>
    let i := i % ringbuf.slotCount
    match recordFile.fwrite (ringbuf.ringbuf i.toNat).toBytes with
    | (false, recordFile) => some (-1, recordFile)
    | (true, recordFile) =>
      let i := i + 1
      if i ≠ stop then jobstatsRingbufSaveLoop ringbuf stop fuel i recordFile
      else some (0, recordFile)

/-- The slot that `jobstats_ringbuf_save` starts from. -/
def saveBegin (ringbuf : JobstatsRingbuf h) : ULong h :=
  if ringbuf.overrunDisabled ≠ 0 ∨ ringbuf.overrun = 0 then 0 else ringbuf.next

/-- The slot after the last one that `jobstats_ringbuf_save` writes. -/
def saveEnd (ringbuf : JobstatsRingbuf h) : ULong h :=
  if ringbuf.overrunDisabled = 0 ∧ ringbuf.overrun ≠ 0 ∧ ringbuf.slotCount = 1 then 1
  else ringbuf.next

/-- `jobstats_ringbuf_save`: its return value and the file. -/
def jobstatsRingbufSave (fuel : ℕ) (ringbuf : JobstatsRingbuf h) (recordFile : OutFile) :
    Option (ℤ × OutFile) :=
  if ringbuf.writeCount = 0 then some (0, recordFile)
  else jobstatsRingbufSaveLoop ringbuf (saveEnd ringbuf) fuel (saveBegin ringbuf) recordFile

/-! ## Accounting -/

/-- `jobstats_ringbuf_overrun`. -/
def jobstatsRingbufOverrun (ringbuf : JobstatsRingbuf h) : ℤ :=
  if ringbuf.overrunDisabled ≠ 0 then ringbuf.overrun
  else if ringbuf.overrunCount ≠ 0 then 1 else 0

/-- `jobstats_ringbuf_overrun_count`. -/
def jobstatsRingbufOverrunCount (ringbuf : JobstatsRingbuf h) : ULong h := ringbuf.overrunCount

/-- `jobstats_ringbuf_overrun_disabled`. -/
def jobstatsRingbufOverrunDisabled (ringbuf : JobstatsRingbuf h) : ℤ := ringbuf.overrunDisabled

/-- `jobstats_ringbuf_size`. -/
def jobstatsRingbufSize (ringbuf : JobstatsRingbuf h) : ULong h := ringbuf.slotCount

/-- `jobstats_ringbuf_write_count`. -/
def jobstatsRingbufWriteCount (ringbuf : JobstatsRingbuf h) : ULong h := ringbuf.writeCount

/-- `jobstats_ringbuf_oldest_pos`. -/
def jobstatsRingbufOldestPos (ringbuf : JobstatsRingbuf h) : ULong h :=
  if jobstatsRingbufWriteCount ringbuf = 0 then 0
  else if jobstatsRingbufOverrunDisabled ringbuf ≠ 0 ∨ jobstatsRingbufOverrun ringbuf = 0 then 1
  else jobstatsRingbufWriteCount ringbuf - jobstatsRingbufSize ringbuf + 1

/-- `jobstats_ringbuf_lost_count`. -/
def jobstatsRingbufLostCount (ringbuf : JobstatsRingbuf h) : ULong h :=
  if jobstatsRingbufOverrun ringbuf = 0 then 0
  else if jobstatsRingbufOverrunDisabled ringbuf ≠ 0 then
    jobstatsRingbufWriteCount ringbuf - jobstatsRingbufSize ringbuf
  else jobstatsRingbufOldestPos ringbuf - 1

/-! ## Reading records -/

/-- `job_statistics_read`: its return value, the new content of `*stats`, and the
    stream. `uninit` is what the local variable `result` holds before it is read. -/
def jobStatisticsRead (uninit : Bytes) (statsLog : InFile) (stats : JobStatistics h) :
    ℤ × JobStatistics h × InFile :=
  let (rc, bs, resultLen, statsLog) := utilityFileReadBin statsLog (JobStatistics.sizeof h)
  let result := JobStatistics.ofBytes h (bs ++ uninit.drop bs.length)
  if rc = -2 then
    if resultLen ≠ 0 then (-2, stats, statsLog)
    else if statsLog.ferror then (-2, stats, statsLog)
    else (-1, stats, statsLog)
  else if rc = -1 then (-1, stats, statsLog)
  -- There is no case for `-3`: the result is whatever the buffer holds.
  else (0, result, statsLog)

end RealtimeTests
