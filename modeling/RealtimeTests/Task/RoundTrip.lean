import RealtimeTests.Task.Log
import RealtimeTests.Task.Run

/-!
# Reading back a log

`task_statistics_read` gives back what the thread of a task has logged: its name, its
parameters, as far as the 32 bits that a header has for seconds hold them
(`Timespec.Narrow`), and the saved records.

* `taskStatisticsRead_log`: reading the log of a task with statistics;
* `task_log_round_trip`: it is what any run of the thread to its end writes.
-/

namespace RealtimeTests

open Lts InFile JobStatistics

variable {h : Host}

/-! ## Times -/

namespace Timespec

/-- A time which is normalised, and whose seconds are held by the header of a log. -/
def Narrow (t : Timespec h) : Prop := t.Normalised ∧ t.tvSec.toNat < 2 ^ 32

instance (t : Timespec h) : Decidable t.Narrow := inferInstanceAs (Decidable (_ ∧ _))

/-- Seconds from zero to `2 ^ 32` are held. -/
theorem narrow_of_mem {t : Timespec h} (hn : t.Normalised)
    (hs : 0 ≤ t.tvSec.toInt ∧ t.tvSec.toInt < 2 ^ 32) : t.Narrow := by
  refine ⟨hn, ?_⟩
  have hi := BitVec.toInt_eq_toNat_cond t.tvSec
  split_ifs at hi <;> omega

/-- The nanoseconds of a normalised time are held. -/
theorem Normalised.toNat_tvNsec_lt {t : Timespec h} (hn : t.Normalised) :
    t.tvNsec.toNat < 2 ^ 32 := by
  have hi := BitVec.toInt_eq_toNat_cond t.tvNsec
  have := hn.1
  have := hn.2
  simp only [billion] at this
  split_ifs at hi <;> omega

end Timespec

/-- A bit vector survives being narrowed if it is small enough. -/
theorem setWidth_setWidth_of_lt {w : ℕ} {x : BitVec w} (hx : x.toNat < 2 ^ 32) :
    (x.setWidth 32).setWidth w = x := by
  refine BitVec.eq_of_toNat_eq ?_
  rw [BitVec.toNat_setWidth, BitVec.toNat_setWidth, Nat.mod_eq_of_lt hx, Nat.mod_eq_of_lt x.isLt]

/-- A narrow time is read back from the header. -/
theorem Timespec.Narrow.toTimespec_ofTimespec {t : Timespec h} (ht : t.Narrow) :
    (Stamp.ofTimespec t).toTimespec h = t :=
  Timespec.ext (setWidth_setWidth_of_lt ht.2) (setWidth_setWidth_of_lt ht.1.toNat_tvNsec_lt)

/-! ## The parts of a log that was written -/

namespace TaskCreateArgs

/-- The name is a C string that `task_statistics_read` has a buffer for. -/
structure Named (args : TaskCreateArgs h) : Prop where
  notMem : 0 ∉ args.name
  length_lt : args.name.length < 2 ^ 32 - 1

/-- The times are narrow. -/
structure Narrow (args : TaskCreateArgs h) : Prop where
  wcet : args.wcet.Narrow
  period : args.period.Narrow
  deadline : args.deadline.Narrow
  t0 : args.t0.Narrow
  offset : args.offset.Narrow
  jobStatisticsOverhead : args.jobStatisticsOverhead.Narrow
  finishToStartOverhead : args.finishToStartOverhead.Narrow

variable {args : TaskCreateArgs h}

/-- The whole name is written. -/
theorem Named.take_strlen (hname : args.Named) : args.name.take (strlen args.name) = args.name := by
  rw [strlen_of_notMem hname.notMem, List.take_length]

theorem Named.toNat_nameLen (hname : args.Named) :
    args.taskStats.nameLen.toNat = args.name.length := by
  have := hname.length_lt
  rw [taskStats, strlen_of_notMem hname.notMem, BitVec.toNat_ofNat, Nat.mod_eq_of_lt (by omega)]

/-- A header is compatible with the host that wrote it. -/
theorem compatible_taskStats (args : TaskCreateArgs h) : args.taskStats.compatible h = true := by
  have hb : (BitVec.ofNat 8 h.hostByteOrder).toNat = h.hostByteOrder := by
    rw [Host.hostByteOrder]
    cases h.byteOrder <;> rfl
  have hsize {n : ℕ} (hn : n < 256) : (BitVec.ofNat 8 n).toNat = n := by
    rw [BitVec.toNat_ofNat, Nat.mod_eq_of_lt hn]
  simp [TaskStatistics.compatible, taskStats, hb, Nat.mod_eq_of_lt h.timeT_mem.2,
    Nat.mod_eq_of_lt h.long_mem.2, Nat.mod_eq_of_lt h.ptr_mem.2]

end TaskCreateArgs

/-- Accepting callbacks are called for the task and for all the records. -/
theorem readCallbacks_of_accepting {σ : Type*} {cb : Callbacks h σ} (ha : cb.Accepting)
    (uninit : Bytes) {tau : TaskInfo h} (hflag : tau.disableJobStatistics = 0)
    (records : List (JobStatistics h)) (st : σ) :
    ∃ fuel, readCallbacks cb uninit fuel tau
        (opened (records.flatMap JobStatistics.toBytes) false) st =
      some ⟨0, some tau, records,
        (feedJobs cb.jobStatisticsFn records (cb.taskStatisticsFn tau st).2).2.2⟩ := by
  obtain ⟨hacc, hjobs⟩ := feedJobs_of_accepting ha records (cb.taskStatisticsFn tau st).2
  have hmod : (records.flatMap JobStatistics.toBytes).length % JobStatistics.sizeof h = 0 := by
    rw [length_flatMap_toBytes, Nat.mul_mod_left]
  have hfuel := (Nat.lt_succ_self (records.flatMap JobStatistics.toBytes).length).trans_le
    (Nat.le_mul_of_pos_right _ (JobStatistics.sizeof_pos h))
  refine ⟨(records.flatMap JobStatistics.toBytes).length + 1, ?_⟩
  simp only [readCallbacks, ha.1, hflag, ne_eq, not_true_eq_false, if_false, if_true,
    readJobs_opened hfuel, records_flatMap_toBytes, hmod, hacc, decide_false, Option.map_some]
  congr 2

section Parts

variable {args : TaskCreateArgs h} {preamble : TaskStatisticsRingbuf h}
  {records : List (JobStatistics h)}

theorem logHeader_log : logHeader h (args.log preamble records) = args.taskStats := by
  have hlen : (args.taskStats.toBytes h).length = TaskStatistics.sizeof :=
    TaskStatistics.length_toBytes h _
  rw [logHeader, TaskCreateArgs.log, TaskCreateArgs.header, List.append_assoc, List.append_assoc,
    List.take_left' hlen]
  simpa using TaskStatistics.ofBytes_toBytes_append h args.taskStats []

variable (hname : args.Named)
include hname

theorem logName_log : logName h (args.log preamble records) = args.name := by
  have hlen : (args.taskStats.toBytes h).length = TaskStatistics.sizeof :=
    TaskStatistics.length_toBytes h _
  rw [logName, logHeader_log, hname.toNat_nameLen, TaskCreateArgs.log, TaskCreateArgs.header,
    hname.take_strlen, List.append_assoc, List.append_assoc, List.drop_left' hlen,
    List.take_left' rfl]

theorem nameEnd_log : nameEnd h (args.log preamble records) = args.header.length := by
  rw [nameEnd, logHeader_log, hname.toNat_nameLen, TaskCreateArgs.header, hname.take_strlen,
    List.length_append, TaskStatistics.length_toBytes]

variable (hN : args.ringbufferSize ≠ 0)
include hN

omit hname in
theorem not_logDisabled_log : ¬LogDisabled h (args.log preamble records) := by
  rw [LogDisabled, logHeader_log, not_not]
  exact if_neg hN

theorem recordsBegin_log :
    recordsBegin h (args.log preamble records) = (args.header ++ preamble.toBytes).length := by
  rw [recordsBegin, if_neg (not_logDisabled_log hN), nameEnd_log hname, List.length_append,
    TaskStatisticsRingbuf.length_toBytes]

theorem logPreamble_log : logPreamble h (args.log preamble records) = preamble := by
  rw [logPreamble, if_neg (not_logDisabled_log hN), nameEnd_log hname, TaskCreateArgs.log,
    List.append_assoc, List.drop_left' rfl,
    List.take_left' (TaskStatisticsRingbuf.length_toBytes preamble)]
  simpa using TaskStatisticsRingbuf.ofBytes_toBytes_append preamble []

theorem logRecords_log :
    logRecords h (args.log preamble records) = records.flatMap JobStatistics.toBytes := by
  rw [logRecords, recordsBegin_log hname hN, TaskCreateArgs.log, List.drop_left' rfl]

theorem logComplete_log : LogComplete h (args.log preamble records) := by
  refine ⟨?_, ?_, ?_⟩
  · simp only [TaskCreateArgs.log, TaskCreateArgs.header, List.length_append,
      TaskStatistics.length_toBytes]
    omega
  · rw [logHeader_log]
    exact args.compatible_taskStats
  · rw [recordsBegin_log hname hN, TaskCreateArgs.log]
    exact (List.prefix_append _ _).length_le

omit hN in
theorem not_nameOverflow_log : ¬NameOverflow h (args.log preamble records) := by
  rintro ⟨-, -, hmax⟩
  rw [logHeader_log, hname.toNat_nameLen] at hmax
  exact hname.length_lt.ne hmax

/-- Reading the log of a task with statistics: whatever the times, the preamble and the records
    are read back. -/
theorem taskStatisticsRead_log {σ : Type*} {cb : Callbacks h σ} (ha : cb.Accepting)
    (uninit : Bytes) (st : σ) :
    ∃ fuel, taskStatisticsRead cb uninit true fuel (opened (args.log preamble records) false) st =
      some ⟨0, some (args.taskStats.toTaskInfo h args.name preamble), records,
        (feedJobs cb.jobStatisticsFn records (cb.taskStatisticsFn
          (args.taskStats.toTaskInfo h args.name preamble) st).2).2.2⟩ := by
  have hflag := (disableJobStatistics_logTask h (args.log preamble records)).2
    (not_logDisabled_log hN)
  have htask : logTask h (args.log preamble records) =
      args.taskStats.toTaskInfo h args.name preamble := by
    rw [logTask, logHeader_log, logName_log hname, logPreamble_log hname hN]
  rw [htask] at hflag
  obtain ⟨fuel, hread⟩ := readCallbacks_of_accepting ha uninit hflag records st
  refine ⟨fuel, ?_⟩
  rw [taskStatisticsRead_of_complete (logComplete_log hname hN) (not_nameOverflow_log hname),
    logRecords_log hname hN, htask, hread]

end Parts

/-! ## The round trip -/

/-- What is read from the header of narrow times is the task. -/
theorem TaskCreateArgs.Narrow.toTaskInfo {args : TaskCreateArgs h} (hname : args.Named)
    (htimes : args.Narrow) (preamble : TaskStatisticsRingbuf h) :
    args.taskStats.toTaskInfo h args.name preamble = args.taskInfo preamble := by
  have haperiodic : ((if args.aperiodicRelease then 1 else 0 : BitVec 8).toNat : ℤ) =
      if args.aperiodicRelease then 1 else 0 := by
    split_ifs <;> rfl
  have hdisabled : ((if args.ringbufferSize = 0 then 1 else 0 : BitVec 8).toNat : ℤ) =
      if args.ringbufferSize = 0 then 1 else 0 := by
    split_ifs <;> rfl
  simp only [TaskStatistics.toTaskInfo, taskStats, taskInfo, result, haperiodic, hdisabled,
    hname.take_strlen, htimes.wcet.toTimespec_ofTimespec, htimes.period.toTimespec_ofTimespec,
    htimes.deadline.toTimespec_ofTimespec, htimes.t0.toTimespec_ofTimespec,
    htimes.offset.toTimespec_ofTimespec, htimes.jobStatisticsOverhead.toTimespec_ofTimespec,
    htimes.finishToStartOverhead.toTimespec_ofTimespec]

/-- When nothing fails, the log of a thread which was not cancelled in a job, nor in a clean-up
    handler, has the saved records of its jobs. -/
theorem Run.disk_of_device {args : TaskCreateArgs h} {env : TaskCreateEnv}
    {cancellable : CancellationPoints} {ls : List (Label h)} {s : State h}
    (hN : args.ringbufferSize ≠ 0)
    {device : ℕ → Bool} (hlog : env.statsLog = some device) (hdev : ∀ n, device n = true)
    (hr : (taskSystem args env cancellable).Run ls s) (hdone : s.pc = .done)
    (hclose : .close false ∉ ls) (hprogram : .cancelProgram ∉ ls)
    (hhandlers : HandlersComplete ls) :
    ∃ preamble, s.tau.toTaskInfo = args.taskInfo preamble ∧
      s.disk = some (args.log preamble
        (savedRecords args.ringbufferSize args.ringbufferDisableOverrun (completed ls))) := by
  obtain ⟨device', log, xs, hlog', ⟨hs, -⟩ | ⟨-, hF⟩⟩ := Run.logged hN hr hhandlers
  · exact absurd (.inr hdone) hs
  obtain rfl : device = device' := Option.some.inj (hlog.symm.trans hlog')
  obtain ⟨closes, hmem, hdisk, -⟩ := hF.closed hdone
  -- As nothing fails, the log is closed with all its items.
  have hcloses : closes = true := by
    cases closes with
    | false => exact absurd hmem hclose
    | true => rfl
  have hw : (written args device log (completed ls ++ xs)).1 = true :=
    (OutFile.fwriteAll_of_device fun n _ => hdev (n + 1)).1
  refine ⟨log.preamble, hF.info, ?_⟩
  rw [hdisk, if_pos hcloses, content_written_of_true hw, hF.notCancelled hprogram, List.append_nil]

/-- The log of a task reads back as what was logged: it consists of the header with the name, one
    preamble, and the saved records of the jobs, and reading it with callbacks that accept
    everything gives back the task and these records. The state that the callbacks leave is that of
    one call of `task_statistics_fn`, and then one call of `job_statistics_fn` for each record.

    The thread ends by leaving its loop or by being cancelled in `aperiodic_release`: neither in a
    job nor in a clean-up handler. Neither writing nor closing the log fails. -/
theorem task_log_round_trip {args : TaskCreateArgs h} {env : TaskCreateEnv}
    {cancellable : CancellationPoints} {ls : List (Label h)} {s : State h}
    (hN : args.ringbufferSize ≠ 0) (hname : args.Named)
    (htimes : ∀ t ∈ [args.wcet, args.period, args.deadline, args.t0, args.offset,
      args.jobStatisticsOverhead, args.finishToStartOverhead],
      t.Normalised ∧ 0 ≤ t.tvSec.toInt ∧ t.tvSec.toInt < 2 ^ 32)
    {device : ℕ → Bool} (hlog : env.statsLog = some device) (hdev : ∀ n, device n = true)
    (hr : (taskSystem args env cancellable).Run ls s) (hdone : s.pc = .done)
    (hclose : .close false ∉ ls) (hprogram : .cancelProgram ∉ ls)
    (hhandlers : HandlersComplete ls) :
    flushes ls = 1 ∧ ∃ preamble records,
      records = savedRecords args.ringbufferSize args.ringbufferDisableOverrun (completed ls) ∧
      s.tau.toTaskInfo = args.taskInfo preamble ∧
      s.disk = some (args.log preamble records) ∧
      ∀ (σ : Type) (cb : Callbacks h σ), cb.Accepting → ∀ (uninit : Bytes) (st : σ),
        ∃ fuel r, taskStatisticsRead cb uninit true fuel (opened (args.log preamble records) false)
            st = some r ∧
          r.exitCode = 0 ∧ r.task = some s.tau.toTaskInfo ∧ r.jobs = records ∧
          r.state = records.foldl (fun st stats => (cb.jobStatisticsFn stats st).2)
            (cb.taskStatisticsFn s.tau.toTaskInfo st).2 := by
  have hnarrow {t : Timespec h} (ht : t.Normalised ∧ 0 ≤ t.tvSec.toInt ∧ t.tvSec.toInt < 2 ^ 32) :
      t.Narrow := Timespec.narrow_of_mem ht.1 ht.2
  simp only [List.mem_cons, List.not_mem_nil, or_false, forall_eq_or_imp, forall_eq] at htimes
  obtain ⟨h1, h2, h3, h4, h5, h6, h7⟩ := htimes
  have htimes : args.Narrow := ⟨hnarrow h1, hnarrow h2, hnarrow h3, hnarrow h4, hnarrow h5,
    hnarrow h6, hnarrow h7⟩
  obtain ⟨preamble, hinfo, hdisk⟩ := Run.disk_of_device hN hlog hdev hr hdone hclose hprogram
    hhandlers
  refine ⟨by rw [Run.flushes_eq hr hhandlers, if_pos (.inr hdone)], preamble, _, rfl, hinfo, hdisk,
    fun σ cb ha uninit st => ?_⟩
  obtain ⟨fuel, hread⟩ := taskStatisticsRead_log hname hN ha uninit st
  have hstate := state_taskStatisticsRead hread
  rw [htimes.toTaskInfo hname, ← hinfo] at hread hstate
  exact ⟨fuel, _, hread, rfl, rfl, rfl, hstate⟩

-- A thread which leaves its loop with the cancellation pending may be cancelled in `fclose`.
example : ∃ s, (taskSystem (TaskCreateArgs.onEvents 2) (.succeeding fun _ => true) .anywhere).Run
    [.enterRelease true, .passPoint true, .stop, .checkInside, .cancel, .returnRelease,
      .clearInside, .jobBegin (some ⟨9, 0⟩), .programEnd,
      .jobEnd (some ⟨10, 0⟩) (some ⟨⟨9, 0⟩, ⟨10, 0⟩⟩), .test, .flush 2, .cancelClose] s ∧
    s.pc = .done ∧ s.disk = none :=
  ⟨_, run_of_exec (newTask_mem_init .anywhere rfl) rfl, rfl, rfl⟩

/-- The only round of a task which is stopped in its first job. -/
def oneJob : List (Label .lp64) :=
  [.sleep ⟨9, 0⟩ 0, .jobBegin (some ⟨9, 0⟩), .stop, .programEnd,
    .jobEnd (some ⟨9, 5⟩) (some ⟨⟨9, 0⟩, ⟨9, 5⟩⟩), .nextRelease, .test, .flush 2, .close true]

/-- The log of such a task, with two slots. -/
theorem task_log_round_trip_one_job :
    ∃ s preamble, (taskSystem (TaskCreateArgs.everySecond 2) (.succeeding fun _ => true) .none).Run
        oneJob s ∧
      s.disk = some ((TaskCreateArgs.everySecond 2).log preamble [⟨⟨9, 0⟩, ⟨9, 5⟩⟩]) := by
  have hr : (taskSystem (TaskCreateArgs.everySecond 2) (.succeeding fun _ => true) .none).Run
      oneJob _ :=
    run_of_exec (newTask_mem_init .none rfl) rfl
  obtain ⟨-, preamble, records, hrecords, -, hdisk, -⟩ := task_log_round_trip (by decide)
    ⟨by decide, by decide⟩ (by decide) rfl (fun _ => rfl) hr rfl (by decide) (by decide)
    (Run.handlersComplete rfl hr)
  exact ⟨_, preamble, hr, hdisk.trans (by rw [hrecords]; rfl)⟩

end RealtimeTests
