import RealtimeTests.Report.Cdf
import RealtimeTests.Report.Release

/-!
# What a report tells of a run

The way of the statistics of a job is a long one: the thread of a task stores them into a ring
buffer, which it saves into a log at its end, and `read_task_stats_file` prints them from there, by
rows or as the distribution of the response times. What is printed in the end is what has happened
in the run (`report_response_times`), for a periodic task with times which are not negative.

* `rowsOf`: the rows that are computed for records, printed or not;
* `lateCount_feedJobs`, `reportedTimes_eq`: what is counted, in terms of the rows;
* `JobRow.Reports`: what a row should tell of a job;
* `OfTask.reports`: a row tells it.
-/

namespace RealtimeTests

open Lts InFile JobstatsRingbuf Empirical

variable {h : Host}

/-! ## The rows that are computed -/

/-- The rows that are computed for records. -/
def rowsOf (records : List (JobStatistics h)) (prms : TaskStats h) : List (JobRow h) :=
  records.mapIdx fun i stats => jobRow stats (prms.skip i)

theorem rowsOf_cons (stats : JobStatistics h) (records : List (JobStatistics h))
    (prms : TaskStats h) :
    rowsOf (stats :: records) prms =
      jobRow stats prms :: rowsOf records (printJobStats stats prms).2 := by
  have hfirst : prms.skip 0 = prms := by
    rw [TaskStats.skip, BitVec.add_zero]
  rw [rowsOf, List.mapIdx_cons, hfirst, rowsOf]
  congr 2
  funext i x
  refine jobRow_congr x rfl rfl rfl rfl ?_
  change prms.nthJob + BitVec.ofNat _ (i + 1) = prms.nthJob + 1 + BitVec.ofNat _ i
  rw [Nat.add_comm i, BitVec.ofNat_add, BitVec.add_assoc]
  rfl

/-- The response times handed to the list are those of the rows. -/
theorem reportedTimes_eq (records : List (JobStatistics h)) (prms : TaskStats h) :
    reportedTimes records prms = (rowsOf records prms).map JobRow.responseTimeNs := by
  induction records generalizing prms with
  | nil => rfl
  | cons stats records ih => rw [rowsOf_cons, List.map_cons, ← ih, reportedTimes]

/-- The jobs counted as late are those whose rows are. -/
theorem lateCount_feedJobs (records : List (JobStatistics h)) (prms : TaskStats h) :
    (feedJobs printJobStats records prms).2.2.lateCount =
      prms.lateCount + .ofNat _ ((rowsOf records prms).countP JobRow.late) := by
  induction records generalizing prms with
  | nil => exact (BitVec.add_zero _).symm
  | cons stats records ih =>
    have haccept : ¬(printJobStats stats prms).1 ≠ 0 := not_not.2 rfl
    rw [feedJobs, if_neg haccept, rowsOf_cons]
    refine (ih _).trans ?_
    rw [List.countP_cons, Nat.add_comm, BitVec.ofNat_add, ← BitVec.add_assoc]
    congr 1
    cases hlate : (jobRow stats prms).late <;> simp [printJobStats, hlate]

/-! ## Rows and jobs -/

/-- A time which is normalised and not negative, and whose seconds are held by the header of a
    log. -/
def Timespec.Natural (t : Timespec h) : Prop :=
  t.Normalised ∧ 0 ≤ t.tvSec.toInt ∧ t.tvSec.toInt < 2 ^ 32

instance (t : Timespec h) : Decidable t.Natural := inferInstanceAs (Decidable (_ ∧ _))

namespace Timespec.Natural

variable {t : Timespec h} (ht : t.Natural)
include ht

theorem narrow : t.Narrow := narrow_of_mem ht.1 ht.2

theorem value_nonneg : 0 ≤ t.value := ht.1.value_nonneg ht.2.1

end Timespec.Natural

/-- The times of a task that rows are computed from. -/
structure TaskCreateArgs.Natural (args : TaskCreateArgs h) : Prop where
  t0 : args.t0.Natural
  offset : args.offset.Natural
  period : args.period.Natural
  deadline : args.deadline.Natural

/-- The value of the deadline of the `k`-th job, counted from zero. -/
def deadlineValue (args : TaskCreateArgs h) (k : ℕ) : ℤ := releaseValue args k + args.deadline.value

/-- A job starts from `t_0` on, and finishes after that, as the clock tells. -/
structure JobStatistics.After (stats : JobStatistics h) (t0 : Timespec h) : Prop where
  tBegin : stats.tBegin.Normalised
  tEnd : stats.tEnd.Normalised
  begin_le : t0.value ≤ stats.tBegin.value
  end_le : stats.tBegin.value ≤ stats.tEnd.value

/-- A row tells of the `p`-th job of a task, counted from zero: its release time, its start, its
    deadline and its finish relative to `t_0`, and how these are to each other. -/
structure JobRow.Reports (row : JobRow h) (args : TaskCreateArgs h) (stats : JobStatistics h)
    (p : ℕ) : Prop where
  job : row.job.toNat = p + 1
  release : row.release.value = releaseValue args p - args.t0.value
  start : row.start.value = stats.tBegin.value - args.t0.value
  deltaS : row.signedDeltaS = stats.tBegin.value - releaseValue args p
  deadline : row.deadline.value = deadlineValue args p - args.t0.value
  finish : row.finish.value = stats.tEnd.value - args.t0.value
  deltaF : row.signedDeltaF = stats.tEnd.value - deadlineValue args p
  execTime : row.execTime.value = stats.tEnd.value - stats.tBegin.value
  responseTime : row.responseTime.value = max 0 (stats.tEnd.value - releaseValue args p)
  late : row.late = true ↔ deadlineValue args p < stats.tEnd.value

/-- The parameters of a report are those of a task. -/
structure OfTask (prms : TaskStats h) (args : TaskCreateArgs h) : Prop where
  t0 : prms.t0 = args.t0
  offset : prms.offset = args.offset
  period : prms.period = args.period
  deadline : prms.deadline = args.deadline

/-- The parameters of a report on a log, before the first record. -/
def TaskCreateArgs.started (args : TaskCreateArgs h) (preamble : TaskStatisticsRingbuf h)
    (suppress : Bool) : TaskStats h :=
  (printTaskStats (args.taskStats.toTaskInfo h args.name preamble) (.init h suppress)).2

namespace OfTask

variable {prms : TaskStats h} {args : TaskCreateArgs h}

/-- What a report on the log of a task starts from. -/
theorem started (hargs : args.Natural) (preamble : TaskStatisticsRingbuf h) (suppress : Bool) :
    OfTask (args.started preamble suppress) args where
  t0 := hargs.t0.narrow.toTimespec_ofTimespec
  offset := hargs.offset.narrow.toTimespec_ofTimespec
  period := hargs.period.narrow.toTimespec_ofTimespec
  deadline := hargs.deadline.narrow.toTimespec_ofTimespec

theorem skip (ho : OfTask prms args) (i : ℕ) : OfTask (prms.skip i) args :=
  ⟨ho.t0, ho.offset, ho.period, ho.deadline⟩

/-- A row that is labelled with the number of a job tells of it. -/
theorem reports (ho : OfTask prms args) (hargs : args.Natural) {stats : JobStatistics h} {p : ℕ}
    (hafter : stats.After args.t0) (hjob : prms.nthJob.toNat = p + 1) (hp : p < 2 ^ 32)
    (hfit : FitsTimeT h (deadlineValue args p)) : (jobRow stats prms).Reports args stats p := by
  have hrelease : prms.releaseValue = releaseValue args p := by
    rw [TaskStats.releaseValue, releaseValue, ho.t0, ho.offset, ho.period, hjob]
    push_cast
    ring
  have hdeadline : prms.deadlineValue = deadlineValue args p := by
    rw [TaskStats.deadlineValue, hrelease, ho.deadline, deadlineValue]
  have hnorm : prms.Normalised :=
    ⟨ho.t0 ▸ hargs.t0.1, ho.offset ▸ hargs.offset.1, ho.period ▸ hargs.period.1,
      ho.deadline ▸ hargs.deadline.1⟩
  have hordered : stats.Ordered prms :=
    ⟨hafter.tBegin, hafter.tEnd, ho.t0 ▸ hafter.begin_le, hafter.end_le⟩
  have hfits : RowFits stats prms := rowFits_of_nonneg hordered (by omega)
    (ho.t0 ▸ hargs.t0.value_nonneg) (ho.offset ▸ hargs.offset.value_nonneg)
    (ho.period ▸ hargs.period.value_nonneg) (ho.deadline ▸ hargs.deadline.value_nonneg)
    (hdeadline ▸ hfit)
  have hrow := exact_jobRow hnorm hordered hfits (by omega) (by omega)
  have ht0 := ho.t0
  exact
    { job := by rw [hrow.job, hjob]
      release := by rw [hrow.release, hrelease, ht0]
      start := by rw [hrow.start, ht0]
      deltaS := by rw [hrow.deltaS, hrelease]
      deadline := by rw [hrow.deadline, hdeadline, ht0]
      finish := by rw [hrow.finish, ht0]
      deltaF := by rw [hrow.deltaF, hdeadline]
      execTime := hrow.execTime
      responseTime := by rw [hrow.responseTime, hrelease]
      late := by rw [hrow.late, hdeadline] }

end OfTask

/-- Something about each of the rows. -/
theorem map_rowsOf {β : Type*} {records : List (JobStatistics h)} {prms : TaskStats h}
    {f : JobRow h → β} {g : ℕ → JobStatistics h → β}
    (hfg : ∀ i stats, records[i]? = some stats → f (jobRow stats (prms.skip i)) = g i stats) :
    (rowsOf records prms).map f = records.mapIdx g := by
  refine List.ext_getElem? fun i => ?_
  rw [rowsOf, List.getElem?_map, List.getElem?_mapIdx, List.getElem?_mapIdx, Option.map_map]
  exact Option.map_congr fun stats hstats => hfg i stats hstats

/-! ## The report on a run -/

/-- The response times of the jobs from the `first`-th one on in ns, counted from zero: the times
    from their releases to their ends. -/
def responseTimesFrom (args : TaskCreateArgs h) (first : ℕ) (jobs : List (JobStatistics h)) :
    List ℕ :=
  jobs.mapIdx fun i stats => (stats.tEnd.value - releaseValue args (first + i)).toNat

/-- Which of the jobs from the `first`-th one on have missed their deadline. -/
def lateFrom (args : TaskCreateArgs h) (first : ℕ) (jobs : List (JobStatistics h)) : List Bool :=
  jobs.mapIdx fun i stats => decide (deadlineValue args (first + i) < stats.tEnd.value)

/-- The response time of a row in ns, in 64 bits. -/
theorem JobRow.Reports.toNat_responseTimeNs {row : JobRow h} {args : TaskCreateArgs h}
    {stats : JobStatistics h} {p : ℕ} (hrow : row.Reports args stats p)
    (hrelease : 0 ≤ releaseValue args p) (hlt : stats.tEnd.value < 2 ^ 64) :
    row.responseTimeNs.toNat = (stats.tEnd.value - releaseValue args p).toNat := by
  rw [row.responseTimeNs_eq, hrow.responseTime, BitVec.toNat_ofInt]
  omega

/-- The records of consecutive jobs of a task, from the `first`-th one on, counted from zero, in a
    log whose preamble tells the position of the oldest one. -/
structure Consecutive (args : TaskCreateArgs h) (preamble : TaskStatisticsRingbuf h) (first : ℕ)
    (records : List (JobStatistics h)) : Prop where
  oldest : records ≠ [] → preamble.oldestJobPos.toNat = first + 1
  after : ∀ stats ∈ records, stats.After args.t0 ∧ stats.tEnd.value < 2 ^ 64
  length_lt : first + records.length < 2 ^ 32
  fits : ∀ i < records.length, FitsTimeT h (deadlineValue args (first + i))

/-- The release times are not negative when the times of the task are not. -/
theorem releaseValue_nonneg {args : TaskCreateArgs h} (hargs : args.Natural) (k : ℕ) :
    0 ≤ releaseValue args k :=
  add_nonneg (add_nonneg hargs.t0.value_nonneg hargs.offset.value_nonneg)
    (mul_nonneg (Nat.cast_nonneg k) hargs.period.value_nonneg)

theorem releaseValue_le_deadlineValue {args : TaskCreateArgs h} (hargs : args.Natural) (k : ℕ) :
    releaseValue args k ≤ deadlineValue args k :=
  le_add_of_nonneg_right hargs.deadline.value_nonneg

namespace Consecutive

variable {args : TaskCreateArgs h} {preamble : TaskStatisticsRingbuf h} {first : ℕ}
  {records : List (JobStatistics h)} (hc : Consecutive args preamble first records)
  (hargs : args.Natural) (suppress : Bool)
include hc hargs

/-- The row that is computed for a record tells of its job. -/
theorem reports {i : ℕ} {stats : JobStatistics h} (hstats : records[i]? = some stats) :
    (jobRow stats ((args.started preamble suppress).skip i)).Reports args stats (first + i) := by
  obtain ⟨hi, -⟩ := List.getElem?_eq_some_iff.1 hstats
  have hlong := h.two_pow_32_le_longBits
  have hlength := hc.length_lt
  have hfirst := hc.oldest (List.length_pos_iff.1 (by omega))
  -- The number of the job does not depend on whether the rows are printed.
  have hjob := @toNat_nthJob_skip h args preamble i (first + i) (by omega) (by omega)
  exact ((OfTask.started hargs preamble suppress).skip i).reports hargs
    (hc.after stats (List.mem_of_getElem? hstats)).1 hjob (by omega) (hc.fits i hi)

/-- The jobs that are counted as late are those which have missed their deadline. -/
theorem late :
    (feedJobs printJobStats records (args.started preamble suppress)).2.2.lateCount.toNat =
      (lateFrom args first records).count true := by
  have hlate : (rowsOf records (args.started preamble suppress)).map JobRow.late =
      lateFrom args first records :=
    map_rowsOf fun i stats hstats => Bool.eq_iff_iff.2 <| by
      rw [(hc.reports hargs suppress hstats).late, decide_eq_true_iff]
  have hlength := hc.length_lt
  have hcount : (lateFrom args first records).count true ≤ records.length := by
    refine List.count_le_length.trans_eq ?_
    rw [lateFrom, List.length_mapIdx]
  have hcountP : (rowsOf records (args.started preamble suppress)).countP JobRow.late =
      (lateFrom args first records).count true := by
    rw [← hlate, List.count, List.countP_map]
    refine List.countP_congr fun row _ => ?_
    simp
  have hnone : (args.started preamble suppress).lateCount = 0 := rfl
  rw [lateCount_feedJobs, hcountP, hnone, zero_add, BitVec.toNat_ofNat,
    Nat.mod_eq_of_lt (by omega)]

/-- The response times that are reported, to the nearest microsecond. -/
theorem rounded : roundedTimes (reportedTimes records (args.started preamble suppress)) =
    (responseTimesFrom args first records).map nearestUs := by
  have htimes : (rowsOf records (args.started preamble suppress)).map
      (fun row => row.responseTimeNs.toNat) = responseTimesFrom args first records :=
    map_rowsOf fun i stats hstats => (hc.reports hargs suppress hstats).toNat_responseTimeNs
      (releaseValue_nonneg hargs _) (hc.after stats (List.mem_of_getElem? hstats)).2
  rw [roundedTimes, reportedTimes_eq, List.map_map, ← htimes, List.map_map]
  simp only [Function.comp_def]

end Consecutive

section Report

variable {args : TaskCreateArgs h} {env : TaskCreateEnv} {cancellable : CancellationPoints}
  {ls : List (Label h)} {s : State h} {content : Bytes}

/-- The records retained are those of the jobs from some one on, the position of which is told in
    front of them. -/
theorem JobstatsRingbuf.Logs.exists_first {log : JobstatsRingbuf h} {N : ULong h}
    {disableOverrun : ℤ} {xs : List (JobStatistics h)} (hl : log.Logs N disableOverrun xs)
    (hn : xs.length < 2 ^ h.longBits) :
    ∃ first, (savedRecords N disableOverrun xs ≠ [] →
        log.preamble.oldestJobPos.toNat = first + 1) ∧
      first + (savedRecords N disableOverrun xs).length ≤ xs.length ∧
      ∀ i < (savedRecords N disableOverrun xs).length,
        xs[first + i]? = (savedRecords N disableOverrun xs)[i]? := by
  have hold {i : ℕ} (hi : i < (savedRecords N disableOverrun xs).length) :=
    hl.getElem?_savedRecords hn hi
  generalize savedRecords N disableOverrun xs = records at hold ⊢
  rcases Nat.eq_zero_or_pos records.length with hnil | hpos
  · exact ⟨0, fun hne => absurd (List.length_eq_zero_iff.1 hnil) hne, by omega, by omega⟩
  obtain ⟨first, hfirst, -⟩ := hold hpos
  have hget (i : ℕ) (hi : i < records.length) : xs[first + i]? = records[i]? := by
    obtain ⟨p, hp, hp'⟩ := hold hi
    obtain rfl : p = first + i := by omega
    exact hp'
  refine ⟨first, fun _ => hfirst, ?_, hget⟩
  -- The last record is one of a job.
  have hlt : records.length - 1 < records.length := by omega
  have hlast := hget _ hlt
  rw [List.getElem?_eq_getElem hlt] at hlast
  obtain ⟨hlt, -⟩ := List.getElem?_eq_some_iff.1 hlast
  omega

/-- The records in the log of a run are those of consecutive jobs, each of which the thread has
    slept for until its release time. -/
theorem Run.consecutive (hN : args.ringbufferSize ≠ 0) (hap : args.aperiodicRelease = false)
    (hargs : args.Natural) (hr : (taskSystem args env cancellable).Run ls s)
    (hn : jobsBegun ls < 2 ^ 32)
    (hfits : ∀ k ≤ jobsBegun ls, FitsTimeT h (deadlineValue args k))
    (hclock : ∀ stats ∈ completed ls, stats.After args.t0 ∧ stats.tEnd.value < 2 ^ 64)
    (hdisk : s.disk = some content) (hfail : s.tau.failToCloseStatsLog = 0) :
    ∃ (preamble : TaskStatisticsRingbuf h) (first : ℕ) (records : List (JobStatistics h)),
      content = args.log preamble records ∧
      records = savedRecords args.ringbufferSize args.ringbufferDisableOverrun (completed ls) ∧
      Consecutive args preamble first records ∧
      ∀ (i : ℕ) (stats : JobStatistics h), records[i]? = some stats →
        (completed ls)[first + i]? = some stats ∧
        ∃ t, (sleeps ls)[first + i]? = some t ∧ t.value = releaseValue args (first + i) := by
  obtain ⟨device, log, xs, -, hrec, -, hxs, rfl, hw⟩ := Run.disk hN hr
    (Run.handlersComplete_of_periodic hap hr) hdisk
  obtain rfl := hxs (Run.cancelProgram_notMem hap hr)
  have hlogs := hrec.logs
  have hjobs := hrec.jobsBegun
  rw [List.append_nil] at hlogs hjobs hw ⊢
  have hlong := h.two_pow_32_le_longBits
  obtain ⟨first, hfirst, hle, hget⟩ := hlogs.exists_first (by omega)
  refine ⟨log.preamble, first, _, content_written_of_true (hw hfail), rfl, ?_⟩
  generalize savedRecords args.ringbufferSize args.ringbufferDisableOverrun (completed ls) =
    records at hfirst hle hget
  have hjob {i : ℕ} {stats : JobStatistics h} (hstats : records[i]? = some stats) :
      (completed ls)[first + i]? = some stats :=
    (hget i (List.getElem?_eq_some_iff.1 hstats).1).trans hstats
  refine ⟨⟨hfirst, fun stats hmem => ?_, by omega, fun i hi => hfits _ (by omega)⟩,
    fun i stats hstats => ⟨hjob hstats, ?_⟩⟩
  · obtain ⟨i, hstats⟩ := List.mem_iff_getElem?.1 hmem
    exact hclock stats (List.mem_of_getElem? (hjob hstats))
  · obtain ⟨k, hreleased⟩ := Run.released hap hargs.t0.1 hargs.offset.1 hargs.period.1 hr
      fun k hk => (hfits k hk).of_le (releaseValue_nonneg hargs k)
        (releaseValue_le_deadlineValue hargs k)
    obtain ⟨hlt, -⟩ := List.getElem?_eq_some_iff.1 (hjob hstats)
    have hps : first + i < (sleeps ls).length := by
      rw [hreleased.length_sleeps]
      omega
    exact ⟨_, List.getElem?_eq_getElem hps, (hreleased.slept _ hps).2⟩

end Report

/-- The report on the log of a run tells what has happened in it. When the thread of a periodic task
    has written its log without a failure, the report on the log

    * reads the records retained, which are those of consecutive jobs, each released at the time
      that the thread has slept to;
    * has a row for each of them, unless rows are suppressed, which tells of this job;
    * counts those jobs as late which have missed their deadline;
    * prints the empirical distribution of their response times, to the nearest microsecond.

    The clock is one that does not go back from `t_0` on, and the numbers of jobs and the times fit
    their types. -/
theorem report_response_times {args : TaskCreateArgs h} {env : TaskCreateEnv}
    {cancellable : CancellationPoints} {ls : List (Label h)} {s : State h} {content : Bytes}
    (hN : args.ringbufferSize ≠ 0) (hap : args.aperiodicRelease = false) (hname : args.Named)
    (hargs : args.Natural) (hr : (taskSystem args env cancellable).Run ls s)
    (hn : jobsBegun ls < 2 ^ 32)
    (hfits : ∀ k ≤ jobsBegun ls, FitsTimeT h (deadlineValue args k))
    (hclock : ∀ stats ∈ completed ls, stats.After args.t0 ∧ stats.tEnd.value < 2 ^ 64)
    (hdisk : s.disk = some content) (hfail : s.tau.failToCloseStatsLog = 0) (uninit : Bytes)
    (suppress : Bool) :
    ∃ (fuel : ℕ) (r : ReadResult h (TaskStats h)) (first : ℕ),
      readTaskStatsFile uninit true fuel (opened content false) suppress = some r ∧
      r.exitCode = 0 ∧
      r.jobs = savedRecords args.ringbufferSize args.ringbufferDisableOverrun (completed ls) ∧
      (∀ (i : ℕ) (stats : JobStatistics h), r.jobs[i]? = some stats →
        (completed ls)[first + i]? = some stats ∧
        ∃ t, (sleeps ls)[first + i]? = some t ∧ t.value = releaseValue args (first + i)) ∧
      (suppress = false → r.state.rows.length = r.jobs.length ∧
        ∀ (i : ℕ) (row : JobRow h) (stats : JobStatistics h), r.state.rows[i]? = some row →
          r.jobs[i]? = some stats → row.Reports args stats (first + i)) ∧
      r.state.lateCount.toNat = (lateFrom args first r.jobs).count true ∧
      (r.jobs ≠ [] → ∀ L : LinkedList, L.Holds r.state.responseTimes →
        L.printResponseTimeCdf r.jobs.length (r.state.totalJobCount.setWidth 32) .gnuplot =
          some (some (.lines (cdf ((responseTimesFrom args first r.jobs).map nearestUs))))) := by
  obtain ⟨preamble, first, records, rfl, hrecords, hc, hjobs⟩ :=
    Run.consecutive hN hap hargs hr hn hfits hclock hdisk hfail
  obtain ⟨fuel, hread⟩ := @taskStatisticsRead_log h args preamble records hname hN _ _
    (accepting_reportCallbacks h) uninit (.init h suppress)
  refine ⟨fuel, _, first, hread, rfl, hrecords, hjobs, fun hprint => ?_, hc.late hargs suppress,
    fun hne L hL => ?_⟩
  · subst hprint
    have hrows : (feedJobs printJobStats records (args.started preamble false)).2.2.rows =
        rowsOf records (args.started preamble false) := rows_feedJobs records rfl
    refine ⟨(congrArg List.length hrows).trans List.length_mapIdx,
      fun i row stats hrow hstats => ?_⟩
    have hrow' := (congrArg (fun rows => rows[i]?) hrows).symm.trans hrow
    rw [rowsOf, List.getElem?_mapIdx, show records[i]? = some stats from hstats] at hrow'
    obtain rfl := Option.some.inj hrow'
    exact hc.reports hargs false hstats
  · have hlength := hc.length_lt
    have hL' : L.Holds (feedJobs printJobStats records
        (args.started preamble suppress)).2.2.responseTimes := hL
    have hlt : records.length < 2 ^ 32 := by omega
    have hcdf := printResponseTimeCdf_feedJobs hne hlt rfl rfl hL' le_rfl
    rw [hc.rounded hargs suppress] at hcdf
    exact hcdf

/-- With one slot, the report is on the second one of the two jobs. -/
theorem report_response_times_two_jobs :
    ∃ s content fuel first, ∃ r : ReadResult .lp64 (TaskStats .lp64),
      (taskSystem (TaskCreateArgs.everySecond 1) (.succeeding fun _ => true) .none).Run twoJobs s ∧
      s.disk = some content ∧
      readTaskStatsFile [] true fuel (opened content false) true = some r ∧
      r.state.lateCount.toNat =
        (lateFrom (TaskCreateArgs.everySecond 1) first r.jobs).count true := by
  have hr : (taskSystem (TaskCreateArgs.everySecond 1) (.succeeding fun _ => true) .none).Run
      twoJobs _ :=
    run_of_exec (newTask_mem_init .none rfl) rfl
  have hclock : ∀ stats ∈ completed twoJobs, stats.After (TaskCreateArgs.everySecond 1).t0 ∧
      stats.tEnd.value < 2 ^ 64 := by
    have hjobs : completed twoJobs = [⟨⟨9, 0⟩, ⟨9, 5⟩⟩, ⟨⟨10, 0⟩, ⟨10, 5⟩⟩] := rfl
    rw [hjobs]
    intro stats hmem
    rcases List.mem_pair.1 hmem with rfl | rfl <;>
      exact ⟨⟨by decide, by decide, by decide, by decide⟩, by decide⟩
  obtain ⟨fuel, r, first, hread, -, -, -, -, hlate, -⟩ := report_response_times (by decide) rfl
    ⟨by decide, by decide⟩ ⟨by decide, by decide, by decide, by decide⟩ hr (by decide) (by decide)
    hclock rfl rfl [] true
  exact ⟨_, _, fuel, first, r, hr, rfl, hread, hlate⟩

end RealtimeTests
