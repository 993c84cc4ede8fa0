import RealtimeTests.Task.Read

/-!
# Reports

`read_task_stats_file.c`: the program that reads the log of a task by
`task_statistics_read`, and prints the parameters of the task and a row for each
record, or counts the response times.

The report is the sequence of its lines, with the values that are printed in them
rather than their text. Memory does not run out.
-/

namespace RealtimeTests

variable {h : Host}

/-! ## Response times -/

/-- `struct response_time_list`: an item of the list of response times, in microseconds. -/
structure ResponseTime where
  jobCount : BitVec 32
  responseTime : BitVec 64
  deriving DecidableEq

/-- A response time in ns, rounded to microseconds. -/
def roundResponseTime (responseTime : BitVec 64) : BitVec 64 :=
  if 500 ≤ responseTime % 1000 then responseTime / 1000 + 1 else responseTime / 1000

/-- The loop of `insert_response_time`. -/
def insertRounded (responseTime : BitVec 64) : List ResponseTime → List ResponseTime
  | [] => [⟨1, responseTime⟩]
  | itr :: next =>
    if itr.responseTime = responseTime then { itr with jobCount := itr.jobCount + 1 } :: next
    else if responseTime < itr.responseTime then ⟨1, responseTime⟩ :: itr :: next
    else itr :: insertRounded responseTime next

/-- `insert_response_time`. -/
def insertResponseTime (responseTime : BitVec 64) (smallest : List ResponseTime) :
    List ResponseTime :=
  insertRounded (roundResponseTime responseTime) smallest

/-! ## The report -/

/-- A row of the report, for a job: the columns `#job`, `release`, `delta_s`, `start`, `deadline`,
    `delta_f`, `finish`, `exec_time` and `response_time`. The deltas are printed with a sign, which
    is `+` when `late` or `lateStart`. -/
@[ext]
structure JobRow (h : Host) where
  job : ULong h
  release : UtilityTime h
  lateStart : Bool
  deltaS : UtilityTime h
  start : UtilityTime h
  deadline : UtilityTime h
  deltaF : UtilityTime h
  finish : UtilityTime h
  execTime : UtilityTime h
  responseTime : UtilityTime h
  late : Bool
  deriving DecidableEq

/-- What is printed: the parameters of the task, the names of the columns, or a row. -/
inductive ReportLine (h : Host)
  | task (tau : TaskInfo h)
  | columns
  | job (row : JobRow h)

/-- The row in a line. -/
def ReportLine.row : ReportLine h → Option (JobRow h)
  | job row => some row
  | _ => none

/-- `struct task_stats`. -/
structure TaskStats (h : Host) where
  report : List (ReportLine h)
  period : UtilityTime h
  deadline : UtilityTime h
  t0 : UtilityTime h
  offset : UtilityTime h
  nthJob : ULong h
  totalJobCount : ULong h
  lateCount : BitVec 32
  suppressPrintout : Bool
  firstTime : Bool
  responseTimes : List ResponseTime

namespace TaskStats

/-- `stats_prms` as initialised by `main`. -/
def init (h : Host) (suppressPrintout : Bool) : TaskStats h where
  report := []
  period := utilityTimeZeroT
  deadline := utilityTimeZeroT
  t0 := utilityTimeZeroT
  offset := utilityTimeZeroT
  nthJob := 0
  totalJobCount := 0
  lateCount := 0
  suppressPrintout := suppressPrintout
  firstTime := true
  responseTimes := []

/-- The rows printed. -/
def rows (prms : TaskStats h) : List (JobRow h) := prms.report.filterMap ReportLine.row

end TaskStats

/-- `print_task_stats`. -/
def printTaskStats (tau : TaskInfo h) (prms : TaskStats h) : ℤ × TaskStats h :=
  (0,
    { prms with
      report := prms.report ++ if prms.suppressPrintout then [] else [.task tau]
      period := tau.period
      deadline := tau.deadline
      t0 := tau.t0
      offset := tau.offset
      nthJob := tau.oldestJobPos })

/-- The row of a job. The product of the period takes an `unsigned`. -/
def jobRow (stats : JobStatistics h) (prms : TaskStats h) : JobRow h :=
  let tRelease :=
    utilityTimeAdd prms.offset (utilityTimeMul prms.period ((prms.nthJob - 1).setWidth 32))
  let tStart := utilityTimeSub stats.tBegin prms.t0
  let tDeadline := utilityTimeAdd tRelease prms.deadline
  let tFinish := utilityTimeSub stats.tEnd prms.t0
  { job := prms.nthJob
    release := tRelease
    lateStart := utilityTimeLt tRelease tStart
    deltaS :=
      if utilityTimeLt tRelease tStart then utilityTimeSub tStart tRelease
      else utilityTimeSub tRelease tStart
    start := tStart
    deadline := tDeadline
    deltaF :=
      if utilityTimeLt tDeadline tFinish then utilityTimeSub tFinish tDeadline
      else utilityTimeSub tDeadline tFinish
    finish := tFinish
    execTime := utilityTimeSub tFinish tStart
    responseTime := utilityTimeSub tFinish tRelease
    late := utilityTimeLt tDeadline tFinish }

/-- The response time of a row in ns. -/
def JobRow.responseTimeNs (row : JobRow h) : BitVec 64 :=
  row.responseTime.tvSec.signExtend 64 * 1000000000 + row.responseTime.tvNsec.signExtend 64

/-- `print_job_stats`. -/
def printJobStats (stats : JobStatistics h) (prms : TaskStats h) : ℤ × TaskStats h :=
  let row := jobRow stats prms
  (0,
    { prms with
      report := prms.report ++
        if prms.suppressPrintout then []
        else if prms.firstTime then [.columns, .job row]
        else [.job row]
      firstTime := prms.firstTime && prms.suppressPrintout
      lateCount := if row.late then prms.lateCount + 1 else prms.lateCount
      responseTimes := insertResponseTime row.responseTimeNs prms.responseTimes
      nthJob := prms.nthJob + 1
      totalJobCount := prms.totalJobCount + 1 })

/-- The callbacks of `main`. -/
def reportCallbacks (h : Host) : Callbacks h (TaskStats h) := ⟨printTaskStats, printJobStats⟩

/-- What `main` reads from a log before it prints the response times, if it asks for them. -/
def readTaskStatsFile (uninit : Bytes) (malloc : Bool) (fuel : ℕ) (statsFile : InFile)
    (suppressPrintout : Bool) : Option (ReadResult h (TaskStats h)) :=
  taskStatisticsRead (reportCallbacks h) uninit malloc fuel statsFile (.init h suppressPrintout)

theorem accepting_reportCallbacks (h : Host) : (reportCallbacks h).Accepting :=
  ⟨fun _ _ => rfl, fun _ _ => rfl⟩

/-! ## The rows -/

/-- The row of a record is added to those printed. -/
theorem rows_printJobStats (stats : JobStatistics h) {prms : TaskStats h}
    (hprint : prms.suppressPrintout = false) :
    (printJobStats stats prms).2.rows = prms.rows ++ [jobRow stats prms] := by
  simp only [TaskStats.rows, printJobStats, hprint, List.filterMap_append, Bool.false_eq_true,
    if_false]
  cases prms.firstTime <;> rfl

/-- The row of a record depends on the times of the task and on the number of the job. -/
theorem jobRow_congr (stats : JobStatistics h) {prms prms' : TaskStats h}
    (hperiod : prms.period = prms'.period) (hdeadline : prms.deadline = prms'.deadline)
    (ht0 : prms.t0 = prms'.t0) (hoffset : prms.offset = prms'.offset)
    (hjob : prms.nthJob = prms'.nthJob) : jobRow stats prms = jobRow stats prms' := by
  simp only [jobRow, hperiod, hdeadline, ht0, hoffset, hjob]

/-- The parameters with which the `i`-th record from here on is reported. -/
def TaskStats.skip (prms : TaskStats h) (i : ℕ) : TaskStats h :=
  { prms with nthJob := prms.nthJob + .ofNat _ i }

/-- Each record is reported by a row, for consecutive jobs. -/
theorem rows_feedJobs (records : List (JobStatistics h)) {prms : TaskStats h}
    (hprint : prms.suppressPrintout = false) :
    (feedJobs printJobStats records prms).2.2.rows =
      prms.rows ++ records.mapIdx fun i stats => jobRow stats (prms.skip i) := by
  induction records generalizing prms with
  | nil => rw [feedJobs, List.mapIdx_nil, List.append_nil]
  | cons x xs ih =>
    -- After a row, the number is that of the next record.
    have hnext (i : ℕ) (stats : JobStatistics h) :
        jobRow stats ((printJobStats x prms).2.skip i) = jobRow stats (prms.skip (i + 1)) := by
      refine jobRow_congr stats rfl rfl rfl rfl ?_
      change prms.nthJob + 1 + BitVec.ofNat _ i = prms.nthJob + BitVec.ofNat _ (i + 1)
      rw [Nat.add_comm i, BitVec.ofNat_add, BitVec.add_assoc]
      rfl
    have hfirst : prms.skip 0 = prms := by
      rw [TaskStats.skip, BitVec.add_zero]
    have haccept : ¬(printJobStats x prms).1 ≠ 0 := not_not.2 rfl
    have hstate : (feedJobs printJobStats (x :: xs) prms).2.2 =
        (feedJobs printJobStats xs (printJobStats x prms).2).2.2 := by
      rw [feedJobs, if_neg haccept]
    have hprint' : (printJobStats x prms).2.suppressPrintout = false := hprint
    rw [hstate, ih hprint', rows_printJobStats x hprint, List.mapIdx_cons, hfirst,
      List.append_assoc, List.singleton_append]
    simp only [hnext]

end RealtimeTests
