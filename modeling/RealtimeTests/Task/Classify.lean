import RealtimeTests.Task.Log

/-!
# The exit code of `task_statistics_read`

What `task.h` documents about the return value of `task_statistics_read`, as the
first of the events that it tells apart, in the order of the stream
(`documentedVerdict`), against what the code returns on a stream that can be read
without errors.

They agree, but for the logs of tasks without job statistics, where the exit
code is left at its initial value once the task is accepted
(`DisabledLogAccepted`), and for names which are as long as their length can tell
(`NameOverflow`).
-/

namespace RealtimeTests

variable {h : Host} {σ : Type*}

/-- What reading a log can come to. -/
inductive Verdict
  | success
  | taskRejected
  | jobRejected
  | ioError
  | endOfFile
  deriving DecidableEq, Repr

/-- The return values documented for `task_statistics_read`. -/
def Verdict.exitCode : Verdict → ℤ
  | success => 0
  | taskRejected => -1
  | jobRejected => -2
  | ioError => -3
  | endOfFile => -4

/-- The task is rejected by `task_statistics_fn`. -/
def TaskRejected (cb : Callbacks h σ) (bs : Bytes) (st : σ) : Prop :=
  (cb.taskStatisticsFn (logTask h bs) st).1 ≠ 0

/-- Some record is rejected by `job_statistics_fn`. -/
def JobRejected (cb : Callbacks h σ) (bs : Bytes) (st : σ) : Prop :=
  (feedJobs cb.jobStatisticsFn (JobStatistics.records h (logRecords h bs))
    (cb.taskStatisticsFn (logTask h bs) st).2).1 = false

/-- The last record is truncated. -/
def RecordTruncated (h : Host) (bs : Bytes) : Prop :=
  (logRecords h bs).length % JobStatistics.sizeof h ≠ 0

instance (cb : Callbacks h σ) (bs : Bytes) (st : σ) : Decidable (TaskRejected cb bs st) :=
  inferInstanceAs (Decidable (_ ≠ _))

instance (cb : Callbacks h σ) (bs : Bytes) (st : σ) : Decidable (JobRejected cb bs st) :=
  inferInstanceAs (Decidable (_ = _))

instance (bs : Bytes) : Decidable (RecordTruncated h bs) := inferInstanceAs (Decidable (_ ≠ _))

/-- The documented verdict on a log: the first of the following events decides. -/
def documentedVerdict (cb : Callbacks h σ) (bs : Bytes) (st : σ) : Verdict :=
  if bs = [] then .endOfFile
  else if ¬LogComplete h bs then .ioError
  else if TaskRejected cb bs st then .taskRejected
  else if LogDisabled h bs then .success
  else if JobRejected cb bs st then .jobRejected
  else if RecordTruncated h bs then .ioError
  else .success

/-- A read of the stream terminates with the exit code that is documented. No callback is called
    on an empty stream, nor `job_statistics_fn` for a log without job statistics; the state is that
    of the calls which are made. -/
def ReadsAsDocumented (cb : Callbacks h σ) (uninit : Bytes) (statsLog : InFile) (st : σ) : Prop :=
  ∃ fuel r, taskStatisticsRead cb uninit true fuel statsLog st = some r ∧
    r.exitCode = (documentedVerdict cb statsLog.rest st).exitCode ∧
    (statsLog.rest = [] → r.task = none ∧ r.jobs = []) ∧
    (LogComplete h statsLog.rest → LogDisabled h statsLog.rest → r.jobs = []) ∧
    r.state = cb.called r.task r.jobs st

/-- A complete log of a task without job statistics, where the task is accepted. -/
def DisabledLogAccepted (cb : Callbacks h σ) (bs : Bytes) (st : σ) : Prop :=
  LogComplete h bs ∧ LogDisabled h bs ∧ ¬TaskRejected cb bs st

/-! ## What the code returns -/

open InFile

variable {cb : Callbacks h σ} {uninit bs : Bytes} {fuel : ℕ} {st : σ}

/-- A complete log is not empty. -/
theorem LogComplete.ne_nil (hc : LogComplete h bs) : bs ≠ [] := by
  rintro rfl
  exact absurd hc.1 (by decide)

/-- The task is rejected. -/
theorem readCallbacks_of_taskRejected {statsLog : InFile} (hr : TaskRejected cb bs st) :
    readCallbacks cb uninit fuel (logTask h bs) statsLog st =
      some ⟨-1, some (logTask h bs), [], (cb.taskStatisticsFn (logTask h bs) st).2⟩ := by
  rw [readCallbacks]
  exact if_pos hr

/-- The task is accepted, and has no job statistics. -/
theorem readCallbacks_of_disabled {statsLog : InFile} (hr : ¬TaskRejected cb bs st)
    (hd : LogDisabled h bs) :
    readCallbacks cb uninit fuel (logTask h bs) statsLog st =
      some ⟨-3, some (logTask h bs), [], (cb.taskStatisticsFn (logTask h bs) st).2⟩ := by
  have hflag : (logTask h bs).disableJobStatistics ≠ 0 := fun h0 =>
    (disableJobStatistics_logTask h bs).1 h0 hd
  rw [readCallbacks]
  exact (if_neg hr).trans (if_neg hflag)

/-- The task is accepted, and has job statistics. -/
theorem readCallbacks_of_enabled {statsLog : InFile} (hr : ¬TaskRejected cb bs st)
    (hd : ¬LogDisabled h bs) :
    readCallbacks cb uninit fuel (logTask h bs) statsLog st =
      (readJobs cb uninit fuel statsLog (JobStatistics.ofBytes h uninit)
        (cb.taskStatisticsFn (logTask h bs) st).2).map
          fun (exitCode, jobs, st) => ⟨exitCode, some (logTask h bs), jobs, st⟩ := by
  have hflag := (disableJobStatistics_logTask h bs).2 hd
  rw [readCallbacks]
  exact (if_neg hr).trans (if_pos hflag)

/-- A stream without errors is at its end, or like newly open. -/
theorem InFile.eq_opened_or {f : InFile} (hfails : f.fails = false) (hferror : f.ferror = false) :
    f = opened f.rest false ∨ f.feof = true ∧ f.rest = [] := by
  obtain ⟨rest, fails, feof, ferror, hrest⟩ := f
  obtain rfl : fails = false := hfails
  obtain rfl : ferror = false := hferror
  cases feof with
  | false => exact .inl rfl
  | true => exact .inr ⟨rfl, hrest rfl⟩

/-- At the end of a log, the exit code is documented. -/
theorem readsAsDocumented_of_rest_nil {statsLog : InFile} (hrest : statsLog.rest = [])
    (hread : taskStatisticsRead cb uninit true 0 statsLog st = some ⟨-4, none, [], st⟩) :
    ReadsAsDocumented cb uninit statsLog st := by
  refine ⟨0, _, hread, ?_, fun _ => ⟨rfl, rfl⟩, fun _ _ => rfl, rfl⟩
  rw [documentedVerdict, if_pos hrest]
  rfl

/-- On an incomplete log, the exit code is documented. -/
theorem readsAsDocumented_of_not_complete (hne : bs ≠ []) (hc : ¬LogComplete h bs)
    (ho : ¬NameOverflow h bs) : ReadsAsDocumented cb uninit (opened bs false) st := by
  refine ⟨0, _, taskStatisticsRead_of_not_complete (.inl hne) hc ho, ?_,
    fun h0 => absurd h0 hne, fun _ _ => rfl, rfl⟩
  rw [rest_opened, documentedVerdict, if_neg hne, if_pos hc]
  rfl

/-- On a complete log of a task which is rejected, the exit code is documented. -/
theorem readsAsDocumented_of_taskRejected (hc : LogComplete h bs) (ho : ¬NameOverflow h bs)
    (hr : TaskRejected cb bs st) : ReadsAsDocumented cb uninit (opened bs false) st := by
  refine ⟨0, _, (taskStatisticsRead_of_complete hc ho).trans (readCallbacks_of_taskRejected hr), ?_,
    fun h0 => absurd h0 hc.ne_nil, fun _ _ => rfl, rfl⟩
  rw [rest_opened, documentedVerdict, if_neg hc.ne_nil, if_neg (not_not.2 hc), if_pos hr]
  rfl

/-- The exit code of the record loop is documented. -/
theorem jobsExitCode_eq :
    jobsExitCode (feedJobs cb.jobStatisticsFn (JobStatistics.records h (logRecords h bs))
        (cb.taskStatisticsFn (logTask h bs) st).2).1
        (decide (RecordTruncated h bs)) =
      (if JobRejected cb bs st then Verdict.jobRejected
        else if RecordTruncated h bs then .ioError else .success).exitCode := by
  rw [jobsExitCode]
  by_cases hj : JobRejected cb bs st
  · rw [if_pos hj, show _ = false from hj]
    rfl
  · rw [if_neg hj, Bool.eq_true_of_not_eq_false hj]
    by_cases ht : RecordTruncated h bs
    · rw [if_pos ht, if_pos (decide_eq_true ht)]
      rfl
    · rw [if_neg ht, if_neg fun hdec => ht (of_decide_eq_true hdec)]
      rfl

/-- On a log with records, the exit code is documented. -/
theorem readsAsDocumented_of_enabled (hc : LogComplete h bs) (ho : ¬NameOverflow h bs)
    (hr : ¬TaskRejected cb bs st) (hd : ¬LogDisabled h bs) :
    ReadsAsDocumented cb uninit (opened bs false) st := by
  have hfuel : (logRecords h bs).length <
      ((logRecords h bs).length + 1) * JobStatistics.sizeof h :=
    (Nat.lt_succ_self _).trans_le (Nat.le_mul_of_pos_right _ (JobStatistics.sizeof_pos h))
  have hread : taskStatisticsRead cb uninit true ((logRecords h bs).length + 1)
      (opened bs false) st = _ :=
    (taskStatisticsRead_of_complete hc ho).trans (readCallbacks_of_enabled hr hd)
  rw [readJobs_opened hfuel] at hread
  refine ⟨_, _, hread, ?_, fun h0 => absurd h0 hc.ne_nil, fun _ hd' => absurd hd' hd,
    state_taskStatisticsRead hread⟩
  rw [rest_opened, documentedVerdict, if_neg hc.ne_nil, if_neg (not_not.2 hc), if_neg hr,
    if_neg hd]
  exact jobsExitCode_eq

/-- On the log of a task without job statistics, it is not, once the task is accepted. -/
theorem not_readsAsDocumented_of_disabledLogAccepted (hacc : DisabledLogAccepted cb bs st) :
    ¬ReadsAsDocumented cb uninit (opened bs false) st := by
  rintro ⟨fuel, r, hread, hcode, -⟩
  obtain ⟨hc, hd, hr⟩ := hacc
  rw [rest_opened, documentedVerdict, if_neg hc.ne_nil, if_neg (not_not.2 hc), if_neg hr,
    if_pos hd] at hcode
  by_cases ho : NameOverflow h bs
  · rw [taskStatisticsRead_of_nameOverflow ho] at hread
    cases hread
  · rw [taskStatisticsRead_of_complete hc ho, readCallbacks_of_disabled hr hd] at hread
    cases hread
    change (-3 : ℤ) = 0 at hcode
    omega

/-- Nor is it when the size of the buffer for the name overflows. -/
theorem not_readsAsDocumented_of_nameOverflow (ho : NameOverflow h bs) :
    ¬ReadsAsDocumented cb uninit (opened bs false) st := by
  rintro ⟨fuel, r, hread, -⟩
  rw [taskStatisticsRead_of_nameOverflow ho] at hread
  cases hread

/-- `task_statistics_read` classifies a stream without errors as documented exactly when it is not
    the log of a task without job statistics that is accepted, and the size of the buffer for the
    name does not overflow. -/
theorem readsAsDocumented_iff (cb : Callbacks h σ) (uninit : Bytes) (statsLog : InFile) (st : σ)
    (hfails : statsLog.fails = false) (hferror : statsLog.ferror = false) :
    ReadsAsDocumented cb uninit statsLog st ↔
      ¬(DisabledLogAccepted cb statsLog.rest st ∨ NameOverflow h statsLog.rest) := by
  -- A stream without errors is like newly open, or its end has been seen.
  rcases InFile.eq_opened_or hfails hferror with hopened | ⟨hfeof, hrest⟩
  · generalize statsLog.rest = bs at hopened
    subst hopened
    refine ⟨fun hdoc hor => ?_, fun hor => ?_⟩
    · rcases hor with hacc | ho
      · exact not_readsAsDocumented_of_disabledLogAccepted hacc hdoc
      · exact not_readsAsDocumented_of_nameOverflow ho hdoc
    · obtain ⟨hacc, ho⟩ := not_or.1 hor
      change ¬NameOverflow h bs at ho
      change ¬DisabledLogAccepted cb bs st at hacc
      by_cases hne : bs = []
      · subst hne
        exact readsAsDocumented_of_rest_nil rfl taskStatisticsRead_nil
      by_cases hc : LogComplete h bs
      · by_cases hr : TaskRejected cb bs st
        · exact readsAsDocumented_of_taskRejected hc ho hr
        · exact readsAsDocumented_of_enabled hc ho hr fun hd => hacc ⟨hc, hd, hr⟩
      · exact readsAsDocumented_of_not_complete hne hc ho
  · refine iff_of_true (readsAsDocumented_of_rest_nil hrest ?_) ?_
    · rw [taskStatisticsRead, hfeof, if_pos rfl]
    · rw [hrest, not_or]
      exact ⟨fun hacc => hacc.1.ne_nil rfl, fun ho => absurd ho.1 (by decide)⟩

/-- A log with a preamble and no record is read as documented. -/
theorem readsAsDocumented_no_record :
    ReadsAsDocumented (.acceptAll .lp64) []
      (opened ((TaskCreateArgs.everySecond 2).header ++
        TaskStatisticsRingbuf.toBytes (⟨0, 0, 0⟩ : TaskStatisticsRingbuf .lp64)) false) () :=
  (readsAsDocumented_iff _ _ _ _ rfl rfl).2
    (not_or.2 ⟨fun hacc => absurd hacc.2.1 (by decide), by decide⟩)

/-- The log of a task created without job statistics is not. -/
theorem disabledLog_not_readsAsDocumented :
    (taskCreate (TaskCreateArgs.everySecond 0) (.succeeding fun _ => true)).2.map
        (fun tau => (closeLoggingFile true tau).2) =
      some (some (TaskCreateArgs.everySecond 0).header) ∧
    ¬ReadsAsDocumented (.acceptAll .lp64) []
      (opened (TaskCreateArgs.everySecond 0).header false) () :=
  ⟨rfl, not_readsAsDocumented_of_disabledLogAccepted ⟨by decide, by decide, by decide⟩⟩

end RealtimeTests
