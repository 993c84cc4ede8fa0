import RealtimeTests.Task.Log

/-!
# Reading a log from a failing device

A device delivers some bytes of a log, and then fails, for ever. A failure before
the first record is reported by `task_statistics_read`. At a record, it is not
reported by `job_statistics_read`, which returns success with what is in its
buffer: with callbacks that accept everything, the record loop goes on for ever,
on records that were never read.
-/

namespace RealtimeTests

open InFile JobStatistics

variable {h : Host} {σ : Type*}

/-- The delivered bytes reach up to the records, of a log that has some. -/
def RecordsReached (h : Host) (bs : Bytes) : Prop := LogComplete h bs ∧ ¬LogDisabled h bs

instance (bs : Bytes) : Decidable (RecordsReached h bs) := inferInstanceAs (Decidable (_ ∧ _))

/-- The whole records among the delivered bytes. -/
def deliveredRecords (h : Host) (bs : Bytes) : List (JobStatistics h) :=
  if RecordsReached h bs then records h (logRecords h bs) else []

/-- The stream at the record at which the device fails. -/
def failingRecord (h : Host) (bs : Bytes) : InFile :=
  opened ((logRecords h bs).drop ((deliveredRecords h bs).length * sizeof h)) true

/-- The read of a log of which the device delivers the bytes `bs` before it fails terminates,
    with `-3`. `job_statistics_fn` is called for each of the whole records delivered, the state is
    that of the calls which are made, and at the record at which the device fails,
    `job_statistics_read` returns `-2` and leaves its output as it is. -/
def SurvivesFailure (cb : Callbacks h σ) (uninit bs : Bytes) (st : σ) : Prop :=
  ∃ fuel r, taskStatisticsRead cb uninit true fuel (opened bs true) st = some r ∧
    r.exitCode = -3 ∧ r.jobs = deliveredRecords h bs ∧ r.state = cb.called r.task r.jobs st ∧
    (RecordsReached h bs → ∀ stats : JobStatistics h, ∃ f,
      jobStatisticsRead uninit (failingRecord h bs) stats = (-2, stats, f))

variable {cb : Callbacks h σ} {uninit bs : Bytes} {st : σ}

/-- When the device fails at a record, the read does not terminate. -/
theorem taskStatisticsRead_of_recordsReached (ha : cb.Accepting) (hr : RecordsReached h bs)
    (fuel : ℕ) : taskStatisticsRead cb uninit true fuel (opened bs true) st = none := by
  by_cases ho : NameOverflow h bs
  · exact taskStatisticsRead_of_nameOverflow ho
  · have hflag := (disableJobStatistics_logTask h bs).2 hr.2
    rw [taskStatisticsRead_of_complete hr.1 ho, readCallbacks]
    simp only [ha.1, hflag, ne_eq, not_true_eq_false, if_false, if_true, readJobs_fails ha,
      Option.map_none]

/-- When the device fails after a log without job statistics, the read terminates with `-3`. -/
theorem taskStatisticsRead_of_disabled (ha : cb.Accepting) (hc : LogComplete h bs)
    (hd : LogDisabled h bs) (ho : ¬NameOverflow h bs) (fuel : ℕ) :
    taskStatisticsRead cb uninit true fuel (opened bs true) st =
      some ⟨-3, some (logTask h bs), [], (cb.taskStatisticsFn (logTask h bs) st).2⟩ := by
  have hflag : (logTask h bs).disableJobStatistics ≠ 0 := fun h0 =>
    (disableJobStatistics_logTask h bs).1 h0 hd
  rw [taskStatisticsRead_of_complete hc ho, readCallbacks]
  simp only [ha.1, hflag, ne_eq, not_true_eq_false, if_false]

/-- When the device fails at a record, the read does not survive it. -/
theorem not_survivesFailure_of_recordsReached (ha : cb.Accepting) (hr : RecordsReached h bs) :
    ¬SurvivesFailure cb uninit bs st := by
  rintro ⟨fuel, r, hread, -⟩
  rw [taskStatisticsRead_of_recordsReached ha hr] at hread
  cases hread

/-- Reading a log from a failing device survives exactly when the device fails before the records,
    and the size of the buffer for the name does not overflow. -/
theorem survivesFailure_iff (cb : Callbacks h σ) (ha : cb.Accepting) (uninit bs : Bytes) (st : σ) :
    SurvivesFailure cb uninit bs st ↔ ¬(RecordsReached h bs ∨ NameOverflow h bs) := by
  refine ⟨fun hsurvives hor => ?_, fun hor => ?_⟩
  · rcases hor with hr | ho
    · exact not_survivesFailure_of_recordsReached ha hr hsurvives
    · obtain ⟨fuel, r, hread, -⟩ := hsurvives
      rw [taskStatisticsRead_of_nameOverflow ho] at hread
      cases hread
  · obtain ⟨hr, ho⟩ := not_or.1 hor
    have hjobs : deliveredRecords h bs = [] := if_neg hr
    -- Past the header of a log without records, no record is read.
    by_cases hc : LogComplete h bs
    · have hd : LogDisabled h bs := not_not.1 fun hd => hr ⟨hc, hd⟩
      exact ⟨0, _, taskStatisticsRead_of_disabled ha hc hd ho 0, rfl, hjobs.symm, rfl,
        fun hr' => absurd hr' hr⟩
    · exact ⟨0, _, taskStatisticsRead_of_not_complete (.inr rfl) hc ho, rfl, hjobs.symm, rfl,
        fun hr' => absurd hr' hr⟩

/-- A failure in the middle of the name is reported. -/
theorem survivesFailure_in_header :
    SurvivesFailure (.acceptAll .lp64) [] ((TaskCreateArgs.everySecond 2).header.take 20) () :=
  (survivesFailure_iff _ (Callbacks.accepting_acceptAll _) _ _ _).2 (by decide)

/-- A failure in the middle of the first record is not. -/
theorem not_survivesFailure_in_record :
    ¬SurvivesFailure (.acceptAll .lp64) []
      ((TaskCreateArgs.everySecond 2).header ++
        TaskStatisticsRingbuf.toBytes (⟨1, 0, 1⟩ : TaskStatisticsRingbuf .lp64) ++
        (JobStatistics.toBytes (⟨⟨9, 0⟩, ⟨9, 5⟩⟩ : JobStatistics .lp64)).take 8) () :=
  not_survivesFailure_of_recordsReached (Callbacks.accepting_acceptAll _) (by decide)

end RealtimeTests
