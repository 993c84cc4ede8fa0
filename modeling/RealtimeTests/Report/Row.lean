import RealtimeTests.Report

/-!
# The rows of a report

A row tells how a job did against its release time and its deadline. It is computed from
times relative to `t_0`, by a subtraction which stops at zero, and with the signs of the
differences decided on their own (`jobRow`). On a job which starts and finishes after
`t_0`, all of it is exact as long as the times that the report computes fit `time_t`
(`RowFits`), as they do for a task without negative times (`rowFits_of_nonneg`). Only the
response time given to the list of response times is reduced, to the 64 bits of its
nanoseconds.

What is counted does not depend on whether the rows are printed (`sameCounts_feedJobs`).
-/

namespace RealtimeTests

open JobstatsRingbuf

variable {h : Host} (stats : JobStatistics h) (prms : TaskStats h)

/-- The release time of the job that a row is for. -/
def TaskStats.releaseValue : ℤ :=
  prms.t0.value + prms.offset.value + (prms.nthJob.toNat - 1) * prms.period.value

/-- Its deadline. -/
def TaskStats.deadlineValue : ℤ := prms.releaseValue + prms.deadline.value

/-- The parameters of the task are normalised. -/
structure TaskStats.Normalised : Prop where
  t0 : prms.t0.Normalised
  offset : prms.offset.Normalised
  period : prms.period.Normalised
  deadline : prms.deadline.Normalised

/-- The statistics are normalised, and the job starts from `t_0` on and finishes after that. -/
structure JobStatistics.Ordered : Prop where
  tBegin : stats.tBegin.Normalised
  tEnd : stats.tEnd.Normalised
  begin_le : prms.t0.value ≤ stats.tBegin.value
  end_le : stats.tBegin.value ≤ stats.tEnd.value

/-- The times that are computed for a row fit `time_t`. -/
structure RowFits : Prop where
  period : ∀ k < prms.nthJob.toNat, FitsTimeT h (k * prms.period.value)
  release : FitsTimeT h (prms.releaseValue - prms.t0.value)
  deadline : FitsTimeT h (prms.deadlineValue - prms.t0.value)
  finish : FitsTimeT h (stats.tEnd.value - prms.t0.value)
  deltaS : FitsTimeT h |stats.tBegin.value - prms.releaseValue|
  deltaF : FitsTimeT h |stats.tEnd.value - prms.deadlineValue|
  response : FitsTimeT h (max 0 (stats.tEnd.value - prms.releaseValue))

variable {stats prms}

/-- The times of a row fit when those of the task are not negative, and its deadline fits. -/
theorem rowFits_of_nonneg (ho : stats.Ordered prms)
    (hjob : 1 ≤ prms.nthJob.toNat) (ht0 : 0 ≤ prms.t0.value) (hoffset : 0 ≤ prms.offset.value)
    (hperiod : 0 ≤ prms.period.value) (hdeadline : 0 ≤ prms.deadline.value)
    (hfit : FitsTimeT h prms.deadlineValue) : RowFits stats prms := by
  have hend := ho.tEnd.fitsTimeT
  have hle := ho.begin_le
  have hle' := ho.end_le
  have hk : (0 : ℤ) ≤ (prms.nthJob.toNat - 1) * prms.period.value :=
    mul_nonneg (by omega) hperiod
  have hrelease : prms.releaseValue =
    prms.t0.value + prms.offset.value + (prms.nthJob.toNat - 1) * prms.period.value := rfl
  have hdead : prms.deadlineValue = prms.releaseValue + prms.deadline.value := rfl
  -- Each one is between zero and the deadline or the finish time.
  have habs {a b : ℤ} (ha : 0 ≤ a) (hb : 0 ≤ b) (hfa : FitsTimeT h a) (hfb : FitsTimeT h b) :
      FitsTimeT h |a - b| := by
    rcases le_total b a with hba | hab
    · exact hfa.of_le (abs_nonneg _) (by rw [abs_of_nonneg (by omega)]; omega)
    · exact hfb.of_le (abs_nonneg _) (by rw [abs_of_nonpos (by omega)]; omega)
  refine ⟨fun k hk' => ?_, hfit.of_le (by omega) (by omega), hfit.of_le (by omega) (by omega),
    hend.of_le (by omega) (by omega),
    habs (by omega) (by omega) ho.tBegin.fitsTimeT (hfit.of_le (by omega) (by omega)),
    habs (by omega) (by omega) hend hfit, hend.of_le (le_max_left _ _) (by omega)⟩
  have hmul : (k : ℤ) * prms.period.value ≤ (prms.nthJob.toNat - 1) * prms.period.value :=
    mul_le_mul_of_nonneg_right (by omega) hperiod
  exact hfit.of_le (mul_nonneg (by omega) hperiod) (by omega)

namespace JobRow

variable (row : JobRow h)

/-- `delta_s` with its sign. -/
def signedDeltaS : ℤ := if row.lateStart then row.deltaS.value else -row.deltaS.value

/-- `delta_f` with its sign. -/
def signedDeltaF : ℤ := if row.late then row.deltaF.value else -row.deltaF.value

end JobRow

/-- The difference of two times, as printed with its sign. -/
theorem signed_sub {t1 t2 : UtilityTime h} (h1 : t1.Normalised) (h2 : t2.Normalised)
    (hfit : FitsTimeT h |t2.value - t1.value|) :
    (if utilityTimeLt t1 t2 then
        (if utilityTimeLt t1 t2 then utilityTimeSub t2 t1 else utilityTimeSub t1 t2).value
      else
        -(if utilityTimeLt t1 t2 then utilityTimeSub t2 t1 else utilityTimeSub t1 t2).value) =
      t2.value - t1.value := by
  have hlt := utilityTimeLt_iff h1 h2
  split_ifs with hlate
  · have hpos := hlt.1 hlate
    rw [abs_of_nonneg (by omega)] at hfit
    rw [(utilityTimeSub_spec h2 h1 (by rwa [max_eq_right (by omega)])).2, max_eq_right (by omega)]
  · have hneg : t2.value ≤ t1.value := not_lt.1 fun hpos => hlate (hlt.2 hpos)
    rw [abs_of_nonpos (by omega), neg_sub] at hfit
    rw [(utilityTimeSub_spec h1 h2 (by rwa [max_eq_right (by omega)])).2, max_eq_right (by omega),
      neg_sub]

/-- The row is exact: its times are those of the job, relative to `t_0`, and the differences have
    their signs. -/
structure JobRow.Exact (row : JobRow h) (stats : JobStatistics h) (prms : TaskStats h) : Prop where
  job : row.job = prms.nthJob
  release : row.release.value = prms.releaseValue - prms.t0.value
  deltaS : row.signedDeltaS = stats.tBegin.value - prms.releaseValue
  start : row.start.value = stats.tBegin.value - prms.t0.value
  deadline : row.deadline.value = prms.deadlineValue - prms.t0.value
  deltaF : row.signedDeltaF = stats.tEnd.value - prms.deadlineValue
  finish : row.finish.value = stats.tEnd.value - prms.t0.value
  execTime : row.execTime.value = stats.tEnd.value - stats.tBegin.value
  responseTime : row.responseTime.value = max 0 (stats.tEnd.value - prms.releaseValue)
  late : row.late = true ↔ prms.deadlineValue < stats.tEnd.value

/-- The nanoseconds of a response time, in 64 bits. -/
theorem JobRow.responseTimeNs_eq (row : JobRow h) :
    row.responseTimeNs = .ofInt 64 row.responseTime.value := by
  rw [responseTimeNs, Timespec.value, BitVec.ofInt_add, BitVec.ofInt_mul]
  rfl

/-- The label of a row, in the range of the report: the job number and the release time. -/
theorem jobRow_release (stats : JobStatistics h) {prms : TaskStats h} {p : ℕ} (hp : p < 2 ^ 32)
    (hjob : prms.nthJob.toNat = p + 1) (hoffset : prms.offset.Normalised)
    (hperiod : prms.period.Normalised)
    (hmul : ∀ k ≤ p, FitsTimeT h (k * prms.period.value))
    (hadd : FitsTimeT h (prms.offset.value + p * prms.period.value)) :
    (jobRow stats prms).release.Normalised ∧
      (jobRow stats prms).release.value = prms.offset.value + p * prms.period.value := by
  have hle : (1 : ULong h) ≤ prms.nthJob := by
    rw [BitVec.le_def, toNat_one, hjob]
    omega
  have hn : ((prms.nthJob - 1).setWidth 32).toNat = p := by
    rw [BitVec.toNat_setWidth, BitVec.toNat_sub_of_le hle, hjob, toNat_one, Nat.add_sub_cancel,
      Nat.mod_eq_of_lt hp]
  obtain ⟨hnorm, hvalue⟩ := utilityTimeMul_spec hperiod (by rwa [hn])
  rw [hn] at hvalue
  have := utilityTimeAdd_spec hoffset hnorm (hvalue.symm ▸ hadd)
  rwa [hvalue] at this

/-- The release time in a row, relative to `t_0`. -/
theorem jobRow_release_spec (hn : prms.Normalised) (hf : RowFits stats prms)
    (hjob : 1 ≤ prms.nthJob.toNat) (hjob32 : prms.nthJob.toNat - 1 < 2 ^ 32) :
    (jobRow stats prms).release.Normalised ∧
      (jobRow stats prms).release.value = prms.releaseValue - prms.t0.value := by
  have hvalue : prms.offset.value + (prms.nthJob.toNat - 1 : ℕ) * prms.period.value =
      prms.releaseValue - prms.t0.value := by
    rw [TaskStats.releaseValue, Nat.cast_sub hjob, Nat.cast_one]
    ring
  have := jobRow_release stats hjob32 (Nat.sub_add_cancel hjob).symm hn.offset hn.period
    (fun k hk => hf.period k (by omega)) (by rw [hvalue]; exact hf.release)
  rwa [hvalue] at this

/-- A row is exact when the times that are computed for it fit. -/
theorem exact_jobRow (hn : prms.Normalised) (ho : stats.Ordered prms) (hf : RowFits stats prms)
    (hjob : 1 ≤ prms.nthJob.toNat) (hjob32 : prms.nthJob.toNat - 1 < 2 ^ 32) :
    (jobRow stats prms).Exact stats prms := by
  have hle := ho.begin_le
  have hle' := ho.end_le
  obtain ⟨hrelease, hreleaseV⟩ := jobRow_release_spec hn hf hjob hjob32
  -- The times relative to `t_0`.
  obtain ⟨hstart, hstartV⟩ := utilityTimeSub_spec ho.tBegin hn.t0
    (hf.finish.of_le (le_max_left _ _) (by omega))
  rw [max_eq_right (by omega)] at hstartV
  obtain ⟨hfinish, hfinishV⟩ := utilityTimeSub_spec ho.tEnd hn.t0
    (hf.finish.of_le (le_max_left _ _) (by omega))
  rw [max_eq_right (by omega)] at hfinishV
  have hdead : (jobRow stats prms).release.value + prms.deadline.value =
      prms.deadlineValue - prms.t0.value := by
    rw [hreleaseV, TaskStats.deadlineValue]
    ring
  obtain ⟨hdeadline, hdeadlineV⟩ := utilityTimeAdd_spec hrelease hn.deadline
    (by rw [hdead]; exact hf.deadline)
  rw [hdead] at hdeadlineV
  -- The differences do not depend on `t_0`.
  have hS : (utilityTimeSub stats.tBegin prms.t0).value - (jobRow stats prms).release.value =
      stats.tBegin.value - prms.releaseValue := by
    rw [hstartV, hreleaseV]
    ring
  have hF : (utilityTimeSub stats.tEnd prms.t0).value -
      (utilityTimeAdd (jobRow stats prms).release prms.deadline).value =
        stats.tEnd.value - prms.deadlineValue := by
    rw [hfinishV, hdeadlineV]
    ring
  have hR : (utilityTimeSub stats.tEnd prms.t0).value - (jobRow stats prms).release.value =
      stats.tEnd.value - prms.releaseValue := by
    rw [hfinishV, hreleaseV]
    ring
  refine ⟨rfl, hreleaseV, ?_, hstartV, hdeadlineV, ?_, hfinishV, ?_, ?_, ?_⟩
  · exact (signed_sub hrelease hstart (by rw [hS]; exact hf.deltaS)).trans hS
  · exact (signed_sub hdeadline hfinish (by rw [hF]; exact hf.deltaF)).trans hF
  · have hexec := utilityTimeSub_spec hfinish hstart
      (hf.finish.of_le (le_max_left _ _) (by omega))
    rw [hfinishV, hstartV, max_eq_right (by omega)] at hexec
    exact hexec.2.trans (by ring)
  · have hresponse := utilityTimeSub_spec hfinish hrelease (by rw [hR]; exact hf.response)
    rw [hR] at hresponse
    exact hresponse.2
  · refine (utilityTimeLt_iff hdeadline hfinish).trans ?_
    rw [hfinishV, hdeadlineV]
    omega

/-! ## What is counted -/

/-- Two runs of the callbacks have counted the same. -/
structure SameCounts (prms prms' : TaskStats h) : Prop where
  period : prms.period = prms'.period
  deadline : prms.deadline = prms'.deadline
  t0 : prms.t0 = prms'.t0
  offset : prms.offset = prms'.offset
  nthJob : prms.nthJob = prms'.nthJob
  totalJobCount : prms.totalJobCount = prms'.totalJobCount
  lateCount : prms.lateCount = prms'.lateCount
  responseTimes : prms.responseTimes = prms'.responseTimes

theorem sameCounts_printJobStats {prms prms' : TaskStats h} (hs : SameCounts prms prms')
    (stats : JobStatistics h) :
    SameCounts (printJobStats stats prms).2 (printJobStats stats prms').2 := by
  have hrow := jobRow_congr stats hs.period hs.deadline hs.t0 hs.offset hs.nthJob
  constructor <;> simp only [printJobStats, hrow, hs.period, hs.deadline, hs.t0, hs.offset,
    hs.nthJob, hs.totalJobCount, hs.lateCount, hs.responseTimes]

/-- What is counted over records does not depend on what is printed. -/
theorem sameCounts_feedJobs {prms prms' : TaskStats h} (hs : SameCounts prms prms')
    (records : List (JobStatistics h)) :
    SameCounts (feedJobs printJobStats records prms).2.2
      (feedJobs printJobStats records prms').2.2 := by
  induction records generalizing prms prms' with
  | nil => exact hs
  | cons stats records ih =>
    have haccept (prms : TaskStats h) : ¬(printJobStats stats prms).1 ≠ 0 := not_not.2 rfl
    rw [feedJobs, feedJobs, if_neg (haccept prms), if_neg (haccept prms')]
    exact ih (sameCounts_printJobStats hs stats)

/-- The report on a job is exact: its row, the number of late jobs, and the response time given to
    the list of response times, as an `unsigned long long` of nanoseconds. What is counted over
    records is the same whether or not the rows are printed. -/
theorem printJobStats_exact (hn : prms.Normalised) (ho : stats.Ordered prms)
    (hf : RowFits stats prms) (hjob : 1 ≤ prms.nthJob.toNat)
    (hjob32 : prms.nthJob.toNat - 1 < 2 ^ 32) :
    (jobRow stats prms).Exact stats prms ∧
    (prms.suppressPrintout = false →
      (printJobStats stats prms).2.rows = prms.rows ++ [jobRow stats prms]) ∧
    (printJobStats stats prms).2.lateCount =
      prms.lateCount + (if prms.deadlineValue < stats.tEnd.value then 1 else 0) ∧
    (printJobStats stats prms).2.responseTimes =
      insertResponseTime (.ofInt 64 (max 0 (stats.tEnd.value - prms.releaseValue)))
        prms.responseTimes ∧
    ∀ (records : List (JobStatistics h)) (suppress suppress' : Bool),
      SameCounts (feedJobs printJobStats records { prms with suppressPrintout := suppress }).2.2
        (feedJobs printJobStats records { prms with suppressPrintout := suppress' }).2.2 := by
  have hrow := exact_jobRow hn ho hf hjob hjob32
  refine ⟨hrow, rows_printJobStats stats, ?_, ?_, fun records suppress suppress' =>
    sameCounts_feedJobs (by constructor <;> rfl) records⟩
  · have hlate := hrow.late
    simp only [printJobStats]
    split_ifs with h1 h2 h2
    · rfl
    · exact absurd (hlate.1 h1) h2
    · exact absurd (hlate.2 h2) h1
    · exact (BitVec.add_zero _).symm
  · rw [← hrow.responseTime, ← JobRow.responseTimeNs_eq]
    rfl

/-- The parameters at the third job of a task, with rows printed. It is released two periods of a
    second after an offset of two and a half seconds from `t_0`. -/
def TaskStats.atThirdJob : TaskStats .lp64 :=
  { init .lp64 false with
    t0 := ⟨10, 700000000⟩
    offset := ⟨2, 500000000⟩
    period := ⟨1, 0⟩
    deadline := ⟨0, 400000000⟩
    nthJob := 3 }

/-- A job which starts a tenth of a second after this, and takes four. -/
def JobStatistics.startedLate : JobStatistics .lp64 := ⟨⟨15, 300000000⟩, ⟨15, 700000000⟩⟩

/-- The job is late, by a tenth of a second. -/
theorem printJobStats_exact_late :
    (jobRow .startedLate TaskStats.atThirdJob).Exact .startedLate .atThirdJob ∧
    (printJobStats .startedLate TaskStats.atThirdJob).2.rows =
      [jobRow .startedLate TaskStats.atThirdJob] ∧
    (printJobStats .startedLate TaskStats.atThirdJob).2.lateCount = 1 ∧
    (printJobStats .startedLate TaskStats.atThirdJob).2.responseTimes =
      [⟨1, 500000⟩] := by
  have hn : TaskStats.atThirdJob.Normalised := by constructor <;> decide
  have ho : JobStatistics.startedLate.Ordered .atThirdJob := by constructor <;> decide
  have hf : RowFits JobStatistics.startedLate .atThirdJob :=
    rowFits_of_nonneg ho (by decide) (by decide) (by decide) (by decide) (by decide) (by decide)
  obtain ⟨hrow, hrows, hlate, htimes, -⟩ := printJobStats_exact hn ho hf (by decide) (by decide)
  exact ⟨hrow, hrows rfl, hlate, htimes⟩

/-- The parameters at the first job of a task without a period nor a deadline. -/
def TaskStats.atFirstJob : TaskStats .lp64 := { init .lp64 true with nthJob := 1 }

/-- A job which starts at once, and finishes after the given seconds. -/
def JobStatistics.lasting (tvSec : BitVec 64) : JobStatistics .lp64 := ⟨⟨0, 0⟩, ⟨tvSec, 0⟩⟩

theorem TaskStats.normalised_atFirstJob : atFirstJob.Normalised := by
  constructor <;> decide

/-- The times of such a job fit. -/
theorem rowFits_lasting {tvSec : BitVec 64} (hpos : 0 ≤ tvSec.toInt) :
    (JobStatistics.lasting tvSec).Ordered .atFirstJob ∧
      RowFits (JobStatistics.lasting tvSec) .atFirstJob := by
  have hzero : (JobStatistics.lasting tvSec).tBegin.value = 0 := utilityTimeZeroT_value
  have hend : (JobStatistics.lasting tvSec).tEnd.Normalised :=
    (utilityTimeZeroT_normalised : (utilityTimeZeroT : UtilityTime .lp64).Normalised)
  have ho : (JobStatistics.lasting tvSec).Ordered .atFirstJob := by
    refine ⟨utilityTimeZeroT_normalised, hend, le_rfl, ?_⟩
    rw [hzero]
    exact hend.value_nonneg hpos
  have h0 : (0 : ℤ) ≤ (utilityTimeZeroT : UtilityTime .lp64).value := utilityTimeZeroT_value.ge
  exact ⟨ho, rowFits_of_nonneg ho le_rfl h0 h0 h0 h0 (by decide)⟩

/-- The response time of a job of `2 ^ 35` seconds is reduced. -/
theorem responseTimeNs_reduced :
    TaskStats.atFirstJob.Normalised ∧ (JobStatistics.lasting 0x800000000).Ordered .atFirstJob ∧
    RowFits (.lasting 0x800000000) .atFirstJob ∧
    ((jobRow (.lasting 0x800000000) .atFirstJob).responseTimeNs.toNat : ℤ) ≠
      max 0 ((JobStatistics.lasting 0x800000000).tEnd.value - TaskStats.atFirstJob.releaseValue) :=
  ⟨TaskStats.normalised_atFirstJob, (rowFits_lasting (by decide)).1,
    (rowFits_lasting (by decide)).2, by decide⟩

end RealtimeTests
