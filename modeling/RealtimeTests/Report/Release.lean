import RealtimeTests.Report.Row
import RealtimeTests.Task.Periodic
import RealtimeTests.Task.RoundTrip

/-!
# The release times in a report

The report on the log of a periodic task labels each record with the number of its
job and with a release time. The thread computed the latter by adding up periods;
the report multiplies, after a number which it derives from the position of the
oldest record. They agree (`report_release`), as long as the seconds of the offset
and of the period are held by the 32 bits that the header of a log has for them.
-/

namespace RealtimeTests

open Lts InFile JobstatsRingbuf

variable {h : Host}

/-- The records retained are those of consecutive jobs, from the oldest position on. -/
theorem JobstatsRingbuf.Logs.getElem?_savedRecords {log : JobstatsRingbuf h} {N : ULong h}
    {disableOverrun : ℤ} {xs : List (JobStatistics h)} (hl : log.Logs N disableOverrun xs)
    (hn : xs.length < 2 ^ h.longBits) {i : ℕ}
    (hi : i < (savedRecords N disableOverrun xs).length) :
    ∃ p, log.preamble.oldestJobPos.toNat + i = p + 1 ∧
      xs[p]? = (savedRecords N disableOverrun xs)[i]? := by
  have hold : log.preamble.oldestJobPos.toNat = _ := hl.toNat_oldestPos hn
  rw [savedRecords_of_lt hn] at hi ⊢
  rw [length_retained] at hi
  have hne : xs ≠ [] := by
    rintro rfl
    simp at hi
  rw [if_neg hne] at hold
  rw [retained_eq_take_drop, List.getElem?_take_of_lt hi, List.getElem?_drop]
  refine ⟨_, ?_, rfl⟩
  rw [hold]
  split_ifs <;> omega

/-! ## The report on a log -/

/-- The parameters of a report on a log, before the first record. -/
def TaskCreateArgs.reported (args : TaskCreateArgs h) (preamble : TaskStatisticsRingbuf h) :
    TaskStats h :=
  (printTaskStats (args.taskStats.toTaskInfo h args.name preamble) (.init h false)).2

/-- What a row tells of the `p`-th job of a run, counted from zero: the number of the job, the
    start and finish times of its statistics, from the time `t0` on, and its release time. -/
structure JobRow.Tells (row : JobRow h) (args : TaskCreateArgs h) (ls : List (Label h))
    (t0 : UtilityTime h) (stats : JobStatistics h) (p : ℕ) : Prop where
  completed : (completed ls)[p]? = some stats
  job : row.job.toNat = p + 1
  start : row.start = utilityTimeSub stats.tBegin t0
  finish : row.finish = utilityTimeSub stats.tEnd t0
  release : ∃ t, (sleeps ls)[p]? = some t ∧ row.release.Normalised ∧
    row.release.value = t.value - args.t0.value

/-- The release times that are computed for `n` jobs fit `time_t`: those of the thread, and
    those of the report, which start at zero. -/
def ReleasesFit (args : TaskCreateArgs h) (n : ℕ) : Prop :=
  ∀ k ≤ n, FitsTimeT h (releaseValue args k) ∧ FitsTimeT h (k * args.period.value) ∧
    FitsTimeT h (args.offset.value + k * args.period.value)

section Log

variable (args : TaskCreateArgs h) (preamble : TaskStatisticsRingbuf h)

/-- The number that the `i`-th row is labelled with. -/
theorem toNat_nthJob_skip {preamble : TaskStatisticsRingbuf h} {i p : ℕ}
    (hp : p + 1 < 2 ^ h.longBits) (hpos : preamble.oldestJobPos.toNat + i = p + 1) :
    ((args.reported preamble).skip i).nthJob.toNat = p + 1 := by
  -- The number has been incremented by each of the rows before.
  change (preamble.oldestJobPos + BitVec.ofNat _ i).toNat = p + 1
  rw [BitVec.toNat_add, BitVec.toNat_ofNat, Nat.add_mod_mod, hpos, Nat.mod_eq_of_lt hp]

variable {args}

/-- The parameters that a row is computed with are those of the task. -/
theorem offset_skip_reported (hoffset : args.offset.Narrow) (i : ℕ) :
    ((args.reported preamble).skip i).offset = args.offset :=
  hoffset.toTimespec_ofTimespec

theorem period_skip_reported (hperiod : args.period.Narrow) (i : ℕ) :
    ((args.reported preamble).skip i).period = args.period :=
  hperiod.toTimespec_ofTimespec

/-- The rows of the report on a log. -/
theorem readTaskStatsFile_log (hN : args.ringbufferSize ≠ 0) (hname : args.Named)
    (records : List (JobStatistics h)) (uninit : Bytes) :
    ∃ fuel r, readTaskStatsFile uninit true fuel (opened (args.log preamble records) false) false =
        some r ∧
      r.exitCode = 0 ∧ r.task = some (args.taskStats.toTaskInfo h args.name preamble) ∧
      r.jobs = records ∧
      r.state.rows = records.mapIdx fun i stats =>
        jobRow stats ((args.reported preamble).skip i) := by
  obtain ⟨fuel, hread⟩ := @taskStatisticsRead_log h args preamble records hname hN _ _
    (accepting_reportCallbacks h) uninit (.init h false)
  exact ⟨fuel, _, hread, rfl, rfl, rfl, rows_feedJobs records rfl⟩

end Log

instance (args : TaskCreateArgs h) (n : ℕ) : Decidable (ReleasesFit args n) :=
  inferInstanceAs (Decidable (∀ k ≤ n, _))

section Run

variable {args : TaskCreateArgs h} {env : TaskCreateEnv} {cancellable : CancellationPoints}
  {ls : List (Label h)} {s : State h}
  (hap : args.aperiodicRelease = false) (ht0 : args.t0.Normalised)
  (hoffset : args.offset.Narrow) (hperiod : args.period.Narrow)
  (hr : (taskSystem args env cancellable).Run ls s) (hn : jobsBegun ls < 2 ^ 32)
  (hfits : ReleasesFit args (jobsBegun ls))
include hap ht0 hoffset hperiod hr hn hfits

/-- A row that is labelled with the number of a job tells of it. -/
theorem Run.tells {preamble : TaskStatisticsRingbuf h} {stats : JobStatistics h} {i p : ℕ}
    (hp : p < jobsBegun ls) (hpos : preamble.oldestJobPos.toNat + i = p + 1)
    (hstats : (completed ls)[p]? = some stats) :
    (jobRow stats ((args.reported preamble).skip i)).Tells args ls
      (args.taskStats.toTaskInfo h args.name preamble).t0 stats p := by
  have hlong := h.two_pow_32_le_longBits
  have hjob := toNat_nthJob_skip args (by omega) hpos
  obtain ⟨hfit, hmul, hadd⟩ := hfits p hp.le
  obtain ⟨k, hreleased⟩ := Run.released hap ht0 hoffset.1 hperiod.1 hr fun k hk => (hfits k hk).1
  have hps : p < (sleeps ls).length := by
    rw [hreleased.length_sleeps]
    omega
  have hoffset' := offset_skip_reported preamble hoffset i
  have hperiod' := period_skip_reported preamble hperiod i
  obtain ⟨hnorm, hvalue⟩ := jobRow_release stats (by omega) hjob
    (hoffset' ▸ hoffset.1) (hperiod' ▸ hperiod.1)
    (fun k hk => hperiod' ▸ (hfits k (hk.trans hp.le)).2.1) (hoffset' ▸ hperiod' ▸ hadd)
  refine ⟨hstats, hjob, rfl, rfl, _, List.getElem?_eq_getElem hps, hnorm, ?_⟩
  rw [hvalue, hoffset', hperiod', (hreleased.slept p hps).2, releaseValue]
  ring

end Run

/-- The report on the log of a periodic task is labelled with the true job numbers and release
    times:

    * the time slept to before the `k`-th job, counted from zero, is normalised and is `t_0`, plus
      the offset and `k` periods;
    * the `i`-th record read from a log which was written without a failure is reported by the
      `i`-th row, which tells of the job that produced it.

    The header of a log must hold the seconds of the offset and of the period, and its name must
    be one that a buffer can be made for. -/
theorem report_release {args : TaskCreateArgs h} {env : TaskCreateEnv}
    {cancellable : CancellationPoints} {ls : List (Label h)} {s : State h}
    (hN : args.ringbufferSize ≠ 0) (hap : args.aperiodicRelease = false) (ht0 : args.t0.Normalised)
    (hoffset : args.offset.Normalised) (hperiod : args.period.Normalised)
    (hr : (taskSystem args env cancellable).Run ls s) (hn : jobsBegun ls < 2 ^ 32)
    (hfits : ReleasesFit args (jobsBegun ls)) :
    (∀ (k : ℕ) (t : Timespec h), (sleeps ls)[k]? = some t → t.Normalised ∧
      t.value = args.t0.value + args.offset.value + k * args.period.value) ∧
    (args.Named → args.offset.Narrow → args.period.Narrow →
      ∀ content, s.disk = some content → s.tau.failToCloseStatsLog = 0 → ∀ uninit : Bytes,
      ∃ fuel r tau, readTaskStatsFile uninit true fuel (opened content false) false = some r ∧
        r.exitCode = 0 ∧ r.task = some tau ∧
        r.jobs = savedRecords args.ringbufferSize args.ringbufferDisableOverrun (completed ls) ∧
        r.state.rows.length = r.jobs.length ∧
        ∀ (i : ℕ) (row : JobRow h), r.state.rows[i]? = some row →
          ∃ stats p, r.jobs[i]? = some stats ∧ row.Tells args ls tau.t0 stats p) := by
  refine ⟨fun k t ht => ?_, fun hname hoffset' hperiod' content hdisk hfail uninit => ?_⟩
  · obtain ⟨n, hreleased⟩ := Run.released hap ht0 hoffset hperiod hr fun k hk => (hfits k hk).1
    obtain ⟨hk, rfl⟩ := List.getElem?_eq_some_iff.1 ht
    exact hreleased.slept k hk
  obtain ⟨device, log, xs, -, hrec, -, hxs, rfl, hw⟩ := Run.disk hN hr
    (Run.handlersComplete_of_periodic hap hr) hdisk
  obtain rfl := hxs (Run.cancelProgram_notMem hap hr)
  have hlogs := hrec.logs
  have hjobs := hrec.jobsBegun
  rw [List.append_nil] at hlogs hjobs hw ⊢
  have hlong := h.two_pow_32_le_longBits
  rw [content_written_of_true (hw hfail)]
  obtain ⟨fuel, r, hread, hexit, htask, hrecords, hrows⟩ := readTaskStatsFile_log log.preamble
    hN hname (savedRecords args.ringbufferSize args.ringbufferDisableOverrun (completed ls)) uninit
  refine ⟨fuel, r, _, hread, hexit, htask, hrecords, ?_, fun i row hrow => ?_⟩
  · rw [hrows, hrecords, List.length_mapIdx]
  rw [hrows, List.getElem?_mapIdx, Option.map_eq_some_iff] at hrow
  obtain ⟨stats, hstats, rfl⟩ := hrow
  obtain ⟨hi, -⟩ := List.getElem?_eq_some_iff.1 hstats
  obtain ⟨p, hpos, hp⟩ := hlogs.getElem?_savedRecords (by omega) hi
  rw [hstats] at hp
  obtain ⟨hpc, -⟩ := List.getElem?_eq_some_iff.1 hp
  exact ⟨stats, p, hrecords ▸ hstats,
    Run.tells hap ht0 hoffset' hperiod' hr hn hfits (by omega) hpos hp⟩

/-- With one slot, the row in the report is about one of the two jobs. -/
theorem report_release_two_jobs :
    ∃ s content fuel, ∃ r : ReadResult .lp64 (TaskStats .lp64),
      (taskSystem (TaskCreateArgs.everySecond 1) (.succeeding fun _ => true) .none).Run twoJobs s ∧
      s.disk = some content ∧
      readTaskStatsFile [] true fuel (opened content false) false = some r ∧
      ∃ row t0 stats p, r.state.rows[0]? = some row ∧
        row.Tells (TaskCreateArgs.everySecond 1) twoJobs t0 stats p := by
  have hr : (taskSystem (TaskCreateArgs.everySecond 1) (.succeeding fun _ => true) .none).Run
      twoJobs _ :=
    run_of_exec (newTask_mem_init .none rfl) rfl
  obtain ⟨-, hreport⟩ := report_release (by decide) rfl (by decide) (by decide) (by decide) hr
    (by decide) (by decide)
  obtain ⟨fuel, r, tau, hread, -, -, hrecords, hlen, hrows⟩ := hreport ⟨by decide, by decide⟩
    (by decide) (by decide) _ rfl rfl []
  have hone : 0 < r.state.rows.length := by
    rw [hlen, hrecords]
    decide
  obtain ⟨stats, p, -, htells⟩ := hrows 0 _ (List.getElem?_eq_getElem hone)
  exact ⟨_, _, fuel, r, hr, rfl, hread, _, _, stats, p, List.getElem?_eq_getElem hone, htells⟩

/-- A task whose offset has more seconds than the header of a log holds. -/
def TaskCreateArgs.farOffset : TaskCreateArgs .lp64 :=
  { everySecond 1 with offset := ⟨4294967296, 0⟩ }

/-- The only job of such a task. -/
def farJob : List (Label .lp64) :=
  [.sleep ⟨4294967303, 0⟩ 0, .jobBegin (some ⟨4294967303, 0⟩), .stop, .programEnd,
    .jobEnd (some ⟨4294967303, 5⟩) (some ⟨⟨4294967303, 0⟩, ⟨4294967303, 5⟩⟩), .nextRelease, .test,
    .flush 1, .close true]

/-- The job, which the thread slept to after the offset, is reported to have been released at
    zero. -/
theorem report_release_offset_lost :
    TaskCreateArgs.farOffset.t0.Normalised ∧ TaskCreateArgs.farOffset.offset.Normalised ∧
    TaskCreateArgs.farOffset.period.Normalised ∧ ReleasesFit TaskCreateArgs.farOffset 1 ∧
    ∃ s content fuel, ∃ r : ReadResult .lp64 (TaskStats .lp64),
      (taskSystem TaskCreateArgs.farOffset (.succeeding fun _ => true) .none).Run farJob s ∧
      s.disk = some content ∧ s.tau.failToCloseStatsLog = 0 ∧
      readTaskStatsFile [] true fuel (opened content false) false = some r ∧ r.exitCode = 0 ∧
      r.state.rows.map (fun row => (row.job, row.release)) = [(1, ⟨0, 0⟩)] ∧
      (sleeps farJob).map Timespec.value =
        [TaskCreateArgs.farOffset.t0.value + 2 ^ 32 * billion] := by
  have hr : (taskSystem TaskCreateArgs.farOffset (.succeeding fun _ => true) .none).Run farJob _ :=
    run_of_exec (newTask_mem_init .none rfl) rfl
  obtain ⟨fuel, r, hread, hexit, -, -, hrows⟩ := @readTaskStatsFile_log .lp64 .farOffset ⟨1, 0, 1⟩
    (by decide) ⟨by decide, by decide⟩ [⟨⟨4294967303, 0⟩, ⟨4294967303, 5⟩⟩] []
  refine ⟨by decide, by decide, by decide, by decide, _, _, fuel, r, hr, rfl, rfl, hread, hexit, ?_,
    by decide⟩
  rw [hrows]
  decide

end RealtimeTests
