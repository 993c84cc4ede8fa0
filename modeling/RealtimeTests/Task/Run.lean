import RealtimeTests.Task.Thread

/-!
# Runs of the thread

What holds after every run of the thread of a task and its stopper, of what the
labels of the run say has happened: how many jobs have begun, and with which
statistics jobs have completed.

* `Recorded`: the ring buffer has the statistics of the completed jobs, followed by
  those of the job in progress if there is one, or if there was one when the thread
  was cancelled;
* `Logging` and `Flushed`: so it is until the ring buffer is flushed, and what the log
  is afterwards;
* `Run.logged`: one of the two holds after every run in which no clean-up handler is cut short;
* `Run.begun`: what there is of the log when one may be.
-/

namespace RealtimeTests

open Lts

variable {h : Host}

/-! ## What has happened -/

namespace Label

/-- The step has nothing to do with the log, nor with the job. -/
def quiet : Label h → Bool
  | .jobBegin _ | .jobEnd _ _ | .cancelProgram | .flush _ | .cancelFlush _ _ | .close _
  | .cancelClose => false
  | _ => true

/-- A job begins. -/
def isJobBegin : Label h → Bool
  | .jobBegin _ => true
  | _ => false

/-- The ring buffer is flushed. -/
def isFlush : Label h → Bool
  | .flush _ => true
  | _ => false

/-- The statistics of the job that completes. -/
def completed : Label h → Option (JobStatistics h)
  | .jobEnd _ stats => stats
  | _ => none

/-- The time slept to. -/
def slept : Label h → Option (Timespec h)
  | .sleep t _ => some t
  | _ => none

end Label

/-- The number of jobs begun. -/
def jobsBegun (ls : List (Label h)) : ℕ := ls.countP Label.isJobBegin

/-- The number of flushes. -/
def flushes (ls : List (Label h)) : ℕ := ls.countP Label.isFlush

/-- The statistics of the jobs completed, in order. -/
def completed (ls : List (Label h)) : List (JobStatistics h) := ls.filterMap Label.completed

/-- The times slept to, in order. -/
def sleeps (ls : List (Label h)) : List (Timespec h) := ls.filterMap Label.slept

section Snoc

variable (ls : List (Label h)) (l : Label h)

@[simp]
theorem jobsBegun_nil : jobsBegun ([] : List (Label h)) = 0 := rfl

@[simp]
theorem completed_nil : completed ([] : List (Label h)) = [] := rfl

@[simp]
theorem sleeps_nil : sleeps ([] : List (Label h)) = [] := rfl

@[simp]
theorem flushes_nil : flushes ([] : List (Label h)) = 0 := rfl

@[simp]
theorem jobsBegun_concat :
    jobsBegun (ls ++ [l]) = jobsBegun ls + if l.isJobBegin then 1 else 0 := by
  simp [jobsBegun, List.countP_append, List.countP_singleton]

@[simp]
theorem flushes_concat : flushes (ls ++ [l]) = flushes ls + if l.isFlush then 1 else 0 := by
  simp [flushes, List.countP_append, List.countP_singleton]

@[simp]
theorem completed_concat : completed (ls ++ [l]) = completed ls ++ l.completed.toList := by
  cases hl : l.completed <;> simp [completed, List.filterMap_append, hl]

@[simp]
theorem sleeps_concat : sleeps (ls ++ [l]) = sleeps ls ++ l.slept.toList := by
  cases hl : l.slept <;> simp [sleeps, List.filterMap_append, hl]

end Snoc

/-! ## Invariants -/

/-- The places of the thread in its loop which are outside of its jobs. -/
def Pc.outside : List Pc := [.head, .waiting, .returning, .returned, .ready, .nextRelease, .test]

namespace State

/-- A job is in progress. -/
def inJob (s : State h) : Prop := s.pc = .program ∨ s.pc = .finishing

instance (s : State h) : Decidable s.inJob := inferInstanceAs (Decidable (_ ∨ _))

/-- The ring buffer has been flushed. -/
def flushed (s : State h) : Prop := s.pc = .close ∨ s.pc = .done

instance (s : State h) : Decidable s.flushed := inferInstanceAs (Decidable (_ ∨ _))

/-- What there is of the log. -/
def logView (s : State h) :
    TaskInfo h × Option (JobstatsRingbuf h) × Option OutFile × ℤ × Option Bytes × StatsPtr :=
  (s.tau.toTaskInfo, s.tau.statsRingbuf, s.tau.statsLog, s.tau.failToCloseStatsLog, s.disk,
    s.stats)

theorem not_inJob {s : State h} (hpc : s.pc ∈ .flush :: Pc.outside) : ¬s.inJob := by
  rintro (hjob | hjob) <;> rw [hjob] at hpc <;> exact absurd hpc (by decide)

end State

section Quiet

variable {cancellable : CancellationPoints} {s : State h} {l : Label h} (hq : l.quiet = true)
include hq

theorem isJobBegin_of_quiet : l.isJobBegin = false := by
  cases l <;> first | rfl | cases hq

theorem isFlush_of_quiet : l.isFlush = false := by
  cases l <;> first | rfl | cases hq

theorem completed_of_quiet : l.completed = none := by
  cases l <;> first | rfl | cases hq

theorem logView_step_of_quiet : (s.step l).logView = s.logView := by
  cases l <;> first | rfl | cases hq

variable (hg : Guard cancellable s l)
include hg

/-- Where the thread goes in a quiet step: the stopper leaves it where it is, its program ends, or
    it stays outside of its jobs, until it leaves its loop. -/
theorem pc_cases_of_quiet : (s.step l).pc = s.pc ∨
    s.pc = .program ∧ (s.step l).pc = .finishing ∨
    s.pc ∈ Pc.outside ∧ (s.step l).pc ∈ .flush :: Pc.outside := by
  have houtside (pc pc' : Pc) (hpc : s.pc = pc) (hpc' : (s.step l).pc = pc')
      (hmem : pc ∈ Pc.outside ∧ pc' ∈ .flush :: Pc.outside) :
      s.pc ∈ Pc.outside ∧ (s.step l).pc ∈ .flush :: Pc.outside := by
    rw [hpc, hpc']
    exact hmem
  cases l with
  | stop | checkInside | wake ret | cancel => exact .inl rfl
  | programEnd => exact .inr (.inl ⟨hg, rfl⟩)
  | sleep t ret => exact .inr (.inr (houtside .head .ready hg.1 rfl (by decide)))
  | enterRelease ahead =>
    cases ahead with
    | true => exact .inr (.inr (houtside .head .waiting hg.1 rfl (by decide)))
    | false => exact .inr (.inr (houtside .head .returning hg.1 rfl (by decide)))
  | passPoint last =>
    cases last with
    | true => exact .inr (.inr (houtside .waiting .returning hg.1 rfl (by decide)))
    | false => exact .inr (.inr (houtside .waiting .waiting hg.1 rfl (by decide)))
  | cancelRelease => exact .inr (.inr (houtside .waiting .flush hg.1 rfl (by decide)))
  | returnRelease => exact .inr (.inr (houtside .returning .returned hg rfl (by decide)))
  | clearInside => exact .inr (.inr (houtside .returned .ready hg rfl (by decide)))
  | nextRelease => exact .inr (.inr (houtside .nextRelease .test hg rfl (by decide)))
  | test =>
    rcases ite_eq_or_eq (s.rc = 0 ∧ s.tau.stopped = 0) Pc.head Pc.flush with hpc | hpc
    · exact .inr (.inr (houtside .test .head hg hpc (by decide)))
    · exact .inr (.inr (houtside .test .flush hg hpc (by decide)))
  | jobBegin t | jobEnd t stats | cancelProgram | flush fuel | cancelFlush fuel content
  | close closes | cancelClose => cases hq

theorem inJob_step_of_quiet : (s.step l).inJob ↔ s.inJob := by
  rcases pc_cases_of_quiet hq hg with hpc | ⟨hpc, hpc'⟩ | ⟨hpc, hpc'⟩
  · rw [State.inJob, State.inJob, hpc]
  · exact iff_of_true (.inr hpc') (.inl hpc)
  · exact iff_of_false (State.not_inJob hpc') (State.not_inJob (List.mem_cons_of_mem _ hpc))

/-- Where the clean-up handlers are called, only the stopper takes quiet steps. -/
theorem pc_step_of_quiet (hpc : s.pc = .flush ∨ s.flushed) : (s.step l).pc = s.pc := by
  rcases pc_cases_of_quiet hq hg with hsame | ⟨hprogram, -⟩ | ⟨houtside, -⟩
  · exact hsame
  · rw [State.flushed, hprogram] at hpc
    exact absurd hpc (by decide)
  · rcases hpc with hpc | hpc | hpc <;> rw [hpc] at houtside <;> exact absurd houtside (by decide)

/-- And they are not called by a quiet step. -/
theorem not_flushed_step_of_quiet (hpc : ¬s.flushed) : ¬(s.step l).flushed := by
  rcases pc_cases_of_quiet hq hg with hsame | ⟨-, hfinishing⟩ | ⟨-, houtside⟩
  · rwa [State.flushed, hsame]
  · rw [State.flushed, hfinishing]
    decide
  · rintro (h | h) <;> rw [h] at houtside <;> exact absurd houtside (by decide)

end Quiet

section Coherence

/-- What the stopper has done, and what the thread can be at, according to the kind of task. -/
structure Coherent (args : TaskCreateArgs h) (s : State h) : Prop where
  aperiodic : s.tau.aperiodic = args.result.aperiodic
  period : s.tau.period = args.period
  stopped : s.tau.stopped = 0 ↔ s.stopper = .idle
  stopper : s.stopper = .idle ∨ s.stopper = .finished ∨ s.tau.aperiodic ≠ 0
  pending : s.cancelPending = true → s.stopper = .finished ∧ s.tau.aperiodic ≠ 0
  inside : s.pc = .waiting ∨ s.pc = .returning ∨ s.pc = .returned →
    s.tau.insideAperiodicRelease = 1 ∧ s.tau.aperiodic ≠ 0
  nextRelease : s.pc = .nextRelease → s.tau.aperiodic = 0

variable {args : TaskCreateArgs h} {env : TaskCreateEnv} {cancellable : CancellationPoints}
  {s : State h} {l : Label h}

@[simp]
theorem aperiodic_step : (s.step l).tau.aperiodic = s.tau.aperiodic := by
  cases l <;> simp [State.step]

@[simp]
theorem period_step : (s.step l).tau.period = s.tau.period := by
  cases l <;> simp [State.step]

/-- What the stopper has done does not change in a step of the thread. -/
theorem stopper_step_of_ofThread (hl : l.ofThread = true) : (s.step l).stopper = s.stopper ∧
    (s.step l).cancelPending = s.cancelPending ∧ (s.step l).tau.stopped = s.tau.stopped := by
  cases l with
  | stop | checkInside | wake ret | cancel => cases hl
  | jobBegin t | jobEnd t stats | flush fuel | cancelFlush fuel content | close closes =>
    simp [State.step]
  | _ => exact ⟨rfl, rfl, rfl⟩

/-- In its loop, the stopper has set the flag, and has not cancelled the thread, whose task is
    aperiodic. -/
theorem Coherent.of_stopper (hs : Coherent args s) (hidle : s.stopper ≠ .idle)
    (hfinished : s.stopper ≠ .finished) :
    s.tau.stopped ≠ 0 ∧ s.tau.aperiodic ≠ 0 ∧ ¬s.cancelPending = true :=
  ⟨fun h => hidle (hs.stopped.1 h), (hs.stopper.resolve_left hidle).resolve_left hfinished,
    fun h => hfinished (hs.pending h).1⟩

/-- A step of the stopper in its loop. -/
theorem Coherent.step_loop (hs : Coherent args s) {s' : State h} (hidle : s.stopper ≠ .idle)
    (hfinished : s.stopper ≠ .finished) (htau : s'.tau = s.tau) (hpc : s'.pc = s.pc)
    (hidle' : s'.stopper ≠ .idle) (hpending : s'.cancelPending = true → s'.stopper = .finished) :
    Coherent args s' := by
  obtain ⟨hstopped, hap, -⟩ := hs.of_stopper hidle hfinished
  refine ⟨?_, ?_, ?_, ?_, fun h => ⟨hpending h, ?_⟩, ?_, ?_⟩ <;> rw [htau]
  · exact hs.aperiodic
  · exact hs.period
  · exact iff_of_false hstopped hidle'
  · exact .inr (.inr hap)
  · exact hap
  · rw [hpc]
    exact hs.inside
  · rw [hpc]
    exact hs.nextRelease

/-- A step of the stopper. -/
theorem Coherent.step_stopper (hs : Coherent args s) (hg : Guard cancellable s l)
    (hl : l.ofThread = false) : Coherent args (s.step l) := by
  -- In the loop, it is not where it was before it nor where it is after it.
  have hloop (pc : StopperPc) (hpc : s.stopper = pc) (hne : pc ≠ .idle ∧ pc ≠ .finished) :
      s.stopper ≠ .idle ∧ s.stopper ≠ .finished := hpc ▸ hne
  cases l with
  | stop =>
    have hidle : s.stopper = .idle := hg
    have hstopper : (s.step .stop).stopper = .check ∧ s.tau.aperiodic ≠ 0 ∨
        (s.step .stop).stopper = .finished := by
      by_cases hap : s.tau.aperiodic ≠ 0
      · exact .inl ⟨if_pos hap, hap⟩
      · exact .inr (if_neg hap)
    refine ⟨hs.aperiodic, hs.period, iff_of_false (one_ne_zero : (1 : ℤ) ≠ 0) fun h => ?_, ?_,
      fun h => ?_, hs.inside, hs.nextRelease⟩
    · rcases hstopper with ⟨h', -⟩ | h' <;> cases h.symm.trans h'
    · rcases hstopper with ⟨-, hap⟩ | hfinished
      · exact .inr (.inr hap)
      · exact .inr (.inl hfinished)
    · cases hidle.symm.trans (hs.pending h).1
  | checkInside =>
    obtain ⟨hidle, hfinished⟩ := hloop .check hg (by decide)
    refine hs.step_loop hidle hfinished rfl rfl (fun h => ?_)
      fun h => ((hs.of_stopper hidle hfinished).2.2 h).elim
    rcases ite_eq_or_eq (s.tau.insideAperiodicRelease ≠ 0) StopperPc.cancel .asleep with h' | h' <;>
      cases h.symm.trans h'
  | wake ret =>
    obtain ⟨hidle, hfinished⟩ := hloop .asleep hg (by decide)
    refine hs.step_loop hidle hfinished rfl rfl (fun h => ?_)
      fun h => ((hs.of_stopper hidle hfinished).2.2 h).elim
    rcases ite_eq_or_eq (ret ≠ 0) StopperPc.cancel .check with h' | h' <;> cases h.symm.trans h'
  | cancel =>
    obtain ⟨hidle, hfinished⟩ := hloop .cancel hg (by decide)
    exact hs.step_loop hidle hfinished rfl rfl (by rintro ⟨⟩) fun _ => rfl
  | _ => cases hl

/-- The flag is set around `aperiodic_release` only, and a next release time computed only for a
    periodic task. -/
theorem Coherent.places_step (hs : Coherent args s) (hg : Guard cancellable s l)
    (hl : l.ofThread = true) :
    ((s.step l).pc = .waiting ∨ (s.step l).pc = .returning ∨ (s.step l).pc = .returned →
      (s.step l).tau.insideAperiodicRelease = 1 ∧ (s.step l).tau.aperiodic ≠ 0) ∧
    ((s.step l).pc = .nextRelease → (s.step l).tau.aperiodic = 0) := by
  cases l with
  | enterRelease ahead =>
    refine ⟨fun _ => ⟨rfl, hg.2⟩, fun h => ?_⟩
    cases ahead <;> cases h
  | passPoint last =>
    refine ⟨fun _ => hs.inside (.inl hg.1), fun h => ?_⟩
    cases last <;> cases h
  | returnRelease => exact ⟨fun _ => hs.inside (.inr (.inl hg)), by rintro ⟨⟩⟩
  | jobEnd t stats =>
    rw [aperiodic_step]
    by_cases hap : s.tau.aperiodic = 0
    · refine ⟨fun h => ?_, fun _ => hap⟩
      simp [State.step, hap] at h
    · refine ⟨fun h => ?_, fun h => ?_⟩ <;> simp [State.step, hap] at h
  | test =>
    rcases ite_eq_or_eq (s.rc = 0 ∧ s.tau.stopped = 0) Pc.head Pc.flush with hpc | hpc <;>
      refine ⟨fun h => ?_, fun h => ?_⟩ <;> simp only [State.step, hpc] at h <;>
      exact absurd h (by decide)
  | stop | checkInside | wake ret | cancel => cases hl
  | _ =>
    refine ⟨fun h => ?_, fun h => ?_⟩
    · rcases h with h | h | h <;> cases h
    · cases h

theorem Coherent.step (hs : Coherent args s) (hg : Guard cancellable s l) :
    Coherent args (s.step l) := by
  cases hl : l.ofThread with
  | false => exact hs.step_stopper hg hl
  | true =>
    obtain ⟨hstopper, hpending, hstopped⟩ := stopper_step_of_ofThread (s := s) hl
    obtain ⟨hinside, hnext⟩ := hs.places_step hg hl
    refine ⟨by rw [aperiodic_step, hs.aperiodic], by rw [period_step, hs.period], ?_, ?_, ?_,
      hinside, hnext⟩
    · rw [hstopped, hstopper]
      exact hs.stopped
    · rw [hstopper, aperiodic_step]
      exact hs.stopper
    · rw [hpending, hstopper, aperiodic_step]
      exact hs.pending

/-- Every run is coherent. -/
theorem Run.coherent {ls : List (Label h)} (hr : (taskSystem args env cancellable).Run ls s) :
    Coherent args s := by
  refine hr.state_invariant (fun s hs => ?_) fun s l s' hs hst => ?_
  · obtain ⟨rc, tau, dummy, hc, rfl⟩ := hs
    obtain ⟨device, ringbuf, -, -, rfl⟩ := taskCreate_eq_some hc
    exact ⟨rfl, rfl, iff_of_true rfl rfl, .inl rfl, (by rintro ⟨⟩),
      (by rintro (h0 | h0 | h0) <;> cases h0), (by rintro ⟨⟩)⟩
  · obtain ⟨hg, rfl⟩ := next_iff.1 hst
    exact hs.step hg

end Coherence

/-- The task of the given arguments, with a preamble. -/
def TaskCreateArgs.taskInfo (args : TaskCreateArgs h) (preamble : TaskStatisticsRingbuf h) :
    TaskInfo h :=
  { args.result.toTaskInfo with
    oldestJobPos := preamble.oldestJobPos
    lostJobCount := preamble.lostJobCount
    writeCount := preamble.writeCount }

variable {args : TaskCreateArgs h} {env : TaskCreateEnv} {cancellable : CancellationPoints}

/-- The ring buffer `log` logs the jobs that the labels say have completed, and `xs`, the job in
    progress: none, unless the thread has been cancelled in its job. -/
structure Recorded (args : TaskCreateArgs h) (ls : List (Label h)) (log : JobstatsRingbuf h)
    (xs : List (JobStatistics h)) : Prop where
  logs : log.Logs args.ringbufferSize args.ringbufferDisableOverrun (completed ls ++ xs)
  jobsBegun : jobsBegun ls = (completed ls ++ xs).length

/-- The log as it is before the flush. -/
structure Logging (args : TaskCreateArgs h) (device : ℕ → Bool) (ls : List (Label h)) (s : State h)
    (log : JobstatsRingbuf h) (xs : List (JobStatistics h)) : Prop extends
    Recorded args ls log xs where
  info : s.tau.toTaskInfo = args.result.toTaskInfo
  statsRingbuf : s.tau.statsRingbuf = some log
  statsLog : s.tau.statsLog = some (args.logged device)
  failToCloseStatsLog : s.tau.failToCloseStatsLog = 0
  disk : s.disk = none
  inJob : s.inJob → (∃ x, xs = [x]) ∧ s.stats = statsPtrOf args.ringbufferSize.toNat
    args.ringbufferDisableOverrun (completed ls).length
  notInJob : ¬s.inJob → .cancelProgram ∉ ls → xs = []
  cancelled : .cancelProgram ∈ ls → s.pc = .flush

/-- What the calls of `fwrite` gave at the flush. -/
def written (args : TaskCreateArgs h) (device : ℕ → Bool) (log : JobstatsRingbuf h)
    (xs : List (JobStatistics h)) : Bool × OutFile :=
  (args.logged device).fwriteAll (flushItems log.preamble
    (savedRecords args.ringbufferSize args.ringbufferDisableOverrun xs))

/-- The log as it is after the flush. -/
structure Flushed (args : TaskCreateArgs h) (device : ℕ → Bool) (ls : List (Label h)) (s : State h)
    (log : JobstatsRingbuf h) (xs : List (JobStatistics h)) : Prop extends
    Recorded args ls log xs where
  info : s.tau.toTaskInfo = args.taskInfo log.preamble
  notCancelled : .cancelProgram ∉ ls → xs = []
  closing : s.pc = .close → s.disk = none ∧
    s.tau.statsLog = some (written args device log (completed ls ++ xs)).2 ∧
    s.tau.failToCloseStatsLog = if (written args device log (completed ls ++ xs)).1 then 0 else 1
  closed : s.pc = .done → ∃ closes, .close closes ∈ ls ∧
    s.disk =
      (if closes then some (written args device log (completed ls ++ xs)).2.content else none) ∧
    s.tau.failToCloseStatsLog =
      (if (written args device log (completed ls ++ xs)).1 then 0 else 1) + if closes then 0 else 1

/-- A new task is logging. -/
theorem logging_start {tau : Task h} {rc : ℤ} (hN : args.ringbufferSize ≠ 0)
    (hc : taskCreate args env = (rc, some tau)) (dummy : JobStatistics h) :
    ∃ device log, env.statsLog = some device ∧
      Logging args device [] (.start tau dummy) log [] := by
  obtain ⟨device, ringbuf, hdev, hring, rfl⟩ := taskCreate_eq_some hc
  obtain ⟨log, rfl, hl⟩ := TaskCreateArgs.statsRingbuf_of_ne hN hring
  refine ⟨device, log, hdev, ⟨by simpa using hl, rfl⟩, rfl, rfl, rfl, rfl, rfl, fun hj => ?_,
    fun _ _ => rfl, fun hc => by cases hc⟩
  rcases hj with hj | hj <;> cases hj

section Steps

variable {device : ℕ → Bool} {ls : List (Label h)} {s : State h} {l : Label h}
  {log : JobstatsRingbuf h} {xs : List (JobStatistics h)}

/-- Only jobs change what is recorded. -/
theorem Recorded.concat (hr : Recorded args ls log xs) (hb : l.isJobBegin = false)
    (hc : l.completed = none) : Recorded args (ls ++ [l]) log xs := by
  refine ⟨?_, ?_⟩
  · rw [completed_concat, hc, Option.toList_none, List.append_nil]
    exact hr.logs
  · rw [jobsBegun_concat, completed_concat, hb, hc, Option.toList_none, List.append_nil]
    exact hr.jobsBegun

theorem Logging.quiet (hL : Logging args device ls s log xs) (hq : l.quiet = true)
    (hg : Guard cancellable s l) : Logging args device (ls ++ [l]) (s.step l) log xs := by
  have hv := logView_step_of_quiet (s := s) hq
  have hin := inJob_step_of_quiet hq hg
  have hcl : .cancelProgram ≠ l := by rintro rfl; cases hq
  simp only [State.logView, Prod.mk.injEq] at hv
  obtain ⟨hinfo, hring, hlog, hfail, hdisk, hstats⟩ := hv
  refine ⟨hL.toRecorded.concat (isJobBegin_of_quiet hq) (completed_of_quiet hq),
    hinfo.trans hL.info, hring.trans hL.statsRingbuf, hlog.trans hL.statsLog,
    hfail.trans hL.failToCloseStatsLog, hdisk.trans hL.disk, fun hj => ?_, fun hj hc => ?_,
    fun hc => ?_⟩
  · rw [hstats, completed_concat, completed_of_quiet hq, Option.toList_none, List.append_nil]
    exact hL.inJob (hin.1 hj)
  · exact hL.notInJob (fun hj' => hj (hin.2 hj')) fun hc' =>
      hc (List.mem_append_left _ hc')
  · rw [List.mem_append, List.mem_singleton, or_iff_left hcl] at hc
    have hpc := hL.cancelled hc
    rw [pc_step_of_quiet hq hg (.inl hpc), hpc]

/-- The thread is cancelled in its job: the statistics of the job stay in the ring buffer. -/
theorem Logging.cancelProgram (hL : Logging args device ls s log xs) :
    Logging args device (ls ++ [.cancelProgram]) (s.step .cancelProgram) log xs := by
  refine ⟨hL.toRecorded.concat rfl rfl, hL.info, hL.statsRingbuf, hL.statsLog,
    hL.failToCloseStatsLog, hL.disk, fun hj => ?_, fun _ hc => ?_, fun _ => rfl⟩
  · rcases hj with hj | hj <;> cases hj
  · exact absurd (List.mem_append_right _ (List.mem_singleton.2 rfl)) hc

/-- Before the job, there is no job in progress. -/
theorem Logging.eq_nil (hL : Logging args device ls s log xs) (hin : ¬s.inJob)
    (hpc : s.pc ≠ .flush) : xs = [] :=
  hL.notInJob hin fun hc => hpc (hL.cancelled hc)

/-- `job_start` up to the program, with a ring buffer. -/
theorem step_jobBegin (hring : s.tau.statsRingbuf = some log) (t : Option (Timespec h)) :
    s.step (.jobBegin t) =
      { s with
        tau := { s.tau with
          statsRingbuf := some ((jobStartClaim log).2.modify (jobStartClaim log).1 (storeBegin t)) }
        stats := (jobStartClaim log).1
        dummy := if (jobStartClaim log).1 = .dummy then storeBegin t s.dummy else s.dummy
        jobRc := 0 - clockGettime t
        pc := .program } := by
  simp [State.step, State.claim, State.clock, hring]

/-- `job_start` from the end of the program on, with a ring buffer. -/
theorem step_jobEnd (hring : s.tau.statsRingbuf = some log) (t : Option (Timespec h))
    (stats : Option (JobStatistics h)) :
    s.step (.jobEnd t stats) =
      { s with
        tau := { s.tau with statsRingbuf := some (log.modify s.stats (storeEnd t)) }
        dummy := if s.stats = .dummy then storeEnd t s.dummy else s.dummy
        jobRc := s.jobRc - clockGettime t
        rc := s.rc - (s.jobRc - clockGettime t)
        pc := if s.tau.aperiodic ≠ 0 then .test else .nextRelease } := by
  simp [State.step, State.clock, hring]

/-- The statistics that it leaves. -/
theorem record_clock (hring : s.tau.statsRingbuf = some log) (t : Option (Timespec h))
    (store : JobStatistics h → JobStatistics h) :
    (s.clock t store).record = some ((log.modify s.stats store).deref s.stats
      (if s.stats = .dummy then store s.dummy else s.dummy)) := by
  simp [State.record, State.clock, hring]

/-- A job begins: its statistics are added. -/
theorem Logging.jobBegin (hL : Logging args device ls s log xs) {t : Option (Timespec h)}
    (hg : Guard cancellable s (.jobBegin t)) :
    ∃ log' xs', Logging args device (ls ++ [.jobBegin t]) (s.step (.jobBegin t)) log' xs' := by
  have hpc : s.pc = .ready := hg
  obtain rfl := hL.eq_nil (by simp [State.inJob, hpc]) (by simp [hpc])
  have hl := hL.logs
  rw [List.append_nil] at hl
  obtain ⟨hp, x, hx⟩ := hl.claim
  have hm := hx.modify (storeBegin t)
  rw [← hp] at hm
  rw [step_jobBegin hL.statsRingbuf]
  -- The record is what the slot held before, with the start time stored in it.
  refine ⟨_, [storeBegin t x], ⟨?_, ?_⟩, hL.info, rfl, hL.statsLog, hL.failToCloseStatsLog,
    hL.disk, fun _ => ⟨⟨_, rfl⟩, ?_⟩, fun hj => absurd (.inl rfl) hj, fun hc => ?_⟩
  · simpa [Label.completed] using hm
  · simp [hL.jobsBegun, Label.completed, Label.isJobBegin]
  · simpa [Label.completed] using hp
  · rw [List.mem_append, List.mem_singleton, or_iff_left (by rintro ⟨⟩)] at hc
    cases hpc.symm.trans (hL.cancelled hc)

/-- A job completes: its statistics are as the job leaves them. -/
theorem Logging.jobEnd (hL : Logging args device ls s log xs) {t : Option (Timespec h)}
    {stats : Option (JobStatistics h)} (hg : Guard cancellable s (.jobEnd t stats)) :
    ∃ log', Logging args device (ls ++ [.jobEnd t stats]) (s.step (.jobEnd t stats)) log' [] := by
  obtain ⟨hpc, rfl⟩ := hg
  obtain ⟨⟨x, rfl⟩, hstats⟩ := hL.inJob (.inr hpc)
  have hm := (hL.logs.modify (storeEnd t)).deref
    (if s.stats = .dummy then storeEnd t s.dummy else s.dummy)
  rw [← hstats] at hm
  -- The record is what the pointer of the job points to, if this is in the ring buffer.
  rw [record_clock hL.statsRingbuf, step_jobEnd hL.statsRingbuf]
  refine ⟨_, ⟨?_, ?_⟩, hL.info, rfl, hL.statsLog, hL.failToCloseStatsLog, hL.disk, fun hj => ?_,
    fun _ _ => rfl, fun hc => ?_⟩
  · simpa [Label.completed] using hm
  · simp [hL.jobsBegun, Label.completed, Label.isJobBegin]
  · rcases hj with hj | hj <;> simp only at hj <;> split_ifs at hj
  · rw [List.mem_append, List.mem_singleton, or_iff_left (by rintro ⟨⟩)] at hc
    cases hpc.symm.trans (hL.cancelled hc)

/-- The ring buffer is flushed. -/
theorem Logging.flush (hL : Logging args device ls s log xs) (hN : args.ringbufferSize ≠ 0)
    {fuel : ℕ} (hg : Guard cancellable s (.flush fuel)) :
    Flushed args device (ls ++ [.flush fuel]) (s.step (.flush fuel)) log xs := by
  obtain ⟨hpc, hsome⟩ := hg
  obtain ⟨tau', htau⟩ := Option.isSome_iff_exists.1 hsome
  have hd : s.tau.disableJobStatistics = 0 := by
    rw [hL.info]
    exact if_neg hN
  have hin : ¬s.inJob := by simp [State.inJob, hpc]
  have hflush := hL.logs.flush hL.statsRingbuf hd hL.statsLog htau
  have hcompleted : completed (ls ++ [.flush fuel]) = completed ls := by simp [Label.completed]
  rw [State.step, htau, Option.getD_some, hflush]
  refine ⟨hL.toRecorded.concat rfl rfl, ?_, fun hc => ?_, fun _ => ?_, fun hpc' => by cases hpc'⟩
  · simp only [Task.flushed, hL.info]
    rfl
  · exact hL.notInJob hin fun hc' => hc (List.mem_append_left _ hc')
  · rw [hcompleted]
    refine ⟨hL.disk, rfl, ?_⟩
    simp only [Task.flushed, hL.failToCloseStatsLog, zero_add]
    rfl

theorem Flushed.quiet (hF : Flushed args device ls s log xs) (hs : s.flushed) (hq : l.quiet = true)
    (hg : Guard cancellable s l) : Flushed args device (ls ++ [l]) (s.step l) log xs := by
  have hv := logView_step_of_quiet (s := s) hq
  have hpc := pc_step_of_quiet hq hg (.inr hs)
  have hcompleted : completed (ls ++ [l]) = completed ls := by simp [completed_of_quiet hq]
  simp only [State.logView, Prod.mk.injEq] at hv
  obtain ⟨hinfo, hring, hlog, hfail, hdisk, hstats⟩ := hv
  refine ⟨hF.toRecorded.concat (isJobBegin_of_quiet hq) (completed_of_quiet hq),
    hinfo.trans hF.info, fun hc => hF.notCancelled fun hc' => hc (List.mem_append_left _ hc'),
    fun hclose => ?_, fun hdone => ?_⟩
  · rw [hdisk, hlog, hfail, hcompleted]
    exact hF.closing (hpc ▸ hclose)
  · obtain ⟨closes, hmem, h1, h2⟩ := hF.closed (hpc ▸ hdone)
    rw [hdisk, hfail, hcompleted]
    exact ⟨closes, List.mem_append_left _ hmem, h1, h2⟩

/-- The log is closed. -/
theorem Flushed.close (hF : Flushed args device ls s log xs) {closes : Bool}
    (hg : Guard cancellable s (.close closes)) :
    Flushed args device (ls ++ [.close closes]) (s.step (.close closes)) log xs := by
  obtain ⟨hdisk, hlog, hfail⟩ := hF.closing hg
  have hcompleted : completed (ls ++ [.close closes]) = completed ls := by simp [Label.completed]
  have hinfo : (closeLoggingFile closes s.tau).1.toTaskInfo = s.tau.toTaskInfo := by
    rw [closeLoggingFile, hlog]
    cases closes <;> rfl
  refine ⟨hF.toRecorded.concat rfl rfl, hinfo.trans hF.info,
    fun hc => hF.notCancelled fun hc' => hc (List.mem_append_left _ hc'), (by rintro ⟨⟩),
    fun _ => ⟨closes, by simp, ?_⟩⟩
  rw [hcompleted, ← hfail]
  cases closes <;> simp [State.step, closeLoggingFile, hlog]

/-- Only a flush leads to the end of the clean-up. -/
theorem not_flushed_step (hs : ¬s.flushed) (hg : Guard cancellable s l) (hflush : l.isFlush = false)
    (hl : l.cancelsHandler = false) : ¬(s.step l).flushed := by
  by_cases hq : l.quiet = true
  · exact not_flushed_step_of_quiet hq hg hs
  cases l with
  | jobBegin t | cancelProgram => rintro (hpc | hpc) <;> cases hpc
  | jobEnd t stats =>
    rintro (hpc | hpc) <;> simp only [State.step] at hpc <;> split_ifs at hpc
  | close closes => exact absurd (.inl hg) hs
  | flush fuel => cases hflush
  | cancelFlush fuel content | cancelClose => cases hl
  | _ => exact absurd rfl hq

/-- A step of a task which is logging. -/
theorem Logging.step (hL : Logging args device ls s log xs) (hN : args.ringbufferSize ≠ 0)
    (hs : ¬s.flushed) (hg : Guard cancellable s l) (hl : l.cancelsHandler = false) :
    ∃ log xs, ¬(s.step l).flushed ∧ Logging args device (ls ++ [l]) (s.step l) log xs ∨
      (s.step l).flushed ∧ Flushed args device (ls ++ [l]) (s.step l) log xs := by
  by_cases hq : l.quiet = true
  · exact ⟨log, xs, .inl ⟨not_flushed_step_of_quiet hq hg hs, hL.quiet hq hg⟩⟩
  cases l with
  | jobBegin t =>
    obtain ⟨log', xs', hL'⟩ := hL.jobBegin hg
    exact ⟨log', xs', .inl ⟨not_flushed_step hs hg rfl hl, hL'⟩⟩
  | jobEnd t stats =>
    obtain ⟨log', hL'⟩ := hL.jobEnd hg
    exact ⟨log', [], .inl ⟨not_flushed_step hs hg rfl hl, hL'⟩⟩
  | cancelProgram =>
    exact ⟨log, xs, .inl ⟨not_flushed_step hs hg rfl hl, hL.cancelProgram⟩⟩
  | flush fuel => exact ⟨log, xs, .inr ⟨.inl rfl, hL.flush hN hg⟩⟩
  | close closes => exact absurd (.inl hg) hs
  | cancelFlush fuel content => cases hl
  | cancelClose => cases hl
  | _ => exact absurd rfl hq

/-- After the flush, the thread can only close the log, if it is not cancelled. -/
theorem close_or_quiet (hs : s.flushed) (hg : Guard cancellable s l)
    (hl : l.cancelsHandler = false) : (∃ closes, l = .close closes) ∨ l.quiet = true := by
  have hne (pc : Pc) (hpc : s.pc = pc) (hne : ¬(pc = .close ∨ pc = .done)) : False := by
    rw [State.flushed, hpc] at hs
    exact hne hs
  cases l with
  | close closes => exact .inl ⟨closes, rfl⟩
  -- The thread would be in its loop, or at the flush.
  | jobBegin t => exact (hne .ready hg (by decide)).elim
  | jobEnd t stats => exact (hne .finishing hg.1 (by decide)).elim
  | cancelProgram => exact (hne .program hg.1 (by decide)).elim
  | flush fuel => exact (hne .flush hg.1 (by decide)).elim
  | cancelFlush fuel content | cancelClose => cases hl
  | _ => exact .inr rfl

theorem flushed_step (hs : s.flushed) (hg : Guard cancellable s l)
    (hl : l.cancelsHandler = false) : (s.step l).flushed := by
  rcases close_or_quiet hs hg hl with ⟨closes, rfl⟩ | hq
  · exact .inr rfl
  · rw [State.flushed, pc_step_of_quiet hq hg (.inr hs)]
    exact hs

/-- A step of a task which has been flushed. -/
theorem Flushed.step (hF : Flushed args device ls s log xs) (hs : s.flushed)
    (hg : Guard cancellable s l) (hl : l.cancelsHandler = false) :
    Flushed args device (ls ++ [l]) (s.step l) log xs := by
  -- Closing the log does not change what was recorded, and nothing else happens.
  rcases close_or_quiet hs hg hl with ⟨closes, rfl⟩ | hq
  · exact hF.close hg
  · exact hF.quiet hs hq hg

end Steps

/-- No clean-up handler is cut short by the cancellation. -/
def HandlersComplete (ls : List (Label h)) : Prop := ∀ l ∈ ls, l.cancelsHandler = false

instance (ls : List (Label h)) : Decidable (HandlersComplete ls) :=
  inferInstanceAs (Decidable (∀ l ∈ ls, _))

theorem handlersComplete_concat {ls : List (Label h)} {l : Label h} :
    HandlersComplete (ls ++ [l]) ↔ HandlersComplete ls ∧ l.cancelsHandler = false := by
  simp [HandlersComplete, or_imp, forall_and]

/-- It is not, where the handlers have no cancellation points. -/
theorem Run.handlersComplete {ls : List (Label h)} {s : State h}
    (hc : cancellable.handlers = false) (hr : (taskSystem args env cancellable).Run ls s) :
    HandlersComplete ls := by
  refine hr.invariant (P := fun ls _ => HandlersComplete ls)
    (fun _ _ _ hl => absurd hl List.not_mem_nil) fun ls s l s' _ hs hst => ?_
  obtain ⟨hg, -⟩ := next_iff.1 hst
  refine handlersComplete_concat.2 ⟨hs, ?_⟩
  cases l with
  | cancelFlush fuel content => exact absurd hg.2.2.2.1 (by rw [hc]; decide)
  | cancelClose => exact absurd hg.2.2.2.1 (by rw [hc]; decide)
  | _ => rfl

/-- After every run in which the handlers are complete, the task is still logging, or its log is
    as the flush has left it. -/
theorem Run.logged {ls : List (Label h)} {s : State h} (hN : args.ringbufferSize ≠ 0)
    (hr : (taskSystem args env cancellable).Run ls s) (hc : HandlersComplete ls) :
    ∃ device log xs, env.statsLog = some device ∧
      (¬s.flushed ∧ Logging args device ls s log xs ∨
        s.flushed ∧ Flushed args device ls s log xs) := by
  refine hr.invariant (P := fun ls s => HandlersComplete ls → ∃ device log xs,
    env.statsLog = some device ∧ (¬s.flushed ∧ Logging args device ls s log xs ∨
      s.flushed ∧ Flushed args device ls s log xs))
    (fun s hs _ => ?_) (fun ls s l s' _ hs hst hc => ?_) hc
  · obtain ⟨rc, tau, dummy, hc, rfl⟩ := hs
    obtain ⟨device, log, hdev, hL⟩ := logging_start hN hc dummy
    refine ⟨device, log, [], hdev, .inl ⟨?_, hL⟩⟩
    rintro (hpc | hpc) <;> cases hpc
  · obtain ⟨hc, hl⟩ := handlersComplete_concat.1 hc
    obtain ⟨device, log, xs, hdev, ⟨hs, hL⟩ | ⟨hs, hF⟩⟩ := hs hc <;>
      obtain ⟨hg, rfl⟩ := next_iff.1 hst
    · obtain ⟨log', xs', hstep⟩ := hL.step hN hs hg hl
      exact ⟨device, log', xs', hdev, hstep⟩
    · exact ⟨device, log, xs, hdev, .inr ⟨flushed_step hs hg hl, hF.step hs hg hl⟩⟩

/-- The ring buffer is flushed once. -/
theorem Run.flushes_eq {ls : List (Label h)} {s : State h}
    (hr : (taskSystem args env cancellable).Run ls s) (hc : HandlersComplete ls) :
    flushes ls = if s.flushed then 1 else 0 := by
  refine hr.invariant
    (P := fun ls s => HandlersComplete ls → flushes ls = if s.flushed then 1 else 0)
    (fun s hs _ => ?_) (fun ls s l s' _ hs hst hc => ?_) hc
  · obtain ⟨rc, tau, dummy, -, rfl⟩ := hs
    rfl
  obtain ⟨hc, hl⟩ := handlersComplete_concat.1 hc
  obtain ⟨hg, rfl⟩ := next_iff.1 hst
  rw [flushes_concat, hs hc]
  by_cases hf : s.flushed
  · have hflush : l.isFlush = false := by
      rcases close_or_quiet hf hg hl with ⟨closes, rfl⟩ | hq
      · rfl
      · exact isFlush_of_quiet hq
    rw [hflush, if_pos hf, if_pos (flushed_step hf hg hl)]
    rfl
  · cases hflush : l.isFlush with
    | false =>
      rw [if_neg hf, if_neg (not_flushed_step hf hg hflush hl)]
      rfl
    | true =>
      have hflushed : (s.step l).flushed := by
        cases l with
        | flush fuel => exact .inl rfl
        | _ => cases hflush
      rw [if_neg hf, if_pos hflushed]
      rfl

/-! ## The content of the log -/

/-- A log with its preamble and records. -/
def TaskCreateArgs.log (args : TaskCreateArgs h) (preamble : TaskStatisticsRingbuf h)
    (records : List (JobStatistics h)) : Bytes :=
  args.header ++ preamble.toBytes ++ records.flatMap JobStatistics.toBytes

theorem TaskCreateArgs.log_eq (args : TaskCreateArgs h) (preamble : TaskStatisticsRingbuf h)
    (records : List (JobStatistics h)) :
    args.header ++ (flushItems preamble records).flatten = args.log preamble records := by
  simp [log, flushItems, List.flatMap_def]

section Content

variable (args : TaskCreateArgs h) (device : ℕ → Bool) (log : JobstatsRingbuf h)
  (xs : List (JobStatistics h))

/-- What has been written is the header alone or, when the preamble could be written, some of
    the saved records after it, from the first one on. -/
theorem content_written :
    (written args device log xs).2.content = args.header ∨
      ∃ k, (written args device log xs).2.content = args.log log.preamble
        ((savedRecords args.ringbufferSize args.ringbufferDisableOverrun xs).take k) := by
  -- The preamble is the first item: without it there are no records.
  obtain ⟨j, -, hj, -⟩ := OutFile.exists_content_fwriteAll (flushItems log.preamble
    (savedRecords args.ringbufferSize args.ringbufferDisableOverrun xs)) (args.logged device)
  rw [written, hj]
  cases j with
  | zero => exact .inl (by simp [TaskCreateArgs.logged])
  | succ k =>
    refine .inr ⟨k, ?_⟩
    simp [TaskCreateArgs.logged, TaskCreateArgs.log, flushItems, List.flatMap_def, List.map_take]

variable {args device log xs}

/-- When no call of `fwrite` failed, all has been written. -/
theorem content_written_of_true (hw : (written args device log xs).1 = true) :
    (written args device log xs).2.content = args.log log.preamble
      (savedRecords args.ringbufferSize args.ringbufferDisableOverrun xs) := by
  obtain ⟨j, -, hj, hall⟩ := OutFile.exists_content_fwriteAll (flushItems log.preamble
    (savedRecords args.ringbufferSize args.ringbufferDisableOverrun xs)) (args.logged device)
  rw [written, hj, hall hw, List.take_length]
  exact args.log_eq _ _

end Content

/-- A log is closed by a thread that has flushed it. -/
theorem Run.disk {ls : List (Label h)} {s : State h} {content : Bytes}
    (hN : args.ringbufferSize ≠ 0) (hr : (taskSystem args env cancellable).Run ls s)
    (hc : HandlersComplete ls) (hdisk : s.disk = some content) :
    ∃ device log xs, env.statsLog = some device ∧ Recorded args ls log xs ∧
      s.tau.toTaskInfo = args.taskInfo log.preamble ∧ (.cancelProgram ∉ ls → xs = []) ∧
      content = (written args device log (completed ls ++ xs)).2.content ∧
      (s.tau.failToCloseStatsLog = 0 →
        (written args device log (completed ls ++ xs)).1 = true) := by
  obtain ⟨device, log, xs, hdev, ⟨-, hL⟩ | ⟨hs, hF⟩⟩ := Run.logged hN hr hc
  · cases hL.disk.symm.trans hdisk
  refine ⟨device, log, xs, hdev, hF.toRecorded, hF.info, hF.notCancelled, ?_⟩
  rcases hs with hpc | hpc
  · cases (hF.closing hpc).1.symm.trans hdisk
  · obtain ⟨closes, -, hclosed, hfail⟩ := hF.closed hpc
    rw [hdisk] at hclosed
    rw [hfail]
    cases closes with
    | false => cases hclosed
    | true =>
      refine ⟨Option.some.inj hclosed, fun h0 => ?_⟩
      by_contra hne
      rw [if_neg hne] at h0
      cases h0

/-! ## However the thread ends -/

/-- What there is of the log from the flush on, when this or the closing may be cut short: the
    beginning of a log with the saved records. -/
structure Begun (args : TaskCreateArgs h) (ls : List (Label h)) (s : State h)
    (log : JobstatsRingbuf h) (xs : List (JobStatistics h)) : Prop extends
    Recorded args ls log xs where
  notCancelled : .cancelProgram ∉ ls → xs = []
  statsLog : ∀ f, s.tau.statsLog = some f → f.content <+: args.log log.preamble
    (savedRecords args.ringbufferSize args.ringbufferDisableOverrun (completed ls ++ xs))
  disk : ∀ content, s.disk = some content → content <+: args.log log.preamble
    (savedRecords args.ringbufferSize args.ringbufferDisableOverrun (completed ls ++ xs))

section Begun

variable {device : ℕ → Bool} {ls : List (Label h)} {s : State h} {l : Label h}
  {log : JobstatsRingbuf h} {xs : List (JobStatistics h)}

theorem content_written_isPrefix :
    (written args device log xs).2.content <+: args.log log.preamble
      (savedRecords args.ringbufferSize args.ringbufferDisableOverrun xs) := by
  obtain ⟨j, -, hj, -⟩ := OutFile.exists_content_fwriteAll (flushItems log.preamble
    (savedRecords args.ringbufferSize args.ringbufferDisableOverrun xs)) (args.logged device)
  rw [written, hj, ← TaskCreateArgs.log_eq]
  exact (List.prefix_append_right_inj _).2 (List.take_prefix j _).flatten

/-- The log has been flushed. -/
theorem Flushed.begun (hF : Flushed args device ls s log xs) (hpc : s.pc = .close) :
    Begun args ls s log xs := by
  obtain ⟨hdisk, hlog, -⟩ := hF.closing hpc
  refine ⟨hF.toRecorded, hF.notCancelled, fun f hf => ?_, fun content hcontent => ?_⟩
  · obtain rfl := Option.some.inj (hlog.symm.trans hf)
    exact content_written_isPrefix
  · cases hdisk.symm.trans hcontent

/-- The flush is cut short. -/
theorem Logging.cancelFlush (hL : Logging args device ls s log xs) {fuel : ℕ} {content : Bytes}
    (hg : Guard cancellable s (.cancelFlush fuel content)) :
    Begun args (ls ++ [.cancelFlush fuel content]) (s.step (.cancelFlush fuel content)) log xs := by
  obtain ⟨hpc, -, -, -, hsome⟩ := hg
  obtain ⟨tau, hcut⟩ := Option.isSome_iff_exists.1 hsome
  have hin : ¬s.inJob := State.not_inJob (by rw [hpc]; exact .head _)
  have hcompleted : completed (ls ++ [.cancelFlush fuel content]) = completed ls := by
    simp [Label.completed]
  obtain ⟨hlog, hprefix⟩ := hL.logs.cutFlush_eq hL.statsRingbuf hL.statsLog hcut
  rw [State.step, hcut, Option.getD_some]
  refine ⟨hL.toRecorded.concat rfl rfl,
    fun hc => hL.notInJob hin fun hc' => hc (List.mem_append_left _ hc'), fun f hf => ?_,
    fun content hcontent => ?_⟩
  · obtain rfl := Option.some.inj (hlog.symm.trans hf)
    rw [hcompleted, ← TaskCreateArgs.log_eq]
    exact hprefix
  · cases hL.disk.symm.trans hcontent

/-- A step after the flush. -/
theorem Begun.step (hB : Begun args ls s log xs) (hs : s.flushed) (hg : Guard cancellable s l) :
    (s.step l).flushed ∧ Begun args (ls ++ [l]) (s.step l) log xs := by
  have hconcat (hb : l.isJobBegin = false) (hc : l.completed = none)
      (hlog : ∀ f, (s.step l).tau.statsLog = some f → s.tau.statsLog = some f)
      (hdisk : ∀ content, (s.step l).disk = some content →
        s.disk = some content ∨ ∃ f, s.tau.statsLog = some f ∧ f.content = content) :
      Begun args (ls ++ [l]) (s.step l) log xs := by
    have hcompleted : completed (ls ++ [l]) = completed ls := by simp [hc]
    refine ⟨hB.toRecorded.concat hb hc,
      fun hnot => hB.notCancelled fun hmem => hnot (List.mem_append_left _ hmem), ?_, ?_⟩ <;>
      rw [hcompleted]
    · exact fun f hf => hB.statsLog f (hlog f hf)
    · intro content hcontent
      rcases hdisk content hcontent with hold | ⟨f, hf, rfl⟩
      · exact hB.disk content hold
      · exact hB.statsLog f hf
  cases hl : l.cancelsHandler with
  | false =>
    refine ⟨flushed_step hs hg hl, ?_⟩
    rcases close_or_quiet hs hg hl with ⟨closes, rfl⟩ | hq
    · -- What is in the log is what is closed.
      cases hlog : s.tau.statsLog with
      | none =>
        refine hconcat rfl rfl (fun f hf => ?_) fun content hcontent => ?_
        · simp [State.step, closeLoggingFile, hlog] at hf
        · simp [State.step, closeLoggingFile, hlog] at hcontent
      | some f =>
        have hstep : (s.step (.close closes)).tau.statsLog = (if closes then none else some f) ∧
            (s.step (.close closes)).disk = if closes then some f.content else none := by
          cases closes <;> simp [State.step, closeLoggingFile, hlog]
        refine hconcat rfl rfl (fun f' hf => ?_) fun content hcontent => .inr ⟨f, hlog, ?_⟩
        · rw [hstep.1] at hf
          split_ifs at hf
          rw [hlog, hf]
        · rw [hstep.2] at hcontent
          split_ifs at hcontent
          exact Option.some.inj hcontent
    · have hv := logView_step_of_quiet (s := s) hq
      simp only [State.logView, Prod.mk.injEq] at hv
      obtain ⟨-, -, hlog, -, hdisk, -⟩ := hv
      exact hconcat (isJobBegin_of_quiet hq) (completed_of_quiet hq) (fun f hf => hlog ▸ hf)
        fun content hcontent => .inl (hdisk ▸ hcontent)
  | true =>
    cases l with
    | cancelFlush fuel content =>
      rcases hs with hpc | hpc <;> cases hpc.symm.trans hg.1
    | cancelClose => exact ⟨.inr rfl, hconcat rfl rfl (fun _ => id) fun _ => .inl⟩
    | _ => cases hl

end Begun

/-- After every run, the task is still logging, or there is the beginning of its log. -/
theorem Run.begun {ls : List (Label h)} {s : State h} (hN : args.ringbufferSize ≠ 0)
    (hr : (taskSystem args env cancellable).Run ls s) :
    ∃ log xs, (¬s.flushed ∧ ∃ device, Logging args device ls s log xs) ∨
      s.flushed ∧ Begun args ls s log xs := by
  refine hr.invariant (P := fun ls s => ∃ log xs,
    (¬s.flushed ∧ ∃ device, Logging args device ls s log xs) ∨
      s.flushed ∧ Begun args ls s log xs)
    (fun s hs => ?_) fun ls s l s' _ hs hst => ?_
  · obtain ⟨rc, tau, dummy, hc, rfl⟩ := hs
    obtain ⟨device, log, -, hL⟩ := logging_start hN hc dummy
    refine ⟨log, [], .inl ⟨?_, device, hL⟩⟩
    rintro (hpc | hpc) <;> cases hpc
  obtain ⟨hg, rfl⟩ := next_iff.1 hst
  obtain ⟨log, xs, ⟨hs, device, hL⟩ | ⟨hs, hB⟩⟩ := hs
  · cases hl : l.cancelsHandler with
    | false =>
      obtain ⟨log', xs', ⟨hs', hL'⟩ | ⟨hs', hF⟩⟩ := hL.step hN hs hg hl
      · exact ⟨log', xs', .inl ⟨hs', device, hL'⟩⟩
      · -- Only the flush leads here.
        have hpc : (s.step l).pc = .close := by
          cases hflush : l.isFlush with
          | false => exact absurd hs' (not_flushed_step hs hg hflush hl)
          | true =>
            cases l with
            | flush fuel => rfl
            | _ => cases hflush
        exact ⟨log', xs', .inr ⟨hs', hF.begun hpc⟩⟩
    | true =>
      cases l with
      | cancelFlush fuel content => exact ⟨log, xs, .inr ⟨.inl rfl, hL.cancelFlush hg⟩⟩
      | cancelClose => exact absurd (.inl hg.1) hs
      | _ => cases hl
  · obtain ⟨hs', hB'⟩ := hB.step hs hg
    exact ⟨log, xs, .inr ⟨hs', hB'⟩⟩

/-- What is in a log which has been closed, however the thread has ended. -/
theorem Run.disk_isPrefix {ls : List (Label h)} {s : State h} {content : Bytes}
    (hN : args.ringbufferSize ≠ 0) (hr : (taskSystem args env cancellable).Run ls s)
    (hdisk : s.disk = some content) :
    ∃ preamble xs, (.cancelProgram ∉ ls → xs = []) ∧ content <+: args.log preamble
      (savedRecords args.ringbufferSize args.ringbufferDisableOverrun (completed ls ++ xs)) := by
  obtain ⟨log, xs, ⟨-, device, hL⟩ | ⟨-, hB⟩⟩ := Run.begun hN hr
  · cases hL.disk.symm.trans hdisk
  · exact ⟨log.preamble, xs, hB.notCancelled, hB.disk content hdisk⟩

end RealtimeTests
