import RealtimeTests.Task.Run

/-!
# Periodic tasks

A periodic task sleeps until its next release time, which is advanced by the period
after each job: until `t_0`, plus the offset and a multiple of the period.

It leaves its loop at the end of the round in which it is stopped. The
steps of its thread until then are bounded by where it is in the round
(`Pc.remaining`), and so are the jobs that begin.

* `Run.released`: the times slept to;
* `Run.after_stop`: what happens after the stop;
* `Run.around_flush`: what has happened at the flush;
* `periodic_stop`: the accounting of the log of a periodic task.
-/

namespace RealtimeTests

open Lts

variable {h : Host} {args : TaskCreateArgs h} {env : TaskCreateEnv}
  {cancellable : CancellationPoints} {ls : List (Label h)} {s : State h} {l : Label h}

theorem Run.aperiodic_eq_zero (hap : args.aperiodicRelease = false)
    (hr : (taskSystem args env cancellable).Run ls s) : s.tau.aperiodic = 0 := by
  rw [(Run.coherent hr).aperiodic, TaskCreateArgs.result, hap]
  rfl

/-! ## Steps -/

/-- The steps of the thread of a periodic task, and of its stopper. -/
def Label.ofPeriodic : Label h → Bool
  | .enterRelease _ | .passPoint _ | .cancelRelease | .returnRelease | .clearInside
  | .cancelProgram | .cancelFlush _ _ | .cancelClose => false
  | _ => true

/-- A periodic task is never around `aperiodic_release`, nor is a cancellation pending. -/
theorem Coherent.ofPeriodic (hcoh : Coherent args s) (hap : s.tau.aperiodic = 0)
    (hg : Guard cancellable s l) : l.ofPeriodic = true := by
  cases l with
  | enterRelease ahead => exact absurd hap hg.2
  | passPoint last => exact absurd hap (hcoh.inside (.inl hg.1)).2
  | cancelRelease => exact absurd hap (hcoh.inside (.inl hg.1)).2
  | returnRelease => exact absurd hap (hcoh.inside (.inr (.inl hg))).2
  | clearInside => exact absurd hap (hcoh.inside (.inr (.inr hg))).2
  | cancelProgram => exact absurd hap (hcoh.pending hg.2.1).2
  | cancelFlush fuel content => exact absurd hap (hcoh.pending hg.2.1).2
  | cancelClose => exact absurd hap (hcoh.pending hg.2.1).2
  | _ => rfl

/-- So no others are taken in its runs. -/
theorem Run.ofPeriodic (hap : args.aperiodicRelease = false)
    (hr : (taskSystem args env cancellable).Run ls s) : ∀ l ∈ ls, l.ofPeriodic = true := by
  refine hr.invariant (P := fun ls _ => ∀ l ∈ ls, l.ofPeriodic = true)
    (fun _ _ _ hl => absurd hl List.not_mem_nil) fun ls s l s' hr hs hst => ?_
  obtain ⟨hg, -⟩ := next_iff.1 hst
  rw [List.forall_mem_append, List.forall_mem_singleton]
  exact ⟨hs, (Run.coherent hr).ofPeriodic (Run.aperiodic_eq_zero hap hr) hg⟩

/-- It is never cancelled in a job. -/
theorem Run.cancelProgram_notMem (hap : args.aperiodicRelease = false)
    (hr : (taskSystem args env cancellable).Run ls s) : .cancelProgram ∉ ls :=
  fun hmem => Bool.false_ne_true (Run.ofPeriodic hap hr _ hmem)

/-- Nor are its clean-up handlers cut short. -/
theorem Run.handlersComplete_of_periodic (hap : args.aperiodicRelease = false)
    (hr : (taskSystem args env cancellable).Run ls s) : HandlersComplete ls := by
  intro l hl
  have hperiodic := Run.ofPeriodic hap hr l hl
  cases l with
  | cancelFlush fuel content | cancelClose => cases hperiodic
  | _ => rfl

theorem pc_step_jobEnd (hap : s.tau.aperiodic = 0) (t : Option (Timespec h))
    (stats : Option (JobStatistics h)) : (s.step (.jobEnd t stats)).pc = .nextRelease := by
  simp [State.step, hap]

theorem pc_step_test (s : State h) : (s.step .test).pc = .head ∨ (s.step .test).pc = .flush :=
  ite_eq_or_eq _ _ _

theorem nextReleaseTime_step (hl : l ≠ .nextRelease) :
    (s.step l).tau.nextReleaseTime = s.tau.nextReleaseTime := by
  cases l with
  | nextRelease => exact absurd rfl hl
  | _ => simp [State.step]

/-! ## Release times -/

/-- The value of the `k`-th release time, counted from zero. -/
def releaseValue (args : TaskCreateArgs h) (k : ℕ) : ℤ :=
  args.t0.value + args.offset.value + k * args.period.value

theorem releaseValue_zero (args : TaskCreateArgs h) :
    releaseValue args 0 = args.t0.value + args.offset.value := by
  simp [releaseValue]

/-- The job has begun, and the next release time has not been computed. -/
def Pc.inRound : Pc → Bool
  | program | finishing | nextRelease => true
  | _ => false

/-- The release times of a periodic task: those slept to, and the next one, after `k` rounds. -/
structure Released (args : TaskCreateArgs h) (ls : List (Label h)) (s : State h) (k : ℕ) :
    Prop where
  begun : jobsBegun ls = k + if s.pc.inRound then 1 else 0
  length_sleeps : (sleeps ls).length = jobsBegun ls + if s.pc = .ready then 1 else 0
  next : s.tau.nextReleaseTime.Normalised ∧ s.tau.nextReleaseTime.value = releaseValue args k
  slept : ∀ j (hj : j < (sleeps ls).length),
    (sleeps ls)[j].Normalised ∧ (sleeps ls)[j].value = releaseValue args j

section Released

variable {k : ℕ} (hs : Released args ls s k)
include hs

/-- The thread sleeps until the next release time. -/
theorem Released.sleep {ret : ℤ} (hpc : s.pc = .head) :
    Released args (ls ++ [.sleep s.tau.nextReleaseTime ret])
      (s.step (.sleep s.tau.nextReleaseTime ret)) k := by
  have hjobs := hs.begun
  have hlen := hs.length_sleeps
  rw [hpc] at hjobs hlen
  -- At the head of the loop, there have been as many rounds as sleeps.
  have hk : k = (sleeps ls).length := by
    rw [hlen, hjobs]
    rfl
  refine ⟨by simpa [Label.isJobBegin, State.step, Pc.inRound] using hjobs,
    by simpa [Label.slept, Label.isJobBegin, State.step] using hlen, hs.next, fun j hj => ?_⟩
  simp only [sleeps_concat, Label.slept, Option.toList_some, List.length_append,
    List.length_singleton] at hj ⊢
  rcases Nat.lt_succ_iff_lt_or_eq.1 hj with hlt | rfl
  · rw [List.getElem_append_left hlt]
    exact hs.slept j hlt
  · rw [List.getElem_concat_length rfl, ← hk]
    exact hs.next

/-- A job begins. -/
theorem Released.jobBegin {t : Option (Timespec h)} (hpc : s.pc = .ready) :
    Released args (ls ++ [.jobBegin t]) (s.step (.jobBegin t)) k := by
  have hjobs := hs.begun
  have hlen := hs.length_sleeps
  rw [hpc] at hjobs hlen
  have hsleeps : sleeps (ls ++ [.jobBegin t]) = sleeps ls := by simp [Label.slept]
  refine ⟨?_, ?_, by simpa [State.step] using hs.next, ?_⟩
  · simpa [Label.isJobBegin, State.step, Pc.inRound] using hjobs
  · simpa [Label.slept, Label.isJobBegin, State.step] using hlen
  · rw [hsleeps]
    exact hs.slept

/-- The next release time is computed. -/
theorem Released.nextRelease (hpc : s.pc = .nextRelease) (hperiod : s.tau.period = args.period)
    (hnorm : args.period.Normalised) (hfit : FitsTimeT h (releaseValue args (jobsBegun ls))) :
    Released args (ls ++ [.nextRelease]) (s.step .nextRelease) (k + 1) := by
  have hjobs := hs.begun
  have hlen := hs.length_sleeps
  rw [hpc] at hjobs hlen
  have hsum : s.tau.nextReleaseTime.value + s.tau.period.value = releaseValue args (k + 1) := by
    rw [hs.next.2, hperiod, releaseValue, releaseValue]
    push_cast
    ring
  -- The sum fits, so that the increment is exact.
  have hadd := utilityTimeAdd_spec hs.next.1 (hperiod ▸ hnorm) (hsum ▸ hjobs ▸ hfit)
  have hsleeps : sleeps (ls ++ [.nextRelease]) = sleeps ls := by simp [Label.slept]
  rw [hsum] at hadd
  refine ⟨?_, ?_, hadd, ?_⟩
  · simpa [Label.isJobBegin, State.step, Pc.inRound] using hjobs
  · simpa [Label.slept, Label.isJobBegin, State.step] using hlen
  · rw [hsleeps]
    exact hs.slept

/-- A step which neither sleeps nor begins a job nor computes the next release time. -/
theorem Released.other (hcoh : Coherent args s) (hap : s.tau.aperiodic = 0)
    (hg : Guard cancellable s l) (hslept : l.slept = none) (hbegin : l.isJobBegin = false)
    (hnext : l ≠ .nextRelease) : Released args (ls ++ [l]) (s.step l) k := by
  obtain ⟨hround, hready⟩ : (s.step l).pc.inRound = s.pc.inRound ∧
      ((s.step l).pc = .ready ↔ s.pc = .ready) := by
    have hmove (pc pc' : Pc) (hpc : s.pc = pc) (hpc' : (s.step l).pc = pc')
        (h : pc'.inRound = pc.inRound ∧ (pc' = .ready ↔ pc = .ready)) :
        (s.step l).pc.inRound = s.pc.inRound ∧ ((s.step l).pc = .ready ↔ s.pc = .ready) := by
      rw [hpc, hpc']
      exact h
    have hperiodic := hcoh.ofPeriodic hap hg
    cases l with
    | stop | checkInside | wake ret | cancel => exact ⟨rfl, Iff.rfl⟩
    | programEnd => exact hmove .program .finishing hg rfl (by decide)
    | jobEnd t stats =>
      exact hmove .finishing .nextRelease hg.1 (pc_step_jobEnd hap t stats) (by decide)
    | test =>
      rcases pc_step_test s with hpc | hpc
      · exact hmove .test .head hg hpc (by decide)
      · exact hmove .test .flush hg hpc (by decide)
    | flush fuel => exact hmove .flush .close hg.1 rfl (by decide)
    | close closes => exact hmove .close .done hg rfl (by decide)
    | sleep t ret => cases hslept
    | jobBegin t => cases hbegin
    | nextRelease => exact absurd rfl hnext
    | _ => cases hperiodic
  have htime := nextReleaseTime_step (s := s) hnext
  have hsleeps : sleeps (ls ++ [l]) = sleeps ls := by simp [hslept]
  have hjobs : jobsBegun (ls ++ [l]) = jobsBegun ls := by simp [hbegin]
  refine ⟨?_, ?_, htime ▸ hs.next, ?_⟩
  · rw [hjobs, hround, hs.begun]
  · rw [hsleeps, hjobs, hs.length_sleeps]
    simp only [hready]
  · rw [hsleeps]
    exact hs.slept

/-- A step of a periodic task. -/
theorem Released.step (hcoh : Coherent args s) (hap : s.tau.aperiodic = 0)
    (hnorm : args.period.Normalised) (hg : Guard cancellable s l)
    (hfit : FitsTimeT h (releaseValue args (jobsBegun ls))) :
    ∃ k, Released args (ls ++ [l]) (s.step l) k := by
  cases l with
  | sleep t ret =>
    obtain ⟨hpc, -, rfl⟩ := hg
    exact ⟨k, hs.sleep hpc⟩
  | jobBegin t => exact ⟨k, hs.jobBegin hg⟩
  | nextRelease => exact ⟨k + 1, hs.nextRelease hg hcoh.period hnorm hfit⟩
  | _ => exact ⟨k, hs.other hcoh hap hg rfl rfl (by rintro ⟨⟩)⟩

end Released

/-- In every run of a periodic task, the times slept to are the release times, if the sums up to
    the number of jobs begun fit. -/
theorem Run.released (hap : args.aperiodicRelease = false) (ht0 : args.t0.Normalised)
    (hoffset : args.offset.Normalised) (hperiod : args.period.Normalised)
    (hr : (taskSystem args env cancellable).Run ls s)
    (hfits : ∀ k ≤ jobsBegun ls, FitsTimeT h (releaseValue args k)) :
    ∃ k, Released args ls s k := by
  refine hr.invariant (P := fun ls s =>
    (∀ k ≤ jobsBegun ls, FitsTimeT h (releaseValue args k)) → ∃ k, Released args ls s k)
    (fun s hs hfits => ?_) (fun ls s l s' hr hs hst hfits => ?_) hfits
  · obtain ⟨rc, tau, dummy, hc, rfl⟩ := hs
    obtain ⟨device, ringbuf, -, -, rfl⟩ := taskCreate_eq_some hc
    have hadd := utilityTimeAdd_spec ht0 hoffset (releaseValue_zero args ▸ hfits 0 le_rfl)
    rw [← releaseValue_zero] at hadd
    exact ⟨0, rfl, rfl, hadd, fun j hj => absurd hj (Nat.not_lt_zero j)⟩
  · obtain ⟨hg, rfl⟩ := next_iff.1 hst
    have hle : jobsBegun ls ≤ jobsBegun (ls ++ [l]) := by simp
    obtain ⟨k, hk⟩ := hs fun j hj => hfits j (hj.trans hle)
    exact hk.step (Run.coherent hr) (Run.aperiodic_eq_zero hap hr) hperiod hg (hfits _ hle)

/-! ## After the stop -/

/-- The number of steps of the thread of a periodic task until its end, if it is stopped. -/
def Pc.remaining : Pc → ℕ
  | head => 8
  | ready => 7
  | program => 6
  | finishing => 5
  | nextRelease => 4
  | test => 3
  | flush => 2
  | close => 1
  | _ => 0

/-- The number of jobs that begin until then. -/
def Pc.jobsRemaining : Pc → ℕ
  | head | ready => 1
  | _ => 0

/-- Every step of the thread is one of those remaining. -/
theorem remaining_step (hap : s.tau.aperiodic = 0) (hstop : s.tau.stopped ≠ 0)
    (hcoh : Coherent args s) (hg : Guard cancellable s l) :
    (if l.ofThread then 1 else 0) + (s.step l).pc.remaining = s.pc.remaining ∧
      (if l.isJobBegin then 1 else 0) + (s.step l).pc.jobsRemaining = s.pc.jobsRemaining := by
  have hmove (pc pc' : Pc) (hpc : s.pc = pc) (hpc' : (s.step l).pc = pc')
      (h : (if l.ofThread then 1 else 0) + pc'.remaining = pc.remaining ∧
        (if l.isJobBegin then 1 else 0) + pc'.jobsRemaining = pc.jobsRemaining) :
      (if l.ofThread then 1 else 0) + (s.step l).pc.remaining = s.pc.remaining ∧
        (if l.isJobBegin then 1 else 0) + (s.step l).pc.jobsRemaining = s.pc.jobsRemaining := by
    rw [hpc, hpc']
    exact h
  have hperiodic := hcoh.ofPeriodic hap hg
  cases l with
  | stop | checkInside | wake ret | cancel => exact ⟨Nat.zero_add _, Nat.zero_add _⟩
  | sleep t ret => exact hmove .head .ready hg.1 rfl ⟨rfl, rfl⟩
  | jobBegin t => exact hmove .ready .program hg rfl ⟨rfl, rfl⟩
  | programEnd => exact hmove .program .finishing hg rfl ⟨rfl, rfl⟩
  | jobEnd t stats =>
    exact hmove .finishing .nextRelease hg.1 (pc_step_jobEnd hap t stats) ⟨rfl, rfl⟩
  | nextRelease => exact hmove .nextRelease .test hg rfl ⟨rfl, rfl⟩
  | test =>
    -- It leaves the loop.
    have hpc : (s.step .test).pc = .flush := if_neg fun h => hstop h.2
    exact hmove .test .flush hg hpc ⟨rfl, rfl⟩
  | flush fuel => exact hmove .flush .close hg.1 rfl ⟨rfl, rfl⟩
  | close closes => exact hmove .close .done hg rfl ⟨rfl, rfl⟩
  | _ => cases hperiodic

theorem Pc.remaining_le (pc : Pc) : pc.remaining ≤ 8 ∧ pc.jobsRemaining ≤ 1 := by
  cases pc <;> decide

/-- A stop is not taken back. -/
theorem stopped_step (hstop : s.tau.stopped ≠ 0) : (s.step l).tau.stopped ≠ 0 := by
  cases l <;> simp [State.step, hstop]

/-- What has happened since the stop, and what is still to happen. -/
structure Stopped (args : TaskCreateArgs h) (ns : List (Label h)) (s : State h) : Prop where
  coherent : Coherent args s
  aperiodic : s.tau.aperiodic = 0
  stopped : s.tau.stopped ≠ 0
  steps : ns.countP Label.ofThread + s.pc.remaining ≤ 8
  jobs : jobsBegun ns + s.pc.jobsRemaining ≤ 1

theorem Stopped.step {ns : List (Label h)} (hs : Stopped args ns s)
    (hg : Guard cancellable s l) : Stopped args (ns ++ [l]) (s.step l) := by
  obtain ⟨hsteps, hjobs⟩ := remaining_step hs.aperiodic hs.stopped hs.coherent hg
  have := hs.steps
  have := hs.jobs
  refine ⟨hs.coherent.step hg, by rw [aperiodic_step, hs.aperiodic], stopped_step hs.stopped, ?_,
    ?_⟩
  · rw [List.countP_append, List.countP_singleton]
    omega
  · rw [jobsBegun_concat]
    omega

/-- After the stop, the thread takes at most eight steps, and at most one job begins. -/
theorem Run.after_stop (hap : args.aperiodicRelease = false) {ms ns : List (Label h)}
    (hr : (taskSystem args env cancellable).Run (ms ++ .stop :: ns) s) :
    ns.countP Label.ofThread ≤ 8 ∧ jobsBegun ns ≤ 1 := by
  have hs : Stopped args ns s := by
    refine hr.since (fun s s' hr hst => ?_) fun ns s l s' hs hst => ?_
    · obtain ⟨hg, rfl⟩ := next_iff.1 hst
      obtain ⟨hsteps, hjobs⟩ := s.pc.remaining_le
      exact ⟨(Run.coherent hr).step hg, by rw [aperiodic_step, Run.aperiodic_eq_zero hap hr],
        one_ne_zero, (Nat.zero_add _).le.trans hsteps, (Nat.zero_add _).le.trans hjobs⟩
    · obtain ⟨hg, rfl⟩ := next_iff.1 hst
      exact hs.step hg
  exact ⟨(Nat.le_add_right _ _).trans hs.steps, (Nat.le_add_right _ _).trans hs.jobs⟩

/-- Until its end, the thread of a periodic task can always take a step. -/
theorem Run.exists_step (hN : args.ringbufferSize ≠ 0) (hap : args.aperiodicRelease = false)
    (hr : (taskSystem args env cancellable).Run ls s) (hpc : s.pc ≠ .done) :
    ∃ l, l.ofThread = true ∧ Guard cancellable s l := by
  have hap' := Run.aperiodic_eq_zero hap hr
  cases hs : s.pc with
  | head => exact ⟨.sleep s.tau.nextReleaseTime 0, rfl, hs, hap', rfl⟩
  | ready => exact ⟨.jobBegin none, rfl, hs⟩
  | program => exact ⟨.programEnd, rfl, hs⟩
  | finishing => exact ⟨.jobEnd none _, rfl, hs, rfl⟩
  | nextRelease => exact ⟨.nextRelease, rfl, hs⟩
  | test => exact ⟨.test, rfl, hs⟩
  | flush =>
    obtain ⟨device, log, xs, -, ⟨-, hL⟩ | ⟨hf, -⟩⟩ :=
      Run.logged hN hr (Run.handlersComplete_of_periodic hap hr)
    · exact ⟨.flush _, rfl, hs, hL.logs.isSome_flush hL.statsRingbuf le_rfl⟩
    · rcases hf with hf | hf <;> cases hs.symm.trans hf
  | close => exact ⟨.close true, rfl, hs⟩
  | done => exact absurd hs hpc
  | waiting => exact absurd hap' ((Run.coherent hr).inside (.inl hs)).2
  | returning => exact absurd hap' ((Run.coherent hr).inside (.inr (.inl hs))).2
  | returned => exact absurd hap' ((Run.coherent hr).inside (.inr (.inr hs))).2

/-! ## The flush -/

/-- At the flush, all the jobs begun have completed, and no job begins afterwards. -/
theorem Run.around_flush (hN : args.ringbufferSize ≠ 0) (hap : args.aperiodicRelease = false)
    {ms ns : List (Label h)} {fuel : ℕ}
    (hr : (taskSystem args env cancellable).Run (ms ++ .flush fuel :: ns) s) :
    jobsBegun ms = (completed ms).length ∧ jobsBegun ns = 0 := by
  have hcomplete := Run.handlersComplete_of_periodic hap hr
  have hs : (jobsBegun ms = (completed ms).length) ∧ s.flushed ∧ jobsBegun ns = 0 := by
    refine hr.since (P := fun ns s => HandlersComplete ns →
      (jobsBegun ms = (completed ms).length) ∧ s.flushed ∧ jobsBegun ns = 0)
      (fun s s' hr hst _ => ?_) (fun ns s l s' hs hst hc => ?_)
      fun l hl => hcomplete l (List.mem_append_right _ (List.mem_cons_of_mem _ hl))
    · obtain ⟨hg, rfl⟩ := next_iff.1 hst
      refine ⟨?_, .inl rfl, rfl⟩
      obtain ⟨device, log, xs, -, ⟨-, hL⟩ | ⟨hf, -⟩⟩ :=
        Run.logged hN hr (Run.handlersComplete_of_periodic hap hr)
      · have hxs := hL.notInJob (by simp [State.inJob, hg.1]) (Run.cancelProgram_notMem hap hr)
        rw [hL.jobsBegun, hxs, List.append_nil]
      · rcases hf with hf | hf <;> cases hg.1.symm.trans hf
    · obtain ⟨hg, rfl⟩ := next_iff.1 hst
      obtain ⟨hc, hcl⟩ := handlersComplete_concat.1 hc
      obtain ⟨hcompleted, hflushed, hbegun⟩ := hs hc
      have hl : l.isJobBegin = false := by
        rcases close_or_quiet hflushed hg hcl with ⟨closes, rfl⟩ | hq
        · rfl
        · exact isJobBegin_of_quiet hq
      exact ⟨hcompleted, flushed_step hflushed hg hcl, by rw [jobsBegun_concat, hbegun, hl]; rfl⟩
  exact ⟨hs.1, hs.2.2⟩

/-- What is lost and what is saved add up to what was logged. -/
theorem JobstatsRingbuf.Logs.lostJobCount_add {log : JobstatsRingbuf h} {N : ULong h}
    {disableOverrun : ℤ} {xs : List (JobStatistics h)} (hl : log.Logs N disableOverrun xs)
    (hn : xs.length < 2 ^ h.longBits) :
    log.preamble.lostJobCount.toNat + (savedRecords N disableOverrun xs).length = xs.length := by
  rw [JobstatsRingbuf.preamble, hl.toNat_lostCount hn, savedRecords_of_lt hn, length_retained]
  omega

/-- Stopping a periodic task ends its stream within one job and loses nothing:

    * after the stop at most one job begins, and no job begins after the flush;
    * the flush is done once by the time the thread ends, which it does within eight steps after
      the stop, being able to take a step until then; it is done when all the jobs begun have
      stored their finish times;
    * the write count after the flush is the number of jobs begun, and so, if the log could be
      written, is the sum of the lost job count and the number of records in it. -/
theorem periodic_stop (hN : args.ringbufferSize ≠ 0) (hap : args.aperiodicRelease = false)
    (hr : (taskSystem args env cancellable).Run ls s) :
    (∀ ms ns, ls = ms ++ .stop :: ns → jobsBegun ns ≤ 1 ∧ ns.countP Label.ofThread ≤ 8) ∧
    (∀ ms fuel ns, ls = ms ++ .flush fuel :: ns →
      jobsBegun ms = (completed ms).length ∧ jobsBegun ns = 0) ∧
    (s.pc ≠ .done → ∃ l, l.ofThread = true ∧ Guard cancellable s l) ∧
    flushes ls = (if s.pc = .close ∨ s.pc = .done then 1 else 0) ∧
    (jobsBegun ls < 2 ^ h.longBits →
      (s.flushed → s.tau.writeCount.toNat = jobsBegun ls) ∧
      ∀ content, s.disk = some content → s.tau.failToCloseStatsLog = 0 →
        ∃ preamble records, content = args.log preamble records ∧
          preamble.writeCount.toNat = jobsBegun ls ∧
          preamble.lostJobCount.toNat + records.length = jobsBegun ls) := by
  have hc := Run.handlersComplete_of_periodic hap hr
  refine ⟨?_, ?_, Run.exists_step hN hap hr, Run.flushes_eq hr hc, fun hn => ⟨fun hs => ?_, ?_⟩⟩
  · rintro ms ns rfl
    exact (Run.after_stop hap hr).symm
  · rintro ms fuel ns rfl
    exact Run.around_flush hN hap hr
  · obtain ⟨device, log, xs, -, ⟨hf, -⟩ | ⟨-, hF⟩⟩ := Run.logged hN hr hc
    · exact absurd hs hf
    · rw [hF.jobsBegun] at hn ⊢
      rw [hF.info]
      exact hF.logs.toNat_writeCount hn
  · rintro content hdisk hfail
    obtain ⟨device, log, xs, -, hrec, -, -, rfl, hw⟩ := Run.disk hN hr hc hdisk
    rw [hrec.jobsBegun] at hn ⊢
    exact ⟨_, _, content_written_of_true (hw hfail), hrec.logs.toNat_writeCount hn,
      hrec.logs.lostJobCount_add hn⟩

/-- Two rounds of a task, which is stopped in the second job. -/
def twoJobs : List (Label .lp64) :=
  [.sleep ⟨9, 0⟩ 0, .jobBegin (some ⟨9, 0⟩), .programEnd,
    .jobEnd (some ⟨9, 5⟩) (some ⟨⟨9, 0⟩, ⟨9, 5⟩⟩), .nextRelease, .test,
    .sleep ⟨10, 0⟩ 0, .jobBegin (some ⟨10, 0⟩), .stop, .programEnd,
    .jobEnd (some ⟨10, 5⟩) (some ⟨⟨10, 0⟩, ⟨10, 5⟩⟩), .nextRelease, .test, .flush 1, .close true]

/-- With one slot, the first job is lost. -/
theorem periodic_stop_two_jobs :
    ∃ s content preamble records, (taskSystem (TaskCreateArgs.everySecond 1)
        (.succeeding fun _ => true) .none).Run twoJobs s ∧
      s.disk = some content ∧ content = (TaskCreateArgs.everySecond 1).log preamble records ∧
      preamble.lostJobCount.toNat + records.length = 2 := by
  have hr : (taskSystem (TaskCreateArgs.everySecond 1) (.succeeding fun _ => true) .none).Run
      twoJobs _ :=
    run_of_exec (newTask_mem_init .none rfl) rfl
  obtain ⟨-, -, -, -, hlog⟩ := periodic_stop (by decide) rfl hr
  obtain ⟨preamble, records, hcontent, -, hsum⟩ := (hlog (by decide)).2 _ rfl rfl
  exact ⟨_, _, preamble, records, hr, rfl, hcontent, hsum⟩

end RealtimeTests
