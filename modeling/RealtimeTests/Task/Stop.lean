import RealtimeTests.Task.Run

/-!
# Stopping an aperiodic task

`task_stop` waits until the thread of an aperiodic task is in `aperiodic_release`, and
then cancels it there. This goes wrong in two ways.

* When the stop is requested while a job is running, the thread leaves its loop without
  entering `aperiodic_release` again, and the stopper waits for ever
  (`State.stranded`). It does not happen as long as `task_stop` is called, and sees the
  flag, around `aperiodic_release` (`StopSafe`).
* When the cancellation is requested while the flag is still set but there is no
  cancellation point left in `aperiodic_release`, the thread is cancelled in its job. It
  does not happen as long as the cancellation has another cancellation point to take
  effect at before that (`CancelSafe`).
-/

namespace RealtimeTests

open Lts

variable {h : Host} {args : TaskCreateArgs h} {env : TaskCreateEnv}
  {cancellable : CancellationPoints} {ls : List (Label h)} {s : State h} {l : Label h}

theorem Run.aperiodic_ne_zero (hap : args.aperiodicRelease = true)
    (hr : (taskSystem args env cancellable).Run ls s) : s.tau.aperiodic ≠ 0 := by
  rw [(Run.coherent hr).aperiodic, TaskCreateArgs.result, if_pos hap]
  exact one_ne_zero

/-! ## The stopper -/

namespace State

/-- The stopper is in its loop. -/
def stopperWaits (s : State h) : Prop := s.stopper = .check ∨ s.stopper = .asleep

/-- The thread is at the beginning of its loop, or has the flag set. -/
def aroundRelease (s : State h) : Prop :=
  s.pc = .head ∨ s.pc = .waiting ∨ s.pc = .returning ∨ s.pc = .returned

/-- The thread has left its loop. -/
def leftLoop (s : State h) : Prop := s.pc = .flush ∨ s.pc = .close ∨ s.pc = .done

/-- The stopper waits for a flag which is not set, and which nobody will set. -/
def stranded (s : State h) : Prop :=
  s.stopperWaits ∧ s.leftLoop ∧ s.tau.insideAperiodicRelease = 0

instance (s : State h) : Decidable s.stopperWaits := inferInstanceAs (Decidable (_ ∨ _))

instance (s : State h) : Decidable s.aroundRelease := inferInstanceAs (Decidable (_ ∨ _))

instance (s : State h) : Decidable s.leftLoop := inferInstanceAs (Decidable (_ ∨ _))

instance (s : State h) : Decidable s.stranded := inferInstanceAs (Decidable (_ ∧ _))

end State

theorem State.stopperWaits.ne (hw : s.stopperWaits) :
    s.stopper ≠ .idle ∧ s.stopper ≠ .finished := by
  rcases hw with h | h <;> rw [h] <;> decide

/-- The stop is requested around `aperiodic_release`, and the flag is not cleared before the
    stopper has seen it. -/
def StopSafe (s : State h) : Label h → Prop
  | .stop => s.aroundRelease
  | .clearInside => ¬s.stopperWaits
  | _ => True

instance (s : State h) : ∀ l, Decidable (StopSafe s l)
  | .stop => inferInstanceAs (Decidable s.aroundRelease)
  | .clearInside => inferInstanceAs (Decidable ¬s.stopperWaits)
  | .sleep _ _ | .enterRelease _ | .passPoint _ | .cancelRelease | .returnRelease | .jobBegin _
  | .cancelProgram | .programEnd | .jobEnd _ _ | .nextRelease | .test | .flush _
  | .cancelFlush _ _ | .close _ | .cancelClose | .checkInside | .wake _ | .cancel => isTrue trivial

/-- In a safe step, the stopper does not come to wait for a thread which is not around
    `aperiodic_release`. -/
theorem aroundRelease_step (hs : Coherent args s) (hg : Guard cancellable s l)
    (hsafe : StopSafe s l) (hw : s.stopperWaits → s.aroundRelease) :
    (s.step l).stopperWaits → (s.step l).aroundRelease := by
  intro hw'
  -- The thread does not change where the stopper is, which waits before, then.
  have hwaits (hl : l.ofThread = true) : s.stopperWaits := by
    rwa [State.stopperWaits, (stopper_step_of_ofThread hl).1] at hw'
  have helsewhere (pc : Pc) (hl : l.ofThread = true) (hpc : s.pc = pc)
      (hne : ¬(pc = .head ∨ pc = .waiting ∨ pc = .returning ∨ pc = .returned)) :
      (s.step l).aroundRelease := by
    have haround := hw (hwaits hl)
    rw [State.aroundRelease, hpc] at haround
    exact absurd haround hne
  cases l with
  | stop => exact hsafe
  | checkInside => exact hw (.inl hg)
  | wake ret => exact hw (.inr hg)
  | cancel => rcases hw' with h | h <;> cases h
  | sleep t ret =>
    -- Only the thread of an aperiodic task is waited for.
    have hne := (hwaits rfl).ne
    exact absurd hg.2.1 (hs.of_stopper hne.1 hne.2).2.1
  | enterRelease ahead =>
    cases ahead with
    | true => exact .inr (.inl rfl)
    | false => exact .inr (.inr (.inl rfl))
  | passPoint last =>
    cases last with
    | true => exact .inr (.inr (.inl rfl))
    | false => exact .inr (.inl rfl)
  | cancelRelease => exact absurd (hs.pending hg.2).1 (hwaits rfl).ne.2
  | returnRelease => exact .inr (.inr (.inr rfl))
  | clearInside => exact absurd hw' hsafe
  | jobBegin t => exact helsewhere .ready rfl hg (by decide)
  | programEnd => exact helsewhere .program rfl hg (by decide)
  | nextRelease => exact helsewhere .nextRelease rfl hg (by decide)
  | test => exact helsewhere .test rfl hg (by decide)
  | close closes => exact helsewhere .close rfl hg (by decide)
  | cancelProgram => exact helsewhere .program rfl hg.1 (by decide)
  | jobEnd t stats => exact helsewhere .finishing rfl hg.1 (by decide)
  | flush fuel => exact helsewhere .flush rfl hg.1 (by decide)
  | cancelFlush fuel content => exact helsewhere .flush rfl hg.1 (by decide)
  | cancelClose => exact helsewhere .close rfl hg.1 (by decide)

/-- In a run of safe steps, the stopper only waits for a thread around `aperiodic_release`. -/
theorem Run.aroundRelease (hr : ((taskSystem args env cancellable).guard StopSafe).Run ls s) :
    s.stopperWaits → s.aroundRelease := by
  refine hr.invariant (P := fun _ s => s.stopperWaits → s.aroundRelease) (fun s hs => ?_)
    fun ls s l s' hr hs hst => ?_
  · obtain ⟨rc, tau, dummy, -, rfl⟩ := hs
    exact fun _ => .inl rfl
  · obtain ⟨hsafe, hst⟩ := guard_next_iff.1 hst
    obtain ⟨hg, rfl⟩ := next_iff.1 hst
    exact aroundRelease_step (Run.coherent hr.of_guard) hg hsafe hs

/-- In a run of safe steps, the stopper is never left waiting for the flag. -/
theorem not_stranded (hr : ((taskSystem args env cancellable).guard StopSafe).Run ls s) :
    ¬s.stranded := by
  rintro ⟨hw, hleft, -⟩
  rcases Run.aroundRelease hr hw with hpc | hpc | hpc | hpc <;>
    rw [State.leftLoop, hpc] at hleft <;> rcases hleft with hleft | hleft | hleft <;> cases hleft

/-- A stop while the thread waits for an event: the thread is cancelled there. -/
theorem not_stranded_waiting :
    ∃ s, ((taskSystem (TaskCreateArgs.onEvents 2) (.succeeding fun _ => true) .jobs).guard
        StopSafe).Run
      [.enterRelease true, .stop, .checkInside, .cancel, .cancelRelease] s ∧
      s.killed = true ∧ ¬s.stranded := by
  have hr : ((taskSystem (TaskCreateArgs.onEvents 2) (.succeeding fun _ => true) .jobs).guard
      StopSafe).Run [.enterRelease true, .stop, .checkInside, .cancel, .cancelRelease] _ :=
    run_of_exec (newTask_mem_init .jobs rfl) rfl
  exact ⟨_, hr, rfl, not_stranded hr⟩

/-- A stop while a job is running: the stopper is stranded. -/
theorem stranded_in_job :
    ∃ s, (taskSystem (TaskCreateArgs.onEvents 2) (.succeeding fun _ => true) .jobs).Run
      [.enterRelease true, .passPoint true, .returnRelease, .clearInside, .jobBegin (some ⟨9, 0⟩),
        .stop, .checkInside, .programEnd, .jobEnd (some ⟨10, 0⟩) (some ⟨⟨9, 0⟩, ⟨10, 0⟩⟩), .test]
      s ∧ s.stranded :=
  ⟨_, run_of_exec (newTask_mem_init .jobs rfl) rfl, by decide⟩

/-! ## The cancellation -/

/-- The stopper is not preempted by the thread: this only steps when `task_stop` has not been
    called, sleeps, or has returned. -/
def Priority (s : State h) (l : Label h) : Prop :=
  l.ofThread = true → s.stopper ≠ .check ∧ s.stopper ≠ .cancel

instance (s : State h) (l : Label h) : Decidable (Priority s l) :=
  inferInstanceAs (Decidable (_ → _))

namespace State

/-- The thread is past the cancellation points of `aperiodic_release`, and the program of the job
    is not over. -/
def committed (s : State h) : Prop :=
  s.pc = .returning ∨ s.pc = .returned ∨ s.pc = .ready ∨ s.pc = .program

instance (s : State h) : Decidable s.committed := inferInstanceAs (Decidable (_ ∨ _))

/-- `aperiodic_release` has returned, and the program of the job is not over. -/
def released (s : State h) : Prop := s.pc = .returned ∨ s.pc = .ready ∨ s.pc = .program

instance (s : State h) : Decidable s.released := inferInstanceAs (Decidable (_ ∨ _))

end State

/-- If the program of the job has cancellation points, the cancellation is not requested when the
    thread has no other one ahead, nor is `aperiodic_release` called without one while the
    cancellation is pending. -/
def CancelSafe (cancellable : CancellationPoints) (s : State h) : Label h → Prop
  | .cancel => cancellable.program = true → ¬s.committed
  | .enterRelease false => cancellable.program = true → s.cancelPending = false
  | _ => True

instance (s : State h) : ∀ l, Decidable (CancelSafe cancellable s l)
  | .cancel => inferInstanceAs (Decidable (_ → ¬_))
  | .enterRelease false => inferInstanceAs (Decidable (_ → _ = _))
  | .enterRelease true | .sleep _ _ | .passPoint _ | .cancelRelease | .returnRelease
  | .clearInside | .jobBegin _ | .cancelProgram | .programEnd | .jobEnd _ _ | .nextRelease | .test
  | .flush _ | .cancelFlush _ _ | .close _ | .cancelClose | .stop | .checkInside
  | .wake _ => isTrue trivial

/-- In a safe step, the thread does not come to the program of the job with the cancellation
    pending. -/
theorem not_committed_step (hg : Guard cancellable s l) (hsafe : CancelSafe cancellable s l)
    (hs : cancellable.program = true → s.cancelPending = true → ¬s.committed)
    (hap : s.tau.aperiodic ≠ 0) :
    cancellable.program = true → (s.step l).cancelPending = true → ¬(s.step l).committed := by
  intro hc hp
  cases l with
  | cancel => exact hsafe hc
  | stop | checkInside | wake ret => exact hs hc hp
  | sleep t ret => exact absurd hg.2.1 hap
  | enterRelease ahead =>
    cases ahead with
    | true => rintro (h | h | h | h) <;> cases h
    | false => cases (hsafe hc).symm.trans hp
  | passPoint last => cases hg.2.symm.trans hp
  -- The thread has been past the cancellation points before.
  | returnRelease => exact absurd (.inl hg) (hs hc hp)
  | clearInside => exact absurd (.inr (.inl hg)) (hs hc hp)
  | jobBegin t =>
    rw [(stopper_step_of_ofThread rfl).2.1] at hp
    exact absurd (.inr (.inr (.inl hg))) (hs hc hp)
  | jobEnd t stats =>
    rintro (h | h | h | h) <;> simp only [State.step] at h <;> split_ifs at h
  | test => rintro (h | h | h | h) <;> simp only [State.step] at h <;> split_ifs at h
  | _ => rintro (h | h | h | h) <;> cases h

/-- So it is not cancelled there. -/
theorem ne_cancelProgram (hg : Guard cancellable s l)
    (hs : cancellable.program = true → s.cancelPending = true → ¬s.committed) :
    l ≠ .cancelProgram := by
  rintro rfl
  exact hs hg.2.2 hg.2.1 (.inr (.inr (.inr hg.1)))

/-- Other steps of the thread of an aperiodic task do not lead from a return of `aperiodic_release`
    to the end of the program, nor there. -/
theorem released_step (hg : Guard cancellable s l) (hap : s.tau.aperiodic ≠ 0)
    (hl : l ≠ .cancelProgram) (hreturn : l ≠ .returnRelease) (hend : l ≠ .programEnd) :
    (s.step l).released ↔ s.released := by
  have hout (pc pc' : Pc) (hpc : s.pc = pc) (hpc' : (s.step l).pc = pc')
      (hne : ¬(pc = .returned ∨ pc = .ready ∨ pc = .program) ∧
        ¬(pc' = .returned ∨ pc' = .ready ∨ pc' = .program)) :
      (s.step l).released ↔ s.released := by
    rw [State.released, State.released, hpc, hpc']
    exact iff_of_false hne.2 hne.1
  cases l with
  | stop | checkInside | wake ret | cancel => exact Iff.rfl
  | sleep t ret => exact absurd hg.2.1 hap
  | enterRelease ahead =>
    cases ahead with
    | true => exact hout .head .waiting hg.1 rfl (by decide)
    | false => exact hout .head .returning hg.1 rfl (by decide)
  | passPoint last =>
    cases last with
    | true => exact hout .waiting .returning hg.1 rfl (by decide)
    | false => exact hout .waiting .waiting hg.1 rfl (by decide)
  | cancelRelease => exact hout .waiting .flush hg.1 rfl (by decide)
  | returnRelease => exact absurd rfl hreturn
  | clearInside => exact iff_of_true (.inr (.inl rfl)) (.inl hg)
  | jobBegin t => exact iff_of_true (.inr (.inr rfl)) (.inr (.inl hg))
  | cancelProgram => exact absurd rfl hl
  | programEnd => exact absurd rfl hend
  | jobEnd t stats =>
    rcases ite_eq_or_eq ((s.clock t (storeEnd t)).tau.aperiodic ≠ 0) Pc.test .nextRelease with h | h
    · exact hout .finishing .test hg.1 h (by decide)
    · exact hout .finishing .nextRelease hg.1 h (by decide)
  | nextRelease => exact hout .nextRelease .test hg rfl (by decide)
  | test =>
    rcases ite_eq_or_eq (s.rc = 0 ∧ s.tau.stopped = 0) Pc.head .flush with h | h
    · exact hout .test .head hg h (by decide)
    · exact hout .test .flush hg h (by decide)
  | flush fuel => exact hout .flush .close hg.1 rfl (by decide)
  | cancelFlush fuel content => exact hout .flush .close hg.1 rfl (by decide)
  | close closes => exact hout .close .done hg rfl (by decide)
  | cancelClose => exact hout .close .done hg.1 rfl (by decide)

/-- Every return of `aperiodic_release` but the last is followed by a run of the program. -/
theorem count_returnRelease_step (hg : Guard cancellable s l) (hl : l ≠ .cancelProgram)
    (hap : s.tau.aperiodic ≠ 0)
    (hs : ls.count .returnRelease = ls.count .programEnd + if s.released then 1 else 0) :
    (ls ++ [l]).count .returnRelease =
      (ls ++ [l]).count .programEnd + if (s.step l).released then 1 else 0 := by
  rw [List.count_append, List.count_append, hs, List.count_singleton, List.count_singleton]
  by_cases hreturn : l = .returnRelease
  · subst hreturn
    have hpc : s.pc = .returning := hg
    have hnot : ¬s.released := by
      rw [State.released, hpc]
      decide
    have hreleased : (s.step .returnRelease).released := .inl rfl
    rw [if_neg hnot, if_pos hreleased]
    rfl
  by_cases hend : l = .programEnd
  · subst hend
    have hreleased : s.released := .inr (.inr hg)
    have hnot : ¬(s.step .programEnd).released := by rintro (h | h | h) <;> cases h
    rw [if_pos hreleased, if_neg hnot]
    rfl
  · have hreturn' : (l == .returnRelease) = false := by simpa using hreturn
    have hend' : (l == .programEnd) = false := by simpa using hend
    rw [hreturn', hend']
    simp only [released_step hg hap hl hreturn hend, Bool.false_eq_true, if_false, Nat.add_zero]

/-- In a run of safe steps, the thread does not come to the program of the job with the cancellation
    pending. -/
theorem Run.not_committed (hap : args.aperiodicRelease = true)
    (hr : ((taskSystem args env cancellable).guard (CancelSafe cancellable)).Run ls s) :
    cancellable.program = true → s.cancelPending = true → ¬s.committed := by
  refine hr.invariant
    (P := fun _ s => cancellable.program = true → s.cancelPending = true → ¬s.committed)
    (fun s hs => ?_) fun ls s l s' hr hs hst => ?_
  · obtain ⟨rc, tau, dummy, -, rfl⟩ := hs
    exact fun _ h0 => by cases h0
  · obtain ⟨hsafe, hst⟩ := guard_next_iff.1 hst
    obtain ⟨hg, rfl⟩ := next_iff.1 hst
    exact not_committed_step hg hsafe hs (Run.aperiodic_ne_zero hap hr.of_guard)

/-- In a run of safe steps, the thread is not cancelled in a job, and the program is run once for
    every return of `aperiodic_release`. -/
theorem Run.count_returnRelease (hap : args.aperiodicRelease = true)
    (hr : ((taskSystem args env cancellable).guard (CancelSafe cancellable)).Run ls s) :
    .cancelProgram ∉ ls ∧
      ls.count .returnRelease = ls.count .programEnd + if s.released then 1 else 0 := by
  refine hr.invariant (P := fun ls s => .cancelProgram ∉ ls ∧
    ls.count .returnRelease = ls.count .programEnd + if s.released then 1 else 0)
    (fun s hs => ?_) fun ls s l s' hr hs hst => ?_
  · obtain ⟨rc, tau, dummy, -, rfl⟩ := hs
    exact ⟨List.not_mem_nil, rfl⟩
  · obtain ⟨hsafe, hst⟩ := guard_next_iff.1 hst
    obtain ⟨hg, rfl⟩ := next_iff.1 hst
    have hne := ne_cancelProgram hg (Run.not_committed hap hr)
    refine ⟨fun hmem => ?_, count_returnRelease_step hg hne
      (Run.aperiodic_ne_zero hap hr.of_guard) hs.2⟩
    rw [List.mem_append, List.mem_singleton] at hmem
    exact hmem.elim hs.1 fun heq => hne heq.symm

/-- In a run of safe steps where the stopper is not preempted, the thread of an aperiodic task is
    never cancelled in a job: every return of `aperiodic_release` is followed by one complete run
    of the program, and the log only has statistics of completed jobs. It may be cut at its end if
    a clean-up handler is. -/
theorem aperiodic_not_cancelled_in_job (hap : args.aperiodicRelease = true)
    (hr : (((taskSystem args env cancellable).guard Priority).guard
      (CancelSafe cancellable)).Run ls s) :
    .cancelProgram ∉ ls ∧
    ls.count .returnRelease = ls.count .programEnd + (if s.released then 1 else 0) ∧
    (args.ringbufferSize ≠ 0 → ∀ content, s.disk = some content →
      (∃ preamble records, content <+: args.log preamble records ∧
        ∀ x ∈ records, x ∈ completed ls) ∧
      (HandlersComplete ls → content = args.header ∨
        ∃ preamble records, content = args.log preamble records ∧
          ∀ x ∈ records, x ∈ completed ls)) := by
  obtain ⟨hnot, hcount⟩ := Run.count_returnRelease hap hr.of_guard_guard
  refine ⟨hnot, hcount, fun hN content hdisk => ⟨?_, fun hhandlers => ?_⟩⟩
  · obtain ⟨preamble, xs, hxs, hprefix⟩ := Run.disk_isPrefix hN hr.of_guard.of_guard hdisk
    rw [hxs hnot, List.append_nil] at hprefix
    exact ⟨preamble, _, hprefix, fun x => mem_of_mem_savedRecords⟩
  · obtain ⟨device, log, xs, -, -, -, hxs, rfl, -⟩ := Run.disk hN hr.of_guard.of_guard hhandlers
      hdisk
    rw [hxs hnot, List.append_nil]
    refine (content_written args device log (completed ls)).imp id fun ⟨k, hk⟩ => ?_
    exact ⟨_, _, hk, fun x hx => mem_of_mem_savedRecords (List.mem_of_mem_take hx)⟩

/-- A stop while the thread waits for the second event. -/
theorem aperiodic_not_cancelled_in_job_waiting :
    ∃ s, (((taskSystem (TaskCreateArgs.onEvents 2) (.succeeding fun _ => true) .jobs).guard
        Priority).guard (CancelSafe .jobs)).Run
      [.enterRelease true, .passPoint true, .returnRelease, .clearInside,
        .jobBegin (some ⟨9, 0⟩), .programEnd, .jobEnd (some ⟨10, 0⟩) (some ⟨⟨9, 0⟩, ⟨10, 0⟩⟩),
        .test, .enterRelease true, .stop, .checkInside, .cancel, .cancelRelease, .flush 2,
        .close true] s ∧
      ∃ content, s.disk = some content ∧ (content = (TaskCreateArgs.onEvents 2).header ∨
        ∃ preamble records, content = (TaskCreateArgs.onEvents 2).log preamble records ∧
          ∀ x ∈ records, x ∈ [(⟨⟨9, 0⟩, ⟨10, 0⟩⟩ : JobStatistics .lp64)]) := by
  have hr : (((taskSystem (TaskCreateArgs.onEvents 2) (.succeeding fun _ => true) .jobs).guard
      Priority).guard (CancelSafe .jobs)).Run
      [.enterRelease true, .passPoint true, .returnRelease, .clearInside,
        .jobBegin (some ⟨9, 0⟩), .programEnd, .jobEnd (some ⟨10, 0⟩) (some ⟨⟨9, 0⟩, ⟨10, 0⟩⟩),
        .test, .enterRelease true, .stop, .checkInside, .cancel, .cancelRelease, .flush 2,
        .close true] _ := run_of_exec (newTask_mem_init .jobs rfl) rfl
  have hlog := (aperiodic_not_cancelled_in_job rfl hr).2.2 (by decide) _ rfl
  exact ⟨_, hr, _, rfl, hlog.2 (Run.handlersComplete rfl hr.of_guard.of_guard)⟩

/-- A stop when `aperiodic_release` is about to return: the thread is cancelled in the program of
    the job, and its log has a record without a finish time. -/
theorem cancelled_in_job :
    ∃ s, ((taskSystem (TaskCreateArgs.onEvents 2) (.succeeding fun _ => true) .jobs).guard
        Priority).Run
      [.enterRelease true, .passPoint true, .stop, .checkInside, .cancel, .returnRelease,
        .clearInside, .jobBegin (some ⟨9, 0⟩), .cancelProgram, .flush 2, .close true] s ∧
      s.disk = some ((TaskCreateArgs.onEvents 2).log ⟨1, 0, 1⟩ [⟨⟨9, 0⟩, ⟨0, 0⟩⟩]) :=
  ⟨_, run_of_exec (newTask_mem_init .jobs rfl) rfl, rfl⟩

end RealtimeTests
