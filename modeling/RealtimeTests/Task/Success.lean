import RealtimeTests.Task.Periodic

/-!
# What a periodic task returns

`task_start` returns how many of its calls have failed, as a negative number: a
`clock_nanosleep` which returns an error number, a `clock_gettime` of a job, and what could not be
logged. It leaves its loop in the round in which a call fails.

* `Run.charged`: what is returned accounts for every call that has failed;
* `Run.succeeds`: when a periodic task returns zero, no call has failed, and its log is complete.
-/

namespace RealtimeTests

open Lts

variable {h : Host} {args : TaskCreateArgs h} {env : TaskCreateEnv}
  {cancellable : CancellationPoints} {ls : List (Label h)} {s : State h} {l : Label h}

/-- A call fails in the step. -/
def Label.failed : Label h → Bool
  | .sleep _ ret => ret ≠ 0
  | .jobBegin t => t.isNone
  | .jobEnd t _ => t.isNone
  | _ => false

/-- The value of `rc` that the calls before the clean-up leave. -/
def State.balance (s : State h) : ℤ :=
  if s.pc = .done then s.rc + s.tau.failToCloseStatsLog else s.rc

/-- Every call that has failed is accounted for: in `rc` of `task_start`, or in that of `job_start`
    during a job. -/
structure Charged (ls : List (Label h)) (s : State h) : Prop where
  killed : s.killed = false
  balance : s.balance ≤ 0
  jobRc : 0 ≤ s.jobRc
  failed : ls.any Label.failed = true → s.balance < 0 ∨ s.inJob ∧ 0 < s.jobRc

theorem State.balance_of_ne (hpc : s.pc ≠ .done) : s.balance = s.rc := if_neg hpc

theorem any_failed_concat : (ls ++ [l]).any Label.failed = (ls.any Label.failed || l.failed) := by
  rw [List.any_append, List.any_cons, List.any_nil, Bool.or_false]

section Steps

variable (hs : Charged ls s)
include hs

/-- A step without a call that could fail. -/
theorem Charged.other (hcoh : Coherent args s) (hap : s.tau.aperiodic = 0)
    (hg : Guard cancellable s l) (hfailed : l.failed = false) (hjob : l.isJobBegin = false)
    (hend : ∀ t stats, l ≠ .jobEnd t stats) (hclose : ∀ closes, l ≠ .close closes)
    (hsleep : ∀ t ret, l ≠ .sleep t ret) : Charged (ls ++ [l]) (s.step l) := by
  obtain ⟨hkilled, hbalance, hjobRc, hin⟩ : (s.step l).killed = s.killed ∧
      (s.step l).balance = s.balance ∧ (s.step l).jobRc = s.jobRc ∧
      (s.inJob → (s.step l).inJob) := by
    have hbalance (pc pc' : Pc) (hpc : s.pc = pc) (hpc' : (s.step l).pc = pc')
        (hne : pc ≠ .done ∧ pc' ≠ .done) (hrc : (s.step l).rc = s.rc) :
        (s.step l).balance = s.balance := by
      rw [State.balance_of_ne (hpc' ▸ hne.2), State.balance_of_ne (hpc ▸ hne.1), hrc]
    have hin (pc : Pc) (hpc : s.pc = pc) (hne : pc ∈ .flush :: Pc.outside) :
        s.inJob → (s.step l).inJob := fun hin => absurd hin (State.not_inJob (hpc ▸ hne))
    have hperiodic := hcoh.ofPeriodic hap hg
    cases l with
    | stop | checkInside | wake ret | cancel => exact ⟨rfl, rfl, rfl, id⟩
    | programEnd =>
      exact ⟨rfl, hbalance .program .finishing hg rfl (by decide) rfl, rfl,
        fun _ => .inr rfl⟩
    | nextRelease =>
      exact ⟨rfl, hbalance .nextRelease .test hg rfl (by decide) rfl, rfl,
        hin .nextRelease hg (by decide)⟩
    | test =>
      refine ⟨rfl, ?_, rfl, hin .test hg (by decide)⟩
      rcases pc_step_test s with hpc | hpc
      · exact hbalance .test .head hg hpc (by decide) rfl
      · exact hbalance .test .flush hg hpc (by decide) rfl
    | flush fuel =>
      exact ⟨rfl, hbalance .flush .close hg.1 rfl (by decide) rfl, rfl,
        hin .flush hg.1 (by decide)⟩
    | sleep t ret => exact absurd rfl (hsleep t ret)
    | jobBegin t => cases hjob
    | jobEnd t stats => exact absurd rfl (hend t stats)
    | close closes => exact absurd rfl (hclose closes)
    | _ => cases hperiodic
  refine ⟨hkilled.trans hs.killed, hbalance ▸ hs.balance, hjobRc ▸ hs.jobRc, fun hany => ?_⟩
  rw [any_failed_concat, hfailed, Bool.or_false] at hany
  rw [hbalance, hjobRc]
  exact (hs.failed hany).imp_right (.imp_left hin)

/-- Outside of a job, calls that have failed are in the balance. -/
theorem Charged.of_not_inJob (hin : ¬s.inJob) (hany : ls.any Label.failed = true) :
    s.balance < 0 :=
  (hs.failed hany).resolve_right fun h => hin h.1

/-- The thread sleeps. -/
theorem Charged.sleep {t : Timespec h} {ret : ℤ} (hret : 0 ≤ ret)
    (hg : Guard cancellable s (.sleep t ret)) :
    Charged (ls ++ [.sleep t ret]) (s.step (.sleep t ret)) := by
  have hpc : s.pc = .head := hg.1
  have hin : ¬s.inJob := by simp [State.inJob, hpc]
  have hold : s.balance = s.rc := State.balance_of_ne (by rw [hpc]; decide)
  have hnew : (s.step (.sleep t ret)).balance = s.rc - ret := rfl
  have hbalance := hs.balance
  refine ⟨hs.killed, by omega, hs.jobRc, fun hany => .inl ?_⟩
  rw [any_failed_concat, Bool.or_eq_true] at hany
  rcases hany with hany | hfailed
  · have := hs.of_not_inJob hin hany
    omega
  · have hne : ret ≠ 0 := by simpa [Label.failed] using hfailed
    omega

/-- A job begins. -/
theorem Charged.jobBegin {log : JobstatsRingbuf h} (hring : s.tau.statsRingbuf = some log)
    {t : Option (Timespec h)} (hg : Guard cancellable s (.jobBegin t)) :
    Charged (ls ++ [.jobBegin t]) (s.step (.jobBegin t)) := by
  have hpc : s.pc = .ready := hg
  have hin : ¬s.inJob := by simp [State.inJob, hpc]
  have hold : s.balance = s.rc := State.balance_of_ne (by rw [hpc]; decide)
  have hbalance := hs.balance
  have hclock : clockGettime t = if t.isSome then 0 else -1 := rfl
  rw [step_jobBegin hring]
  refine ⟨hs.killed, hold ▸ hbalance, ?_, fun hany => ?_⟩
  · dsimp only
    split_ifs at hclock <;> omega
  · rw [any_failed_concat, Bool.or_eq_true] at hany
    rcases hany with hany | hfailed
    · exact .inl (hold ▸ hs.of_not_inJob hin hany)
    · refine .inr ⟨.inl rfl, ?_⟩
      have hnone : t = none := by simpa [Label.failed] using hfailed
      rw [hnone]
      exact Int.one_pos

/-- A job ends. -/
theorem Charged.jobEnd {log : JobstatsRingbuf h} (hring : s.tau.statsRingbuf = some log)
    {t : Option (Timespec h)} {stats : Option (JobStatistics h)}
    (hg : Guard cancellable s (.jobEnd t stats)) :
    Charged (ls ++ [.jobEnd t stats]) (s.step (.jobEnd t stats)) := by
  have hpc : s.pc = .finishing := hg.1
  have hold : s.balance = s.rc := State.balance_of_ne (by rw [hpc]; decide)
  have hnew : (s.step (.jobEnd t stats)).balance = s.rc - (s.jobRc - clockGettime t) := by
    rw [step_jobEnd hring, State.balance_of_ne]
    dsimp only
    split_ifs <;> decide
  have hbalance := hs.balance
  have hjobRc := hs.jobRc
  have hclock : clockGettime t = if t.isSome then 0 else -1 := rfl
  have hrc : (s.step (.jobEnd t stats)).jobRc = s.jobRc - clockGettime t := by
    rw [step_jobEnd hring]
  have hkilled : (s.step (.jobEnd t stats)).killed = s.killed := by rw [step_jobEnd hring]
  refine ⟨hkilled.trans hs.killed, ?_, ?_, fun hany => .inl ?_⟩
  · split_ifs at hclock <;> omega
  · split_ifs at hclock <;> omega
  · rw [any_failed_concat, Bool.or_eq_true] at hany
    rcases hany with hany | hfailed
    · have := hs.failed hany
      split_ifs at hclock <;> omega
    · have hnone : t = none := by simpa [Label.failed] using hfailed
      rw [hnone] at hclock
      have hclock : clockGettime t = -1 := by rw [hnone]; exact hclock
      omega

/-- The log is closed. -/
theorem Charged.close {closes : Bool} (hg : Guard cancellable s (.close closes)) :
    Charged (ls ++ [.close closes]) (s.step (.close closes)) := by
  have hpc : s.pc = .close := hg
  have hin : ¬s.inJob := by simp [State.inJob, hpc]
  have hold : s.balance = s.rc := State.balance_of_ne (by rw [hpc]; decide)
  have hnew : (s.step (.close closes)).balance = s.rc := by
    have hkilled := hs.killed
    have hdone : (s.step (.close closes)).pc = .done := rfl
    rw [State.balance, if_pos hdone]
    simp [State.step, hkilled]
  refine ⟨hs.killed, by rw [hnew, ← hold]; exact hs.balance, hs.jobRc, fun hany => .inl ?_⟩
  rw [any_failed_concat] at hany
  rw [hnew, ← hold]
  exact hs.of_not_inJob hin (by simpa [Label.failed] using hany)

end Steps

theorem Charged.step (hs : Charged ls s) (hcoh : Coherent args s) (hap : s.tau.aperiodic = 0)
    (hring : ¬s.flushed → ∃ log, s.tau.statsRingbuf = some log)
    (hret : ∀ t ret, l = .sleep t ret → 0 ≤ ret) (hg : Guard cancellable s l) :
    Charged (ls ++ [l]) (s.step l) := by
  cases l with
  | sleep t ret => exact hs.sleep (hret t ret rfl) hg
  | jobBegin t =>
    obtain ⟨log, hlog⟩ := hring (by simp [State.flushed, show s.pc = .ready from hg])
    exact hs.jobBegin hlog hg
  | jobEnd t stats =>
    obtain ⟨log, hlog⟩ := hring (by simp [State.flushed, hg.1])
    exact hs.jobEnd hlog hg
  | close closes => exact hs.close hg
  | _ => exact hs.other hcoh hap hg rfl rfl (by simp) (by simp) (by simp)

/-- In every run of a periodic task, the calls that have failed are accounted for. -/
theorem Run.charged (hN : args.ringbufferSize ≠ 0) (hap : args.aperiodicRelease = false)
    (hr : (taskSystem args env cancellable).Run ls s)
    (hret : ∀ t ret, .sleep t ret ∈ ls → 0 ≤ ret) : Charged ls s := by
  refine hr.invariant (P := fun ls s => (∀ t ret, .sleep t ret ∈ ls → 0 ≤ ret) → Charged ls s)
    (fun s hs _ => ?_) (fun ls s l s' hr hs hst hret => ?_) hret
  · obtain ⟨rc, tau, dummy, -, rfl⟩ := hs
    exact ⟨rfl, le_rfl, le_rfl, nofun⟩
  · obtain ⟨hg, rfl⟩ := next_iff.1 hst
    refine (hs fun t ret hmem => hret t ret (List.mem_append_left _ hmem)).step (Run.coherent hr)
      (Run.aperiodic_eq_zero hap hr) (fun hf => ?_) (fun t ret hl => ?_) hg
    · obtain ⟨device, log, xs, -, ⟨-, hL⟩ | ⟨hs, -⟩⟩ :=
        Run.logged hN hr (Run.handlersComplete_of_periodic hap hr)
      · exact ⟨log, hL.statsRingbuf⟩
      · exact absurd hs hf
    · exact hret t ret (by simp [hl])

/-- When a periodic task returns zero, none of its calls has failed, and its log has been closed
    with the saved records of its jobs. -/
theorem Run.succeeds (hN : args.ringbufferSize ≠ 0) (hap : args.aperiodicRelease = false)
    (hr : (taskSystem args env cancellable).Run ls s) (hret : ∀ t ret, .sleep t ret ∈ ls → 0 ≤ ret)
    (hdone : s.pc = .done) (hrc : s.rc = 0) :
    ls.any Label.failed = false ∧ ∃ preamble, s.tau.toTaskInfo = args.taskInfo preamble ∧
      s.disk = some (args.log preamble
        (savedRecords args.ringbufferSize args.ringbufferDisableOverrun (completed ls))) := by
  obtain ⟨-, hbalance, -, hfailed⟩ := Run.charged hN hap hr hret
  rw [State.balance, if_pos hdone, hrc, zero_add] at hbalance hfailed
  obtain ⟨device, log, xs, -, ⟨hs, -⟩ | ⟨-, hF⟩⟩ :=
    Run.logged hN hr (Run.handlersComplete_of_periodic hap hr)
  · exact absurd (.inr hdone) hs
  obtain ⟨closes, -, hdisk, hfail⟩ := hF.closed hdone
  -- What could not be logged counts as well.
  have hzero : (written args device log (completed ls ++ xs)).1 = true ∧ closes = true := by
    rw [hfail] at hbalance
    split_ifs at hbalance with hw hc hc
    · exact ⟨hw, hc⟩
    all_goals exact absurd hbalance (by decide)
  obtain ⟨hw, rfl⟩ := hzero
  refine ⟨?_, log.preamble, hF.info, ?_⟩
  · rw [← Bool.not_eq_true]
    intro hany
    rcases hfailed hany with hneg | ⟨hin, -⟩
    · rw [hfail, if_pos hw] at hneg
      exact absurd hneg (by decide)
    · rcases hin with hpc | hpc <;> cases hpc.symm.trans hdone
  · rw [hdisk, if_pos rfl, content_written_of_true hw,
      hF.notCancelled (Run.cancelProgram_notMem hap hr), List.append_nil]

end RealtimeTests
