import RealtimeTests.Lts
import RealtimeTests.Task

/-!
# Launching the task of a program

`hrt_cbs.c` and `bwi-client_server/client.c`: the main thread starts a thread, waits for SIGTERM,
and stops the task that this thread has made, in the meantime, once it got SIGUSR1. The two
threads share the pointer to the task, which is `NULL` at first.

A step is one of a thread between two calls of the system, a signal sent to the process, or the
end of the process by `exit`. While a thread is in `exit` the other one goes on.
`LaunchState.applied` is what `task_stop` and `task_destroy` have been given.

When main takes SIGTERM only once the thread has returned from `task_create`, they are given the
task (`Launch.Run.used_after_create`). The order in which the two signals are sent is not enough
(`Launch.used_null`).
-/

namespace RealtimeTests

variable {h : Host}

/-- `struct periodic_task_thread_prms` of `hrt_cbs`. -/
structure PeriodicTaskThreadPrms (h : Host) where
  taskName : Bytes
  wcetMs : BitVec 32
  deadlineMs : BitVec 32
  periodMs : BitVec 32
  jobStatsOverhead : UtilityTime h
  taskOverhead : UtilityTime h
  ringbufSlotCount : ULong h

/-- `struct client_thread_prms` of `client`. -/
structure ClientThreadPrms (h : Host) where
  wcetMs : BitVec 32
  periodMs : BitVec 32
  offsetMs : BitVec 32
  jobStatsOverhead : UtilityTime h
  taskOverhead : UtilityTime h
  ringbufSlotCount : ULong h

/-- The two programs. -/
inductive CbsProgram (h : Host)
  | hrtCbs (prms : PeriodicTaskThreadPrms h)
  | client (prms : ClientThreadPrms h)

/-- An `int` of milliseconds. -/
def msTime (ms : BitVec 32) : UtilityTime h := toUtilityTime (ms.signExtend 64) .ms

/-- The first release: a second from now. -/
def firstRelease (tNow : Timespec h) : UtilityTime h := utilityTimeAdd tNow (toUtilityTime 1 .s)

namespace CbsProgram

/-- The arguments of `task_create`. -/
def createArgs (tNow : Timespec h) : CbsProgram h → TaskCreateArgs h
  | .hrtCbs prms =>
    { name := prms.taskName
      wcet := msTime prms.wcetMs
      period := msTime prms.periodMs
      deadline := msTime (if prms.deadlineMs = -1 then prms.periodMs else prms.deadlineMs)
      t0 := firstRelease tNow
      offset := msTime 0
      aperiodicRelease := false
      ringbufferSize := prms.ringbufSlotCount
      ringbufferDisableOverrun := 1
      jobStatisticsOverhead := prms.jobStatsOverhead
      finishToStartOverhead := prms.taskOverhead }
  | .client prms =>
    { name := [99, 108, 105, 101, 110, 116]
      wcet := msTime prms.wcetMs
      period := msTime prms.periodMs
      deadline := msTime prms.periodMs
      t0 := firstRelease tNow
      offset := msTime prms.offsetMs
      aperiodicRelease := false
      ringbufferSize := prms.ringbufSlotCount
      ringbufferDisableOverrun := 1
      jobStatisticsOverhead := prms.jobStatsOverhead
      finishToStartOverhead := prms.taskOverhead }

/-- The jobs of `client` may send SIGTERM to the main thread, and its main thread sends SIGUSR2 to
    the other one. -/
def isClient : CbsProgram h → Bool
  | .hrtCbs _ => false
  | .client _ => true

end CbsProgram

namespace Launch

/-- Where the main thread is. -/
inductive MainPc
  /-- Before SIGTERM and SIGUSR1 are blocked. -/
  | mask
  /-- At `pthread_create`. -/
  | create
  | sigwait
  /-- Before SIGTERM is unblocked. -/
  | unmask
  /-- At `task_stop`. -/
  | stop
  /-- At `pthread_kill`. -/
  | interrupt
  | join
  /-- At the check of the return value of the thread. -/
  | check
  /-- At `task_destroy`. -/
  | destroy
  | done
  /-- In `exit`. -/
  | exiting
  deriving DecidableEq, Repr

/-- Where the thread of the task is. -/
inductive ThreadPc (h : Host)
  /-- Before it is made. -/
  | none
  /-- Before it sets its return value. -/
  | start
  /-- Before it blocks all signals. -/
  | mask
  /-- At `sched_deadline_enter`. -/
  | enter
  | sigwait
  /-- At `clock_gettime`. -/
  | clock
  /-- At `task_create`. -/
  | create (tNow : Timespec h)
  /-- At `task_start`, or in it. -/
  | running
  /-- It has returned without a task. -/
  | failed
  /-- It has returned after `task_start`. -/
  | finished
  /-- In `exit`. -/
  | exiting
  deriving DecidableEq

/-- The thread has returned from `task_create`, which made the task. -/
def ThreadPc.created : ThreadPc h → Bool
  | running | finished => true
  | _ => false

/-- The main thread has taken SIGTERM. -/
def MainPc.stopping : MainPc → Bool
  | unmask | stop | interrupt | join | check | destroy | done => true
  | _ => false

/-- The steps. -/
inductive Label (h : Host)
  /-- SIGUSR1 is sent to the process. -/
  | sendUsr1
  /-- SIGTERM is sent to the process. -/
  | sendTerm
  | mainMask
  | pthreadCreate (ok : Bool)
  /-- `sigwait` takes the SIGTERM sent to the main thread, or the one sent to the process. -/
  | mainSigwait (directed : Bool)
  | mainUnmask
  | taskStop
  | interrupt
  | join (ok : Bool)
  | check
  | taskDestroy
  | threadStart
  | threadMask (ok : Bool)
  | schedDeadlineEnter (rc : ℤ)
  | threadSigwait
  | clockGettime (tNow : Option (Timespec h))
  | taskCreate (env : TaskCreateEnv)
  /-- A job of `client` sends SIGTERM to the main thread. -/
  | jobTerm
  /-- A job of `client` ends the process. -/
  | jobExit
  /-- `task_start` returns `rc`. -/
  | taskStart (rc : ℤ)
  /-- The end of `exit`. -/
  | exit

/-- The state of the process. -/
structure State (h : Host) where
  alive : Bool
  main : MainPc
  thread : ThreadPc h
  /-- `periodic_task` of `hrt_cbs`, `client_task` of `client`. -/
  taskPtr : Option (Task h)
  /-- `rc` of the thread. -/
  rc : ℤ
  /-- SIGUSR1 is blocked in all the threads. -/
  usr1Blocked : Bool
  termBlocked : Bool
  usr1Pending : Bool
  /-- The SIGTERM pending for the process. -/
  termPending : Bool
  /-- The SIGTERM pending for the main thread. -/
  termMainPending : Bool
  /-- SIGUSR1 has been sent. -/
  usr1Sent : Bool
  /-- The arguments of `task_stop` and of `task_destroy`, in order. -/
  applied : List (Option (Task h))

/-- At the beginning. -/
def State.start (h : Host) : State h where
  alive := true
  main := .mask
  thread := .none
  taskPtr := none
  rc := 0
  usr1Blocked := false
  termBlocked := false
  usr1Pending := false
  termPending := false
  termMainPending := false
  usr1Sent := false
  applied := []

/-- What a step does. A signal which is not blocked ends the process. -/
def State.step (program : CbsProgram h) (s : State h) : Label h → State h
  | .sendUsr1 => { s with usr1Sent := true, usr1Pending := true, alive := s.usr1Blocked }
  | .sendTerm => { s with termPending := true, alive := s.termBlocked }
  | .mainMask => { s with usr1Blocked := true, termBlocked := true, main := .create }
  | .pthreadCreate ok =>
    if ok then { s with main := .sigwait, thread := .start } else { s with main := .exiting }
  | .mainSigwait directed =>
    if directed then { s with termMainPending := false, main := .unmask }
    else { s with termPending := false, main := .unmask }
  | .mainUnmask =>
    { s with
      termBlocked := false
      main := .stop
      alive := !(s.termPending || s.termMainPending) }
  | .taskStop =>
    { s with
      applied := s.applied ++ [s.taskPtr]
      -- It writes to the task.
      alive := s.taskPtr.isSome
      main := if program.isClient then .interrupt else .join }
  | .interrupt => { s with main := .join }
  | .join ok => { s with main := if ok then .check else .exiting }
  | .check => { s with main := if s.rc ≠ 0 then .exiting else .destroy }
  | .taskDestroy => { s with applied := s.applied ++ [s.taskPtr], main := .done }
  | .threadStart => { s with rc := 1, thread := .mask }
  | .threadMask ok => { s with thread := if ok then .enter else .failed }
  | .schedDeadlineEnter rc => { s with thread := if rc = 0 then .sigwait else .failed }
  | .threadSigwait => { s with usr1Pending := false, thread := .clock }
  | .clockGettime none => { s with thread := .exiting }
  | .clockGettime (some tNow) => { s with thread := .create tNow }
  | .taskCreate env =>
    match s.thread with
    | .create tNow =>
      let (rc, tau) := taskCreate (program.createArgs tNow) env
      { s with taskPtr := tau, thread := if rc ≠ 0 then .exiting else .running }
    | _ => s
  | .jobTerm => { s with termMainPending := true, alive := s.termBlocked }
  | .jobExit => { s with thread := .exiting }
  | .taskStart rc => { s with rc := if rc ≠ 0 then s.rc else 0, thread := .finished }
  | .exit => { s with alive := false }

/-- When a step can be taken. SIGUSR1 is sent before SIGTERM. -/
def Guard (program : CbsProgram h) (s : State h) : Label h → Prop
  | .sendUsr1 => True
  | .sendTerm => s.usr1Sent = true
  | .mainMask => s.main = .mask
  | .pthreadCreate _ => s.main = .create
  | .mainSigwait directed =>
    s.main = .sigwait ∧ (if directed then s.termMainPending else s.termPending) = true
  | .mainUnmask => s.main = .unmask
  | .taskStop => s.main = .stop
  | .interrupt => s.main = .interrupt
  | .join ok => s.main = .join ∧ (ok = true → s.thread = .failed ∨ s.thread = .finished)
  | .check => s.main = .check
  | .taskDestroy => s.main = .destroy
  | .threadStart => s.thread = .start
  | .threadMask _ => s.thread = .mask
  | .schedDeadlineEnter _ => s.thread = .enter
  | .threadSigwait => s.thread = .sigwait ∧ s.usr1Pending = true
  | .clockGettime _ => s.thread = .clock
  | .taskCreate _ => ∃ tNow, s.thread = .create tNow
  | .jobTerm => s.thread = .running ∧ program.isClient = true
  | .jobExit => s.thread = .running ∧ program.isClient = true
  | .taskStart _ => s.thread = .running
  | .exit => s.main = .done ∨ s.main = .exiting ∨ s.thread = .exiting

instance (s : State h) : Decidable (∃ tNow, s.thread = .create tNow) :=
  match hs : s.thread with
  | .create tNow => isTrue ⟨tNow, rfl⟩
  | .none | .start | .mask | .enter | .sigwait | .clock | .running | .failed | .finished
  | .exiting => isFalse (by simp)

instance (program : CbsProgram h) (s : State h) : ∀ l, Decidable (Guard program s l)
  | .sendUsr1 => inferInstanceAs (Decidable True)
  | .mainSigwait _ | .threadSigwait | .jobTerm | .jobExit => inferInstanceAs (Decidable (_ ∧ _))
  | .join _ => inferInstanceAs (Decidable (_ ∧ (_ → _ ∨ _)))
  | .exit => inferInstanceAs (Decidable (_ ∨ _ ∨ _))
  | .taskCreate _ => inferInstanceAs (Decidable (∃ tNow, s.thread = .create tNow))
  | .sendTerm | .mainMask | .pthreadCreate _ | .mainUnmask | .taskStop | .interrupt | .check
  | .taskDestroy | .threadStart | .threadMask _ | .schedDeadlineEnter _ | .clockGettime _
  | .taskStart _ => inferInstanceAs (Decidable (_ = _))

/-- The process running a program. -/
def system (program : CbsProgram h) : Lts (State h) (Label h) where
  init := {.start h}
  next s l := if s.alive ∧ Guard program s l then some (s.step program l) else none

/-- SIGTERM is taken by the main thread only once the other one has made the task. -/
def TermAfterCreate (s : State h) : Label h → Prop
  | .mainSigwait _ => s.thread.created = true
  | _ => True

instance (s : State h) : ∀ l, Decidable (TermAfterCreate s l)
  | .mainSigwait _ => inferInstanceAs (Decidable (_ = _))
  | .sendUsr1 | .sendTerm | .mainMask | .pthreadCreate _ | .mainUnmask | .taskStop | .interrupt
  | .join _ | .check | .taskDestroy | .threadStart | .threadMask _ | .schedDeadlineEnter _
  | .threadSigwait | .clockGettime _ | .taskCreate _ | .jobTerm | .jobExit | .taskStart _
  | .exit => inferInstanceAs (Decidable True)

variable {program : CbsProgram h} {s s' : State h} {l : Label h} {ls : List (Label h)}

theorem next_iff : (system program).next s l = some s' ↔
    s.alive = true ∧ Guard program s l ∧ s.step program l = s' := by
  simp [system, and_assoc]

/-! ## The pointer to the task -/

/-- `p` is a task that a call of `task_create` has returned. -/
def Created (program : CbsProgram h) (ls : List (Label h)) (p : Option (Task h)) : Prop :=
  ∃ tNow env tau, .taskCreate env ∈ ls ∧ p = some tau ∧
    taskCreate (program.createArgs tNow) env = (0, some tau)

theorem Created.concat {p : Option (Task h)} (hp : Created program ls p) (l : Label h) :
    Created program (ls ++ [l]) p := by
  obtain ⟨tNow, env, tau, hmem, hp⟩ := hp
  exact ⟨tNow, env, tau, List.mem_append_left _ hmem, hp⟩

/-- When `task_create` succeeds, there is a task. -/
theorem taskCreate_zero {args : TaskCreateArgs h} {env : TaskCreateEnv}
    (hrc : (taskCreate args env).1 = 0) : ∃ tau, taskCreate args env = (0, some tau) := by
  rw [taskCreate] at hrc ⊢
  split_ifs at hrc ⊢
  any_goals cases hrc
  split at hrc
  · cases hrc
  · split at hrc
    · cases hrc
    · split at hrc
      · cases hrc
      · exact ⟨_, rfl⟩

/-- The thread has made the task, and may be in `exit` since. -/
def ThreadPc.past (pc : ThreadPc h) : Prop := pc.created = true ∨ pc = .exiting

/-- What holds of the pointer to the task: it is to the task when the thread has made it, when the
    main thread has taken SIGTERM, which is past the making, and whenever it is used. -/
structure Published (program : CbsProgram h) (ls : List (Label h)) (s : State h) : Prop where
  thread : s.thread.created = true → Created program ls s.taskPtr
  main : s.main.stopping = true → s.thread.past ∧ Created program ls s.taskPtr
  applied : ∀ p ∈ s.applied, Created program ls p

theorem published_start (program : CbsProgram h) : Published program [] (.start h) :=
  ⟨nofun, nofun, nofun⟩

/-- A step which neither sets nor uses the pointer, nor takes SIGTERM. -/
theorem Published.frame (hs : Published program ls s) (hptr : s'.taskPtr = s.taskPtr)
    (happlied : s'.applied = s.applied)
    (hthread : s'.thread.created = true → s.thread.created = true)
    (hmain : s'.main.stopping = true →
      s.main.stopping = true ∧ (s.thread.past → s'.thread.past)) :
    Published program (ls ++ [l]) s' where
  thread h := hptr ▸ (hs.thread (hthread h)).concat l
  main h :=
    have ⟨hpast, hcreated⟩ := hs.main (hmain h).1
    ⟨(hmain h).2 hpast, hptr ▸ hcreated.concat l⟩
  applied p hp := (hs.applied p (happlied ▸ hp)).concat l

/-- A step of the thread before it makes the task. -/
theorem Published.advance (hs : Published program ls s) (hpast : ¬s.thread.past)
    (hptr : s'.taskPtr = s.taskPtr) (happlied : s'.applied = s.applied) (hmain : s'.main = s.main)
    (hthread : s'.thread.created = false) : Published program (ls ++ [l]) s' :=
  hs.frame hptr happlied (fun h => absurd (hthread.symm.trans h) Bool.false_ne_true) fun h =>
    ⟨hmain ▸ h, fun hp => absurd hp hpast⟩

/-- A use of the pointer by the main thread. -/
theorem Published.use (hs : Published program ls s) (hstop : s.main.stopping = true)
    (hptr : s'.taskPtr = s.taskPtr) (happlied : s'.applied = s.applied ++ [s.taskPtr])
    (hthread : s'.thread = s.thread) : Published program (ls ++ [l]) s' where
  thread h := hptr ▸ (hs.thread (hthread ▸ h)).concat l
  main _ :=
    have ⟨hpast, hcreated⟩ := hs.main hstop
    ⟨hthread ▸ hpast, hptr ▸ hcreated.concat l⟩
  applied p hp := by
    rw [happlied, List.mem_append, List.mem_singleton] at hp
    rcases hp with hp | rfl
    · exact (hs.applied p hp).concat l
    · exact (hs.main hstop).2.concat l

/-- The making of the task. -/
theorem Published.create (hs : Published program ls s) {tNow : Timespec h}
    (hpc : s.thread = .create tNow) (env : TaskCreateEnv) :
    Published program (ls ++ [.taskCreate env]) (s.step program (.taskCreate env)) := by
  have happlied : ∀ p ∈ s.applied, Created program (ls ++ [.taskCreate env]) p := fun p hp =>
    (hs.applied p hp).concat _
  -- The main thread has not taken SIGTERM, since the task is not made.
  have hmain : s.main.stopping ≠ true := fun hstop => by
    rcases (hs.main hstop).1 with h | h
    · rw [hpc] at h
      cases h
    · rw [hpc] at h
      cases h
  simp only [State.step, hpc]
  by_cases hrc : (taskCreate (program.createArgs tNow) env).1 = 0
  · obtain ⟨tau, htau⟩ := taskCreate_zero hrc
    rw [htau]
    exact ⟨fun _ => ⟨tNow, env, tau, by simp, rfl, htau⟩, fun h => absurd h hmain, happlied⟩
  · rw [if_pos hrc]
    exact ⟨nofun, fun h => absurd h hmain, happlied⟩

/-- The step lemma. -/
theorem Published.step (hs : Published program ls s) (hg : Guard program s l)
    (hc : TermAfterCreate s l) : Published program (ls ++ [l]) (s.step program l) := by
  cases l with
  | mainSigwait directed =>
    have hcreated : s.thread.created = true := hc
    have hptr := hs.thread hcreated
    cases directed <;>
      exact ⟨fun _ => hptr.concat _, fun _ => ⟨.inl hcreated, hptr.concat _⟩,
        fun p hp => (hs.applied p hp).concat _⟩
  | taskStop =>
    have hpc : s.main = .stop := hg
    exact hs.use (by rw [hpc]; rfl) rfl rfl rfl
  | taskDestroy =>
    have hpc : s.main = .destroy := hg
    exact hs.use (by rw [hpc]; rfl) rfl rfl rfl
  | taskCreate env =>
    obtain ⟨tNow, hpc⟩ : ∃ tNow, s.thread = .create tNow := hg
    exact hs.create hpc env
  | sendUsr1 | sendTerm | jobTerm | exit => exact hs.frame rfl rfl id fun h => ⟨h, id⟩
  | mainMask => exact hs.frame rfl rfl id nofun
  | pthreadCreate ok =>
    cases ok
    · exact hs.frame rfl rfl id nofun
    · exact hs.frame rfl rfl nofun nofun
  | mainUnmask | interrupt =>
    have hpc : s.main.stopping = true := by rw [show s.main = _ from hg]; rfl
    exact hs.frame rfl rfl id fun _ => ⟨hpc, id⟩
  | check =>
    have hpc : s.main.stopping = true := by rw [show s.main = _ from hg]; rfl
    exact hs.frame rfl rfl id fun _ => ⟨hpc, id⟩
  | join ok =>
    have hpc : s.main.stopping = true := by rw [show s.main = _ from hg.1]; rfl
    exact hs.frame rfl rfl id fun _ => ⟨hpc, id⟩
  | threadStart =>
    have hpc : s.thread = .start := hg
    exact hs.advance (by simp [hpc, ThreadPc.past, ThreadPc.created]) rfl rfl rfl rfl
  | threadMask ok =>
    have hpc : s.thread = .mask := hg
    exact hs.advance (by simp [hpc, ThreadPc.past, ThreadPc.created]) rfl rfl rfl
      (by cases ok <;> rfl)
  | schedDeadlineEnter rc =>
    have hpc : s.thread = .enter := hg
    refine hs.advance (by simp [hpc, ThreadPc.past, ThreadPc.created]) rfl rfl rfl ?_
    simp only [State.step]
    split_ifs <;> rfl
  | threadSigwait =>
    have hpc : s.thread = .sigwait := hg.1
    exact hs.advance (by simp [hpc, ThreadPc.past, ThreadPc.created]) rfl rfl rfl rfl
  | clockGettime tNow =>
    have hpc : s.thread = .clock := hg
    cases tNow <;>
      exact hs.advance (by simp [hpc, ThreadPc.past, ThreadPc.created]) rfl rfl rfl rfl
  | jobExit => exact hs.frame rfl rfl nofun fun h => ⟨h, fun _ => .inr rfl⟩
  | taskStart rc =>
    have hpc : s.thread = .running := hg
    exact hs.frame rfl rfl (fun _ => by rw [hpc]; rfl) fun h => ⟨h, fun _ => .inl rfl⟩

/-- In every run in which the main thread takes SIGTERM only once the other one has returned from
    `task_create`, `task_stop` and `task_destroy` are given the task that it made. -/
theorem Run.used_after_create (hr : ((system program).guard TermAfterCreate).Run ls s) :
    ∀ p ∈ s.applied, Created program ls p := by
  have hinv : Published program ls s := by
    refine hr.invariant (fun s hs => ?_) fun ls s l s' _ hs hst => ?_
    · obtain rfl : s = .start h := hs
      exact published_start program
    · obtain ⟨hc, hst⟩ := Lts.guard_next_iff.1 hst
      obtain ⟨-, hg, rfl⟩ := next_iff.1 hst
      exact hs.step hg hc
  exact hinv.applied

/-- A task of a millisecond a second. -/
def onceASecond : CbsProgram .lp64 :=
  .hrtCbs ⟨[97], 1, -1, 1000, ⟨0, 0⟩, ⟨0, 0⟩, 2⟩

/-- The steps up to the end of `task_create`. -/
def untilCreated : List (Label .lp64) :=
  [.mainMask, .pthreadCreate true, .threadStart, .threadMask true, .schedDeadlineEnter 0,
    .sendUsr1, .threadSigwait, .clockGettime (some ⟨5, 0⟩),
    .taskCreate (.succeeding fun _ => true)]

/-- SIGTERM is sent and taken after `task_create`. -/
theorem Run.used_after_create_once :
    ∃ s : State .lp64, s.applied.length = 1 ∧ ∀ p ∈ s.applied, Created onceASecond
      (untilCreated ++ [.sendTerm, .mainSigwait false, .mainUnmask, .taskStop]) p := by
  obtain ⟨s, hs, hlen⟩ : ∃ s, ((system onceASecond).guard TermAfterCreate).exec (.start .lp64)
      (untilCreated ++ [.sendTerm, .mainSigwait false, .mainUnmask, .taskStop]) = some s ∧
      s.applied.length = 1 := Option.map_eq_some_iff.1 rfl
  exact ⟨s, hlen, Run.used_after_create (Lts.run_of_exec rfl hs)⟩

/-- The client, at the same pace. -/
def clientOnceASecond : CbsProgram .lp64 := .client ⟨1, 1000, 0, ⟨0, 0⟩, ⟨0, 0⟩, 2⟩

/-- SIGTERM may be sent after SIGUSR1, and be taken before the thread has made the task: then
    `task_stop` is given `NULL`. So it is when the thread cannot enter `SCHED_DEADLINE`. -/
theorem used_null :
    (∃ s, (system onceASecond).Run [.mainMask, .pthreadCreate true, .sendUsr1, .sendTerm,
      .mainSigwait false, .mainUnmask, .taskStop] s ∧ none ∈ s.applied) ∧
    ∃ s, (system clientOnceASecond).Run [.mainMask, .pthreadCreate true, .threadStart,
      .threadMask true, .schedDeadlineEnter (-1), .sendUsr1, .sendTerm, .mainSigwait false,
      .mainUnmask, .taskStop] s ∧ none ∈ s.applied :=
  ⟨⟨_, Lts.run_of_exec rfl rfl, List.mem_singleton_self _⟩,
    ⟨_, Lts.run_of_exec rfl rfl, List.mem_singleton_self _⟩⟩

end Launch

end RealtimeTests
