import RealtimeTests.Lts
import RealtimeTests.Task

/-!
# The thread of a task and its stopper

`task_start`, run by the thread of a task, and `task_stop`, called once by another
thread (the *stopper*), as a transition system of the two. The steps of the
thread are the parts of `task_start_periodic`, `task_start_aperiodic` and
`job_start` between which the stopper can step in, and the two clean-up handlers.

* The labels have what the environment answers (return values, times, whether the
  device works) and what is observed: the time slept to, and the statistics of a
  job as its `job_start` leaves them.
* Cancellation is deferred: `pthread_cancel` makes it pending, and it takes effect at
  the next cancellation point of the thread. There may be some in
  `aperiodic_release`, and, if the system has them (`CancellationPoints`), in the
  program of the job and in the handlers. These are run without being registered any
  more, so that a thread which is cancelled in one of them does not run it again. A
  thread is cancelled only once.

`Guard` tells when a step can be taken and `State.step` what it does.
-/

namespace RealtimeTests

variable {h : Host}

/-- Where the thread is. -/
inductive Pc
  /-- At the beginning of the loop. -/
  | head
  /-- In `aperiodic_release`, with a cancellation point ahead. -/
  | waiting
  /-- In `aperiodic_release`, past its cancellation points. -/
  | returning
  /-- After `aperiodic_release`. -/
  | returned
  /-- At the call of `job_start`. -/
  | ready
  /-- In the program of the job. -/
  | program
  /-- In `job_start`, after the program. -/
  | finishing
  /-- Before the next release time is computed. -/
  | nextRelease
  /-- At the condition of the loop. -/
  | test
  /-- At `flush_stats_ringbuf`. -/
  | flush
  /-- At `close_logging_file`. -/
  | close
  | done
  deriving DecidableEq, Repr

/-- Where else than in `aperiodic_release` the thread may have cancellation points. -/
structure CancellationPoints where
  /-- In the program of the job. -/
  program : Bool
  /-- In the calls of `fwrite` and `fclose` of the clean-up handlers. -/
  handlers : Bool
  deriving DecidableEq, Repr

/-- There are none. -/
def CancellationPoints.none : CancellationPoints := ⟨false, false⟩

/-- They are in the program of the job only. -/
def CancellationPoints.jobs : CancellationPoints := ⟨true, false⟩

/-- They may be anywhere. -/
def CancellationPoints.anywhere : CancellationPoints := ⟨true, true⟩

/-- Where the stopper is in `task_stop`. -/
inductive StopperPc
  | idle
  /-- At the condition of its loop. -/
  | check
  /-- In the loop, asleep. -/
  | asleep
  /-- At `pthread_cancel`. -/
  | cancel
  | finished
  deriving DecidableEq, Repr

/-- The steps of the thread and of the stopper. -/
inductive Label (h : Host)
  /-- `clock_nanosleep` until `t` returns `ret`. -/
  | sleep (t : Timespec h) (ret : ℤ)
  /-- The call of `aperiodic_release`, which may have a cancellation point ahead. -/
  | enterRelease (ahead : Bool)
  /-- A cancellation point in it is passed; it may be the last one. -/
  | passPoint (last : Bool)
  | cancelRelease
  | returnRelease
  /-- `tau->inside_aperiodic_release = 0`. -/
  | clearInside
  /-- `job_start` up to the program, with the clock giving `t`. -/
  | jobBegin (t : Option (Timespec h))
  | cancelProgram
  | programEnd
  /-- `job_start` from the end of the program on, with the clock giving `t`. It leaves the given
      statistics, if there is a ring buffer. -/
  | jobEnd (t : Option (Timespec h)) (stats : Option (JobStatistics h))
  | nextRelease
  | test
  | flush (fuel : ℕ)
  /-- The thread is cancelled in a call of `fwrite`, when the log has the given content. -/
  | cancelFlush (fuel : ℕ) (content : Bytes)
  | close (closes : Bool)
  /-- The thread is cancelled in `fclose`. -/
  | cancelClose
  /-- `tau->stopped = 1`. -/
  | stop
  | checkInside
  /-- `clock_nanosleep` of the stopper returns `ret`. -/
  | wake (ret : ℤ)
  | cancel
  deriving DecidableEq

/-- The step is one of the thread. -/
def Label.ofThread : Label h → Bool
  | .stop | .checkInside | .wake _ | .cancel => false
  | _ => true

/-- The thread is cancelled in a clean-up handler. -/
def Label.cancelsHandler : Label h → Bool
  | .cancelFlush _ _ | .cancelClose => true
  | _ => false

/-- The state of the two threads and of what they share. -/
structure State (h : Host) where
  tau : Task h
  pc : Pc
  /-- `rc` of `task_start`. -/
  rc : ℤ
  /-- `stats` of `job_start`. -/
  stats : StatsPtr
  /-- `dummy` of `job_start`. -/
  dummy : JobStatistics h
  /-- `rc` of `job_start`. -/
  jobRc : ℤ
  stopper : StopperPc
  cancelPending : Bool
  /-- The thread has been cancelled. -/
  killed : Bool
  /-- The log, once it is closed. -/
  disk : Option Bytes

namespace State

/-- The thread of a new task; `dummy` is not initialised. -/
def start (tau : Task h) (dummy : JobStatistics h) : State h where
  tau := tau
  pc := .head
  rc := 0
  stats := .dummy
  dummy := dummy
  jobRc := 0
  stopper := .idle
  cancelPending := false
  killed := false
  disk := none

/-- The statistics that `stats` points to, if there is a ring buffer. -/
def record (s : State h) : Option (JobStatistics h) :=
  s.tau.statsRingbuf.map fun log => log.deref s.stats s.dummy

/-- The beginning of `job_start`: where the statistics go. -/
def claim (s : State h) : State h :=
  match s.tau.statsRingbuf with
  | none => { s with stats := .dummy, jobRc := 0 }
  | some log =>
    { s with
      tau := { s.tau with statsRingbuf := some (jobStartClaim log).2 }
      stats := (jobStartClaim log).1
      jobRc := 0 }

/-- A call of `clock_gettime` in `job_start`, which gives `t` and stores it by `store`. There is
    none without a ring buffer. -/
def clock (s : State h) (t : Option (Timespec h)) (store : JobStatistics h → JobStatistics h) :
    State h :=
  match s.tau.statsRingbuf with
  | none => s
  | some log =>
    { s with
      tau := { s.tau with statsRingbuf := some (log.modify s.stats store) }
      dummy := if s.stats = .dummy then store s.dummy else s.dummy
      jobRc := s.jobRc - clockGettime t }

/-- What a step does. -/
def step (s : State h) : Label h → State h
  | .sleep _ ret => { s with pc := .ready, rc := s.rc - ret }
  | .enterRelease ahead =>
    { s with
      tau := { s.tau with insideAperiodicRelease := 1 }
      pc := if ahead then .waiting else .returning }
  | .passPoint last => { s with pc := if last then .returning else .waiting }
  | .cancelRelease => { s with pc := .flush, killed := true }
  | .returnRelease => { s with pc := .returned }
  | .clearInside => { s with tau := { s.tau with insideAperiodicRelease := 0 }, pc := .ready }
  | .jobBegin t => { s.claim.clock t (storeBegin t) with pc := .program }
  | .cancelProgram => { s with pc := .flush, killed := true }
  | .programEnd => { s with pc := .finishing }
  | .jobEnd t _ =>
    let s := s.clock t (storeEnd t)
    { s with rc := s.rc - s.jobRc, pc := if s.tau.aperiodic ≠ 0 then .test else .nextRelease }
  | .nextRelease =>
    { s with
      tau := { s.tau with nextReleaseTime := utilityTimeInc s.tau.nextReleaseTime s.tau.period }
      pc := .test }
  | .test => { s with pc := if s.rc = 0 ∧ s.tau.stopped = 0 then .head else .flush }
  | .flush fuel => { s with tau := (flushStatsRingbuf fuel s.tau).getD s.tau, pc := .close }
  | .cancelFlush fuel content =>
    { s with tau := (cutFlush fuel content s.tau).getD s.tau, pc := .close, killed := true }
  | .close closes =>
    let (tau, disk) := closeLoggingFile closes s.tau
    { s with
      tau := tau
      pc := .done
      -- A thread which was cancelled does not return from `task_start`.
      rc := if s.killed then s.rc else s.rc - tau.failToCloseStatsLog
      disk := disk }
  | .cancelClose => { s with pc := .done, killed := true }
  | .stop =>
    { s with
      tau := { s.tau with stopped := 1 }
      stopper := if s.tau.aperiodic ≠ 0 then .check else .finished }
  | .checkInside =>
    { s with stopper := if s.tau.insideAperiodicRelease ≠ 0 then .cancel else .asleep }
  | .wake ret => { s with stopper := if ret ≠ 0 then .cancel else .check }
  | .cancel => { s with stopper := .finished, cancelPending := true }

end State

/-- When a step can be taken. -/
def Guard (cancellable : CancellationPoints) (s : State h) : Label h → Prop
  | .sleep t _ => s.pc = .head ∧ s.tau.aperiodic = 0 ∧ t = s.tau.nextReleaseTime
  | .enterRelease _ => s.pc = .head ∧ s.tau.aperiodic ≠ 0
  | .passPoint _ => s.pc = .waiting ∧ s.cancelPending = false
  | .cancelRelease => s.pc = .waiting ∧ s.cancelPending = true
  | .returnRelease => s.pc = .returning
  | .clearInside => s.pc = .returned
  | .jobBegin _ => s.pc = .ready
  | .cancelProgram => s.pc = .program ∧ s.cancelPending = true ∧ cancellable.program = true
  | .programEnd => s.pc = .program
  | .jobEnd t stats => s.pc = .finishing ∧ stats = (s.clock t (storeEnd t)).record
  | .nextRelease => s.pc = .nextRelease
  | .test => s.pc = .test
  | .flush fuel => s.pc = .flush ∧ (flushStatsRingbuf fuel s.tau).isSome
  | .cancelFlush fuel content =>
    s.pc = .flush ∧ s.cancelPending = true ∧ s.killed = false ∧ cancellable.handlers = true ∧
      (cutFlush fuel content s.tau).isSome
  | .close _ => s.pc = .close
  | .cancelClose =>
    s.pc = .close ∧ s.cancelPending = true ∧ s.killed = false ∧ cancellable.handlers = true ∧
      s.tau.statsLog.isSome
  | .stop => s.stopper = .idle
  | .checkInside => s.stopper = .check
  | .wake _ => s.stopper = .asleep
  | .cancel => s.stopper = .cancel

instance (cancellable : CancellationPoints) (s : State h) :
    ∀ l, Decidable (Guard cancellable s l)
  | .sleep _ _ | .enterRelease _ | .passPoint _ | .cancelRelease | .cancelProgram | .jobEnd _ _
  | .flush _ | .cancelFlush _ _ | .cancelClose => inferInstanceAs (Decidable (_ ∧ _))
  | .returnRelease | .clearInside | .jobBegin _ | .programEnd | .nextRelease | .test | .close _
  | .stop | .checkInside | .wake _ | .cancel => inferInstanceAs (Decidable (_ = _))

/-- The system of the thread of a task created with the given arguments, and of its stopper. -/
def taskSystem (args : TaskCreateArgs h) (env : TaskCreateEnv)
    (cancellable : CancellationPoints) : Lts (State h) (Label h) where
  init := { s | ∃ rc tau dummy, taskCreate args env = (rc, some tau) ∧ s = .start tau dummy }
  next s l := if Guard cancellable s l then some (s.step l) else none

/-! ## What the steps leave as it is -/

namespace State

@[simp]
theorem claim_frame (s : State h) : s.claim.pc = s.pc ∧ s.claim.rc = s.rc ∧
    s.claim.stopper = s.stopper ∧ s.claim.cancelPending = s.cancelPending ∧
    s.claim.tau.aperiodic = s.tau.aperiodic ∧ s.claim.tau.stopped = s.tau.stopped ∧
    s.claim.tau.insideAperiodicRelease = s.tau.insideAperiodicRelease ∧
    s.claim.tau.period = s.tau.period ∧
    s.claim.tau.nextReleaseTime = s.tau.nextReleaseTime := by
  rw [claim]
  split <;> simp

@[simp]
theorem clock_frame (s : State h) (t : Option (Timespec h))
    (store : JobStatistics h → JobStatistics h) : (s.clock t store).pc = s.pc ∧
    (s.clock t store).rc = s.rc ∧ (s.clock t store).stopper = s.stopper ∧
    (s.clock t store).cancelPending = s.cancelPending ∧
    (s.clock t store).tau.aperiodic = s.tau.aperiodic ∧
    (s.clock t store).tau.stopped = s.tau.stopped ∧
    (s.clock t store).tau.insideAperiodicRelease = s.tau.insideAperiodicRelease ∧
    (s.clock t store).tau.period = s.tau.period ∧
    (s.clock t store).tau.nextReleaseTime = s.tau.nextReleaseTime := by
  rw [clock]
  split <;> simp

end State

@[simp]
theorem flushStatsRingbuf_frame (fuel : ℕ) (tau : Task h) :
    ((flushStatsRingbuf fuel tau).getD tau).aperiodic = tau.aperiodic ∧
    ((flushStatsRingbuf fuel tau).getD tau).stopped = tau.stopped ∧
    ((flushStatsRingbuf fuel tau).getD tau).insideAperiodicRelease = tau.insideAperiodicRelease ∧
    ((flushStatsRingbuf fuel tau).getD tau).period = tau.period ∧
    ((flushStatsRingbuf fuel tau).getD tau).nextReleaseTime = tau.nextReleaseTime := by
  obtain ⟨_, _, _, _, _, _, hflush⟩ := exists_flushStatsRingbuf_getD fuel tau
  simp [hflush]

@[simp]
theorem cutFlush_frame (fuel : ℕ) (content : Bytes) (tau : Task h) :
    ((cutFlush fuel content tau).getD tau).aperiodic = tau.aperiodic ∧
    ((cutFlush fuel content tau).getD tau).stopped = tau.stopped ∧
    ((cutFlush fuel content tau).getD tau).insideAperiodicRelease = tau.insideAperiodicRelease ∧
    ((cutFlush fuel content tau).getD tau).period = tau.period ∧
    ((cutFlush fuel content tau).getD tau).nextReleaseTime = tau.nextReleaseTime := by
  rw [cutFlush]
  split
  · split_ifs <;> simp
  · simp

@[simp]
theorem closeLoggingFile_frame (closes : Bool) (tau : Task h) :
    (closeLoggingFile closes tau).1.aperiodic = tau.aperiodic ∧
    (closeLoggingFile closes tau).1.stopped = tau.stopped ∧
    (closeLoggingFile closes tau).1.insideAperiodicRelease = tau.insideAperiodicRelease ∧
    (closeLoggingFile closes tau).1.period = tau.period ∧
    (closeLoggingFile closes tau).1.nextReleaseTime = tau.nextReleaseTime := by
  rw [closeLoggingFile]
  rcases tau.statsLog with _ | f <;> cases closes <;> simp

variable {args : TaskCreateArgs h} {env : TaskCreateEnv} {cancellable : CancellationPoints}

/-- The state that the system starts in, if the task is created. -/
def newTask (args : TaskCreateArgs h) (env : TaskCreateEnv) : Option (State h) :=
  (taskCreate args env).2.map fun tau => .start tau ⟨⟨0, 0⟩, ⟨0, 0⟩⟩

theorem newTask_mem_init (cancellable : CancellationPoints) {s : State h}
    (hs : newTask args env = some s) :
    s ∈ (taskSystem args env cancellable).init := by
  obtain ⟨tau, htau, rfl⟩ := Option.map_eq_some_iff.1 hs
  exact ⟨_, tau, _, Prod.ext rfl htau, rfl⟩

theorem next_iff {s s' : State h} {l : Label h} :
    (taskSystem args env cancellable).next s l = some s' ↔
      Guard cancellable s l ∧ s.step l = s' := by
  simp [taskSystem]

end RealtimeTests
