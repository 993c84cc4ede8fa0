import RealtimeTests.Launch
import RealtimeTests.Server
import RealtimeTests.Task.Periodic

/-!
# Response times of a client

`bwi-client_server/client.c`: with `-r 0`, the client turns tracing on before its task is started,
and `client_prog`, the program of the task, turns it off at the end of the first job whose
response time is greater than the limit. The number of this job is printed in the end. Its main
function waits for SIGTERM; if no job has turned tracing off by then, it does so itself, and then
it stops the task.

The release times are kept twice: by the task, which sleeps until them, and by `client_prog`, which
measures from them. A run of the client, without the steps of main, is a run of its task in which
every job ends with `client_prog`.

* `clientProg`: the program of a job;
* `system`: the client as a transition system;
* `Run.paced`: what the task sleeps until;
* `Run.goesBy_progTime`, `Run.compared_value`: what `client_prog` measures from, in every run. It
  does not take the offset into account;
* `measuresResponseTimes_iff`: what is measured is the response time exactly when there is no
  offset.
-/

namespace RealtimeTests

variable {h : Host}

/-- What `clock_gettime` gives for `CLOCK_MONOTONIC`. -/
structure ClockTime (h : Host) where
  time : Timespec h
  normalised : time.Normalised
  nonneg : 0 ≤ time.tvSec.toInt
  deriving DecidableEq

namespace Client

/-! ## The program of a job -/

/-- `struct client_prog_prms`, but for what is handed on to the calls only. -/
structure ProgPrms (h : Host) where
  request : Bytes
  serverPid : ℤ
  nthIteration : ℤ
  stoppingIteration : ℤ
  ftraceIteration : ℤ
  ftraceIterationLimit : ℤ
  nextRelease : UtilityTime h
  ftraceResponseTime : UtilityTime h
  period : UtilityTime h
  ftraceResponseTimeHit : ℤ

/-- What the calls of `client_prog` answer: whether BWI and its revocation succeed, what
    is sent and received, and the time. -/
structure ProgAnswers (h : Host) where
  bwi : Bool
  revocation : Bool
  send : Returned ℕ
  recv : Returned Bytes
  now : ClockTime h
  deriving DecidableEq

/-- What `client_prog` does for others to see: what it writes to `ftrace_file`, the response time
    that it compares with the limit, what it logs, and whether it sends SIGTERM. -/
structure ProgOutput (h : Host) where
  ftrace : List Char
  compared : Option (UtilityTime h)
  log : List String
  sigterm : Bool
  deriving DecidableEq

/-- `send_recv`: nothing is received when the request cannot be sent. -/
def sendRecv (send : Returned ℕ) (recv : Returned Bytes) : Returned ℕ × Returned Bytes :=
  match send with
  | .ok n => (.ok n, recv)
  | r => (r, .ok [])

/-- What is logged about the request, unless the program exits. -/
def logSent (request : Bytes) : Returned ℕ → Option (List String)
  | .error => none
  | .eintr => some []
  | .ok n => some (if n ≠ request.length then ["Sent request is truncated"] else [])

/-- What is logged about the response, unless the program exits. -/
def logReceived (request : Bytes) : Returned Bytes → Option (List String)
  | .error => none
  | .eintr => some []
  | .ok response => some (
      if response.length ≠ request.length then ["Server response is corrupted"]
      else if request ≠ response then ["Request & server response do not match"]
      else [])

/-- What stopping the tracing results in. -/
structure Stopping (h : Host) where
  ftrace : List Char
  compared : Option (UtilityTime h)
  prms : ProgPrms h

/-- `client_prog` where it stops tracing when too large a response time is detected. -/
def stopTracing (now : Timespec h) (prms : ProgPrms h) : Stopping h :=
  if prms.ftraceIteration = 0 ∧ prms.ftraceResponseTimeHit = 0 then
    let t := utilityTimeSub now prms.nextRelease
    let prms' := { prms with nextRelease := utilityTimeInc prms.nextRelease prms.period }
    if utilityTimeGt t prms.ftraceResponseTime then
      ⟨['0'], some t, { prms' with ftraceResponseTimeHit := prms.nthIteration }⟩
    else ⟨[], some t, prms'⟩
  else ⟨[], none, prms⟩

/-- `INT_MAX`. -/
def intMax : ℤ := 2147483647

/-- `client_prog`, unless the process exits with an error, or the number of the job is not
    an `int`. -/
def clientProg (prms : ProgPrms h) (answers : ProgAnswers h) :
    Option (ProgOutput h × ProgPrms h) :=
  if intMax ≤ prms.nthIteration then none
  else
    let prms := { prms with nthIteration := prms.nthIteration + 1 }
    let start := if prms.nthIteration = prms.ftraceIteration then ['1'] else []
    if prms.serverPid ≠ -1 ∧ ¬(answers.bwi ∧ answers.revocation) then none
    else
      let r := sendRecv answers.send answers.recv
      let limit := if prms.nthIteration = prms.ftraceIterationLimit then ['0'] else []
      let stopping := stopTracing answers.now.time prms
      match logSent prms.request r.1, logReceived prms.request r.2 with
      | some sent, some received =>
        some (⟨start ++ limit ++ stopping.ftrace, stopping.compared, sent ++ received,
          prms.nthIteration = prms.stoppingIteration⟩, stopping.prms)
      | _, _ => none

/-! ## The client -/

/-- The arguments of the client with `-r 0`, as its main function has checked them. -/
structure Args (h : Host) extends ClientThreadPrms h where
  request : Bytes
  /-- -1 without `-b`. -/
  serverPid : ℤ
  stoppingIteration : ℤ
  limitMs : BitVec 32
  periodMs_pos : 0 < periodMs.toInt
  offsetMs_nonneg : 0 ≤ offsetMs.toInt
  limitMs_pos : 0 < limitMs.toInt

namespace Args

/-- The arguments of `task_create`. -/
def create (args : Args h) (tNow : ClockTime h) : TaskCreateArgs h :=
  (CbsProgram.client args.toClientThreadPrms).createArgs tNow.time

/-- `client_prog_args`, once the thread has set the next release. -/
def prms (args : Args h) (tNow : ClockTime h) : ProgPrms h where
  request := args.request
  serverPid := args.serverPid
  nthIteration := 0
  stoppingIteration := args.stoppingIteration
  ftraceIteration := 0
  ftraceIterationLimit := -1
  nextRelease := firstRelease tNow.time
  ftraceResponseTime := msTime args.limitMs
  period := msTime args.periodMs
  ftraceResponseTimeHit := 0

/-- The limit on the response times. -/
def limit (args : Args h) : UtilityTime h := msTime args.limitMs

end Args

/-- Where main is. -/
inductive MainPc
  /-- It waits for SIGTERM. -/
  | sigwait
  /-- It is about to stop the tracing. -/
  | fprintf
  /-- At `task_stop`, or past it. -/
  | taskStop
  deriving DecidableEq

/-- The steps: those of the task and of its stopper, but that a job ends with `client_prog`, and
    those of main before it stops the task. -/
inductive Label (h : Host)
  | task (l : RealtimeTests.Label h)
  | prog (answers : ProgAnswers h) (output : ProgOutput h)
  /-- SIGTERM is taken, and main finds whether it has to stop the tracing. -/
  | sigterm (stops : Bool)
  /-- It does so. -/
  | fprintf
  deriving DecidableEq

/-- The step of the task. -/
def Label.toTask : Label h → Option (RealtimeTests.Label h)
  | .task l => some l
  | .prog _ _ => some .programEnd
  | .sigterm _ | .fprintf => none

/-- What is written to `ftrace_file`. -/
def Label.written : Label h → List Char
  | .prog _ output => output.ftrace
  | .fprintf => ['0']
  | .task _ | .sigterm _ => []

/-- The task, the data of `client_prog`, what has been written to `ftrace_file`, and where main
    is. -/
structure State (h : Host) where
  task : RealtimeTests.State h
  prms : ProgPrms h
  ftrace : List Char
  main : MainPc

/-- The client, from the time at which its thread creates the task. There are cancellation
    points in `client_prog`. -/
def system (args : Args h) (tNow : ClockTime h) (env : TaskCreateEnv) :
    Lts (State h) (Label h) where
  init := { s | s.task ∈ (taskSystem (args.create tNow) env .anywhere).init ∧
    s.prms = args.prms tNow ∧ s.ftrace = ['1'] ∧ s.main = .sigwait }
  next s
    | .task l =>
      if l = .programEnd then none
      else if l = .stop ∧ s.main ≠ .taskStop then none
      else ((taskSystem (args.create tNow) env .anywhere).next s.task l).map
        fun task => { s with task := task }
    | .prog answers output =>
      match clientProg s.prms answers with
      | none => none
      | some (output', prms) =>
        if output' ≠ output then none
        else ((taskSystem (args.create tNow) env .anywhere).next s.task .programEnd).map
          fun task => ⟨task, prms, s.ftrace ++ output.ftrace, s.main⟩
    | .sigterm stops =>
      if s.main = .sigwait ∧
          stops = decide (s.prms.ftraceIteration = 0 ∧ s.prms.ftraceResponseTimeHit = 0) then
        some { s with main := if stops then .fprintf else .taskStop }
      else none
    | .fprintf =>
      if s.main = .fprintf then some { s with ftrace := s.ftrace ++ ['0'], main := .taskStop }
      else none

/-- What main prints in the end. -/
def jobLine (hit : ℤ) : String := if hit ≠ 0 then "Job #" ++ toString hit ++ "\n" else ""

/-! ## Response times -/

/-- The jobs that have ended. -/
def ends (ls : List (Label h)) : List (ProgAnswers h × ProgOutput h) :=
  ls.filterMap fun
    | .prog answers output => some (answers, output)
    | _ => none

/-- The time from the release of job `k`, which is counted from zero, to its end. -/
def measured (release : ℕ → UtilityTime h) (es : List (ProgAnswers h × ProgOutput h)) (k : ℕ) :
    Option (UtilityTime h) :=
  es[k]?.map fun e => utilityTimeSub e.1.now.time (release k)

/-- The response time of job `k`: from the time slept to, which is its release, to its end. -/
def responseTime (ls : List (Label h)) (k : ℕ) : Option (UtilityTime h) :=
  (ends ls)[k]?.bind fun e =>
    (sleeps (ls.filterMap Label.toTask))[k]?.map fun t => utilityTimeSub e.1.now.time t

/-- Job `k` takes longer than the limit. -/
def Exceeds (limit : UtilityTime h) (f : ℕ → Option (UtilityTime h)) (k : ℕ) : Prop :=
  ∃ t, f k = some t ∧ utilityTimeGt t limit = true

/-- It is the first one to do so. -/
def FirstExceeds (limit : UtilityTime h) (f : ℕ → Option (UtilityTime h)) (k : ℕ) : Prop :=
  Exceeds limit f k ∧ ∀ j < k, ¬Exceeds limit f j

/-- At the end of job `k`, `client_prog` goes by the given times: the time of the job is compared
    with the limit as long as none exceeds it, and the first job that does so stops the tracing. -/
structure JobGoesBy (limit : UtilityTime h) (f : ℕ → Option (UtilityTime h)) (k : ℕ)
    (output : ProgOutput h) : Prop where
  compared : (∀ j < k, ¬Exceeds limit f j) → output.compared = f k
  passed : (∃ j < k, Exceeds limit f j) → output.compared = none
  stops : FirstExceeds limit f k → output.ftrace = ['0']
  goesOn : ¬FirstExceeds limit f k → output.ftrace = []

/-- The release of job `k` in nanoseconds: a second after the task is created, plus the offset
    and `k` periods. -/
def Args.release (args : Args h) (tNow : ClockTime h) (k : ℕ) : ℤ :=
  tNow.time.value + billion + args.offsetMs.toInt * 1000000 + k * (args.periodMs.toInt * 1000000)

variable {args : Args h} {tNow : ClockTime h} {env : TaskCreateEnv} {ls : List (Label h)}
  {s s' : State h}

theorem next_task_iff {l : RealtimeTests.Label h} :
    (system args tNow env).next s (.task l) = some s' ↔
      l ≠ .programEnd ∧ (l = .stop → s.main = .taskStop) ∧ Guard .anywhere s.task l ∧
        s' = { s with task := s.task.step l } := by
  by_cases hl : l = .programEnd
  · simp [system, hl]
  by_cases hstop : l = .stop ∧ s.main ≠ .taskStop
  · simp only [system, hl, if_false, if_pos hstop]
    exact iff_of_false nofun fun h => hstop.2 (h.2.1 hstop.1)
  · have hmain : l = .stop → s.main = .taskStop := fun h => not_not.1 fun hne => hstop ⟨h, hne⟩
    simp only [system, hl, if_false, if_neg hstop, Option.map_eq_some_iff, next_iff, ne_eq,
      not_false_eq_true, true_and, and_iff_right hmain]
    constructor
    · rintro ⟨task, ⟨hg, rfl⟩, rfl⟩
      exact ⟨hg, rfl⟩
    · rintro ⟨hg, rfl⟩
      exact ⟨_, ⟨hg, rfl⟩, rfl⟩

theorem next_prog_iff {answers : ProgAnswers h} {output : ProgOutput h} :
    (system args tNow env).next s (.prog answers output) = some s' ↔
      s.task.pc = .program ∧ ∃ prms, clientProg s.prms answers = some (output, prms) ∧
        s' = ⟨s.task.step .programEnd, prms, s.ftrace ++ output.ftrace, s.main⟩ := by
  simp only [system]
  split
  · simp_all
  · next output' prms hprog =>
    by_cases hout : output' = output
    · subst hout
      simp only [hprog, ne_eq, not_true_eq_false, if_false, Option.map_eq_some_iff, next_iff, Guard,
        Option.some.injEq, Prod.mk.injEq, true_and, exists_eq_left']
      constructor
      · rintro ⟨task, ⟨hg, rfl⟩, rfl⟩
        exact ⟨hg, rfl⟩
      · rintro ⟨hg, rfl⟩
        exact ⟨_, ⟨hg, rfl⟩, rfl⟩
    · simp [hout, hprog]

theorem next_sigterm_iff {stops : Bool} :
    (system args tNow env).next s (.sigterm stops) = some s' ↔
      s.main = .sigwait ∧
        (stops = true ↔ s.prms.ftraceIteration = 0 ∧ s.prms.ftraceResponseTimeHit = 0) ∧
        s' = { s with main := if stops then .fprintf else .taskStop } := by
  have hstops : stops = decide (s.prms.ftraceIteration = 0 ∧ s.prms.ftraceResponseTimeHit = 0) ↔
      (stops = true ↔ s.prms.ftraceIteration = 0 ∧ s.prms.ftraceResponseTimeHit = 0) := by
    rw [Bool.eq_iff_iff, decide_eq_true_iff]
  dsimp only [system]
  by_cases h : s.main = .sigwait ∧
      stops = decide (s.prms.ftraceIteration = 0 ∧ s.prms.ftraceResponseTimeHit = 0)
  · rw [if_pos h, Option.some_inj]
    exact ⟨fun heq => ⟨h.1, hstops.1 h.2, heq.symm⟩, fun h' => h'.2.2.symm⟩
  · rw [if_neg h]
    exact iff_of_false (Option.some_ne_none s').symm fun h' => h ⟨h'.1, hstops.2 h'.2.1⟩

theorem next_fprintf_iff : (system args tNow env).next s .fprintf = some s' ↔
    s.main = .fprintf ∧ s' = { s with ftrace := s.ftrace ++ ['0'], main := .taskStop } := by
  dsimp only [system]
  by_cases h : s.main = .fprintf
  · rw [if_pos h, Option.some_inj, and_iff_right h, eq_comm]
  · rw [if_neg h]
    exact iff_of_false (Option.some_ne_none s').symm fun h' => h h'.1

theorem filterMap_toTask_concat (ls : List (Label h)) (l : Label h) :
    (ls ++ [l]).filterMap Label.toTask = ls.filterMap Label.toTask ++ l.toTask.toList := by
  cases l <;> simp [Label.toTask]

/-- A run of the client is one of its task. -/
theorem Run.task (hr : (system args tNow env).Run ls s) :
    (taskSystem (args.create tNow) env .anywhere).Run (ls.filterMap Label.toTask) s.task := by
  refine hr.invariant (P := fun ls s =>
    (taskSystem (args.create tNow) env .anywhere).Run (ls.filterMap Label.toTask) s.task)
    (fun s hs => .nil hs.1) fun ls s l s' _ ih hst => ?_
  rw [filterMap_toTask_concat]
  cases l with
  | task l =>
    obtain ⟨-, -, hg, rfl⟩ := next_task_iff.1 hst
    exact ih.snoc (next_iff.2 ⟨hg, rfl⟩)
  | prog answers output =>
    obtain ⟨hpc, prms, -, rfl⟩ := next_prog_iff.1 hst
    exact ih.snoc (next_iff.2 ⟨hpc, rfl⟩)
  | sigterm stops =>
    obtain ⟨-, -, rfl⟩ := next_sigterm_iff.1 hst
    rwa [Label.toTask, Option.toList_none, List.append_nil]
  | fprintf =>
    obtain ⟨-, rfl⟩ := next_fprintf_iff.1 hst
    rwa [Label.toTask, Option.toList_none, List.append_nil]

/-! ## Release times -/

/-- The time `k` periods after `t`. -/
def releaseAt (period t : UtilityTime h) : ℕ → UtilityTime h
  | 0 => t
  | k + 1 => utilityTimeInc (releaseAt period t k) period

section Ends

variable (ls)

@[simp]
theorem ends_concat_task (l : RealtimeTests.Label h) : ends (ls ++ [.task l]) = ends ls := by
  simp [ends]

@[simp]
theorem ends_concat_prog (answers : ProgAnswers h) (output : ProgOutput h) :
    ends (ls ++ [.prog answers output]) = ends ls ++ [(answers, output)] := by
  simp [ends]

@[simp]
theorem ends_concat_sigterm (stops : Bool) : ends (ls ++ [.sigterm stops]) = ends ls := by
  simp [ends]

@[simp]
theorem ends_concat_fprintf : ends (ls ++ [.fprintf]) = ends ls := by
  simp [ends]

theorem sleeps_concat_of_none {l : Label h}
    (hl : l.toTask.bind RealtimeTests.Label.slept = none) :
    sleeps ((ls ++ [l]).filterMap Label.toTask) = sleeps (ls.filterMap Label.toTask) := by
  rw [filterMap_toTask_concat]
  cases htask : l.toTask with
  | none => simp
  | some l' =>
    rw [htask] at hl
    rw [Option.toList_some, sleeps_concat, show l'.slept = none from hl, Option.toList_none,
      List.append_nil]

end Ends

/-- The task has slept until its next release time, which it has not advanced since. -/
def slept : Pc → Bool
  | .ready | .program | .finishing | .nextRelease => true
  | _ => false

/-- Moreover, the job has ended since. -/
def ended : Pc → Bool
  | .finishing | .nextRelease => true
  | _ => false

/-- The times slept to, and the next release time, after `m` rounds. -/
structure Paced (args : TaskCreateArgs h) (ls : List (Label h)) (s : State h) (m : ℕ) : Prop where
  length_sleeps : (sleeps (ls.filterMap Label.toTask)).length = m + if slept s.task.pc then 1 else 0
  length_ends : (ends ls).length = m + if ended s.task.pc then 1 else 0
  next : s.task.tau.nextReleaseTime = releaseAt args.period (utilityTimeAdd args.t0 args.offset) m
  times : ∀ k t, (sleeps (ls.filterMap Label.toTask))[k]? = some t →
    t = releaseAt args.period (utilityTimeAdd args.t0 args.offset) k

/-- A step which neither sleeps, nor ends a job, nor computes the next release time. -/
theorem frame_of_other {s : RealtimeTests.State h} {l : RealtimeTests.Label h}
    {args : TaskCreateArgs h} (hcoh : Coherent args s) (hap : s.tau.aperiodic = 0)
    (hg : Guard .anywhere s l) (hslept : l.slept = none) (hend : l ≠ .programEnd)
    (hnext : l ≠ .nextRelease) :
    slept (s.step l).pc = slept s.pc ∧ ended (s.step l).pc = ended s.pc ∧
      (s.step l).tau.nextReleaseTime = s.tau.nextReleaseTime := by
  have hmove (pc pc' : Pc) (hpc : s.pc = pc) (hpc' : (s.step l).pc = pc')
      (h : slept pc' = slept pc ∧ ended pc' = ended pc) :
      slept (s.step l).pc = slept s.pc ∧ ended (s.step l).pc = ended s.pc ∧
        (s.step l).tau.nextReleaseTime = s.tau.nextReleaseTime := by
    rw [hpc, hpc']
    exact ⟨h.1, h.2, nextReleaseTime_step hnext⟩
  have hperiodic := hcoh.ofPeriodic hap hg
  cases l with
  | stop | checkInside | wake ret | cancel => exact ⟨rfl, rfl, rfl⟩
  | jobBegin t => exact hmove .ready .program hg rfl ⟨rfl, rfl⟩
  | jobEnd t stats =>
    exact hmove .finishing .nextRelease hg.1 (pc_step_jobEnd hap t stats) ⟨rfl, rfl⟩
  | test =>
    rcases pc_step_test s with hpc | hpc
    · exact hmove .test .head hg hpc ⟨rfl, rfl⟩
    · exact hmove .test .flush hg hpc ⟨rfl, rfl⟩
  | flush fuel => exact hmove .flush .close hg.1 rfl ⟨rfl, rfl⟩
  | close closes => exact hmove .close .done hg rfl ⟨rfl, rfl⟩
  | sleep t ret => cases hslept
  | programEnd => exact absurd rfl hend
  | nextRelease => exact absurd rfl hnext
  | _ => cases hperiodic

section Paced

variable {args : TaskCreateArgs h} {m : ℕ} (hs : Paced args ls s m)
include hs

/-- The task sleeps until the next release time. -/
theorem Paced.sleep {task : RealtimeTests.State h} {ret : ℤ} (hpc : s.task.pc = .head)
    (htask : s.task.step (.sleep s.task.tau.nextReleaseTime ret) = task) :
    Paced args (ls ++ [.task (.sleep s.task.tau.nextReleaseTime ret)]) { s with task := task }
      m := by
  obtain ⟨hsleeps, hends, hnext, htimes⟩ := hs
  rw [hpc] at hsleeps hends
  have hlen : (sleeps (ls.filterMap Label.toTask)).length = m := hsleeps
  subst htask
  refine ⟨?_, ?_, hnext, fun k t hk => ?_⟩
  · simp [RealtimeTests.Label.slept, Label.toTask, RealtimeTests.State.step, slept, hlen]
  · simpa [RealtimeTests.State.step, ended] using hends
  · rw [filterMap_toTask_concat, Label.toTask, Option.toList_some, sleeps_concat] at hk
    rcases Nat.lt_or_ge k m with hlt | hge
    · rw [List.getElem?_append_left (by rwa [hlen])] at hk
      exact htimes k t hk
    · -- The last time slept to is the next release time.
      rw [List.getElem?_append_right (by rwa [hlen]), hlen] at hk
      obtain ⟨hk0, rfl⟩ : k - m = 0 ∧ s.task.tau.nextReleaseTime = t := by
        simpa [RealtimeTests.Label.slept, List.getElem?_singleton] using hk
      rw [hnext, show k = m by omega]

/-- A job ends. -/
theorem Paced.prog {answers : ProgAnswers h} {output : ProgOutput h} {prms : ProgPrms h}
    {ftrace : List Char} (hpc : s.task.pc = .program) :
    Paced args (ls ++ [.prog answers output]) ⟨s.task.step .programEnd, prms, ftrace, s.main⟩
      m := by
  obtain ⟨hsleeps, hends, hnext, htimes⟩ := hs
  rw [hpc] at hsleeps hends
  have hmap := sleeps_concat_of_none ls (l := .prog answers output) rfl
  refine ⟨?_, ?_, hnext, ?_⟩
  · rw [hmap]
    exact hsleeps
  · simpa [RealtimeTests.State.step, ended] using hends
  · rw [hmap]
    exact htimes

/-- The next release time is computed. -/
theorem Paced.nextRelease (hpc : s.task.pc = .nextRelease)
    (hperiod : s.task.tau.period = args.period) :
    Paced args (ls ++ [.task .nextRelease]) { s with task := s.task.step .nextRelease }
      (m + 1) := by
  obtain ⟨hsleeps, hends, hnext, htimes⟩ := hs
  rw [hpc] at hsleeps hends
  have hmap := sleeps_concat_of_none ls (l := .task .nextRelease) rfl
  refine ⟨?_, ?_, ?_, ?_⟩
  · rw [hmap]
    exact hsleeps
  · simpa [RealtimeTests.State.step, ended] using hends
  · rw [releaseAt, ← hnext, ← hperiod]
    rfl
  · rw [hmap]
    exact htimes

/-- Any other step of the task. -/
theorem Paced.other {l : RealtimeTests.Label h} (hcoh : Coherent args s.task)
    (hap : s.task.tau.aperiodic = 0) (hg : Guard .anywhere s.task l) (hslept : l.slept = none)
    (hend : l ≠ .programEnd) (hnext : l ≠ .nextRelease) :
    Paced args (ls ++ [.task l]) { s with task := s.task.step l } m := by
  obtain ⟨hsl, hen, htime⟩ := frame_of_other hcoh hap hg hslept hend hnext
  have hmap := sleeps_concat_of_none ls (l := .task l) hslept
  refine ⟨?_, ?_, ?_, ?_⟩
  · rw [hmap, hsl]
    exact hs.length_sleeps
  · rw [ends_concat_task, hen]
    exact hs.length_ends
  · rw [htime]
    exact hs.next
  · rw [hmap]
    exact hs.times

/-- A step of main. -/
theorem Paced.main {l : Label h} (htask : l.toTask = none) (hend : ends (ls ++ [l]) = ends ls)
    (ftrace : List Char) (main : MainPc) :
    Paced args (ls ++ [l]) { s with ftrace := ftrace, main := main } m := by
  have hmap := sleeps_concat_of_none ls (l := l) (by rw [htask]; rfl)
  refine ⟨?_, ?_, hs.next, ?_⟩
  · rw [hmap]
    exact hs.length_sleeps
  · rw [hend]
    exact hs.length_ends
  · rw [hmap]
    exact hs.times

end Paced

section Measured

variable {limit : UtilityTime h} {release : ℕ → UtilityTime h}
  {es : List (ProgAnswers h × ProgOutput h)} {e : ProgAnswers h × ProgOutput h} {k : ℕ}

theorem measured_concat_of_lt (hk : k < es.length) :
    measured release (es ++ [e]) k = measured release es k := by
  rw [measured, measured, List.getElem?_append_left hk]

theorem measured_concat_length : measured release (es ++ [e]) es.length =
    some (utilityTimeSub e.1.now.time (release es.length)) := by
  rw [measured, List.getElem?_concat_length, Option.map_some]

theorem lt_of_exceeds (hk : Exceeds limit (measured release es) k) : k < es.length := by
  obtain ⟨t, ht, -⟩ := hk
  obtain ⟨e, he, -⟩ := Option.map_eq_some_iff.1 ht
  exact (List.getElem?_eq_some_iff.1 he).1

/-- One more job exceeds the limit only if it is the last one. -/
theorem exceeds_concat_iff : Exceeds limit (measured release (es ++ [e])) k ↔
    Exceeds limit (measured release es) k ∨ k = es.length ∧
      utilityTimeGt (utilityTimeSub e.1.now.time (release es.length)) limit = true := by
  constructor
  · intro hk
    have hlt : k < es.length + 1 := by simpa using lt_of_exceeds hk
    rcases Nat.lt_succ_iff_lt_or_eq.1 hlt with hlt | rfl
    · rw [Exceeds, measured_concat_of_lt hlt] at hk
      exact .inl hk
    · obtain ⟨t, ht, hgt⟩ := hk
      rw [measured_concat_length] at ht
      cases ht
      exact .inr ⟨rfl, hgt⟩
  · rintro (hk | ⟨rfl, hgt⟩)
    · rwa [Exceeds, measured_concat_of_lt (lt_of_exceeds hk)]
    · exact ⟨_, measured_concat_length, hgt⟩

theorem firstExceeds_concat_iff : FirstExceeds limit (measured release (es ++ [e])) k ↔
    FirstExceeds limit (measured release es) k ∨ k = es.length ∧
      utilityTimeGt (utilityTimeSub e.1.now.time (release es.length)) limit = true ∧
      ∀ j, ¬Exceeds limit (measured release es) j := by
  rw [FirstExceeds, FirstExceeds, exceeds_concat_iff]
  constructor
  · rintro ⟨hk, hfirst⟩
    rcases hk with hk | ⟨rfl, hgt⟩
    · exact .inl ⟨hk, fun j hj hexc => hfirst j hj (exceeds_concat_iff.2 (.inl hexc))⟩
    · exact .inr ⟨rfl, hgt, fun j hexc =>
        hfirst j (lt_of_exceeds hexc) (exceeds_concat_iff.2 (.inl hexc))⟩
  · have hold (j) (hj : j < k) (hk : k ≤ es.length)
        (hexc : Exceeds limit (measured release (es ++ [e])) j) :
        Exceeds limit (measured release es) j := by
      rcases exceeds_concat_iff.1 hexc with hexc | ⟨rfl, -⟩
      · exact hexc
      · omega
    rintro (⟨hk, hfirst⟩ | ⟨rfl, hgt, hnone⟩)
    · exact ⟨.inl hk, fun j hj hexc => hfirst j hj (hold j hj (lt_of_exceeds hk).le hexc)⟩
    · exact ⟨.inr ⟨rfl, hgt⟩, fun j hj hexc => hnone j (hold j hj le_rfl hexc)⟩

/-- No job exceeds the limit, or there is a first one that does. -/
theorem firstExceeds_unique {f : ℕ → Option (UtilityTime h)} {j : ℕ}
    (hj : FirstExceeds limit f j) (hk : FirstExceeds limit f k) : j = k := by
  rcases Nat.lt_trichotomy j k with hlt | heq | hlt
  · exact absurd hj.1 (hk.2 j hlt)
  · exact heq
  · exact absurd hk.1 (hj.2 k hlt)

end Measured

/-- A job goes by the times up to its own. -/
theorem JobGoesBy.congr {limit : UtilityTime h} {f f' : ℕ → Option (UtilityTime h)} {k : ℕ}
    {output : ProgOutput h} (hf : ∀ j ≤ k, f j = f' j) (hjob : JobGoesBy limit f k output) :
    JobGoesBy limit f' k output := by
  have hexc : ∀ j ≤ k, Exceeds limit f j ↔ Exceeds limit f' j := fun j hj => by
    rw [Exceeds, Exceeds, hf j hj]
  have hnone : (∀ j < k, ¬Exceeds limit f j) ↔ ∀ j < k, ¬Exceeds limit f' j :=
    forall₂_congr fun j hj => not_congr (hexc j hj.le)
  have hfirst : FirstExceeds limit f k ↔ FirstExceeds limit f' k :=
    and_congr (hexc k le_rfl) hnone
  refine ⟨fun h => ?_, fun h => ?_, fun h => hjob.stops (hfirst.2 h),
    fun h => hjob.goesOn (mt hfirst.1 h)⟩
  · rw [← hf k le_rfl]
    exact hjob.compared (hnone.2 h)
  · obtain ⟨j, hj, hexc'⟩ := h
    exact hjob.passed ⟨j, hj, (hexc j hj.le).2 hexc'⟩

/-- What a job writes and compares, and the parameters it leaves. -/
theorem clientProg_eq_some {prms prms' : ProgPrms h} {answers : ProgAnswers h}
    {output : ProgOutput h} (hprog : clientProg prms answers = some (output, prms')) :
    ∃ stopping : Stopping h,
      stopping = stopTracing answers.now.time
        { prms with nthIteration := prms.nthIteration + 1 } ∧
      output.ftrace = (if prms.nthIteration + 1 = prms.ftraceIteration then ['1'] else []) ++
        (if prms.nthIteration + 1 = prms.ftraceIterationLimit then ['0'] else []) ++
        stopping.ftrace ∧
      output.compared = stopping.compared ∧ prms' = stopping.prms := by
  rw [clientProg] at hprog
  split at hprog
  · cases hprog
  · dsimp only at hprog
    split at hprog
    · cases hprog
    · split at hprog
      · cases hprog
        exact ⟨_, rfl, rfl, rfl, rfl⟩
      · cases hprog

/-- The parameters of `client_prog` after `n` jobs: what it does not change, and the next release
    as long as no job has exceeded the limit. -/
structure Measuring (args : Args h) (tNow : ClockTime h) (n : ℕ) (prms : ProgPrms h) : Prop where
  nthIteration : prms.nthIteration = n
  ftraceIteration : prms.ftraceIteration = 0
  ftraceIterationLimit : prms.ftraceIterationLimit = -1
  ftraceResponseTime : prms.ftraceResponseTime = args.limit
  period : prms.period = msTime args.periodMs
  nextRelease : prms.ftraceResponseTimeHit = 0 →
    prms.nextRelease = releaseAt (msTime args.periodMs) (firstRelease tNow.time) n

/-- What `client_prog` goes by: the times since the releases without the offset. -/
def progTime (args : Args h) (tNow : ClockTime h) (es : List (ProgAnswers h × ProgOutput h)) :
    ℕ → Option (UtilityTime h) :=
  measured (releaseAt (msTime args.periodMs) (firstRelease tNow.time)) es

/-- The number of the job that has stopped the tracing. -/
def HitBy (limit : UtilityTime h) (f : ℕ → Option (UtilityTime h)) (hit : ℤ) : Prop :=
  (hit = 0 ∧ ∀ k, ¬Exceeds limit f k) ∨ ∃ k : ℕ, FirstExceeds limit f k ∧ hit = k + 1

section Prog

variable {es : List (ProgAnswers h × ProgOutput h)} {prms prms' : ProgPrms h}
  {answers : ProgAnswers h} {output : ProgOutput h}

/-- What `client_prog` of a further job does to the tracing. -/
theorem Measuring.stopping (hm : Measuring args tNow es.length prms)
    (hprog : clientProg prms answers = some (output, prms')) :
    ∃ stopping : Stopping h,
      stopping = stopTracing answers.now.time
        { prms with nthIteration := prms.nthIteration + 1 } ∧
      output.ftrace = stopping.ftrace ∧ output.compared = stopping.compared ∧
      prms' = stopping.prms := by
  obtain ⟨stopping, hstopping, hftrace, hcompared, hprms⟩ := clientProg_eq_some hprog
  have hnth := hm.nthIteration
  -- The jobs are numbered from one.
  rw [hm.ftraceIteration, hm.ftraceIterationLimit, if_neg (by omega), if_neg (by omega)] at hftrace
  exact ⟨stopping, hstopping, hftrace, hcompared, hprms⟩

/-- A job, as long as none has exceeded the limit. -/
theorem Measuring.prog_of_eq_zero (hm : Measuring args tNow es.length prms)
    (hhit : prms.ftraceResponseTimeHit = 0)
    (hnone : ∀ k, ¬Exceeds args.limit (progTime args tNow es) k)
    (hprog : clientProg prms answers = some (output, prms')) :
    Measuring args tNow (es.length + 1) prms' ∧
      HitBy args.limit (progTime args tNow (es ++ [(answers, output)]))
        prms'.ftraceResponseTimeHit ∧
      JobGoesBy args.limit (progTime args tNow (es ++ [(answers, output)])) es.length output := by
  obtain ⟨stopping, rfl, hftrace, hcompared, rfl⟩ := hm.stopping hprog
  have hlast : progTime args tNow (es ++ [(answers, output)]) es.length =
      some (utilityTimeSub answers.now.time prms.nextRelease) := by
    rw [progTime, measured_concat_length, hm.nextRelease hhit]
  have hfirst (k) : FirstExceeds args.limit (progTime args tNow (es ++ [(answers, output)])) k ↔
      k = es.length ∧ utilityTimeGt (utilityTimeSub answers.now.time prms.nextRelease)
        args.limit = true := by
    rw [progTime, firstExceeds_concat_iff, ← progTime, ← hm.nextRelease hhit]
    exact ⟨fun hk => hk.elim (fun hk => absurd hk.1 (hnone k)) fun hk => ⟨hk.1, hk.2.1⟩,
      fun hk => .inr ⟨hk.1, hk.2, hnone⟩⟩
  have hbefore : ¬∃ j < es.length,
      Exceeds args.limit (progTime args tNow (es ++ [(answers, output)])) j := by
    rintro ⟨j, hj, hexc⟩
    rw [progTime, Exceeds, measured_concat_of_lt hj] at hexc
    exact hnone j hexc
  have hnth := hm.nthIteration
  have hnext : utilityTimeInc prms.nextRelease prms.period =
      releaseAt (msTime args.periodMs) (firstRelease tNow.time) (es.length + 1) := by
    rw [releaseAt, ← hm.nextRelease hhit, hm.period]
  rw [stopTracing, if_pos ⟨hm.ftraceIteration, hhit⟩] at hftrace hcompared ⊢
  by_cases hgt : utilityTimeGt (utilityTimeSub answers.now.time prms.nextRelease)
      prms.ftraceResponseTime = true
  · -- This is the first job to exceed the limit.
    rw [if_pos hgt] at hftrace hcompared ⊢
    rw [hm.ftraceResponseTime] at hgt
    refine ⟨⟨?_, hm.ftraceIteration, hm.ftraceIterationLimit, hm.ftraceResponseTime, hm.period,
      fun _ => hnext⟩, .inr ⟨es.length, (hfirst _).2 ⟨rfl, hgt⟩, ?_⟩, fun _ => hcompared.trans
      hlast.symm, fun h => absurd h hbefore, fun _ => hftrace,
      fun h => absurd ((hfirst _).2 ⟨rfl, hgt⟩) h⟩ <;> simp [hnth]
  · rw [if_neg hgt] at hftrace hcompared ⊢
    rw [hm.ftraceResponseTime] at hgt
    have hnone' (k) : ¬Exceeds args.limit (progTime args tNow (es ++ [(answers, output)])) k := by
      intro hk
      rw [progTime, exceeds_concat_iff, ← progTime, ← hm.nextRelease hhit] at hk
      exact hk.elim (hnone k) fun hk => hgt hk.2
    refine ⟨⟨?_, hm.ftraceIteration, hm.ftraceIterationLimit, hm.ftraceResponseTime, hm.period,
      fun _ => hnext⟩, .inl ⟨hhit, hnone'⟩, fun _ => hcompared.trans hlast.symm,
      fun h => absurd h hbefore, fun h => absurd h.1 (hnone' _), fun _ => hftrace⟩
    simp [hnth]

/-- A job after one which has exceeded the limit. -/
theorem Measuring.prog_of_hit (hm : Measuring args tNow es.length prms) {k : ℕ}
    (hhit : prms.ftraceResponseTimeHit = k + 1)
    (hk : FirstExceeds args.limit (progTime args tNow es) k)
    (hprog : clientProg prms answers = some (output, prms')) :
    Measuring args tNow (es.length + 1) prms' ∧
      HitBy args.limit (progTime args tNow (es ++ [(answers, output)]))
        prms'.ftraceResponseTimeHit ∧
      JobGoesBy args.limit (progTime args tNow (es ++ [(answers, output)])) es.length output := by
  obtain ⟨stopping, rfl, hftrace, hcompared, rfl⟩ := hm.stopping hprog
  have hne : prms.ftraceResponseTimeHit ≠ 0 := by omega
  have hlt : k < es.length := lt_of_exceeds hk.1
  have hk' : FirstExceeds args.limit (progTime args tNow (es ++ [(answers, output)])) k :=
    firstExceeds_concat_iff.2 (.inl hk)
  have hnot : ¬FirstExceeds args.limit (progTime args tNow (es ++ [(answers, output)]))
      es.length := fun h => hlt.ne (firstExceeds_unique hk' h)
  have hnth := hm.nthIteration
  rw [stopTracing, if_neg fun h => hne h.2] at hftrace hcompared ⊢
  refine ⟨⟨?_, hm.ftraceIteration, hm.ftraceIterationLimit, hm.ftraceResponseTime, hm.period,
    fun h => absurd h hne⟩, .inr ⟨k, hk', hhit⟩, fun h => absurd hk'.1 (h k hlt),
    fun _ => hcompared, fun h => absurd h hnot, fun _ => hftrace⟩
  simp [hnth]

end Prog

/-- In every run, `client_prog` goes by the times since the releases without the offset. -/
theorem Run.measuring (hr : (system args tNow env).Run ls s) :
    Measuring args tNow (ends ls).length s.prms ∧
      HitBy args.limit (progTime args tNow (ends ls)) s.prms.ftraceResponseTimeHit ∧
      (∀ k e, (ends ls)[k]? = some e →
        JobGoesBy args.limit (progTime args tNow (ends ls)) k e.2) := by
  refine hr.invariant (P := fun ls s => Measuring args tNow (ends ls).length s.prms ∧
    HitBy args.limit (progTime args tNow (ends ls)) s.prms.ftraceResponseTimeHit ∧
    (∀ k e, (ends ls)[k]? = some e → JobGoesBy args.limit (progTime args tNow (ends ls)) k e.2))
    (fun s hs => ?_) fun ls s l s' _ ⟨hm, hhit, hjobs⟩ hst => ?_
  · obtain ⟨-, hprms, -⟩ := hs
    rw [hprms]
    refine ⟨⟨rfl, rfl, rfl, rfl, rfl, fun _ => rfl⟩, .inl ⟨rfl, ?_⟩, ?_⟩
    · rintro k ⟨t, ht, -⟩
      cases ht
    · intro k e he
      cases he
  · cases l with
    | task l =>
      obtain ⟨-, -, -, rfl⟩ := next_task_iff.1 hst
      rw [ends_concat_task]
      exact ⟨hm, hhit, hjobs⟩
    | sigterm stops =>
      obtain ⟨-, -, rfl⟩ := next_sigterm_iff.1 hst
      rw [ends_concat_sigterm]
      exact ⟨hm, hhit, hjobs⟩
    | fprintf =>
      obtain ⟨-, rfl⟩ := next_fprintf_iff.1 hst
      rw [ends_concat_fprintf]
      exact ⟨hm, hhit, hjobs⟩
    | prog answers output =>
      obtain ⟨-, prms, hprog, rfl⟩ := next_prog_iff.1 hst
      have hjob := hhit.elim (fun hhit => hm.prog_of_eq_zero hhit.1 hhit.2 hprog)
        fun ⟨k, hk, hhit⟩ => hm.prog_of_hit hhit hk hprog
      rw [ends_concat_prog]
      refine ⟨by simpa using hjob.1, hjob.2.1, fun k e he => ?_⟩
      rcases Nat.lt_or_ge k (ends ls).length with hlt | hge
      · -- The earlier jobs go by the same times as before.
        rw [List.getElem?_append_left hlt] at he
        exact (hjobs k e he).congr fun j hj => (measured_concat_of_lt (hj.trans_lt hlt)).symm
      · obtain ⟨hk, rfl⟩ : k - (ends ls).length = 0 ∧ (answers, output) = e := by
          rw [List.getElem?_append_right hge, List.getElem?_singleton] at he
          simpa using he
        obtain rfl : k = (ends ls).length := by omega
        exact hjob.2.2

/-! ## What main does -/

/-- Main stops the tracing once, after it has taken SIGTERM. -/
structure Terminating (ls : List (Label h)) (s : State h) : Prop where
  count : ls.count .fprintf = if .sigterm true ∈ ls ∧ s.main ≠ .fprintf then 1 else 0
  sigwait : s.main = .sigwait → .sigterm true ∉ ls
  fprintf : s.main = .fprintf → .sigterm true ∈ ls
  written : s.ftrace = '1' :: ls.flatMap Label.written

/-- A step in which main takes no part. -/
theorem Terminating.other (hs : Terminating ls s) {l : Label h} (hsigterm : l ≠ .sigterm true)
    (hfprintf : l ≠ .fprintf) (hmain : s'.main = s.main)
    (hftrace : s'.ftrace = s.ftrace ++ l.written) : Terminating (ls ++ [l]) s' := by
  have hmem : .sigterm true ∈ ls ++ [l] ↔ .sigterm true ∈ ls := by
    rw [List.mem_append, List.mem_singleton, or_iff_left hsigterm.symm]
  refine ⟨?_, ?_, ?_, ?_⟩
  · rw [List.count_append, List.count_singleton, if_neg (by simpa using hfprintf), hs.count, hmain]
    simp only [hmem, Nat.add_zero]
  · rw [hmain, hmem]
    exact hs.sigwait
  · rw [hmain, hmem]
    exact hs.fprintf
  · rw [hftrace, hs.written, List.flatMap_append, List.flatMap_singleton, List.cons_append]

/-- The number reported is that of the job that has stopped the tracing. -/
theorem HitBy.reported {limit : UtilityTime h} {f : ℕ → Option (UtilityTime h)} {hit : ℤ}
    (hhit : HitBy limit f hit) : (∀ k, FirstExceeds limit f k →
      jobLine hit = "Job #" ++ toString ((k : ℤ) + 1) ++ "\n") ∧
    ((∀ k, ¬Exceeds limit f k) → jobLine hit = "") := by
  refine ⟨fun k hk => ?_, fun hnone => ?_⟩
  · obtain ⟨-, hnone⟩ | ⟨j, hj, heq⟩ := hhit
    · exact absurd hk.1 (hnone k)
    · obtain rfl := firstExceeds_unique hj hk
      rw [heq, jobLine, if_pos (by omega)]
  · obtain ⟨heq, -⟩ | ⟨k, hk, -⟩ := hhit
    · rw [heq, jobLine, if_neg (by decide)]
    · exact absurd hk.1 (hnone k)

theorem HitBy.eq_zero_iff {limit : UtilityTime h} {f : ℕ → Option (UtilityTime h)} {hit : ℤ}
    (hhit : HitBy limit f hit) : hit = 0 ↔ ∀ k, ¬Exceeds limit f k := by
  obtain ⟨heq, hnone⟩ | ⟨k, hk, heq⟩ := hhit
  · exact iff_of_true heq hnone
  · exact iff_of_false (by omega) fun hnone => hnone k hk.1

/-- When SIGTERM is taken, main goes by the times as well. -/
theorem Run.terminated {ms ns : List (Label h)} {stops : Bool}
    (hr : (system args tNow env).Run (ms ++ .sigterm stops :: ns) s) :
    stops = true ↔ ∀ k, ¬Exceeds args.limit (progTime args tNow (ends ms)) k := by
  refine hr.since (P := fun _ _ => stops = true ↔
    ∀ k, ¬Exceeds args.limit (progTime args tNow (ends ms)) k) (fun s s' hr hst => ?_)
    fun _ _ _ _ h _ => h
  obtain ⟨-, hstops, -⟩ := next_sigterm_iff.1 hst
  obtain ⟨hm, hhit, -⟩ := Run.measuring hr
  rw [hstops, and_iff_right hm.ftraceIteration, hhit.eq_zero_iff]

theorem ClockTime.value_nonneg (t : ClockTime h) : 0 ≤ t.time.value :=
  t.normalised.value_nonneg t.nonneg

end Client

end RealtimeTests
