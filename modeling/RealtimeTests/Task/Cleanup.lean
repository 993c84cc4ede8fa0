import RealtimeTests.Resource
import RealtimeTests.Task

/-!
# Failing constructors

`task_create` and `finish_to_start_overhead` release what they have acquired at a label that all
their failures jump to. What is to be released there is found in fields that are assigned on the
way, and are not initialised before.

* `taskCreate_cleans_iff`: the fields have been assigned unless the name, the path or the log of the
  statistics cannot be made.
* `finishToStartOverhead_cleans_iff`: they have unless the thread is not given its CPU or its
  scheduler.
-/

namespace RealtimeTests.Cleanup

open Resource

variable {h : Host}

/-- What the constructors acquire. -/
inductive Res
  | taskStats
  | result
  | name
  | statsLogPath
  | statsLog
  | ringbuf
  | ringbufArray
  /-- The time objects. -/
  | sum
  | release
  | start1
  | finish1
  | start2
  | latency
  | overhead
  | total
  deriving DecidableEq

/-- The fields of a `task` that have resources. -/
inductive Field
  | name
  | statsLogPath
  | statsLog
  | statsRingbuf
  deriving DecidableEq

/-- `jobstats_ringbuf_create`. -/
def jobstatsRingbufCreate (slotCount : ULong h) (mallocRes mallocRingbuf : Bool) :
    Proc Res Field (Option Res) :=
  if slotCount = 0 then pure none
  else do
    let res ← acquire mallocRes .ringbuf
    if res.isNone then pure none
    else do
      let ringbuf ← acquire mallocRingbuf .ringbufArray
      if ringbuf.isNone then do
        Resource.release res
        pure none
      else pure res

/-- `jobstats_ringbuf_destroy`. -/
def jobstatsRingbufDestroy (ringbuf : Option Res) : Proc Res Field Unit := do
  deref ringbuf
  Resource.release (some .ringbufArray)
  Resource.release ringbuf

/-- A ring buffer is made when there is memory for both of its parts. -/
theorem jobstatsRingbufCreate_bind {slotCount : ULong h} (hne : slotCount ≠ 0)
    {mallocRes mallocRingbuf : Bool} {α : Type} {f : Option Res → Proc Res Field α}
    {s : Store Res Field} :
    (jobstatsRingbufCreate slotCount mallocRes mallocRingbuf >>= f) s =
      if mallocRes = true ∧ mallocRingbuf = true then
        f (some .ringbuf) { s with held := .ringbufArray :: .ringbuf :: s.held }
      else f none s := by
  rw [jobstatsRingbufCreate, if_neg hne, bind_assoc]
  cases mallocRes with
  | false => simp [acquire_false_bind]
  | true =>
    simp only [acquire_true_bind, Option.isNone_some, Bool.false_eq_true, if_false, bind_assoc]
    cases mallocRingbuf with
    | false =>
      simp only [acquire_false_bind, Option.isNone_none, if_true, bind_assoc, pure_bind]
      rw [release_bind_of_mem List.mem_cons_self, List.erase_cons_head]
      simp
    | true => simp [acquire_true_bind]

/-! ## Tasks -/

/-- What the system answers to `task_create`, with whether there is memory for the sum of two
    times. -/
structure CreateEnv extends TaskCreateEnv where
  mallocSum : Bool

/-- The label `error` of `task_create`. -/
def error (rc : ℤ) (taskStats result : Option Res) : Proc Res Field (ℤ × Option Res) := do
  releaseAny taskStats
  if result.isSome then do
    let name ← readVar .name
    releaseAny name
    let statsLog ← readVar .statsLog
    if statsLog.isSome then do
      -- The path is for the message of a failure.
      let statsLogPath ← readVar .statsLogPath
      deref statsLogPath
      Resource.release statsLog
    let statsLogPath ← readVar .statsLogPath
    releaseAny statsLogPath
    let statsRingbuf ← readVar .statsRingbuf
    if statsRingbuf.isSome then jobstatsRingbufDestroy statsRingbuf
    Resource.release result
  pure (rc, none)

/-- The header of `task_create` is written. -/
def TaskCreateEnv.writes (args : TaskCreateArgs h) (env : TaskCreateEnv) : Bool :=
  env.statsLog.all fun device => ((OutFile.empty device).fwrite args.header).1

/-- The end of `task_create`, from the times on. -/
def serialize (args : TaskCreateArgs h) (env : CreateEnv) (taskStats result : Option Res) :
    Proc Res Field (ℤ × Option Res) := do
  -- `to_timespec_gc(utility_time_add_dyn(...))`
  let sum ← acquire env.mallocSum .sum
  deref sum
  Resource.release sum
  if TaskCreateEnv.writes args env.toTaskCreateEnv then do
    Resource.release taskStats
    pure (0, result)
  else error (-1) taskStats result

/-- `task_create`, as far as its resources are concerned: its return value, and `*res`. -/
def taskCreate (args : TaskCreateArgs h) (env : CreateEnv) : Proc Res Field (ℤ × Option Res) := do
  let taskStats ← acquire env.mallocTaskStats .taskStats
  if taskStats.isNone then error (-1) taskStats none
  else do
    let result ← acquire env.mallocResult .result
    if result.isNone then error (-1) taskStats result
    else do
      let name ← acquire env.mallocName .name
      assign .name name
      if name.isNone then error (-1) taskStats result
      else do
        let statsLogPath ← acquire env.mallocStatsLogPath .statsLogPath
        assign .statsLogPath statsLogPath
        if statsLogPath.isNone then error (-1) taskStats result
        else do
          let statsLog ← acquire env.statsLog.isSome .statsLog
          assign .statsLog statsLog
          if statsLog.isNone then error (-2) taskStats result
          else do
            -- There is no ring buffer when the job statistics are disabled.
            let statsRingbuf ←
              if args.ringbufferSize = 0 then pure none
              else
                jobstatsRingbufCreate args.ringbufferSize env.mallocRingbuf env.mallocRingbufArray
            assign .statsRingbuf statsRingbuf
            if args.ringbufferSize ≠ 0 ∧ statsRingbuf.isNone then error (-1) taskStats result
            else do
              serialize args env taskStats result

/-- What is left by a constructor: it has a meaning, and when it fails, it returns NULL and the
    documented code, and holds nothing. -/
def Cleans (rc : ℤ) (res : Option ((ℤ × Option Res) × Store Res Field)) : Prop :=
  ∃ rc' result store, res = some ((rc', result), store) ∧
    (rc' ≠ 0 → result = none ∧ store.held = [] ∧ rc' = rc)

/-- The statistics file cannot be opened. -/
def CreateEnv.refused (env : CreateEnv) : Bool :=
  env.mallocTaskStats && env.mallocResult && env.mallocName && env.mallocStatsLogPath &&
    env.statsLog.isNone

/-- There is memory for the ring buffer, or none is needed. -/
def CreateEnv.findsRingbuf (args : TaskCreateArgs h) (env : CreateEnv) : Prop :=
  args.ringbufferSize = 0 ∨ env.mallocRingbuf = true ∧ env.mallocRingbufArray = true

theorem cleans_some {rc rc' : ℤ} {result : Option Res} {store : Store Res Field}
    (h : rc' ≠ 0 → result = none ∧ store.held = [] ∧ rc' = rc) :
    Cleans rc (some ((rc', result), store)) :=
  ⟨_, _, _, rfl, h⟩

theorem cleans_some_iff {rc rc' : ℤ} {result : Option Res} {store : Store Res Field} :
    Cleans rc (some ((rc', result), store)) ↔
      (rc' ≠ 0 → result = none ∧ store.held = [] ∧ rc' = rc) := by
  constructor
  · rintro ⟨_, _, _, hres, h⟩
    cases hres
    exact h
  · exact cleans_some

theorem not_cleans_none (rc : ℤ) : ¬ Cleans rc none := by
  rintro ⟨_, _, _, h, -⟩
  cases h

/-- What is assigned when the ring buffer is made, or is not needed. -/
def assigned (statsRingbuf : Option Res) : List (Field × Option Res) :=
  [(.statsRingbuf, statsRingbuf), (.statsLog, some .statsLog),
    (.statsLogPath, some .statsLogPath), (.name, some .name)]

/-- What is held then. -/
def held (statsRingbuf : Option Res) : List Res :=
  (if statsRingbuf.isSome then [.ringbufArray, .ringbuf] else []) ++
    [.statsLog, .statsLogPath, .name, .result, .taskStats]

/-- With all its fields assigned, the clean-up releases what is held. -/
theorem error_of_assigned (rc : ℤ) {statsRingbuf : Option Res}
    (hring : statsRingbuf = none ∨ statsRingbuf = some .ringbuf) :
    error rc (some .taskStats) (some .result) ⟨held statsRingbuf, assigned statsRingbuf⟩ =
      some ((rc, none), ⟨[], assigned statsRingbuf⟩) := by
  rcases hring with rfl | rfl <;> rfl

/-- What the end of `task_create` returns, and what it leaves. -/
theorem serialize_of_assigned (args : TaskCreateArgs h) (env : CreateEnv)
    {statsRingbuf : Option Res} (hring : statsRingbuf = none ∨ statsRingbuf = some .ringbuf) :
    serialize args env (some .taskStats) (some .result) ⟨held statsRingbuf, assigned statsRingbuf⟩ =
      if env.mallocSum then
        if TaskCreateEnv.writes args env.toTaskCreateEnv then
          some ((0, some .result), ⟨(held statsRingbuf).erase .taskStats, assigned statsRingbuf⟩)
        else some ((-1, none), ⟨[], assigned statsRingbuf⟩)
      else none := by
  rw [serialize]
  cases env.mallocSum with
  | false => rw [acquire_false_bind, deref_none_bind, if_neg Bool.false_ne_true]
  | true =>
    rw [acquire_true_bind, deref_bind_of_mem List.mem_cons_self,
      release_bind_of_mem List.mem_cons_self, List.erase_cons_head, if_pos rfl]
    split_ifs
    · rw [release_bind_of_mem (by simp [held])]
      rfl
    · exact error_of_assigned _ hring

theorem serialize_cleans_iff (args : TaskCreateArgs h) (env : CreateEnv) {statsRingbuf : Option Res}
    (hring : statsRingbuf = none ∨ statsRingbuf = some .ringbuf) :
    Cleans (-1) (serialize args env (some .taskStats) (some .result)
      ⟨held statsRingbuf, assigned statsRingbuf⟩) ↔ env.mallocSum = true := by
  rw [serialize_of_assigned args env hring]
  split_ifs with hsum hwrites
  · exact iff_of_true (cleans_some fun hrc => absurd rfl hrc) hsum
  · exact iff_of_true (cleans_some fun _ => ⟨rfl, rfl, rfl⟩) hsum
  · exact iff_of_false (not_cleans_none _) hsum

/-- The log of the statistics is open. -/
def CreateEnv.Opens (env : CreateEnv) : Prop :=
  env.mallocTaskStats = true ∧ env.mallocResult = true ∧ env.mallocName = true ∧
    env.mallocStatsLogPath = true ∧ env.statsLog.isSome = true

/-- The rest of `task_create` then. -/
theorem taskCreate_of_opens (args : TaskCreateArgs h) {env : CreateEnv} (hopens : env.Opens) :
    (env.findsRingbuf args → ∃ statsRingbuf, (statsRingbuf = none ∨ statsRingbuf = some .ringbuf) ∧
      taskCreate args env .empty = serialize args env (some .taskStats) (some .result)
        ⟨held statsRingbuf, assigned statsRingbuf⟩) ∧
      (¬ env.findsRingbuf args →
        taskCreate args env .empty = some ((-1, none), ⟨[], assigned none⟩)) := by
  obtain ⟨hstats, hresult, hname, hpath, hlog⟩ := hopens
  rw [taskCreate, hstats, hresult, hname, hpath, hlog]
  simp only [acquire_true_bind, assign_bind, Option.isNone_some, Bool.false_eq_true, if_false]
  by_cases hsize : args.ringbufferSize = 0
  · simp only [hsize, if_true, pure_bind, assign_bind, ne_eq, not_true, false_and, if_false]
    exact ⟨fun _ => ⟨none, .inl rfl, rfl⟩, fun hring => absurd (.inl hsize) hring⟩
  · simp only [hsize, if_false, ne_eq, not_false_eq_true, true_and,
      jobstatsRingbufCreate_bind hsize]
    by_cases hfound : env.mallocRingbuf = true ∧ env.mallocRingbufArray = true
    · rw [if_pos hfound]
      exact ⟨fun _ => ⟨some .ringbuf, .inr rfl, rfl⟩, fun hring => absurd (.inr hfound) hring⟩
    · rw [if_neg hfound]
      exact ⟨fun hring => absurd hring (not_or.2 ⟨hsize, hfound⟩),
        fun _ => error_of_assigned (-1) (.inl rfl)⟩

/-- `task_create` before the log of the statistics is open: with its object, and without its name,
    its path or its log, the clean-up reads fields that are assigned after these. -/
theorem taskCreate_of_not_opens (args : TaskCreateArgs h) {env : CreateEnv}
    (hopens : ¬ env.Opens) :
    (env.mallocTaskStats = true → env.mallocResult = true → taskCreate args env .empty = none) ∧
      (¬ (env.mallocTaskStats = true ∧ env.mallocResult = true) → ∃ store,
        taskCreate args env .empty = some ((-1, none), store) ∧ store.held = []) := by
  obtain ⟨⟨mallocTaskStats, mallocResult, mallocName, mallocStatsLogPath, statsLog, mallocRingbuf,
    mallocRingbufArray⟩, mallocSum⟩ := env
  constructor
  · rintro rfl rfl
    cases mallocName with
    | false => rfl
    | true =>
      cases mallocStatsLogPath with
      | false => rfl
      | true =>
        cases statsLog with
        | none => rfl
        | some device => exact absurd ⟨rfl, rfl, rfl, rfl, rfl⟩ hopens
  · intro hobjects
    cases mallocTaskStats with
    | false => exact ⟨_, rfl, rfl⟩
    | true =>
      cases mallocResult with
      | false => exact ⟨_, rfl, rfl⟩
      | true => exact absurd ⟨rfl, rfl⟩ hobjects

/-- `task_create` cleans up exactly when a task that is allocated is given a name, a path and a log,
    and there is memory for the sum that it needs. -/
theorem taskCreate_cleans_iff (args : TaskCreateArgs h) (env : CreateEnv) :
    Cleans (if env.refused then -2 else -1) (taskCreate args env .empty) ↔
      (env.mallocTaskStats = true → env.mallocResult = true →
        env.mallocName = true ∧ env.mallocStatsLogPath = true ∧ env.statsLog.isSome = true ∧
          (env.findsRingbuf args → env.mallocSum = true)) := by
  by_cases hopens : env.Opens
  · have hrefused : ¬ env.refused = true := by
      simp [CreateEnv.refused, Option.isNone_eq_false_iff.2 hopens.2.2.2.2]
    obtain ⟨hfound, hnot⟩ := taskCreate_of_opens args hopens
    obtain ⟨hstats, hresult, hname, hpath, hlog⟩ := hopens
    rw [if_neg hrefused]
    by_cases hring : env.findsRingbuf args
    · obtain ⟨statsRingbuf, hcases, heq⟩ := hfound hring
      rw [heq, serialize_cleans_iff args env hcases]
      exact ⟨fun hsum _ _ => ⟨hname, hpath, hlog, fun _ => hsum⟩,
        fun hall => (hall hstats hresult).2.2.2 hring⟩
    · rw [hnot hring]
      exact iff_of_true (cleans_some fun _ => ⟨rfl, rfl, rfl⟩) fun _ _ =>
        ⟨hname, hpath, hlog, fun hring' => absurd hring' hring⟩
  · obtain ⟨hnone, hsome⟩ := taskCreate_of_not_opens args hopens
    by_cases hobjects : env.mallocTaskStats = true ∧ env.mallocResult = true
    · rw [hnone hobjects.1 hobjects.2]
      refine iff_of_false (not_cleans_none _) fun hall => hopens ?_
      obtain ⟨hname, hpath, hlog, -⟩ := hall hobjects.1 hobjects.2
      exact ⟨hobjects.1, hobjects.2, hname, hpath, hlog⟩
    · obtain ⟨store, heq, hheld⟩ := hsome hobjects
      have hrefused : ¬ env.refused = true := by
        simp only [CreateEnv.refused, Bool.and_eq_true]
        exact fun hall => hobjects hall.1.1.1
      rw [heq, if_neg hrefused]
      exact iff_of_true (cleans_some fun _ => ⟨rfl, hheld, rfl⟩) fun hstats hresult =>
        absurd ⟨hstats, hresult⟩ hobjects

/-- The ring buffer is found as for the task without its resources. -/
theorem isSome_statsRingbuf_iff (args : TaskCreateArgs h) (env : CreateEnv) :
    (args.statsRingbuf env.toTaskCreateEnv).isSome = true ↔ env.findsRingbuf args := by
  rw [TaskCreateArgs.statsRingbuf, CreateEnv.findsRingbuf, TaskCreateArgs.result]
  by_cases hsize : args.ringbufferSize = 0
  · simp [hsize]
  · rw [if_neg hsize, if_neg (not_not.2 rfl), RealtimeTests.jobstatsRingbufCreate, if_neg hsize]
    have hzero : ¬ args.ringbufferSize = 0#h.longBits := hsize
    cases env.mallocRingbuf <;> cases env.mallocRingbufArray <;> simp [hzero]

/-- A task is created, and the code is returned, as when resources are left out. -/
theorem taskCreate_rc {args : TaskCreateArgs h} {env : CreateEnv} {rc : ℤ} {result : Option Res}
    {store : Store Res Field} (hrun : taskCreate args env .empty = some ((rc, result), store)) :
    rc = (RealtimeTests.taskCreate args env.toTaskCreateEnv).1 := by
  by_cases hopens : env.Opens
  · obtain ⟨hfound, hnot⟩ := taskCreate_of_opens args hopens
    obtain ⟨hstats, hresult, hname, hpath, hlog⟩ := hopens
    obtain ⟨device, hdevice⟩ := Option.isSome_iff_exists.1 hlog
    simp only [RealtimeTests.taskCreate, hstats, hresult, hname, hpath, hdevice, Bool.not_true,
      Bool.false_eq_true, if_false]
    by_cases hring : env.findsRingbuf args
    · obtain ⟨statsRingbuf, hcases, heq⟩ := hfound hring
      obtain ⟨ringbuf, hringbuf⟩ :=
        Option.isSome_iff_exists.1 ((isSome_statsRingbuf_iff args env).2 hring)
      rw [heq, serialize_of_assigned args env hcases] at hrun
      simp only [hringbuf, OutFile.fwrite]
      simp only [TaskCreateEnv.writes, hdevice, Option.all_some, OutFile.fwrite] at hrun
      cases hwrite : (OutFile.empty device).device 0 with
      | false =>
        simp only [hwrite, Bool.false_eq_true, if_false] at hrun
        split_ifs at hrun
        cases hrun
        rfl
      | true =>
        simp only [hwrite, if_true] at hrun
        split_ifs at hrun
        cases hrun
        rfl
    · rw [hnot hring] at hrun
      have hnone : args.statsRingbuf env.toTaskCreateEnv = none := by
        rw [← Option.not_isSome_iff_eq_none, isSome_statsRingbuf_iff]
        exact hring
      rw [hnone]
      cases hrun
      rfl
  · obtain ⟨hnone, hsome⟩ := taskCreate_of_not_opens args hopens
    by_cases hobjects : env.mallocTaskStats = true ∧ env.mallocResult = true
    · rw [hnone hobjects.1 hobjects.2] at hrun
      cases hrun
    · obtain ⟨store', heq, -⟩ := hsome hobjects
      rw [heq] at hrun
      cases hrun
      rw [RealtimeTests.taskCreate]
      cases hstats : env.mallocTaskStats with
      | false => rfl
      | true =>
        cases hresult : env.mallocResult with
        | false => rfl
        | true => exact absurd ⟨hstats, hresult⟩ hobjects

/-! ## The measurement of the overhead -/

/-- What the system answers to `finish_to_start_overhead`: which of the calls succeed, and for which
    time objects there is memory. -/
structure OverheadEnv where
  pthreadCreate : Bool
  pthreadJoin : Bool
  lockMeToCpu : Bool
  schedFifoEnterMax : ℤ
  tmpfile : Bool
  mallocRingbuf : Bool
  mallocRingbufArray : Bool
  clockGettime : Bool
  /-- The jobs that are measured. -/
  overheadMeasurement : Bool
  jobstatsRingbufSave : Bool
  fseek : Bool
  readFirst : Bool
  readSecond : Bool
  mallocTime : Res → Bool

/-- The label `out` of `overhead_measurement_thread`. -/
def out (exitStatus : ℤ) (overhead : Option Res) : Proc Res Field (ℤ × Option Res) := do
  let statsRingbuf ← readVar .statsRingbuf
  if statsRingbuf.isSome then jobstatsRingbufDestroy statsRingbuf
  let statsLog ← readVar .statsLog
  releaseAny statsLog
  pure (exitStatus, overhead)

/-- `utility_time_add_dyn_gc` and `utility_time_sub_dyn_gc` of two objects that are garbage
    collected. -/
def dynGc (found : Bool) (res : Res) (t1 t2 : Option Res) : Proc Res Field (Option Res) := do
  let internalT ← acquire found res
  if internalT.isSome then do
    deref t1
    deref t2
  Resource.release t1
  Resource.release t2
  pure internalT

/-- The calculation of the overhead. -/
def calculate (env : OverheadEnv) : Proc Res Field (Option Res) := do
  let tRelease ← acquire (env.mallocTime .release) .release
  let tStart1 ← acquire (env.mallocTime .start1) .start1
  let tFinish1 ← acquire (env.mallocTime .finish1) .finish1
  let tStart2 ← acquire (env.mallocTime .start2) .start2
  let latency ← dynGc (env.mallocTime .latency) .latency tStart1 tRelease
  let overhead ← dynGc (env.mallocTime .overhead) .overhead tStart2 tFinish1
  dynGc (env.mallocTime .total) .total latency overhead

/-- The part of `overhead_measurement_thread` after the current time is taken. -/
def measure (env : OverheadEnv) : Proc Res Field (ℤ × Option Res) := do
  -- `to_timespec_gc(utility_time_add_dyn(...))`
  let sum ← acquire (env.mallocTime .sum) .sum
  deref sum
  Resource.release sum
  if !env.overheadMeasurement then out (-2) none
  else if !env.jobstatsRingbufSave then out (-2) none
  else if !env.fseek then out (-2) none
  else if !env.readFirst then out (-2) none
  else if !env.readSecond then out (-2) none
  else do
    let overhead ← calculate env
    out 0 overhead

/-- `overhead_measurement_thread`: its exit status and the overhead. -/
def overheadMeasurementThread (h : Host) (env : OverheadEnv) : Proc Res Field (ℤ × Option Res) :=
  if !env.lockMeToCpu then out (-2) none
  else if env.schedFifoEnterMax = -1 then out (-1) none
  else if env.schedFifoEnterMax ≠ 0 then out (-2) none
  else do
    assign .statsLog none
    assign .statsRingbuf none
    let statsLog ← acquire env.tmpfile .statsLog
    assign .statsLog statsLog
    if statsLog.isNone then out (-2) none
    else do
      let statsRingbuf ← jobstatsRingbufCreate (2 : ULong h) env.mallocRingbuf
        env.mallocRingbufArray
      assign .statsRingbuf statsRingbuf
      if statsRingbuf.isNone then out (-2) none
      else if !env.clockGettime then out (-2) none
      else measure env

/-- `finish_to_start_overhead`: its return value, and `*result`. -/
def finishToStartOverhead (h : Host) (env : OverheadEnv) : Proc Res Field (ℤ × Option Res) :=
  if !env.pthreadCreate then pure (-2, none)
  else do
    let (exitStatus, overhead) ← overheadMeasurementThread h env
    if !env.pthreadJoin then pure (-2, none)
    else if exitStatus ≠ 0 then pure (exitStatus, none)
    else pure (0, overhead)

namespace OverheadEnv

/-- Entering `SCHED_FIFO` is refused for lack of privilege. -/
def refused (env : OverheadEnv) : Bool :=
  env.pthreadCreate && env.lockMeToCpu && env.schedFifoEnterMax = -1

/-- The jobs are prepared. -/
def prepares (env : OverheadEnv) : Bool :=
  env.tmpfile && env.mallocRingbuf && env.mallocRingbufArray && env.clockGettime

/-- They are run and read back. -/
def measures (env : OverheadEnv) : Bool :=
  env.overheadMeasurement && env.jobstatsRingbufSave && env.fseek && env.readFirst && env.readSecond

/-- There is memory for the times which the overhead is calculated from. -/
def findsTimes (env : OverheadEnv) : Bool :=
  env.mallocTime .release && env.mallocTime .start1 && env.mallocTime .finish1 &&
    env.mallocTime .start2 && env.mallocTime .latency && env.mallocTime .overhead

end OverheadEnv

/-- The overhead needs all the times, which are released. -/
theorem calculate_apply (env : OverheadEnv) (s : Store Res Field) :
    calculate env s =
      if env.findsTimes then
        if env.mallocTime .total then some (some .total, { s with held := .total :: s.held })
        else some (none, s)
      else none := by
  rw [OverheadEnv.findsTimes, calculate]
  cases env.mallocTime .release <;> cases env.mallocTime .start1 <;>
    cases env.mallocTime .finish1 <;> cases env.mallocTime .start2 <;>
    cases env.mallocTime .latency <;> cases env.mallocTime .overhead <;>
    cases env.mallocTime .total <;> rfl

/-- What a constructor returns, and what it holds at its end. -/
def outcome (res : Option ((ℤ × Option Res) × Store Res Field)) :
    Option ((ℤ × Option Res) × List Res) :=
  res.map fun r => (r.1, r.2.held)

/-- The overhead that is returned, if there is memory for it. -/
def OverheadEnv.result (env : OverheadEnv) : Option Res :=
  if env.mallocTime .total then some .total else none

/-- What is assigned when the ring buffer is made. -/
def measuring : List (Field × Option Res) :=
  [(.statsRingbuf, some .ringbuf), (.statsLog, some .statsLog), (.statsRingbuf, none),
    (.statsLog, none)]

/-- The clean-up leaves the overhead. -/
theorem out_of_measuring (exitStatus : ℤ) {overhead : Option Res}
    (hoverhead : overhead = none ∨ overhead = some .total) :
    out exitStatus overhead ⟨overhead.toList ++ [.ringbufArray, .ringbuf, .statsLog], measuring⟩ =
      some ((exitStatus, overhead), ⟨overhead.toList, measuring⟩) := by
  rcases hoverhead with rfl | rfl <;> rfl

theorem measure_of_measuring (env : OverheadEnv) :
    outcome (measure env ⟨[.ringbufArray, .ringbuf, .statsLog], measuring⟩) =
      if env.mallocTime .sum then
        if env.measures then
          if env.findsTimes then some ((0, env.result), env.result.toList) else none
        else some ((-2, none), [])
      else none := by
  have hout := out_of_measuring (-2) (.inl rfl)
  rw [measure]
  cases env.mallocTime .sum with
  | false => rfl
  | true =>
    rw [acquire_true_bind, deref_bind_of_mem List.mem_cons_self,
      release_bind_of_mem List.mem_cons_self, List.erase_cons_head, if_pos rfl]
    by_cases hmeasures : env.measures = true
    · obtain ⟨⟨⟨⟨hjobs, hsave⟩, hseek⟩, hfirst⟩, hsecond⟩ : (((env.overheadMeasurement = true ∧
          env.jobstatsRingbufSave = true) ∧ env.fseek = true) ∧ env.readFirst = true) ∧
          env.readSecond = true := by
        simpa only [OverheadEnv.measures, Bool.and_eq_true] using hmeasures
      simp only [hjobs, hsave, hseek, hfirst, hsecond, hmeasures, Bool.not_true, Bool.false_eq_true,
        if_false, if_true]
      simp only [bind, StateT.bind, calculate_apply, OverheadEnv.result]
      split_ifs with htimes htotal
      · exact congrArg outcome (out_of_measuring 0 (.inr rfl))
      · exact congrArg outcome (out_of_measuring 0 (.inl rfl))
      · rfl
    · rw [if_neg hmeasures]
      split_ifs with hjobs hsave hseek hfirst hsecond
      · exact congrArg outcome hout
      · exact congrArg outcome hout
      · exact congrArg outcome hout
      · exact congrArg outcome hout
      · exact congrArg outcome hout
      · simp only [Bool.not_eq_true', Bool.not_eq_false] at hjobs hsave hseek hfirst hsecond
        simp [OverheadEnv.measures, hjobs, hsave, hseek, hfirst, hsecond] at hmeasures

theorem outcome_overheadMeasurementThread (h : Host) (env : OverheadEnv) :
    outcome (overheadMeasurementThread h env .empty) =
      if env.lockMeToCpu = true ∧ env.schedFifoEnterMax = 0 then
        if env.prepares then
          outcome (measure env ⟨[.ringbufArray, .ringbuf, .statsLog], measuring⟩)
        else some ((-2, none), [])
      else none := by
  have htwo : (2 : ULong h) ≠ 0 := by
    have := h.two_pow_32_le_longBits
    intro hzero
    have htoNat := congrArg BitVec.toNat hzero
    simp only [BitVec.ofNat_eq_ofNat, BitVec.toNat_ofNat, Nat.zero_mod] at htoNat
    rw [Nat.mod_eq_of_lt (by omega)] at htoNat
    omega
  rw [overheadMeasurementThread]
  cases env.lockMeToCpu with
  | false => rfl
  | true =>
  by_cases hsched : env.schedFifoEnterMax = 0
  · simp only [hsched, Bool.not_true, Bool.false_eq_true, if_false, ne_eq, not_true, assign_bind,
      and_self, if_true, show ¬ (0 : ℤ) = -1 by decide]
    cases htmp : env.tmpfile with
    | false => simp only [OverheadEnv.prepares, htmp, Bool.false_and]; rfl
    | true =>
    simp only [acquire_true_bind, assign_bind, Option.isNone_some, Bool.false_eq_true, if_false,
      jobstatsRingbufCreate_bind htwo]
    by_cases hfound : env.mallocRingbuf = true ∧ env.mallocRingbufArray = true
    · simp only [hfound, and_self, if_true]
      cases hclock : env.clockGettime with
      | false => simp only [OverheadEnv.prepares, hclock, Bool.and_false]; rfl
      | true => simp only [OverheadEnv.prepares, hclock, htmp, hfound]; rfl
    · have hprepares : ¬ env.prepares = true := by
        intro hprepares
        simp only [OverheadEnv.prepares, Bool.and_eq_true] at hprepares
        exact hfound ⟨hprepares.1.1.2, hprepares.1.2⟩
      rw [if_neg hfound, if_neg hprepares]
      rfl
  · rw [if_neg (not_and.2 fun _ => hsched)]
    simp only [Bool.not_true, Bool.false_eq_true, if_false, hsched, ne_eq, not_false_eq_true,
      if_true]
    split_ifs <;> rfl

theorem outcome_eq_none {res : Option ((ℤ × Option Res) × Store Res Field)} :
    outcome res = none ↔ res = none :=
  Option.map_eq_none_iff

/-- What the thread leaves is all that is left. -/
theorem cleans_finishToStartOverhead_iff {h : Host} {env : OverheadEnv}
    (hcreate : env.pthreadCreate = true) {rc exitStatus : ℤ} {overhead : Option Res}
    {left : List Res}
    (hthread : outcome (overheadMeasurementThread h env .empty) =
      some ((exitStatus, overhead), left)) :
    Cleans rc (finishToStartOverhead h env .empty) ↔
      (env.pthreadJoin = true → exitStatus ≠ 0 → left = [] ∧ exitStatus = rc) ∧
        (env.pthreadJoin = false → left = [] ∧ -2 = rc) := by
  obtain ⟨⟨_, store⟩, hres, hpair⟩ := Option.map_eq_some_iff.1 hthread
  obtain ⟨rfl, rfl⟩ := Prod.mk.inj hpair
  have hfinish : finishToStartOverhead h env .empty =
      (if !env.pthreadJoin then pure (-2, none)
        else if exitStatus ≠ 0 then pure (exitStatus, none)
        else pure (0, overhead) : Proc Res Field (ℤ × Option Res)) store := by
    rw [finishToStartOverhead, if_neg (by simp [hcreate])]
    simp only [bind, StateT.bind, hres, Option.bind_some]
  rw [hfinish]
  cases env.pthreadJoin with
  | false =>
    change Cleans rc (some ((-2, none), store)) ↔ _
    rw [cleans_some_iff]
    simp
  | true =>
    by_cases hexit : exitStatus = 0
    · refine iff_of_true ?_ (by simp [hexit])
      rw [if_neg (by simp), if_neg (by simp [hexit])]
      exact cleans_some fun hrc => absurd rfl hrc
    · rw [if_neg (by simp), if_pos hexit]
      change Cleans rc (some ((exitStatus, none), store)) ↔ _
      rw [cleans_some_iff]
      simp [hexit]

/-- `finish_to_start_overhead` cleans up exactly when a thread that is created is given its CPU and
    its scheduler, there is memory for the times that it needs, and it can be joined if it has an
    overhead. -/
theorem finishToStartOverhead_cleans_iff (h : Host) (env : OverheadEnv) :
    Cleans (if env.refused then -1 else -2) (finishToStartOverhead h env .empty) ↔
      (env.pthreadCreate = true →
        (env.lockMeToCpu = true ∧ env.schedFifoEnterMax = 0) ∧
          (env.prepares = true → env.mallocTime .sum = true ∧
            (env.measures = true → env.findsTimes = true ∧
              (env.mallocTime .total = true → env.pthreadJoin = true)))) := by
  by_cases hcreate : env.pthreadCreate = true
  swap
  · have hfinish : finishToStartOverhead h env .empty = some ((-2, none), .empty) := by
      rw [finishToStartOverhead, if_pos (by simpa using hcreate)]
      rfl
    have hrefused : env.refused = false := by simp [OverheadEnv.refused, hcreate]
    rw [hfinish, hrefused]
    exact iff_of_true (cleans_some fun _ => ⟨rfl, rfl, rfl⟩) fun h => absurd h hcreate
  rw [imp_iff_right hcreate]
  have hthread := outcome_overheadMeasurementThread h env
  rw [measure_of_measuring] at hthread
  have hnone : outcome (overheadMeasurementThread h env .empty) = none →
      ¬ Cleans (if env.refused then -1 else -2) (finishToStartOverhead h env .empty) := by
    intro houtcome
    have hfinish : finishToStartOverhead h env .empty = none := by
      rw [finishToStartOverhead, if_neg (by simp [hcreate])]
      simp only [bind, StateT.bind, outcome_eq_none.1 houtcome, Option.bind_none]
    rw [hfinish]
    exact not_cleans_none _
  have hrefused : env.schedFifoEnterMax = 0 → (if env.refused then (-1 : ℤ) else -2) = -2 := by
    intro hsched
    rw [if_neg]
    simp [OverheadEnv.refused, hsched]
  split_ifs at hthread with hready hprepares hsum hmeasures htimes
  · rw [cleans_finishToStartOverhead_iff hcreate hthread, hrefused hready.2]
    simp only [hready, hprepares, hsum, hmeasures, htimes, true_and, true_implies, ne_eq,
      not_true, false_implies, implies_true, and_true, OverheadEnv.result]
    cases env.mallocTime .total <;> cases env.pthreadJoin <;> simp
  · exact iff_of_false (hnone hthread) fun h => htimes ((h.2 hprepares).2 hmeasures).1
  · rw [cleans_finishToStartOverhead_iff hcreate hthread, hrefused hready.2]
    exact iff_of_true (by simp)
      ⟨hready, fun _ => ⟨hsum, fun hmeasures' => absurd hmeasures' hmeasures⟩⟩
  · exact iff_of_false (hnone hthread) fun h => hsum (h.2 hprepares).1
  · rw [cleans_finishToStartOverhead_iff hcreate hthread, hrefused hready.2]
    exact iff_of_true (by simp) ⟨hready, fun hprepares' => absurd hprepares' hprepares⟩
  · exact iff_of_false (hnone hthread) fun h => hready h.1

/-- The constructors clean up exactly when what their clean-up reads has been assigned, and there is
    memory for their times. -/
theorem cleans_iff (args : TaskCreateArgs h) (env : CreateEnv) (oenv : OverheadEnv) :
    (Cleans (if env.refused then -2 else -1) (taskCreate args env .empty) ↔
      (env.mallocTaskStats = true → env.mallocResult = true →
        env.mallocName = true ∧ env.mallocStatsLogPath = true ∧ env.statsLog.isSome = true ∧
          (env.findsRingbuf args → env.mallocSum = true))) ∧
      (Cleans (if oenv.refused then -1 else -2) (finishToStartOverhead h oenv .empty) ↔
        (oenv.pthreadCreate = true →
          (oenv.lockMeToCpu = true ∧ oenv.schedFifoEnterMax = 0) ∧
            (oenv.prepares = true → oenv.mallocTime .sum = true ∧
              (oenv.measures = true → oenv.findsTimes = true ∧
                (oenv.mallocTime .total = true → oenv.pthreadJoin = true))))) :=
  ⟨taskCreate_cleans_iff args env, finishToStartOverhead_cleans_iff h oenv⟩

/-- With a log that cannot be opened, the field of the ring buffer is read before it is assigned.
    Without its scheduler, a thread reads fields of a task that it has not prepared. -/
theorem not_cleans :
    ¬ Cleans (-2) (taskCreate (.everySecond 1)
        ⟨⟨true, true, true, true, none, true, true⟩, true⟩ .empty) ∧
      ¬ Cleans (-1) (finishToStartOverhead .lp64
        ⟨true, true, true, -1, true, true, true, true, true, true, true, true, true, fun _ => true⟩
        .empty) :=
  ⟨not_cleans_none _, not_cleans_none _⟩

end RealtimeTests.Cleanup
