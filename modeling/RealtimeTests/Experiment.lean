import Mathlib.Algebra.Order.BigOperators.Group.Finset
import RealtimeTests.Task.RoundTrip
import RealtimeTests.Task.Success

/-!
# Experiments with several tasks

The task manager of `rate_monotonic/main.c` and `earliest_deadline_first/main.c`, and the threads
of its tasks, as a transition system: from the creation of the threads on, when the tasks have been
created. The manager creates the threads, sleeps until the stopping time, stops the tasks, joins
their threads and checks what they return.

A thread becomes real-time by `sched_fifo_enter` or `sched_deadline_enter`, which may fail, and runs
`task_start`. Its steps in it are those of `taskSystem`, and `task_stop` is the stopper's.

* `Run.task`: for each task, a run of the experiment is a run of the task.
* `experiment_ends`: the experiment comes to its end in a bounded number of steps after the last
  stop.
* `experiment_succeeds`: when it succeeds, the log of every task reads back as the jobs that the
  task has completed.
-/

namespace RealtimeTests.Experiment

open Lts

variable {h : Host} {n : ℕ}

/-- Where the manager is. -/
inductive ManagerPc
  /-- At `pthread_create` for a task. -/
  | create (i : ℕ)
  /-- At `clock_nanosleep`. -/
  | nanosleep
  /-- At `task_stop` of a task. -/
  | stop (i : ℕ)
  /-- At `pthread_join` of a task. -/
  | join (i : ℕ)
  /-- At the check of the return statuses. -/
  | check
  /-- It returns `EXIT_SUCCESS` or `EXIT_FAILURE` after cleaning up. -/
  | exit (success : Bool)
  deriving DecidableEq

/-- Where a thread is. -/
inductive Phase
  | notCreated
  /-- At `sched_fifo_enter` or `sched_deadline_enter`. -/
  | entering
  /-- In `task_start`. -/
  | running
  | exited
  deriving DecidableEq

/-- A thread with its task. -/
structure Thread (h : Host) where
  phase : Phase
  /-- `rc` of `struct task_thread_prms`. -/
  rc : ℤ
  task : RealtimeTests.State h

/-- The state of the manager and of the threads. -/
structure State (h : Host) (n : ℕ) where
  manager : ManagerPc
  threads : Fin n → Thread h

/-- The steps of the manager and of the threads. -/
inductive Label (h : Host) (n : ℕ)
  | create (i : Fin n) (succeeds : Bool)
  | nanosleep (succeeds : Bool)
  | stop (i : Fin n)
  | join (i : Fin n) (succeeds : Bool)
  | check
  /-- `sched_fifo_enter` or `sched_deadline_enter` returns `rc`. -/
  | enter (i : Fin n) (rc : ℤ)
  /-- A step in `task_start`. -/
  | task (i : Fin n) (l : RealtimeTests.Label h)
  /-- `task_start` returns. -/
  | leave (i : Fin n)
  deriving DecidableEq

/-- What a step is for a task. -/
def Label.ofTask (i : Fin n) : Label h n → Option (RealtimeTests.Label h)
  | .stop j => if j = i then some .stop else none
  | .task j l => if j = i then some l else none
  | _ => none

/-- The next stage of the manager for the tasks from `i` on, if there are any. -/
def ManagerPc.from (n : ℕ) (stage : ℕ → ManagerPc) (i : ℕ) (after : ManagerPc) : ManagerPc :=
  if i < n then stage i else after

namespace State

/-- A thread is changed. -/
def set (s : State h n) (i : Fin n) (t : Thread h) : State h n :=
  { s with threads := Function.update s.threads i t }

/-- What a step does. -/
def step (s : State h n) : Label h n → State h n
  | .create i succeeds =>
    if succeeds then
      { s.set i { s.threads i with phase := .entering } with
        manager := .from n .create (i + 1) .nanosleep }
    else { s with manager := .exit false }
  | .nanosleep succeeds =>
    { s with manager := if succeeds then .from n .stop 0 .check else .exit false }
  | .stop i =>
    { s.set i { s.threads i with task := (s.threads i).task.step .stop } with
      manager := .from n .stop (i + 1) (.join 0) }
  | .join i succeeds =>
    { s with manager := if succeeds then .from n .join (i + 1) .check else .exit false }
  | .check => { s with manager := .exit (decide (∀ i, (s.threads i).rc = 0)) }
  | .enter i rc =>
    s.set i { s.threads i with rc := rc, phase := if rc ≠ 0 then .exited else .running }
  | .task i l => s.set i { s.threads i with task := (s.threads i).task.step l }
  | .leave i =>
    s.set i { s.threads i with
      rc := if (s.threads i).task.rc ≠ 0 then -2 else 0
      phase := .exited }

/-- The process is over when the manager returns. -/
def Over (s : State h n) : Prop := ∃ success, s.manager = .exit success

instance (s : State h n) : Decidable s.Over :=
  match hs : s.manager with
  | .exit success => .isTrue ⟨success, hs⟩
  | .create _ | .nanosleep | .stop _ | .join _ | .check =>
    .isFalse fun ⟨_, h⟩ => nomatch hs.symm.trans h

end State

/-- When a step can be taken. -/
def Guard (s : State h n) : Label h n → Prop
  | .create i _ => s.manager = .create i
  | .nanosleep _ => s.manager = .nanosleep
  | .stop i => s.manager = .stop i
  | .join i succeeds =>
    s.manager = .join i ∧ (succeeds = true → (s.threads i).phase = .exited)
  | .check => s.manager = .check
  | .enter i _ => ¬s.Over ∧ (s.threads i).phase = .entering
  | .task i l => ¬s.Over ∧ (s.threads i).phase = .running ∧ l.ofThread = true ∧
      RealtimeTests.Guard .anywhere (s.threads i).task l
  | .leave i => ¬s.Over ∧ (s.threads i).phase = .running ∧ (s.threads i).task.pc = .done

instance (s : State h n) : ∀ l, Decidable (Guard s l)
  | .create _ _ | .nanosleep _ | .stop _ | .check => inferInstanceAs (Decidable (_ = _))
  | .join _ _ | .enter _ _ | .task _ _ | .leave _ => inferInstanceAs (Decidable (_ ∧ _))

/-- The experiment with tasks created with the given arguments. -/
def experiment (args : Fin n → TaskCreateArgs h) (env : Fin n → TaskCreateEnv) :
    Lts (State h n) (Label h n) where
  init := { s | s.manager = .from n .create 0 .nanosleep ∧ ∀ i,
    (s.threads i).phase = .notCreated ∧ (s.threads i).rc = 0 ∧
      (s.threads i).task ∈ (taskSystem (args i) (env i) .anywhere).init }
  next s l := if Guard s l then some (s.step l) else none

variable {args : Fin n → TaskCreateArgs h} {env : Fin n → TaskCreateEnv} {ls : List (Label h n)}
  {s s' : State h n} {l : Label h n}

theorem next_iff : (experiment args env).next s l = some s' ↔ Guard s l ∧ s.step l = s' := by
  simp [experiment]

@[simp]
theorem State.set_self (s : State h n) (i : Fin n) (t : Thread h) : (s.set i t).threads i = t :=
  Function.update_self ..

@[simp]
theorem State.set_of_ne (s : State h n) {i j : Fin n} (hij : j ≠ i) (t : Thread h) :
    (s.set i t).threads j = s.threads j :=
  Function.update_of_ne hij ..

@[simp]
theorem State.manager_set (s : State h n) (i : Fin n) (t : Thread h) :
    (s.set i t).manager = s.manager :=
  rfl

/-! ## The manager -/

namespace ManagerPc

/-- The thread of a task has been created. -/
def created (i : ℕ) : ManagerPc → Prop
  | .create j => i < j
  | .exit false => False
  | _ => True

/-- A task has been stopped. -/
def stopped (i : ℕ) : ManagerPc → Prop
  | .stop j => i < j
  | .join _ | .check | .exit true => True
  | _ => False

/-- The thread of a task has been joined. -/
def joined (i : ℕ) : ManagerPc → Prop
  | .join j => i < j
  | .check | .exit true => True
  | _ => False

/-- The task that the manager is at is one. -/
def Bounded (n : ℕ) : ManagerPc → Prop
  | .create j | .stop j | .join j => j < n
  | _ => True

theorem bounded_from {stage : ℕ → ManagerPc} (hstage : ∀ j, j < n → (stage j).Bounded n)
    {after : ManagerPc} (hafter : after.Bounded n) (j : ℕ) :
    (ManagerPc.from n stage j after).Bounded n := by
  rw [ManagerPc.from]
  split_ifs with hj
  · exact hstage j hj
  · exact hafter

theorem created_from {i j : ℕ} (hi : i < n) :
    (ManagerPc.from n .create j .nanosleep).created i ↔ i < j := by
  rw [ManagerPc.from]
  split_ifs with hj
  · rfl
  · exact iff_of_true trivial (by omega)

theorem stopped_from {i j : ℕ} (hi : i < n) :
    (ManagerPc.from n .stop j (.join 0)).stopped i ↔ i < j := by
  rw [ManagerPc.from]
  split_ifs with hj
  · rfl
  · exact iff_of_true trivial (by omega)

theorem joined_from {i j : ℕ} (hi : i < n) :
    (ManagerPc.from n .join j .check).joined i ↔ i < j := by
  rw [ManagerPc.from]
  split_ifs with hj
  · rfl
  · exact iff_of_true trivial (by omega)

theorem not_stopped_from {i : ℕ} (j : ℕ) : ¬(ManagerPc.from n .create j .nanosleep).stopped i := by
  rw [ManagerPc.from]
  split_ifs <;> exact id

theorem not_joined_from {i : ℕ} (j : ℕ) : ¬(ManagerPc.from n .create j .nanosleep).joined i := by
  rw [ManagerPc.from]
  split_ifs <;> exact id

theorem not_joined_from_stop {i : ℕ} (j : ℕ) :
    ¬(ManagerPc.from n .stop j (.join 0)).joined i := by
  rw [ManagerPc.from]
  split_ifs
  · exact id
  · exact Nat.not_lt_zero _

theorem from_ne {stage : ℕ → ManagerPc} {j : ℕ} {after pc : ManagerPc} (hstage : stage j ≠ pc)
    (hafter : after ≠ pc) : ManagerPc.from n stage j after ≠ pc := by
  rw [ManagerPc.from]
  split_ifs
  · exact hstage
  · exact hafter

end ManagerPc

/-- What the manager has done shows in the threads. -/
structure Managed (s : State h n) : Prop where
  created : ∀ i : Fin n, s.manager.created i → (s.threads i).phase ≠ .notCreated
  stopped : s.manager ≠ .exit false →
    ∀ i : Fin n, (s.threads i).task.stopper ≠ .idle ↔ s.manager.stopped i
  joined : ∀ i : Fin n, s.manager.joined i → (s.threads i).phase = .exited
  returned : ∀ i, (s.threads i).phase = .exited → (s.threads i).rc = 0 →
    (s.threads i).task.pc = .done ∧ (s.threads i).task.rc = 0
  success : s.manager = .exit true → ∀ i, (s.threads i).rc = 0

/-- A step of a thread. -/
theorem Managed.set (hs : Managed s) (hover : ¬s.Over) {i : Fin n} {t : Thread h}
    (hcreated : t.phase ≠ .notCreated) (hjoined : s.manager.joined i → t.phase = .exited)
    (hstopper : t.task.stopper = (s.threads i).task.stopper)
    (hreturned : t.phase = .exited → t.rc = 0 → t.task.pc = .done ∧ t.task.rc = 0) :
    Managed (s.set i t) := by
  refine ⟨fun j hj => ?_, fun hne j => ?_, fun j hj => ?_, fun j => ?_,
    fun hexit => absurd ⟨true, hexit⟩ hover⟩
  all_goals by_cases hij : j = i
  · rwa [hij, State.set_self]
  · rw [State.set_of_ne _ hij]
    exact hs.created j hj
  · rw [hij, State.set_self, hstopper]
    exact hs.stopped hne i
  · rw [State.set_of_ne _ hij]
    exact hs.stopped hne j
  · rw [hij, State.set_self]
    exact hjoined (hij ▸ hj)
  · rw [State.set_of_ne _ hij]
    exact hs.joined j hj
  · rw [hij, State.set_self]
    exact hreturned
  · rw [State.set_of_ne _ hij]
    exact hs.returned j

/-- The threads stay as they are while the manager moves. -/
theorem Managed.move (hs : Managed s) {manager : ManagerPc}
    (hcreated : ∀ i : Fin n, manager.created i → (s.threads i).phase ≠ .notCreated)
    (hne : manager ≠ .exit false → s.manager ≠ .exit false)
    (hstopped : manager ≠ .exit false → ∀ i : Fin n, s.manager.stopped i ↔ manager.stopped i)
    (hjoined : ∀ i : Fin n, manager.joined i → (s.threads i).phase = .exited)
    (hsuccess : manager = .exit true → ∀ i, (s.threads i).rc = 0) :
    Managed { s with manager := manager } :=
  ⟨hcreated, fun hexit i => (hs.stopped (hne hexit) i).trans (hstopped hexit i), hjoined,
    hs.returned, hsuccess⟩

theorem not_over_of_ne {s : State h n} (hs : ∀ success, s.manager ≠ .exit success) : ¬s.Over :=
  fun ⟨success, h⟩ => hs success h

theorem Managed.step (hs : Managed s) (hg : Guard s l) : Managed (s.step l) := by
  cases l with
  | create i succeeds =>
    have hover : ¬s.Over := not_over_of_ne fun _ => by
      rw [hg]
      simp
    cases succeeds with
    | false =>
      exact hs.move (fun _ => False.elim) (fun h => absurd rfl h) (fun h => absurd rfl h)
        (fun _ => False.elim) (by simp)
    | true =>
      have hset : Managed (s.set i { s.threads i with phase := .entering }) :=
        hs.set hover (by simp) (fun hj => by rw [hg] at hj; exact hj.elim) rfl (by simp)
      refine hset.move (fun j hj => ?_) (fun _ hexit => hover ⟨_, hexit⟩) (fun _ j => ?_)
        (fun j hj => ?_) fun hexit => ?_
      · rcases Nat.lt_succ_iff_lt_or_eq.1 ((ManagerPc.created_from j.isLt).1 hj) with hlt | heq
        · exact hset.created j (by rwa [State.manager_set, hg])
        · rw [Fin.ext heq, State.set_self]
          simp
      · rw [State.manager_set, hg]
        exact iff_of_false id (ManagerPc.not_stopped_from _)
      · exact absurd hj (ManagerPc.not_joined_from _)
      · exact absurd hexit (ManagerPc.from_ne (by simp) (by simp))
  | nanosleep succeeds =>
    have hne : s.manager ≠ .exit false := by
      rw [hg]
      simp
    cases succeeds with
    | false =>
      exact hs.move (fun _ => False.elim) (fun h => absurd rfl h) (fun h => absurd rfl h)
        (fun _ => False.elim) (by simp)
    | true =>
      refine hs.move (fun i _ => hs.created i (by rw [hg]; trivial)) (fun _ => hne) (fun _ i => ?_)
        (fun i hi => ?_) fun hexit => absurd hexit (ManagerPc.from_ne (by simp) (by simp))
      · rw [hg, ManagerPc.from, if_pos i.pos]
        exact iff_of_false id (Nat.not_lt_zero _)
      · rw [ManagerPc.from, if_pos i.pos] at hi
        exact hi.elim
  | stop i =>
    have hne : s.manager ≠ .exit false := by
      rw [hg]
      simp
    have hframe (j : Fin n) : ((s.step (.stop i)).threads j).phase = (s.threads j).phase ∧
        ((s.step (.stop i)).threads j).rc = (s.threads j).rc ∧
        ((s.step (.stop i)).threads j).task.pc = (s.threads j).task.pc ∧
        ((s.step (.stop i)).threads j).task.rc = (s.threads j).task.rc := by
      by_cases hij : j = i
      · subst hij
        simp [State.step, RealtimeTests.State.step]
      · simp [State.step, hij]
    refine ⟨fun j _ => ?_, fun _ j => ?_, fun j hj => ?_, fun j => ?_,
      fun hexit => absurd hexit (ManagerPc.from_ne (by simp) (by simp))⟩
    · rw [(hframe j).1]
      exact hs.created j (by rw [hg]; trivial)
    · refine Iff.trans ?_ (ManagerPc.stopped_from j.isLt).symm
      by_cases hij : j = i
      · subst hij
        refine iff_of_true ?_ (Nat.lt_succ_self _)
        simp only [State.step, State.set_self, RealtimeTests.State.step]
        split_ifs <;> simp
      · have hstopped := hs.stopped hne j
        rw [hg] at hstopped
        simp only [State.step, State.set_of_ne _ hij]
        refine hstopped.trans ?_
        have hval : j.val ≠ i.val := fun heq => hij (Fin.ext heq)
        change j.val < i.val ↔ _
        omega
    · exact absurd hj (ManagerPc.not_joined_from_stop _)
    · obtain ⟨hphase, hrc, hpc, htask⟩ := hframe j
      rw [hphase, hrc, hpc, htask]
      exact hs.returned j
  | join i succeeds =>
    obtain ⟨hm, hphase⟩ := hg
    cases succeeds with
    | false =>
      exact hs.move (fun _ => False.elim) (fun h => absurd rfl h) (fun h => absurd rfl h)
        (fun _ => False.elim) (by simp)
    | true =>
      refine hs.move (fun j _ => hs.created j (by rw [hm]; trivial))
        (fun _ => by simp [hm]) (fun _ j => ?_) (fun j hj => ?_)
        fun hexit => absurd hexit (ManagerPc.from_ne (by simp) (by simp))
      · rw [hm, if_pos rfl, ManagerPc.from]
        split_ifs <;> exact Iff.rfl
      · rcases Nat.lt_succ_iff_lt_or_eq.1 ((ManagerPc.joined_from j.isLt).1 hj) with hlt | heq
        · exact hs.joined j (by rwa [hm])
        · rw [Fin.ext heq]
          exact hphase rfl
  | check =>
    have hne : s.manager ≠ .exit false := by
      rw [hg]
      simp
    have hjoined (i : Fin n) := hs.joined i (by rw [hg]; trivial)
    refine hs.move (fun i _ => hs.created i (by rw [hg]; trivial)) (fun _ => hne)
      (fun hexit i => ?_) (fun i _ => hjoined i) fun hexit => ?_
    · by_cases hrc : ∀ i, (s.threads i).rc = 0
      · rw [hg, decide_eq_true hrc]
        exact Iff.rfl
      · exact absurd (congrArg _ (decide_eq_false hrc)) hexit
    · exact of_decide_eq_true (ManagerPc.exit.inj hexit)
  | enter i rc =>
    obtain ⟨hover, hphase⟩ := hg
    refine hs.set hover ?_ (fun hj => ?_) rfl fun hexited hrc => ?_
    · dsimp only
      split_ifs <;> decide
    · cases hphase.symm.trans (hs.joined i hj)
    · exact absurd hrc (by simpa using hexited)
  | task i l =>
    obtain ⟨hover, hphase, hl, -⟩ := hg
    refine hs.set hover (by rw [hphase]; decide) (hs.joined i)
      (stopper_step_of_ofThread hl).1 fun hexited => ?_
    cases hphase.symm.trans hexited
  | leave i =>
    obtain ⟨hover, hphase, hpc⟩ := hg
    refine hs.set hover (by simp) (fun _ => rfl) rfl fun _ hrc => ⟨hpc, ?_⟩
    by_contra hne
    dsimp only at hrc
    rw [if_pos hne] at hrc
    cases hrc

/-- In every run, what the manager has done shows in the threads. -/
theorem Run.managed (hr : (experiment args env).Run ls s) : Managed s := by
  refine hr.state_invariant (P := Managed) (fun s ⟨hm, hs⟩ => ?_) fun s l s' hs hst => ?_
  · refine ⟨fun i hi => ?_, fun _ i => ?_, fun i hi => ?_, fun i hi => ?_, fun hexit => ?_⟩
    · rw [hm] at hi
      exact absurd ((ManagerPc.created_from i.isLt).1 hi) (Nat.not_lt_zero _)
    · obtain ⟨-, -, rc, tau, dummy, -, htask⟩ := hs i
      rw [hm, htask]
      exact iff_of_false (fun hne => hne rfl) (ManagerPc.not_stopped_from _)
    · exact absurd (hm ▸ hi) (ManagerPc.not_joined_from _)
    · cases (hs i).1.symm.trans hi
    · exact absurd (hm.symm.trans hexit) (ManagerPc.from_ne nofun nofun)
  · obtain ⟨hg, rfl⟩ := next_iff.1 hst
    exact hs.step hg

theorem Run.bounded (hr : (experiment args env).Run ls s) : s.manager.Bounded n := by
  refine hr.state_invariant (P := fun s => s.manager.Bounded n) (fun s hs => ?_)
    fun s l s' hs hst => ?_
  · rw [hs.1]
    exact ManagerPc.bounded_from (fun _ => id) (by trivial) 0
  · obtain ⟨-, rfl⟩ := next_iff.1 hst
    cases l with
    | create i succeeds =>
      cases succeeds with
      | false => trivial
      | true => exact ManagerPc.bounded_from (fun _ => id) (by trivial) _
    | nanosleep succeeds =>
      cases succeeds with
      | false => trivial
      | true => exact ManagerPc.bounded_from (fun _ => id) (by trivial) _
    | stop i => exact ManagerPc.bounded_from (fun _ => id) (by exact i.pos) _
    | join i succeeds =>
      cases succeeds with
      | false => trivial
      | true => exact ManagerPc.bounded_from (fun _ => id) (by trivial) _
    | check => trivial
    | enter i rc => exact hs
    | task i l => exact hs
    | leave i => exact hs

/-! ## The tasks -/

/-- For each task, a run of the experiment is a run of the task. -/
theorem Run.task (hr : (experiment args env).Run ls s) (i : Fin n) :
    (taskSystem (args i) (env i) .anywhere).Run (ls.filterMap (Label.ofTask i))
      (s.threads i).task := by
  refine hr.project (f := fun s => (s.threads i).task) (fun s ⟨_, hs⟩ => (hs i).2.2)
    fun ls s l s' hr hst => ?_
  obtain ⟨hg, rfl⟩ := next_iff.1 hst
  -- A thread is changed in what is not of its task, or is that of another task.
  have hother {j : Fin n} (hij : i ≠ j) (t : Thread h) (manager : ManagerPc) :
      (({ s.set j t with manager := manager } : State h n).threads i).task =
        (s.threads i).task := by
    rw [State.set_of_ne _ hij]
  have hsame (j : Fin n) {t : Thread h} (ht : t.task = (s.threads j).task) :
      ((s.set j t).threads i).task = (s.threads i).task := by
    by_cases hij : i = j
    · rw [hij, State.set_self, ht]
    · rw [State.set_of_ne _ hij]
  cases l with
  | create j succeeds =>
    cases succeeds with
    | false => exact .inl ⟨rfl, rfl⟩
    | true => exact .inl ⟨hsame j rfl, rfl⟩
  | nanosleep succeeds => exact .inl ⟨rfl, rfl⟩
  | join j succeeds => exact .inl ⟨rfl, rfl⟩
  | check => exact .inl ⟨rfl, rfl⟩
  | enter j rc => exact .inl ⟨hsame j rfl, rfl⟩
  | leave j => exact .inl ⟨hsame j rfl, rfl⟩
  | stop j =>
    by_cases hij : j = i
    · subst hij
      have hidle : (s.threads j).task.stopper = .idle := by
        have hstopped := (Run.managed hr).stopped (fun hexit => nomatch hexit.symm.trans hg) j
        rw [hg] at hstopped
        exact not_not.1 fun hne => Nat.lt_irrefl _ (hstopped.1 hne)
      refine .inr ⟨.stop, if_pos rfl, RealtimeTests.next_iff.2 ⟨hidle, ?_⟩⟩
      simp only [State.step, State.set_self]
    · exact .inl ⟨hother (Ne.symm hij) _ _, if_neg hij⟩
  | task j l =>
    by_cases hij : j = i
    · subst hij
      refine .inr ⟨l, if_pos rfl, RealtimeTests.next_iff.2 ⟨hg.2.2.2, ?_⟩⟩
      simp only [State.step, State.set_self]
    · exact .inl ⟨hother (Ne.symm hij) _ s.manager, if_neg hij⟩

/-! ## The end -/

/-- The number of steps until a thread exits, once its task is stopped. -/
def Thread.remaining (t : Thread h) : ℕ :=
  match t.phase with
  | .entering => 10
  | .running => t.task.pc.remaining + 1
  | .notCreated | .exited => 0

/-- The number of steps until the manager returns, once the tasks are stopped and the threads have
    exited. -/
def ManagerPc.remaining (n : ℕ) : ManagerPc → ℕ
  | .join j => n - j + 1
  | .check => 1
  | _ => 0

/-- The number of steps until the manager returns, once the tasks are stopped. -/
def State.remaining (s : State h n) : ℕ :=
  s.manager.remaining n + ∑ i, (s.threads i).remaining

theorem Thread.remaining_le (t : Thread h) : t.remaining ≤ 10 := by
  have := t.task.pc.remaining_le
  rw [remaining]
  split <;> omega

/-- A step of a thread is one of those remaining. -/
theorem State.remaining_set {i : Fin n} {t : Thread h}
    (ht : t.remaining + 1 ≤ (s.threads i).remaining) :
    (s.set i t).remaining + 1 ≤ s.remaining := by
  have hsum : ∑ j, ((s.set i t).threads j).remaining < ∑ j, (s.threads j).remaining := by
    refine Finset.sum_lt_sum (fun j _ => ?_) ⟨i, Finset.mem_univ i, by rwa [set_self]⟩
    by_cases hij : j = i
    · subst hij
      rw [set_self]
      exact (Nat.le_succ _).trans ht
    · rw [set_of_ne _ hij]
  rw [remaining, remaining, manager_set]
  omega

/-- The manager joins the threads, or is past it. -/
def State.joining (s : State h n) : Prop := (∃ i, s.manager = .join i) ∨ s.manager = .check ∨ s.Over

/-- A step of the manager or of a thread is one of those remaining, when the tasks are stopped. -/
theorem remaining_step (hap : ∀ i, (args i).aperiodicRelease = false)
    (hr : (experiment args env).Run ls s) (hs : s.joining) (hg : Guard s l) :
    (s.step l).joining ∧ (s.step l).remaining + 1 ≤ s.remaining := by
  have hne {pc : ManagerPc} (hpc : s.manager = pc) (hjoin : ∀ i, pc ≠ .join i)
      (hcheck : pc ≠ .check) (hexit : ∀ success, pc ≠ .exit success) : False := by
    rcases hs with ⟨j, hj⟩ | hj | ⟨success, hj⟩
    · exact hjoin j (hpc.symm.trans hj)
    · exact hcheck (hpc.symm.trans hj)
    · exact hexit success (hpc.symm.trans hj)
  cases l with
  | create i succeeds => exact (hne hg nofun nofun nofun).elim
  | nanosleep succeeds => exact (hne hg nofun nofun nofun).elim
  | stop i => exact (hne hg nofun nofun nofun).elim
  | join i succeeds =>
    have hm := hg.1
    have hi := i.isLt
    rw [State.step, State.joining, State.remaining, State.remaining, hm, ManagerPc.from]
    dsimp only
    split_ifs with hsucceeds hlast
    · refine ⟨.inl ⟨_, rfl⟩, ?_⟩
      simp only [ManagerPc.remaining]
      omega
    · refine ⟨.inr (.inl rfl), ?_⟩
      simp only [ManagerPc.remaining]
      omega
    · refine ⟨.inr (.inr ⟨_, rfl⟩), ?_⟩
      simp only [ManagerPc.remaining]
      omega
  | check =>
    have hm : s.manager = .check := hg
    refine ⟨.inr (.inr ⟨_, rfl⟩), ?_⟩
    rw [State.step, State.remaining, State.remaining, hm]
    simp only [ManagerPc.remaining]
    omega
  | enter i rc =>
    refine ⟨hs, State.remaining_set ?_⟩
    have hrunning := (s.threads i).task.pc.remaining_le.1
    have hentering : (s.threads i).remaining = 10 := by rw [Thread.remaining, hg.2]
    rw [hentering, Thread.remaining]
    dsimp only
    split_ifs
    · exact Nat.succ_le_succ (Nat.zero_le _)
    · exact Nat.succ_le_succ (Nat.succ_le_succ hrunning)
  | task i l =>
    obtain ⟨hover, hphase, hl, hg⟩ := hg
    refine ⟨hs, State.remaining_set ?_⟩
    have hrun := Run.task hr i
    have hcoh := Run.coherent hrun
    -- The task has been stopped.
    have hstopped : s.manager.stopped i := by
      rcases hs with ⟨j, hj⟩ | hj | hexit
      · rw [hj]
        trivial
      · rw [hj]
        trivial
      · exact absurd hexit hover
    have hidle := ((Run.managed hr).stopped (fun hexit => hover ⟨_, hexit⟩) i).2 hstopped
    have hstep := (RealtimeTests.remaining_step (Run.aperiodic_eq_zero (hap i) hrun)
      (mt hcoh.stopped.1 hidle) hcoh hg).1
    rw [if_pos hl] at hstep
    simp only [Thread.remaining, hphase]
    omega
  | leave i =>
    refine ⟨hs, State.remaining_set ?_⟩
    have hrunning : (s.threads i).remaining = (s.threads i).task.pc.remaining + 1 := by
      rw [Thread.remaining, hg.2.1]
    rw [hrunning]
    exact Nat.succ_le_succ (Nat.zero_le _)

/-- A step in which nothing fails that the manager waits for. -/
def Label.succeeds : Label h n → Bool
  | .create _ succeeds | .nanosleep succeeds | .join _ succeeds => succeeds
  | _ => true

/-- Until the manager returns, a step can be taken in which it does not fail. -/
theorem exists_step (hN : ∀ i, (args i).ringbufferSize ≠ 0)
    (hap : ∀ i, (args i).aperiodicRelease = false) (hr : (experiment args env).Run ls s)
    (hover : ¬s.Over) : ∃ l, l.succeeds = true ∧ Guard s l := by
  have hbounded := Run.bounded hr
  have hmanaged := Run.managed hr
  cases hm : s.manager with
  | create j =>
    rw [hm] at hbounded
    exact ⟨.create ⟨j, hbounded⟩ true, rfl, hm⟩
  | nanosleep => exact ⟨.nanosleep true, rfl, hm⟩
  | stop j =>
    rw [hm] at hbounded
    exact ⟨.stop ⟨j, hbounded⟩, rfl, hm⟩
  | join j =>
    rw [hm] at hbounded
    let i : Fin n := ⟨j, hbounded⟩
    -- Until the thread has exited, it can take a step.
    cases hphase : (s.threads i).phase with
    | notCreated => exact absurd hphase (hmanaged.created i (by rw [hm]; trivial))
    | entering => exact ⟨.enter i 0, rfl, hover, hphase⟩
    | running =>
      by_cases hdone : (s.threads i).task.pc = .done
      · exact ⟨.leave i, rfl, hover, hphase, hdone⟩
      · obtain ⟨l, hl, hg⟩ := Run.exists_step (hN i) (hap i) (Run.task hr i) hdone
        exact ⟨.task i l, rfl, hover, hphase, hl, hg⟩
    | exited => exact ⟨.join i true, rfl, hm, fun _ => hphase⟩
  | check => exact ⟨.check, rfl, hm⟩
  | exit success => exact absurd ⟨success, hm⟩ hover

/-- The experiment comes to its end:

    * until the manager returns, a step can be taken in which it does not fail;
    * once the last task is stopped, there are at most eleven steps for each task, and one more. -/
theorem experiment_ends (hN : ∀ i, (args i).ringbufferSize ≠ 0)
    (hap : ∀ i, (args i).aperiodicRelease = false) (hr : (experiment args env).Run ls s) :
    (¬s.Over → ∃ l, l.succeeds = true ∧ Guard s l) ∧
      ∀ ms i ns, ls = ms ++ .stop i :: ns → i.val + 1 = n → ns.length ≤ 11 * n + 1 := by
  refine ⟨exists_step hN hap hr, fun ms i ns hls hi => ?_⟩
  subst hls
  have hle := hr.length_since_le (μ := State.remaining) (b := 11 * n + 1)
    (P := fun s => (∃ ls, (experiment args env).Run ls s) ∧ s.joining)
    (fun s s' hr hst => ?_) fun s l s' ⟨⟨ls, hr⟩, hs⟩ hst => ?_
  · exact (Nat.le_add_right _ _).trans hle
  · refine ⟨⟨⟨_, hr.snoc hst⟩, ?_⟩, ?_⟩
    all_goals obtain ⟨hg, rfl⟩ := next_iff.1 hst
    · exact .inl ⟨0, if_neg (by omega)⟩
    · have hjoin : (s.step (.stop i)).manager = .join 0 := if_neg (by omega)
      have hsum : ∑ j, ((s.step (.stop i)).threads j).remaining ≤ n * 10 := by
        have := Finset.sum_le_card_nsmul Finset.univ
          (fun j => ((s.step (.stop i)).threads j).remaining) 10 fun j _ => Thread.remaining_le _
        rwa [Finset.card_univ, Fintype.card_fin, smul_eq_mul] at this
      rw [State.remaining, hjoin, ManagerPc.remaining]
      omega
  · obtain ⟨hjoining, hlt⟩ := remaining_step hap hr hs (next_iff.1 hst).1
    obtain ⟨hg, rfl⟩ := next_iff.1 hst
    exact ⟨⟨⟨_, hr.snoc hst⟩, hjoining⟩, hlt⟩

/-- When the experiment succeeds, no call of a task has failed, and the log of the task reads back
    as what was logged: the task and the saved records of the jobs that it has completed. -/
theorem experiment_succeeds (hN : ∀ i, (args i).ringbufferSize ≠ 0)
    (hap : ∀ i, (args i).aperiodicRelease = false) (hname : ∀ i, (args i).Named)
    (htimes : ∀ i, (args i).Narrow) (hr : (experiment args env).Run ls s)
    (hret : ∀ i t ret, .task i (.sleep t ret) ∈ ls → 0 ≤ ret) (hexit : s.manager = .exit true)
    (i : Fin n) :
    (ls.filterMap (Label.ofTask i)).any RealtimeTests.Label.failed = false ∧
    flushes (ls.filterMap (Label.ofTask i)) = 1 ∧
    ∃ preamble records,
      records = savedRecords (args i).ringbufferSize (args i).ringbufferDisableOverrun
        (completed (ls.filterMap (Label.ofTask i))) ∧
      (s.threads i).task.disk = some ((args i).log preamble records) ∧
      ∀ (σ : Type) (cb : Callbacks h σ), cb.Accepting → ∀ (uninit : Bytes) (st : σ),
        ∃ fuel r, taskStatisticsRead cb uninit true fuel
            (InFile.opened ((args i).log preamble records) false) st = some r ∧
          r.exitCode = 0 ∧ r.task = some (s.threads i).task.tau.toTaskInfo ∧ r.jobs = records ∧
          r.state = cb.called r.task r.jobs st := by
  have hmanaged := Run.managed hr
  have hrun := Run.task hr i
  have hexited := hmanaged.joined i (by rw [hexit]; trivial)
  obtain ⟨hdone, hrc⟩ := hmanaged.returned i hexited (hmanaged.success hexit i)
  have hsleeps : ∀ t ret, .sleep t ret ∈ ls.filterMap (Label.ofTask i) → 0 ≤ ret := by
    intro t ret hmem
    obtain ⟨l, hl, hof⟩ := List.mem_filterMap.1 hmem
    cases l <;> simp only [Label.ofTask] at hof <;> try cases hof
    · split_ifs at hof
      cases hof
    · split_ifs at hof with hi
      cases hof
      exact hret i t ret (hi ▸ hl)
  obtain ⟨hfailed, preamble, hinfo, hdisk⟩ := Run.succeeds (hN i) (hap i) hrun hsleeps hdone hrc
  refine ⟨hfailed, by rw [Run.flushes_eq hrun (Run.handlersComplete_of_periodic (hap i) hrun),
    if_pos (.inr hdone)], preamble, _, rfl, hdisk, fun σ cb ha uninit st => ?_⟩
  obtain ⟨fuel, hread⟩ := taskStatisticsRead_log (hname i) (hN i) ha uninit st
  exact ⟨fuel, _, hread, rfl, by rw [hinfo, (htimes i).toTaskInfo (hname i)], rfl,
    state_taskStatisticsRead hread⟩

/-- Two tasks, of which each is stopped in its first job. -/
def twoTasks : List (Label .lp64 2) :=
  [.create 0 true, .create 1 true, .enter 0 0, .enter 1 0, .task 0 (.sleep ⟨9, 0⟩ 0),
    .task 1 (.sleep ⟨9, 0⟩ 0), .task 0 (.jobBegin (some ⟨9, 0⟩)), .nanosleep true, .stop 0,
    .task 1 (.jobBegin (some ⟨9, 7⟩)), .stop 1, .task 0 .programEnd,
    .task 0 (.jobEnd (some ⟨9, 5⟩) (some ⟨⟨9, 0⟩, ⟨9, 5⟩⟩)), .task 0 .nextRelease, .task 0 .test,
    .task 0 (.flush 2), .task 1 .programEnd,
    .task 1 (.jobEnd (some ⟨9, 8⟩) (some ⟨⟨9, 7⟩, ⟨9, 8⟩⟩)), .task 1 .nextRelease,
    .task 0 (.close true), .leave 0, .task 1 .test, .join 0 true, .task 1 (.flush 2),
    .task 1 (.close true), .leave 1, .join 1 true, .check]

/-- The experiment with them. -/
def twoTasksStart : State .lp64 2 where
  manager := .create 0
  threads _ := ⟨.notCreated, 0, (newTask (TaskCreateArgs.everySecond 2)
    (.succeeding fun _ => true)).get rfl⟩

theorem run_twoTasks : ∃ s, (experiment (fun _ : Fin 2 => TaskCreateArgs.everySecond 2)
    fun _ => .succeeding fun _ => true).Run twoTasks s ∧ s.manager = .exit true :=
  ⟨_, run_of_exec (s := twoTasksStart)
    ⟨rfl, fun _ => ⟨rfl, rfl, newTask_mem_init .anywhere rfl⟩⟩ rfl, rfl⟩

theorem experiment_ends_two_tasks : ∃ s, (experiment
    (fun _ : Fin 2 => TaskCreateArgs.everySecond 2) fun _ => .succeeding fun _ => true).Run
      twoTasks s ∧ (twoTasks.drop 11).length ≤ 11 * 2 + 1 := by
  obtain ⟨s, hr, -⟩ := run_twoTasks
  exact ⟨s, hr, (experiment_ends (by decide) (by decide) hr).2 (twoTasks.take 10) 1 _ rfl rfl⟩

theorem experiment_succeeds_two_tasks : ∃ s preamble, (experiment
    (fun _ : Fin 2 => TaskCreateArgs.everySecond 2) fun _ => .succeeding fun _ => true).Run
      twoTasks s ∧ (s.threads 1).task.disk =
        some ((TaskCreateArgs.everySecond 2).log preamble [⟨⟨9, 7⟩, ⟨9, 8⟩⟩]) := by
  obtain ⟨s, hr, hexit⟩ := run_twoTasks
  obtain ⟨-, -, preamble, records, hrecords, hdisk, -⟩ := experiment_succeeds (by decide)
    (by decide) (fun _ => ⟨by decide, by decide⟩) (fun _ => ⟨by decide, by decide, by decide,
      by decide, by decide, by decide, by decide⟩) hr (by simp [twoTasks]) hexit 1
  exact ⟨s, preamble, hr, hdisk.trans (by rw [hrecords]; rfl)⟩

end RealtimeTests.Experiment
