import Mathlib.Data.Fintype.Defs
import Mathlib.Data.List.Nodup
import Mathlib.Logic.Function.Basic
import RealtimeTests.Lts

/-!
# Measuring the overhead of communication

The measurement thread of `bwi-client_server/client.c` asks the server with `SIGUSR1`
to enter `SCHED_FIFO`, polls its scheduler until it has, exchanges a message with it,
and asks it with `SIGUSR1` to leave. The handler of `bwi-client_server/server.c` enters
`SCHED_FIFO` if it has not entered it before and leaves it otherwise, and has its
subserver do the same beforehand.

The steps are those of the thread of each client and of the handler of each server, cut
where they look at another process or are looked at; what the calls return is in the
label. Signals which are pending coalesce, and the handler is not interrupted by the
signal that it handles.

* `Run.measures_in_fifo`: when the measurements of clients which share a server do not
  overlap, and nothing fails in a handler, a client measures servers in `SCHED_FIFO`
  only, and all of them are back to their schedulers after the measurements.
* `toggled_out`: a client which starts a measurement takes the server of a client which
  is measuring out of `SCHED_FIFO`.
-/

namespace RealtimeTests.Fifo

/-- `struct scheduler`: a policy with its parameters. -/
inductive Scheduler
  | fifo (priority : ℕ)
  | other (parameters : ℕ)
  deriving DecidableEq

/-- Whether the policy is `SCHED_FIFO`, as `sched_getscheduler` tells. -/
def Scheduler.isFifo : Scheduler → Bool
  | fifo _ => true
  | other _ => false

/-- What `sched_fifo_enter_max` sets: the priority is `sched_get_priority_max(SCHED_FIFO)`. -/
def fifoMax : Scheduler := .fifo 99

/-- How many times a scheduler is polled. -/
def pollCount : ℕ := 500

/-- What `sched_fifo_enter_max` and `sched_fifo_leave` return: they may fail, the first one after
    it has saved the scheduler or before. -/
inductive Switched
  | ok
  | failed (saved : Bool)
  deriving DecidableEq

/-! ## The handler of a server -/

/-- Where the handler is, and whether it is entering `SCHED_FIFO`. -/
inductive HandlerPc
  /-- Not running. -/
  | idle
  /-- At the signal to the subserver, if there is one. -/
  | signal (enter : Bool)
  /-- At the condition of the loop that polls the subserver. -/
  | poll (enter : Bool) (counter : ℕ)
  /-- At `sched_fifo_enter_max` or `sched_fifo_leave`. -/
  | switch (enter : Bool)
  /-- At the assignment to `old_scheduler_set`. -/
  | flag (enter : Bool)
  /-- The server has exited with a fatal error. -/
  | dead
  deriving DecidableEq

/-- Whether the handler is entering or leaving, before it changes the scheduler. -/
def HandlerPc.changing : HandlerPc → Option Bool
  | signal enter | poll enter _ | switch enter => some enter
  | idle | flag _ | dead => none

/-- A server, with its scheduler and the `SIGUSR1` which is pending. -/
structure Server where
  scheduler : Scheduler
  oldSchedulerSet : Bool
  oldScheduler : Scheduler
  pending : Bool
  pc : HandlerPc
  deriving DecidableEq

namespace Server

variable (v : Server)

/-- A server before any signal; `old_scheduler` is zeroed. -/
def start (orig : Scheduler) : Server := ⟨orig, false, .other 0, false, .idle⟩

/-- `SIGUSR1` is sent. -/
def raise : Server := { v with pending := true }

/-- What `sched_getscheduler` tells to others: there is no such process when it has exited. -/
def seenInFifo : Bool := v.pc ≠ .dead && v.scheduler.isFifo

/-- The handler is called, which tests `old_scheduler_set`. -/
def deliver : Option Server :=
  if v.pending ∧ v.pc = .idle then
    some { v with pending := false, pc := .signal !v.oldSchedulerSet }
  else none

/-- After the signal to the subserver, when `kill` has succeeded if it is called. -/
def signalled (chained ok : Bool) : Option Server :=
  match v.pc with
  | .signal enter =>
    if !chained then some { v with pc := .switch enter }
    else if ok then some { v with pc := .poll enter pollCount }
    else some { v with pc := .dead }
  | _ => none

/-- One round of the loop that polls the subserver. -/
def polled (subserverInFifo : Bool) : Option Server :=
  match v.pc with
  | .poll _ 0 => some { v with pc := .dead }
  | .poll enter (counter + 1) =>
    if subserverInFifo = enter then some { v with pc := .switch enter }
    else some { v with pc := .poll enter counter }
  | _ => none

/-- `sched_fifo_enter_max(&old_scheduler)` or `sched_fifo_leave(&old_scheduler)`. -/
def switched (r : Switched) : Option Server :=
  match v.pc, r with
  | .switch true, .ok =>
    some { v with oldScheduler := v.scheduler, scheduler := fifoMax, pc := .flag true }
  | .switch true, .failed saved =>
    some { v with oldScheduler := if saved then v.scheduler else v.oldScheduler, pc := .idle }
  | .switch false, .ok => some { v with scheduler := v.oldScheduler, pc := .flag false }
  | .switch false, .failed _ => some { v with pc := .idle }
  | _, _ => none

/-- `old_scheduler_set` is assigned, and the handler returns. -/
def flagged : Option Server :=
  match v.pc with
  | .flag enter => some { v with oldSchedulerSet := enter, pc := .idle }
  | _ => none

end Server

/-! ## The measurement thread of a client -/

/-- Where the thread is. -/
inductive ClientPc
  | idle
  /-- At the condition of the loop that waits for the server to enter `SCHED_FIFO`. -/
  | enter (counter : ℕ)
  /-- At `sched_fifo_enter_max(NULL)`. -/
  | fifo
  /-- In `send_recv`. -/
  | measuring
  /-- At the second signal. -/
  | signal
  /-- At the condition of the loop that waits for the server to leave `SCHED_FIFO`. -/
  | leave (counter : ℕ)
  | done
  deriving DecidableEq

/-- A client; when it has exited with a fatal error, `pc` is where it has. -/
structure Client where
  pc : ClientPc
  exited : Bool
  deriving DecidableEq

namespace Client

variable (c : Client)

/-- The thread goes on, or there is a fatal error. -/
def advance (pc : ClientPc) (ok : Bool) : Client :=
  if ok then { c with pc := pc } else { c with exited := true }

/-- One round of a loop that polls the server. -/
def polled (serverInFifo : Bool) : Option Client :=
  match c.pc with
  | .enter 0 | .leave 0 => some { c with exited := true }
  | .enter (counter + 1) =>
    some { c with pc := if serverInFifo then .fifo else .enter counter }
  | .leave (counter + 1) =>
    some { c with pc := if serverInFifo then .leave counter else .done }
  | _ => none

/-- A measurement has begun, and it is not finished. -/
def Active : Prop := c.pc ≠ .idle ∧ c.pc ≠ .done

instance : Decidable c.Active := inferInstanceAs (Decidable (_ ∧ _))

end Client

/-! ## The system -/

/-- The servers of the clients and the subservers of the servers, which are given by their PIDs and
    thus started before; servers are numbered in the order they are started. -/
structure Topology (κ : Type*) where
  server : κ → ℕ
  subserver : ℕ → Option ℕ
  subserver_lt : ∀ {x y}, subserver x = some y → y < x
  /-- The schedulers of the servers before the measurements. -/
  orig : ℕ → Scheduler

namespace Topology

variable {κ : Type*} (t : Topology κ)

/-- The first servers of a chain. -/
def links : ℕ → ℕ → List ℕ
  | 0, _ => []
  | n + 1, x => x :: ((t.subserver x).map (links n)).getD []

/-- A server, its subserver, the subserver of the latter, and so on. -/
def chain (x : ℕ) : List ℕ := t.links (x + 1) x

theorem links_of_lt {n m x : ℕ} (hn : x < n) (hm : x < m) : t.links n x = t.links m x := by
  induction n generalizing m x with
  | zero => omega
  | succ n ih =>
    obtain ⟨m, rfl⟩ : ∃ m', m = m' + 1 := ⟨m - 1, by omega⟩
    rw [links, links]
    cases hy : t.subserver x with
    | none => rfl
    | some y =>
      have hyx := t.subserver_lt hy
      rw [Option.map_some, Option.map_some, ih (by omega : y < n) (by omega : y < m)]

/-- What a chain is made of. -/
theorem chain_eq (x : ℕ) : t.chain x = x :: ((t.subserver x).map t.chain).getD [] := by
  rw [chain, links]
  cases hy : t.subserver x with
  | none => rfl
  | some y =>
    have hyx := t.subserver_lt hy
    rw [Option.map_some, Option.map_some, chain, t.links_of_lt hyx (Nat.lt_succ_self y)]

end Topology

/-- The clients and the servers. -/
@[ext]
structure State (κ : Type*) where
  client : κ → Client
  server : ℕ → Server

/-- The steps. -/
inductive Label (κ : Type*)
  /-- The first signal of a client, whose `kill` succeeds or not. -/
  | start (k : κ) (ok : Bool)
  | poll (k : κ)
  /-- `sched_fifo_enter_max(NULL)`, and reading the clock. -/
  | enterFifo (k : κ) (ok : Bool)
  /-- `send_recv` returns, and the clock is read. -/
  | measured (k : κ) (ok : Bool)
  /-- The second signal of a client, whose `kill` succeeds or not. -/
  | stop (k : κ) (ok : Bool)
  | deliver (x : ℕ)
  | signal (x : ℕ) (ok : Bool)
  | pollSubserver (x : ℕ)
  | switch (x : ℕ) (r : Switched)
  | flag (x : ℕ)
  deriving DecidableEq

namespace State

variable {κ : Type*} [DecidableEq κ] (s : State κ)

def setClient (k : κ) (c : Client) : State κ :=
  { s with client := Function.update s.client k c }

def setServer (x : ℕ) (v : Server) : State κ :=
  { s with server := Function.update s.server x v }

/-- `kill(x, SIGUSR1)`. -/
def raise (x : ℕ) : State κ := s.setServer x (s.server x).raise

/-- A step of a client at a given point, which may send a signal to its server. -/
def clientAt (t : Topology κ) (k : κ) (here there : ClientPc) (signals ok : Bool) :
    Option (State κ) :=
  if s.client k = ⟨here, false⟩ then
    let s' := s.setClient k ((s.client k).advance there ok)
    some (if signals ∧ ok then s'.raise (t.server k) else s')
  else none

/-- The state after a step. -/
def next (t : Topology κ) : Label κ → Option (State κ)
  | .start k ok => s.clientAt t k .idle (.enter pollCount) true ok
  | .poll k =>
    if (s.client k).exited then none
    else ((s.client k).polled (s.server (t.server k)).seenInFifo).map (s.setClient k)
  | .enterFifo k ok => s.clientAt t k .fifo .measuring false ok
  | .measured k ok => s.clientAt t k .measuring .signal false ok
  | .stop k ok => s.clientAt t k .signal (.leave pollCount) true ok
  | .deliver x => (s.server x).deliver.map (s.setServer x)
  | .signal x ok =>
    ((s.server x).signalled (t.subserver x).isSome ok).map fun v =>
      match t.subserver x with
      | some y => if ok then (s.setServer x v).raise y else s.setServer x v
      | none => s.setServer x v
  | .pollSubserver x =>
    (t.subserver x).bind fun y =>
      ((s.server x).polled (s.server y).seenInFifo).map (s.setServer x)
  | .switch x r => ((s.server x).switched r).map (s.setServer x)
  | .flag x => (s.server x).flagged.map (s.setServer x)

end State

/-- The system, before any measurement. -/
def system {κ : Type*} [DecidableEq κ] (t : Topology κ) : Lts (State κ) (Label κ) where
  init := {⟨fun _ => ⟨.idle, false⟩, fun x => .start (t.orig x)⟩}
  next s l := s.next t l

/-! ## What is asked of a server -/

/-- What a client, or a server with a subserver, is at with respect to the server it signals. -/
inductive Request
  | out
  | entering
  | inside
  | leaving

/-- What a client asks of its server. -/
def Client.request (c : Client) : Request :=
  match c.pc with
  | .idle | .done => .out
  | .enter _ => .entering
  | .fifo | .measuring | .signal => .inside
  | .leave _ => .leaving

namespace Server

/-- What a server asks of its subserver. -/
def request (v : Server) : Request :=
  match v.pc with
  | .idle => if v.oldSchedulerSet then .inside else .out
  | .signal enter => if enter then .out else .inside
  | .poll enter _ => if enter then .entering else .leaving
  | .switch enter | .flag enter => if enter then .inside else .out
  | .dead => .out

/-- The server has its own scheduler, and will enter `SCHED_FIFO` at the next signal. -/
def AtRest (orig : Scheduler) (v : Server) : Prop :=
  v.scheduler = orig ∧
    (v.pc = .idle ∧ v.oldSchedulerSet = false ∨ v.pc = .flag false ∧ v.oldSchedulerSet = true)

/-- The server is in `SCHED_FIFO`, and will go back to its own scheduler at the next signal. -/
def InFifo (orig : Scheduler) (v : Server) : Prop :=
  v.scheduler = fifoMax ∧ v.oldScheduler = orig ∧
    (v.pc = .idle ∧ v.oldSchedulerSet = true ∨ v.pc = .flag true ∧ v.oldSchedulerSet = false)

/-- The handler has not changed the scheduler yet. -/
def Changing (enter : Bool) (v : Server) : Prop :=
  v.oldSchedulerSet = !enter ∧ v.pc.changing = some enter

/-- How a server meets what it is asked. -/
def Meets (orig : Scheduler) (v : Server) : Request → Prop
  | .out => v.pending = false ∧ v.AtRest orig
  | .entering =>
    v.pending = true ∧ v.AtRest orig ∨
      v.pending = false ∧ (v.Changing true ∧ v.scheduler = orig ∨ v.InFifo orig)
  | .inside => v.pending = false ∧ v.InFifo orig
  | .leaving =>
    v.pending = true ∧ v.InFifo orig ∨
      v.pending = false ∧
        (v.Changing false ∧ v.scheduler = fifoMax ∧ v.oldScheduler = orig ∨ v.AtRest orig)

variable {orig : Scheduler} {v v' : Server} {q : Request}

theorem AtRest.request_eq (h : v.AtRest orig) : v.request = .out := by
  obtain ⟨-, ⟨hpc, hset⟩ | ⟨hpc, -⟩⟩ := h
  · simp [request, hpc, hset]
  · simp [request, hpc]

theorem InFifo.request_eq (h : v.InFifo orig) : v.request = .inside := by
  obtain ⟨-, -, ⟨hpc, hset⟩ | ⟨hpc, -⟩⟩ := h
  · simp [request, hpc, hset]
  · simp [request, hpc]

theorem InFifo.seenInFifo (h : v.InFifo orig) : v.seenInFifo = true := by
  obtain ⟨hsched, -, ⟨hpc, -⟩ | ⟨hpc, -⟩⟩ := h <;>
    simp [Server.seenInFifo, hsched, hpc, fifoMax, Scheduler.isFifo]

/-- A signal makes a server at rest enter. -/
theorem Meets.raise_out (h : v.Meets orig .out) : v.raise.Meets orig .entering :=
  .inl ⟨rfl, h.2⟩

/-- A signal makes a server in `SCHED_FIFO` leave. -/
theorem Meets.raise_inside (h : v.Meets orig .inside) : v.raise.Meets orig .leaving :=
  .inl ⟨rfl, h.2⟩

/-- Once it is seen in `SCHED_FIFO`, the server has entered. -/
theorem Meets.entered (h : v.Meets orig .entering) (horig : orig.isFifo = false)
    (hseen : v.seenInFifo = true) : v.Meets orig .inside := by
  have hsched : v.scheduler ≠ orig := by
    rintro heq
    simp [seenInFifo, heq, horig] at hseen
  rcases h with ⟨-, hrest⟩ | ⟨hpending, ⟨-, heq⟩ | hfifo⟩
  · exact absurd hrest.1 hsched
  · exact absurd heq hsched
  · exact ⟨hpending, hfifo⟩

/-- Once it is seen out of `SCHED_FIFO`, the server has left. -/
theorem Meets.left (h : v.Meets orig .leaving) (hseen : v.seenInFifo = false) :
    v.Meets orig .out := by
  rcases h with ⟨-, hfifo⟩ | ⟨hpending, ⟨⟨-, hpc⟩, hsched, -⟩ | hrest⟩
  · rw [hfifo.seenInFifo] at hseen
    cases hseen
  · have halive : v.pc ≠ .dead := by
      intro hdead
      rw [hdead] at hpc
      cases hpc
    simp [seenInFifo, hsched, halive, fifoMax, Scheduler.isFifo] at hseen
  · exact ⟨hpending, hrest⟩

/-- A step of the handler which nobody but the server is concerned by. -/
structure Keeps (orig : Scheduler) (v v' : Server) : Prop where
  request_eq : v'.request = v.request
  meets : ∀ q, v.Meets orig q → v'.Meets orig q

/-- The handler is called. -/
theorem keeps_of_deliver (h : v.deliver = some v') : Keeps orig v v' := by
  rw [deliver] at h
  split_ifs at h with hcond
  obtain ⟨hpending, hpc⟩ := hcond
  cases h
  refine ⟨?_, fun q hq => ?_⟩
  · cases hset : v.oldSchedulerSet <;> simp [request, hpc, hset]
  · cases q with
    | out | inside => simp [Meets, hpending] at hq
    | entering =>
      obtain ⟨-, hsched, ⟨-, hset⟩ | ⟨hflag, -⟩⟩ := hq.resolve_right (by simp [hpending])
      · exact .inr ⟨rfl, .inl ⟨⟨hset, by simp [hset, HandlerPc.changing]⟩, hsched⟩⟩
      · simp [hpc] at hflag
    | leaving =>
      obtain ⟨-, hsched, hold, ⟨-, hset⟩ | ⟨hflag, -⟩⟩ := hq.resolve_right (by simp [hpending])
      · exact .inr ⟨rfl, .inl ⟨⟨hset, by simp [hset, HandlerPc.changing]⟩, hsched, hold⟩⟩
      · simp [hpc] at hflag

theorem AtRest.changing_eq (h : v.AtRest orig) : v.pc.changing = none := by
  obtain ⟨-, ⟨hpc, -⟩ | ⟨hpc, -⟩⟩ := h <;> rw [hpc] <;> rfl

theorem InFifo.changing_eq (h : v.InFifo orig) : v.pc.changing = none := by
  obtain ⟨-, -, ⟨hpc, -⟩ | ⟨hpc, -⟩⟩ := h <;> rw [hpc] <;> rfl

/-- What is asked of a server whose handler has not changed the scheduler yet. -/
theorem Meets.changing (h : v.Meets orig q) {enter : Bool} (hpc : v.pc.changing = some enter) :
    v.pending = false ∧ v.oldSchedulerSet = !enter ∧
      (enter = true ∧ q = .entering ∧ v.scheduler = orig ∨
        enter = false ∧ q = .leaving ∧ v.scheduler = fifoMax ∧ v.oldScheduler = orig) := by
  have hrest (h : v.AtRest orig) : False := by cases h.changing_eq.symm.trans hpc
  have hfifo (h : v.InFifo orig) : False := by cases h.changing_eq.symm.trans hpc
  cases q with
  | out => exact (hrest h.2).elim
  | inside => exact (hfifo h.2).elim
  | entering =>
    obtain ⟨-, h⟩ | ⟨hpending, ⟨⟨hset, hchanging⟩, hsched⟩ | h⟩ := h
    · exact (hrest h).elim
    · obtain rfl := Option.some.inj (hpc.symm.trans hchanging)
      exact ⟨hpending, hset, .inl ⟨rfl, rfl, hsched⟩⟩
    · exact (hfifo h).elim
  | leaving =>
    obtain ⟨-, h⟩ | ⟨hpending, ⟨⟨hset, hchanging⟩, hsched⟩ | h⟩ := h
    · exact (hfifo h).elim
    · obtain rfl := Option.some.inj (hpc.symm.trans hchanging)
      exact ⟨hpending, hset, .inr ⟨rfl, rfl, hsched⟩⟩
    · exact (hrest h).elim

/-- The scheduler is changed. -/
theorem keeps_of_switched (h : v.switched .ok = some v') : Keeps orig v v' := by
  cases hpc : v.pc with
  | switch enter =>
    have hchanging : v.pc.changing = some enter := by rw [hpc]; rfl
    cases enter with
    | true =>
      simp only [switched, hpc, Option.some.injEq] at h
      subst h
      refine ⟨by simp [request, hpc], fun q hq => ?_⟩
      obtain ⟨hpending, hset, ⟨-, rfl, hsched⟩ | ⟨henter, -⟩⟩ := hq.changing hchanging
      · exact .inr ⟨hpending, .inr ⟨rfl, hsched, .inr ⟨rfl, hset⟩⟩⟩
      · cases henter
    | false =>
      simp only [switched, hpc, Option.some.injEq] at h
      subst h
      refine ⟨by simp [request, hpc], fun q hq => ?_⟩
      obtain ⟨hpending, hset, ⟨henter, -⟩ | ⟨-, rfl, -, hold⟩⟩ := hq.changing hchanging
      · cases henter
      · exact .inr ⟨hpending, .inr ⟨hold, .inr ⟨rfl, hset⟩⟩⟩
  | idle | signal enter | poll enter counter | flag enter | dead =>
    simp [switched, hpc] at h

theorem AtRest.flagged (h : v.AtRest orig) {enter : Bool} (hpc : v.pc = .flag enter) :
    { v with oldSchedulerSet := enter, pc := .idle }.AtRest orig := by
  obtain ⟨hsched, ⟨hidle, -⟩ | ⟨hflag, -⟩⟩ := h
  · cases hidle.symm.trans hpc
  · obtain rfl := HandlerPc.flag.inj (hflag.symm.trans hpc)
    exact ⟨hsched, .inl ⟨rfl, rfl⟩⟩

theorem InFifo.flagged (h : v.InFifo orig) {enter : Bool} (hpc : v.pc = .flag enter) :
    { v with oldSchedulerSet := enter, pc := .idle }.InFifo orig := by
  obtain ⟨hsched, hold, ⟨hidle, -⟩ | ⟨hflag, -⟩⟩ := h
  · cases hidle.symm.trans hpc
  · obtain rfl := HandlerPc.flag.inj (hflag.symm.trans hpc)
    exact ⟨hsched, hold, .inl ⟨rfl, rfl⟩⟩

/-- The handler returns. -/
theorem keeps_of_flagged (h : v.flagged = some v') : Keeps orig v v' := by
  cases hpc : v.pc with
  | flag enter =>
    simp only [flagged, hpc, Option.some.injEq] at h
    subst h
    refine ⟨by cases enter <;> simp [request, hpc], fun q hq => ?_⟩
    -- The scheduler has been changed.
    have hnot {enter' : Bool} (h : v.Changing enter') : False := by
      have hchanging := h.2
      rw [hpc] at hchanging
      cases hchanging
    cases q with
    | out => exact ⟨hq.1, hq.2.flagged hpc⟩
    | inside => exact ⟨hq.1, hq.2.flagged hpc⟩
    | entering =>
      obtain ⟨hpending, h⟩ | ⟨hpending, ⟨h, -⟩ | h⟩ := hq
      · exact .inl ⟨hpending, h.flagged hpc⟩
      · exact (hnot h).elim
      · exact .inr ⟨hpending, .inr (h.flagged hpc)⟩
    | leaving =>
      obtain ⟨hpending, h⟩ | ⟨hpending, ⟨h, -⟩ | h⟩ := hq
      · exact .inl ⟨hpending, h.flagged hpc⟩
      · exact (hnot h).elim
      · exact .inr ⟨hpending, .inr (h.flagged hpc)⟩
  | idle | signal enter | poll enter counter | switch enter | dead =>
    simp [flagged, hpc] at h

/-- The handler goes on, without changing the scheduler yet. -/
theorem Meets.setPc (h : v.Meets orig q) {enter : Bool} {pc : HandlerPc}
    (hpc : v.pc.changing = some enter) (hpc' : pc.changing = some enter) :
    { v with pc := pc }.Meets orig q := by
  obtain ⟨hpending, hset, ⟨rfl, rfl, hsched⟩ | ⟨rfl, rfl, hsched⟩⟩ := h.changing hpc
  · exact .inr ⟨hpending, .inl ⟨⟨hset, hpc'⟩, hsched⟩⟩
  · exact .inr ⟨hpending, .inl ⟨⟨hset, hpc'⟩, hsched⟩⟩

/-- The subserver, if there is one, is signalled. -/
theorem signalled_eq {chained : Bool} (h : v.signalled chained true = some v') :
    ∃ enter, v.pc = .signal enter ∧
      v' = { v with pc := if chained then .poll enter pollCount else .switch enter } := by
  cases hpc : v.pc with
  | signal enter =>
    refine ⟨enter, rfl, ?_⟩
    cases chained <;> simpa [signalled, hpc] using h.symm
  | idle | poll enter counter | switch enter | flag enter | dead => simp [signalled, hpc] at h

/-- The subserver is polled, while the counter has not run out. -/
theorem polled_eq {seen : Bool} (h : v.polled seen = some v')
    (hpolls : ∀ enter, v.pc ≠ .poll enter 0) :
    ∃ enter counter, v.pc = .poll enter (counter + 1) ∧
      v' = { v with pc := if seen = enter then .switch enter else .poll enter counter } := by
  cases hpc : v.pc with
  | poll enter counter =>
    cases counter with
    | zero => exact absurd hpc (hpolls enter)
    | succ counter =>
      refine ⟨enter, counter, rfl, ?_⟩
      simp only [polled, hpc] at h
      split_ifs at h with hseen
      · rw [if_pos hseen]
        exact (Option.some.inj h).symm
      · rw [if_neg hseen]
        exact (Option.some.inj h).symm
  | idle | signal enter | switch enter | flag enter | dead => simp [polled, hpc] at h

end Server

/-! ## What is asked along a chain -/

namespace Topology

variable {κ : Type*} {t : Topology κ}

theorem chain_induction {P : ℕ → Prop}
    (step : ∀ x, (∀ y, t.subserver x = some y → P y) → P x) (x : ℕ) : P x := by
  induction x using Nat.strong_induction_on with
  | _ x ih => exact step x fun y hy => ih y (t.subserver_lt hy)

theorem mem_chain {x z : ℕ} :
    x ∈ t.chain z ↔ x = z ∨ ∃ y, t.subserver z = some y ∧ x ∈ t.chain y := by
  rw [chain_eq]
  cases t.subserver z <;> simp

theorem le_of_mem_chain {x z : ℕ} (hx : x ∈ t.chain z) : x ≤ z := by
  induction z using t.chain_induction with
  | _ z ih =>
    rcases mem_chain.1 hx with rfl | ⟨y, hy, hx⟩
    · exact le_rfl
    · exact (ih y hy hx).trans (t.subserver_lt hy).le

/-- The chain of a server of a chain is a part of it. -/
theorem mem_chain_trans {x y z : ℕ} (hy : y ∈ t.chain z) (hx : x ∈ t.chain y) :
    x ∈ t.chain z := by
  induction z using t.chain_induction with
  | _ z ih =>
    rcases mem_chain.1 hy with rfl | ⟨w, hw, hy⟩
    · exact hx
    · exact mem_chain.2 (.inr ⟨w, hw, ih w hw hy⟩)

variable (t) in
/-- The servers of a chain do what is asked of the first one, and of each other. -/
def Follows (server : ℕ → Server) : Request → List ℕ → Prop
  | _, [] => True
  | q, x :: xs => (server x).Meets (t.orig x) q ∧ Follows server (server x).request xs

variable {server server' : ℕ → Server} {q : Request} {x y z : ℕ}

theorem follows_chain :
    t.Follows server q (t.chain z) ↔ (server z).Meets (t.orig z) q ∧
      ∀ y, t.subserver z = some y → t.Follows server (server z).request (t.chain y) := by
  rw [chain_eq]
  cases t.subserver z <;> simp [Follows]

theorem Follows.congr {l : List ℕ} (h : t.Follows server q l)
    (hsame : ∀ x ∈ l, server' x = server x) : t.Follows server' q l := by
  induction l generalizing q with
  | nil => trivial
  | cons x xs ih =>
    rw [Follows, hsame x List.mem_cons_self]
    exact ⟨h.1, ih h.2 fun z hz => hsame z (List.mem_cons_of_mem x hz)⟩

/-- Nothing is asked of a chain when its servers are all at rest. -/
theorem follows_out {l : List ℕ} :
    t.Follows server .out l ↔ ∀ x ∈ l, (server x).Meets (t.orig x) .out := by
  induction l with
  | nil => simp [Follows]
  | cons x xs ih =>
    rw [List.forall_mem_cons, ← ih, Follows]
    refine and_congr_right fun hx => ?_
    rw [hx.2.request_eq]

/-- When the first server of a chain is in `SCHED_FIFO`, they all are. -/
theorem Follows.inFifo {l : List ℕ} (h : t.Follows server .inside l) :
    ∀ x ∈ l, (server x).InFifo (t.orig x) := by
  induction l with
  | nil => simp
  | cons x xs ih =>
    rw [Follows, h.1.2.request_eq] at h
    exact List.forall_mem_cons.2 ⟨h.1.2, ih h.2⟩

/-- A server of a chain takes a step, which may concern those after it. -/
theorem Follows.step (h : t.Follows server q (t.chain z)) (hx : x ∈ t.chain z)
    (habove : ∀ z, x < z → server' z = server z)
    (hmeets : ∀ q, (server x).Meets (t.orig x) q → (server' x).Meets (t.orig x) q)
    (hbelow : ∀ y, t.subserver x = some y → t.Follows server (server x).request (t.chain y) →
      t.Follows server' (server' x).request (t.chain y)) :
    t.Follows server' q (t.chain z) := by
  induction z using t.chain_induction generalizing q with
  | _ z ih =>
    have ⟨hz, hnext⟩ := follows_chain.1 h
    refine follows_chain.2 ?_
    rcases mem_chain.1 hx with rfl | ⟨w, hw, hx⟩
    · exact ⟨hmeets q hz, fun y hy => hbelow y hy (hnext y hy)⟩
    · have hlt : x < z := (le_of_mem_chain hx).trans_lt (t.subserver_lt hw)
      rw [habove z hlt]
      refine ⟨hz, fun y hy => ?_⟩
      obtain rfl : w = y := Option.some.inj (hw.symm.trans hy)
      exact ih w hw (hnext w hw) hx

/-- A step which nobody but the server is concerned by. -/
theorem Follows.keeps (h : t.Follows server q (t.chain z)) (x : ℕ) {v : Server}
    (hv : (server x).Keeps (t.orig x) v) :
    t.Follows (Function.update server x v) q (t.chain z) := by
  by_cases hx : x ∈ t.chain z
  · refine h.step hx (fun z hz => Function.update_of_ne hz.ne' v server) ?_ fun y hy hfollows => ?_
    · rw [Function.update_self]
      exact hv.meets
    · rw [Function.update_self, hv.request_eq]
      refine hfollows.congr fun w hw => Function.update_of_ne ?_ v server
      exact ((le_of_mem_chain hw).trans_lt (t.subserver_lt hy)).ne
  · refine h.congr fun w hw => Function.update_of_ne ?_ v server
    rintro rfl
    exact hx hw

/-- The first server of a chain is signalled. -/
theorem Follows.raise (h : t.Follows server q (t.chain z)) {q' : Request}
    (hmeets : (server z).Meets (t.orig z) q → (server z).raise.Meets (t.orig z) q') :
    t.Follows (Function.update server z (server z).raise) q' (t.chain z) := by
  have ⟨hz, hnext⟩ := follows_chain.1 h
  refine follows_chain.2 ⟨?_, fun y hy => ?_⟩
  · rw [Function.update_self]
    exact hmeets hz
  · rw [Function.update_self]
    refine (hnext y hy).congr fun w hw => Function.update_of_ne ?_ _ server
    exact ((le_of_mem_chain hw).trans_lt (t.subserver_lt hy)).ne

/-- A server of the chain signals its subserver, if it has one. -/
theorem Follows.signalled (h : t.Follows server q (t.chain z)) (hx : x ∈ t.chain z) {enter : Bool}
    (hpc : (server x).pc = .signal enter) {pc : HandlerPc} (hpc' : pc.changing = some enter)
    (hsub : ∀ y, t.subserver x = some y → pc = .poll enter pollCount ∧
      server' y = (server y).raise)
    (hself : server' x = { server x with pc := pc })
    (hsame : ∀ w, w ≠ x → t.subserver x ≠ some w → server' w = server w) :
    t.Follows server' q (t.chain z) := by
  have hfrom : (server x).pc.changing = some enter := by rw [hpc]; rfl
  refine h.step hx (fun w hw => hsame w hw.ne' fun hsub => ?_) (fun q hq => ?_)
    fun y hy hfollows => ?_
  · exact (t.subserver_lt hsub).not_gt hw
  · rw [hself]
    exact hq.setPc hfrom hpc'
  · obtain ⟨rfl, hraise⟩ := hsub y hy
    have hyx := t.subserver_lt hy
    have ⟨hmeets, hnext⟩ := follows_chain.1 hfollows
    refine follows_chain.2 ⟨?_, fun w hw => ?_⟩
    · rw [hself, hraise]
      cases enter
      · simp only [Server.request, hpc] at hmeets
        exact Server.Meets.raise_inside hmeets
      · simp only [Server.request, hpc] at hmeets
        exact Server.Meets.raise_out hmeets
    · have hwy := t.subserver_lt hw
      rw [hraise]
      refine (hnext w hw).congr fun u hu => hsame u ?_ ?_
      · have := le_of_mem_chain hu
        omega
      · rintro hu'
        obtain rfl : y = u := Option.some.inj (hy.symm.trans hu')
        have := le_of_mem_chain hu
        omega

/-- A server of the chain polls its subserver. -/
theorem Follows.polled (h : t.Follows server q (t.chain z)) (hx : x ∈ t.chain z)
    (hy : t.subserver x = some y) (horig : (t.orig y).isFifo = false) {enter : Bool} {counter : ℕ}
    (hpc : (server x).pc = .poll enter (counter + 1)) {v : Server}
    (hv : v = { server x with
      pc := if (server y).seenInFifo = enter then .switch enter else .poll enter counter }) :
    t.Follows (Function.update server x v) q (t.chain z) := by
  have hfrom : (server x).pc.changing = some enter := by rw [hpc]; rfl
  have hto : v.pc.changing = some enter := by
    rw [hv]
    split <;> rfl
  refine h.step hx (fun w hw => Function.update_of_ne hw.ne' v server) (fun q hq => ?_)
    fun y' hy' hfollows => ?_
  · rw [Function.update_self, hv]
    rw [hv] at hto
    exact hq.setPc hfrom hto
  · obtain rfl : y = y' := Option.some.inj (hy.symm.trans hy')
    have hyx := t.subserver_lt hy
    rw [Function.update_self]
    have hbelow : t.Follows server v.request (t.chain y) := by
      have ⟨hmeets, hnext⟩ := follows_chain.1 hfollows
      simp only [Server.request, hpc] at hmeets
      refine follows_chain.2 ⟨?_, hnext⟩
      rw [hv]
      split_ifs with hseen
      · cases enter
        · exact Server.Meets.left hmeets hseen
        · exact Server.Meets.entered hmeets horig hseen
      · exact hmeets
    refine hbelow.congr fun w hw => Function.update_of_ne ?_ v server
    exact ((le_of_mem_chain hw).trans_lt hyx).ne

end Topology

/-! ## The measurements do not overlap -/

variable {κ : Type*}

/-- A client may only begin when the clients which have begun and not finished use other servers;
    nothing fails in a handler, nor does a subserver take too long. -/
def Serial (t : Topology κ) (s : State κ) : Label κ → Prop
  | .start k true => ∀ k', k' ≠ k → (s.client k').Active →
      ∀ x ∈ t.chain (t.server k'), x ∉ t.chain (t.server k)
  | .signal _ ok => ok = true
  | .pollSubserver x => ∀ enter, (s.server x).pc ≠ .poll enter 0
  | .switch _ r => r = .ok
  | _ => True

instance [Fintype κ] [DecidableEq κ] (t : Topology κ) (s : State κ) :
    ∀ l, Decidable (Serial t s l)
  | .start k true => inferInstanceAs (Decidable (∀ k', k' ≠ k → (s.client k').Active →
      ∀ x ∈ t.chain (t.server k'), x ∉ t.chain (t.server k)))
  | .signal _ ok => inferInstanceAs (Decidable (ok = true))
  | .pollSubserver x =>
    inferInstanceAs (Decidable (∀ enter : Bool, (s.server x).pc ≠ .poll enter 0))
  | .switch _ r => inferInstanceAs (Decidable (r = .ok))
  | .start _ false | .poll _ | .enterFifo _ _ | .measured _ _ | .stop _ _ | .deliver _ | .flag _ =>
    isTrue trivial

/-- The servers do what the clients ask, each of one client; the others are at rest. -/
structure Inv (t : Topology κ) (s : State κ) : Prop where
  disjoint : ∀ k k', k' ≠ k → (s.client k).Active → (s.client k').Active →
    ∀ x ∈ t.chain (t.server k'), x ∉ t.chain (t.server k)
  follows : ∀ k, (s.client k).Active →
    t.Follows s.server (s.client k).request (t.chain (t.server k))
  rest : ∀ x, (∀ k, (s.client k).Active → x ∉ t.chain (t.server k)) →
    (s.server x).Meets (t.orig x) .out

namespace Inv

variable {t : Topology κ} {s : State κ}

theorem init (t : Topology κ) : Inv t ⟨fun _ => ⟨.idle, false⟩, fun x => .start (t.orig x)⟩ where
  disjoint _ _ _ hk := absurd rfl hk.1
  follows _ hk := absurd rfl hk.1
  rest _ _ := ⟨rfl, rfl, .inl ⟨rfl, rfl⟩⟩

/-- A server takes a step which nobody else is concerned by. -/
theorem keeps (h : Inv t s) {x : ℕ} {v : Server} (hv : (s.server x).Keeps (t.orig x) v) :
    Inv t (s.setServer x v) where
  disjoint := h.disjoint
  follows k hk := (h.follows k hk).keeps x hv
  rest y hy := by
    dsimp only [State.setServer]
    by_cases hxy : y = x
    · subst hxy
      rw [Function.update_self]
      exact hv.meets _ (h.rest y hy)
    · rw [Function.update_of_ne hxy]
      exact h.rest y hy

/-- A server whose handler has not changed the scheduler yet is used by a client. -/
theorem exists_active (h : Inv t s) {x : ℕ} {enter : Bool}
    (hpc : (s.server x).pc.changing = some enter) :
    ∃ k, (s.client k).Active ∧ x ∈ t.chain (t.server k) := by
  by_contra hnone
  push Not at hnone
  cases (h.rest x hnone).2.changing_eq.symm.trans hpc

variable [DecidableEq κ]

/-- A client whose servers nobody else uses changes, and only its servers do. -/
theorem update (h : Inv t s) {k : κ} {c : Client} {server : ℕ → Server}
    (hdisjoint : ∀ k', k' ≠ k → (s.client k').Active →
      ∀ x ∈ t.chain (t.server k'), x ∉ t.chain (t.server k))
    (hsame : ∀ x, x ∉ t.chain (t.server k) → server x = s.server x)
    (hfollows : t.Follows server c.request (t.chain (t.server k))) :
    Inv t ⟨Function.update s.client k c, server⟩ := by
  refine ⟨fun k₁ k₂ hne h₁ h₂ x hx₂ hx₁ => ?_, fun k' hk' => ?_, fun x hx => ?_⟩
  · dsimp only at h₁ h₂
    by_cases hk₁ : k₁ = k
    · subst hk₁
      rw [Function.update_of_ne hne] at h₂
      exact hdisjoint k₂ hne h₂ x hx₂ hx₁
    · rw [Function.update_of_ne hk₁] at h₁
      by_cases hk₂ : k₂ = k
      · subst hk₂
        exact hdisjoint k₁ hk₁ h₁ x hx₁ hx₂
      · rw [Function.update_of_ne hk₂] at h₂
        exact h.disjoint k₁ k₂ hne h₁ h₂ x hx₂ hx₁
  · dsimp only at hk' ⊢
    by_cases hk : k' = k
    · subst hk
      rw [Function.update_self]
      exact hfollows
    · rw [Function.update_of_ne hk] at hk' ⊢
      exact (h.follows k' hk').congr fun x hx => hsame x (hdisjoint k' hk hk' x hx)
  · dsimp only at hx ⊢
    by_cases hmem : x ∈ t.chain (t.server k)
    · -- The client has finished.
      have hout : ¬c.Active := fun hc => hx k (by rwa [Function.update_self]) hmem
      have hrequest : c.request = .out := by
        have hpc : c.pc = .idle ∨ c.pc = .done := by
          by_contra hpc
          exact hout (not_or.1 hpc)
        rcases hpc with hpc | hpc <;> rw [Client.request, hpc]
      rw [hrequest] at hfollows
      exact Topology.follows_out.1 hfollows x hmem
    · rw [hsame x hmem]
      refine h.rest x fun k' hk' hx' => ?_
      by_cases hk : k' = k
      · exact hmem (hk ▸ hx')
      · exact hx k' (by rwa [Function.update_of_ne hk]) hx'

/-- A client exits. -/
theorem exit (h : Inv t s) {k : κ} {c : Client} (hc : c.pc = (s.client k).pc) :
    Inv t (s.setClient k c) := by
  have hsame : ∀ k', ((s.setClient k c).client k').pc = (s.client k').pc := by
    intro k'
    by_cases hk : k' = k
    · subst hk
      simp [State.setClient, hc]
    · simp [State.setClient, hk]
  have hactive : ∀ k', ((s.setClient k c).client k').Active ↔ (s.client k').Active := by
    intro k'
    rw [Client.Active, Client.Active, hsame]
  refine ⟨fun k₁ k₂ hne h₁ h₂ => ?_, fun k' hk' => ?_, fun x hx => ?_⟩
  · exact h.disjoint k₁ k₂ hne ((hactive k₁).1 h₁) ((hactive k₂).1 h₂)
  · rw [Client.request, hsame]
    exact h.follows k' ((hactive k').1 hk')
  · exact h.rest x fun k' hk' => hx k' ((hactive k').2 hk')

/-- The servers of an active client take a step. -/
theorem setServers (h : Inv t s) {k : κ} (hk : (s.client k).Active) {server : ℕ → Server}
    (hsame : ∀ x, x ∉ t.chain (t.server k) → server x = s.server x)
    (hfollows : t.Follows server (s.client k).request (t.chain (t.server k))) :
    Inv t { s with server := server } := by
  have hnext := h.update (c := s.client k) (fun k' hk' h' => h.disjoint k k' hk' hk h') hsame
    hfollows
  rwa [Function.update_eq_self] at hnext

/-- A step of a client at a given point. -/
theorem clientAt (h : Inv t s) {k : κ} {here there : ClientPc} {signals ok : Bool} {s' : State κ}
    (hst : s.clientAt t k here there signals ok = some s')
    (hnext : ok = true → (s.client k).pc = here →
      (∀ k', k' ≠ k → (s.client k').Active →
        ∀ x ∈ t.chain (t.server k'), x ∉ t.chain (t.server k)) ∧
      t.Follows (if signals then Function.update s.server (t.server k)
        (s.server (t.server k)).raise else s.server) (Client.request ⟨there, false⟩)
        (t.chain (t.server k))) :
    Inv t s' := by
  by_cases hhere : s.client k = ⟨here, false⟩
  swap
  · rw [State.clientAt, if_neg hhere] at hst
    cases hst
  rw [State.clientAt, if_pos hhere] at hst
  cases hst
  cases ok with
  | false =>
    rw [if_neg fun hsignals => Bool.false_ne_true hsignals.2]
    exact h.exit rfl
  | true =>
    obtain ⟨hdisjoint, hfollows⟩ := hnext rfl (by rw [hhere])
    cases signals
    · exact h.update hdisjoint (fun _ _ => rfl) hfollows
    · refine h.update hdisjoint (fun x hx => ?_) hfollows
      refine Function.update_of_ne ?_ _ s.server
      rintro rfl
      exact hx (Topology.mem_chain.2 (.inl rfl))

/-- A client polls its server. -/
theorem poll (h : Inv t s) (horig : ∀ x, (t.orig x).isFifo = false) {k : κ} {c : Client}
    (hc : (s.client k).polled (s.server (t.server k)).seenInFifo = some c) :
    Inv t (s.setClient k c) := by
  have hnext {pc : ClientPc} (hactive : (s.client k).Active)
      (hmeets : (s.server (t.server k)).Meets (t.orig (t.server k)) (s.client k).request →
        (s.server (t.server k)).Meets (t.orig (t.server k)) (Client.request ⟨pc, false⟩)) :
      Inv t (s.setClient k { s.client k with pc := pc }) := by
    have ⟨hhead, hrest⟩ := Topology.follows_chain.1 (h.follows k hactive)
    exact h.update (fun k' hk' h' => h.disjoint k k' hk' hactive h') (fun _ _ => rfl)
      (Topology.follows_chain.2 ⟨hmeets hhead, hrest⟩)
  cases hpc : (s.client k).pc with
  | enter counter =>
    have hactive : (s.client k).Active := by simp [Client.Active, hpc]
    cases counter with
    | zero =>
      simp only [Client.polled, hpc] at hc
      cases hc
      exact h.exit hpc.symm
    | succ counter =>
      simp only [Client.polled, hpc] at hc
      cases hc
      refine hnext hactive fun hmeets => ?_
      simp only [Client.request, hpc] at hmeets
      split_ifs with hseen
      · exact hmeets.entered (horig _) hseen
      · exact hmeets
  | leave counter =>
    have hactive : (s.client k).Active := by simp [Client.Active, hpc]
    cases counter with
    | zero =>
      simp only [Client.polled, hpc] at hc
      cases hc
      exact h.exit hpc.symm
    | succ counter =>
      simp only [Client.polled, hpc] at hc
      cases hc
      refine hnext hactive fun hmeets => ?_
      simp only [Client.request, hpc] at hmeets
      split_ifs with hseen
      · exact hmeets
      · exact hmeets.left (Bool.eq_false_iff.2 hseen)
  | idle | fifo | measuring | signal | done =>
    simp [Client.polled, hpc] at hc

/-- The handler of a server signals its subserver. -/
theorem signal (h : Inv t s) {x : ℕ} {s' : State κ}
    (hst : s.next t (.signal x true) = some s') : Inv t s' := by
  obtain ⟨v, hv, rfl⟩ := Option.map_eq_some_iff.1 hst
  obtain ⟨enter, hpc, rfl⟩ := Server.signalled_eq hv
  have hchanging : (s.server x).pc.changing = some enter := by rw [hpc]; rfl
  obtain ⟨k, hk, hx⟩ := h.exists_active hchanging
  cases hsub : t.subserver x with
  | none =>
    refine h.setServers hk (fun w hw => Function.update_of_ne ?_ _ s.server)
      ((h.follows k hk).signalled hx hpc (show HandlerPc.changing (.switch enter) = _ from rfl)
        ?_ ?_ ?_)
    · rintro rfl
      exact hw hx
    · simp [hsub]
    · simp
    · exact fun w hw _ => Function.update_of_ne hw _ s.server
  | some y =>
    have hyx := t.subserver_lt hsub
    have hy : y ∈ t.chain (t.server k) := Topology.mem_chain_trans hx
      (Topology.mem_chain.2 (.inr ⟨y, hsub, Topology.mem_chain.2 (.inl rfl)⟩))
    refine h.setServers hk (fun w hw => ?_)
      ((h.follows k hk).signalled hx hpc
        (show HandlerPc.changing (.poll enter pollCount) = _ from rfl) ?_ ?_ ?_)
    · have hwx : w ≠ x := by
        rintro rfl
        exact hw hx
      have hwy : w ≠ y := by
        rintro rfl
        exact hw hy
      simp [State.setServer, hwx, hwy]
    · rintro y' hy'
      obtain rfl : y = y' := Option.some.inj (hsub.symm.trans hy')
      simp [State.setServer, hyx.ne]
    · simp [State.setServer, hyx.ne']
    · intro w hwx hwy
      have hwy : w ≠ y := by
        rintro rfl
        exact hwy hsub
      simp [State.setServer, hwx, hwy]

/-- The step lemma. -/
theorem next (h : Inv t s) (horig : ∀ x, (t.orig x).isFifo = false) {l : Label κ} {s' : State κ}
    (hserial : Serial t s l) (hst : s.next t l = some s') : Inv t s' := by
  have hactive {k : κ} {pc : ClientPc} (hpc : (s.client k).pc = pc)
      (hne : pc ≠ .idle ∧ pc ≠ .done) :
      (∀ k', k' ≠ k → (s.client k').Active →
        ∀ x ∈ t.chain (t.server k'), x ∉ t.chain (t.server k)) ∧
      t.Follows s.server (Client.request ⟨pc, false⟩) (t.chain (t.server k)) := by
    subst hpc
    exact ⟨fun k' hk' h' => h.disjoint k k' hk' hne h', h.follows k hne⟩
  cases l with
  | start k ok =>
    refine h.clientAt hst fun hok hpc => ?_
    subst hok
    refine ⟨hserial, Topology.Follows.raise (q := .out) ?_ Server.Meets.raise_out⟩
    -- The servers that the client will use are at rest.
    refine Topology.follows_out.2 fun x hx => h.rest x fun k' hk' hx' => ?_
    refine hserial k' ?_ hk' x hx' hx
    rintro rfl
    exact hk'.1 hpc
  | poll k =>
    simp only [State.next] at hst
    split_ifs at hst
    obtain ⟨c, hc, rfl⟩ := Option.map_eq_some_iff.1 hst
    exact h.poll horig hc
  | enterFifo k ok | measured k ok =>
    refine h.clientAt hst fun _ hpc => ?_
    have hinside := hactive hpc (by simp)
    exact hinside
  | stop k ok =>
    refine h.clientAt hst fun _ hpc => ?_
    obtain ⟨hdisjoint, hfollows⟩ := hactive hpc (by simp)
    exact ⟨hdisjoint, hfollows.raise Server.Meets.raise_inside⟩
  | deliver x =>
    obtain ⟨v, hv, rfl⟩ := Option.map_eq_some_iff.1 hst
    exact h.keeps (Server.keeps_of_deliver hv)
  | signal x ok =>
    obtain rfl : ok = true := hserial
    exact h.signal hst
  | pollSubserver x =>
    obtain ⟨y, hy, hst⟩ := Option.bind_eq_some_iff.1 hst
    obtain ⟨v, hv, rfl⟩ := Option.map_eq_some_iff.1 hst
    obtain ⟨enter, counter, hpc, hv⟩ := Server.polled_eq hv hserial
    have hchanging : (s.server x).pc.changing = some enter := by rw [hpc]; rfl
    obtain ⟨k, hk, hx⟩ := h.exists_active hchanging
    refine h.setServers hk (fun w hw => Function.update_of_ne ?_ _ s.server)
      ((h.follows k hk).polled hx hy (horig y) hpc hv)
    rintro rfl
    exact hw hx
  | switch x r =>
    obtain rfl : r = .ok := hserial
    obtain ⟨v, hv, rfl⟩ := Option.map_eq_some_iff.1 hst
    exact h.keeps (Server.keeps_of_switched hv)
  | flag x =>
    obtain ⟨v, hv, rfl⟩ := Option.map_eq_some_iff.1 hst
    exact h.keeps (Server.keeps_of_flagged hv)

end Inv

/-- Every run whose measurements do not overlap. -/
theorem Run.inv [Fintype κ] [DecidableEq κ] {t : Topology κ}
    (horig : ∀ x, (t.orig x).isFifo = false) {ls : List (Label κ)} {s : State κ}
    (hr : ((system t).guard (Serial t)).Run ls s) : Inv t s := by
  refine hr.state_invariant (fun s hs => ?_) fun s l s' hinv hst => ?_
  · obtain rfl := Set.mem_singleton_iff.1 hs
    exact Inv.init t
  · obtain ⟨hserial, hst⟩ := Lts.guard_next_iff.1 hst
    exact hinv.next horig hserial hst

/-- When the measurements of clients which share servers do not overlap, and nothing fails in a
    handler, every server that a client measures is in `SCHED_FIFO`, and after the measurements
    every server is back to the scheduler that it had. -/
theorem Run.measures_in_fifo [Fintype κ] [DecidableEq κ] {t : Topology κ}
    (horig : ∀ x, (t.orig x).isFifo = false) {ls : List (Label κ)} {s : State κ}
    (hr : ((system t).guard (Serial t)).Run ls s) :
    (∀ k, (s.client k).pc = .measuring → ∀ x ∈ t.chain (t.server k),
      (s.server x).scheduler.isFifo = true) ∧
    ((∀ k, ¬(s.client k).Active) → ∀ x,
      (s.server x).scheduler.isFifo = false ∧ (s.server x).scheduler = t.orig x) := by
  have hinv := Run.inv horig hr
  refine ⟨fun k hk x hx => ?_, fun hidle x => ?_⟩
  · have hfollows := hinv.follows k (by simp [Client.Active, hk])
    simp only [Client.request, hk] at hfollows
    rw [(hfollows.inFifo x hx).1]
    rfl
  · have ⟨_, hsched, _⟩ := hinv.rest x fun k hk => absurd hk (hidle k)
    rw [hsched]
    exact ⟨horig x, rfl⟩

/-! ## Two clients -/

/-- Two clients of the server 1, whose subserver is the server 0. -/
def shared : Topology Bool where
  server _ := 1
  subserver x := if x = 1 then some 0 else none
  subserver_lt {x y} h := by
    split_ifs at h with hx
    obtain rfl := Option.some.inj h
    omega
  orig _ := .other 0

/-- The two servers answer a signal. -/
def answer : List (Label Bool) :=
  [.deliver 1, .signal 1 true, .deliver 0, .signal 0 true, .switch 0 .ok, .pollSubserver 1,
    .switch 1 .ok, .flag 0, .flag 1]

/-- A client measures. -/
def measurement (k : Bool) : List (Label Bool) :=
  .start k true :: answer ++ [.poll k, .enterFifo k true]

/-- A client has measured. -/
def finish (k : Bool) : List (Label Bool) :=
  [.measured k true, .stop k true] ++ answer ++ [.poll k]

/-- The clients measure one after the other. -/
theorem Run.measures_in_fifo_twice :
    ∃ s, ((system shared).guard (Serial shared)).Run
        (measurement false ++ finish false ++ measurement true) s ∧
      (s.client true).pc = .measuring ∧
      ∀ x ∈ shared.chain 1, (s.server x).scheduler.isFifo = true := by
  obtain ⟨s, hs, hpc⟩ : ∃ s, ((system shared).guard (Serial shared)).exec
      ⟨fun _ => ⟨.idle, false⟩, fun x => .start (shared.orig x)⟩
      (measurement false ++ finish false ++ measurement true) = some s ∧
      (s.client true).pc = .measuring := ⟨_, rfl, rfl⟩
  have hr := Lts.run_of_exec (A := (system shared).guard (Serial shared)) rfl hs
  exact ⟨s, hr, hpc, (Run.measures_in_fifo (fun _ => rfl) hr).1 true hpc⟩

/-- A client which starts a measurement takes the server of a client which is measuring out of
    `SCHED_FIFO`. -/
theorem toggled_out :
    ∃ s, (system shared).Run (measurement false ++ .start true true :: answer) s ∧
      (s.client false).pc = .measuring ∧ (s.server 1).scheduler.isFifo = false := by
  refine ⟨_, Lts.run_of_exec (s := ⟨fun _ => ⟨.idle, false⟩, fun x => .start (shared.orig x)⟩) rfl
    rfl, rfl, rfl⟩

end RealtimeTests.Fifo
