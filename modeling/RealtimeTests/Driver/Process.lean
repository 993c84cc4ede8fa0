import Mathlib.Logic.Function.Basic
import Mathlib.Data.Fintype.Defs
import Mathlib.Data.Finset.Insert
import RealtimeTests.Lts

/-!
# The processes of the driver

`bwi-client_server/main.c`: the driver forks a process for each line of its config file, signals
the processes, waits for them, and frees the lists it keeps of them. On an error, and on SIGINT,
it kills and reaps all of them.

The code of the driver is run by the driver itself, and by each process it has forked until this
is replaced by a program, on a copy of the lists. An `Image` is such a process: its lists and what
it has still to do. What it does is computed by `Image.step`, with its effect on the other
processes. Forking and recording the process ID are two steps.

A program saves, changes and restores the governor of CPU 0, as the driver does before and
after.
-/

namespace RealtimeTests.Driver

/-- The lists of processes, by the ID of their program. -/
inductive Class
  | server
  | client
  | cpuHog
  | cpuHogCbs
  | hrtCbs
  | serverHog
  deriving DecidableEq, Repr

instance : Fintype Class where
  elems := {.server, .client, .cpuHog, .cpuHogCbs, .hrtCbs, .serverHog}
  complete c := by cases c <;> decide

/-- The signals that the driver sends. -/
inductive Signal
  | usr1
  | term
  | kill
  deriving DecidableEq, Repr

/-- `struct proc`, for what is run: `proc_id`, and whether it has been freed. -/
structure Proc where
  procId : ℤ
  freed : Bool
  deriving DecidableEq, Repr

/-- `proc_new`. -/
def procNew : Proc := ⟨-1, false⟩

/-! ## The code -/

/-- What a process running the code of the driver has to do. A loop over a list has the index of
    the next item. -/
inductive Instr
  | parseCmdLineArgs
  | parseConfigFile
  | procsMakeArgv (c : Class)
  | procsCreate (c : Class) (i : ℕ)
  /-- `fork` has returned. -/
  | forked (c : Class) (i : ℕ)
  /-- `proc_id` has been set. -/
  | check (c : Class) (i : ℕ)
  | exec (c : Class) (i : ℕ)
  | enterDeadline
  | usleep
  | procsKill (c : Class) (i : ℕ) (signal : Signal)
  | procsKillAndWait (c : Class) (i : ℕ)
  /-- In `procs_kill_and_wait`, after `kill`. -/
  | waitKilled (c : Class) (i : ℕ) (procId : ℤ)
  | procsWait (c : Class) (i : ℕ)
  | procsFree (c : Class) (i : ℕ)
  /-- The return from `main`. -/
  | exit
  /-- `_exit`. -/
  | quit
  deriving DecidableEq, Repr

/-- `terminate_driver`, which kills with SIGKILL. -/
def terminateDriver : List Instr :=
  [.server, .client, .cpuHog, .cpuHogCbs, .hrtCbs, .serverHog].flatMap fun c =>
    [.procsKillAndWait c 0, .procsFree c 0]

/-- `main`, but for its label `error`. -/
def main : List Instr :=
  [.parseCmdLineArgs, .parseConfigFile,
    .procsMakeArgv .hrtCbs, .procsMakeArgv .cpuHogCbs, .procsMakeArgv .cpuHog,
    .procsMakeArgv .serverHog, .procsMakeArgv .server,
    .procsCreate .server 0, .procsMakeArgv .client,
    .procsCreate .client 0, .procsCreate .hrtCbs 0, .procsCreate .cpuHogCbs 0,
    .procsCreate .cpuHog 0, .procsCreate .serverHog 0,
    .enterDeadline,
    .procsKill .hrtCbs 0 .usr1, .procsKill .cpuHogCbs 0 .usr1, .procsKill .client 0 .usr1,
    .usleep,
    .procsKill .client 0 .term, .procsKill .cpuHogCbs 0 .term, .procsKill .hrtCbs 0 .term,
    .procsKill .cpuHog 0 .term, .procsKill .serverHog 0 .term, .usleep,
    .procsKill .server 0 .term,
    .procsWait .client 0, .procsWait .cpuHogCbs 0, .procsWait .hrtCbs 0, .procsWait .cpuHog 0,
    .procsWait .serverHog 0, .procsWait .server 0,
    .procsFree .server 0, .procsFree .client 0, .procsFree .cpuHog 0, .procsFree .serverHog 0,
    .procsFree .cpuHogCbs 0, .procsFree .hrtCbs 0,
    .exit]

/-- `main` from its label `error` on. -/
def error : List Instr := terminateDriver ++ [.exit]

/-- `sighandler`. -/
def sighandler : List Instr := terminateDriver ++ [.quit]

/-- A process running the code. -/
structure Image where
  lists : Class → List Proc
  /-- The value that the last `fork` has returned. -/
  forkResult : ℤ
  todo : List Instr
  /-- It is in `sighandler`, where SIGINT is blocked. -/
  handling : Bool
  /-- `default_gov` of `MAIN_BEGIN`. -/
  defaultGov : String

/-- The driver at the beginning of `main`. -/
def Image.start (defaultGov : String) : Image := ⟨fun _ => [], 0, main, false, defaultGov⟩

/-- What the system answers to a step. -/
inductive Answer
  | ok
  | failed
  | execFailed
  /-- The config file has been read, up to an error unless `ok`: the lists have so many items. -/
  | parsed (counts : Class → ℕ) (ok : Bool)
  /-- What `fork` returns in the parent. -/
  | pid (pid : ℤ)
  /-- What is found in memory that was freed. -/
  | garbage (procId : ℤ)

/-- The effect of a step on the other processes. -/
inductive Effect
  | none
  | fork (pid : ℤ)
  | exec
  | kill (target : ℤ) (signal : Signal)
  | wait (pid : ℤ)
  /-- The end of the process, after its exit handlers if `restore`. -/
  | exit (restore : Bool)
  deriving DecidableEq

/-- `itr->proc_id`. -/
def Proc.read (p : Proc) : Answer → Option ℤ
  | .garbage procId => if p.freed then some procId else none
  | _ => if p.freed then none else some p.procId

namespace Image

/-- A step with an effect on the other processes. -/
def does (d : Image) (todo : List Instr) (e : Effect) : Option (Image × Effect) :=
  some ({ d with todo := todo }, e)

/-- A step without. -/
def goesOn (d : Image) (todo : List Instr) : Option (Image × Effect) := d.does todo .none

/-- A step which may fail. -/
def tries (d : Image) (todo : List Instr) : Answer → Option (Image × Effect)
  | .ok => d.goesOn todo
  | .failed => d.goesOn error
  | _ => Option.none

/-- An item of a list is changed. -/
def modify (d : Image) (c : Class) (i : ℕ) (f : Proc → Proc) : Image :=
  { d with lists := Function.update d.lists c ((d.lists c).modify i f) }

/-- The next step of a process, if the system may so answer. -/
def step (d : Image) (a : Answer) : Option (Image × Effect) :=
  match d.todo with
  | [] => none
  | .parseCmdLineArgs :: rest | .procsMakeArgv _ :: rest | .enterDeadline :: rest => d.tries rest a
  | .parseConfigFile :: rest =>
    match a with
    | .parsed counts ok =>
      { d with lists := fun c => .replicate (counts c) procNew }.goesOn (if ok then rest else error)
    | _ => none
  | .usleep :: rest => d.goesOn rest
  | .procsCreate c i :: rest =>
    match (d.lists c)[i]?, a with
    | none, _ => d.goesOn rest
    | some _, .pid pid =>
      { d with forkResult := pid }.does (.forked c i :: rest)
        (if pid = -1 then .none else .fork pid)
    | _, _ => none
  | .forked c i :: rest =>
    (d.modify c i fun p => { p with procId := d.forkResult }).goesOn (.check c i :: rest)
  | .check c i :: rest =>
    match (d.lists c)[i]? with
    | none => none
    | some p =>
      if p.procId = -1 then d.goesOn error
      else if p.procId = 0 then d.goesOn (.exec c i :: rest)
      else d.goesOn (.procsCreate c (i + 1) :: rest)
  | .exec _ _ :: rest =>
    match a with
    | .ok => d.does rest .exec
    | .execFailed => d.goesOn error
    | _ => none
  | .procsKill c i signal :: rest =>
    match (d.lists c)[i]? with
    | none => d.goesOn rest
    | some p => do
      let procId ← p.read a
      d.does (.procsKill c (i + 1) signal :: rest)
        (if procId = -1 then .none else .kill procId signal)
  | .procsKillAndWait c i :: rest =>
    match (d.lists c)[i]? with
    | none => d.goesOn rest
    | some p => do
      let procId ← p.read a
      if procId = -1 then d.goesOn (.procsKillAndWait c (i + 1) :: rest)
      else d.does (.waitKilled c i procId :: rest) (.kill procId .kill)
  | .waitKilled c i procId :: rest =>
    d.does (.procsKillAndWait c (i + 1) :: rest) (.wait procId)
  | .procsWait c i :: rest =>
    match (d.lists c)[i]? with
    | none => d.goesOn rest
    | some p => do
      let procId ← p.read a
      d.does (.procsWait c (i + 1) :: rest) (if procId = -1 then .none else .wait procId)
  | .procsFree c i :: rest =>
    if i < (d.lists c).length then
      (d.modify c i fun p => { p with freed := true }).goesOn (.procsFree c (i + 1) :: rest)
    else { d with lists := Function.update d.lists c [] }.goesOn rest
  | .exit :: _ => d.does [] (.exit true)
  | .quit :: _ => d.does [] (.exit false)

/-- SIGINT is taken. -/
def interrupt (d : Image) : Image := { d with todo := sighandler, handling := true }

end Image

/-! ## The processes -/

/-- A process that the driver has forked. -/
inductive Child
  /-- It still runs the code of the driver. -/
  | copy (image : Image)
  /-- It runs a program, which has `defaultGov` to restore. -/
  | program (defaultGov : Option String)
  | dead

/-- What a signal makes of a child. A copy of the driver has a handler for SIGINT only. A program
    handles a signal, or is killed by it, in a step of its own, unless it is killed at once. -/
def Child.signalled (signal : Signal) : Child → Child
  | .program defaultGov => if signal = .kill then .dead else .program defaultGov
  | _ => .dead

/-- A call of `kill`: whom it is addressed to, and the children of the driver which are not
    reaped. -/
structure Kill where
  target : ℤ
  children : List ℤ
  deriving DecidableEq

/-- The processes and the governor of CPU 0. -/
structure State where
  governor : String
  /-- The driver, until it ends. -/
  driver : Option Image
  /-- The children of the driver which it has not reaped. -/
  children : List (ℤ × Child)
  reaped : List ℤ
  /-- The calls of `kill` there have been. -/
  kills : List Kill

/-- A process running the code of the driver. -/
inductive Runner
  | driver
  | child (pid : ℤ)
  deriving DecidableEq

/-- What a program does of its own. -/
inductive ProgramEvent
  /-- It saves the governor. -/
  | save
  /-- It sets the governor. -/
  | set
  /-- It exits, with its exit handlers. -/
  | exit
  /-- It is killed. -/
  | die
  deriving DecidableEq

/-- The steps. -/
inductive Label
  | run (who : Runner) (answer : Answer)
  /-- SIGINT is taken. -/
  | sigint (who : Runner)
  | program (pid : ℤ) (event : ProgramEvent)

namespace State

variable (s : State)

/-- The IDs of the children which are not reaped. -/
def pids : List ℤ := s.children.map Prod.fst

/-- The state of a child. -/
def child? (pid : ℤ) : Option Child := (s.children.find? fun c => c.1 = pid).map Prod.snd

/-- A child changes. -/
def setChild (pid : ℤ) (child : Child) : State :=
  { s with children := s.children.map fun c => if c.1 = pid then (pid, child) else c }

/-- The image of a process. -/
def image? : Runner → Option Image
  | .driver => s.driver
  | .child pid =>
    match s.child? pid with
    | some (.copy d) => some d
    | _ => none

def setImage (d : Image) : Runner → State
  | .driver => { s with driver := some d }
  | .child pid => s.setChild pid (.copy d)

/-- The process ends. -/
def endOf : Runner → State
  | .driver => { s with driver := none }
  | .child pid => s.setChild pid .dead

/-- `kill`: the signal goes to a child, or to all the processes when it is addressed to the group or
    to everybody. -/
def deliver (target : ℤ) (signal : Signal) : State :=
  let s : State := { s with kills := s.kills ++ [⟨target, s.pids⟩] }
  if target = 0 ∨ target = -1 then
    { s with driver := none, children := s.children.map fun c => (c.1, c.2.signalled signal) }
  else
    { s with
      children := s.children.map fun c => if c.1 = target then (c.1, c.2.signalled signal) else c }

/-- The effect of a step, after which the process is `d`. A child waits for nobody. -/
def effect (who : Runner) (d : Image) : Effect → Option State
  | .none => some (s.setImage d who)
  | .fork pid =>
    if who = .driver ∧ 0 < pid ∧ pid ∉ s.pids then
      some { s with
        driver := some d
        children := (pid, .copy { d with forkResult := 0 }) :: s.children }
    else none
  | .exec =>
    match who with
    | .driver => none
    | .child pid => some (s.setChild pid (.program none))
  | .kill target signal => some ((s.setImage d who).deliver target signal)
  | .wait pid =>
    if who = .driver ∧ pid ∈ s.pids then
      match s.child? pid with
      | some .dead =>
        some { s with
          driver := some d
          children := s.children.filter fun c => c.1 ≠ pid
          reaped := pid :: s.reaped }
      | _ => none
    else some (s.setImage d who)
  | .exit restore =>
    some { s.endOf who with governor := if restore then d.defaultGov else s.governor }

/-- A step of a program, which has `defaultGov` to restore. -/
def programStep (pid : ℤ) : Option String → ProgramEvent → Option State
  | none, .save => some (s.setChild pid (.program (some s.governor)))
  | some _, .set => some { s with governor := "userspace" }
  | defaultGov, .exit =>
    some { s.setChild pid .dead with governor := defaultGov.getD s.governor }
  | _, .die => some (s.setChild pid .dead)
  | _, _ => none

end State

/-- The driver, started when the governor is `governor`, and its children. -/
def system (governor : String) : Lts State Label where
  init := {⟨"userspace", some (.start governor), [], [], []⟩}
  next s
    | .run who a => do
      let d ← s.image? who
      let (d, e) ← d.step a
      s.effect who d e
    | .sigint who => do
      let d ← s.image? who
      if d.handling then none else some (s.setImage d.interrupt who)
    | .program pid event =>
      match s.child? pid with
      | some (.program defaultGov) => s.programStep pid defaultGov event
      | _ => none

end RealtimeTests.Driver
