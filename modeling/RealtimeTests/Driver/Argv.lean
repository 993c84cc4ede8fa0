import RealtimeTests.Driver.Adjust

/-!
# The command lines of the processes

`bwi-client_server/main.c`: once the config file has been read, the driver makes the `argv` of
the processes and creates them, list by list. It forces some options: `procs_make_argv` adjusts
`-v`, `-x`, `-r` and `-l` for the clients and `-x` for the hard real-time tasks, and
`procs_create` adjusts `-v` for the servers which are chained, whose `argv` are made before the
other servers are created.

The steps of the driver are those of `plan` (`createProcesses_eq`), in which a server is created
before what needs its PID. After any of them, the processes are as `Prepared` says, so that each is
executed with the strings of `Entry.execArgv`.

* `forcedInEffect_iff`: the options that the driver forces are in effect if and only if they are
  not on the lines, and their values are shorter than their placeholders.
-/

namespace RealtimeTests.Config

open Linked Strtok Getopt Driver

variable {h : Host}

/-! ## Creating the processes -/

/-- `fork`, for the process of each line: whether it fails, and the PID of the child. -/
structure Forks where
  fails : ℕ → Bool
  pid : ℕ → PosInt

/-- What `%d` prints. -/
def decimalInt : ℤ → List Char
  | .ofNat n => decimal n
  | .negSucc n => '-' :: decimal (n + 1)

/-- The content of a `struct proc`. -/
def Procs.proc (s : Procs h) (k : ℕ) : Option (Proc h) := s.lists.mem[k]?.map Node.val

/-- The value of an option is adjusted, if there is one. -/
def adjustGiven (target_optchar : Char) (text : Option (List Char)) (argv : List (Option ℕ))
    (args : List Char) : Option (List Char) :=
  match text with
  | none => some args
  | some text => adjust target_optchar text argv args

/-- The `int` that a pointer to a `proc_id` points to, as a text, if there is a pointer. -/
def Procs.pidText (s : Procs h) : Option ℕ → Option (Option (List Char))
  | none => some none
  | some k => (s.proc k).map fun p => some (decimalInt p.procId)

/-- The body of the loop of `procs_make_argv`. -/
def Procs.makeArgv (s : Procs h) (k : ℕ) : Option (Procs h) := do
  let p ← s.proc k
  let (args, argv) ← p.craftArgv
  let args ← adjustGiven 'v' (← s.pidText p.serverPid) argv args
  let args ← adjustGiven 'x' (p.durationMs.map fun ms => decimal ms.toNat) argv args
  let args ← adjustGiven 'r' (p.ftraceStart.map fun start => decimal start.val) argv args
  let args ← adjustGiven 'l' (p.ftraceStop.map fun stop => decimal stop.val) argv args
  some (s.setProc k fun p => { p with args := some args, argv := some argv })

/-- The strings that `execv` is given. -/
def readArgv (args : List Char) : List (Option ℕ) → Option (List Word)
  | [] => none
  | none :: _ => some []
  | some arg :: argv => do some ((← readStr args arg) :: (← readArgv args argv))

/-- The processes, and the command lines of those which have been created. -/
structure Creation (h : Host) where
  procs : Procs h
  execs : List (ℕ × List Word)

/-- The body of the loop of `procs_create`, which is left when `fork` fails. -/
def Creation.create (forks : Forks) (s : Creation h) (k : ℕ) :
    ExceptT (Creation h) Option (Creation h) := ExceptT.mk do
  let p ← s.procs.proc k
  let argv ← p.argv
  let args ← adjustGiven 'v' (← s.procs.pidText p.subserverPid) argv (← p.args)
  if forks.fails k then
    some (.error { s with procs := s.procs.setProc k fun p =>
      { p with args := some args, procId := -1 } })
  else
    let strs ← readArgv args argv
    some (.ok ⟨s.procs.setProc k fun p => { p with args := some args, procId := (forks.pid k).val },
      s.execs ++ [(k, strs)]⟩)

/-- What is done with the processes of a list. -/
inductive Phase
  | makeArgv
  | create
  deriving DecidableEq

/-- The body of the loop of each. -/
def Creation.act (forks : Forks) (s : Creation h) :
    Phase → ℕ → ExceptT (Creation h) Option (Creation h)
  | .makeArgv, k => ExceptT.mk ((s.procs.makeArgv k).map fun procs => .ok { s with procs })
  | .create, k => s.create forks k

/-- `procs_make_argv` and `procs_create`. -/
def Creation.forProcs (forks : Forks) (s : Creation h) (phase : Phase × Driver.Class) :
    ExceptT (Creation h) Option (Creation h) :=
  forNodes (fun s => s.procs.lists.mem) (fun s k => s.act forks phase.1 k)
    s.procs.lists.mem.length (s.procs.lists.heads phase.2).first s

/-- What `main` does with the lists. -/
def phases : List (Phase × Driver.Class) :=
  [(.makeArgv, .hrtCbs), (.makeArgv, .cpuHogCbs), (.makeArgv, .cpuHog), (.makeArgv, .serverHog),
    (.makeArgv, .server), (.create, .server), (.makeArgv, .client), (.create, .client),
    (.create, .hrtCbs), (.create, .cpuHogCbs), (.create, .cpuHog), (.create, .serverHog)]

/-- `main`, up to the creation of the processes. -/
def createProcesses (forks : Forks) (s : Procs h) : ExceptT (Creation h) Option (Creation h) :=
  phases.foldlM (Creation.forProcs forks) ⟨s, []⟩

/-- The command lines of the processes which are created, in order, with the lines that list them.
    No process is created when a line is rejected. -/
def execs (prms : Prms h) (forks : Forks) (lines : List CString) :
    Option (List (ℕ × List Word)) := do
  match ← parseLines prms lines (.empty h) with
  | (.error _, _) => some []
  | (.ok (), s) =>
    match ← (createProcesses forks s).run with
    | .ok s => some s.execs
    | .error s => some s.execs

/-! ## The options -/

/-- The option string of a program. `cpu_hog` has no option. -/
def ProgramId.optstring : ProgramId → List Char
  | server | serverClient => ":hd:p:q:t:s:v:".toList
  | client => ":hl:v:s:i:r:1:2:3:t:p:q:x:bd:".toList
  | cpuHog => []
  | cpuHogCbs => ":hze:b:q:t:s:".toList
  | hrtCbs => ":hn:s:c:d:q:t:x:".toList
  | serverHog => ":hp:".toList

/-- `-v` is forced to be the PID of the preceding server. -/
def forcedPid (pid : ℕ → PosInt) : Option ℕ → List Forced
  | none => []
  | some server => [⟨'v', intMax, (pid server).val⟩]

/-- `-r` and `-l` are forced when both are given. -/
def forcedFtrace : Option PosInt → Option PosInt → List Forced
  | some start, some stop => [⟨'r', intMax, start.val⟩, ⟨'l', intMax, stop.val⟩]
  | _, _ => []

/-- The options that are forced for a process listed after `es`. -/
def Entry.forced (e : Entry) (prms : Prms h) (pid : ℕ → PosInt) (es : List Entry) :
    List Forced :=
  match e.id with
  | .client => forcedPid pid (precedingServer es) ++ ⟨'x', ulongMax h, prms.durationMs.toNat⟩ ::
      forcedFtrace prms.ftraceStart prms.ftraceStop
  | .hrtCbs => [⟨'x', ulongMax h, prms.durationMs.toNat⟩]
  | .serverClient => forcedPid pid (precedingServer es)
  | _ => []

/-- What it is executed with. -/
def Entry.execArgv (e : Entry) (prms : Prms h) (pid : ℕ → PosInt) (es : List Entry) : List Word :=
  adjustAll (e.forced prms pid es) (e.argv prms es)

/-- The lines of the processes to create, in order. -/
def creationOrder (es : List Entry) : List ℕ :=
  [Driver.Class.server, .client, .hrtCbs, .cpuHogCbs, .cpuHog, .serverHog].flatMap (linesOf es)

/-- The processes are created, up to one for which `fork` fails. In the command line of each, the
    options that the driver forces are the ones in effect, and what is on the line is as it was but
    for their arguments. -/
def ForcedInEffect (prms : Prms h) (forks : Forks) (lines : List CString) : Prop :=
  ∃ cmds, execs prms forks lines = some cmds ∧
    cmds.map Prod.fst = (creationOrder (readLines [] lines).2).takeWhile (!forks.fails ·) ∧
    ∀ k argv, (k, argv) ∈ cmds → ∃ e, (readLines [] lines).2[k]? = some e ∧
      argv.head? = some ('.' :: '/' :: e.id.program) ∧
      InEffect e.id.optstring (e.forced prms forks.pid ((readLines [] lines).2.take k))
        (tokens delimiter e.remainingLine.chars) argv.tail

/-! ## The steps -/

/-- What is done with the process of a line. -/
abbrev Step := (Phase × Driver.Class) × ℕ

/-- The steps, when `fork` does not fail. -/
def plan (es : List Entry) : List Step :=
  phases.flatMap fun phase => (linesOf es phase.2).map (phase, ·)

/-- A step. -/
def Creation.step (forks : Forks) (s : Creation h) (x : Step) :
    ExceptT (Creation h) Option (Creation h) := s.act forks x.1.1 x.2

/-- What the steps leave alone. -/
def Creation.Same (s s' : Creation h) : Prop :=
  s'.procs.lists.heads = s.procs.lists.heads ∧
    links s'.procs.lists.mem = links s.procs.lists.mem

theorem Procs.makeArgv_eq {s s' : Procs h} {k : ℕ} (hs : s.makeArgv k = some s') :
    ∃ f, s' = s.setProc k f := by
  simp only [Procs.makeArgv, Option.bind_eq_bind, Option.bind_eq_some_iff] at hs
  obtain ⟨_, -, _, -, _, -, _, -, _, -, _, -, _, -, hs⟩ := hs
  exact ⟨_, (Option.some.inj hs).symm⟩

theorem Creation.step_same {forks : Forks} {s s' : Creation h} {phase : Phase} {k : ℕ}
    (hs : s.act forks phase k = pure s') : s.Same s' := by
  have hset (f : Proc h → Proc h) : (s.procs.setProc k f).lists.heads = s.procs.lists.heads ∧
      links (s.procs.setProc k f).lists.mem = links s.procs.lists.mem := ⟨rfl, links_setVal ..⟩
  cases phase with
  | makeArgv =>
    obtain ⟨procs, hprocs, hs⟩ := Option.map_eq_some_iff.1 (show _ = some (Except.ok s') from hs)
    cases hs
    obtain ⟨f, rfl⟩ := Procs.makeArgv_eq hprocs
    exact hset f
  | create =>
    have hs : (s.create forks k).run = some (.ok s') := hs
    simp only [Creation.create, ExceptT.run_mk, Option.bind_eq_bind,
      Option.bind_eq_some_iff] at hs
    obtain ⟨_, -, _, -, _, -, _, -, _, -, hs⟩ := hs
    split_ifs at hs
    · cases hs
    · obtain ⟨_, -, hs⟩ := Option.bind_eq_some_iff.1 hs
      cases hs
      exact hset _

theorem Creation.Same.trans {s s' s'' : Creation h} (h : s.Same s') (h' : s'.Same s'') :
    s.Same s'' := ⟨h'.1.trans h.1, h'.2.trans h.2⟩

theorem Creation.foldlM_same {forks : Forks} {phase : Phase} {ks : List ℕ} {s s' : Creation h}
    (hs : ks.foldlM (fun s k => s.act forks phase k) s = pure s') : s.Same s' := by
  induction ks generalizing s with
  | nil =>
    cases hs
    exact ⟨rfl, rfl⟩
  | cons k ks ih =>
    rw [List.foldlM_cons] at hs
    obtain ⟨s₁, hstep, hs⟩ := bind_eq_pure hs
    exact (step_same hstep).trans (ih hs)

/-- The loops go through the lists. -/
theorem Creation.foldlM_forProcs {forks : Forks} {s₀ s : Creation h} {prms : Prms h}
    {es : List Entry} (hs₀ : s₀.procs.lists.Have (nodes prms es)) (hs : s₀.Same s)
    (ps : List (Phase × Driver.Class)) :
    ps.foldlM (forProcs forks) s =
      (ps.flatMap fun phase => (linesOf es phase.2).map (phase, ·)).foldlM (step forks) s := by
  induction ps generalizing s with
  | nil => rfl
  | cons phase ps ih =>
    have hlen : s.procs.lists.mem.length = s₀.procs.lists.mem.length := by
      have := congrArg List.length hs.2
      rwa [List.length_map, List.length_map] at this
    have hloop : s.forProcs forks phase =
        (linesOf es phase.2).foldlM (fun s k => s.act forks phase.1 k) s := by
      rw [forProcs, hs.1, hlen, ← addrs_nodes prms]
      exact (hs₀.seg phase.2).forNodes (fun s k s' hs' => (step_same hs').2) hs.2
        ((hs₀.seg phase.2).length_le (hs₀.nodup phase.2))
    rw [List.foldlM_cons, List.flatMap_cons, List.foldlM_append, List.foldlM_map, hloop]
    exact bind_congr_pure fun s' hs' => ih (hs.trans (foldlM_same hs'))

/-- The driver takes the steps of `plan`. -/
theorem createProcesses_eq {forks : Forks} {s : Procs h} {prms : Prms h} {es : List Entry}
    (hs : s.lists.Have (nodes prms es)) :
    createProcesses forks s = (plan es).foldlM (Creation.step forks) ⟨s, []⟩ := by
  have hstart : (⟨s, []⟩ : Creation h).procs.lists.Have (nodes prms es) := hs
  exact Creation.foldlM_forProcs hstart ⟨rfl, rfl⟩ phases

/-! ## The order of the steps -/

/-- A step is taken before another one. -/
def Step.Before (x y : Step) : Prop :=
  phases.idxOf x.1 < phases.idxOf y.1 ∨ (x.1 = y.1 ∧ x.2 < y.2)

theorem Step.Before.asymm {x y : Step} (h : x.Before y) : ¬y.Before x := by
  unfold Step.Before at *
  rintro (hlt | ⟨heq, hlt⟩) <;> rcases h with hlt' | ⟨heq', hlt'⟩
  · omega
  · rw [heq'] at hlt
    exact lt_irrefl _ hlt
  · rw [heq] at hlt'
    exact lt_irrefl _ hlt'
  · omega

theorem linesOf_pairwise (es : List Entry) (c : Driver.Class) : (linesOf es c).Pairwise (· < ·) :=
  List.Pairwise.filter _ List.pairwise_lt_range

theorem plan_pairwise (es : List Entry) : (plan es).Pairwise Step.Before := by
  rw [plan, List.pairwise_flatMap]
  constructor
  · intro phase _
    rw [List.pairwise_map]
    exact (linesOf_pairwise es phase.2).imp fun hlt => .inr ⟨rfl, hlt⟩
  · have hphases : phases.Pairwise fun p q => phases.idxOf p < phases.idxOf q := by decide
    refine hphases.imp fun hlt x hx y hy => .inl ?_
    obtain ⟨_, _, rfl⟩ := List.mem_map.1 hx
    obtain ⟨_, _, rfl⟩ := List.mem_map.1 hy
    exact hlt

theorem mem_linesOf {es : List Entry} {c : Driver.Class} {k : ℕ} :
    k ∈ linesOf es c ↔ ∃ e, es[k]? = some e ∧ e.id.list = c := by
  rw [linesOf, List.mem_filter, List.mem_range]
  constructor
  · rintro ⟨-, hany⟩
    cases he : es[k]? with
    | none => simp [he] at hany
    | some e => exact ⟨e, rfl, by simpa [he] using hany⟩
  · rintro ⟨e, he, hc⟩
    exact ⟨(List.getElem?_eq_some_iff.1 he).1, by simp [he, hc]⟩

theorem mem_plan {es : List Entry} {phase : Phase} {c : Driver.Class} {k : ℕ} :
    ((phase, c), k) ∈ plan es ↔ (phase, c) ∈ phases ∧ ∃ e, es[k]? = some e ∧ e.id.list = c := by
  simp [plan, List.mem_flatMap, ← mem_linesOf]

/-- What has to be done before a step has been done. -/
theorem mem_of_before {es : List Entry} {done rest : List Step} {x y : Step}
    (hplan : plan es = done ++ x :: rest) (hy : y ∈ plan es) (hyx : y.Before x) : y ∈ done := by
  have hpairwise := plan_pairwise es
  rw [hplan] at hpairwise hy
  rcases List.mem_append.1 hy with hy | hy
  · exact hy
  · rcases List.mem_cons.1 hy with rfl | hy
    · exact absurd hyx hyx.asymm
    · have hxy := (List.pairwise_cons.1 (List.pairwise_append.1 hpairwise).2.1).1 y hy
      exact absurd hxy hyx.asymm

/-- What has been done is before. -/
theorem before_of_mem {es : List Entry} {done rest : List Step} {x y : Step}
    (hplan : plan es = done ++ x :: rest) (hy : y ∈ done) : y.Before x := by
  have hpairwise := plan_pairwise es
  rw [hplan] at hpairwise
  exact (List.pairwise_append.1 hpairwise).2.2 y hy x List.mem_cons_self

/-- The lines whose processes are created by the steps. -/
def created (steps : List Step) : List ℕ :=
  steps.filterMap fun x => if x.1.1 = .create then some x.2 else none

theorem created_plan (es : List Entry) : created (plan es) = creationOrder es := by
  simp [created, plan, phases, creationOrder, List.filterMap_append, List.filterMap_map]

/-! ## What a step does -/

/-- The strings after the value of an option has been adjusted, if there is one. -/
def adjustStrsGiven (c : Char) (text : Option (List Char)) (strs : List Word) : List Word :=
  match text with
  | none => strs
  | some text => adjustStrs c text strs

variable {args : List Char} {argv : List (Option ℕ)} {strs : List Word}

theorem HasArgv.adjustGiven (hargv : HasArgv args argv strs) {c : Char} (hc : c ≠ nul)
    {text : Option (List Char)} (htext : ∀ str ∈ text, nul ∉ str) :
    ∃ args', adjustGiven c text argv args = some args' ∧
      HasArgv args' argv (adjustStrsGiven c text strs) := by
  cases text with
  | none => exact ⟨args, rfl, hargv⟩
  | some text =>
    obtain ⟨qs, rfl, hqs⟩ := hargv
    obtain ⟨args', hadjust, hstrs, -⟩ := strsAt_adjust hc (htext text rfl) hqs
    exact ⟨args', hadjust, qs, rfl, hstrs⟩

theorem HasArgv.readArgv_eq (hargv : HasArgv args argv strs) : readArgv args argv = some strs := by
  obtain ⟨qs, rfl, hqs⟩ := hargv
  generalize 0 = lo at hqs
  induction strs generalizing lo qs with
  | nil =>
    cases qs with
    | nil => rfl
    | cons q qs => exact absurd hqs id
  | cons str strs ih =>
    cases qs with
    | nil => exact absurd hqs id
    | cons q qs =>
      obtain ⟨-, hstr, hqs⟩ := hqs
      simp [readArgv, hstr.readStr_eq, ih _ _ hqs]

theorem nul_notMem_decimal (n : ℕ) : nul ∉ decimal n := fun hmem =>
  ne_nul_of_isDigit (isDigit_of_mem_decimal hmem) rfl

/-- The PID of a server, as a text. -/
def pidText (pid : ℕ → PosInt) (server : Option ℕ) : Option (List Char) :=
  server.map fun k => decimal (pid k).val

/-- The strings of `argv` before the process is created. -/
def Entry.madeArgv (e : Entry) (prms : Prms h) (pid : ℕ → PosInt) (es : List Entry) : List Word :=
  if e.id = .serverClient then e.argv prms es else e.execArgv prms pid es

variable {prms : Prms h} {forks : Forks} {es : List Entry} {s : Creation h}

/-- The values that `procs_make_argv` adjusts. -/
theorem Entry.adjustStrs_madeArgv (e : Entry) (prms : Prms h) (pid : ℕ → PosInt)
    (es : List Entry) :
    adjustStrsGiven 'l' ((e.proc prms es).ftraceStop.map fun stop => decimal stop.val)
      (adjustStrsGiven 'r' ((e.proc prms es).ftraceStart.map fun start => decimal start.val)
        (adjustStrsGiven 'x' ((e.proc prms es).durationMs.map fun ms => decimal ms.toNat)
          (adjustStrsGiven 'v' (pidText pid (e.proc prms es).serverPid) (e.argv prms es)))) =
      e.madeArgv prms pid es := by
  obtain ⟨i, rest⟩ := e
  cases i with
  | client =>
    have htogether := prms.together
    simp only [Entry.proc, Entry.madeArgv, Entry.execArgv, Entry.forced, Entry.serverPid]
    cases precedingServer es <;> cases hstart : prms.ftraceStart <;>
      cases hstop : prms.ftraceStop <;> simp only [hstart, hstop] at htogether <;> cases htogether
    all_goals rfl
  | server | serverClient | cpuHog | cpuHogCbs | hrtCbs | serverHog => rfl

/-- The value that `procs_create` adjusts. -/
theorem Entry.adjustStrs_execArgv (e : Entry) (prms : Prms h) (pid : ℕ → PosInt)
    (es : List Entry) :
    adjustStrsGiven 'v' (pidText pid (e.subserverPid es)) (e.madeArgv prms pid es) =
      e.execArgv prms pid es := by
  obtain ⟨i, rest⟩ := e
  cases i with
  | serverClient =>
    simp only [Entry.subserverPid, Entry.madeArgv, Entry.execArgv, Entry.forced]
    cases precedingServer es <;> rfl
  | client | server | cpuHog | cpuHogCbs | hrtCbs | serverHog => rfl

/-- What has become of the process of a line, after some steps. -/
structure Prepared (prms : Prms h) (forks : Forks) (es : List Entry) (done : List Step) (k : ℕ)
    (e : Entry) (p : Proc h) : Prop where
  fresh : ((.makeArgv, e.id.list), k) ∉ done → p = e.proc prms (es.take k)
  subserver : p.subserverPid = e.subserverPid (es.take k)
  made : ((.makeArgv, e.id.list), k) ∈ done → ((.create, e.id.list), k) ∉ done →
    ∃ args argv, p.args = some args ∧ p.argv = some argv ∧
      HasArgv args argv (e.madeArgv prms forks.pid (es.take k))
  procId : ((.create, e.id.list), k) ∈ done → p.procId = (forks.pid k).val

/-- What the process of a line is executed with. -/
def execArgvAt (prms : Prms h) (forks : Forks) (es : List Entry) (k : ℕ) : List Word :=
  match es[k]? with
  | none => []
  | some e => e.execArgv prms forks.pid (es.take k)

/-- The state of the driver after some steps. -/
structure Creation.After (s : Creation h) (prms : Prms h) (forks : Forks) (es : List Entry)
    (done : List Step) : Prop where
  proc : ∀ k e, es[k]? = some e →
    ∃ p, s.procs.proc k = some p ∧ Prepared prms forks es done k e p
  execs : s.execs = (created done).map fun k => (k, execArgvAt prms forks es k)
  forked : ∀ k ∈ created done, forks.fails k = false

theorem Procs.proc_setProc (s : Procs h) (k : ℕ) (f : Proc h → Proc h) (j : ℕ) :
    (s.setProc k f).proc j = if j = k then (s.proc j).map f else s.proc j := by
  simp only [proc, setProc, Lists.setVal, setVal, List.getElem?_modify]
  by_cases hj : j = k
  · subst hj
    cases s.lists.mem[j]? <;> simp
  · rw [if_neg hj]
    cases s.lists.mem[j]? <;> simp [Ne.symm hj]

/-- The server before a line is listed before it. -/
theorem exists_precedingServer {es : List Entry} {j k : ℕ}
    (hj : precedingServer (es.take k) = some j) :
    j < k ∧ ∃ e, es[j]? = some e ∧ e.id.list = .server := by
  obtain ⟨e, he, hlist⟩ := mem_linesOf.1 (List.mem_of_getLast? hj)
  rw [List.getElem?_take] at he
  split_ifs at he with hlt
  exact ⟨hlt, e, he, hlist⟩

/-- A server which has been created has its PID. -/
theorem Creation.After.pidText {done : List Step} (hs : s.After prms forks es done) (k : ℕ)
    {server : Option ℕ} (hserver : ∀ j ∈ server, precedingServer (es.take k) = some j)
    (hdone : ∀ j ∈ server, ((.create, .server), j) ∈ done) :
    s.procs.pidText server = some (Config.pidText forks.pid server) := by
  cases server with
  | none => rfl
  | some j =>
    obtain ⟨-, e, he, hlist⟩ := exists_precedingServer (hserver j rfl)
    obtain ⟨p, hp, hprepared⟩ := hs.proc j e he
    have hprocId := hprepared.procId (hlist ▸ hdone j rfl)
    simp only [Procs.pidText, hp, Option.map_some, hprocId, Config.pidText]
    rfl

/-- Only the process of the step changes. -/
theorem Creation.After.setProc {done : List Step} (hs : s.After prms forks es done)
    {phase : Phase} {k : ℕ} {e : Entry} (he : es[k]? = some e) {f : Proc h → Proc h}
    (hself : ∀ p, s.procs.proc k = some p →
      Prepared prms forks es (done ++ [((phase, e.id.list), k)]) k e (f p))
    (j : ℕ) (e' : Entry) (hj : es[j]? = some e') :
    ∃ p, (s.procs.setProc k f).proc j = some p ∧
      Prepared prms forks es (done ++ [((phase, e.id.list), k)]) j e' p := by
  obtain ⟨p, hp, hprepared⟩ := hs.proc j e' hj
  rw [Procs.proc_setProc, hp]
  by_cases hjk : j = k
  · subst hjk
    obtain rfl : e = e' := Option.some.inj (he.symm.trans hj)
    exact ⟨f p, if_pos rfl, hself p hp⟩
  · refine ⟨p, if_neg hjk, ?_⟩
    have hmem (ph : Phase) : ((ph, e'.id.list), j) ∈ done ++ [((phase, e.id.list), k)] ↔
        ((ph, e'.id.list), j) ∈ done := by
      simp [hjk]
    exact ⟨fun hnot => hprepared.fresh fun hin => hnot ((hmem _).2 hin), hprepared.subserver,
      fun hin hnot => hprepared.made ((hmem _).1 hin) fun hin' => hnot ((hmem _).2 hin'),
      fun hin => hprepared.procId ((hmem _).1 hin)⟩

theorem makeArgv_before_create (c : Driver.Class) (k : ℕ) :
    Step.Before ((.makeArgv, c), k) ((.create, c), k) := by
  left
  dsimp only
  cases c <;> decide

/-- Every process is in a list which is gone through twice. -/
theorem mem_phases (phase : Phase) (c : Driver.Class) : (phase, c) ∈ phases := by
  cases phase <;> cases c <;> decide

/-- `argv` is made. -/
theorem Creation.After.makeArgv {done rest : List Step} {c : Driver.Class} {k : ℕ}
    (hs : s.After prms forks es done) (hplan : plan es = done ++ ((.makeArgv, c), k) :: rest)
    (hshort : Short prms es) :
    ∃ s', s.step forks ((.makeArgv, c), k) = pure s' ∧
      s'.After prms forks es (done ++ [((.makeArgv, c), k)]) := by
  have hmem : ((.makeArgv, c), k) ∈ plan es := by
    rw [hplan]
    simp
  obtain ⟨-, e, he, rfl⟩ := mem_plan.1 hmem
  have hnew : ((.makeArgv, e.id.list), k) ∉ done := fun hin =>
    (before_of_mem hplan hin).asymm (before_of_mem hplan hin)
  have hnotcreated : ((.create, e.id.list), k) ∉ done := fun hin =>
    (makeArgv_before_create e.id.list k).asymm (before_of_mem hplan hin)
  obtain ⟨p, hp, hprepared⟩ := hs.proc k e he
  obtain rfl := hprepared.fresh hnew
  -- The tokens of the command line.
  have hargs : (e.proc prms (es.take k)).args = some (e.commandLine prms (es.take k) ++ [nul]) := by
    rw [Entry.proc, block, if_pos (hshort k e he)]
  obtain ⟨args, argv, hcraft, hargv⟩ :=
    Proc.craftArgv_eq _ (nul_notMem_commandLine e prms (es.take k)) hargs
  rw [tokens_commandLine] at hargv
  -- The server of a client has been created.
  have hserver : s.procs.pidText (e.serverPid (es.take k)) =
      some (Config.pidText forks.pid (e.serverPid (es.take k))) := by
    refine hs.pidText k (fun j hj => ?_) fun j hj => ?_
    · simp only [Entry.serverPid] at hj
      split_ifs at hj
      · exact hj
      · cases hj
    · simp only [Entry.serverPid] at hj
      split_ifs at hj with hclient
      · obtain ⟨-, e', he', hlist⟩ := exists_precedingServer hj
        refine mem_of_before hplan (mem_plan.2 ⟨mem_phases _ _, e', he', hlist⟩) (.inl ?_)
        rw [hclient]
        dsimp only
        decide
      · cases hj
  have htext (n : Option ℕ) : ∀ str ∈ n.map decimal, nul ∉ str := by
    intro str hstr
    obtain ⟨m, -, rfl⟩ := Option.map_eq_some_iff.1 hstr
    exact nul_notMem_decimal m
  have hv : ∀ str ∈ Config.pidText forks.pid (e.serverPid (es.take k)), nul ∉ str := by
    intro str hstr
    obtain ⟨m, -, rfl⟩ := Option.map_eq_some_iff.1 hstr
    exact nul_notMem_decimal _
  obtain ⟨args₁, h₁, hargv⟩ := hargv.adjustGiven (by decide : 'v' ≠ nul) hv
  obtain ⟨args₂, h₂, hargv⟩ := hargv.adjustGiven (by decide : 'x' ≠ nul)
    (htext ((e.proc prms (es.take k)).durationMs.map fun ms => ms.toNat))
  obtain ⟨args₃, h₃, hargv⟩ := hargv.adjustGiven (by decide : 'r' ≠ nul)
    (htext ((e.proc prms (es.take k)).ftraceStart.map fun start => start.val))
  obtain ⟨args₄, h₄, hargv⟩ := hargv.adjustGiven (by decide : 'l' ≠ nul)
    (htext ((e.proc prms (es.take k)).ftraceStop.map fun stop => stop.val))
  simp only [Option.map_map, Function.comp_def] at h₂ h₃ h₄ hargv
  have hmade : s.procs.makeArgv k = some (s.procs.setProc k fun p =>
      { p with args := some args₄, argv := some argv }) := by
    have hserver' : s.procs.pidText (e.proc prms (es.take k)).serverPid =
        some (Config.pidText forks.pid (e.serverPid (es.take k))) := hserver
    simp only [Procs.makeArgv, hp, hcraft, hserver', h₁, h₂, h₃, h₄, Option.bind_eq_bind,
      Option.bind_some]
  refine ⟨⟨s.procs.setProc k fun p => { p with args := some args₄, argv := some argv }, s.execs⟩,
    ?_, hs.setProc he fun p hp' => ?_, ?_, ?_⟩
  · simp only [Creation.step, Creation.act, hmade]
    rfl
  · obtain rfl := Option.some.inj (hp.symm.trans hp')
    refine ⟨fun hnot => absurd (by simp) hnot, hprepared.subserver, fun _ _ => ?_, fun hin => ?_⟩
    · exact ⟨args₄, argv, rfl, rfl, Entry.adjustStrs_madeArgv e prms _ _ ▸ hargv⟩
    · simp [hnotcreated] at hin
  · simp [hs.execs, created]
  · simpa [created] using hs.forked

/-- The process is created, unless `fork` fails. -/
theorem Creation.After.create {done rest : List Step} {c : Driver.Class} {k : ℕ}
    (hs : s.After prms forks es done) (hplan : plan es = done ++ ((.create, c), k) :: rest) :
    (forks.fails k = true ∧ ∃ s', s.step forks ((.create, c), k) = throw s' ∧
        s'.execs = s.execs) ∨
      (forks.fails k = false ∧ ∃ s', s.step forks ((.create, c), k) = pure s' ∧
        s'.After prms forks es (done ++ [((.create, c), k)])) := by
  have hmem : ((.create, c), k) ∈ plan es := by
    rw [hplan]
    simp
  obtain ⟨-, e, he, rfl⟩ := mem_plan.1 hmem
  have hnew : ((.create, e.id.list), k) ∉ done := fun hin =>
    (before_of_mem hplan hin).asymm (before_of_mem hplan hin)
  have hmade : ((.makeArgv, e.id.list), k) ∈ done :=
    mem_of_before hplan (mem_plan.2 ⟨mem_phases _ _, e, he, rfl⟩) (makeArgv_before_create _ k)
  obtain ⟨p, hp, hprepared⟩ := hs.proc k e he
  obtain ⟨args, argv, hargs, hargv, hstrs⟩ := hprepared.made hmade hnew
  -- The server that it is chained to has been created.
  have hserver : s.procs.pidText p.subserverPid =
      some (Config.pidText forks.pid (e.subserverPid (es.take k))) := by
    rw [hprepared.subserver]
    refine hs.pidText k (fun j hj => ?_) fun j hj => ?_
    · simp only [Entry.subserverPid] at hj
      split_ifs at hj
      · exact hj
      · cases hj
    · simp only [Entry.subserverPid] at hj
      split_ifs at hj with hchained
      · obtain ⟨hlt, e', he', hlist⟩ := exists_precedingServer hj
        refine mem_of_before hplan (mem_plan.2 ⟨mem_phases _ _, e', he', hlist⟩) (.inr ⟨?_, hlt⟩)
        rw [hchained]
        rfl
      · cases hj
  have hv : ∀ str ∈ Config.pidText forks.pid (e.subserverPid (es.take k)), nul ∉ str := by
    intro str hstr
    obtain ⟨m, -, rfl⟩ := Option.map_eq_some_iff.1 hstr
    exact nul_notMem_decimal _
  obtain ⟨args', hadjust, hstrs⟩ := hstrs.adjustGiven (by decide : 'v' ≠ nul) hv
  rw [Entry.adjustStrs_execArgv] at hstrs
  have hcreate : (s.create forks k).run = if forks.fails k then
        some (.error { s with procs := s.procs.setProc k fun p =>
          { p with args := some args', procId := -1 } })
      else some (.ok ⟨s.procs.setProc k fun p =>
          { p with args := some args', procId := (forks.pid k).val },
        s.execs ++ [(k, e.execArgv prms forks.pid (es.take k))]⟩) := by
    simp only [Creation.create, ExceptT.run_mk, hp, hargs, hargv, hserver, hadjust,
      hstrs.readArgv_eq, Option.bind_eq_bind, Option.bind_some]
  cases hfork : forks.fails k with
  | true =>
    rw [hfork, if_pos rfl] at hcreate
    exact .inl ⟨rfl, _, hcreate, rfl⟩
  | false =>
    rw [hfork, if_neg (by simp)] at hcreate
    refine .inr ⟨rfl, _, hcreate, hs.setProc he fun p' hp' => ?_, ?_, fun j hj => ?_⟩
    · obtain rfl := Option.some.inj (hp.symm.trans hp')
      exact ⟨fun hnot => absurd (List.mem_append_left _ hmade) hnot, hprepared.subserver,
        fun _ hnot => absurd (by simp) hnot, fun _ => rfl⟩
    · simp [hs.execs, created, execArgvAt, he]
    · have hj : j ∈ created done ∨ j = k := by simpa [created] using hj
      rcases hj with hj | rfl
      · exact hs.forked j hj
      · exact hfork

/-- The command lines of the processes which are created. -/
def execsOf : Except (Creation h) (Creation h) → List (ℕ × List Word)
  | .ok s => s.execs
  | .error s => s.execs

/-- The steps are taken, up to one whose `fork` fails. -/
theorem Creation.After.foldlM {done : List Step} (hs : s.After prms forks es done)
    (hshort : Short prms es) (rest : List Step) (hplan : plan es = done ++ rest) :
    ∃ r, (rest.foldlM (Creation.step forks) s).run = some r ∧
      execsOf r = ((creationOrder es).takeWhile (!forks.fails ·)).map
        fun k => (k, execArgvAt prms forks es k) := by
  induction rest generalizing done s with
  | nil =>
    refine ⟨.ok s, rfl, ?_⟩
    have hall : ∀ k ∈ creationOrder es, (!forks.fails k) = true := by
      intro k hk
      rw [← created_plan, hplan, List.append_nil] at hk
      simp [hs.forked k hk]
    rw [List.takeWhile_eq_self_iff.2 hall, ← created_plan, hplan, List.append_nil]
    exact hs.execs
  | cons x rest ih =>
    obtain ⟨⟨phase, c⟩, k⟩ := x
    have hnext : plan es = (done ++ [((phase, c), k)]) ++ rest := by
      rw [hplan, List.append_assoc]
      rfl
    rw [List.foldlM_cons]
    cases phase with
    | makeArgv =>
      obtain ⟨s', hstep, hs'⟩ := hs.makeArgv hplan hshort
      rw [hstep, pure_bind]
      exact ih hs' hnext
    | create =>
      rcases hs.create hplan with ⟨hfork, s', hstep, hexecs⟩ | ⟨hfork, s', hstep, hs'⟩
      · refine ⟨.error s', by rw [hstep]; rfl, ?_⟩
        have hall : ∀ k ∈ created done, (!forks.fails k) = true := by
          intro k hk
          simp [hs.forked k hk]
        have horder : creationOrder es = created done ++ k :: created rest := by
          rw [← created_plan, hplan]
          simp [created]
        rw [horder, List.takeWhile_append_of_pos hall, List.takeWhile_cons_of_neg (by simp [hfork]),
          List.append_nil, ← hs.execs]
        exact hexecs
      · rw [hstep, pure_bind]
        exact ih hs' hnext

/-! ## The command lines -/

/-- The processes which have been listed. -/
theorem after_listed (prms : Prms h) (forks : Forks) (es : List Entry) {s : Procs h}
    (hs : s.lists.Have (nodes prms es)) : Creation.After ⟨s, []⟩ prms forks es [] := by
  refine ⟨fun k e he => ?_, rfl, fun _ hk => absurd hk List.not_mem_nil⟩
  obtain ⟨next, hnode⟩ := (hs.seg e.id.list).getElem? (mem_nodes.2 ⟨e, he, rfl, rfl⟩)
  refine ⟨e.proc prms (es.take k), ?_, fun _ => rfl, rfl, fun hin => ?_, fun hin => ?_⟩
  · simp only [Procs.proc, hnode, Option.map_some]
  · exact absurd hin List.not_mem_nil
  · exact absurd hin List.not_mem_nil

/-- What the processes are executed with. -/
theorem execs_eq {lines : List CString} (haccept : (readLines [] lines).1 = .ok ())
    (hshort : Short prms (readLines [] lines).2) :
    execs prms forks lines =
      some (((creationOrder (readLines [] lines).2).takeWhile (!forks.fails ·)).map
        fun k => (k, execArgvAt prms forks (readLines [] lines).2 k)) := by
  rcases (listed_empty prms).parseLines lines with ⟨⟨k, e, hk, hmax⟩, -⟩ | ⟨s, hparse, hlists⟩
  · exact absurd hmax (hshort k e hk).ne
  · obtain ⟨r, hr, hexecs⟩ := (after_listed prms forks _ hlists).foldlM hshort (plan _) rfl
    rw [haccept] at hparse
    rw [← createProcesses_eq hlists] at hr
    rw [← hexecs]
    simp only [execs, hparse, hr, Option.bind_eq_bind, Option.bind_some]
    cases r <;> rfl

/-- The placeholders are those of the options which are forced. -/
theorem Entry.forcedOptions_eq (e : Entry) (prms : Prms h) (pid : ℕ → PosInt) (es : List Entry) :
    e.forcedOptions prms es = (e.forced prms pid es).map fun o => (o.optchar, o.placeholder) := by
  obtain ⟨i, rest⟩ := e
  cases i with
  | client =>
    have hserver : Entry.serverPid ⟨.client, rest⟩ es = precedingServer es := rfl
    rw [Entry.forcedOptions, Entry.forced, hserver]
    cases precedingServer es <;> cases prms.ftraceStart <;> cases prms.ftraceStop <;> rfl
  | serverClient =>
    have hserver : Entry.subserverPid ⟨.serverClient, rest⟩ es = precedingServer es := rfl
    rw [Entry.forcedOptions, Entry.forced, hserver]
    cases precedingServer es <;> rfl
  | server | cpuHog | cpuHogCbs | hrtCbs | serverHog => rfl

/-- The strings of `argv`. -/
theorem Entry.argv_eq (e : Entry) (prms : Prms h) (pid : ℕ → PosInt) (es : List Entry) :
    e.argv prms es = ('.' :: '/' :: e.id.program) :: (tokens delimiter e.remainingLine.chars ++
      separate ((e.forced prms pid es).map Forced.appended)) := by
  rw [Entry.argv, e.forcedOptions_eq prms pid, List.flatMap_map, separate, List.flatMap_map]
  rfl

/-- The name of the program is not an option. -/
theorem adjustAll_cons {w : Word} (hw : w.head? ≠ some '-') (forced : List Forced)
    (ws : List Word) : adjustAll forced (w :: ws) = w :: adjustAll forced ws := by
  induction forced generalizing ws with
  | nil => rfl
  | cons o os ih =>
    have hnames : ¬Names o.optchar w := by
      intro hnames
      cases w with
      | nil => cases hnames
      | cons c cs =>
        rw [Names, List.take_succ_cons, List.cons.injEq] at hnames
        exact hw (congrArg some hnames.1)
    rw [adjustAll, List.foldl_cons, adjustStrs_of_not_names hnames]
    exact ih _

/-- The programs know the options that are forced. -/
theorem Entry.takesArg_forced (e : Entry) (prms : Prms h) (pid : ℕ → PosInt) (es : List Entry) :
    (∀ o ∈ e.forced prms pid es, takesArg e.id.optstring o.optchar = true ∧ o.optchar ≠ '-') ∧
      ((e.forced prms pid es).map Forced.optchar).Nodup := by
  obtain ⟨i, rest⟩ := e
  cases i with
  | client =>
    have hv : takesArg (ProgramId.optstring .client) 'v' = true := by decide
    have hx : takesArg (ProgramId.optstring .client) 'x' = true := by decide
    have hr : takesArg (ProgramId.optstring .client) 'r' = true := by decide
    have hl : takesArg (ProgramId.optstring .client) 'l' = true := by decide
    simp only [Entry.forced]
    cases precedingServer es <;> cases prms.ftraceStart <;> cases prms.ftraceStop <;>
      simp [forcedPid, forcedFtrace, hv, hx, hr, hl]
  | serverClient =>
    have harg : takesArg (ProgramId.optstring .serverClient) 'v' = true := by decide
    simp only [Entry.forced]
    cases precedingServer es <;> simp [forcedPid, harg]
  | hrtCbs =>
    have harg : takesArg (ProgramId.optstring .hrtCbs) 'x' = true := by decide
    simp [Entry.forced, harg]
  | server | cpuHog | cpuHogCbs | serverHog => simp [Entry.forced]

/-- On the lines of the processes which are created and for which options are forced, the driver
    finds these as `getopt` does. -/
def Readable (prms : Prms h) (forks : Forks) (es : List Entry) : Prop :=
  ∀ k ∈ (creationOrder es).takeWhile (!forks.fails ·), ∀ e, es[k]? = some e →
    e.forced prms forks.pid (es.take k) ≠ [] →
      Plain e.id.optstring ((e.forced prms forks.pid (es.take k)).map Forced.optchar) none
        (tokens delimiter e.remainingLine.chars)

/-- The command line of one process. -/
theorem execArgv_iff {k : ℕ} {e : Entry} (he : es[k]? = some e)
    (hk : k ∈ (creationOrder es).takeWhile (!forks.fails ·)) (hreadable : Readable prms forks es) :
    (execArgvAt prms forks es k).head? = some ('.' :: '/' :: e.id.program) ∧
      (InEffect e.id.optstring (e.forced prms forks.pid (es.take k))
          (tokens delimiter e.remainingLine.chars) (execArgvAt prms forks es k).tail ↔
        ∀ o ∈ e.forced prms forks.pid (es.take k),
          o.Fits (tokens delimiter e.remainingLine.chars)) := by
  have hargv : execArgvAt prms forks es k = ('.' :: '/' :: e.id.program) ::
      adjustAll (e.forced prms forks.pid (es.take k))
        (tokens delimiter e.remainingLine.chars ++
          separate ((e.forced prms forks.pid (es.take k)).map Forced.appended)) := by
    simp only [execArgvAt, he, Entry.execArgv]
    rw [e.argv_eq prms forks.pid, adjustAll_cons (by simp)]
  rw [hargv]
  refine ⟨rfl, ?_⟩
  rw [List.tail_cons]
  by_cases hforced : e.forced prms forks.pid (es.take k) = []
  · rw [hforced]
    refine iff_of_true ⟨fun o ho => absurd ho List.not_mem_nil, ?_⟩ fun o ho =>
      absurd ho List.not_mem_nil
    rw [List.map_nil, separate, List.map_nil, List.flatMap_nil, List.append_nil]
    exact List.prefix_refl _
  · obtain ⟨harg, hnodup⟩ := e.takesArg_forced prms forks.pid (es.take k)
    exact inEffect_iff (hreadable k hk e he hforced) harg hnodup

/-- The options that the driver forces are in effect if and only if they fit. -/
theorem forcedInEffect_iff {lines : List CString}
    (haccept : (readLines [] lines).1 = .ok ()) (hshort : Short prms (readLines [] lines).2)
    (hreadable : Readable prms forks (readLines [] lines).2) :
    ForcedInEffect prms forks lines ↔
      ∀ k ∈ (creationOrder (readLines [] lines).2).takeWhile (!forks.fails ·),
        ∀ e, (readLines [] lines).2[k]? = some e →
          ∀ o ∈ e.forced prms forks.pid ((readLines [] lines).2.take k),
            o.Fits (tokens delimiter e.remainingLine.chars) := by
  have hexecs : execs prms forks lines = _ := execs_eq haccept hshort
  constructor
  · rintro ⟨cmds, hcmds, -, heffect⟩ k hk e he
    obtain rfl := Option.some.inj (hcmds.symm.trans hexecs)
    obtain ⟨e', he', -, hineffect⟩ := heffect k _ (List.mem_map_of_mem hk)
    obtain rfl : e = e' := Option.some.inj (he.symm.trans he')
    exact (execArgv_iff he hk hreadable).2.1 hineffect
  · intro hfits
    refine ⟨_, hexecs, by simp [List.map_map, Function.comp_def], fun k argv hin => ?_⟩
    obtain ⟨j, hj, heq⟩ := List.mem_map.1 hin
    cases heq
    obtain ⟨e, he⟩ : ∃ e, (readLines [] lines).2[k]? = some e := by
      obtain ⟨c, -, hk⟩ := List.mem_flatMap.1 (List.takeWhile_subset _ hj)
      obtain ⟨e, he, -⟩ := mem_linesOf.1 hk
      exact ⟨e, he⟩
    obtain ⟨hhead, hiff⟩ := execArgv_iff he hj hreadable
    exact ⟨e, he, hhead, hiff.2 (hfits k hj e he)⟩

/-! ## The lines of the usage text -/

/-- A server. -/
def usageServer : CString := ⟨"SERVER -d 9 -p 7777".toList, by decide⟩

/-- A client, as in the usage text of the driver. -/
def usageClient : CString :=
  ⟨"CLIENT -1 5 -2 9 -3 5 -q 20 -t 30 -p 7777 -s x.bin -x 60".toList, by decide⟩

/-- The same client, without an option which is forced. -/
def plainClient : CString :=
  ⟨"CLIENT -1 5 -2 9 -3 5 -q 20 -t 30 -p 7777 -s x.bin".toList, by decide⟩

/-- A minute. -/
def minute : Prms .lp64 := ⟨60000, none, none, rfl⟩

/-- The server gets the PID 1234, and the client the next one. -/
def usageForks : Forks where
  fails _ := false
  pid k := if k = 0 then ⟨1234, by decide, by decide⟩ else ⟨1235, by decide, by decide⟩

theorem short_pair {e e' : Entry} (he : (e.commandLine prms []).length < intMax)
    (he' : (e'.commandLine prms [e]).length < intMax) : Short prms [e, e'] := by
  intro k e'' hk
  rcases k with _ | _ | k
  · cases hk
    exact he
  · cases hk
    exact he'
  · cases hk

theorem readable_pair {e e' : Entry} (he : e.forced prms forks.pid [] = [])
    (he' : Plain e'.id.optstring ((e'.forced prms forks.pid [e]).map Forced.optchar) none
      (tokens delimiter e'.remainingLine.chars)) : Readable prms forks [e, e'] := by
  intro k _ e'' hk hforced
  rcases k with _ | _ | k
  · cases hk
    exact absurd he hforced
  · cases hk
    exact he'
  · cases hk

/-- The options are in effect when the client is as in the usage text, but for `-x 60`. -/
theorem forcedInEffect_plainClient :
    ForcedInEffect minute usageForks [usageServer, plainClient] := by
  have hlines : readLines [] [usageServer, plainClient] =
      (.ok (), [⟨.server, usageServer.drop 7⟩, ⟨.client, plainClient.drop 7⟩]) := rfl
  refine (forcedInEffect_iff (congrArg Prod.fst hlines) ?_ ?_).2 ?_
  · rw [hlines]
    exact short_pair (by decide +kernel) (by decide +kernel)
  · rw [hlines]
    exact readable_pair rfl (by decide +kernel)
  · rw [hlines]
    intro k _ e he o ho
    rcases k with _ | _ | k
    · cases he
      exact absurd ho List.not_mem_nil
    · cases he
      have hforced : o ∈ [⟨'v', intMax, 1234⟩, ⟨'x', ulongMax .lp64, 60000⟩] := ho
      rcases List.mem_cons.1 hforced with rfl | hforced
      · rw [Forced.Fits, if_neg (by decide +kernel)]
        decide +kernel
      · rw [List.mem_singleton.1 hforced, Forced.Fits, if_neg (by decide +kernel)]
        decide +kernel
    · cases he

/-- With the lines of the usage text, the client does not run for a minute: the first `-x` is
    adjusted, and `getopt` takes the last one. -/
theorem not_forcedInEffect_usage :
    (readLines [] [usageServer, usageClient]).1 = .ok () ∧
      ¬ForcedInEffect minute usageForks [usageServer, usageClient] := by
  have hlines : readLines [] [usageServer, usageClient] =
      (.ok (), [⟨.server, usageServer.drop 7⟩, ⟨.client, usageClient.drop 7⟩]) := rfl
  refine ⟨congrArg Prod.fst hlines, ?_⟩
  rintro ⟨cmds, hcmds, -, heffect⟩
  have hshort : Short minute (readLines [] [usageServer, usageClient]).2 := by
    rw [hlines]
    exact short_pair (by decide +kernel) (by decide +kernel)
  have hreadable : Readable minute usageForks (readLines [] [usageServer, usageClient]).2 := by
    rw [hlines]
    exact readable_pair rfl (by decide +kernel)
  obtain rfl := Option.some.inj (hcmds.symm.trans (execs_eq (congrArg Prod.fst hlines) hshort))
  have hmem : 1 ∈ (creationOrder (readLines [] [usageServer, usageClient]).2).takeWhile
      (!usageForks.fails ·) := by
    rw [hlines]
    decide
  obtain ⟨e, he, -, hineffect⟩ := heffect 1 _ (List.mem_map_of_mem hmem)
  have hfits := (execArgv_iff he hmem hreadable).2.1 hineffect
  rw [hlines] at he hfits
  cases he
  have hforced : (⟨'x', ulongMax .lp64, 60000⟩ : Forced) ∈
      [(⟨'v', intMax, 1234⟩ : Forced), ⟨'x', ulongMax .lp64, 60000⟩] := by simp
  have hx := hfits _ hforced
  rw [Forced.Fits, if_pos (by decide +kernel)] at hx
  exact absurd hx (by decide +kernel)

end RealtimeTests.Config
