import RealtimeTests.Linked
import RealtimeTests.Strtok
import RealtimeTests.Text
import RealtimeTests.Host
import RealtimeTests.Driver.Process

/-!
# The config file

`bwi-client_server/main.c`: the driver reads a file which lists the processes to create, one for
each line. `parse_config_file` is called with each line; it adds a `struct proc` to the list of
its program, and puts in its `args` the command line of the process, with placeholders for the
options which the driver forces. `procs_make_argv` cuts it into the strings of `argv`.

Allocations succeed. The pointers to the variables of the driver are the values of these, which
do not change, and a pointer to the `proc_id` of a process is the address of its `struct proc`.
-/

namespace RealtimeTests.Config

open Linked Strtok Driver

/-! ## Programs and options -/

/-- `enum program_ids_idx`. -/
inductive ProgramId
  | server
  | client
  | cpuHog
  | cpuHogCbs
  | hrtCbs
  | serverHog
  | serverClient
  deriving DecidableEq

/-- `program_ids`. -/
def programIds : List (ProgramId × List Char) :=
  [(.server, "server".toList), (.client, "client".toList), (.cpuHog, "cpu_hog".toList),
    (.cpuHogCbs, "cpu_hog_cbs".toList), (.hrtCbs, "hrt_cbs".toList),
    (.serverHog, "server_hog".toList), (.serverClient, "server_client".toList)]

/-- The list that a process is added to. -/
def ProgramId.list : ProgramId → Driver.Class
  | server | serverClient => .server
  | client => .client
  | cpuHog => .cpuHog
  | cpuHogCbs => .cpuHogCbs
  | hrtCbs => .hrtCbs
  | serverHog => .serverHog

/-- The program of a process: that of a `SERVER_CLIENT` is the one of a `SERVER`. -/
def ProgramId.program : ProgramId → List Char
  | server | serverClient => "server".toList
  | client => "client".toList
  | cpuHog => "cpu_hog".toList
  | cpuHogCbs => "cpu_hog_cbs".toList
  | hrtCbs => "hrt_cbs".toList
  | serverHog => "server_hog".toList

/-- `delimiter`. -/
def delimiter (c : Char) : Bool := c = ' ' || c = '\t'

/-- `strcasecmp(s, t) == 0`, in the C locale. -/
def strcasecmp (s t : List Char) : Bool := s.map Char.toLower = t.map Char.toLower

/-- `INT_MAX`. -/
def intMax : ℕ := 2 ^ 31 - 1

/-- A positive `int`: a PID, or what the driver accepts as an argument of `-r` and `-l`. -/
structure PosInt where
  val : ℕ
  pos : 0 < val
  le : val ≤ intMax
  deriving DecidableEq

/-- `ULONG_MAX`. -/
def ulongMax (h : Host) : ℕ := 2 ^ h.longBits - 1

/-- What `%d` and `%lu` print. -/
abbrev decimal (n : ℕ) : List Char := Nat.toDigits 10 n

/-- The options that a format adds to the command line, each with the value that it prints:
    `" -v %d -x %lu"` with `INT_MAX` and `ULONG_MAX` is
    `fmtAdd [('v', intMax), ('x', ulongMax h)]`. -/
def fmtAdd (options : List (Char × ℕ)) : List Char :=
  options.flatMap fun (optchar, value) => ' ' :: '-' :: optchar :: ' ' :: decimal value

/-! ## Processes -/

/-- `struct proc`, without the link. -/
structure Proc (h : Host) where
  /-- The block that is allocated, if one is. -/
  args : Option (List Char)
  /-- The places of the strings in `args`, and `none` for `NULL`. -/
  argv : Option (List (Option ℕ))
  procId : ℤ
  serverPid : Option ℕ
  subserverPid : Option ℕ
  durationMs : Option (ULong h)
  ftraceStart : Option PosInt
  ftraceStop : Option PosInt
  deriving DecidableEq

/-- `proc_new`. -/
def procNew (h : Host) : Proc h := ⟨none, none, -1, none, none, none, none, none⟩

/-- `struct parse_config_file_prms`, but for what changes. -/
structure Prms (h : Host) where
  durationMs : ULong h
  ftraceStart : Option PosInt
  ftraceStop : Option PosInt
  /-- `parse_cmd_line_args` rejects one without the other. -/
  together : ftraceStart.isSome = ftraceStop.isSome

/-- The lists of processes, and `preceding_server`. -/
structure Procs (h : Host) where
  lists : Lists Driver.Class (Proc h)
  precedingServer : Option ℕ

/-- Before the first line. -/
def Procs.empty (h : Host) : Procs h := ⟨⟨[], fun _ => ⟨none, none⟩⟩, none⟩

/-! ## Formatting the command line -/

/-- The size of the block for the command line: `snprintf(NULL, 0, ...) + 1`. When there are more
    than `INT_MAX` characters, `snprintf` returns -1; when there are as many, the sum overflows. -/
def argsBuflen (str : List Char) : Option ℕ :=
  if str.length < intMax then some (str.length + 1)
  else if str.length = intMax then none
  else some 0

/-- `"./%s %s" fmt_add`. -/
def snprintfArgs (program remainingLine : List Char) (options : List (Char × ℕ)) : List Char :=
  '.' :: '/' :: program ++ ' ' :: remainingLine ++ fmtAdd options

variable {h : Host}

/-- The options in the format for finding the size of the command line. -/
def sizeOptions (prms : Prms h) (precedingServer : Option ℕ) : ProgramId → List (Char × ℕ)
  | .client =>
    if precedingServer.isNone then
      if prms.ftraceStart.isSome ∧ prms.ftraceStop.isSome then
        [('x', ulongMax h), ('r', intMax), ('l', intMax)]
      else [('x', ulongMax h)]
    else
      if prms.ftraceStart.isSome ∧ prms.ftraceStop.isSome then
        [('v', intMax), ('x', ulongMax h), ('r', intMax), ('l', intMax)]
      else [('v', intMax), ('x', ulongMax h)]
  | .hrtCbs => [('x', ulongMax h)]
  | .serverClient => [('v', intMax)]
  | .server | .cpuHog | .cpuHogCbs | .serverHog => []

/-- The options in the format for writing the command line. -/
def writeOptions (prms : Prms h) (precedingServer : Option ℕ) : ProgramId → List (Char × ℕ)
  | .client =>
    if precedingServer.isNone then
      if prms.ftraceStart.isSome ∧ prms.ftraceStop.isSome then
        [('x', ulongMax h), ('r', intMax), ('l', intMax)]
      else [('x', ulongMax h)]
    else
      if prms.ftraceStart.isSome ∧ prms.ftraceStop.isSome then
        [('v', intMax), ('x', ulongMax h), ('r', intMax), ('l', intMax)]
      else [('v', intMax), ('x', ulongMax h)]
  | .hrtCbs => [('x', ulongMax h)]
  | .serverClient => [('v', intMax)]
  | .server | .cpuHog | .cpuHogCbs | .serverHog => []

/-! ## Reading a line -/

/-- Why a line is rejected. -/
inductive ParseError
  | noPrecedingServer
  | unrecognized (token : List Char)
  deriving DecidableEq

/-- What is logged. -/
def ParseError.text : ParseError → List Char
  | noPrecedingServer => "SERVER_CLIENT must be preceeded by at least one SERVER".toList
  | unrecognized token => "Unrecognized program ID '".toList ++ token ++ ['\'']

/-- The content of a `struct proc` is changed. -/
def Procs.setProc (s : Procs h) (p : ℕ) (f : Proc h → Proc h) : Procs h :=
  { s with lists := s.lists.setVal p f }

/-- `procs_add`. -/
def Procs.procsAdd (s : Procs h) (c : Driver.Class) (p : ℕ) : Procs h :=
  { s with lists := s.lists.add c p }

/-- `proc_new`, in memory. -/
def Procs.procNew (s : Procs h) : Procs h :=
  { s with lists := { s.lists with mem := alloc s.lists.mem none (Config.procNew h) } }

/-- The `switch` of `parse_config_file`. -/
def Procs.enroll (s : Procs h) (prms : Prms h) (p : ℕ) : ProgramId → Except ParseError (Procs h)
  | .serverClient =>
    match s.precedingServer with
    | none => .error .noPrecedingServer
    | some server =>
      let s := s.setProc p fun proc => { proc with subserverPid := some server }
      .ok { s.procsAdd .server p with precedingServer := some p }
  | .server => .ok { s.procsAdd .server p with precedingServer := some p }
  | .client =>
    .ok ((s.procsAdd .client p).setProc p fun proc =>
      { proc with
        serverPid := s.precedingServer
        durationMs := some prms.durationMs
        ftraceStart := prms.ftraceStart
        ftraceStop := prms.ftraceStop })
  | .cpuHog => .ok (s.procsAdd .cpuHog p)
  | .cpuHogCbs => .ok (s.procsAdd .cpuHogCbs p)
  | .hrtCbs =>
    .ok ((s.procsAdd .hrtCbs p).setProc p fun proc =>
      { proc with durationMs := some prms.durationMs })
  | .serverHog => .ok (s.procsAdd .serverHog p)

/-- The rest of the line after its first token, which is at `token` in the buffer: what follows the
    NUL after the token, unless this is the one at the end of the buffer. -/
def remainingLine (buffer : List Char) (token : ℕ) (tok : List Char) : Option (List Char) :=
  let remaining_line := token + tok.length + 1
  if buffer.length ≤ remaining_line then some [] else readStr buffer remaining_line

/-- What `parse_config_file` does once it has recognized the program. It is not defined when the
    size of the command line overflows. -/
def Procs.addLine (s : Procs h) (prms : Prms h) (i : ProgramId)
    (remaining_line : Option (List Char)) : Option (Except ParseError Unit × Procs h) :=
  let p := s.lists.mem.length
  match s.procNew.enroll prms p i with
  | .error e => some (.error e, s.procNew)
  | .ok s => do
    let rest ← remaining_line
    let args_buflen ←
      argsBuflen (snprintfArgs i.program rest (sizeOptions prms s.precedingServer i))
    let args := snprintf args_buflen
      (snprintfArgs i.program rest (writeOptions prms s.precedingServer i))
    some (.ok (), s.setProc p fun proc => { proc with args := some args })

/-- `parse_config_file`, with what it returns and what it logs. -/
def parseConfigFile (prms : Prms h) (line : CString) (s : Procs h) :
    Option (Except ParseError Unit × Procs h) :=
  match strtok delimiter (line.chars ++ [nul]) 0 with
  | (none, _, _) => some (.ok (), s)
  | (some token, buffer, _) => do
    let tok ← readStr buffer token
    if tok.head? = some '#' then some (.ok (), s)
    else
      match programIds.find? fun i => strcasecmp tok i.2 with
      | none => some (.error (.unrecognized tok), s)
      | some (i, _) => s.addLine prms i (remainingLine buffer token tok)

/-- `utility_file_read` calls `parse_config_file` with each line, up to one which is rejected. -/
def parseLines (prms : Prms h) :
    List CString → Procs h → Option (Except ParseError Unit × Procs h)
  | [], s => some (.ok (), s)
  | line :: lines, s =>
    (parseConfigFile prms line s).bind fun
      | (.error e, s) => some (.error e, s)
      | (.ok (), s) => parseLines prms lines s

/-! ## Cutting the command line -/

/-- The body of the loop which fills `argv`, with the next index. -/
def fillArgv (argv : List (Option ℕ) × ℕ) (token : ℕ) : Option (List (Option ℕ) × ℕ) :=
  if argv.2 < argv.1.length then some (argv.1.set argv.2 (some token), argv.2 + 1) else none

/-- What `procs_make_argv` makes of a process, before it adjusts the values of the options: `args`,
    where the tokens have been cut, and `argv`. The tokens are counted in a copy. -/
def Proc.craftArgv (p : Proc h) : Option (List Char × List (Option ℕ)) := do
  let args ← p.args
  let buffer ← (readStr args 0).map (· ++ [nul])
  let (argc, _) ← forTokens delimiter (fun argc _ => some (argc + 1)) buffer.length buffer 0 0
  let ((argv, i), args) ←
    forTokens delimiter fillArgv args.length args 0 (List.replicate (argc + 1) none, 0)
  if i < argv.length then some (args, argv.set i none) else none

/-! ## What the config file lists -/

/-- A line which lists a process. -/
structure Entry where
  id : ProgramId
  remainingLine : CString

/-- The places of the processes of a list, in order. -/
def linesOf (es : List Entry) (c : Driver.Class) : List ℕ :=
  (List.range es.length).filter fun k => es[k]?.any (·.id.list = c)

/-- The place of the last `SERVER` or `SERVER_CLIENT`. -/
def precedingServer (es : List Entry) : Option ℕ := (linesOf es .server).getLast?

/-- What a line adds to the processes, or why it is rejected. -/
def readLine (es : List Entry) (line : CString) : Except ParseError (List Entry) :=
  let line := line.drop (line.chars.takeWhile delimiter).length
  let token := line.chars.takeWhile (!delimiter ·)
  if token = [] ∨ token.head? = some '#' then .ok es
  else
    match programIds.find? fun i => strcasecmp token i.2 with
    | none => .error (.unrecognized token)
    | some (i, _) =>
      if i = .serverClient ∧ precedingServer es = none then .error .noPrecedingServer
      else .ok (es ++ [⟨i, line.drop (token.length + 1)⟩])

/-- The processes that the lines list, up to one which is rejected. -/
def readLines (es : List Entry) : List CString → Except ParseError Unit × List Entry
  | [] => (.ok (), es)
  | line :: lines =>
    match readLine es line with
    | .error e => (.error e, es)
    | .ok es => readLines es lines

namespace Entry

variable (e : Entry)

/-- The server that it sends its requests to. -/
def serverPid (es : List Entry) : Option ℕ :=
  if e.id = .client then precedingServer es else none

/-- The server that it is chained to. -/
def subserverPid (es : List Entry) : Option ℕ :=
  if e.id = .serverClient then precedingServer es else none

/-- The options that are forced for a process listed after `es`, with their placeholders: the PID of
    the server that it is linked to, its duration, and when to trace. -/
def forcedOptions (prms : Prms h) (es : List Entry) : List (Char × ℕ) :=
  (if e.serverPid es ≠ none ∨ e.subserverPid es ≠ none then [('v', intMax)] else []) ++
  (if e.id = .client ∨ e.id = .hrtCbs then [('x', ulongMax h)] else []) ++
  if e.id = .client ∧ prms.ftraceStart ≠ none ∧ prms.ftraceStop ≠ none then
    [('r', intMax), ('l', intMax)] else []

/-- The command line of a process listed after `es`. -/
def commandLine (prms : Prms h) (es : List Entry) : List Char :=
  snprintfArgs e.id.program e.remainingLine.chars (e.forcedOptions prms es)

/-- The strings of its `argv`. -/
def argv (prms : Prms h) (es : List Entry) : List (List Char) :=
  ('.' :: '/' :: e.id.program) :: tokens delimiter e.remainingLine.chars ++
    (e.forcedOptions prms es).flatMap fun (optchar, value) => [['-', optchar], decimal value]

end Entry

/-- `argv` is the array of the strings, which are one after the other in `args`, and then `NULL`. -/
def HasArgv (args : List Char) (argv : List (Option ℕ)) (strs : List (List Char)) : Prop :=
  ∃ qs : List ℕ, argv = qs.map some ++ [none] ∧ StrsAt args 0 qs strs

/-- The config file is turned into exactly the processes it lists: they are in the lists of their
    programs in order, linked to the preceding servers, and their `argv` are the tokens of their
    lines and the placeholders of the options that are forced. -/
def TurnedInto (prms : Prms h) (lines : List CString) : Prop :=
  ∃ s, parseLines prms lines (.empty h) = some ((readLines [] lines).1, s) ∧
    ∀ c, ∃ nodes : List (ℕ × Proc h), addrs nodes = linesOf (readLines [] lines).2 c ∧
      Seg s.lists.mem (s.lists.heads c).first nodes none ∧
      (s.lists.heads c).last = (addrs nodes).getLast? ∧
      ∀ k p, (k, p) ∈ nodes → ∃ e, (readLines [] lines).2[k]? = some e ∧
        p.serverPid = e.serverPid ((readLines [] lines).2.take k) ∧
        p.subserverPid = e.subserverPid ((readLines [] lines).2.take k) ∧
        ∃ args argv, p.craftArgv = some (args, argv) ∧
          HasArgv args argv (e.argv prms ((readLines [] lines).2.take k))

/-! ## The first token of a line -/

/-- How a line is cut. -/
theorem firstToken (line : CString) :
    ((line.drop (line.chars.takeWhile delimiter).length).chars.takeWhile (!delimiter ·) = [] ∧
      ∃ buffer p, strtok delimiter (line.chars ++ [nul]) 0 = (none, buffer, p)) ∨
    ∃ token buffer p tok rest,
      strtok delimiter (line.chars ++ [nul]) 0 = (some token, buffer, p) ∧
      readStr buffer token = some tok ∧ remainingLine buffer token tok = some rest ∧ tok ≠ [] ∧
      (line.drop (line.chars.takeWhile delimiter).length).chars.takeWhile (!delimiter ·) = tok ∧
      ((line.drop (line.chars.takeWhile delimiter).length).drop (tok.length + 1)).chars =
        rest := by
  obtain ⟨chars, hnul⟩ := line
  have hline := strAt_zero hnul []
  simp only [CString.drop]
  cases cut delimiter chars with
  | blank ds hds =>
    refine .inl ⟨?_, _, _, strtok_blank (by decide) hline hds⟩
    rw [List.takeWhile_eq_self_iff.2 hds, List.drop_length, List.takeWhile_nil]
  | word ds w rest hds hne hw hrest =>
    obtain ⟨buffer, hstrtok, htok, hleft, -, hlen⟩ :=
      strtok_word (by decide) hline hds hne hw hrest
    have hdrop : (ds ++ (w ++ rest)).drop ((ds ++ (w ++ rest)).takeWhile delimiter).length =
        w ++ rest := by
      obtain ⟨c, cs, rfl⟩ := List.exists_cons_of_ne_nil hne
      rw [List.takeWhile_append_of_pos hds, List.cons_append,
        List.takeWhile_cons_of_neg (by simp [hw c List.mem_cons_self]), List.append_nil,
        List.drop_left]
    have htake : (w ++ rest).takeWhile (!delimiter ·) = w := by
      rw [List.takeWhile_append_of_pos fun c hc => by simp [hw c hc]]
      cases rest with
      | nil => simp
      | cons c cs => simp [hrest c rfl]
    refine .inr ⟨_, buffer, _, w, rest.tail, hstrtok, htok.readStr_eq, ?_, hne, ?_, ?_⟩
    · rw [remainingLine]
      cases rest with
      | nil =>
        rw [if_pos, List.tail_nil]
        simp only [hlen, List.length_append, List.length_nil, List.length_singleton]
        omega
      | cons c cs =>
        have hone : (c :: cs).length - (c :: cs).tail.length = 1 := by simp
        rw [hone] at hleft
        rw [if_neg, hleft.readStr_eq]
        simp only [hlen, List.length_append, List.length_cons, List.length_nil]
        omega
    · rw [hdrop, htake]
    · rw [hdrop, ← List.drop_drop, List.drop_left, List.drop_one]

/-! ## The lists -/

/-- The size is found for what is written. -/
theorem writeOptions_eq (prms : Prms h) (server : Option ℕ) (i : ProgramId) :
    writeOptions prms server i = sizeOptions prms server i := by
  cases i <;> rfl

/-- The formats have the options that are forced. -/
theorem sizeOptions_eq (prms : Prms h) {e : Entry} {es : List Entry}
    (he : ¬(e.id = .serverClient ∧ precedingServer es = none)) :
    sizeOptions prms (precedingServer es) e.id = e.forcedOptions prms es := by
  obtain ⟨i, rest⟩ := e
  cases i with
  | client =>
    have hserver : Entry.serverPid ⟨.client, rest⟩ es = precedingServer es := rfl
    rw [sizeOptions, Entry.forcedOptions, hserver]
    cases precedingServer es <;> cases prms.ftraceStart <;> cases prms.ftraceStop <;> rfl
  | serverClient =>
    have hserver : precedingServer es ≠ none := fun hnone => he ⟨rfl, hnone⟩
    simp [sizeOptions, Entry.forcedOptions, Entry.serverPid, Entry.subserverPid, hserver]
  | server | cpuHog | cpuHogCbs | hrtCbs | serverHog => rfl

/-- What `snprintf` leaves in `args`. -/
def block (str : List Char) : List Char :=
  if str.length < intMax then str ++ [nul] else []

theorem argsBuflen_of_ne {str : List Char} (hne : str.length ≠ intMax) :
    ∃ n, argsBuflen str = some n ∧ snprintf n str = block str := by
  by_cases hlt : str.length < intMax
  · refine ⟨str.length + 1, if_pos hlt, ?_⟩
    rw [block, if_pos hlt, snprintf, if_neg (Nat.succ_ne_zero _), Nat.add_sub_cancel,
      List.take_length]
  · refine ⟨0, ?_, ?_⟩
    · rw [argsBuflen, if_neg hlt, if_neg hne]
    · rw [block, if_neg hlt, snprintf, if_pos rfl]

/-- The `struct proc` of a process listed after `es`. -/
def Entry.proc (e : Entry) (prms : Prms h) (es : List Entry) : Proc h where
  args := some (block (e.commandLine prms es))
  argv := none
  procId := -1
  serverPid := e.serverPid es
  subserverPid := e.subserverPid es
  durationMs := if e.id = .client ∨ e.id = .hrtCbs then some prms.durationMs else none
  ftraceStart := if e.id = .client then prms.ftraceStart else none
  ftraceStop := if e.id = .client then prms.ftraceStop else none

/-- The nodes of a list. -/
def nodes (prms : Prms h) (es : List Entry) (c : Driver.Class) : List (ℕ × Proc h) :=
  (List.range es.length).filterMap fun k =>
    es[k]?.bind fun e => if e.id.list = c then some (k, e.proc prms (es.take k)) else none

theorem mem_nodes {prms : Prms h} {es : List Entry} {c : Driver.Class} {k : ℕ} {p : Proc h} :
    (k, p) ∈ nodes prms es c ↔
      ∃ e, es[k]? = some e ∧ e.id.list = c ∧ p = e.proc prms (es.take k) := by
  rw [nodes, List.mem_filterMap]
  constructor
  · rintro ⟨j, -, hj⟩
    obtain ⟨e, he, hj⟩ := Option.bind_eq_some_iff.1 hj
    split_ifs at hj with hc
    cases hj
    exact ⟨e, he, hc, rfl⟩
  · rintro ⟨e, he, hc, rfl⟩
    refine ⟨k, List.mem_range.2 (List.getElem?_eq_some_iff.1 he).1, ?_⟩
    rw [he, Option.bind_some, if_pos hc]

theorem addrs_nodes (prms : Prms h) (es : List Entry) (c : Driver.Class) :
    addrs (nodes prms es c) = linesOf es c := by
  rw [addrs, nodes, linesOf, List.map_filterMap, ← List.filterMap_eq_filter]
  refine List.filterMap_congr fun k _ => ?_
  cases hk : es[k]? with
  | none => simp [Option.guard, hk]
  | some e => by_cases hc : e.id.list = c <;> simp [Option.guard, hk, hc]

theorem nodes_concat (prms : Prms h) (es : List Entry) (e : Entry) :
    nodes prms (es ++ [e]) = Function.update (nodes prms es) e.id.list
      (nodes prms es e.id.list ++ [(es.length, e.proc prms es)]) := by
  have hsame (c : Driver.Class) : ((List.range es.length).filterMap fun k =>
      (es ++ [e])[k]?.bind fun e' =>
        if e'.id.list = c then some (k, e'.proc prms ((es ++ [e]).take k)) else none) =
      nodes prms es c := by
    refine List.filterMap_congr fun k hk => ?_
    have hk := List.mem_range.1 hk
    rw [List.getElem?_append_left hk, List.take_append_of_le_length hk.le]
  funext c
  rw [nodes, List.length_append, List.length_singleton, List.range_succ, List.filterMap_append,
    hsame]
  by_cases hc : e.id.list = c
  · subst hc
    simp
  · rw [Function.update_of_ne (Ne.symm hc)]
    simp [hc]

theorem linesOf_concat (es : List Entry) (e : Entry) (c : Driver.Class) :
    linesOf (es ++ [e]) c = linesOf es c ++ if e.id.list = c then [es.length] else [] := by
  have hsame : ((List.range es.length).filter fun k =>
      (es ++ [e])[k]?.any (·.id.list = c)) = linesOf es c := by
    refine List.filter_congr fun k hk => ?_
    rw [List.getElem?_append_left (List.mem_range.1 hk)]
  rw [linesOf, List.length_append, List.length_singleton, List.range_succ, List.filter_append,
    hsame]
  by_cases hc : e.id.list = c <;> simp [hc]

theorem precedingServer_concat (es : List Entry) (e : Entry) :
    precedingServer (es ++ [e]) =
      if e.id.list = .server then some es.length else precedingServer es := by
  rw [precedingServer, linesOf_concat]
  split_ifs
  · rw [List.getLast?_concat]
  · rw [List.append_nil, precedingServer]

/-- The lists are those of the processes which have been listed. -/
structure Procs.Listed (s : Procs h) (prms : Prms h) (es : List Entry) : Prop where
  size : s.lists.mem.length = es.length
  lists : s.lists.Have (nodes prms es)
  preceding : s.precedingServer = Config.precedingServer es

/-- What is known of a process before its command line is. -/
def Entry.enrolled (e : Entry) (prms : Prms h) (es : List Entry) : Proc h :=
  { e.proc prms es with args := none }

/-- The lists with one more process. -/
def Procs.Enrolled (s : Procs h) (prms : Prms h) (es : List Entry) (e : Entry) (p : Proc h) :
    Prop :=
  s.lists.mem.length = es.length + 1 ∧
    s.lists.Have (Function.update (nodes prms es) e.id.list
      (nodes prms es e.id.list ++ [(es.length, p)]))

namespace Procs

variable {s : Procs h} {prms : Prms h} {es : List Entry} {e : Entry}

/-- A new process is added to a list. -/
theorem Listed.procsAdd (hs : s.Listed prms es) (e : Entry) :
    (s.procNew.procsAdd e.id.list s.lists.mem.length).Enrolled prms es e (Config.procNew h) := by
  have hlen : s.procNew.lists.mem.length = es.length + 1 := by
    rw [← hs.size]
    exact List.length_append
  refine ⟨(Lists.length_add ..).trans hlen, ?_⟩
  rw [← hs.size]
  exact (hs.lists.alloc none _).add hs.lists.length_notMem (getElem?_alloc _ _ _) e.id.list

/-- So is a new process whose content is changed beforehand. -/
theorem Listed.setProc_procsAdd (hs : s.Listed prms es) (e : Entry) (f : Proc h → Proc h) :
    ((s.procNew.setProc s.lists.mem.length f).procsAdd e.id.list s.lists.mem.length).Enrolled
      prms es e (f (Config.procNew h)) := by
  have hlen : (s.procNew.setProc s.lists.mem.length f).lists.mem.length = es.length + 1 := by
    rw [← hs.size]
    exact (Lists.length_setVal ..).trans List.length_append
  refine ⟨(Lists.length_add ..).trans hlen, ?_⟩
  rw [← hs.size]
  have hnode : (s.procNew.setProc s.lists.mem.length f).lists.mem[s.lists.mem.length]? =
      some ⟨none, f (Config.procNew h)⟩ := by
    refine (List.getElem?_modify_eq ..).trans ?_
    simp only [Procs.procNew, getElem?_alloc, Option.map_eq_map, Option.map_some]
  exact ((hs.lists.alloc none _).modify hs.lists.length_notMem _).add hs.lists.length_notMem hnode
    e.id.list

/-- The content of the process which has been added is changed. -/
theorem Enrolled.setProc {p : Proc h} (hs : s.Enrolled prms es e p) (f : Proc h → Proc h) :
    (s.setProc es.length f).Enrolled prms es e (f p) := by
  refine ⟨(Lists.length_setVal ..).trans hs.1, ?_⟩
  have hset := hs.2.setVal (Function.update_self ..) f
  rwa [Function.update_idem] at hset

/-- The `switch` adds the process to its list, unless it has no server to be chained to. -/
theorem Listed.enroll (hs : s.Listed prms es) (e : Entry)
    (he : ¬(e.id = .serverClient ∧ Config.precedingServer es = none)) :
    ∃ s', s.procNew.enroll prms s.lists.mem.length e.id = .ok s' ∧
      s'.Enrolled prms es e (e.enrolled prms es) ∧
      s'.precedingServer = Config.precedingServer (es ++ [e]) := by
  obtain ⟨lists, preceding⟩ := s
  obtain rfl : preceding = Config.precedingServer es := hs.preceding
  obtain ⟨i, rest⟩ := e
  have hadd := hs.procsAdd ⟨i, rest⟩
  have hset := hs.setProc_procsAdd ⟨i, rest⟩
  rw [precedingServer_concat]
  rw [hs.size] at hadd hset ⊢
  cases i with
  | server => exact ⟨_, rfl, hadd, rfl⟩
  | client | hrtCbs => exact ⟨_, rfl, hadd.setProc _, rfl⟩
  | serverClient =>
    cases hserver : Config.precedingServer es with
    | none => exact absurd ⟨rfl, hserver⟩ he
    | some server =>
      have henrolled : Entry.enrolled ⟨.serverClient, rest⟩ prms es =
          { Config.procNew h with subserverPid := some server } := by
        simp [Entry.enrolled, Entry.proc, Entry.serverPid, Entry.subserverPid, Config.procNew,
          hserver]
      rw [henrolled]
      exact ⟨_, rfl, hset fun proc => { proc with subserverPid := some server }, rfl⟩
  | cpuHog | cpuHogCbs | serverHog => exact ⟨_, rfl, hadd, rfl⟩

/-- A process is added, when it is not chained or there is a server before it. -/
theorem Listed.addLine (hs : s.Listed prms es) (e : Entry)
    (he : ¬(e.id = .serverClient ∧ Config.precedingServer es = none)) :
    ((e.commandLine prms es).length = intMax ∧
      s.addLine prms e.id (some e.remainingLine.chars) = none) ∨
    ∃ s', s.addLine prms e.id (some e.remainingLine.chars) = some (.ok (), s') ∧
      s'.Listed prms (es ++ [e]) := by
  obtain ⟨s', henroll, henrolled, hpreceding⟩ := hs.enroll e he
  -- The server which is added does not matter to its own format.
  have hsize : sizeOptions prms s'.precedingServer e.id = e.forcedOptions prms es := by
    rw [← sizeOptions_eq prms he, hpreceding, precedingServer_concat]
    cases hid : e.id <;> rfl
  rw [Procs.addLine]
  simp only [henroll, writeOptions_eq, hsize, Option.bind_eq_bind, Option.bind_some]
  rw [← Entry.commandLine]
  by_cases hmax : (e.commandLine prms es).length = intMax
  · refine .inl ⟨hmax, ?_⟩
    rw [argsBuflen, if_neg hmax.not_lt, if_pos hmax, Option.bind_none]
  · obtain ⟨n, hn, hblock⟩ := argsBuflen_of_ne hmax
    refine .inr ⟨_, by rw [hn, Option.bind_some], ?_⟩
    rw [hblock, hs.size]
    have hset := henrolled.setProc fun proc =>
      { proc with args := some (block (e.commandLine prms es)) }
    refine ⟨?_, ?_, hpreceding⟩
    · rw [hset.1, List.length_append, List.length_singleton]
    · rw [nodes_concat]
      exact hset.2

/-- A chained process without a server is rejected. -/
theorem Listed.addLine_error (hs : s.Listed prms es) (hnone : Config.precedingServer es = none)
    (remaining_line : Option (List Char)) :
    ∃ s', s.addLine prms .serverClient remaining_line = some (.error .noPrecedingServer, s') ∧
      s'.lists.Have (nodes prms es) := by
  refine ⟨s.procNew, ?_, hs.lists.alloc none _⟩
  have hpreceding : s.procNew.precedingServer = none := hs.preceding.trans hnone
  rw [Procs.addLine, Procs.enroll, hpreceding]

/-- A line is read. -/
theorem Listed.parseConfigFile (hs : s.Listed prms es) (line : CString) :
    (∃ e s', readLine es line = .error e ∧
      parseConfigFile prms line s = some (.error e, s') ∧ s'.lists.Have (nodes prms es)) ∨
    (readLine es line = .ok es ∧ parseConfigFile prms line s = some (.ok (), s)) ∨
    ∃ e, readLine es line = .ok (es ++ [e]) ∧
      (((e.commandLine prms es).length = intMax ∧ parseConfigFile prms line s = none) ∨
        ∃ s', parseConfigFile prms line s = some (.ok (), s') ∧ s'.Listed prms (es ++ [e])) := by
  rcases firstToken line with ⟨hnil, buffer, p, hstrtok⟩ |
    ⟨token, buffer, p, tok, rest, hstrtok, htok, hrest, hne, htoken, hdrop⟩
  · refine .inr (.inl ⟨?_, ?_⟩)
    · rw [readLine, if_pos (.inl hnil)]
    · simp only [Config.parseConfigFile, hstrtok]
  · simp only [Config.parseConfigFile, readLine, hstrtok, htok, htoken, hne, false_or,
      Option.bind_eq_bind, Option.bind_some]
    by_cases hcomment : tok.head? = some '#'
    · simp [hcomment]
    simp only [if_neg hcomment]
    cases hfind : programIds.find? fun i => strcasecmp tok i.2 with
    | none => exact .inl ⟨_, _, rfl, rfl, hs.lists⟩
    | some i =>
      obtain ⟨i, name⟩ := i
      simp only [hrest, ← hdrop]
      by_cases hnoserver : i = .serverClient ∧ Config.precedingServer es = none
      · simp only [if_pos hnoserver]
        obtain ⟨rfl, hnone⟩ := hnoserver
        obtain ⟨s', hadd, hlists⟩ := hs.addLine_error hnone _
        exact .inl ⟨_, s', rfl, hadd, hlists⟩
      · simp only [if_neg hnoserver]
        exact .inr (.inr ⟨_, rfl, hs.addLine ⟨i, _⟩ hnoserver⟩)

end Procs

/-- A line which is accepted lists one process at most, after the others. -/
theorem prefix_of_readLine {es es' : List Entry} {line : CString}
    (hread : readLine es line = .ok es') : es <+: es' := by
  simp only [readLine] at hread
  split_ifs at hread
  · cases hread
    exact List.prefix_refl es
  · split at hread
    · cases hread
    · split_ifs at hread
      cases hread
      exact List.prefix_append es _

theorem prefix_readLines (es : List Entry) (lines : List CString) :
    es <+: (readLines es lines).2 := by
  induction lines generalizing es with
  | nil => exact List.prefix_refl es
  | cons line lines ih =>
    rw [readLines]
    cases hline : readLine es line with
    | error e => exact List.prefix_refl es
    | ok es' => exact (prefix_of_readLine hline).trans (ih es')

/-- The lines are read. -/
theorem Procs.Listed.parseLines {s : Procs h} {prms : Prms h} {es : List Entry}
    (hs : s.Listed prms es) (lines : List CString) :
    ((∃ (k : ℕ) (e : Entry), (readLines es lines).2[k]? = some e ∧
        (e.commandLine prms ((readLines es lines).2.take k)).length = intMax) ∧
      Config.parseLines prms lines s = none) ∨
    ∃ s', Config.parseLines prms lines s = some ((readLines es lines).1, s') ∧
      s'.lists.Have (nodes prms (readLines es lines).2) := by
  induction lines generalizing s es with
  | nil => exact .inr ⟨s, rfl, hs.lists⟩
  | cons line lines ih =>
    rw [Config.parseLines, readLines]
    rcases hs.parseConfigFile line with ⟨e, s', hread, hparse, hlists⟩ | ⟨hread, hparse⟩ |
      ⟨e, hread, ⟨hmax, hparse⟩ | ⟨s', hparse, hs'⟩⟩
    · rw [hread, hparse]
      exact .inr ⟨s', rfl, hlists⟩
    · rw [hread, hparse]
      exact ih hs
    · rw [hread, hparse]
      obtain ⟨more, hmore⟩ := prefix_readLines (es ++ [e]) lines
      refine .inl ⟨⟨es.length, e, ?_, ?_⟩, rfl⟩
      · dsimp only
        rw [← hmore, List.append_assoc, List.getElem?_append_right le_rfl, Nat.sub_self]
        rfl
      · dsimp only
        rw [← hmore, List.append_assoc, List.take_left]
        exact hmax
    · rw [hread, hparse]
      exact ih hs'

/-! ## The command line -/

/-- Counting. -/
theorem foldlM_count (qs : List ℕ) (n : ℕ) :
    qs.foldlM (fun argc _ => some (argc + 1)) n = some (n + qs.length) := by
  induction qs generalizing n with
  | nil => rfl
  | cons q qs ih =>
    rw [List.foldlM_cons, Option.bind_eq_bind, Option.bind_some, ih, List.length_cons]
    congr 1
    omega

/-- Filling an array which is large enough. -/
theorem foldlM_fillArgv (qs : List ℕ) (filled : List (Option ℕ)) {n : ℕ} (hn : qs.length ≤ n) :
    qs.foldlM fillArgv (filled ++ List.replicate n none, filled.length) =
      some (filled ++ qs.map some ++ List.replicate (n - qs.length) none,
        filled.length + qs.length) := by
  induction qs generalizing filled n with
  | nil => simp
  | cons q qs ih =>
    obtain ⟨m, rfl⟩ : ∃ m, n = m + 1 := ⟨n - 1, by simp at hn; omega⟩
    have hstep : fillArgv (filled ++ List.replicate (m + 1) none, filled.length) q =
        some ((filled ++ [some q]) ++ List.replicate m none, (filled ++ [some q]).length) := by
      rw [fillArgv, if_pos (by simp), List.set_append_right _ _ le_rfl, Nat.sub_self,
        List.replicate_succ, List.set_cons_zero]
      simp
    rw [List.foldlM_cons, Option.bind_eq_bind, hstep, Option.bind_some, ih _ (by simpa using hn)]
    simp
    omega

/-- The tokens of a string in `args` are the strings of `argv`: there are as many in the copy. -/
theorem Proc.craftArgv_eq (p : Proc h) {str : List Char} (hstr : nul ∉ str)
    (hargs : p.args = some (str ++ [nul])) :
    ∃ args argv, p.craftArgv = some (args, argv) ∧ HasArgv args argv (tokens delimiter str) := by
  have hzero := strAt_zero hstr []
  have hfuel : (tokens delimiter str).length < (str ++ [nul]).length := by
    have := length_tokens_le delimiter str
    simp
    omega
  obtain ⟨qs, args, hqs, -, hloop⟩ := hzero.forTokens (by decide) hfuel
  refine ⟨args, qs.map some ++ [none], ?_, qs, rfl, hqs⟩
  have hfill : qs.foldlM fillArgv (List.replicate (qs.length + 1) none, 0) =
      some (qs.map some ++ [none], qs.length) := by
    have hfilled := foldlM_fillArgv qs [] (Nat.le_succ qs.length)
    rw [Nat.succ_sub (le_refl qs.length), Nat.sub_self] at hfilled
    simpa using hfilled
  simp only [Proc.craftArgv, hargs, hzero.readStr_eq, Option.bind_eq_bind, Option.bind_some,
    Option.map_some, hloop, foldlM_count, Nat.zero_add, hfill]
  rw [if_pos (by simp), List.set_append_right _ _ (by simp)]
  simp

/-- There is no string in an empty block. -/
theorem Proc.craftArgv_nil (p : Proc h) (hargs : p.args = some []) : p.craftArgv = none := by
  simp [Proc.craftArgv, hargs, readStr]

theorem isDigit_of_mem_decimal {n : ℕ} {c : Char} (hc : c ∈ decimal n) : c.isDigit = true :=
  Nat.isDigit_of_mem_toDigits (by decide) (by decide) hc

/-- A digit is no delimiter. -/
theorem delimiter_of_isDigit {c : Char} (hc : c.isDigit = true) : delimiter c = false := by
  have hspace : c ≠ ' ' := by
    rintro rfl
    cases hc
  have htab : c ≠ '\t' := by
    rintro rfl
    cases hc
  simp [delimiter, hspace, htab]

theorem not_delimiter_of_all {w : List Char} (hw : w.all (!delimiter ·) = true) :
    ∀ c ∈ w, delimiter c = false := by
  simpa using hw

theorem ne_nul_of_isDigit {c : Char} (hc : c.isDigit = true) : c ≠ nul := by
  rintro rfl
  cases hc

/-- The options that the driver forces. -/
theorem mem_forcedOptions {e : Entry} {prms : Prms h} {es : List Entry} {o : Char × ℕ}
    (ho : o ∈ e.forcedOptions prms es) : o.1 ∈ ['v', 'x', 'r', 'l'] := by
  rw [Entry.forcedOptions, List.mem_append, List.mem_append] at ho
  rcases ho with (ho | ho) | ho <;> split_ifs at ho
  · simp [List.mem_singleton.1 ho]
  · cases ho
  · simp [List.mem_singleton.1 ho]
  · cases ho
  · rcases List.mem_pair.1 ho with rfl | rfl <;> simp
  · cases ho

/-- The options that a format adds are tokens. -/
theorem tokens_fmtAdd (str : List Char) (options : List (Char × ℕ))
    (hoptions : ∀ o ∈ options, delimiter o.1 = false) :
    tokens delimiter (str ++ fmtAdd options) = tokens delimiter str ++
      options.flatMap fun (optchar, value) => [['-', optchar], decimal value] := by
  induction options generalizing str with
  | nil => simp [fmtAdd]
  | cons o options ih =>
    obtain ⟨optchar, value⟩ := o
    have hvalue : tokens delimiter (decimal value) = [decimal value] :=
      tokens_word Nat.toDigits_ne_nil fun c hc => delimiter_of_isDigit (isDigit_of_mem_decimal hc)
    have hoptchar : tokens delimiter ['-', optchar] = [['-', optchar]] := by
      refine tokens_word (by simp) fun c hc => ?_
      rcases List.mem_cons.1 hc with rfl | hc
      · rfl
      · rw [List.mem_singleton.1 hc]
        exact hoptions _ List.mem_cons_self
    have hsplit : str ++ fmtAdd ((optchar, value) :: options) =
        str ++ ' ' :: (['-', optchar] ++ ' ' :: (decimal value ++ fmtAdd options)) := by
      simp [fmtAdd]
    rw [hsplit, tokens_append rfl, tokens_append rfl, hoptchar,
      ih _ fun o ho => hoptions o (List.mem_cons_of_mem _ ho), hvalue]
    simp

/-- The tokens of the command line. -/
theorem tokens_commandLine (e : Entry) (prms : Prms h) (es : List Entry) :
    tokens delimiter (e.commandLine prms es) = e.argv prms es := by
  have hprogram : tokens delimiter ('.' :: '/' :: e.id.program) = ['.' :: '/' :: e.id.program] := by
    refine tokens_word (by simp) (not_delimiter_of_all ?_)
    cases e.id <;> decide
  have hsplit : e.commandLine prms es = ('.' :: '/' :: e.id.program) ++ ' ' ::
      (e.remainingLine.chars ++ fmtAdd (e.forcedOptions prms es)) := by
    simp [Entry.commandLine, snprintfArgs]
  rw [hsplit, tokens_append rfl, hprogram, tokens_fmtAdd _ _ fun o ho => ?_]
  · rfl
  · have hoptchar := mem_forcedOptions ho
    simp only [List.mem_cons, List.not_mem_nil, or_false] at hoptchar
    rcases hoptchar with h | h | h | h <;> rw [h] <;> rfl

theorem nul_notMem_commandLine (e : Entry) (prms : Prms h) (es : List Entry) :
    nul ∉ e.commandLine prms es := by
  have hprogram : nul ∉ '.' :: '/' :: e.id.program := by
    cases e.id <;> decide
  have hoptions : nul ∉ fmtAdd (e.forcedOptions prms es) := by
    intro hmem
    obtain ⟨o, ho, hmem⟩ := List.mem_flatMap.1 hmem
    have hoptchar := mem_forcedOptions ho
    have hvalue : nul ∉ decimal o.2 := fun hmem =>
      ne_nul_of_isDigit (isDigit_of_mem_decimal hmem) rfl
    simp only [List.mem_cons, List.not_mem_nil, or_false] at hmem hoptchar
    rcases hmem with hmem | hmem | hmem | hmem | hmem
    · cases hmem
    · cases hmem
    · rw [← hmem] at hoptchar
      revert hoptchar
      decide
    · cases hmem
    · exact hvalue hmem
  have hspace : nul ≠ ' ' := by decide
  have hline := e.remainingLine.nul_notMem
  simp only [List.mem_cons, not_or] at hprogram
  simp [Entry.commandLine, snprintfArgs, hprogram, hoptions, hspace, hline]

/-! ## The config file -/

/-- The command line of every process is shorter than `INT_MAX`. -/
def Short (prms : Prms h) (es : List Entry) : Prop :=
  ∀ (k : ℕ) (e : Entry), es[k]? = some e → (e.commandLine prms (es.take k)).length < intMax

/-- Nothing has been listed before the first line. -/
theorem listed_empty (prms : Prms h) : (Procs.empty h).Listed prms [] where
  size := rfl
  lists := ⟨fun _ => rfl, fun _ => rfl, fun _ => List.nodup_nil, fun _ _ _ _ ha => nomatch ha⟩
  preceding := rfl

/-- The config file is turned into the processes it lists. -/
theorem turnedInto_of_short {prms : Prms h} {lines : List CString}
    (hshort : Short prms (readLines [] lines).2) : TurnedInto prms lines := by
  rcases (listed_empty prms).parseLines lines with ⟨⟨k, e, hk, hmax⟩, -⟩ | ⟨s, hparse, hlists⟩
  · exact absurd hmax (hshort k e hk).ne
  · refine ⟨s, hparse, fun c => ⟨nodes prms (readLines [] lines).2 c, addrs_nodes _ _ _,
      hlists.seg c, hlists.last c, fun k p hp => ?_⟩⟩
    obtain ⟨e, he, -, rfl⟩ := mem_nodes.1 hp
    refine ⟨e, he, rfl, rfl, ?_⟩
    rw [← tokens_commandLine]
    refine Proc.craftArgv_eq _ (nul_notMem_commandLine e prms _) ?_
    rw [Entry.proc, block, if_pos (hshort k e he)]

/-- No command line is as long as `INT_MAX` then. -/
theorem TurnedInto.short {prms : Prms h} {lines : List CString} (ht : TurnedInto prms lines) :
    Short prms (readLines [] lines).2 := by
  obtain ⟨s, hparse, hlists⟩ := ht
  intro k e he
  rcases (listed_empty prms).parseLines lines with ⟨-, hnone⟩ | ⟨s', hparse', hlists'⟩
  · rw [hnone] at hparse
    cases hparse
  · obtain rfl : s = s' := by
      have heq := Option.some.inj (hparse.symm.trans hparse')
      injection heq
    obtain ⟨ns, -, hseg, -, hns⟩ := hlists e.id.list
    obtain rfl := hseg.unique (hlists'.seg e.id.list)
    obtain ⟨e', he', -, -, args, argv, hargv, -⟩ := hns k _ (mem_nodes.2 ⟨e, he, rfl, rfl⟩)
    by_contra hlong
    have hnil : (e.proc prms ((readLines [] lines).2.take k)).args = some [] := by
      rw [Entry.proc, block, if_neg hlong]
    rw [Proc.craftArgv_nil _ hnil] at hargv
    cases hargv

/-- The config file is turned into exactly the processes it lists, if and only if no command line
    has `INT_MAX` characters or more. -/
theorem turnedInto_iff (prms : Prms h) (lines : List CString) :
    TurnedInto prms lines ↔ Short prms (readLines [] lines).2 :=
  ⟨TurnedInto.short, turnedInto_of_short⟩

/-! ## A long line -/

/-- A line which begins with a program ID and a space lists a process, unless it is chained. -/
theorem readLine_of_program {es : List Entry} {line : CString} {w rest : List Char}
    (hline : line.chars = w ++ ' ' :: rest) (hne : w ≠ []) (hw : ∀ c ∈ w, delimiter c = false)
    (hcomment : w.head? ≠ some '#') {i : ProgramId} {name : List Char}
    (hfind : (programIds.find? fun i => strcasecmp w i.2) = some (i, name))
    (hi : i ≠ .serverClient) :
    ∃ e, readLine es line = .ok (es ++ [e]) ∧ e.remainingLine.chars = rest := by
  have hblank : line.chars.takeWhile delimiter = [] := by
    obtain ⟨c, cs, rfl⟩ := List.exists_cons_of_ne_nil hne
    rw [hline, List.cons_append, List.takeWhile_cons_of_neg (by simp [hw c List.mem_cons_self])]
  have htoken : line.chars.takeWhile (!delimiter ·) = w := by
    rw [hline, List.takeWhile_append_of_pos fun c hc => by simp [hw c hc],
      List.takeWhile_cons_of_neg (by decide), List.append_nil]
  refine ⟨⟨i, line.drop (w.length + 1)⟩, ?_, ?_⟩
  · have hdrop : line.drop (line.chars.takeWhile delimiter).length = line := by
      rw [hblank]
      rfl
    simp only [readLine, hdrop, htoken, hfind]
    rw [if_neg (by simp [hne, hcomment]), if_neg (by simp [hi])]
  · simp only [CString.drop, hline]
    rw [← List.drop_drop, List.drop_left]
    rfl

/-- A server with an argument of `2 ^ 31` characters. -/
def longLine : CString where
  chars := "server".toList ++ ' ' :: List.replicate (2 ^ 31) 'a'
  nul_notMem := by
    rw [List.mem_append, List.mem_cons, List.mem_replicate]
    decide

/-- No process can be made of it. -/
theorem not_turnedInto_longLine : ¬TurnedInto (h := .lp64) ⟨0, none, none, rfl⟩ [longLine] := by
  intro ht
  have hline : longLine.chars = "server".toList ++ ' ' :: List.replicate (2 ^ 31) 'a' := rfl
  obtain ⟨e, hread, hrest⟩ : ∃ e, readLine [] longLine = .ok ([] ++ [e]) ∧
      e.remainingLine.chars = List.replicate (2 ^ 31) 'a' :=
    readLine_of_program hline (by decide) (not_delimiter_of_all (by decide)) (by decide)
      (i := .server) rfl (by decide)
  have hlines : (readLines [] [longLine]).2 = [e] := by
    rw [readLines, hread]
    rfl
  have hshort := ht.short 0 e (by rw [hlines]; rfl)
  have hlong : e.remainingLine.chars.length ≤
      (e.commandLine (h := .lp64) ⟨0, none, none, rfl⟩
        ((readLines [] [longLine]).2.take 0)).length := by
    simp only [Entry.commandLine, snprintfArgs, List.length_append, List.length_cons]
    omega
  rw [hrest, List.length_replicate] at hlong
  rw [intMax] at hshort
  omega

end RealtimeTests.Config
