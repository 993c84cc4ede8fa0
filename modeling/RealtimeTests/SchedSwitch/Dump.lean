import RealtimeTests.SchedSwitch
import RealtimeTests.Vcd

/-!
# Dumping a trace of the scheduler

`sched_switch.c` writes a value change dump with a variable for each program: the CPU on which it
runs, in binary, or that it waits for one, or neither. The digits tell whether it runs with its own
priority, which is the largest one that it occurs with.

* `dump`: the text of the dump;
* `Status`: what a program does, as the events tell it (`told`) by its PID;
* `readStatuses_dump`: the dump is read back as what the events of the trace tell. An event at the
  time of the first one is not dumped, and a PID which no program has is taken to be that of the
  first program (`Trace.resolve`, which leaves other events alone: `Trace.resolve_eq_self`).
-/

namespace RealtimeTests.SchedSwitch

open Vcd Text

variable {T : Type*}

/-! ## Programs -/

/-- The number of the program with a PID, or 0 when there is none. -/
def pidIndex (program : List (Program T)) (pid : ℕ) : ℕ :=
  let j := program.findIdx (·.task = pid)
  if j = program.length then 0 else j

/-- An event with the numbers of the programs for its PIDs. -/
def Switch.renumber (index : ℕ → ℕ) (s : Switch T) : Switch T :=
  { s with fromPid := index s.fromPid, toPid := index s.toPid }

/-- The events with the numbers of the programs for their PIDs. -/
def Trace.switches (tr : Trace T) : List (Switch T) :=
  tr.schedSwitch.map (Switch.renumber (pidIndex tr.program))

/-- The largest priority of a program. -/
def prio (switches : List (Switch T)) (i : ℕ) : ℕ :=
  switches.foldl (fun n s =>
    let n := if s.fromPid = i ∧ s.fromPrio > n then s.fromPrio else n
    if s.toPid = i ∧ s.toPrio > n then s.toPrio else n) 0

/-- The name of a program in the dump: with its priority, and its share of the time. -/
def label [Double T] (tr : Trace T) (i : ℕ) (p : Program T) : List Char :=
  let time := tr.program.foldl (fun time p => time + p.time) 0
  let percent := showInt (Double.percent p.time (if time = 0 then 1 else time))
  let prio := prio tr.switches i
  if prio < 100 then p.name ++ "#r".toList ++ Nat.toDigits 10 (99 - prio) ++ '#' :: percent
  else if prio = 140 then p.name ++ "#idle#".toList ++ percent
  else p.name ++ "#n".toList ++ showInt ((120 - prio : ℤ).bmod (2 ^ 32)) ++ '#' :: percent

/-! ## The text -/

/-- The position of the highest bit that is set, or 0. -/
def nofBits (maxCpu : ℕ) : ℕ → ℕ
  | 0 => 0
  | n + 1 => if maxCpu.testBit (n + 1) then n + 1 else nofBits maxCpu n

/-- The values of a variable. -/
def cpuValue (zero one : Char) (nofBits cpu : ℕ) : List Char :=
  (List.range (nofBits + 1)).map fun j => if cpu.testBit (nofBits - j) then one else zero

/-- A line with a change. -/
def writeChange (nofBits : ℕ) (value tag : List Char) : List Char :=
  (if 0 < nofBits then ['b'] else []) ++ value ++ (if 0 < nofBits then [' '] else []) ++ tag ++
    ['\n']

/-- A line with a declaration. -/
def writeVar (nofBits : ℕ) (tag name : List Char) : List Char :=
  "$var wire ".toList ++ (Nat.toDigits 10 (nofBits + 1) ++ ' ' :: (tag ++ ' ' :: (name ++ ' ' ::
    ((if 0 < nofBits then '[' :: Nat.toDigits 10 nofBits ++ ":0] ".toList else []) ++
      "$end\n".toList))))

/-- The lines for an event, but for its time. -/
def writeSwitch (nofBits : ℕ) (prio : ℕ → ℕ) (wakeup : List (List Char)) (s : Switch T) :
    List Char :=
  match wakeup[s.wakeupId]?.bind List.head? with
  | some '=' =>
    (if s.fromPid ≠ s.toPid then
      writeChange nofBits (List.replicate (nofBits + 1) 'Z') (digits s.fromPid) else []) ++
    writeChange nofBits
      (if s.toPrio ≠ prio s.toPid then cpuValue 'L' 'H' nofBits s.toCpu
        else cpuValue '0' '1' nofBits s.toCpu) (digits s.toPid)
  | some '+' => writeChange nofBits (List.replicate (nofBits + 1) 'X') (digits s.toPid)
  | _ => []

variable [Double T]

/-- A line with a time, in front of an event that is written, unless the event before has the same
    time. -/
def writeTime (wakeup : List (List Char)) (start : T) (last : Option T) (s : Switch T) :
    List Char :=
  match wakeup[s.wakeupId]?.bind List.head? with
  | some '=' | some '+' =>
    if last ≠ some s.time then '#' :: Double.micros (s.time - start) ++ ['\n'] else []
  | _ => []

/-- The lines for the events, but for those at the start. -/
def writeSwitches (nofBits : ℕ) (prio : ℕ → ℕ) (wakeup : List (List Char)) (start : T) :
    Option T → List (Switch T) → List Char
  | _, [] => []
  | last, s :: ss =>
    (if s.time - start ≠ 0 then
      writeTime wakeup start last s ++ writeSwitch nofBits prio wakeup s else []) ++
    writeSwitches nofBits prio wakeup start (some s.time) ss

/-- The lines for the events. -/
def writeEvents (nofBits : ℕ) (prio : ℕ → ℕ) (wakeup : List (List Char)) :
    List (Switch T) → List Char
  | [] => []
  | s :: ss => writeSwitches nofBits prio wakeup s.time none (s :: ss)

/-- The dump. -/
def dump (tr : Trace T) : List Char :=
  let nofBits := nofBits tr.maxCpu 31
  "$timescale 1us $end\n$scope module sched_switch $end\n".toList ++
    (tr.program.zipIdx.flatMap fun (p, i) => writeVar nofBits (digits i) (label tr i p)) ++
    "$upscope $end\n$enddefinitions $end\n#0\n".toList ++
    (tr.program.zipIdx.flatMap fun (_, i) =>
      writeChange nofBits (List.replicate (nofBits + 1) 'Z') (digits i)) ++
    writeEvents nofBits (prio tr.switches) tr.wakeup tr.switches

/-! ## What the events tell -/

/-- What a program does. -/
inductive Status
  /-- It does not run. -/
  | off
  /-- It waits for a CPU. -/
  | waiting
  /-- It runs on a CPU, with the priority of another program or with its own. -/
  | running (cpu : ℕ) (inherited : Bool)
  deriving DecidableEq

/-- A program has a PID. -/
def Trace.Knows (tr : Trace T) (pid : ℕ) : Prop := ∃ p ∈ tr.program, p.task = pid

instance (tr : Trace T) (pid : ℕ) : Decidable (tr.Knows pid) :=
  inferInstanceAs (Decidable (∃ p ∈ tr.program, p.task = pid))

/-- The PID that a PID is taken to be, which is that of the first program when no program has it. -/
def Trace.owner (tr : Trace T) (pid : ℕ) : ℕ :=
  if tr.Knows pid then pid else (tr.program.head?.map Program.task).getD 0

/-- An event by the PIDs of programs. -/
def Trace.resolve (tr : Trace T) (e : Event T) : Event T :=
  { e with fromPid := tr.owner e.fromPid, toPid := tr.owner e.toPid }

/-- The number of the first program with a PID. -/
def Trace.programOf (tr : Trace T) (pid : ℕ) : ℕ := tr.program.findIdx (·.task = pid)

/-- The priorities that a PID occurs with in an event. -/
def Event.prios (pid : ℕ) (e : Event T) : List ℕ :=
  (if e.fromPid = pid then [e.fromPrio] else []) ++ if e.toPid = pid then [e.toPrio] else []

/-- A PID's own priority, which is the largest one that it occurs with. -/
def ownPrio (es : List (Event T)) (pid : ℕ) : ℕ := (es.flatMap (Event.prios pid)).foldl max 0

/-- The changes that an event tells of, by PIDs. -/
def Event.changes (prio : ℕ → ℕ) (e : Event T) : List (ℕ × Status) :=
  match e.wakeupStr.head? with
  | some '=' =>
    (if e.fromPid ≠ e.toPid then [(e.fromPid, .off)] else []) ++
      [(e.toPid, .running e.toCpu (e.toPrio ≠ prio e.toPid))]
  | some '+' => [(e.toPid, .waiting)]
  | _ => []

/-- An event is a switch or a wake-up. -/
def Event.Told (e : Event T) : Prop :=
  e.wakeupStr.head? = some '=' ∨ e.wakeupStr.head? = some '+'

instance (e : Event T) : Decidable e.Told := inferInstanceAs (Decidable (_ ∨ _))

/-- What the events tell that have another time than the first one, with the time since then. -/
def told (prio : ℕ → ℕ) : List (Event T) → List (List Char × ℕ × Status)
  | [] => []
  | e₀ :: es => (e₀ :: es).flatMap fun e =>
    if e.time = e₀.time then []
    else (e.changes prio).map fun (pid, st) => (Double.micros (e.time - e₀.time), pid, st)

/-- The status that a value stands for. -/
def Status.ofValue (value : List Char) : Option Status :=
  if value.all (· = 'Z') then some .off
  else if value.all (· = 'X') then some .waiting
  else if value.all fun c => c = '0' ∨ c = '1' then
    some (.running (value.foldl (fun n c => 2 * n + if c = '1' then 1 else 0) 0) false)
  else if value.all fun c => c = 'L' ∨ c = 'H' then
    some (.running (value.foldl (fun n c => 2 * n + if c = 'H' then 1 else 0) 0) true)
  else none

/-- The names of the programs, and the changes of their statuses, by their numbers. -/
def readStatuses (text : List Char) : List (List Char) × List (List Char × ℕ × Option Status) :=
  let (names, history) := Vcd.read text
  (names, history.map fun (t, i, value) => (t, i, Status.ofValue value))

/-! ## Values -/

/-- The value that is written for a status. -/
def Status.value (nofBits : ℕ) : Status → Word
  | .off => List.replicate (nofBits + 1) 'Z'
  | .waiting => List.replicate (nofBits + 1) 'X'
  | .running cpu inherited =>
    if inherited then cpuValue 'L' 'H' nofBits cpu else cpuValue '0' '1' nofBits cpu

/-- A CPU has a number of as many bits as are written. -/
def Status.Fits (nofBits : ℕ) : Status → Prop
  | .running cpu _ => cpu < 2 ^ (nofBits + 1)
  | _ => True

theorem length_cpuValue (zero one : Char) (nofBits cpu : ℕ) :
    (cpuValue zero one nofBits cpu).length = nofBits + 1 := by
  rw [cpuValue, List.length_map, List.length_range]

theorem mem_cpuValue {zero one : Char} {nofBits cpu : ℕ} {c : Char}
    (hc : c ∈ cpuValue zero one nofBits cpu) : c = zero ∨ c = one := by
  obtain ⟨j, -, rfl⟩ := List.mem_map.1 hc
  split_ifs
  · exact .inr rfl
  · exact .inl rfl

theorem all_cpuValue {zero one : Char} {p : Char → Bool} (hzero : p zero = p one)
    (nofBits cpu : ℕ) : (cpuValue zero one nofBits cpu).all p = p one := by
  rw [cpuValue, List.range_succ_eq_map, List.map_cons, List.all_cons]
  cases hp : p one
  · split_ifs
    · rw [hp, Bool.false_and]
    · rw [hzero, hp, Bool.false_and]
  · rw [Bool.and_eq_true, List.all_eq_true]
    refine ⟨by split_ifs <;> simp [hzero, hp], fun c hc => ?_⟩
    obtain ⟨j, -, rfl⟩ := List.mem_map.1 hc
    split_ifs <;> simp [hzero, hp]

/-- The bits which are written first are those of a quotient. -/
theorem foldl_cpuValue {zero one : Char} (hne : zero ≠ one) {nofBits cpu : ℕ}
    (hcpu : cpu < 2 ^ (nofBits + 1)) :
    (cpuValue zero one nofBits cpu).foldl (fun n c => 2 * n + if c = one then 1 else 0) 0 =
      cpu := by
  have hbits (m : ℕ) (hm : m ≤ nofBits + 1) : ((List.range m).map fun j =>
      if cpu.testBit (nofBits - j) then one else zero).foldl
        (fun n c => 2 * n + if c = one then 1 else 0) 0 = cpu / 2 ^ (nofBits + 1 - m) := by
    induction m with
    | zero => exact (Nat.div_eq_of_lt hcpu).symm
    | succ m ih =>
      have hk : nofBits + 1 - m = (nofBits - m) + 1 := by omega
      have hk' : nofBits + 1 - (m + 1) = nofBits - m := by omega
      rw [List.range_succ, List.map_append, List.foldl_append, ih (by omega), hk, hk', pow_succ,
        ← Nat.div_div_eq_div_mul]
      have hbit : cpu.testBit (nofBits - m) = decide (cpu / 2 ^ (nofBits - m) % 2 = 1) :=
        Nat.testBit_eq_decide_div_mod_eq
      simp only [List.map_cons, List.map_nil, List.foldl_cons, List.foldl_nil, hbit,
        decide_eq_true_eq]
      split_ifs <;> first | omega | contradiction
  have := hbits (nofBits + 1) le_rfl
  rwa [Nat.sub_self, pow_zero, Nat.div_one] at this

/-- The characters of a value. -/
theorem Status.mem_value {nofBits : ℕ} {st : Status} {c : Char} (hc : c ∈ st.value nofBits) :
    c ∈ ['Z', 'X', '0', '1', 'L', 'H'] := by
  rcases st with _ | _ | ⟨cpu, _ | _⟩
  · rw [List.eq_of_mem_replicate hc]
    decide
  · rw [List.eq_of_mem_replicate hc]
    decide
  all_goals rcases mem_cpuValue hc with rfl | rfl <;> decide

theorem Status.length_value (nofBits : ℕ) (st : Status) :
    (st.value nofBits).length = nofBits + 1 := by
  rcases st with _ | _ | ⟨cpu, _ | _⟩
  · exact List.length_replicate
  · exact List.length_replicate
  all_goals exact length_cpuValue _ _ _ _

theorem Status.isValue_value (nofBits : ℕ) (st : Status) : IsValue (st.value nofBits) := by
  refine ⟨fun h => ?_, fun h => absurd (mem_value h) (by decide),
    fun h => absurd (mem_value h) (by decide)⟩
  have := st.length_value nofBits
  rw [h] at this
  cases this

theorem Status.isspace_value {nofBits : ℕ} {st : Status} :
    ∀ c ∈ st.value nofBits, isspace c = false := by
  have hall : ∀ c ∈ ['Z', 'X', '0', '1', 'L', 'H'], isspace c = false :=
    isspace_of_all (by decide)
  exact fun c hc => hall c (mem_value hc)

/-- A value stands for its status. -/
theorem Status.ofValue_value {nofBits : ℕ} {st : Status} (hst : st.Fits nofBits) :
    ofValue (st.value nofBits) = some st := by
  rcases st with _ | _ | ⟨cpu, _ | _⟩
  · simp [ofValue, value]
  · simp [ofValue, value, List.replicate_succ]
  all_goals
    simp only [value, Bool.false_eq_true, if_false, if_true]
    rw [ofValue]
    repeat rw [all_cpuValue (by decide)]
    rw [foldl_cpuValue (by decide) hst]
    rfl

/-! ## Words -/

/-- The item of a change. -/
def changeItem (nofBits : ℕ) (c : ℕ × Status) : Item :=
  .change (digits c.1) (c.2.value nofBits)

/-- A change is written as the words of its item. -/
theorem spells_writeChange (nofBits : ℕ) (c : ℕ × Status) :
    Spells (writeChange nofBits (c.2.value nofBits) (digits c.1))
      ([changeItem nofBits c].flatMap Item.words) := by
  have hlen := c.2.length_value nofBits
  have hdigits := isWord_digits c.1
  rw [List.flatMap_singleton, changeItem, Item.words, hlen, writeChange]
  by_cases hbits : 0 < nofBits
  · rw [if_pos hbits, if_pos hbits, if_neg (by omega), List.append_assoc, List.append_assoc,
      ← List.append_assoc, List.singleton_append]
    exact (Spells.word (IsWord.cons (c := 'b') rfl Status.isspace_value) (c := ' ') rfl).append
      (.word hdigits (c := '\n') rfl)
  · rw [if_neg hbits, if_neg hbits, if_pos (by omega), List.nil_append, List.append_nil]
    refine .word ⟨List.append_ne_nil_of_right_ne_nil _ hdigits.1, fun c hc => ?_⟩ rfl
    rcases List.mem_append.1 hc with hc | hc
    · exact Status.isspace_value c hc
    · exact hdigits.2 c hc

/-- The words after the name of a variable. -/
def busWords (nofBits : ℕ) : List Word :=
  (if 0 < nofBits then ['[' :: Nat.toDigits 10 nofBits ++ ":0]".toList] else []) ++ ["$end".toList]

theorem isWord_toDigits (n : ℕ) : IsWord (Nat.toDigits 10 n) :=
  ⟨List.length_pos_iff.1 Nat.length_toDigits_pos, fun _ hc =>
    isspace_of_isDigit (Nat.isDigit_of_mem_toDigits (by decide) (by decide) hc)⟩

theorem busWords_skipped (nofBits : ℕ) :
    ∀ u ∈ busWords nofBits, u ≠ "$enddefinitions".toList ∧ u ≠ "$var".toList := by
  rw [busWords]
  split_ifs
  · exact List.forall_mem_cons.2 ⟨⟨nofun, nofun⟩, by decide⟩
  · decide

theorem spells_bus (nofBits : ℕ) :
    Spells ((if 0 < nofBits then '[' :: Nat.toDigits 10 nofBits ++ ":0] ".toList else []) ++
      "$end\n".toList) (busWords nofBits) := by
  have hbus : ":0] ".toList = ":0]".toList ++ [' '] := by decide
  have hend : "$end\n".toList = "$end".toList ++ ['\n'] := by decide
  have hword : IsWord ('[' :: Nat.toDigits 10 nofBits ++ ":0]".toList) :=
    (IsWord.cons rfl (isWord_toDigits nofBits).2).append (isspace_of_all (by decide))
  rw [hbus, hend, busWords]
  generalize ":0]".toList = bus at hword ⊢
  refine Spells.append ?_ (Spells.word (isWord_of_all (by decide) (by decide)) rfl)
  split_ifs
  · rw [← List.append_assoc]
    exact .word hword rfl
  · exact .nil

theorem spells_var : Spells "$var wire ".toList ["$var".toList, "wire".toList] := by
  have hhead : "$var wire ".toList = "$var".toList ++ [' '] ++ ("wire".toList ++ [' ']) := by decide
  rw [hhead]
  exact (Spells.word (isWord_of_all (by decide) (by decide)) rfl).append
    (.word (isWord_of_all (by decide) (by decide)) rfl)

theorem spells_writeVar (nofBits i : ℕ) {name : Word} (hname : IsWord name) :
    Spells (writeVar nofBits (digits i) name)
      (Var.words "wire".toList (Nat.toDigits 10 (nofBits + 1)) (busWords nofBits)
        ⟨digits i, name⟩) :=
  spells_var.append (.cons (isWord_toDigits (nofBits + 1)) (c := ' ') rfl
    (.cons (isWord_digits i) (c := ' ') rfl (.cons hname (c := ' ') rfl (spells_bus nofBits))))

/-! ## What is known of a trace -/

/-- What the dump relies on. -/
structure Sound (tr : Trace T) : Prop where
  name : ∀ w ∈ tr.tables.name, IsWord w
  /-- An event has a program. -/
  program : tr.schedSwitch ≠ [] → tr.tables.name ≠ []
  toCpu : ∀ s ∈ tr.schedSwitch, s.toCpu ≤ tr.maxCpu
  maxCpu : tr.maxCpu < 2 ^ 32

omit [Double T] in
theorem Sound.comment {tr : Trace T} (h : Sound tr) (line : List Char) :
    Sound (tr.comment line) := by
  obtain ⟨htables, hswitch, hmax⟩ := tr.comment_frame line
  obtain ⟨hname, hprogram, hcpu, hlt⟩ := h
  rw [← htables] at hname hprogram
  rw [← hswitch, ← hmax] at hcpu
  rw [← hswitch] at hprogram
  exact ⟨hname, hprogram, hcpu, hmax ▸ hlt⟩

theorem Sound.push {tr tr' : Trace T} (h : Sound tr) {line : List Char} {e : Event T}
    (he : scanLine line = some e) (hpush : tr.push e = some tr') : Sound tr' := by
  obtain ⟨hword, hfrom, hto⟩ := ok_of_scanLine he
  obtain ⟨htables, hswitch, hmax, -⟩ := Trace.push_spec hpush
  have hname : tr'.tables.name = (intern tr.tables.name e.programName).2 := by
    rw [htables, Trace.name_store]
  have hswitch : ∃ s : Switch T, s.toCpu = e.toCpu ∧ tr'.schedSwitch = tr.schedSwitch ++ [s] := by
    rw [hswitch]
    exact ⟨_, rfl, rfl⟩
  obtain ⟨s, hs, hswitch⟩ := hswitch
  refine ⟨fun w hw => ?_, fun _ hnil => ?_, fun x hx => ?_, ?_⟩
  · rw [hname] at hw
    rcases mem_of_mem_intern hw with hw | rfl
    · exact h.name w hw
    · exact hword
  · have := (interned_intern tr.tables.name e.programName).getElem?
    rw [← hname, hnil] at this
    cases this
  · rw [hmax]
    rw [hswitch, List.mem_append, List.mem_singleton] at hx
    rcases hx with hx | rfl
    · exact (h.toCpu x hx).trans ((le_max_left _ _).trans (le_max_left _ _))
    · exact hs ▸ le_max_right _ _
  · rw [hmax]
    exact max_lt (max_lt h.maxCpu hfrom) hto

theorem sound_readTrace {lines : List (List Char)} {tr : Trace T} (h : readTrace lines = some tr) :
    Sound tr := by
  refine readTrace_induction (P := fun _ tr => Sound tr)
    ⟨nofun, fun h => absurd rfl h, nofun, Nat.two_pow_pos 32⟩
    (fun lines tr line tr' hs hline => ?_) h
  rw [Trace.readLine] at hline
  split at hline
  · exact Option.some.inj hline ▸ hs.comment line
  · exact (hs.comment line).push ‹_› hline

/-- A CPU that fits the bits of the machine fits the bits which are written. -/
theorem lt_two_pow_nofBits {maxCpu n : ℕ} (h : maxCpu < 2 ^ (n + 1)) :
    maxCpu < 2 ^ (nofBits maxCpu n + 1) := by
  induction n with
  | zero => exact h
  | succ n ih =>
    rw [nofBits]
    split_ifs with hbit
    · exact h
    · refine ih (Nat.lt_pow_two_of_testBit _ fun i hi => ?_)
      rcases hi.eq_or_lt with rfl | hi
      · simpa using hbit
      · exact Nat.testBit_lt_two_pow (h.trans_le (Nat.pow_le_pow_right (by decide) hi))

/-! ## Events -/

omit [Double T] in
theorem Trace.programOf_lt {tr : Trace T} {pid : ℕ} (h : tr.Knows pid) :
    tr.programOf pid < tr.program.length := by
  obtain ⟨p, hp, hpid⟩ := h
  exact List.findIdx_lt_length_of_exists ⟨p, hp, decide_eq_true hpid⟩

omit [Double T] in
/-- The first program with a PID has it. -/
theorem Trace.task_programOf {tr : Trace T} {pid : ℕ} (h : tr.Knows pid) :
    (tr.program[tr.programOf pid]?).map Program.task = some pid := by
  have hlt := programOf_lt h
  have htask := List.findIdx_getElem (w := hlt)
  rw [List.getElem?_eq_getElem hlt, Option.map_some]
  exact congrArg some (of_decide_eq_true htask)

omit [Double T] in
/-- PIDs of programs have the same program only if they are the same. -/
theorem Trace.programOf_inj {tr : Trace T} {pid pid' : ℕ} (h : tr.Knows pid)
    (h' : tr.Knows pid') : tr.programOf pid = tr.programOf pid' ↔ pid = pid' := by
  refine ⟨fun heq => Option.some.inj ?_, congrArg _⟩
  rw [← task_programOf h, ← task_programOf h', heq]

omit [Double T] in
theorem Trace.resolve_eq_self {tr : Trace T} {e : Event T} (hfrom : tr.Knows e.fromPid)
    (hto : tr.Knows e.toPid) : tr.resolve e = e := by
  rw [resolve, owner, owner, if_pos hfrom, if_pos hto]

omit [Double T] in
theorem Trace.knows_owner {tr : Trace T} (h : tr.program ≠ []) (pid : ℕ) :
    tr.Knows (tr.owner pid) := by
  rw [owner]
  split_ifs with hpid
  · exact hpid
  · obtain ⟨p, ps, hps⟩ := List.exists_cons_of_ne_nil h
    rw [hps]
    exact ⟨p, hps ▸ .head _, rfl⟩

omit [Double T] in
/-- The number that a PID is replaced by is that of the program whose PID it is taken to be. -/
theorem Trace.pidIndex_eq {tr : Trace T} (h : tr.program ≠ []) (pid : ℕ) :
    pidIndex tr.program pid = tr.programOf (tr.owner pid) := by
  rw [pidIndex, owner]
  split_ifs with hlen hpid hpid
  · exact absurd hlen (programOf_lt hpid).ne
  · obtain ⟨p, ps, hps⟩ := List.exists_cons_of_ne_nil h
    rw [programOf, hps, List.findIdx_cons]
    simp
  · rfl
  · refine absurd (List.findIdx_eq_length.2 fun p hp => ?_) hlen
    exact decide_eq_false fun htask => hpid ⟨p, hp, htask⟩

/-- An event is stored with the numbers of the programs that have its PIDs. -/
structure Trace.Shows (tr : Trace T) (s : Switch T) (e : Event T) : Prop where
  wakeup : tr.wakeup[s.wakeupId]? = some e.wakeupStr
  time : s.time = e.time
  fromPid : s.fromPid = tr.programOf e.fromPid
  fromPrio : s.fromPrio = e.fromPrio
  toPid : s.toPid = tr.programOf e.toPid
  toPrio : s.toPrio = e.toPrio
  toCpu : s.toCpu = e.toCpu
  knowsFrom : tr.Knows e.fromPid
  knowsTo : tr.Knows e.toPid

/-- The events of the lines, by the PIDs of programs, are stored. -/
theorem shows_switches {lines : List (List Char)} {tr : Trace T} (h : readTrace lines = some tr) :
    List.Forall₂ tr.Shows tr.switches ((events T lines).map tr.resolve) := by
  have hevents := (stores_readTrace h).forall₂
  have hprogram := (sound_readTrace h).program
  rw [Trace.switches, List.forall₂_map_left_iff, List.forall₂_map_right_iff]
  rcases eq_or_ne tr.schedSwitch [] with hnil | hne
  · rw [hnil] at hevents ⊢
    rw [List.forall₂_nil_left_iff.1 hevents]
    exact .nil
  · have hprogram : tr.program ≠ [] := fun hnil => hprogram hne (congrArg (List.map _) hnil)
    refine hevents.imp fun s e hevent => ?_
    simp only [Tables.event, Option.bind_eq_some_iff, Option.map_eq_some_iff] at hevent
    obtain ⟨name, -, fromState, -, wakeupStr, hw, toState, -, rfl⟩ := hevent
    exact ⟨hw, rfl, Trace.pidIndex_eq hprogram _, rfl, Trace.pidIndex_eq hprogram _, rfl, rfl,
      Trace.knows_owner hprogram _, Trace.knows_owner hprogram _⟩

omit [Double T] in
/-- The largest priority of a program is its PID's own one. -/
theorem prio_eq_ownPrio {tr : Trace T} {ss : List (Switch T)} {es : List (Event T)}
    (hshows : List.Forall₂ tr.Shows ss es) {pid : ℕ} (hpid : tr.Knows pid) :
    prio ss (tr.programOf pid) = ownPrio es pid := by
  rw [prio, ownPrio]
  generalize 0 = n
  induction hshows generalizing n with
  | nil => rfl
  | @cons s e ss es hs _ ih =>
    have hfrom := Trace.programOf_inj hs.knowsFrom hpid
    have hto := Trace.programOf_inj hs.knowsTo hpid
    rw [List.foldl_cons, ih, List.flatMap_cons, List.foldl_append, Event.prios]
    congr 1
    simp only [hs.fromPid, hs.fromPrio, hs.toPid, hs.toPrio, hfrom, hto]
    have hmax (c : Prop) [Decidable c] (m k : ℕ) :
        (if c ∧ k > m then k else m) = (if c then [k] else []).foldl max m := by
      split_ifs with h h'
      · exact (max_eq_right h.2.le).symm
      · exact absurd h.1 h'
      · exact (max_eq_left (not_lt.1 fun hlt => h ⟨‹_›, hlt⟩)).symm
      · rfl
    rw [List.foldl_append, hmax, hmax]

/-- The item of a change, by the PID of a program. -/
def Trace.item (tr : Trace T) (nofBits : ℕ) (c : ℕ × Status) : Item :=
  changeItem nofBits (tr.programOf c.1, c.2)

/-- The priorities of programs are those of their PIDs. -/
def Trace.OwnPrio (tr : Trace T) (prio own : ℕ → ℕ) : Prop :=
  ∀ pid, tr.Knows pid → prio (tr.programOf pid) = own pid

omit [Double T] in
/-- An event is written as the changes that it tells of. -/
theorem spells_writeSwitch (nofBits : ℕ) {tr : Trace T} {prio own : ℕ → ℕ}
    (hprio : tr.OwnPrio prio own) {s : Switch T} {e : Event T} (h : tr.Shows s e) :
    Spells (writeSwitch nofBits prio tr.wakeup s)
      (((e.changes own).map (tr.item nofBits)).flatMap Item.words) := by
  have hsame := Trace.programOf_inj h.knowsFrom h.knowsTo
  rw [writeSwitch, Event.changes]
  simp only [h.wakeup, Option.bind_some, h.fromPid, h.toPid, h.toPrio, h.toCpu, ne_eq, hsame,
    hprio _ h.knowsTo]
  split
  · rw [List.map_append, List.flatMap_append]
    refine .append ?_ ?_
    · split_ifs
      · exact .nil
      · exact spells_writeChange nofBits (tr.programOf e.fromPid, .off)
    · have := spells_writeChange nofBits
        (tr.programOf e.toPid, .running e.toCpu (e.toPrio ≠ own e.toPid))
      simpa only [Status.value, decide_eq_true_eq, List.map_singleton, Trace.item] using this
  · exact spells_writeChange nofBits (tr.programOf e.toPid, .waiting)
  · exact .nil

omit [Double T] in
/-- What is told is told by PIDs of programs, and of CPUs that are written. -/
theorem Trace.Shows.changes_ok {tr : Trace T} {s : Switch T} {e : Event T} (h : tr.Shows s e)
    {nofBits : ℕ} (hcpu : s.toCpu < 2 ^ (nofBits + 1)) (prio : ℕ → ℕ) :
    ∀ c ∈ e.changes prio, tr.Knows c.1 ∧ c.2.Fits nofBits := by
  have hcpu : e.toCpu < 2 ^ (nofBits + 1) := h.toCpu ▸ hcpu
  rw [Event.changes]
  split
  · refine List.forall_mem_append.2 ⟨?_, List.forall_mem_singleton.2 ⟨h.knowsTo, hcpu⟩⟩
    split_ifs
    · exact List.forall_mem_singleton.2 ⟨h.knowsFrom, trivial⟩
    · exact nofun
  · exact List.forall_mem_singleton.2 ⟨h.knowsTo, trivial⟩
  · exact nofun

/-- The time of an event is told, unless it was told before. -/
theorem writeTime_of_told {tr : Trace T} {s : Switch T} {e : Event T} (h : tr.Shows s e)
    (htold : e.Told) (start : T) (last : Option T) :
    writeTime tr.wakeup start last s =
      if last ≠ some e.time then '#' :: Double.micros (e.time - start) ++ ['\n'] else [] := by
  rw [writeTime]
  simp only [h.wakeup, Option.bind_some, h.time]
  rcases htold with hhead | hhead
  all_goals simp only [hhead]

/-- What is read back of an event. -/
def Event.record (tr : Trace T) (nofBits : ℕ) (prio : ℕ → ℕ) (start : T) (e : Event T) :
    List (Word × Word × Word) :=
  if e.time = start then []
  else (e.changes prio).map fun c =>
    (Double.micros (e.time - start), digits (tr.programOf c.1), c.2.value nofBits)

/-- The events are written as items which tell of them. -/
theorem spells_writeSwitches (nofBits : ℕ) {tr : Trace T} {prio own : ℕ → ℕ}
    (hprio : tr.OwnPrio prio own) (start : T) {ss : List (Switch T)} {es : List (Event T)}
    (hshows : List.Forall₂ tr.Shows ss es) (htold : ∀ e ∈ es, e.Told) (last : Option T) :
    ∃ is : List Item,
      Spells (writeSwitches nofBits prio tr.wakeup start last ss) (is.flatMap Item.words) ∧
      (∀ i ∈ is, i.Ok) ∧
      ∀ now, (∀ time ∈ last, time ≠ start → now = Double.micros (time - start)) →
        history now is = es.flatMap (Event.record tr nofBits own start) := by
  induction hshows generalizing last with
  | nil => exact ⟨[], .nil, nofun, fun _ _ => rfl⟩
  | @cons s e ss es hs _ ih =>
    obtain ⟨is, hspells, hok, hhistory⟩ := ih (fun e' he' => htold e' (.tail _ he')) (some e.time)
    have hstart : e.time - start ≠ 0 ↔ e.time ≠ start := not_congr (Double.sub_eq_zero_iff _ _)
    rw [writeSwitches, writeTime_of_told hs (htold e (.head _)), hs.time, List.flatMap_cons,
      Event.record]
    by_cases h : e.time = start
    · -- The event is at the start.
      refine ⟨is, ?_, hok, fun now _ => ?_⟩
      · rw [if_neg (mt hstart.1 (not_not.2 h))]
        exact hspells
      · rw [if_pos h]
        refine hhistory now fun time ht hne => ?_
        cases ht
        exact absurd h hne
    · rw [if_pos (hstart.2 h), if_neg h]
      have hwritten := spells_writeSwitch nofBits hprio hs
      have hvalue : ∀ i ∈ (e.changes own).map (tr.item nofBits), i.Ok := by
        intro i hi
        obtain ⟨c, -, rfl⟩ := List.mem_map.1 hi
        exact Status.isValue_value _ _
      have hnext : history (Double.micros (e.time - start))
          ((e.changes own).map (tr.item nofBits) ++ is) = _ :=
        (history_changes _ _ (fun c : ℕ × Status => digits (tr.programOf c.1)) _ _).trans
          (congrArg _ (hhistory _ fun time ht _ => by cases ht; rfl))
      by_cases hlast : last = some e.time
      · -- Its time has been told.
        refine ⟨(e.changes own).map (tr.item nofBits) ++ is, ?_, ?_, fun now hnow => ?_⟩
        · rw [if_neg (not_not.2 hlast), List.flatMap_append]
          exact hwritten.append hspells
        · exact List.forall_mem_append.2 ⟨hvalue, hok⟩
        · rw [hnow e.time hlast h]
          exact hnext
      · refine ⟨.time (Double.micros (e.time - start)) ::
          ((e.changes own).map (tr.item nofBits) ++ is), ?_, ?_, fun now _ => hnext⟩
        · have hword : IsWord ('#' :: Double.micros (e.time - start)) :=
            .cons rfl (Double.isspace_micros _)
          rw [if_pos hlast, List.flatMap_cons, List.flatMap_append, List.append_assoc]
          exact (Spells.word hword (c := '\n') rfl).append (hwritten.append hspells)
        · exact List.forall_mem_cons.2 ⟨trivial, List.forall_mem_append.2 ⟨hvalue, hok⟩⟩

theorem spells_writeEvents (nofBits : ℕ) {tr : Trace T} {prio own : ℕ → ℕ}
    (hprio : tr.OwnPrio prio own) {ss : List (Switch T)} {es : List (Event T)}
    (hshows : List.Forall₂ tr.Shows ss es) (htold : ∀ e ∈ es, e.Told) :
    ∃ is : List Item,
      Spells (writeEvents nofBits prio tr.wakeup ss) (is.flatMap Item.words) ∧
      (∀ i ∈ is, i.Ok) ∧
      ∀ now, history now is = (told own es).map fun (t, c) =>
        (t, digits (tr.programOf c.1), c.2.value nofBits) := by
  cases hshows with
  | nil => exact ⟨[], .nil, nofun, fun _ => rfl⟩
  | @cons s e ss es hs hrest =>
    obtain ⟨is, hspells, hok, hhistory⟩ :=
      spells_writeSwitches nofBits hprio e.time (hrest.cons hs) htold none
    rw [← hs.time] at hspells
    refine ⟨is, hspells, hok, fun now => ?_⟩
    rw [hhistory now nofun, told, List.map_flatMap]
    congr 1
    funext x
    rw [Event.record]
    split_ifs
    · rfl
    · rw [List.map_map]
      rfl

/-! ## The dump is read back -/

theorem isWord_label (tr : Trace T) (i : ℕ) {p : Program T} (hp : IsWord p.name) :
    IsWord (label tr i p) := by
  unfold label
  extract_lets time percent prio
  have hpercent : ∀ c ∈ percent, isspace c = false := isspace_showInt _
  have hpercent' : ∀ c ∈ '#' :: percent, isspace c = false := List.forall_mem_cons.2 ⟨rfl, hpercent⟩
  split_ifs
  · exact ((hp.append (isspace_of_all (by decide))).append (isWord_toDigits _).2).append hpercent'
  · exact (hp.append (isspace_of_all (by decide))).append hpercent
  · exact ((hp.append (isspace_of_all (by decide))).append (isspace_showInt _)).append hpercent'

/-- The variables of the dump. -/
def Trace.vars (tr : Trace T) : List Var :=
  tr.program.zipIdx.map fun (p, i) => ⟨digits i, label tr i p⟩

omit [Double T] in
theorem zipIdx_snd (program : List (Program T)) :
    program.zipIdx.map Prod.snd = List.range program.length := by
  rw [List.zipIdx_map_snd, List.range_eq_range']

theorem vars_id (tr : Trace T) :
    tr.vars.map Var.id = (List.range tr.program.length).map digits := by
  rw [Trace.vars, List.map_map, ← zipIdx_snd, List.map_map]
  rfl

theorem idxOf_digits (tr : Trace T) {i : ℕ} (hi : i < tr.program.length) :
    (tr.vars.map Var.id).idxOf (digits i) = i := by
  refine idxOf_id ?_ ?_
  · rw [vars_id]
    exact List.nodup_range.map digits_injective
  · rw [vars_id, List.getElem?_map, List.getElem?_range hi]
    rfl

/-- The items at the start of the dump: no program runs. -/
def Trace.start (tr : Trace T) : List Item :=
  (List.range tr.program.length).map fun i => changeItem (nofBits tr.maxCpu 31) (i, .off)

/-- The dump is written as the words of its variables and items. -/
theorem spells_dump {tr : Trace T} (hname : ∀ w ∈ tr.tables.name, IsWord w) {is : List Item}
    (hspells : Spells (writeEvents (nofBits tr.maxCpu 31) (prio tr.switches) tr.wakeup tr.switches)
      (is.flatMap Item.words)) :
    Spells (dump tr) (["$timescale", "1us", "$end", "$scope", "module", "sched_switch",
        "$end"].map String.toList ++
      tr.vars.flatMap (Var.words "wire".toList (Nat.toDigits 10 (nofBits tr.maxCpu 31 + 1))
        (busWords (nofBits tr.maxCpu 31))) ++
      (["$upscope", "$end"].map String.toList ++ "$enddefinitions".toList :: "$end".toList ::
        (.time ['0'] :: tr.start ++ is).flatMap Item.words)) := by
  have hstart : Spells (tr.program.zipIdx.flatMap fun (_, i) => writeChange (nofBits tr.maxCpu 31)
      (List.replicate (nofBits tr.maxCpu 31 + 1) 'Z') (digits i))
        (tr.start.flatMap Item.words) := by
    rw [Trace.start, ← zipIdx_snd, List.map_map, List.flatMap_map]
    refine .flatMap fun p _ => ?_
    have := spells_writeChange (nofBits tr.maxCpu 31) (p.2, .off)
    rwa [List.flatMap_singleton] at this
  have hend : Spells "$upscope $end\n$enddefinitions $end\n#0\n".toList
      (["$upscope", "$end", "$enddefinitions", "$end", "#0"].map String.toList) :=
    .ended ((Option.all_eq_true _ _).1 (by decide)) (by decide)
  have hitems := (hend.append hstart).append hspells
  rw [List.append_assoc, List.append_assoc] at hitems
  unfold dump
  rw [List.append_assoc, List.append_assoc]
  refine .append (.append (.ended ((Option.all_eq_true _ _).1 (by decide)) (by decide)) ?_) ?_
  · rw [Trace.vars, List.flatMap_map]
    refine .flatMap fun p hp => spells_writeVar _ _ (isWord_label tr p.2 (hname _ ?_))
    exact List.mem_map_of_mem (List.fst_mem_of_mem_zipIdx hp)
  · rw [List.cons_append, List.flatMap_cons, List.flatMap_append]
    exact hitems

/-- What the events tell, they tell of programs, and of CPUs that are written. -/
theorem told_ok {tr : Trace T} {nofBits : ℕ} {ss : List (Switch T)} {es : List (Event T)}
    (hshows : List.Forall₂ tr.Shows ss es) (hcpu : ∀ s ∈ ss, s.toCpu < 2 ^ (nofBits + 1))
    (prio : ℕ → ℕ) : ∀ x ∈ told prio es, tr.Knows x.2.1 ∧ x.2.2.Fits nofBits := by
  have hchanges : ∀ e ∈ es, ∀ c ∈ e.changes prio, tr.Knows c.1 ∧ c.2.Fits nofBits := by
    induction hshows with
    | nil => exact nofun
    | cons hs _ ih =>
      obtain ⟨hcpu, hcpus⟩ := List.forall_mem_cons.1 hcpu
      exact List.forall_mem_cons.2 ⟨hs.changes_ok hcpu prio, ih hcpus⟩
  cases es with
  | nil => exact nofun
  | cons e₀ es =>
    intro x hx
    obtain ⟨e, he, hx⟩ := List.mem_flatMap.1 hx
    split_ifs at hx
    · cases hx
    · obtain ⟨c, hc, rfl⟩ := List.mem_map.1 hx
      exact hchanges e he c hc

/-- There is a variable for each program. At the start no program runs. Then comes what the events
    tell after the time of the first one, of the first program with each PID. -/
def Trace.meaning (tr : Trace T) (es : List (Event T)) :
    List (List Char) × List (List Char × ℕ × Option Status) :=
  (tr.program.zipIdx.map fun (p, i) => label tr i p,
    (List.range tr.program.length).map (fun i => (['0'], i, some .off)) ++
      (told (ownPrio es) es).map fun (t, pid, st) => (t, tr.programOf pid, some st))

/-- The dump is read back as what the lines of the trace mean, as long as their events are switches
    and wake-ups. -/
theorem readStatuses_dump {lines : List (List Char)} {tr : Trace T} (h : readTrace lines = some tr)
    (htold : ∀ e ∈ events T lines, e.Told) :
    readStatuses (dump tr) = tr.meaning ((events T lines).map tr.resolve) := by
  have hsound := sound_readTrace h
  have hshows := shows_switches h
  have htold : ∀ e ∈ (events T lines).map tr.resolve, e.Told := List.forall_mem_map.2 htold
  generalize (events T lines).map tr.resolve = es at hshows htold
  obtain ⟨is, hspells, hok, hhistory⟩ := spells_writeEvents (nofBits tr.maxCpu 31)
    (fun _ => prio_eq_ownPrio hshows) hshows htold
  have hstart : ∀ i ∈ Item.time ['0'] :: tr.start ++ is, i.Ok := by
    refine List.forall_mem_append.2 ⟨List.forall_mem_cons.2 ⟨trivial, fun i hi => ?_⟩, hok⟩
    obtain ⟨j, -, rfl⟩ := List.mem_map.1 hi
    exact Status.isValue_value _ _
  have hread := read_of_spells (List.forall_mem_append.2 ⟨List.forall_mem_append.2
    ⟨by decide, busWords_skipped _⟩, by decide⟩) hstart (spells_dump hsound.name hspells)
  have hchanges : history [] (Item.time ['0'] :: tr.start ++ is) =
      (List.range tr.program.length).map (fun i =>
        (['0'], digits i, Status.off.value (nofBits tr.maxCpu 31))) ++
      (told (ownPrio es) es).map fun (t, c) =>
        (t, digits (tr.programOf c.1), c.2.value (nofBits tr.maxCpu 31)) :=
    (history_changes ['0'] (List.range tr.program.length) digits _ is).trans
      (congrArg _ (hhistory ['0']))
  have hcpu : ∀ s ∈ tr.switches, s.toCpu < 2 ^ (nofBits tr.maxCpu 31 + 1) := by
    refine List.forall_mem_map.2 fun s hs => ?_
    exact (hsound.toCpu s hs).trans_lt (lt_two_pow_nofBits hsound.maxCpu)
  rw [readStatuses, hread, hchanges, Trace.meaning]
  generalize nofBits tr.maxCpu 31 = bits at hcpu ⊢
  dsimp only
  rw [List.map_append, List.map_append, List.map_map, List.map_map, List.map_map, List.map_map]
  refine congrArg₂ Prod.mk ?_ (congrArg₂ (· ++ ·) (List.map_congr_left fun i hi => ?_)
    (List.map_congr_left fun x hx => ?_))
  · rw [Trace.vars, List.map_map]
    rfl
  · have hvalue : Status.ofValue (Status.off.value bits) = some .off :=
      Status.ofValue_value trivial
    simp only [Function.comp, idxOf_digits tr (List.mem_range.1 hi), hvalue]
  · obtain ⟨hknows, hfits⟩ := told_ok hshows hcpu _ x hx
    simp only [Function.comp, idxOf_digits tr (Trace.programOf_lt hknows),
      Status.ofValue_value hfits]

theorem readStatuses_dump_sample : (readTrace sample).map (fun tr : Trace Micros =>
    readStatuses (dump tr)) = some
      (["bash-3997#n0#0".toList, "<idle>-0#idle#0".toList, "sleep-4055#n0#0".toList],
        [("0".toList, 0, some .off), ("0".toList, 1, some .off), ("0".toList, 2, some .off),
          ("3".toList, 0, some .off), ("3".toList, 1, some (.running 1 false)),
          ("83".toList, 1, some .off), ("83".toList, 2, some (.running 0 false)),
          ("119".toList, 2, some .off), ("119".toList, 1, some (.running 0 false))]) := by
  have hmeaning : (readTrace sample).map (fun tr : Trace Micros =>
      tr.meaning ((events Micros sample).map tr.resolve)) = some
      (["bash-3997#n0#0".toList, "<idle>-0#idle#0".toList, "sleep-4055#n0#0".toList],
        [("0".toList, 0, some .off), ("0".toList, 1, some .off), ("0".toList, 2, some .off),
          ("3".toList, 0, some .off), ("3".toList, 1, some (.running 1 false)),
          ("83".toList, 1, some .off), ("83".toList, 2, some (.running 0 false)),
          ("119".toList, 2, some .off), ("119".toList, 1, some (.running 0 false))]) := by
    decide +kernel
  have hevents : ∀ e ∈ events Micros sample, e.Told := by decide +kernel
  rw [← hmeaning]
  exact Option.map_congr fun tr h => readStatuses_dump h hevents

end RealtimeTests.SchedSwitch
