import Mathlib.Data.List.Nodup
import Mathlib.Tactic
import RealtimeTests.Scanf

/-!
# Traces of the scheduler

`sched_switch.c` converts a trace of the scheduler to a value change dump. It reads the trace line
by line. A line which matches one of two formats is an event: a switch between tasks or a wake-up.
Programs, states and kinds of events are numbered in the order in which they occur, and an event is
stored with these numbers.

Times are `double`s, of which nothing is assumed but what `Double` says, which is true of the finite
ones.

* `readTrace`: the tables and the events of a trace;
* `stores_readTrace`: nothing is lost: the events are those of the lines, and are found in the
  tables.
-/

namespace RealtimeTests.SchedSwitch

open Scanf

/-- The numbers of type `double`, as far as they are used here. Their order is total, which leaves
    out the NaN that `%lf` reads from `nan`, and a difference is zero only between equal numbers,
    which leaves out the infinities that it reads from `inf`. -/
class Double (T : Type*) extends LinearOrder T, Zero T, One T, Add T, Sub T where
  /-- `%lf`: the number that a text begins with, and what follows it. -/
  scan : List Char → Option (T × List Char)
  /-- A number of seconds in microseconds, by `%.0f`. -/
  micros : T → List Char
  /-- `(int) (100.0 * x / y + 0.5)`. -/
  percent : T → T → ℤ
  /-- Differences underflow gradually. -/
  sub_eq_zero_iff : ∀ x y : T, x - y = 0 ↔ x = y
  isspace_micros : ∀ x : T, ∀ c ∈ micros x, Text.isspace c = false

variable {T : Type*}

/-! ## Lines -/

/-- What is read from a line. -/
@[ext]
structure Event (T : Type*) where
  programName : List Char
  fromCpu : ℕ
  time : T
  fromPid : ℕ
  fromPrio : ℕ
  fromState : List Char
  wakeupStr : List Char
  toCpu : ℕ
  toPid : ℕ
  toPrio : ℕ
  toState : List Char

/-- The format of a line without the CPU that is switched to. -/
def shortFormat : List Char := " %s [ %u ] %lf : %u : %u : %s %s %u : %u : %s ".toList

/-- The format of a line with it. -/
def longFormat : List Char := " %s [ %u ] %lf : %u : %u : %s %s [ %u ] %u : %u : %s ".toList

/-- `(unsigned int) -1`. -/
def noCpu : ℕ := 2 ^ 32 - 1

/-- The event of a line, if it has one. Without a CPU that is switched to, it is taken to be the one
    that is switched from. -/
def scanLine [Double T] (line : List Char) : Option (Event T) :=
  let event name fromCpu time fromPid fromPrio fromState wakeupStr toCpu toPid toPrio toState :=
    some ⟨name.map fun c => if c = ':' then '_' else c, fromCpu, time, fromPid, fromPrio, fromState,
      wakeupStr, if toCpu = noCpu then fromCpu else toCpu, toPid, toPrio, toState⟩
  match sscanf Double.scan (directives shortFormat) line with
  | [.string name, .unsigned fromCpu, .double time, .unsigned fromPid, .unsigned fromPrio,
      .string fromState, .string wakeupStr, .unsigned toPid, .unsigned toPrio, .string toState] =>
    event name fromCpu time fromPid fromPrio fromState wakeupStr noCpu toPid toPrio toState
  | _ =>
    match sscanf Double.scan (directives longFormat) line with
    | [.string name, .unsigned fromCpu, .double time, .unsigned fromPid, .unsigned fromPrio,
        .string fromState, .string wakeupStr, .unsigned toCpu, .unsigned toPid, .unsigned toPrio,
        .string toState] =>
      event name fromCpu time fromPid fromPrio fromState wakeupStr toCpu toPid toPrio toState
    | _ => none

/-- The events of the lines. -/
def events (T : Type*) [Double T] (lines : List (List Char)) : List (Event T) :=
  lines.filterMap scanLine

/-- The name of a program is a word, and CPUs fit an `unsigned int`. -/
theorem ok_of_scanLine [Double T] {line : List Char} {e : Event T} (h : scanLine line = some e) :
    (e.programName ≠ [] ∧ ∀ c ∈ e.programName, Text.isspace c = false) ∧ e.fromCpu < 2 ^ 32 ∧
      e.toCpu < 2 ^ 32 := by
  have hname {name : List Char} (h : name ≠ [] ∧ ∀ c ∈ name, Text.isspace c = false) :
      (name.map fun c => if c = ':' then '_' else c) ≠ [] ∧
        ∀ c ∈ name.map fun c => if c = ':' then '_' else c, Text.isspace c = false := by
    refine ⟨mt List.map_eq_nil_iff.1 h.1, fun c hc => ?_⟩
    obtain ⟨d, hd, rfl⟩ := List.mem_map.1 hc
    split_ifs
    · rfl
    · exact h.2 d hd
  have hcpu {fromCpu toCpu : ℕ} (hfrom : fromCpu < 2 ^ 32) (hto : toCpu < 2 ^ 32) :
      (if toCpu = noCpu then fromCpu else toCpu) < 2 ^ 32 := by
    split_ifs
    · exact hfrom
    · exact hto
  rw [scanLine] at h
  split at h
  · rename_i hargs
    have hok : ∀ a ∈ sscanf (Double.scan (T := T)) (directives shortFormat) line, a.Ok :=
      ok_of_mem_sscanf _
    rw [hargs] at hok
    simp only [List.forall_mem_cons] at hok
    obtain ⟨hword, hfrom, -⟩ := hok
    have hno : noCpu < 2 ^ 32 := by decide
    cases h
    exact ⟨hname hword, hfrom, hcpu hfrom hno⟩
  · split at h
    · rename_i hargs
      have hok : ∀ a ∈ sscanf (Double.scan (T := T)) (directives longFormat) line, a.Ok :=
        ok_of_mem_sscanf _
      rw [hargs] at hok
      simp only [List.forall_mem_cons] at hok
      obtain ⟨hword, hfrom, -, -, -, -, -, hto, -⟩ := hok
      cases h
      exact ⟨hname hword, hfrom, hcpu hfrom hto⟩
    · cases h

/-! ## Tables -/

/-- The number of a string in a table, to which it is added unless it is there. -/
def intern {α : Type*} [DecidableEq α] (table : List α) (x : α) : ℕ × List α :=
  let i := table.findIdx (· = x)
  (i, if i = table.length then table ++ [x] else table)

/-- A table keeps the places of its strings, and has each of them once. -/
structure Interned {α : Type*} (table table' : List α) (x : α) (i : ℕ) : Prop where
  isPrefix : table <+: table'
  getElem? : table'[i]? = some x
  nodup : table.Nodup → table'.Nodup

theorem interned_intern {α : Type*} [DecidableEq α] (table : List α) (x : α) :
    Interned table (intern table x).2 x (intern table x).1 := by
  rw [intern]
  dsimp only
  split_ifs with hlen
  · have hx : ∀ y ∈ table, y ≠ x := by simpa using List.findIdx_eq_length.1 hlen
    refine ⟨List.prefix_append _ _, ?_, fun hnodup => ?_⟩
    · rw [hlen, List.getElem?_append_right le_rfl, Nat.sub_self]
      rfl
    · rw [← List.concat_eq_append]
      exact hnodup.concat fun h => hx x h rfl
  · have hlt := lt_of_le_of_ne List.findIdx_le_length hlen
    refine ⟨List.prefix_rfl, ?_, id⟩
    rw [List.getElem?_eq_getElem hlt]
    simpa using List.findIdx_getElem (w := hlt)

theorem mem_of_mem_intern {α : Type*} [DecidableEq α] {table : List α} {x y : α}
    (hy : y ∈ (intern table x).2) : y ∈ table ∨ y = x := by
  rw [intern] at hy
  dsimp only at hy
  split_ifs at hy
  · exact (List.mem_append.1 hy).imp_right List.eq_of_mem_singleton
  · exact .inl hy

/-- `program_type`, without what is only used to print. -/
structure Program (T : Type*) where
  name : List Char
  /-- The time that the program has run. -/
  time : T
  /-- The PID. -/
  task : ℕ

/-- `sched_switch_type`. -/
structure Switch (T : Type*) where
  programId : ℕ
  fromCpu : ℕ
  time : T
  fromPid : ℕ
  fromPrio : ℕ
  fromStateId : ℕ
  wakeupId : ℕ
  toCpu : ℕ
  toPid : ℕ
  toPrio : ℕ
  toStateId : ℕ

/-- The strings of the tables, by which events are stored. -/
structure Tables where
  name : List (List Char)
  state : List (List Char)
  wakeup : List (List Char)

/-- The event that is stored. -/
def Tables.event (t : Tables) (s : Switch T) : Option (Event T) :=
  t.name[s.programId]?.bind fun name =>
  t.state[s.fromStateId]?.bind fun fromState =>
  t.wakeup[s.wakeupId]?.bind fun wakeupStr =>
  t.state[s.toStateId]?.map fun toState =>
    ⟨name, s.fromCpu, s.time, s.fromPid, s.fromPrio, fromState, wakeupStr, s.toCpu, s.toPid,
      s.toPrio, toState⟩

/-- A table is added to at its end only. -/
structure Tables.Extends (t t' : Tables) : Prop where
  name : t.name <+: t'.name
  state : t.state <+: t'.state
  wakeup : t.wakeup <+: t'.wakeup

/-- Every string is in its table once. -/
structure Tables.Distinct (t : Tables) : Prop where
  name : t.name.Nodup
  state : t.state.Nodup
  wakeup : t.wakeup.Nodup

/-- What is stored stays when the tables are extended. -/
theorem Tables.Extends.event {t t' : Tables} (h : t.Extends t') {s : Switch T} {e : Event T}
    (he : t.event s = some e) : t'.event s = some e := by
  have hget {xs ys : List (List Char)} (h : xs <+: ys) {i : ℕ} {x : List Char}
      (hx : xs[i]? = some x) : ys[i]? = some x := by
    obtain ⟨zs, rfl⟩ := h
    rw [List.getElem?_append_left (List.getElem?_eq_some_iff.1 hx).1, hx]
  simp only [Tables.event, Option.bind_eq_some_iff, Option.map_eq_some_iff] at he ⊢
  obtain ⟨name, hn, fromState, hf, wakeupStr, hw, toState, ht, rfl⟩ := he
  exact ⟨name, hget h.name hn, fromState, hget h.state hf, wakeupStr, hget h.wakeup hw, toState,
    hget h.state ht, rfl⟩

/-- What has been read. -/
structure Trace (T : Type*) where
  /-- The number of events before the last comment. -/
  lastComment : ℕ
  maxCpu : ℕ
  lastMaxCpu : ℕ
  /-- For each CPU, how many of its next switches do not end a period of running; nothing is
      allocated before the first event. -/
  first : Option (ℕ → ℕ)
  /-- For each CPU, when it was last switched. -/
  lastTime : ℕ → T
  program : List (Program T)
  state : List (List Char)
  wakeup : List (List Char)
  schedSwitch : List (Switch T)

/-- The tables of a trace. -/
def Trace.tables (tr : Trace T) : Tables := ⟨tr.program.map Program.name, tr.state, tr.wakeup⟩

/-- The number of a program is that of its name. -/
theorem Trace.findIdx_program (tr : Trace T) (name : List Char) :
    tr.program.findIdx (·.name = name) = (intern tr.tables.name name).1 := by
  rw [tables, intern, List.findIdx_map]
  rfl

/-- A line may be a comment. -/
def Trace.comment (tr : Trace T) (line : List Char) : Trace T :=
  if line.head? = some '#' then { tr with lastComment := tr.schedSwitch.length } else tr

theorem Trace.comment_frame (tr : Trace T) (line : List Char) :
    (tr.comment line).tables = tr.tables ∧ (tr.comment line).schedSwitch = tr.schedSwitch ∧
      (tr.comment line).maxCpu = tr.maxCpu := by
  rw [comment]
  split_ifs <;> exact ⟨rfl, rfl, rfl⟩

variable [Double T]

/-- Before the first line. -/
def Trace.empty : Trace T where
  lastComment := 0
  maxCpu := 0
  lastMaxCpu := 0
  first := none
  lastTime := fun _ => 0
  program := []
  state := []
  wakeup := []
  schedSwitch := []

namespace Trace

/-- The arrays with an entry for each CPU are enlarged up to the largest CPU. The entries from the
    largest one before on are initialised. There is no room for as many entries as wrap to zero. -/
def enlarge (tr : Trace T) (e : Event T) : Option (Trace T) :=
  let maxCpu := max (max tr.maxCpu e.fromCpu) e.toCpu
  if tr.first.isNone ∨ maxCpu ≠ tr.lastMaxCpu then
    if maxCpu = noCpu then none
    else
      let added i := tr.lastMaxCpu ≤ i ∧ i ≤ maxCpu
      some { tr with
        maxCpu := maxCpu
        lastMaxCpu := maxCpu
        first := some fun i => if added i then 2 else (tr.first.getD fun _ => 0) i
        lastTime := fun i => if added i then 0 else tr.lastTime i }
  else some { tr with maxCpu := maxCpu }

/-- The program of an event, and its strings, are added to the tables, and the event is stored. -/
def store (tr : Trace T) (e : Event T) : Trace T :=
  let programId := tr.program.findIdx (·.name = e.programName)
  let program :=
    if programId = tr.program.length then tr.program ++ [⟨e.programName, 0, e.fromPid⟩]
    else tr.program
  let (fromStateId, state) := intern tr.state e.fromState
  let (toStateId, state) := intern state e.toState
  let (wakeupId, wakeup) := intern tr.wakeup e.wakeupStr
  { tr with
    program := program
    state := state
    wakeup := wakeup
    schedSwitch := tr.schedSwitch ++ [⟨programId, e.fromCpu, e.time, e.fromPid, e.fromPrio,
      fromStateId, wakeupId, e.toCpu, e.toPid, e.toPrio, toStateId⟩] }

/-- A switch ends the time that a program has run on a CPU. -/
def charge (tr : Trace T) (e : Event T) : Trace T :=
  match tr.first with
  | none => tr
  | some first =>
    let programId := tr.program.findIdx (·.name = e.programName)
    { tr with
      program :=
        if first e.fromCpu = 0 then
          tr.program.modify programId fun p =>
            { p with time := p.time + (e.time - tr.lastTime e.fromCpu) }
        else tr.program
      first := some (Function.update first e.fromCpu (first e.fromCpu - 1))
      lastTime := Function.update tr.lastTime e.fromCpu e.time }

/-- An event. -/
def push (tr : Trace T) (e : Event T) : Option (Trace T) :=
  (tr.enlarge e).map fun tr =>
    let tr := tr.store e
    if e.wakeupStr.head? = some '=' then tr.charge e else tr

/-- A line. -/
def readLine (tr : Trace T) (line : List Char) : Option (Trace T) :=
  match scanLine line with
  | none => some (tr.comment line)
  | some e => (tr.comment line).push e

end Trace

/-- The lines of a trace. -/
def readTrace (lines : List (List Char)) : Option (Trace T) :=
  lines.foldlM Trace.readLine .empty

/-! ## What is in the tables -/

namespace Trace

theorem name_store (tr : Trace T) (e : Event T) :
    (tr.store e).tables.name = (intern tr.tables.name e.programName).2 := by
  have hid := tr.findIdx_program e.programName
  rw [intern] at hid ⊢
  have hlen : tr.tables.name.length = tr.program.length := List.length_map _
  change List.map Program.name (if _ then _ else _) = _
  dsimp only at hid ⊢
  rw [← hid, hlen]
  split_ifs
  · exact List.map_append
  · rfl

/-- What is stored of an event, and the tables. -/
theorem store_spec (tr : Trace T) (e : Event T) :
    ∃ s : Switch T, (tr.store e).schedSwitch = tr.schedSwitch ++ [s] ∧
      (tr.store e).tables.event s = some e ∧ tr.tables.Extends (tr.store e).tables ∧
      (tr.tables.Distinct → (tr.store e).tables.Distinct) := by
  obtain ⟨hn, hn', hn''⟩ := interned_intern tr.tables.name e.programName
  obtain ⟨hf, hf', hf''⟩ := interned_intern tr.state e.fromState
  obtain ⟨ht, ht', ht''⟩ := interned_intern (intern tr.state e.fromState).2 e.toState
  obtain ⟨hw, hw', hw''⟩ := interned_intern tr.wakeup e.wakeupStr
  rw [← name_store] at hn hn' hn''
  refine ⟨_, rfl, ?_, ⟨hn, hf.trans ht, hw⟩, fun h => ⟨hn'' h.name, ht'' (hf'' h.state),
    hw'' h.wakeup⟩⟩
  have hf' : (tr.store e).tables.state[(intern tr.state e.fromState).1]? = some e.fromState := by
    obtain ⟨rest, hrest⟩ := ht
    change (intern (intern tr.state e.fromState).2 e.toState).2[_]? = _
    rw [← hrest, List.getElem?_append_left (List.getElem?_eq_some_iff.1 hf').1, hf']
  simp only [Tables.event, Option.bind_eq_some_iff, Option.map_eq_some_iff]
  refine ⟨_, ?_, _, hf', _, hw', _, ht', rfl⟩
  rw [findIdx_program]
  exact hn'

/-- A switch changes neither the tables nor the events. -/
theorem charge_frame (tr : Trace T) (e : Event T) :
    (tr.charge e).tables = tr.tables ∧ (tr.charge e).schedSwitch = tr.schedSwitch ∧
      (tr.charge e).maxCpu = tr.maxCpu ∧ (tr.charge e).lastComment = tr.lastComment := by
  rw [charge]
  split
  · exact ⟨rfl, rfl, rfl, rfl⟩
  · refine ⟨?_, rfl, rfl, rfl⟩
    rw [tables, tables]
    congr 1
    apply List.ext_getElem?
    intro i
    dsimp only
    split_ifs
    · rw [List.getElem?_map, List.getElem?_modify, List.getElem?_map, Option.map_eq_map,
        Option.map_map]
      congr 1
      funext p
      rw [Function.comp]
      split_ifs <;> rfl
    · rfl

/-- What an event does to the tables, the events and the largest CPU. -/
theorem push_spec {tr tr' : Trace T} {e : Event T} (h : tr.push e = some tr') :
    tr'.tables = (tr.store e).tables ∧ tr'.schedSwitch = (tr.store e).schedSwitch ∧
      tr'.maxCpu = max (max tr.maxCpu e.fromCpu) e.toCpu ∧ tr'.lastComment = tr.lastComment := by
  obtain ⟨tr₁, h₁, rfl⟩ := Option.map_eq_some_iff.1 h
  have hstore : (tr₁.store e).tables = (tr.store e).tables ∧
      (tr₁.store e).schedSwitch = (tr.store e).schedSwitch ∧
      (tr₁.store e).maxCpu = max (max tr.maxCpu e.fromCpu) e.toCpu ∧
      (tr₁.store e).lastComment = tr.lastComment := by
    rw [enlarge] at h₁
    split_ifs at h₁ <;> cases h₁ <;> exact ⟨rfl, rfl, rfl, rfl⟩
  dsimp only
  split_ifs
  · obtain ⟨ht, hs, hm, hc⟩ := charge_frame (tr₁.store e) e
    rwa [ht, hs, hm, hc]
  · exact hstore

end Trace

/-! ## Runs over the lines -/

theorem readTrace_concat (lines : List (List Char)) (line : List Char) :
    (readTrace (lines ++ [line]) : Option (Trace T)) =
      (readTrace lines).bind fun tr => tr.readLine line := by
  rw [readTrace, List.foldlM_append]
  simp [readTrace]

/-- What holds before the first line and is kept by every line holds of a trace that is read. -/
theorem readTrace_induction {P : List (List Char) → Trace T → Prop} (empty : P [] .empty)
    (step : ∀ lines tr line tr', P lines tr → tr.readLine line = some tr' →
      P (lines ++ [line]) tr')
    {lines : List (List Char)} {tr : Trace T} (h : readTrace lines = some tr) : P lines tr := by
  induction lines using List.reverseRecOn generalizing tr with
  | nil =>
    obtain rfl : Trace.empty = tr := Option.some.inj h
    exact empty
  | append_singleton lines line ih =>
    rw [readTrace_concat] at h
    obtain ⟨tr', hlines, hline⟩ := Option.bind_eq_some_iff.1 h
    exact step lines tr' line tr (ih hlines) hline

/-- The lines are stored in the tables. -/
structure Stores (lines : List (List Char)) (tr : Trace T) : Prop where
  events : tr.schedSwitch.map tr.tables.event = (events T lines).map some
  distinct : tr.tables.Distinct

/-- Every event that is stored is that of its line. -/
theorem Stores.forall₂ {lines : List (List Char)} {tr : Trace T} (h : Stores lines tr) :
    List.Forall₂ (fun s e => tr.tables.event s = some e) tr.schedSwitch
      (SchedSwitch.events T lines) := by
  have hevents := h.events
  rw [← List.forall₂_eq_eq_eq] at hevents
  simpa only [List.forall₂_map_left_iff, List.forall₂_map_right_iff] using hevents

theorem Stores.comment {lines : List (List Char)} {tr : Trace T} (h : Stores lines tr)
    (line : List Char) : Stores lines (tr.comment line) := by
  obtain ⟨htables, hswitch, -⟩ := tr.comment_frame line
  exact ⟨by rw [hswitch, htables, h.events], htables ▸ h.distinct⟩

theorem Stores.push {lines : List (List Char)} {tr tr' : Trace T} (h : Stores lines tr)
    {line : List Char} {e : Event T} (he : scanLine line = some e) (hpush : tr.push e = some tr') :
    Stores (lines ++ [line]) tr' := by
  obtain ⟨htables, hswitch, -, -⟩ := Trace.push_spec hpush
  obtain ⟨s, hs, hevent, hextends, hdistinct⟩ := tr.store_spec e
  refine ⟨?_, htables ▸ hdistinct h.distinct⟩
  -- The events before are still found in the tables, which have been extended.
  have hold : tr.schedSwitch.map (tr.store e).tables.event =
      tr.schedSwitch.map tr.tables.event := by
    refine List.map_congr_left fun x hx => ?_
    obtain ⟨e', -, he'⟩ := List.mem_map.1 (h.events ▸ List.mem_map_of_mem hx)
    rw [← he', hextends.event he'.symm]
  rw [htables, hswitch, hs, List.map_append, hold, h.events, SchedSwitch.events, SchedSwitch.events,
    List.filterMap_append, List.map_append, List.map_singleton, hevent]
  simp [he]

theorem Stores.readLine {lines : List (List Char)} {tr tr' : Trace T} (h : Stores lines tr)
    {line : List Char} (hline : tr.readLine line = some tr') : Stores (lines ++ [line]) tr' := by
  rw [Trace.readLine] at hline
  split at hline
  · rename_i hnone
    obtain rfl := Option.some.inj hline
    obtain ⟨hevents, hdistinct⟩ := h.comment line
    refine ⟨?_, hdistinct⟩
    rw [hevents, SchedSwitch.events, SchedSwitch.events, List.filterMap_append]
    simp [hnone]
  · exact (h.comment line).push ‹_› hline

/-- Nothing is lost: the events of the lines are stored in order, and what is stored of them is
    found in the tables, which have every string once. -/
theorem stores_readTrace {lines : List (List Char)} {tr : Trace T}
    (h : readTrace lines = some tr) : Stores lines tr :=
  readTrace_induction (P := Stores) ⟨rfl, List.nodup_nil, List.nodup_nil, List.nodup_nil⟩
    (fun _ _ _ _ hs hline => hs.readLine hline) h

/-! ## Times in microseconds -/

/-- `%d`. -/
def showInt (z : ℤ) : List Char :=
  if z < 0 then '-' :: Nat.toDigits 10 z.natAbs else Nat.toDigits 10 z.natAbs

theorem isspace_showInt (z : ℤ) : ∀ c ∈ showInt z, Text.isspace c = false := by
  have hdigits : ∀ c ∈ Nat.toDigits 10 z.natAbs, Text.isspace c = false := fun _ hc =>
    Text.isspace_of_isDigit (Nat.isDigit_of_mem_toDigits (by decide) (by decide) hc)
  rw [showInt]
  split_ifs
  · exact List.forall_mem_cons.2 ⟨rfl, hdigits⟩
  · exact hdigits

/-- Times in microseconds, which are read from seconds with at most six digits after the point. -/
def Micros := ℤ

/-- A number of microseconds. -/
def Micros.of (n : ℤ) : Micros := n

instance : Double Micros where
  toLinearOrder := inferInstanceAs (LinearOrder ℤ)
  zero := (0 : ℤ)
  one := (1000000 : ℤ)
  add := Int.add
  sub := Int.sub
  scan str :=
    let seconds := Text.digitRun str
    if seconds = [] then none
    else
      let (micros, rest) := match str.drop seconds.length with
        | '.' :: rest => (Text.digitRun rest, rest.drop (Text.digitRun rest).length)
        | rest => ([], rest)
      some
        ((Nat.ofDigitChars 10 (seconds ++ micros ++ List.replicate (6 - micros.length) '0') 0 : ℤ),
          rest)
  micros := showInt
  percent := fun (x y : ℤ) => (200 * x + y) / (2 * y)
  sub_eq_zero_iff _ _ := Int.sub_eq_zero
  isspace_micros x := isspace_showInt x

/-- A task wakes up another one, to which the other CPU then switches for a while. -/
def sample : List (List Char) :=
  ["# tracer: sched_switch".toList,
    "bash-3997 [01] 240.132281: 3997:120:R + [00] 4055:120:R".toList,
    "bash-3997 [01] 240.132284: 3997:120:R ==> [01] 0:140:R".toList,
    "<idle>-0 [00] 240.132364: 0:140:R ==> [00] 4055:120:R".toList,
    "sleep-4055 [00] 240.132400: 4055:120:S ==> [00] 0:140:R".toList]

end RealtimeTests.SchedSwitch
