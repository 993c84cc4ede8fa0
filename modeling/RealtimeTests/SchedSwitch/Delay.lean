import Mathlib.Data.List.MinMax
import RealtimeTests.SchedSwitch.Dump

/-!
# Scheduling delays

`sched_switch.c` prints, for each program, the longest time that it had to wait for a CPU after a
wake-up, from the last comment of the trace on. It keeps for each program whether it waits, since
when, and the longest delay up to now.

* `waits`: the waits of a PID, which end by a switch to it with nothing in between;
* `delayLines_readTrace`: a line is printed for each program whose PID has a wait of positive
  length, with the first one of its longest waits. A PID which several programs have counts for the
  first one of them, and a PID which none has for the first program.
-/

namespace RealtimeTests.SchedSwitch

variable {T : Type*}

/-! ## Waits -/

/-- What happens to a PID. -/
inductive Signal (T : Type*)
  /-- It wakes up. -/
  | wake (time : T)
  /-- A CPU switches to it. -/
  | start (time : T) (cpu : ℕ)
  /-- A CPU switches from it to another program. -/
  | stop

/-- What happens to a PID by an event. -/
def Event.signal (pid : ℕ) (e : Event T) : Option (Signal T) :=
  match e.wakeupStr.head? with
  | some '=' =>
    if e.toPid = pid then some (.start e.time e.toCpu)
    else if e.fromPid = pid then some .stop
    else none
  | some '+' => if e.toPid = pid then some (.wake e.time) else none
  | _ => none

/-- It starts on the CPU that is switched to. -/
theorem Event.cpu_eq {pid : ℕ} {e : Event T} {t : T} {cpu : ℕ}
    (h : e.signal pid = some (.start t cpu)) : cpu = e.toCpu := by
  rw [signal] at h
  split at h
  · split_ifs at h
    · cases h
      rfl
    · cases h
  · split_ifs at h
    cases h
  · cases h

/-- A wait is from a wake-up to a switch to the PID, with nothing that happens to it in between. -/
def waits : List (Signal T) → List (T × T)
  | .wake t :: .start t' cpu :: gs => (t, t') :: waits (.start t' cpu :: gs)
  | _ :: gs => waits gs
  | [] => []

/-! ## The loop over the events -/

/-- `(unsigned int) -2`: a program waits. -/
def waiting : ℕ := 2 ^ 32 - 2

/-- The fields of `program_type` for the delay. -/
@[ext]
structure Delay (T : Type*) where
  running : ℕ
  lastTime : T
  maxTime : T
  maxPos : T

section

variable [Double T]

/-- A switch to a program that waits ends the wait. -/
def Delay.endWait (d : Delay T) (time : T) : Delay T :=
  if d.running = waiting ∧ time - d.lastTime > d.maxTime then
    { d with maxTime := time - d.lastTime, maxPos := time }
  else d

/-- An event. -/
def stepDelay (wakeup : List (List Char)) (d : ℕ → Delay T) (s : Switch T) : ℕ → Delay T :=
  match wakeup[s.wakeupId]?.bind List.head? with
  | some '=' =>
    let d := Function.update d s.toPid ((d s.toPid).endWait s.time)
    let d := Function.update d s.fromPid { d s.fromPid with running := noCpu }
    Function.update d s.toPid { d s.toPid with running := s.toCpu }
  | some '+' => Function.update d s.toPid { d s.toPid with running := waiting, lastTime := s.time }
  | _ => d

/-- The events from the last comment on. -/
def Trace.delays (tr : Trace T) : ℕ → Delay T :=
  (tr.switches.drop tr.lastComment).foldl (stepDelay tr.wakeup) fun _ => ⟨0, 0, 0, 0⟩

/-- What is printed for a program: the delay, when it ended, and also in microseconds since the
    first event, and the program. -/
abbrev DelayLine (T : Type*) := T × T × List Char × List Char

/-- The lines that are printed. There is a first event when there is a delay. -/
def Trace.delayLines (tr : Trace T) : List (DelayLine T) :=
  tr.program.zipIdx.filterMap fun (p, i) =>
    if (tr.delays i).maxTime ≠ 0 then
      some ((tr.delays i).maxTime, (tr.delays i).maxPos,
        Double.micros ((tr.delays i).maxPos - ((tr.schedSwitch.head?.map Switch.time).getD 0)),
        label tr i p)
    else none

end

/-! ## The events of a program -/

section

variable [Double T]

/-- What happens changes what is kept of a program. -/
def Delay.step (d : Delay T) : Signal T → Delay T
  | .wake t => { d with running := waiting, lastTime := t }
  | .start t cpu => { d.endWait t with running := cpu }
  | .stop => { d with running := noCpu }

/-- What happens to a PID changes what is kept of its program. -/
theorem stepDelay_programOf {tr : Trace T} {s : Switch T} {e : Event T} (h : tr.Shows s e)
    (d : ℕ → Delay T) {pid : ℕ} (hpid : tr.Knows pid) :
    stepDelay tr.wakeup d s (tr.programOf pid) =
      match e.signal pid with
      | some g => (d (tr.programOf pid)).step g
      | none => d (tr.programOf pid) := by
  have hto := Trace.programOf_inj h.knowsTo hpid
  have hfrom := Trace.programOf_inj h.knowsFrom hpid
  rw [stepDelay, Event.signal]
  simp only [h.wakeup, Option.bind_some, h.time, h.fromPid, h.toPid, h.toCpu]
  generalize e.wakeupStr.head? = head
  split
  · by_cases hi : e.toPid = pid
    · -- The CPU switches to the PID, possibly from itself.
      subst hi
      by_cases hsame : e.fromPid = e.toPid
      · simp [hsame, Delay.step]
      · simp [mt hfrom.1 hsame, Ne.symm (mt hfrom.1 hsame), Delay.step]
    · by_cases hi' : e.fromPid = pid
      · subst hi'
        simp [hi, mt hto.1 hi, Ne.symm (mt hto.1 hi), Delay.step]
      · simp [hi, hi', Ne.symm (mt hto.1 hi), Ne.symm (mt hfrom.1 hi')]
  · by_cases hi : e.toPid = pid
    · subst hi
      simp [Delay.step]
    · simp [hi, Ne.symm (mt hto.1 hi)]
  · simp

/-- What is kept of a program which is not the first one with its PID stays. -/
theorem stepDelay_of_ne {tr : Trace T} {s : Switch T} {e : Event T} (h : tr.Shows s e)
    (d : ℕ → Delay T) {i : ℕ} (hi : ∀ pid, tr.Knows pid → tr.programOf pid ≠ i) :
    stepDelay tr.wakeup d s i = d i := by
  have hfrom : i ≠ s.fromPid := h.fromPid ▸ (hi _ h.knowsFrom).symm
  have hto : i ≠ s.toPid := h.toPid ▸ (hi _ h.knowsTo).symm
  rw [stepDelay]
  simp only [h.wakeup, Option.bind_some]
  generalize e.wakeupStr.head? = head
  split
  · rw [Function.update_of_ne hto, Function.update_of_ne hfrom, Function.update_of_ne hto]
  · exact Function.update_of_ne hto _ _
  · rfl

/-- What is kept of a program after events is by what happens to its PID, if it is the first one
    with it. -/
theorem foldl_stepDelay {tr : Trace T} {ss : List (Switch T)} {es : List (Event T)}
    (hshows : List.Forall₂ tr.Shows ss es) (d : ℕ → Delay T) {pid : ℕ} (hpid : tr.Knows pid) :
    ss.foldl (stepDelay tr.wakeup) d (tr.programOf pid) =
      (es.filterMap (Event.signal pid)).foldl Delay.step (d (tr.programOf pid)) := by
  induction hshows generalizing d with
  | nil => rfl
  | @cons s e ss es hs _ ih =>
    rw [List.foldl_cons, ih, stepDelay_programOf hs d hpid, List.filterMap_cons]
    cases e.signal pid <;> rfl

theorem foldl_stepDelay_of_ne {tr : Trace T} {ss : List (Switch T)} {es : List (Event T)}
    (hshows : List.Forall₂ tr.Shows ss es) (d : ℕ → Delay T) {i : ℕ}
    (hi : ∀ pid, tr.Knows pid → tr.programOf pid ≠ i) :
    ss.foldl (stepDelay tr.wakeup) d i = d i := by
  induction hshows generalizing d with
  | nil => rfl
  | @cons s e ss es hs _ ih => rw [List.foldl_cons, ih, stepDelay_of_ne hs d hi]

/-! ## The longest wait -/

/-- How long a wait is. -/
def length (w : T × T) : T := w.2 - w.1

/-- The first one of the longest waits, if it has a positive length. -/
def longest (ws : List (T × T)) : Option (T × T) :=
  (ws.argmax length).filter fun w => 0 < length w

/-- The longest delay and when it ended, after another wait. -/
def longer (m : T × T) (w : T × T) : T × T := if length w > m.1 then (length w, w.2) else m

theorem foldl_longer (ws : List (T × T)) :
    ws.foldl longer (0, 0) = ((longest ws).map fun w => (length w, w.2)).getD (0, 0) := by
  have hfilter (w : T × T) : (some w).filter (fun w => decide (0 < length w)) =
      if 0 < length w then some w else none := by
    rw [Option.filter_some]
    simp only [decide_eq_true_eq]
  induction ws using List.reverseRecOn with
  | nil => rfl
  | append_singleton ws w ih =>
    rw [List.foldl_append, ih, longest, longest, List.argmax_concat, List.foldl_cons,
      List.foldl_nil, longer]
    cases ws.argmax length with
    | none => by_cases hw : 0 < length w <;> simp [hfilter, hw]
    | some v =>
      by_cases hv : 0 < length v
      · by_cases hlt : length v < length w
        · simp [hfilter, hv, hlt, hv.trans hlt]
        · simp [hfilter, hv, hlt]
      · by_cases hlt : length v < length w
        · by_cases hw : 0 < length w <;> simp [hfilter, hv, hlt, hw]
        · have hw : ¬ 0 < length w := fun hw => hv (hw.trans_le (not_lt.1 hlt))
          simp [hfilter, hv, hlt, hw]

/-- A wake-up after which nothing has happened. -/
def Delay.pending (d : Delay T) : List (Signal T) :=
  if d.running = waiting then [.wake d.lastTime] else []

/-- What is kept of a program is that of its waits. -/
theorem foldl_step {gs : List (Signal T)} (hcpu : ∀ t cpu, .start t cpu ∈ gs → cpu ≠ waiting)
    (d : Delay T) :
    ((gs.foldl Delay.step d).maxTime, (gs.foldl Delay.step d).maxPos) =
      (waits (d.pending ++ gs)).foldl longer (d.maxTime, d.maxPos) := by
  induction gs generalizing d with
  | nil =>
    rw [Delay.pending]
    split_ifs <;> rfl
  | cons g gs ih =>
    have ih := ih fun t cpu h => hcpu t cpu (.tail _ h)
    rw [List.foldl_cons, ih]
    cases g with
    | wake t =>
      have hpending : (d.step (.wake t)).pending = [.wake t] := if_pos rfl
      rw [hpending, Delay.pending]
      split_ifs <;> rfl
    | start t cpu =>
      have hpending : (d.step (.start t cpu)).pending = [] := if_neg (hcpu t cpu (.head _))
      rw [hpending, Delay.pending, Delay.step, Delay.endWait]
      by_cases hwait : d.running = waiting
      · have hwaits : waits ([Signal.wake d.lastTime] ++ .start t cpu :: gs) =
            (d.lastTime, t) :: waits gs := rfl
        rw [if_pos hwait, hwaits, List.foldl_cons, longer, length]
        simp only [hwait, true_and, List.nil_append]
        split_ifs <;> rfl
      · simp only [hwait, false_and, if_false, List.nil_append, waits]
    | stop =>
      have hne : noCpu ≠ waiting := by decide
      have hpending : (d.step .stop).pending = [] := if_neg hne
      rw [hpending, Delay.pending]
      split_ifs <;> rfl

/-! ## From the last comment on -/

/-- The lines from the last comment on. -/
def sinceComment (lines : List (List Char)) : List (List Char) :=
  lines.foldl (fun since line => if line.head? = some '#' then [line] else since ++ [line]) []

theorem drop_lastComment {lines : List (List Char)} {tr : Trace T}
    (h : readTrace lines = some tr) :
    tr.lastComment ≤ (events T lines).length ∧
      (events T lines).drop tr.lastComment = events T (sinceComment lines) := by
  suffices hinv : Stores lines tr ∧ tr.lastComment ≤ (events T lines).length ∧
      (events T lines).drop tr.lastComment = events T (sinceComment lines) from hinv.2
  refine readTrace_induction (P := fun lines tr => Stores lines tr ∧
      tr.lastComment ≤ (events T lines).length ∧
      (events T lines).drop tr.lastComment = events T (sinceComment lines))
    ⟨⟨rfl, List.nodup_nil, List.nodup_nil, List.nodup_nil⟩, le_rfl, rfl⟩
    (fun lines tr line tr' ⟨hs, hle, hdrop⟩ hline => ⟨hs.readLine hline, ?_⟩) h
  have hlength : tr.schedSwitch.length = (events T lines).length := by
    simpa only [List.length_map] using congrArg List.length hs.events
  have hcomment : tr'.lastComment = (tr.comment line).lastComment := by
    rw [Trace.readLine] at hline
    split at hline
    · rw [← Option.some.inj hline]
    · exact (Trace.push_spec hline).2.2.2
  have hevents : events T (lines ++ [line]) = events T lines ++ events T [line] :=
    List.filterMap_append
  rw [hcomment, Trace.comment, hevents, sinceComment, List.foldl_append, List.foldl_cons,
    List.foldl_nil, List.length_append]
  split_ifs
  · rw [hlength, List.drop_left]
    exact ⟨Nat.le_add_right _ _, rfl⟩
  · rw [List.drop_append_of_le_length hle, hdrop]
    exact ⟨hle.trans (Nat.le_add_right _ _), List.filterMap_append.symm⟩

/-- What is kept of a program tells the first one of its PID's longest waits since the last comment,
    if it is the first program with this PID. No CPU has the number that stands for waiting. -/
theorem delays_readTrace {lines : List (List Char)} {tr : Trace T} (h : readTrace lines = some tr)
    (hcpu : ∀ e ∈ events T lines, e.toCpu ≠ waiting) {pid : ℕ} (hpid : tr.Knows pid) :
    ((tr.delays (tr.programOf pid)).maxTime, (tr.delays (tr.programOf pid)).maxPos) =
      ((longest (waits (((events T (sinceComment lines)).map tr.resolve).filterMap
        (Event.signal pid)))).map fun w => (length w, w.2)).getD (0, 0) := by
  obtain ⟨-, hdrop⟩ := drop_lastComment h
  have hsince := List.forall₂_drop tr.lastComment (shows_switches h)
  rw [← List.map_drop, hdrop] at hsince
  rw [Trace.delays, foldl_stepDelay hsince _ hpid, foldl_step fun t cpu hg => ?_, ← foldl_longer]
  · rfl
  · obtain ⟨e', he', hg⟩ := List.mem_filterMap.1 hg
    obtain ⟨e, he, rfl⟩ := List.mem_map.1 he'
    rw [Event.cpu_eq hg]
    exact hcpu e (List.mem_of_mem_drop (hdrop ▸ he))

/-- A line is printed for each program that is the first one with its PID and has a wait of positive
    length since the last comment, with the first one of its longest waits. No CPU has the number
    that stands for waiting. -/
theorem delayLines_readTrace {lines : List (List Char)} {tr : Trace T}
    (h : readTrace lines = some tr) (hcpu : ∀ e ∈ events T lines, e.toCpu ≠ waiting) :
    tr.delayLines = tr.program.zipIdx.filterMap fun (p, i) =>
      if tr.programOf p.task = i then
        (longest (waits (((events T (sinceComment lines)).map tr.resolve).filterMap
          (Event.signal p.task)))).map fun w =>
            (length w, w.2,
              Double.micros (w.2 - ((events T lines).head?.map Event.time).getD 0), label tr i p)
      else none := by
  have hstart : (tr.schedSwitch.head?.map Switch.time).getD 0 =
      ((events T lines).head?.map Event.time).getD 0 := by
    have htimes : tr.schedSwitch.map Switch.time = (events T lines).map Event.time := by
      have hshows := (shows_switches h).imp fun s e hs => hs.time
      rw [Trace.switches, List.forall₂_map_left_iff, List.forall₂_map_right_iff] at hshows
      rwa [← List.forall₂_eq_eq_eq, List.forall₂_map_left_iff, List.forall₂_map_right_iff]
    rw [← List.head?_map, htimes, List.head?_map]
  rw [Trace.delayLines, hstart]
  refine List.filterMap_congr ?_
  rintro ⟨p, i⟩ hp
  have hget : tr.program[i]? = some p := List.mk_mem_zipIdx_iff_getElem?.1 hp
  have hknows : tr.Knows p.task := ⟨p, List.mem_of_getElem? hget, rfl⟩
  dsimp only
  by_cases hfirst : tr.programOf p.task = i
  · have hdelay := delays_readTrace h hcpu hknows
    rw [hfirst] at hdelay
    rw [if_pos hfirst]
    cases hw : longest (waits (((events T (sinceComment lines)).map tr.resolve).filterMap
        (Event.signal p.task))) with
    | none =>
      rw [hw] at hdelay
      obtain ⟨hmax, -⟩ := Prod.ext_iff.1 hdelay
      exact if_neg (not_not.2 hmax)
    | some w =>
      rw [hw] at hdelay
      obtain ⟨hmax, hpos⟩ := Prod.ext_iff.1 hdelay
      have hlength := (Option.filter_eq_some_iff.1 hw).2
      dsimp only [Option.map_some, Option.getD_some] at hmax hpos
      rw [hmax, hpos]
      exact if_pos (of_decide_eq_true hlength).ne'
  · -- Another program before it has its PID.
    have hi (pid : ℕ) (hpid : tr.Knows pid) : tr.programOf pid ≠ i := by
      rintro rfl
      have htask := Trace.task_programOf hpid
      rw [hget] at htask
      exact hfirst (congrArg _ (Option.some.inj htask))
    have hdelay : tr.delays i = ⟨0, 0, 0, 0⟩ :=
      foldl_stepDelay_of_ne (List.forall₂_drop tr.lastComment (shows_switches h)) _ hi
    rw [if_neg hfirst, hdelay]
    exact if_neg (not_not.2 rfl)

end

theorem delayLines_readTrace_sample : (readTrace sample).map Trace.delayLines = some
    [(Micros.of 83, Micros.of 240132364, "83".toList, "sleep-4055#n0#0".toList)] := by
  have hlongest : (readTrace sample).map (fun tr : Trace Micros =>
      tr.program.zipIdx.filterMap fun (p, i) =>
        if tr.programOf p.task = i then
          (longest (waits (((events Micros (sinceComment sample)).map tr.resolve).filterMap
            (Event.signal p.task)))).map fun w =>
              (length w, w.2,
                Double.micros (w.2 - ((events Micros sample).head?.map Event.time).getD 0),
                label tr i p)
        else none) = some
      [(Micros.of 83, Micros.of 240132364, "83".toList, "sleep-4055#n0#0".toList)] := by
    decide +kernel
  have hcpu : ∀ e ∈ events Micros sample, e.toCpu ≠ waiting := by decide +kernel
  rw [← hlongest]
  exact Option.map_congr fun tr h => delayLines_readTrace h hcpu

end RealtimeTests.SchedSwitch
