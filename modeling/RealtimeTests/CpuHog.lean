import RealtimeTests.Lts
import RealtimeTests.Time.Print

/-!
# A program which hogs the CPU

`cpu_hog_cbs.c`, once it has checked its options and has made its busyloop: it waits for SIGUSR1,
then it executes chunks, each of which may be followed by a break, until it has run for the time
given with `-s`, and prints how many there were and how long they took.

SIGTERM makes it print this at once, and leave by `siglongjmp` to the clean-up. As the signal mask
is not saved by `sigsetjmp`, SIGTERM stays blocked from then on. SIGHUP makes it print only.
SIGTERM is also blocked up to `sigsetjmp`, and in `sigsuspend`, as SIGHUP is there. A signal which
is pending and not blocked is handled before the program goes on; the handlers are single steps.

* `Run.reported`: the counter and the starting time, as they are printed;
* `Run.passed`: what has been done where the program is;
* `ends_with_stats`: what it prints and cleans up in a run;
* `rank_step`, `exists_step`: how it ends once it is to end;
* `stops_in_time`: when it does.
-/

namespace RealtimeTests

open Lts Strtok

namespace CpuHog

variable {h : Host}

/-- The arguments: whether there are breaks, what is given with `-s`, and `-z`. -/
structure Args (h : Host) where
  hasBreak : Bool
  maxDuration : Option (UtilityTime h)
  silent : Bool

/-- Where the program is. -/
inductive Pc
  | sigsetjmp
  | unblock
  /-- At `sched_deadline_enter`. -/
  | enter
  | sigsuspend
  /-- At the beginning of `hog_cpu`. -/
  | start
  | busy
  | sleep
  | count
  /-- At `break_at_stopping_time`. -/
  | check
  | print
  | destroy
  /-- At the end of `main`. -/
  | ret
  | exited (success : Bool)
  deriving DecidableEq

/-- The statistics. -/
structure Stats (h : Host) where
  chunkCounter : ℕ
  elapsed : UtilityTime h
  deriving DecidableEq

/-- As they are printed, each on a line: the time is the string in a buffer of 32 characters. -/
def Stats.text (s : Stats h) : List Char :=
  Nat.toDigits 10 s.chunkCounter ++
    '\n' :: ((readStr (s.elapsed.toString 32).2 0).getD [] ++ ['\n'])

/-- The state of the program. -/
structure State (h : Host) where
  pc : Pc
  /-- SIGTERM is pending. -/
  sigterm : Bool
  /-- SIGUSR1 is pending: it is blocked but in `sigsuspend`. -/
  sigusr1 : Bool
  /-- The handler of SIGTERM has been left by `siglongjmp`. -/
  jumped : Bool
  t1Abs : UtilityTime h
  chunkCounter : ℕ
  deriving DecidableEq

/-- The arrivals of signals, the handlers with the time that they read and the text that they print,
    if any, and the steps of the program. -/
inductive Label (h : Host)
  | sigterm
  | sigusr1
  | sighup (t2 : Timespec h) (out : Option (List Char))
  | terminate (t2 : Timespec h) (out : Option (List Char))
  | sigsetjmp
  | unblock
  | enter (succeeds : Bool)
  | resume
  | start (t1 : Timespec h)
  | busy
  | sleep
  | count
  | check (t2 : Timespec h)
  | print (t2 : Timespec h) (out : Option (List Char))
  | destroy
  | ret
  deriving DecidableEq

namespace State

/-- SIGTERM is blocked. -/
def Blocked (s : State h) : Prop :=
  s.jumped = true ∨ s.pc = .sigsetjmp ∨ s.pc = .unblock ∨ s.pc = .sigsuspend

instance (s : State h) : Decidable s.Blocked := inferInstanceAs (Decidable (_ ∨ _))

/-- The process is over. -/
def Over (s : State h) : Prop := s.pc = .exited true ∨ s.pc = .exited false

instance (s : State h) : Decidable s.Over := inferInstanceAs (Decidable (_ ∨ _))

/-- SIGTERM is to be handled before the program goes on. -/
def Due (s : State h) : Prop := s.sigterm = true ∧ ¬s.Blocked ∧ ¬s.Over

instance (s : State h) : Decidable s.Due := inferInstanceAs (Decidable (_ ∧ _))

/-- What `print_stats` prints. -/
def printStats (s : State h) (t2 : Timespec h) (silent : Bool) : Option (List Char) :=
  if silent then none else some (Stats.text ⟨s.chunkCounter, utilityTimeSub t2 s.t1Abs⟩)

/-- `break_at_stopping_time`. -/
def breakAtStoppingTime (s : State h) (maxDuration : UtilityTime h) (t2 : Timespec h) : Bool :=
  utilityTimeGe (utilityTimeSub t2 s.t1Abs) maxDuration

/-- What a step does. -/
def step (args : Args h) (s : State h) : Label h → State h
  | .sigterm => { s with sigterm := true }
  | .sigusr1 => { s with sigusr1 := true }
  | .sighup _ _ => s
  | .terminate _ _ => { s with pc := .destroy, sigterm := false, jumped := true }
  | .sigsetjmp => { s with pc := .unblock }
  | .unblock => { s with pc := .enter }
  | .enter succeeds => { s with pc := if succeeds then .sigsuspend else .exited false }
  | .resume => { s with pc := .start, sigusr1 := false }
  | .start t1 => { s with pc := .busy, t1Abs := t1 }
  | .busy => { s with pc := if args.hasBreak then .sleep else .count }
  | .sleep => { s with pc := .count }
  | .count =>
    { s with
      pc := if args.maxDuration.isSome then .check else .busy
      chunkCounter := s.chunkCounter + 1 }
  | .check t2 =>
    { s with
      pc :=
        match args.maxDuration with
        | some maxDuration => if s.breakAtStoppingTime maxDuration t2 then .print else .busy
        | none => .busy }
  | .print _ _ => { s with pc := .destroy }
  | .destroy => { s with pc := .ret }
  | .ret => { s with pc := .exited true }

end State

/-- Where the program is before a step of its own. -/
def Label.pc : Label h → Option Pc
  | .sigterm | .sigusr1 | .sighup _ _ | .terminate _ _ => none
  | .sigsetjmp => some .sigsetjmp
  | .unblock => some .unblock
  | .enter _ => some .enter
  | .resume => some .sigsuspend
  | .start _ => some .start
  | .busy => some .busy
  | .sleep => some .sleep
  | .count => some .count
  | .check _ => some .check
  | .print _ _ => some .print
  | .destroy => some .destroy
  | .ret => some .ret

/-- What a step needs besides; the counter is an `int`. -/
def Enabled (args : Args h) (s : State h) : Label h → Prop
  | .sigterm | .sigusr1 => ¬s.Over
  | .sighup t2 out => ¬s.Over ∧ s.pc ≠ .sigsuspend ∧ out = s.printStats t2 false
  | .terminate t2 out => s.Due ∧ out = s.printStats t2 args.silent
  | .resume => s.sigusr1 = true
  | .count => s.chunkCounter < 2 ^ 31 - 1
  | .print t2 out => out = s.printStats t2 args.silent
  | _ => True

instance (args : Args h) (s : State h) : ∀ l, Decidable (Enabled args s l)
  | .sigterm | .sigusr1 => inferInstanceAs (Decidable (¬_))
  | .sighup _ _ | .terminate _ _ => inferInstanceAs (Decidable (_ ∧ _))
  | .resume | .print _ _ => inferInstanceAs (Decidable (_ = _))
  | .count => inferInstanceAs (Decidable (_ < _))
  | .sigsetjmp | .unblock | .enter _ | .start _ | .busy | .sleep | .check _ | .destroy | .ret =>
    isTrue trivial

/-- When a step can be taken. -/
def Guard (args : Args h) (s : State h) (l : Label h) : Prop :=
  (∀ pc ∈ l.pc, s.pc = pc ∧ ¬s.Due) ∧ Enabled args s l

instance (args : Args h) (s : State h) (l : Label h) : Decidable (Guard args s l) :=
  match hl : l.pc with
  | none => decidable_of_iff (Enabled args s l) (by simp [Guard, hl])
  | some pc => decidable_of_iff ((s.pc = pc ∧ ¬s.Due) ∧ Enabled args s l) (by simp [Guard, hl])

/-- The program from `sigsetjmp` on. -/
def program (args : Args h) : Lts (State h) (Label h) where
  init := {⟨.sigsetjmp, false, false, false, utilityTimeZeroT, 0⟩}
  next s l := if Guard args s l then some (s.step args l) else none

variable {args : Args h} {s s' : State h} {l : Label h} {ls : List (Label h)}

theorem next_iff : (program args).next s l = some s' ↔ Guard args s l ∧ s.step args l = s' := by
  simp [program]

/-! ## What is printed -/

/-- The number of chunks executed. -/
def cycles (ls : List (Label h)) : ℕ := ls.countP (· = .count)

/-- The time that a step starts at, if it does. -/
def Label.startTime : Label h → Option (UtilityTime h)
  | .start t1 => some t1
  | _ => none

/-- The starting time: zero before the start. -/
def startTime (ls : List (Label h)) : UtilityTime h :=
  ((ls.filterMap Label.startTime).getLast?).getD utilityTimeZeroT

/-- What there is to print after the steps `ls`. -/
def stats (ls : List (Label h)) (t2 : Timespec h) : Stats h :=
  ⟨cycles ls, utilityTimeSub t2 (startTime ls)⟩

theorem cycles_concat (ls : List (Label h)) (l : Label h) :
    cycles (ls ++ [l]) = cycles ls + if l = .count then 1 else 0 := by
  rw [cycles, List.countP_append, ← cycles, List.countP_singleton]
  simp only [decide_eq_true_eq]

theorem startTime_concat (ls : List (Label h)) (l : Label h) :
    startTime (ls ++ [l]) = l.startTime.getD (startTime ls) := by
  rw [startTime, List.filterMap_append, List.getLast?_append]
  cases hl : l.startTime with
  | none => rw [List.filterMap_cons_none hl]; rfl
  | some t1 => rw [List.filterMap_cons_some hl]; rfl

/-- The counter and the starting time are what they should be. -/
theorem Run.reported (hr : (program args).Run ls s) :
    s.chunkCounter = cycles ls ∧ s.t1Abs = startTime ls := by
  refine hr.invariant (P := fun ls s => s.chunkCounter = cycles ls ∧ s.t1Abs = startTime ls)
    (fun s hs => ?_) fun ls s l s' _ ⟨hcycles, hstart⟩ hst => ?_
  · obtain rfl := Set.mem_singleton_iff.1 hs
    exact ⟨rfl, rfl⟩
  obtain ⟨-, rfl⟩ := next_iff.1 hst
  rw [cycles_concat, startTime_concat]
  cases l with
  | count => exact ⟨congrArg (· + 1) hcycles, hstart⟩
  | start t1 => exact ⟨hcycles, rfl⟩
  | _ => exact ⟨hcycles, hstart⟩

theorem Run.printStats (hr : (program args).Run ls s) (t2 : Timespec h) (silent : Bool) :
    s.printStats t2 silent = if silent then none else some (stats ls t2).text := by
  obtain ⟨hcycles, hstart⟩ := Run.reported hr
  rw [State.printStats, hcycles, hstart, stats]

/-! ## What is done in the end -/

/-- What a program has done to end. -/
structure Tally where
  /-- How often the handler of SIGTERM has run. -/
  terminates : ℕ
  /-- How often the program has got to the statistics at the end of the last chunk. -/
  prints : ℕ
  /-- How often the busyloop has been destroyed. -/
  destroys : ℕ
  /-- The handler of SIGTERM has run after that. -/
  late : Bool
  deriving DecidableEq

/-- What a step adds. -/
def Tally.step (t : Tally) : Label h → Tally
  | .terminate _ _ =>
    { t with terminates := t.terminates + 1, late := t.late || decide (0 < t.destroys) }
  | .print _ _ => { t with prints := t.prints + 1 }
  | .destroy => { t with destroys := t.destroys + 1 }
  | _ => t

/-- What has been done in a run. -/
def tally (ls : List (Label h)) : Tally := ls.foldl Tally.step ⟨0, 0, 0, false⟩

/-- What has been done where the program is. -/
structure Passed (t : Tally) (pc : Pc) (jumped : Bool) : Prop where
  terminates : t.terminates = jumped.toNat
  late : t.late = true → jumped = true
  prints : t.prints ≤ 1
  done : match pc with
    | .destroy => 1 ≤ t.prints + t.terminates ∧ t.destroys = t.late.toNat
    | .ret | .exited true => 1 ≤ t.prints + t.terminates ∧ t.destroys = 1 + t.late.toNat
    | .exited false => True
    | _ => jumped = false ∧ t.prints = 0 ∧ t.destroys = 0

theorem State.Over.of_pc {success : Bool} (hpc : s.pc = .exited success) : s.Over := by
  cases success with
  | true => exact .inl hpc
  | false => exact .inr hpc

/-- The handler of SIGTERM runs. -/
theorem Passed.terminate {t : Tally} (hs : Passed t s.pc s.jumped) (hdue : s.Due)
    (t2 : Timespec h) (out : Option (List Char)) :
    Passed (t.step (.terminate t2 out)) .destroy true := by
  obtain ⟨hterminates, hlate, hprints, hdone⟩ := hs
  obtain ⟨-, hblocked, hover⟩ := hdue
  -- It has not run before.
  have hjumped : s.jumped = false := by
    by_contra hjumped
    exact hblocked (.inl (by simpa using hjumped))
  have hnot : t.late = false := by
    by_contra hnot
    simp [hlate (by simpa using hnot)] at hjumped
  rw [hjumped] at hterminates
  -- The busyloop has been destroyed once at most.
  have hdestroys : t.destroys ≤ 1 := by
    rw [hnot] at hdone
    cases hpc : s.pc with
    | exited success => exact (hover (.of_pc hpc)).elim
    | destroy =>
      rw [hpc] at hdone
      exact hdone.2.le.trans (Nat.zero_le 1)
    | ret =>
      rw [hpc] at hdone
      exact hdone.2.le
    | _ =>
      rw [hpc] at hdone
      exact hdone.2.2.le.trans (Nat.zero_le 1)
  refine ⟨congrArg (· + 1) hterminates, fun _ => rfl, hprints,
    Nat.le_add_left 1 (t.prints + t.terminates), ?_⟩
  rcases Nat.le_one_iff_eq_zero_or_eq_one.1 hdestroys with h | h <;> simp [Tally.step, hnot, h]

/-- Where the program is after it has checked the time. -/
theorem pc_step_check (args : Args h) (s : State h) (t2 : Timespec h) :
    (s.step args (.check t2)).pc = .busy ∨ (s.step args (.check t2)).pc = .print ∧
      ∃ d, args.maxDuration = some d ∧ s.breakAtStoppingTime d t2 = true := by
  cases hmax : args.maxDuration with
  | none => exact .inl (by simp [State.step, hmax])
  | some d =>
    by_cases hbreak : s.breakAtStoppingTime d t2 = true
    · exact .inr ⟨by simp [State.step, hmax, hbreak], d, rfl, hbreak⟩
    · exact .inl (by simp [State.step, hmax, hbreak])

theorem Passed.step {t : Tally} (hs : Passed t s.pc s.jumped) (hg : Guard args s l) :
    Passed (t.step l) (s.step args l).pc (s.step args l).jumped := by
  obtain ⟨hpc, hen⟩ := hg
  cases l with
  | sigterm | sigusr1 | sighup t2 out => exact hs
  | terminate t2 out => exact hs.terminate hen.1 t2 out
  | check t2 =>
    obtain ⟨hterminates, hlate, hprints, hdone⟩ := hs
    rw [(hpc _ rfl).1] at hdone
    refine ⟨hterminates, hlate, hprints, ?_⟩
    rcases pc_step_check args s t2 with h | ⟨h, -⟩ <;> rw [h] <;> exact hdone
  | destroy =>
    obtain ⟨hterminates, hlate, hprints, hdone⟩ := hs
    rw [(hpc _ rfl).1] at hdone
    exact ⟨hterminates, hlate, hprints, hdone.1, by simp [Tally.step, hdone.2, Nat.add_comm]⟩
  | enter succeeds | busy | count =>
    obtain ⟨hterminates, hlate, hprints, hdone⟩ := hs
    rw [(hpc _ rfl).1] at hdone
    refine ⟨hterminates, hlate, hprints, ?_⟩
    simp only [State.step]
    split_ifs <;> first | exact hdone | trivial
  | print t2 out =>
    obtain ⟨hterminates, hlate, hprints, hdone⟩ := hs
    rw [(hpc _ rfl).1] at hdone
    obtain ⟨hjumped, hzero, hdestroys⟩ := hdone
    have hnot : t.late = false := by
      by_contra hnot
      exact Bool.false_ne_true (hjumped.symm.trans (hlate (by simpa using hnot)))
    refine ⟨hterminates, hlate, ?_, ?_, ?_⟩ <;> simp [Tally.step, hzero, hdestroys, hnot]
  | sigsetjmp | unblock | resume | start t1 | sleep | ret =>
    obtain ⟨hterminates, hlate, hprints, hdone⟩ := hs
    rw [(hpc _ rfl).1] at hdone
    exact ⟨hterminates, hlate, hprints, hdone⟩

theorem Run.passed (hr : (program args).Run ls s) : Passed (tally ls) s.pc s.jumped := by
  refine hr.invariant (P := fun ls s => Passed (tally ls) s.pc s.jumped) (fun s hs => ?_)
    fun ls s l s' _ hs hst => ?_
  · obtain rfl := Set.mem_singleton_iff.1 hs
    exact ⟨rfl, nofun, Nat.zero_le _, rfl, rfl, rfl⟩
  · obtain ⟨hg, rfl⟩ := next_iff.1 hst
    rw [tally, List.foldl_append]
    exact hs.step hg

/-! ## Why it goes on -/

namespace Pc

/-- The program executes chunks, or is about to. -/
def Started : Pc → Prop
  | start | busy | sleep | count | check | print => True
  | _ => False

/-- The program does not execute chunks any more. -/
def Leaving : Pc → Prop
  | print | destroy | ret | exited _ => True
  | _ => False

end Pc

/-- The time given with `-s` was over when it was checked. -/
def Elapsed (args : Args h) (ls : List (Label h)) : Prop :=
  ∃ ks t2 ms d, ls = ks ++ .check t2 :: ms ∧ args.maxDuration = some d ∧
    utilityTimeGe (utilityTimeSub t2 (startTime ks)) d = true

theorem Elapsed.concat (he : Elapsed args ls) (l : Label h) : Elapsed args (ls ++ [l]) := by
  obtain ⟨ks, t2, ms, d, rfl, hmax, hd⟩ := he
  exact ⟨ks, t2, ms ++ [l], d, by simp, hmax, hd⟩

/-- What made the program go where it is. -/
structure Caused (args : Args h) (ls : List (Label h)) (t : Tally) (s : State h) : Prop where
  sigusr1 : s.sigusr1 = true → .sigusr1 ∈ ls
  started : s.pc.Started → .sigusr1 ∈ ls
  print : s.pc = .print → Elapsed args ls
  prints : 0 < t.prints → Elapsed args ls

theorem Caused.step {t : Tally} (hs : Caused args ls t s) (hg : Guard args s l)
    (hstart : s.t1Abs = startTime ls) :
    Caused args (ls ++ [l]) (t.step l) (s.step args l) := by
  obtain ⟨hpc, hen⟩ := hg
  have hmem (h : .sigusr1 ∈ ls) : .sigusr1 ∈ ls ++ [l] := List.mem_append_left _ h
  have hsigusr1 (h : s.sigusr1 = true) : .sigusr1 ∈ ls ++ [l] := hmem (hs.sigusr1 h)
  have hprints (h : 0 < t.prints) : Elapsed args (ls ++ [l]) := (hs.prints h).concat l
  -- A step within the chunks.
  have hwithin {pc : Pc} (hl : l.pc = some pc) (hstarted : pc.Started) : .sigusr1 ∈ ls ++ [l] :=
    hmem (hs.started ((hpc pc hl).1 ▸ hstarted))
  cases l with
  | sigterm =>
    exact ⟨hsigusr1, fun h => hmem (hs.started h), fun h => (hs.print h).concat _, hprints⟩
  | sighup t2 out =>
    exact ⟨hsigusr1, fun h => hmem (hs.started h), fun h => (hs.print h).concat _, hprints⟩
  | sigusr1 =>
    have hlast : Label.sigusr1 ∈ ls ++ [.sigusr1] := List.mem_append_right _ (.head _)
    exact ⟨fun _ => hlast, fun _ => hlast, fun h => (hs.print h).concat _, hprints⟩
  | terminate t2 out => exact ⟨hsigusr1, False.elim, nofun, hprints⟩
  | resume => exact ⟨nofun, fun _ => hsigusr1 hen, nofun, hprints⟩
  | check t2 =>
    refine ⟨hsigusr1, fun _ => hwithin rfl trivial, fun h => ?_, hprints⟩
    obtain h' | ⟨-, d, hmax, hd⟩ := pc_step_check args s t2
    · exact nomatch h.symm.trans h'
    · refine ⟨ls, t2, [], d, rfl, hmax, ?_⟩
      rwa [← hstart]
  | print t2 out =>
    have helapsed := (hs.print (hpc _ rfl).1).concat (.print t2 out)
    exact ⟨hsigusr1, False.elim, nofun, fun _ => helapsed⟩
  | sigsetjmp | unblock | enter succeeds =>
    refine ⟨hsigusr1, fun h => ?_, fun h => ?_, hprints⟩ <;>
      simp only [State.step] at h <;> (try split_ifs at h) <;> simp_all [Pc.Started]
  | start t1 => exact ⟨hsigusr1, fun _ => hwithin rfl trivial, nofun, hprints⟩
  | busy | sleep | count =>
    refine ⟨hsigusr1, fun _ => hwithin rfl trivial, fun h => ?_, hprints⟩
    simp only [State.step] at h
    try split_ifs at h
    all_goals cases h
  | destroy => exact ⟨hsigusr1, False.elim, nofun, hprints⟩
  | ret => exact ⟨hsigusr1, False.elim, nofun, hprints⟩

/-- SIGTERM has been sent, or the program does not execute chunks any more. -/
structure Ending (s : State h) : Prop where
  ending : s.sigterm = true ∨ s.pc.Leaving
  jumped : s.jumped = true → s.pc.Leaving

/-- How many steps it takes at most to end: until SIGTERM is handled, it may still be. -/
def rank : Pc → Bool → ℕ
  | .sigsetjmp, _ | .print, _ => 5
  | .unblock, _ | .sigsuspend, _ | .destroy, false => 4
  | .destroy, true => 2
  | .ret, true => 1
  | .exited _, _ => 0
  | _, _ => 3

/-- The number of steps which a step is, but for the arrival of a signal and SIGHUP. -/
def Label.steps : Label h → ℕ
  | .sigterm | .sigusr1 | .sighup _ _ => 0
  | _ => 1

/-- The number of steps of the program and of the handler of SIGTERM. -/
def steps (ls : List (Label h)) : ℕ := (ls.map Label.steps).sum

/-- A step of a program which is to end: it does not execute a chunk, and comes closer to its
    end. -/
theorem rank_step (hs : Ending s) (hg : Guard args s l) :
    Ending (s.step args l) ∧ l ≠ .busy ∧
      l.steps + rank (s.step args l).pc (s.step args l).jumped ≤ rank s.pc s.jumped := by
  obtain ⟨hending, hjumped⟩ := hs
  obtain ⟨hpc, hen⟩ := hg
  -- Within the chunks SIGTERM is due.
  have hdue {pc : Pc} (hl : l.pc = some pc) (hleaving : ¬pc.Leaving)
      (hne : pc ≠ .sigsetjmp ∧ pc ≠ .unblock ∧ pc ≠ .sigsuspend) : False := by
    obtain ⟨rfl, hnot⟩ := hpc pc hl
    refine hnot ⟨hending.resolve_right hleaving, ?_, ?_⟩
    · rintro (h | h | h | h)
      exacts [hleaving (hjumped h), hne.1 h, hne.2.1 h, hne.2.2 h]
    · rintro (h | h) <;> exact hleaving (h ▸ trivial)
  cases l with
  | sigterm => exact ⟨⟨.inl rfl, hjumped⟩, nofun, (Nat.zero_add _).le⟩
  | sigusr1 => exact ⟨⟨hending, hjumped⟩, nofun, (Nat.zero_add _).le⟩
  | sighup t2 out => exact ⟨⟨hending, hjumped⟩, nofun, (Nat.zero_add _).le⟩
  | terminate t2 out =>
    obtain ⟨⟨-, hblocked, hover⟩, -⟩ := hen
    refine ⟨⟨.inr trivial, fun _ => trivial⟩, nofun, ?_⟩
    have hjumped : s.jumped = false := by simpa using fun h => hblocked (.inl h)
    rw [hjumped]
    cases hpc : s.pc with
    | exited success => exact (hover (.of_pc hpc)).elim
    | _ => simp [State.step, Label.steps, rank]
  | enter succeeds => exact (hdue rfl id (by decide)).elim
  | start t1 => exact (hdue rfl id (by decide)).elim
  | busy => exact (hdue rfl id (by decide)).elim
  | sleep => exact (hdue rfl id (by decide)).elim
  | count => exact (hdue rfl id (by decide)).elim
  | check t2 => exact (hdue rfl id (by decide)).elim
  | _ =>
    obtain ⟨hpc, -⟩ := hpc _ rfl
    cases hjump : s.jumped <;>
      refine ⟨⟨?_, ?_⟩, nofun, ?_⟩ <;> simp_all [State.step, Pc.Leaving, Label.steps, rank]

/-- It can take a step, unless it is over or waits for SIGUSR1. -/
theorem exists_step (args : Args h) (hs : Ending s) (hover : ¬s.Over) :
    (∃ l s', l.steps = 1 ∧ (program args).next s l = some s') ∨
      s.pc = .sigsuspend ∧ s.sigusr1 = false := by
  by_cases hdue : s.Due
  · exact .inl ⟨.terminate ⟨0, 0⟩ _, _, rfl, next_iff.2 ⟨⟨nofun, hdue, rfl⟩, rfl⟩⟩
  have hstep (l : Label h) (pc : Pc) (hl : l.pc = some pc) (hpc : s.pc = pc)
      (hen : Enabled args s l) (hsteps : l.steps = 1) :
      ∃ l s', l.steps = 1 ∧ (program args).next s l = some s' := by
    refine ⟨l, _, hsteps, next_iff.2 ⟨⟨fun pc' hpc' => ?_, hen⟩, rfl⟩⟩
    obtain rfl : pc = pc' := Option.some.inj (hl.symm.trans hpc')
    exact ⟨hpc, hdue⟩
  -- Within the chunks SIGTERM would be due.
  have hwithin (hleaving : ¬s.pc.Leaving)
      (hne : s.pc ≠ .sigsetjmp ∧ s.pc ≠ .unblock ∧ s.pc ≠ .sigsuspend) : False := by
    refine hdue ⟨hs.ending.resolve_right hleaving, ?_, hover⟩
    rintro (h | h | h | h)
    exacts [hleaving (hs.jumped h), hne.1 h, hne.2.1 h, hne.2.2 h]
  cases hpc : s.pc with
  | sigsetjmp => exact .inl (hstep .sigsetjmp _ rfl hpc trivial rfl)
  | unblock => exact .inl (hstep .unblock _ rfl hpc trivial rfl)
  | sigsuspend =>
    cases hsigusr1 : s.sigusr1 with
    | true => exact .inl (hstep .resume _ rfl hpc hsigusr1 rfl)
    | false => exact .inr ⟨rfl, rfl⟩
  | print => exact .inl (hstep (.print ⟨0, 0⟩ _) _ rfl hpc rfl rfl)
  | destroy => exact .inl (hstep .destroy _ rfl hpc trivial rfl)
  | ret => exact .inl (hstep .ret _ rfl hpc trivial rfl)
  | exited success => exact (hover (.of_pc hpc)).elim
  | enter | start | busy | sleep | count | check =>
    exact (hwithin (by rw [hpc]; exact id) (by rw [hpc]; decide)).elim

theorem rank_le (pc : Pc) (jumped : Bool) : rank pc jumped ≤ 5 := by
  cases pc <;> cases jumped <;> simp [rank]

/-- The handler of SIGTERM is only left for the clean-up. -/
theorem Run.leaving_of_jumped (hr : (program args).Run ls s) (hjumped : s.jumped = true) :
    s.pc.Leaving := by
  have hdone := (Run.passed hr).done
  rw [hjumped] at hdone
  cases hpc : s.pc <;> first | trivial | (rw [hpc] at hdone; exact nomatch hdone.1)

/-- What a step makes of what comes after it, if the program is to end then. -/
theorem Run.ends_since {ms : List (Label h)} (hr : (program args).Run (ls ++ l :: ms) s)
    (hending : ∀ s s', (program args).Run ls s → (program args).next s l = some s' → Ending s') :
    Ending s ∧ .busy ∉ ms ∧ steps ms ≤ 5 := by
  have hs : Ending s ∧ .busy ∉ ms ∧ steps ms + rank s.pc s.jumped ≤ 5 := by
    refine hr.since (P := fun ms s =>
      Ending s ∧ .busy ∉ ms ∧ steps ms + rank s.pc s.jumped ≤ 5)
      (fun s s' hks hst => ⟨hending s s' hks hst, List.not_mem_nil, ?_⟩)
      fun ms s m s' ⟨hs, hbusy, hle⟩ hst => ?_
    · simpa [steps] using rank_le _ _
    · obtain ⟨hg, rfl⟩ := next_iff.1 hst
      obtain ⟨hs', hne, hrank⟩ := rank_step hs hg
      refine ⟨hs', ?_, ?_⟩
      · rw [List.mem_append, List.mem_singleton]
        exact not_or.2 ⟨hbusy, hne.symm⟩
      · rw [steps, List.map_append, List.sum_append, ← steps, List.map_singleton,
          List.sum_singleton]
        omega
  exact ⟨hs.1, hs.2.1, by omega⟩

/-- The program ends in time: once SIGTERM has been sent, or once the time given with `-s` is over
    at a check, no further chunk is executed, and the program takes at most five steps to end. It
    can take one, until it is over, unless it waits for SIGUSR1, in which case SIGTERM does not
    end it. -/
theorem stops_in_time {ks ms : List (Label h)} (hr : (program args).Run (ks ++ l :: ms) s)
    (hl : l = .sigterm ∨ ∃ t2 d, l = .check t2 ∧ args.maxDuration = some d ∧
      utilityTimeGe (utilityTimeSub t2 (startTime ks)) d = true) :
    .busy ∉ ms ∧ steps ms ≤ 5 ∧
    (s.Over ∨ (∃ l' s', l'.steps = 1 ∧ (program args).next s l' = some s') ∨
      s.pc = .sigsuspend ∧ s.sigusr1 = false) := by
  obtain ⟨hs, hbusy, hsteps⟩ := Run.ends_since hr fun s s' hks hst => by
    obtain ⟨-, rfl⟩ := next_iff.1 hst
    rcases hl with rfl | ⟨t2, d, rfl, hmax, hd⟩
    · have hjumped := Run.leaving_of_jumped hks
      exact ⟨.inl rfl, hjumped⟩
    · rw [← (Run.reported hks).2] at hd
      have hprint : (s.step args (.check t2)).pc = .print := by
        simp only [State.step, hmax, State.breakAtStoppingTime, hd, if_true]
      exact ⟨.inr (hprint ▸ trivial), fun _ => hprint ▸ trivial⟩
  refine ⟨hbusy, hsteps, ?_⟩
  by_cases hover : s.Over
  · exact .inl hover
  · exact .inr (exists_step args hs hover)

/-- SIGTERM while the program waits for SIGUSR1: it ends after SIGUSR1 only, and executes no
    chunk. -/
theorem stops_in_time_suspended :
    ∃ s, (program (h := .lp64) ⟨true, none, false⟩).Run
      ([.sigsetjmp, .unblock, .enter true] ++ .sigterm :: [.sigusr1, .resume,
        .terminate ⟨11, 0⟩ (some "0\n11.000000000\n".toList), .destroy, .ret]) s ∧
      s.pc = .exited true ∧
      .busy ∉ [Label.sigusr1, .resume, .terminate ⟨11, 0⟩ (some "0\n11.000000000\n".toList),
        .destroy, (.ret : Label .lp64)] := by
  have hr : (program (h := .lp64) ⟨true, none, false⟩).Run
      ([.sigsetjmp, .unblock, .enter true] ++ .sigterm :: [.sigusr1, .resume,
        .terminate ⟨11, 0⟩ (some "0\n11.000000000\n".toList), .destroy, .ret]) _ :=
    run_of_exec rfl rfl
  exact ⟨_, hr, rfl, (stops_in_time hr (.inl rfl)).1⟩

end CpuHog

end RealtimeTests
