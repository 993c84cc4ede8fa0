import Mathlib.Data.List.Nodup
import Mathlib.Tactic
import RealtimeTests.Driver.Process

/-!
# Whom the driver signals

The driver signals its children which it has not reaped, in every run in which every `exec`
succeeds, no forked copy of the driver takes SIGINT, and the driver takes SIGINT only when its
lists have no process that it has reaped and no item that it has freed (`Run.signals_children`).

The driver reaps a process without clearing its ID, so what carries the proof is that what is
still to be done does not use the lists of the processes that have been reaped: no step follows
which may fail, and so would kill all of them, or which signals this list (`follows`).
-/

namespace RealtimeTests.Driver

/-! ## The order of the code -/

namespace Instr

/-- It stands in the code, and is not a place in the middle of a loop. -/
def atStart : Instr → Bool
  | forked _ _ | check _ _ | exec _ _ | waitKilled _ _ _ => false
  | _ => true

/-- It may go to `error`. -/
def mayFail : Instr → Bool
  | parseCmdLineArgs | parseConfigFile | procsMakeArgv _ | procsCreate _ _ | forked _ _
  | check _ _ | exec _ _ | enterDeadline => true
  | _ => false

/-- The list it signals, from an index on. -/
def kills : Instr → Option (Class × ℕ)
  | procsKill c i _ | procsKillAndWait c i => some (c, i)
  | waitKilled c i _ => some (c, i + 1)
  | _ => none

/-- The list whose processes it waits for, from an index on. -/
def waits : Instr → Option (Class × ℕ)
  | procsKillAndWait c i | waitKilled c i _ | procsWait c i => some (c, i)
  | _ => none

/-- The list it reaps or frees. -/
def reaps : Instr → Option Class
  | procsKillAndWait c _ | waitKilled c _ _ | procsWait c _ | procsFree c _ => some c
  | _ => none

/-- It ends the process. -/
def ends : Instr → Bool
  | exit | quit => true
  | _ => false

/-- `y` may come after `x`: the list that `x` reaps is then left alone. -/
def follows (x y : Instr) : Bool :=
  y.atStart && !x.ends &&
    match x.reaps with
    | none => true
    | some c => !y.mayFail && y.kills.map Prod.fst != some c && y.waits.map Prod.fst != some c

end Instr

open Instr

theorem pairwise_main : main.Pairwise fun x y => x.follows y = true := by decide

theorem pairwise_error : error.Pairwise fun x y => x.follows y = true := by decide

theorem pairwise_sighandler : sighandler.Pairwise fun x y => x.follows y = true := by decide

theorem atStart_of_follows {x y : Instr} (h : x.follows y = true) : y.atStart = true := by
  simp only [follows, Bool.and_eq_true] at h
  exact h.1.1

/-- What comes after the reaping of a list. -/
theorem follows_reaps {x y : Instr} {c : Class} (h : x.follows y = true)
    (hx : x.reaps = some c) : y.mayFail = false ∧ (∀ k, y.kills ≠ some (c, k)) ∧
      ∀ k, y.waits ≠ some (c, k) := by
  simp only [follows, hx, Bool.and_eq_true, Bool.not_eq_true', bne_iff_ne, ne_eq] at h
  refine ⟨h.2.1.1, fun k hk => ?_, fun k hk => ?_⟩
  · exact h.2.1.2 (by rw [hk]; rfl)
  · exact h.2.2 (by rw [hk]; rfl)

/-! ## The lists of the driver -/

/-- The item is of a child which is not reaped, or of none. -/
def Proc.Live (pids : List ℤ) (p : Proc) : Prop :=
  p.freed = false ∧ (p.procId = -1 ∨ p.procId ∈ pids)

/-- The place of an item: its list and its index. -/
def Image.HasAt (d : Image) (c : Class) (i : ℕ) (p : Proc) : Prop := (d.lists c)[i]? = some p

/-- What `y` uses of the lists `x` uses as well. -/
structure Instr.Covers (x y : Instr) : Prop where
  mayFail : y.mayFail = true → x.mayFail = true
  kills : ∀ c k, y.kills = some (c, k) → ∃ k' ≤ k, x.kills = some (c, k')
  waits : ∀ c k, y.waits = some (c, k) → ∃ k' ≤ k, x.waits = some (c, k')

theorem Instr.Covers.refl (x : Instr) : x.Covers x :=
  ⟨id, fun _ k hk => ⟨k, le_rfl, hk⟩, fun _ k hk => ⟨k, le_rfl, hk⟩⟩

/-- What holds in the middle of a loop. -/
def Image.HeadSound (d : Image) (pids : List ℤ) : Prop :=
  match d.todo with
  | .forked _ _ :: _ =>
    d.forkResult = -1 ∨ d.forkResult ∈ pids ∧ ∀ c i p, d.HasAt c i p → p.procId ≠ d.forkResult
  | .exec _ _ :: _ => False
  | .waitKilled c i procId :: _ =>
    procId ≠ -1 ∧ ∃ p, d.HasAt c i p ∧ p.freed = false ∧ p.procId = procId
  | _ => True

/-- The lists of the driver are sound for what it has still to do, when it has the children `pids`
    and has reaped `reaped`. -/
structure Image.Sound (d : Image) (pids reaped : List ℤ) : Prop where
  ordered : d.todo.Pairwise fun x y => x.follows y = true
  known : ∀ c i p, d.HasAt c i p → p.freed = false →
    p.procId = -1 ∨ p.procId ∈ pids ∨ p.procId ∈ reaped
  fails : ∀ x ∈ d.todo, x.mayFail = true → ∀ c i p, d.HasAt c i p → p.Live pids
  kills : ∀ x ∈ d.todo, ∀ c k, x.kills = some (c, k) → ∀ i p, k ≤ i → d.HasAt c i p → p.Live pids
  waits : ∀ x ∈ d.todo, ∀ c k, x.waits = some (c, k) → ∀ i p, k ≤ i → d.HasAt c i p →
    p.freed = false
  unique : ∀ c i p c' i' p', d.HasAt c i p → d.HasAt c' i' p' → p.freed = false →
    p'.freed = false → p.procId ≠ -1 → p.procId = p'.procId → c = c' ∧ i = i'
  head : d.HeadSound pids

namespace Image

variable {d d' : Image} {pids reaped : List ℤ} {x : Instr} {rest todo : List Instr}

theorem headSound_of_atStart (h : ∀ x, d.todo.head? = some x → x.atStart = true) :
    d.HeadSound pids := by
  unfold HeadSound
  cases htodo : d.todo with
  | nil => trivial
  | cons x rest =>
    have hx := h x (by rw [htodo]; rfl)
    cases x with
    | forked c i | exec c i | waitKilled c i procId => cases hx
    | _ => trivial

/-- What is to be done uses less. -/
theorem Sound.narrow (h : d.Sound pids reaped)
    (hordered : todo.Pairwise fun x y => x.follows y = true)
    (hcovers : ∀ y ∈ todo, ∃ x ∈ d.todo, x.Covers y)
    (hhead : { d with todo := todo }.HeadSound pids) :
    { d with todo := todo }.Sound pids reaped where
  ordered := hordered
  known := h.known
  fails y hy hfail c i p hp := by
    obtain ⟨x, hx, hcov⟩ := hcovers y hy
    exact h.fails x hx (hcov.mayFail hfail) c i p hp
  kills y hy c k hk i p hi hp := by
    obtain ⟨x, hx, hcov⟩ := hcovers y hy
    obtain ⟨k', hk', hkill⟩ := hcov.kills c k hk
    exact h.kills x hx c k' hkill i p (hk'.trans hi) hp
  waits y hy c k hk i p hi hp := by
    obtain ⟨x, hx, hcov⟩ := hcovers y hy
    obtain ⟨k', hk', hwait⟩ := hcov.waits c k hk
    exact h.waits x hx c k' hwait i p (hk'.trans hi) hp
  unique := h.unique
  head := hhead

/-- The next step is done. -/
theorem Sound.pop (h : d.Sound pids reaped) (htodo : d.todo = x :: rest) :
    { d with todo := rest }.Sound pids reaped := by
  have ⟨hx, hrest⟩ := List.pairwise_cons.1 (htodo ▸ h.ordered)
  refine h.narrow hrest
    (fun y hy => ⟨y, by rw [htodo]; exact List.mem_cons_of_mem _ hy, .refl y⟩)
    (headSound_of_atStart fun y hy => ?_)
  exact atStart_of_follows (hx y (List.mem_of_head? hy))

/-- The next step goes on. -/
theorem Sound.advance (h : d.Sound pids reaped) (htodo : d.todo = x :: rest) {y : Instr}
    (hfollows : ∀ z, x.follows z = true → y.follows z = true) (hcovers : x.Covers y)
    (hhead : { d with todo := y :: rest }.HeadSound pids) :
    { d with todo := y :: rest }.Sound pids reaped := by
  have ⟨hx, hrest⟩ := List.pairwise_cons.1 (htodo ▸ h.ordered)
  refine h.narrow (List.pairwise_cons.2 ⟨fun z hz => hfollows z (hx z hz), hrest⟩)
    (fun z hz => ?_) hhead
  rcases List.mem_cons.1 hz with rfl | hz
  · exact ⟨x, by rw [htodo]; exact List.mem_cons_self, hcovers⟩
  · exact ⟨z, by rw [htodo]; exact List.mem_cons_of_mem _ hz, .refl z⟩

/-- Whatever is to be done, from lists of children which are not reaped. -/
theorem sound_of_live (hordered : d.todo.Pairwise fun x y => x.follows y = true)
    (hlive : ∀ c i p, d.HasAt c i p → p.Live pids)
    (hunique : ∀ c i p c' i' p', d.HasAt c i p → d.HasAt c' i' p' → p.freed = false →
      p'.freed = false → p.procId ≠ -1 → p.procId = p'.procId → c = c' ∧ i = i')
    (hhead : d.HeadSound pids) : d.Sound pids reaped where
  ordered := hordered
  known c i p hp _ := (hlive c i p hp).2.imp_right .inl
  fails _ _ _ := hlive
  kills _ _ c _ _ i p _ hp := hlive c i p hp
  waits _ _ c _ _ i p _ hp := (hlive c i p hp).1
  unique := hunique
  head := hhead

/-- The processes are all killed, from lists of children which are not reaped. -/
theorem Sound.terminate (h : d.Sound pids reaped) (hlive : ∀ c i p, d.HasAt c i p → p.Live pids)
    (hordered : todo.Pairwise fun x y => x.follows y = true)
    (hstart : ∀ x ∈ todo, x.atStart = true) (handling : Bool) :
    { d with todo := todo, handling := handling }.Sound pids reaped :=
  sound_of_live hordered hlive h.unique
    (headSound_of_atStart fun x hx => hstart x (List.mem_of_head? hx))

/-- A child is reaped, whose list is left alone from then on. -/
theorem Sound.reap (h : d.Sound pids reaped) {c : Class} {i : ℕ} {p : Proc} (hp : d.HasAt c i p)
    (hfreed : p.freed = false) (hpid : p.procId ≠ -1)
    (hfails : ∀ x ∈ d.todo, x.mayFail = false)
    (hkills : ∀ x ∈ d.todo, ∀ k ≤ i, x.kills ≠ some (c, k))
    (hhead : ∀ x ∈ d.todo, x.atStart = true) :
    d.Sound (pids.filter (· ≠ p.procId)) (p.procId :: reaped) where
  ordered := h.ordered
  known c' j q hq hqfreed := by
    by_cases heq : q.procId = p.procId
    · exact .inr (.inr (heq ▸ List.mem_cons_self))
    · rcases h.known c' j q hq hqfreed with hq | hq | hq
      · exact .inl hq
      · exact .inr (.inl (List.mem_filter.2 ⟨hq, by simpa using heq⟩))
      · exact .inr (.inr (List.mem_cons_of_mem _ hq))
  fails x hx hfail := absurd hfail (by rw [hfails x hx]; exact Bool.false_ne_true)
  kills x hx c' k hk j q hj hq := by
    obtain ⟨hqfreed, hlive⟩ := h.kills x hx c' k hk j q hj hq
    refine ⟨hqfreed, hlive.imp_right fun hmem => List.mem_filter.2 ⟨hmem, ?_⟩⟩
    -- Only the child that is reaped has its ID, and it is not signalled any more.
    rw [decide_eq_true_eq]
    intro heq
    obtain ⟨rfl, rfl⟩ := h.unique c' j q c i p hq hp hqfreed hfreed (heq ▸ hpid) heq
    exact hkills x hx k hj hk
  waits := h.waits
  unique := h.unique
  head := headSound_of_atStart fun x hx => hhead x (List.mem_of_head? hx)

theorem hasAt_modify {c c' : Class} {i j : ℕ} {f : Proc → Proc} {p : Proc} :
    (d.modify c i f).HasAt c' j p ↔
      ∃ q, d.HasAt c' j q ∧ p = if c' = c ∧ j = i then f q else q := by
  simp only [HasAt, modify]
  by_cases hc : c' = c
  · subst hc
    rw [Function.update_self, List.getElem?_modify, Option.map_eq_map, Option.map_eq_some_iff]
    refine exists_congr fun q => and_congr_right fun _ => ?_
    simp only [true_and, eq_comm]
  · rw [Function.update_of_ne hc]
    simp [hc]

/-! ## The steps of the driver -/

/-- The result of `fork` is recorded. -/
theorem Sound.record (h : d.Sound pids reaped) {c : Class} {i : ℕ}
    (htodo : d.todo = .forked c i :: rest) :
    { d.modify c i (fun p => { p with procId := d.forkResult }) with
      todo := .check c i :: rest }.Sound pids reaped := by
  have hlive := h.fails _ (by rw [htodo]; exact List.mem_cons_self) rfl
  have hhead := h.head
  simp only [HeadSound, htodo] at hhead
  have ⟨hx, hrest⟩ := List.pairwise_cons.1 (htodo ▸ h.ordered)
  refine sound_of_live (List.pairwise_cons.2 ⟨hx, hrest⟩) (fun c' j p hp => ?_)
    (fun c1 j1 p1 c2 j2 p2 h1 h2 hf1 hf2 hne heq => ?_) trivial
  · obtain ⟨q, hq, rfl⟩ := hasAt_modify.1 hp
    split_ifs
    · exact ⟨(hlive c' j q hq).1, hhead.imp_right fun h => h.1⟩
    · exact hlive c' j q hq
  · obtain ⟨q1, hq1, rfl⟩ := hasAt_modify.1 h1
    obtain ⟨q2, hq2, rfl⟩ := hasAt_modify.1 h2
    -- The new child has the ID of no other item.
    split_ifs at hf1 hf2 hne heq with hc1 hc2 hc2
    · exact ⟨hc1.1.trans hc2.1.symm, hc1.2.trans hc2.2.symm⟩
    · exact absurd heq.symm ((hhead.resolve_left hne).2 c2 j2 q2 hq2)
    · have hne' : d.forkResult ≠ -1 := fun h => hne (heq.trans h)
      exact absurd heq ((hhead.resolve_left hne').2 c1 j1 q1 hq1)
    · exact h.unique c1 j1 q1 c2 j2 q2 hq1 hq2 hf1 hf2 hne heq

/-- An item is freed. -/
theorem Sound.free (h : d.Sound pids reaped) {c : Class} {i : ℕ}
    (htodo : d.todo = .procsFree c i :: rest) :
    { d.modify c i (fun p => { p with freed := true }) with
      todo := .procsFree c (i + 1) :: rest }.Sound pids reaped := by
  have ⟨hx, hrest⟩ := List.pairwise_cons.1 (htodo ▸ h.ordered)
  have hmem {y : Instr} (hy : y ∈ rest) : y ∈ d.todo := by
    rw [htodo]
    exact List.mem_cons_of_mem _ hy
  -- What is to be done uses the items of the other lists only, which are as before.
  have hother {c' : Class} {j : ℕ} {p : Proc} (hc : c' ≠ c)
      (hp : (d.modify c i (fun p => { p with freed := true })).HasAt c' j p) : d.HasAt c' j p := by
    obtain ⟨q, hq, rfl⟩ := hasAt_modify.1 hp
    rwa [if_neg fun h => hc h.1]
  have hunfreed {c' : Class} {j : ℕ} {p : Proc} (hfreed : p.freed = false)
      (hp : (d.modify c i (fun p => { p with freed := true })).HasAt c' j p) : d.HasAt c' j p := by
    obtain ⟨q, hq, rfl⟩ := hasAt_modify.1 hp
    split_ifs at hfreed ⊢
    exact hq
  refine ⟨List.pairwise_cons.2 ⟨hx, hrest⟩, fun c' j p hp hfreed =>
    h.known c' j p (hunfreed hfreed hp) hfreed, fun y hy hfail => ?_,
    fun y hy c' k hk j p hj hp => ?_,
    fun y hy c' k hk j p hj hp => ?_, fun c1 j1 p1 c2 j2 p2 h1 h2 hf1 hf2 =>
    h.unique c1 j1 p1 c2 j2 p2 (hunfreed hf1 h1) (hunfreed hf2 h2) hf1 hf2, trivial⟩
  · rcases List.mem_cons.1 hy with rfl | hy
    · cases hfail
    · exact absurd hfail (by rw [(follows_reaps (hx y hy) rfl).1]; exact Bool.false_ne_true)
  · rcases List.mem_cons.1 hy with rfl | hy
    · cases hk
    · have hc : c' ≠ c := fun hc => (follows_reaps (hx y hy) rfl).2.1 k (hc ▸ hk)
      exact h.kills y (hmem hy) c' k hk j p hj (hother hc hp)
  · rcases List.mem_cons.1 hy with rfl | hy
    · cases hk
    · have hc : c' ≠ c := fun hc => (follows_reaps (hx y hy) rfl).2.2 k (hc ▸ hk)
      exact h.waits y (hmem hy) c' k hk j p hj (hother hc hp)

/-- The list is emptied, once its items are freed. -/
theorem Sound.clear (h : d.Sound pids reaped) {c : Class} {i : ℕ}
    (htodo : d.todo = .procsFree c i :: rest) :
    { d with lists := Function.update d.lists c [], todo := rest }.Sound pids reaped := by
  have hpop := h.pop htodo
  have hsub {c' : Class} {j : ℕ} {p : Proc}
      (hp : { d with lists := Function.update d.lists c [], todo := rest }.HasAt c' j p) :
      d.HasAt c' j p := by
    simp only [HasAt] at hp
    by_cases hc : c' = c
    · subst hc
      rw [Function.update_self] at hp
      cases hp
    · rwa [Function.update_of_ne hc] at hp
  have hx := (List.pairwise_cons.1 (htodo ▸ h.ordered)).1
  exact ⟨hpop.ordered, fun c' j p hp => h.known c' j p (hsub hp),
    fun y hy hfail c' j p hp => hpop.fails y hy hfail c' j p (hsub hp),
    fun y hy c' k hk j p hj hp => hpop.kills y hy c' k hk j p hj (hsub hp),
    fun y hy c' k hk j p hj hp => hpop.waits y hy c' k hk j p hj (hsub hp),
    fun c1 j1 p1 c2 j2 p2 h1 h2 => h.unique c1 j1 p1 c2 j2 p2 (hsub h1) (hsub h2),
    headSound_of_atStart fun y hy => atStart_of_follows (hx y (List.mem_of_head? hy))⟩

/-- The config file is read. -/
theorem sound_parsed (hordered : todo.Pairwise fun x y => x.follows y = true)
    (hstart : ∀ x ∈ todo, x.atStart = true) (counts : Class → ℕ) :
    { d with lists := fun c => .replicate (counts c) procNew, todo := todo }.Sound pids reaped := by
  have hnew {c : Class} {i : ℕ} {p : Proc}
      (hp : { d with lists := fun c => .replicate (counts c) procNew, todo := todo }.HasAt c i p) :
      p = procNew := List.eq_of_mem_replicate (List.mem_of_getElem? hp)
  refine sound_of_live hordered (fun c i p hp => ?_) (fun c i p c' i' p' hp _ _ _ hne _ => ?_)
    (headSound_of_atStart fun x hx => hstart x (List.mem_of_head? hx))
  · rw [hnew hp]
    exact ⟨rfl, .inl rfl⟩
  · rw [hnew hp] at hne
    exact absurd rfl hne

/-- A process is forked. -/
theorem Sound.fork (h : d.Sound pids reaped) {c : Class} {i : ℕ}
    (htodo : d.todo = .procsCreate c i :: rest) {pid : ℤ} (hpos : 0 < pid) (hpid : pid ∉ pids) :
    { d with forkResult := pid, todo := .forked c i :: rest }.Sound (pid :: pids) reaped := by
  have hlive := h.fails _ (by rw [htodo]; exact List.mem_cons_self) rfl
  have ⟨hx, hrest⟩ := List.pairwise_cons.1 (htodo ▸ h.ordered)
  refine sound_of_live (List.pairwise_cons.2 ⟨hx, hrest⟩) (fun c' j p hp => ?_) h.unique
    (.inr ⟨List.mem_cons_self, fun c' j p hp heq => ?_⟩)
  · exact ⟨(hlive c' j p hp).1, (hlive c' j p hp).2.imp_right (List.mem_cons_of_mem _)⟩
  · have heq : p.procId = pid := heq
    rcases (hlive c' j p hp).2 with hp | hp
    · omega
    · exact hpid (heq ▸ hp)

/-- What holds after a step, with its effect on the other processes. -/
def EffectSound (d : Image) (pids reaped : List ℤ) : Effect → Prop
  | .none => d.Sound pids reaped
  | .fork pid =>
    (∃ c i p rest, d.todo = .forked c i :: rest ∧ d.HasAt c i p) ∧
      (0 < pid → pid ∉ pids → d.Sound (pid :: pids) reaped)
  | .exec => False
  | .kill target _ => d.Sound pids reaped ∧ target ∈ pids
  | .wait pid =>
    (pid ∉ pids → d.Sound pids reaped) ∧
      (pid ∈ pids → d.Sound (pids.filter (· ≠ pid)) (pid :: reaped))
  | .exit _ => True

theorem mem_todo (htodo : d.todo = x :: rest) : x ∈ d.todo := by
  rw [htodo]
  exact List.mem_cons_self

/-- A step which may fail. -/
theorem Sound.tries (h : d.Sound pids reaped) (htodo : d.todo = x :: rest)
    (hfail : x.mayFail = true) {a : Answer} {e : Effect} (hs : d.tries rest a = some (d', e)) :
    d'.EffectSound pids reaped e := by
  cases a with
  | ok =>
    cases hs
    exact h.pop htodo
  | failed =>
    cases hs
    exact h.terminate (h.fails x (mem_todo htodo) hfail) pairwise_error (by decide) d.handling
  | execFailed | parsed counts ok | pid pid | garbage procId => cases hs

/-- What is read of an item which is not freed. -/
theorem read_of_unfreed {p : Proc} (hp : p.freed = false) {a : Answer} {procId : ℤ}
    (hread : p.read a = some procId) : procId = p.procId := by
  cases a <;> simp [Proc.read, hp] at hread <;> exact hread.symm

/-- Killing a process of a list: it is a child which is not reaped. -/
theorem Sound.live_of_kills (h : d.Sound pids reaped) (htodo : d.todo = x :: rest) {c : Class}
    {i : ℕ} (hx : x.kills = some (c, i)) {p : Proc} (hp : d.HasAt c i p) : p.Live pids :=
  h.kills x (mem_todo htodo) c i hx i p le_rfl hp

/-- `procs_kill` at an item. -/
theorem Sound.kill (h : d.Sound pids reaped) {c : Class} {i : ℕ} {signal : Signal}
    (htodo : d.todo = .procsKill c i signal :: rest) {p : Proc} (hp : d.HasAt c i p) {a : Answer}
    {procId : ℤ} (hread : p.read a = some procId) :
    { d with todo := .procsKill c (i + 1) signal :: rest }.EffectSound pids reaped
      (if procId = -1 then .none else .kill procId signal) := by
  have hlive := h.live_of_kills htodo rfl hp
  obtain rfl := read_of_unfreed hlive.1 hread
  have hnext : { d with todo := .procsKill c (i + 1) signal :: rest }.Sound pids reaped := by
    refine h.advance htodo (fun _ h => h) ⟨id, fun c' k hk => ?_, nofun⟩ trivial
    cases hk
    exact ⟨i, Nat.le_succ i, rfl⟩
  split_ifs with hnone
  · exact hnext
  · exact ⟨hnext, hlive.2.resolve_left hnone⟩

/-- `procs_kill_and_wait` at an item: after `kill`, or past an item without process. -/
theorem Sound.killAndWait (h : d.Sound pids reaped) {c : Class} {i : ℕ}
    (htodo : d.todo = .procsKillAndWait c i :: rest) {p : Proc} (hp : d.HasAt c i p) {a : Answer}
    {procId : ℤ} (hread : p.read a = some procId) :
    { d with todo := .procsKillAndWait c (i + 1) :: rest }.Sound pids reaped ∧
      (procId ≠ -1 → { d with todo := .waitKilled c i procId :: rest }.Sound pids reaped ∧
        procId ∈ pids) := by
  have hlive := h.live_of_kills htodo rfl hp
  obtain rfl := read_of_unfreed hlive.1 hread
  refine ⟨h.advance htodo (fun _ h => h) ⟨id, fun c' k hk => ?_, fun c' k hk => ?_⟩ trivial,
    fun hnone => ⟨h.advance htodo (fun _ h => h) ⟨id, fun c' k hk => ?_, fun c' k hk => ?_⟩
      ⟨hnone, p, hp, hlive.1, rfl⟩, hlive.2.resolve_left hnone⟩⟩
  · cases hk
    exact ⟨i, Nat.le_succ i, rfl⟩
  · cases hk
    exact ⟨i, Nat.le_succ i, rfl⟩
  · cases hk
    exact ⟨i, Nat.le_succ i, rfl⟩
  · cases hk
    exact ⟨i, le_rfl, rfl⟩

/-- After waiting for the process of an item, the loop goes on with the next one. -/
theorem Sound.waited (h : d.Sound pids reaped) (htodo : d.todo = x :: rest) {c : Class} {i : ℕ}
    (hx : x.reaps = some c) {y : Instr} (hcovers : x.Covers y)
    (hfollows : ∀ z, x.follows z = true → y.follows z = true)
    (hkills : ∀ k, y.kills = some (c, k) → i < k)
    (hstart : y.atStart = true) (hfail : y.mayFail = false) {p : Proc} (hp : d.HasAt c i p)
    (hfreed : p.freed = false) (hpid : p.procId ≠ -1) :
    { d with todo := y :: rest }.EffectSound pids reaped (.wait p.procId) := by
  have hnext : { d with todo := y :: rest }.Sound pids reaped := by
    refine h.advance htodo hfollows hcovers (headSound_of_atStart fun z hz => ?_)
    obtain rfl : y = z := Option.some.inj hz
    exact hstart
  have hrest := (List.pairwise_cons.1 (htodo ▸ h.ordered)).1
  refine ⟨fun _ => hnext, fun _ => hnext.reap hp hfreed hpid (fun z hz => ?_)
    (fun z hz k hk => ?_) fun z hz => ?_⟩
  · rcases List.mem_cons.1 hz with rfl | hz
    · exact hfail
    · exact (follows_reaps (hrest z hz) hx).1
  · rcases List.mem_cons.1 hz with rfl | hz
    · exact fun hkill => absurd (hkills k hkill) hk.not_gt
    · exact (follows_reaps (hrest z hz) hx).2.1 k
  · rcases List.mem_cons.1 hz with rfl | hz
    · exact hstart
    · exact atStart_of_follows (hrest z hz)

/-- The checks after a `fork`. -/
theorem Sound.check (h : d.Sound pids reaped) (hpos : ∀ pid ∈ pids, 0 < pid) {c : Class} {i : ℕ}
    (htodo : d.todo = .check c i :: rest) {p : Proc} (hp : d.HasAt c i p) {e : Effect}
    (hs : (if p.procId = -1 then d.goesOn error
      else if p.procId = 0 then d.goesOn (.exec c i :: rest)
      else d.goesOn (.procsCreate c (i + 1) :: rest)) = some (d', e)) :
    d'.EffectSound pids reaped e := by
  have hlive := h.fails _ (mem_todo htodo) rfl
  split_ifs at hs with hnone hzero
  · cases hs
    exact h.terminate hlive pairwise_error (by decide) d.handling
  · -- The process is not a copy: what `fork` returned is not 0.
    rcases (hlive c i p hp).2 with hp | hp
    · omega
    · exact absurd (hpos _ hp) (by omega)
  · cases hs
    exact h.advance htodo (fun _ h => h) ⟨id, nofun, nofun⟩ trivial

/-- The step lemma. -/
theorem Sound.step (h : d.Sound pids reaped) (hpos : ∀ pid ∈ pids, 0 < pid) {a : Answer}
    {e : Effect} (hs : d.step a = some (d', e)) : d'.EffectSound pids reaped e := by
  rw [Image.step] at hs
  cases htodo : d.todo with
  | nil =>
    rw [htodo] at hs
    cases hs
  | cons x rest =>
    rw [htodo] at hs
    cases x with
    | parseCmdLineArgs | procsMakeArgv c | enterDeadline => exact h.tries htodo rfl hs
    | parseConfigFile =>
      have ⟨hx, hrest⟩ := List.pairwise_cons.1 (htodo ▸ h.ordered)
      cases a with
      | parsed counts ok =>
        cases hs
        cases ok
        · exact sound_parsed pairwise_error (by decide) counts
        · exact sound_parsed hrest (fun y hy => atStart_of_follows (hx y hy)) counts
      | ok | failed | execFailed | pid pid | garbage procId => cases hs
    | usleep =>
      cases hs
      exact h.pop htodo
    | procsCreate c i =>
      cases hp : (d.lists c)[i]? with
      | none =>
        simp only [hp] at hs
        cases hs
        exact h.pop htodo
      | some p =>
        cases a with
        | pid pid =>
          simp only [hp] at hs
          cases hs
          split_ifs with hnone
          · have ⟨hx, hrest⟩ := List.pairwise_cons.1 (htodo ▸ h.ordered)
            exact sound_of_live (List.pairwise_cons.2 ⟨hx, hrest⟩)
              (h.fails _ (mem_todo htodo) rfl) h.unique (.inl hnone)
          · exact ⟨⟨c, i, p, rest, rfl, hp⟩, h.fork htodo⟩
        | ok | failed | execFailed | parsed counts ok | garbage procId =>
          simp only [hp] at hs
          cases hs
    | forked c i =>
      cases hs
      exact h.record htodo
    | check c i =>
      cases hp : (d.lists c)[i]? with
      | none =>
        simp only [hp] at hs
        cases hs
      | some p =>
        simp only [hp] at hs
        exact h.check hpos htodo hp hs
    | exec c i =>
      have hhead := h.head
      simp only [HeadSound, htodo] at hhead
    | procsKill c i signal =>
      cases hp : (d.lists c)[i]? with
      | none =>
        simp only [hp] at hs
        cases hs
        exact h.pop htodo
      | some p =>
        simp only [hp] at hs
        obtain ⟨procId, hread, hs⟩ := Option.bind_eq_some_iff.1 hs
        cases hs
        exact h.kill htodo hp hread
    | procsKillAndWait c i =>
      cases hp : (d.lists c)[i]? with
      | none =>
        simp only [hp] at hs
        cases hs
        exact h.pop htodo
      | some p =>
        simp only [hp] at hs
        obtain ⟨procId, hread, hs⟩ := Option.bind_eq_some_iff.1 hs
        have hnext := h.killAndWait htodo hp hread
        split_ifs at hs with hnone
        · cases hs
          exact hnext.1
        · cases hs
          exact hnext.2 hnone
    | waitKilled c i procId =>
      cases hs
      have hhead := h.head
      simp only [HeadSound, htodo] at hhead
      obtain ⟨hnone, p, hp, hfreed, rfl⟩ := hhead
      have hcovers : (waitKilled c i p.procId).Covers (procsKillAndWait c (i + 1)) := by
        refine ⟨id, fun c' k hk => ?_, fun c' k hk => ?_⟩
        · cases hk
          exact ⟨i + 1, le_rfl, rfl⟩
        · cases hk
          exact ⟨i, Nat.le_succ i, rfl⟩
      refine h.waited htodo rfl hcovers (fun _ h => h) (fun k hk => ?_) rfl rfl hp hfreed hnone
      cases hk
      exact Nat.lt_succ_self i
    | procsWait c i =>
      cases hp : (d.lists c)[i]? with
      | none =>
        simp only [hp] at hs
        cases hs
        exact h.pop htodo
      | some p =>
        simp only [hp] at hs
        obtain ⟨procId, hread, hs⟩ := Option.bind_eq_some_iff.1 hs
        have hfreed := h.waits _ (mem_todo htodo) c i rfl i p le_rfl hp
        obtain rfl := read_of_unfreed hfreed hread
        have hcovers : (procsWait c i).Covers (procsWait c (i + 1)) := by
          refine ⟨id, nofun, fun c' k hk => ?_⟩
          cases hk
          exact ⟨i, Nat.le_succ i, rfl⟩
        cases hs
        split_ifs with hnone
        · exact h.advance htodo (fun _ h => h) hcovers trivial
        · exact h.waited htodo rfl hcovers (fun _ h => h) nofun rfl rfl hp hfreed hnone
    | procsFree c i =>
      simp only at hs
      split_ifs at hs with hi
      · cases hs
        exact h.free htodo
      · cases hs
        exact h.clear htodo
    | exit | quit =>
      cases hs
      trivial

end Image

/-! ## The copies -/

/-- A copy of the driver, on its way to `exec`. -/
def Image.CopySound (d : Image) : Prop :=
  match d.todo with
  | .forked c i :: _ => d.forkResult = 0 ∧ ∃ p, d.HasAt c i p
  | .check c i :: _ => ∃ p, d.HasAt c i p ∧ p.procId = 0
  | .exec _ _ :: _ => True
  | _ => False

/-- A copy whose `exec` succeeds signals nobody, and becomes a program. -/
theorem Image.CopySound.step {d d' : Image} (h : d.CopySound) {a : Answer} {e : Effect}
    (ha : a ≠ .execFailed) (hs : d.step a = some (d', e)) :
    e = .none ∧ d'.CopySound ∨ e = .exec := by
  unfold CopySound at h
  rw [Image.step] at hs
  split at h
  · next c i rest htodo =>
    simp only [htodo] at hs
    cases hs
    obtain ⟨hzero, p, hp⟩ := h
    exact .inl ⟨rfl, _, Image.hasAt_modify.2 ⟨p, hp, rfl⟩, by simpa using hzero⟩
  · next c i rest htodo =>
    obtain ⟨p, hp, hzero⟩ := h
    have hp : (d.lists c)[i]? = some p := hp
    simp only [htodo, hp, hzero] at hs
    cases hs
    exact .inl ⟨rfl, trivial⟩
  · next c i rest htodo =>
    simp only [htodo] at hs
    cases a with
    | ok =>
      cases hs
      exact .inr rfl
    | execFailed => exact absurd rfl ha
    | failed | parsed counts ok | pid pid | garbage procId => cases hs
  · exact h.elim

/-! ## The processes -/

/-- Every `exec` succeeds, SIGINT is not taken by a copy of the driver, and it is taken by the
    driver only when its lists have no process that was reaped and no item that was freed. -/
def Orderly (s : State) : Label → Prop
  | .run _ .execFailed => False
  | .sigint .driver => ∀ d ∈ s.driver, ∀ c, ∀ p ∈ d.lists c, p.freed = false ∧ p.procId ∉ s.reaped
  | .sigint (.child _) => False
  | _ => True

instance (s : State) : ∀ l, Decidable (Orderly s l)
  | .run _ .execFailed | .sigint (.child _) => inferInstanceAs (Decidable False)
  | .sigint .driver =>
    inferInstanceAs (Decidable (∀ d ∈ s.driver, ∀ c, ∀ p ∈ d.lists c,
      p.freed = false ∧ p.procId ∉ s.reaped))
  | .run _ .ok | .run _ .failed | .run _ (.parsed _ _) | .run _ (.pid _) | .run _ (.garbage _)
  | .program _ _ => inferInstanceAs (Decidable True)

namespace State

variable {s s' : State} {pid : ℤ} {child : Child}

theorem pids_setChild (s : State) (pid : ℤ) (child : Child) :
    (s.setChild pid child).pids = s.pids := by
  rw [pids, setChild, pids, List.map_map]
  refine List.map_congr_left fun c _ => ?_
  by_cases hc : c.1 = pid
  · simp [hc]
  · simp [hc]

theorem mem_of_child? (h : s.child? pid = some child) : (pid, child) ∈ s.children := by
  obtain ⟨c, hc, rfl⟩ := Option.map_eq_some_iff.1 h
  have hpid : c.1 = pid := by simpa using List.find?_some hc
  exact hpid ▸ List.mem_of_find?_eq_some hc

theorem mem_setChild {pid' : ℤ} {child' : Child}
    (h : (pid', child') ∈ (s.setChild pid child).children) :
    (pid', child') ∈ s.children ∨ child' = child := by
  obtain ⟨c, hc, heq⟩ := List.mem_map.1 h
  split_ifs at heq
  · exact .inr (congrArg Prod.snd heq).symm
  · exact .inl (heq ▸ hc)

/-- A signal changes a child only if it ends it. -/
theorem signalled_eq (signal : Signal) (child : Child) :
    child.signalled signal = child ∨ child.signalled signal = .dead := by
  cases child with
  | copy d | dead => exact .inr rfl
  | program defaultGov =>
    rw [Child.signalled]
    split_ifs
    · exact .inr rfl
    · exact .inl rfl

theorem pids_deliver {target : ℤ} (htarget : 0 < target) (signal : Signal) :
    (s.deliver target signal).pids = s.pids := by
  rw [deliver, if_neg (by omega), pids, pids, List.map_map]
  refine List.map_congr_left fun c _ => ?_
  rw [Function.comp]
  split_ifs <;> rfl

theorem mem_deliver {target : ℤ} (htarget : 0 < target) {signal : Signal} {pid' : ℤ}
    {child' : Child} (h : (pid', child') ∈ (s.deliver target signal).children) :
    (pid', child') ∈ s.children ∨ child' = .dead := by
  rw [deliver, if_neg (by omega)] at h
  obtain ⟨c, hc, heq⟩ := List.mem_map.1 h
  split_ifs at heq
  · cases heq
    rcases signalled_eq signal c.2 with hsame | hdead
    · exact .inl (by rwa [hsame])
    · exact .inr hdead
  · exact .inl (heq ▸ hc)

end State

/-- What holds of the processes. -/
structure Sound (s : State) : Prop where
  pos : ∀ pid ∈ s.pids, 0 < pid
  driver : ∀ d, s.driver = some d → d.Sound s.pids s.reaped
  copies : ∀ pid d, (pid, .copy d) ∈ s.children → d.CopySound
  kills : ∀ k ∈ s.kills, 0 < k.target ∧ k.target ∈ k.children

theorem sound_start (governor : String) :
    Sound ⟨"userspace", some (.start governor), [], [], []⟩ := by
  refine ⟨nofun, fun d hd => ?_, nofun, nofun⟩
  cases hd
  exact Image.sound_of_live pairwise_main nofun nofun trivial

/-- A child changes, and is no new copy. -/
theorem Sound.setChild {s : State} (h : Sound s) (pid : ℤ) {child : Child}
    (hcopy : ∀ d, child = .copy d → d.CopySound) : Sound (s.setChild pid child) where
  pos := by
    rw [State.pids_setChild]
    exact h.pos
  driver := by
    rw [State.pids_setChild]
    exact h.driver
  copies pid' d hd := by
    rcases State.mem_setChild hd with hd | hd
    · exact h.copies pid' d hd
    · exact hcopy d hd.symm
  kills := h.kills

/-- The driver changes. -/
theorem Sound.setDriver {s : State} (h : Sound s) {d : Image} (hd : d.Sound s.pids s.reaped) :
    Sound (s.setImage d .driver) where
  pos := h.pos
  driver d' hd' := by
    cases hd'
    exact hd
  copies := h.copies
  kills := h.kills

/-- A child is signalled. -/
theorem Sound.deliver {s : State} (h : Sound s) {target : ℤ} (htarget : target ∈ s.pids)
    (signal : Signal) : Sound (s.deliver target signal) := by
  have hpos := h.pos target htarget
  have hpids := s.pids_deliver hpos signal
  have hother : (s.deliver target signal).driver = s.driver ∧
      (s.deliver target signal).reaped = s.reaped ∧
      (s.deliver target signal).kills = s.kills ++ [⟨target, s.pids⟩] := by
    rw [State.deliver, if_neg (by omega)]
    exact ⟨rfl, rfl, rfl⟩
  obtain ⟨hdriver, hreaped, hkills⟩ := hother
  refine ⟨?_, ?_, fun pid d hd => ?_, fun k hk => ?_⟩
  · rw [hpids]
    exact h.pos
  · rw [hpids, hdriver, hreaped]
    exact h.driver
  · rcases State.mem_deliver hpos hd with hd | hd
    · exact h.copies pid d hd
    · cases hd
  · rw [hkills] at hk
    rcases List.mem_append.1 hk with hk | hk
    · exact h.kills k hk
    · rw [List.mem_singleton.1 hk]
      exact ⟨hpos, htarget⟩

/-- The governor does not matter. -/
theorem Sound.setGovernor {s : State} (h : Sound s) (governor : String) :
    Sound { s with governor := governor } := ⟨h.pos, h.driver, h.copies, h.kills⟩

/-- A child is reaped. -/
theorem Sound.reap {s : State} (h : Sound s) {d : Image} {pid : ℤ}
    (hd : d.Sound (s.pids.filter (· ≠ pid)) (pid :: s.reaped)) :
    Sound { s with
      driver := some d
      children := s.children.filter fun c => c.1 ≠ pid
      reaped := pid :: s.reaped } := by
  have hpids : (s.children.filter fun c => c.1 ≠ pid).map Prod.fst = s.pids.filter (· ≠ pid) := by
    rw [State.pids, List.filter_map]
    rfl
  refine ⟨fun pid' hpid' => h.pos pid' ?_, fun d' hd' => ?_, fun pid' d' hd' =>
    h.copies pid' d' (List.mem_of_mem_filter hd'), h.kills⟩
  · rw [State.pids, hpids] at hpid'
    exact List.mem_of_mem_filter hpid'
  · cases hd'
    rw [State.pids, hpids]
    exact hd

/-- A step of the driver. -/
theorem Sound.runDriver {s s' : State} (h : Sound s) {d d' : Image} {a : Answer} {e : Effect}
    (hd : s.driver = some d) (hstep : d.step a = some (d', e))
    (hs : s.effect .driver d' e = some s') : Sound s' := by
  have heffect := (h.driver d hd).step h.pos hstep
  cases e with
  | none =>
    cases hs
    exact h.setDriver heffect
  | fork pid =>
    obtain ⟨⟨c, i, p, rest, htodo, hp⟩, hfork⟩ := heffect
    rw [State.effect] at hs
    split_ifs at hs with hpid
    cases hs
    refine ⟨List.forall_mem_cons.2 ⟨hpid.2.1, h.pos⟩, fun d'' hd'' => ?_, fun pid' d'' hd'' => ?_,
      h.kills⟩
    · cases hd''
      exact hfork hpid.2.1 hpid.2.2
    · rcases List.mem_cons.1 hd'' with hd'' | hd''
      · cases hd''
        simp only [Image.CopySound, htodo]
        exact ⟨trivial, p, hp⟩
      · exact h.copies pid' d'' hd''
  | exec => exact heffect.elim
  | kill target signal =>
    cases hs
    exact (h.setDriver heffect.1).deliver heffect.2 signal
  | wait pid =>
    rw [State.effect] at hs
    split_ifs at hs with hpid
    · split at hs
      · cases hs
        exact h.reap (heffect.2 hpid.2)
      · cases hs
    · cases hs
      exact h.setDriver (heffect.1 fun hmem => hpid ⟨rfl, hmem⟩)
  | exit restore =>
    cases hs
    exact ⟨h.pos, nofun, h.copies, h.kills⟩

/-- A step of a copy. -/
theorem Sound.runCopy {s s' : State} (h : Sound s) {pid : ℤ} {d d' : Image} {a : Answer}
    {e : Effect} (hd : s.child? pid = some (.copy d)) (ha : a ≠ .execFailed)
    (hstep : d.step a = some (d', e)) (hs : s.effect (.child pid) d' e = some s') : Sound s' := by
  rcases (h.copies pid d (State.mem_of_child? hd)).step ha hstep with ⟨rfl, hd'⟩ | rfl
  · cases hs
    refine h.setChild pid fun d'' hd'' => ?_
    cases hd''
    exact hd'
  · cases hs
    exact h.setChild pid nofun

/-- A step of a program. -/
theorem Sound.programStep {s s' : State} (h : Sound s) {pid : ℤ} {defaultGov : Option String}
    {event : ProgramEvent} (hs : s.programStep pid defaultGov event = some s') : Sound s' := by
  cases event with
  | save =>
    cases defaultGov with
    | none =>
      cases hs
      exact h.setChild pid nofun
    | some _ => cases hs
  | set =>
    cases defaultGov with
    | none => cases hs
    | some _ =>
      cases hs
      exact h.setGovernor _
  | exit =>
    have hdead : Sound (s.setChild pid .dead) := h.setChild pid nofun
    cases defaultGov <;> cases hs <;> exact hdead.setGovernor _
  | die =>
    cases defaultGov <;> cases hs <;> exact h.setChild pid nofun

theorem child?_of_image? {s : State} {pid : ℤ} {d : Image} (hd : s.image? (.child pid) = some d) :
    s.child? pid = some (.copy d) := by
  rw [State.image?] at hd
  split at hd
  · next hchild =>
    cases hd
    exact hchild
  · cases hd

/-- The driver takes SIGINT. -/
theorem Sound.interrupt {s : State} (h : Sound s) {d : Image} (hd : s.driver = some d)
    (ho : Orderly s (.sigint .driver)) : Sound (s.setImage d.interrupt .driver) := by
  have hsound := h.driver d hd
  refine h.setDriver (hsound.terminate (fun c i p hp => ?_) pairwise_sighandler (by decide) true)
  have ⟨hfreed, hreaped⟩ := ho d hd c p (List.mem_of_getElem? hp)
  refine ⟨hfreed, (hsound.known c i p hp hfreed).imp_right fun hp => ?_⟩
  exact hp.resolve_right hreaped

/-- The step lemma. -/
theorem Sound.next {governor : String} {s s' : State} {l : Label} (h : Sound s)
    (ho : Orderly s l) (hs : (system governor).next s l = some s') : Sound s' := by
  cases l with
  | run who a =>
    obtain ⟨d, hd, hs⟩ := Option.bind_eq_some_iff.1 hs
    obtain ⟨⟨d', e⟩, hstep, hs⟩ := Option.bind_eq_some_iff.1 hs
    cases who with
    | driver => exact h.runDriver hd hstep hs
    | child pid =>
      refine h.runCopy (child?_of_image? hd) (fun ha => ?_) hstep hs
      rw [ha] at ho
      exact ho
  | sigint who =>
    obtain ⟨d, hd, hs⟩ := Option.bind_eq_some_iff.1 hs
    split_ifs at hs
    cases hs
    cases who with
    | driver => exact h.interrupt hd ho
    | child pid => exact ho.elim
  | program pid event =>
    simp only [system] at hs
    split at hs
    · exact h.programStep hs
    · cases hs

/-- The run lemma. -/
theorem Run.sound {governor : String} {ls : List Label} {s : State}
    (hr : ((system governor).guard Orderly).Run ls s) : Sound s := by
  refine hr.state_invariant (fun s hs => ?_) fun s l s' hs hst => ?_
  · obtain rfl := Set.mem_singleton_iff.1 hs
    exact sound_start governor
  · obtain ⟨ho, hst⟩ := Lts.guard_next_iff.1 hst
    exact hs.next ho hst

/-- In every orderly run, whatever is signalled is a child of the driver which it has not reaped,
    by its positive ID. -/
theorem Run.signals_children {governor : String} {ls : List Label} {s : State}
    (hr : ((system governor).guard Orderly).Run ls s) :
    ∀ k ∈ s.kills, 0 < k.target ∧ k.target ∈ k.children := (Run.sound hr).kills

/-- The steps up to the `fork` of a server, which is the only line of the config file. -/
def untilFork : List Label :=
  [.run .driver .ok, .run .driver (.parsed (fun c => if c = .server then 1 else 0) true),
    .run .driver .ok, .run .driver .ok, .run .driver .ok, .run .driver .ok, .run .driver .ok,
    .run .driver (.pid 7)]

/-- The driver fails after the `fork`, and kills the server. -/
theorem Run.signals_children_failing :
    ∃ s : State, s.kills = [⟨7, [7]⟩] ∧ ∀ k ∈ s.kills, 0 < k.target ∧ k.target ∈ k.children := by
  obtain ⟨s, hs, hkills⟩ : ∃ s, ((system "ondemand").guard Orderly).exec
      ⟨"userspace", some (.start "ondemand"), [], [], []⟩
      (untilFork ++ [.run .driver .ok, .run .driver .ok, .run .driver .ok, .run .driver .failed,
        .run .driver .ok]) = some s ∧ s.kills = [⟨7, [7]⟩] := Option.map_eq_some_iff.1 rfl
  exact ⟨s, hkills, signals_children (Lts.run_of_exec rfl hs)⟩

/-- When its `exec` fails, the copy of the driver kills its group, by the ID 0. When SIGINT comes
    while the driver waits for the programs that it has stopped, a process may be killed which it
    has reaped. -/
theorem signals_strangers :
    (∃ s, (system "ondemand").Run
        (untilFork ++ [.run (.child 7) .ok, .run (.child 7) .ok, .run (.child 7) .execFailed,
          .run (.child 7) .ok]) s ∧
      ∃ k ∈ s.kills, k.target = 0) ∧
    ∃ s, (system "ondemand").Run
        (untilFork ++ [.run (.child 7) .ok, .run (.child 7) .ok, .run (.child 7) .ok] ++
          .replicate 27 (.run .driver .ok) ++
          [.program 7 .die, .run .driver .ok, .sigint .driver, .run .driver .ok]) s ∧
      ∃ k ∈ s.kills, k.target ∉ k.children :=
  ⟨⟨_, Lts.run_of_exec rfl rfl, _, List.mem_singleton_self _, rfl⟩,
    ⟨_, Lts.run_of_exec rfl rfl, ⟨7, []⟩, .tail _ (.head _), List.not_mem_nil⟩⟩

end RealtimeTests.Driver
