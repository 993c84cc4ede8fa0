import RealtimeTests.Driver.Signals

/-!
# The governor after an experiment

The driver restores the governor that it found when it exits. The programs, which are started
later, have found and restore the governor that the driver set: the last one to write is the
driver, provided that it exits, and reaps all its children before.

It does in every run in which every `exec` succeeds and nobody takes SIGINT
(`Run.governor_restored`): each child that is not reaped is in a list which is still to be waited
for (`Image.Reaping`). On SIGINT it ends by `_exit`, without its exit handlers
(`governor_not_restored`).
-/

namespace RealtimeTests.Driver

open Instr

namespace Instr

/-- The list whose processes it forks, from an index on. -/
def creates : Instr → Option (Class × ℕ)
  | procsCreate c i | forked c i => some (c, i)
  | check c i | exec c i => some (c, i + 1)
  | _ => none

/-- `y` may come after `x`: the config file is read once, first, and each list is created once. -/
def precedes (x y : Instr) : Bool :=
  (y != parseConfigFile || x == parseCmdLineArgs) &&
    match x.creates with
    | none => true
    | some (c, _) => y.creates.map Prod.fst != some c

end Instr

theorem precedes_main : main.Pairwise fun x y => x.precedes y = true := by decide

theorem precedes_error : error.Pairwise fun x y => x.precedes y = true := by decide

theorem ne_parseConfigFile_of_precedes {x y : Instr} (h : x.precedes y = true)
    (hx : x ≠ parseCmdLineArgs) : y ≠ parseConfigFile := by
  intro hy
  simp only [precedes, hy, bne_self_eq_false, Bool.false_or, Bool.and_eq_true, beq_iff_eq] at h
  exact hx h.1

theorem creates_ne_of_precedes {x y : Instr} (h : x.precedes y = true) {c : Class} {k : ℕ}
    (hx : x.creates = some (c, k)) (k' : ℕ) : y.creates ≠ some (c, k') := by
  intro hy
  simp only [precedes, hx, hy, Option.map_some, bne_self_eq_false, Bool.and_false,
    Bool.false_eq_true] at h

/-! ## The children to be reaped -/

/-- The child `pid` is yet to be waited for. -/
def Image.Awaits (d : Image) (pid : ℤ) : Prop :=
  ∃ c i p, d.HasAt c i p ∧ p.freed = false ∧ p.procId = pid ∧
    ∃ x ∈ d.todo, ∃ k ≤ i, x.waits = some (c, k)

/-- All the children of the driver will be reaped before it exits. -/
structure Image.Reaping (d : Image) (pids : List ℤ) : Prop where
  ordered : d.todo.Pairwise fun x y => x.precedes y = true
  graceful : quit ∉ d.todo
  early : parseConfigFile ∈ d.todo → pids = []
  /-- After an error, and in any case before, all the lists are waited for. -/
  fails : ∀ x ∈ d.todo, x.mayFail = true → ∀ c, ∃ y ∈ d.todo, y.waits = some (c, 0)
  unstarted : ∀ x ∈ d.todo, ∀ c k, x.creates = some (c, k) → ∀ i p, k ≤ i → d.HasAt c i p →
    p.procId = -1
  /-- The last one may not be recorded yet. -/
  awaits : ∀ pid ∈ pids, (∃ c i rest p, d.todo = forked c i :: rest ∧ d.HasAt c i p ∧
    d.forkResult = pid) ∨ d.Awaits pid

namespace Image

variable {d d' : Image} {pids reaped : List ℤ} {x : Instr} {rest todo : List Instr} {c : Class}
  {i : ℕ}

/-- A step which waits reaps a list, and may not fail. -/
theorem reaps_of_waits {c : Class} {k : ℕ} (hx : x.waits = some (c, k)) :
    x.reaps = some c ∧ x.mayFail = false := by
  cases x <;> cases hx <;> exact ⟨rfl, rfl⟩

/-- A child that is awaited and recorded. -/
theorem Reaping.recorded (h : d.Reaping pids) (htodo : d.todo = x :: rest)
    (hx : ∀ c i, x ≠ forked c i) {pid : ℤ} (hpid : pid ∈ pids) : d.Awaits pid := by
  refine (h.awaits pid hpid).resolve_left ?_
  rintro ⟨c, i, rest', p, htodo', -⟩
  exact hx c i (List.cons.inj (htodo.symm.trans htodo')).1

/-- The next step goes on by `todo`, which does what follows the step, and may wait for the rest of
    the list that it waits for. -/
theorem Reaping.resume (h : d.Reaping pids) (hs : d.todo.Pairwise fun x y => x.follows y = true)
    (htodo : d.todo = x :: rest) (hx : ∀ c i, x ≠ forked c i) (hrest : ∀ y ∈ rest, y ∈ todo)
    (hordered : todo.Pairwise fun x y => x.precedes y = true)
    (hmem : ∀ y ∈ todo, y ∈ rest ∨ (y.mayFail = true → x.mayFail = true) ∧ y ≠ quit ∧
      y ≠ parseConfigFile ∧ ∀ c k, y.creates = some (c, k) → ∃ k' ≤ k, x.creates = some (c, k'))
    (hwaits : ∀ c k, x.waits = some (c, k) → ∀ i p, k ≤ i → d.HasAt c i p → p.procId ∈ pids →
      ∃ y ∈ todo, ∃ k' ≤ i, y.waits = some (c, k')) :
    { d with todo := todo }.Reaping pids := by
  have hx' : x ∈ d.todo := mem_todo htodo
  have hsub {y : Instr} (hy : y ∈ rest) : y ∈ d.todo := by
    rw [htodo]
    exact List.mem_cons_of_mem _ hy
  have hfollows := (List.pairwise_cons.1 (htodo ▸ hs)).1
  refine ⟨hordered, fun hquit => ?_, fun hparse => ?_, fun y hy hfail c => ?_,
    fun y hy c k hk i p hi hp => ?_, fun pid hpid => .inr ?_⟩
  · rcases hmem _ hquit with hy | hy
    · exact h.graceful (hsub hy)
    · exact hy.2.1 rfl
  · rcases hmem _ hparse with hy | hy
    · exact h.early (hsub hy)
    · exact absurd rfl hy.2.2.1
  · -- The steps which wait for the lists are still to be done, as one that may fail is.
    have hfail' : ∃ z ∈ d.todo, z.mayFail = true := by
      rcases hmem y hy with hy | hy
      · exact ⟨y, hsub hy, hfail⟩
      · exact ⟨x, hx', hy.1 hfail⟩
    obtain ⟨z, hz, hfailz⟩ := hfail'
    obtain ⟨w, hw, hwait⟩ := h.fails z hz hfailz c
    rw [htodo] at hw
    rcases List.mem_cons.1 hw with rfl | hw
    · have ⟨hreaps, hnofail⟩ := reaps_of_waits hwait
      rcases hmem y hy with hy | hy
      · rw [(follows_reaps (hfollows y hy) hreaps).1] at hfail
        cases hfail
      · exact absurd (hy.1 hfail) (by rw [hnofail]; exact Bool.false_ne_true)
    · exact ⟨w, hrest w hw, hwait⟩
  · rcases hmem y hy with hy | hy
    · exact h.unstarted y (hsub hy) c k hk i p hi hp
    · obtain ⟨k', hk', hcreate⟩ := hy.2.2.2 c k hk
      exact h.unstarted x hx' c k' hcreate i p (hk'.trans hi) hp
  · obtain ⟨c, i, p, hp, hfreed, rfl, y, hy, k, hk, hwait⟩ := h.recorded htodo hx hpid
    refine ⟨c, i, p, hp, hfreed, rfl, ?_⟩
    rw [htodo] at hy
    rcases List.mem_cons.1 hy with rfl | hy
    · exact hwaits c k hwait i p hk hp hpid
    · exact ⟨y, hrest y hy, k, hk, hwait⟩

/-- The next step is done; if it waits for a list, this has no more items. -/
theorem Reaping.pop (h : d.Reaping pids) (hs : d.todo.Pairwise fun x y => x.follows y = true)
    (htodo : d.todo = x :: rest) (hx : ∀ c i, x ≠ forked c i)
    (hend : ∀ c k, x.waits = some (c, k) → (d.lists c)[k]? = none) :
    { d with todo := rest }.Reaping pids := by
  refine h.resume hs htodo hx (fun y hy => hy) (List.pairwise_cons.1 (htodo ▸ h.ordered)).2
    (fun y hy => .inl hy) fun c k hk i p hi hp _ => ?_
  have hlen := List.getElem?_eq_none_iff.1 (hend c k hk)
  have hlt := (List.getElem?_eq_some_iff.1 hp).1
  omega

/-- The next step goes on. -/
theorem Reaping.advance (h : d.Reaping pids) (hs : d.todo.Pairwise fun x y => x.follows y = true)
    (htodo : d.todo = x :: rest) (hx : ∀ c i, x ≠ forked c i) {y : Instr}
    (hprecedes : ∀ z, x.precedes z = true → y.precedes z = true)
    (hfail : y.mayFail = true → x.mayFail = true) (hquit : y ≠ quit) (hparse : y ≠ parseConfigFile)
    (hcreates : ∀ c k, y.creates = some (c, k) → ∃ k' ≤ k, x.creates = some (c, k'))
    (hwaits : ∀ c k, x.waits = some (c, k) → ∀ i p, k ≤ i → d.HasAt c i p → p.procId ∈ pids →
      ∃ k' ≤ i, y.waits = some (c, k')) :
    { d with todo := y :: rest }.Reaping pids := by
  have ⟨hhead, hrest⟩ := List.pairwise_cons.1 (htodo ▸ h.ordered)
  refine h.resume hs htodo hx (fun z hz => List.mem_cons_of_mem _ hz)
    (List.pairwise_cons.2 ⟨fun z hz => hprecedes z (hhead z hz), hrest⟩) (fun z hz => ?_)
    fun c k hk i p hi hp hpid => ⟨y, List.mem_cons_self, hwaits c k hk i p hi hp hpid⟩
  rcases List.mem_cons.1 hz with rfl | hz
  · exact .inr ⟨hfail, hquit, hparse, hcreates⟩
  · exact .inl hz

/-- `error` kills and waits for all the lists. -/
theorem Reaping.error (h : d.Reaping pids) (htodo : d.todo = x :: rest)
    (hx : ∀ c i, x ≠ forked c i) : { d with todo := Driver.error }.Reaping pids := by
  have hnofail : ∀ y ∈ Driver.error, y.mayFail = false := by decide
  have hnocreate : ∀ y ∈ Driver.error, y.creates = none := by decide
  have hwaits : ∀ c, ∃ y ∈ Driver.error, y.waits = some (c, 0) := by decide
  have hquit : quit ∉ Driver.error := by decide
  have hparse : parseConfigFile ∉ Driver.error := by decide
  refine ⟨precedes_error, hquit, fun hmem => absurd hmem hparse,
    fun y hy hfail => ?_, fun y hy c k hk => ?_, fun pid hpid => .inr ?_⟩
  · rw [hnofail y hy] at hfail
    cases hfail
  · rw [hnocreate y hy] at hk
    cases hk
  · obtain ⟨c, i, p, hp, hfreed, rfl, -⟩ := h.recorded htodo hx hpid
    obtain ⟨y, hy, hwait⟩ := hwaits c
    exact ⟨c, i, p, hp, hfreed, rfl, y, hy, 0, Nat.zero_le i, hwait⟩

/-- The config file is read: there are no children yet. -/
theorem Reaping.parsed (h : d.Reaping pids) (hs : d.todo.Pairwise fun x y => x.follows y = true)
    (htodo : d.todo = parseConfigFile :: rest) (counts : Class → ℕ) (ok : Bool) :
    { d with
      lists := fun c => .replicate (counts c) procNew
      todo := if ok then rest else Driver.error }.Reaping pids := by
  obtain rfl := h.early (mem_todo htodo)
  have hnext : { d with todo := if ok then rest else Driver.error }.Reaping [] := by
    cases ok
    · exact h.error htodo nofun
    · exact h.pop hs htodo nofun nofun
  refine ⟨hnext.ordered, hnext.graceful, hnext.early, hnext.fails,
    fun _ _ c _ _ i p _ hp => ?_, nofun⟩
  have hnew : p = procNew := List.eq_of_mem_replicate (List.mem_of_getElem? hp)
  rw [hnew]
  rfl

/-- A process is forked. -/
theorem Reaping.fork (h : d.Reaping pids) (htodo : d.todo = procsCreate c i :: rest) {p : Proc}
    (hp : d.HasAt c i p) (pid : ℤ) :
    { d with forkResult := pid, todo := forked c i :: rest }.Reaping (pid :: pids) := by
  have ⟨hhead, hrest⟩ := List.pairwise_cons.1 (htodo ▸ h.ordered)
  have hsub {y : Instr} (hy : y ∈ rest) : y ∈ d.todo := by
    rw [htodo]
    exact List.mem_cons_of_mem _ hy
  refine ⟨List.pairwise_cons.2 ⟨hhead, hrest⟩, fun hquit => ?_, fun hparse => ?_,
    fun y hy hfail c' => ?_, fun y hy c' k hk j q hj hq => ?_, fun pid' hpid' => ?_⟩
  · rcases List.mem_cons.1 hquit with hquit | hquit
    · cases hquit
    · exact h.graceful (hsub hquit)
  · rcases List.mem_cons.1 hparse with hparse | hparse
    · cases hparse
    · exact absurd rfl (ne_parseConfigFile_of_precedes (hhead _ hparse) nofun)
  · obtain ⟨z, hz, hwait⟩ := h.fails _ (mem_todo htodo) rfl c'
    rw [htodo] at hz
    rcases List.mem_cons.1 hz with rfl | hz
    · cases hwait
    · exact ⟨z, List.mem_cons_of_mem _ hz, hwait⟩
  · rcases List.mem_cons.1 hy with rfl | hy
    · exact h.unstarted _ (mem_todo htodo) c' k hk j q hj hq
    · exact h.unstarted y (hsub hy) c' k hk j q hj hq
  · rcases List.mem_cons.1 hpid' with rfl | hpid'
    · exact .inl ⟨c, i, rest, p, rfl, hp, rfl⟩
    · obtain ⟨c', j, q, hq, hfreed, rfl, y, hy, k, hk, hwait⟩ := h.recorded htodo nofun hpid'
      rw [htodo] at hy
      rcases List.mem_cons.1 hy with rfl | hy
      · cases hwait
      · exact .inr ⟨c', j, q, hq, hfreed, rfl, y, List.mem_cons_of_mem _ hy, k, hk, hwait⟩

/-- The child is recorded, in an item which has none. -/
theorem Reaping.record (h : d.Reaping pids) (hs : d.Sound pids reaped)
    (hpos : ∀ pid ∈ pids, 0 < pid) (htodo : d.todo = forked c i :: rest) :
    { d.modify c i (fun p => { p with procId := d.forkResult }) with
      todo := check c i :: rest }.Reaping pids := by
  have ⟨hhead, hrest⟩ := List.pairwise_cons.1 (htodo ▸ h.ordered)
  have hsub {y : Instr} (hy : y ∈ rest) : y ∈ d.todo := by
    rw [htodo]
    exact List.mem_cons_of_mem _ hy
  have hwaits (c' : Class) : ∃ y ∈ check c i :: rest, y.waits = some (c', 0) := by
    obtain ⟨y, hy, hwait⟩ := h.fails _ (mem_todo htodo) rfl c'
    rw [htodo] at hy
    rcases List.mem_cons.1 hy with rfl | hy
    · cases hwait
    · exact ⟨y, List.mem_cons_of_mem _ hy, hwait⟩
  refine ⟨List.pairwise_cons.2 ⟨hhead, hrest⟩, fun hquit => ?_, fun hparse => ?_,
    fun y hy hfail c' => hwaits c', fun y hy c' k hk j q hj hq => ?_, fun pid hpid => .inr ?_⟩
  · rcases List.mem_cons.1 hquit with hquit | hquit
    · cases hquit
    · exact h.graceful (hsub hquit)
  · rcases List.mem_cons.1 hparse with hparse | hparse
    · cases hparse
    · exact absurd rfl (ne_parseConfigFile_of_precedes (hhead _ hparse) nofun)
  · -- Neither the rest of the list nor the lists after it have the item.
    obtain ⟨q, hat, rfl⟩ := hasAt_modify.1 hq
    rcases List.mem_cons.1 hy with rfl | hy
    · cases hk
      rw [if_neg fun hij => by omega]
      exact h.unstarted _ (mem_todo htodo) c i rfl j q (by omega) hat
    · have hc : c' ≠ c := fun hc => creates_ne_of_precedes (hhead y hy) rfl k (hc ▸ hk)
      rw [if_neg fun hij => hc hij.1]
      exact h.unstarted y (hsub hy) c' k hk j q hj hat
  · have hlive := hs.fails _ (mem_todo htodo) rfl
    rcases h.awaits pid hpid with
      ⟨c', j, rest', p, htodo', hp, rfl⟩ | ⟨c', j, p, hp, hfreed, rfl, -⟩
    · obtain ⟨rfl, rfl⟩ : c = c' ∧ i = j := by
        have heq := (List.cons.inj (htodo.symm.trans htodo')).1
        injection heq with hc hi
        exact ⟨hc, hi⟩
      obtain ⟨y, hy, hwait⟩ := hwaits c
      exact ⟨c, i, { p with procId := d.forkResult }, hasAt_modify.2 ⟨p, hp, by simp⟩,
        (hlive c i p hp).1, rfl, y, hy, 0, Nat.zero_le i, hwait⟩
    · -- The item had no process, so that it is another one.
      have hne : ¬(c' = c ∧ j = i) := by
        rintro ⟨rfl, rfl⟩
        have hnone := h.unstarted _ (mem_todo htodo) c' j rfl j p le_rfl hp
        have := hpos _ hpid
        omega
      obtain ⟨y, hy, hwait⟩ := hwaits c'
      exact ⟨c', j, p, hasAt_modify.2 ⟨p, hp, (if_neg hne).symm⟩, hfreed, rfl, y, hy, 0,
        Nat.zero_le j, hwait⟩

/-- There are fewer children. -/
theorem Reaping.mono (h : d.Reaping pids) {pids' : List ℤ} (hsub : ∀ pid ∈ pids', pid ∈ pids) :
    d.Reaping pids' where
  ordered := h.ordered
  graceful := h.graceful
  early hparse := List.eq_nil_iff_forall_not_mem.2 fun pid hpid => by
    have hpid := hsub pid hpid
    rw [h.early hparse] at hpid
    exact List.not_mem_nil hpid
  fails := h.fails
  unstarted := h.unstarted
  awaits pid hpid := h.awaits pid (hsub pid hpid)

/-- An item without process is passed. -/
theorem Reaping.skip (h : d.Reaping pids) (hs : d.todo.Pairwise fun x y => x.follows y = true)
    (htodo : d.todo = x :: rest) (hx : x.waits = some (c, i)) {y : Instr}
    (hy : y.waits = some (c, i + 1)) (hcreates : y.creates = none) (hquit : y ≠ quit)
    {p : Proc} (hp : d.HasAt c i p) (hprecedes : ∀ z, x.precedes z = true → y.precedes z = true)
    (hpid : p.procId ∉ pids) : { d with todo := y :: rest }.Reaping pids := by
  refine h.advance hs htodo ?_ hprecedes ?_ hquit ?_ ?_ fun c' k hk j q hj hq hqpid => ?_
  · rintro c' i' rfl
    cases hx
  · intro hfail
    rw [(reaps_of_waits hy).2] at hfail
    cases hfail
  · rintro rfl
    cases hy
  · intro c' k hk
    rw [hcreates] at hk
    cases hk
  · obtain ⟨rfl, rfl⟩ : c = c' ∧ i = k := by
      have heq := hx.symm.trans hk
      cases heq
      exact ⟨rfl, rfl⟩
    rcases hj.eq_or_lt with rfl | hj
    · have hpq : p = q := Option.some.inj (hp.symm.trans hq)
      exact absurd (hpq ▸ hqpid) hpid
    · exact ⟨i + 1, hj, hy⟩

/-- The process of an item is waited for, and the loop goes on with the next one. -/
theorem Reaping.waited (h : d.Reaping pids) (hs : d.todo.Pairwise fun x y => x.follows y = true)
    (htodo : d.todo = x :: rest) (hx : x.waits = some (c, i)) (y : Instr)
    (hy : y.waits = some (c, i + 1)) (hcreates : y.creates = none) (hquit : y ≠ quit)
    {p : Proc} (hp : d.HasAt c i p) (hprecedes : ∀ z, x.precedes z = true → y.precedes z = true) :
    (p.procId ∉ pids → { d with todo := y :: rest }.Reaping pids) ∧
      (p.procId ∈ pids → { d with todo := y :: rest }.Reaping (pids.filter (· ≠ p.procId))) := by
  have hfewer : d.Reaping (pids.filter (· ≠ p.procId)) := h.mono fun _ => List.mem_of_mem_filter
  exact ⟨h.skip hs htodo hx hy hcreates hquit hp hprecedes,
    fun _ => hfewer.skip hs htodo hx hy hcreates hquit hp hprecedes fun hmem => by simp at hmem⟩

/-- An item is freed, of a list that is not waited for any more. -/
theorem Reaping.free (h : d.Reaping pids) (hs : d.todo.Pairwise fun x y => x.follows y = true)
    (htodo : d.todo = procsFree c i :: rest) :
    { d.modify c i (fun p => { p with freed := true }) with
      todo := procsFree c (i + 1) :: rest }.Reaping pids := by
  have hnext : { d with todo := procsFree c (i + 1) :: rest }.Reaping pids :=
    h.advance hs htodo nofun (fun _ h => h) nofun nofun nofun nofun nofun
  have hfollows := (List.pairwise_cons.1 (htodo ▸ hs)).1
  refine ⟨hnext.ordered, hnext.graceful, hnext.early, hnext.fails,
    fun y hy c' k hk j p hj hp => ?_, fun pid hpid => .inr ?_⟩
  · obtain ⟨q, hq, rfl⟩ := hasAt_modify.1 hp
    have hnone := hnext.unstarted y hy c' k hk j q hj hq
    split_ifs <;> exact hnone
  · obtain ⟨c', j, p, hp, hfreed, rfl, y, hy, k, hk, hwait⟩ := hnext.recorded rfl nofun hpid
    have hrest : y ∈ rest := by
      refine (List.mem_cons.1 hy).resolve_left ?_
      rintro rfl
      cases hwait
    have hc : c' ≠ c := by
      rintro rfl
      exact (follows_reaps (hfollows y hrest) rfl).2.2 k hwait
    exact ⟨c', j, p, hasAt_modify.2 ⟨p, hp, (if_neg fun h => hc h.1).symm⟩, hfreed, rfl, y, hy, k,
      hk, hwait⟩

/-- The list is emptied. -/
theorem Reaping.clear (h : d.Reaping pids) (hs : d.todo.Pairwise fun x y => x.follows y = true)
    (htodo : d.todo = procsFree c i :: rest) :
    { d with lists := Function.update d.lists c [], todo := rest }.Reaping pids := by
  have hnext : { d with todo := rest }.Reaping pids := h.pop hs htodo nofun nofun
  have hfollows := (List.pairwise_cons.1 (htodo ▸ hs)).1
  have hat {c' : Class} {j : ℕ} {p : Proc} (hc : c' ≠ c) :
      { d with lists := Function.update d.lists c [], todo := rest }.HasAt c' j p ↔
        d.HasAt c' j p := by
    simp only [HasAt, Function.update_of_ne hc]
  refine ⟨hnext.ordered, hnext.graceful, hnext.early, hnext.fails,
    fun y hy c' k hk j p hj hp => ?_, fun pid hpid => .inr ?_⟩
  · by_cases hc : c' = c
    · subst hc
      simp only [HasAt, Function.update_self] at hp
      cases hp
    · exact hnext.unstarted y hy c' k hk j p hj ((hat hc).1 hp)
  · obtain ⟨c', j, p, hp, hfreed, rfl, y, hy, k, hk, hwait⟩ := h.recorded htodo nofun hpid
    rw [htodo] at hy
    have hrest : y ∈ rest := by
      refine (List.mem_cons.1 hy).resolve_left ?_
      rintro rfl
      cases hwait
    have hc : c' ≠ c := by
      rintro rfl
      exact (follows_reaps (hfollows y hrest) rfl).2.2 k hwait
    exact ⟨c', j, p, (hat hc).2 hp, hfreed, rfl, y, hrest, k, hk, hwait⟩

/-- What holds after a step, with its effect on the other processes. -/
def EffectReaping (d : Image) (pids : List ℤ) : Effect → Prop
  | .none | .kill _ _ => d.Reaping pids
  | .fork pid => d.Reaping (pid :: pids)
  | .exec => True
  | .wait pid =>
    (pid ∉ pids → d.Reaping pids) ∧ (pid ∈ pids → d.Reaping (pids.filter (· ≠ pid)))
  | .exit restore => restore = true ∧ pids = []

/-- The process ends when all its children are reaped. -/
theorem Reaping.ends (h : d.Reaping pids) (hs : d.todo.Pairwise fun x y => x.follows y = true)
    (htodo : d.todo = x :: rest) (hx : x.ends = true) : pids = [] := by
  have hfollows := (List.pairwise_cons.1 (htodo ▸ hs)).1
  -- Nothing follows, which would wait for them.
  have hrest : rest = [] := by
    refine List.eq_nil_iff_forall_not_mem.2 fun y hy => ?_
    have hxy := hfollows y hy
    simp [follows, hx] at hxy
  refine List.eq_nil_iff_forall_not_mem.2 fun pid hpid => ?_
  have hne : ∀ c i, x ≠ forked c i := by
    rintro c i rfl
    cases hx
  obtain ⟨c, i, p, -, -, -, y, hy, k, -, hwait⟩ := h.recorded htodo hne hpid
  rw [htodo, hrest, List.mem_singleton] at hy
  subst hy
  cases y <;> cases hx <;> cases hwait

/-- The step lemma. -/
theorem Reaping.step (h : d.Reaping pids) (hs : d.Sound pids reaped) (hpos : ∀ pid ∈ pids, 0 < pid)
    {a : Answer} {e : Effect} (hstep : d.step a = some (d', e)) :
    d'.defaultGov = d.defaultGov ∧ d'.EffectReaping pids e := by
  rw [Image.step] at hstep
  cases htodo : d.todo with
  | nil =>
    rw [htodo] at hstep
    cases hstep
  | cons x rest =>
    rw [htodo] at hstep
    cases x with
    | parseCmdLineArgs | procsMakeArgv c | enterDeadline =>
      cases a with
      | ok =>
        cases hstep
        exact ⟨rfl, h.pop hs.ordered htodo (by simp) (by simp [waits])⟩
      | failed =>
        cases hstep
        exact ⟨rfl, h.error htodo (by simp)⟩
      | execFailed | parsed counts ok | pid pid | garbage procId => cases hstep
    | parseConfigFile =>
      cases a with
      | parsed counts ok =>
        cases hstep
        exact ⟨rfl, h.parsed hs.ordered htodo counts ok⟩
      | ok | failed | execFailed | pid pid | garbage procId => cases hstep
    | usleep =>
      cases hstep
      exact ⟨rfl, h.pop hs.ordered htodo (by simp) (by simp [waits])⟩
    | procsCreate c i =>
      cases hp : (d.lists c)[i]? with
      | none =>
        simp only [hp] at hstep
        cases hstep
        exact ⟨rfl, h.pop hs.ordered htodo (by simp) (by simp [waits])⟩
      | some p =>
        cases a with
        | pid pid =>
          simp only [hp] at hstep
          cases hstep
          refine ⟨rfl, ?_⟩
          have hfork := h.fork htodo hp pid
          split_ifs with hnone
          · exact hfork.mono fun _ => List.mem_cons_of_mem _
          · exact hfork
        | ok | failed | execFailed | parsed counts ok | garbage procId =>
          simp only [hp] at hstep
          cases hstep
    | forked c i =>
      cases hstep
      exact ⟨rfl, h.record hs hpos htodo⟩
    | check c i =>
      cases hp : (d.lists c)[i]? with
      | none =>
        simp only [hp] at hstep
        cases hstep
      | some p =>
        have hlive := hs.fails _ (mem_todo htodo) rfl c i p hp
        simp only [hp] at hstep
        split_ifs at hstep with hnone hzero
        · cases hstep
          exact ⟨rfl, h.error htodo (by simp)⟩
        · have := hpos _ (hlive.2.resolve_left hnone)
          omega
        · cases hstep
          exact ⟨rfl, h.advance hs.ordered htodo (by simp) (fun _ h => h) (fun _ => rfl) (by simp)
            (by simp) (fun c' k hk => ⟨k, le_rfl, hk⟩) (by simp [waits])⟩
    | exec c i =>
      have hhead := hs.head
      simp only [HeadSound, htodo] at hhead
    | procsKill c i signal =>
      cases hp : (d.lists c)[i]? with
      | none =>
        simp only [hp] at hstep
        cases hstep
        exact ⟨rfl, h.pop hs.ordered htodo (by simp) (by simp [waits])⟩
      | some p =>
        simp only [hp] at hstep
        obtain ⟨procId, -, hstep⟩ := Option.bind_eq_some_iff.1 hstep
        cases hstep
        have hnext : { d with todo := procsKill c (i + 1) signal :: rest }.Reaping pids :=
          h.advance hs.ordered htodo (by simp) (fun _ h => h) (by simp [mayFail]) (by simp)
            (by simp) (by simp [creates]) (by simp [waits])
        refine ⟨rfl, ?_⟩
        split_ifs <;> exact hnext
    | procsKillAndWait c i =>
      cases hp : (d.lists c)[i]? with
      | none =>
        simp only [hp] at hstep
        cases hstep
        refine ⟨rfl, h.pop hs.ordered htodo (by simp) fun c' k hk => ?_⟩
        cases hk
        exact hp
      | some p =>
        simp only [hp] at hstep
        obtain ⟨procId, hread, hstep⟩ := Option.bind_eq_some_iff.1 hstep
        obtain rfl := read_of_unfreed (hs.live_of_kills htodo rfl hp).1 hread
        split_ifs at hstep with hnone
        · cases hstep
          refine ⟨rfl, h.skip hs.ordered htodo rfl rfl rfl (by simp) hp (fun _ h => h)
            fun hmem => ?_⟩
          have := hpos _ hmem
          omega
        · cases hstep
          refine ⟨rfl, h.advance hs.ordered htodo (by simp) (fun _ h => h) (by simp [mayFail])
            (by simp) (by simp) (by simp [creates]) fun c' k hk j q hj _ _ => ?_⟩
          cases hk
          exact ⟨i, hj, rfl⟩
    | waitKilled c i procId =>
      cases hstep
      have hhead := hs.head
      simp only [HeadSound, htodo] at hhead
      obtain ⟨-, p, hp, -, rfl⟩ := hhead
      exact ⟨rfl, h.waited hs.ordered htodo rfl (procsKillAndWait c (i + 1)) rfl rfl (by simp)
        hp fun _ h => h⟩
    | procsWait c i =>
      cases hp : (d.lists c)[i]? with
      | none =>
        simp only [hp] at hstep
        cases hstep
        refine ⟨rfl, h.pop hs.ordered htodo (by simp) fun c' k hk => ?_⟩
        cases hk
        exact hp
      | some p =>
        simp only [hp] at hstep
        obtain ⟨procId, hread, hstep⟩ := Option.bind_eq_some_iff.1 hstep
        have hfreed := hs.waits _ (mem_todo htodo) c i rfl i p le_rfl hp
        obtain rfl := read_of_unfreed hfreed hread
        cases hstep
        refine ⟨rfl, ?_⟩
        split_ifs with hnone
        · refine h.skip hs.ordered htodo rfl rfl rfl (by simp) hp (fun _ h => h) fun hmem => ?_
          have := hpos _ hmem
          omega
        · exact h.waited hs.ordered htodo rfl (procsWait c (i + 1)) rfl rfl (by simp) hp
            fun _ h => h
    | procsFree c i =>
      simp only at hstep
      split_ifs at hstep with hi
      · cases hstep
        exact ⟨rfl, h.free hs.ordered htodo⟩
      · cases hstep
        exact ⟨rfl, h.clear hs.ordered htodo⟩
    | exit =>
      cases hstep
      exact ⟨rfl, rfl, h.ends hs.ordered htodo rfl⟩
    | quit => exact absurd (mem_todo htodo) h.graceful

end Image

/-! ## The processes -/

/-- Every `exec` succeeds, and SIGINT is not taken. -/
def Uninterrupted (_ : State) : Label → Prop
  | .run _ .execFailed | .sigint _ => False
  | _ => True

instance (s : State) : ∀ l, Decidable (Uninterrupted s l)
  | .run _ .execFailed | .sigint _ => inferInstanceAs (Decidable False)
  | .run _ .ok | .run _ .failed | .run _ (.parsed _ _) | .run _ (.pid _) | .run _ (.garbage _)
  | .program _ _ => inferInstanceAs (Decidable True)

theorem Uninterrupted.orderly {s : State} {l : Label} (h : Uninterrupted s l) : Orderly s l := by
  cases l with
  | run who a => cases a <;> exact h
  | sigint who => exact h.elim
  | program pid event => trivial

/-- The governor is the one the driver has set, which is what the programs restore, until the
    driver, having reaped them, restores the one that it found. -/
structure Saved (governor : String) (s : State) : Prop where
  programs : ∀ pid g, (pid, .program (some g)) ∈ s.children → g = "userspace"
  running : ∀ d, s.driver = some d →
    s.governor = "userspace" ∧ d.defaultGov = governor ∧ d.Reaping s.pids
  ended : s.driver = none → s.governor = governor ∧ s.children = []

theorem saved_start (governor : String) :
    Saved governor ⟨"userspace", some (.start governor), [], [], []⟩ := by
  refine ⟨nofun, fun d hd => ?_, nofun⟩
  cases hd
  have hwaits : ∀ c, ∃ y ∈ main, y.waits = some (c, 0) := by decide
  have hquit : quit ∉ main := by decide
  exact ⟨rfl, rfl, precedes_main, hquit, fun _ => rfl, fun _ _ _ => hwaits, nofun, nofun⟩

namespace Saved

variable {governor : String} {s s' : State} {d d' : Image} {pid : ℤ}

/-- What it takes while the driver runs. -/
theorem of_driver (hd : s.driver = some d)
    (hprograms : ∀ pid g, (pid, .program (some g)) ∈ s.children → g = "userspace")
    (hrunning : s.governor = "userspace" ∧ d.defaultGov = governor ∧ d.Reaping s.pids) :
    Saved governor s where
  programs := hprograms
  running d' hd' := by
    obtain rfl : d = d' := Option.some.inj (hd.symm.trans hd')
    exact hrunning
  ended hnone := by
    rw [hd] at hnone
    cases hnone

/-- A child changes, while the driver runs. -/
theorem setChild (h : Saved governor s) (hd : s.driver = some d) (pid : ℤ) {child : Child}
    (hgov : ∀ g, child = .program (some g) → g = "userspace") :
    Saved governor (s.setChild pid child) := by
  refine .of_driver hd (fun pid' g hg => ?_) ?_
  · rcases State.mem_setChild hg with hg | hg
    · exact h.programs pid' g hg
    · exact hgov g hg.symm
  · rw [State.pids_setChild]
    exact h.running d hd

/-- The driver changes. -/
theorem setDriver (h : Saved governor s) (hd : s.driver = some d)
    (hgov : d'.defaultGov = d.defaultGov) (hd' : d'.Reaping s.pids) :
    Saved governor (s.setImage d' .driver) :=
  .of_driver rfl h.programs ⟨(h.running d hd).1, hgov.trans (h.running d hd).2.1, hd'⟩

/-- A child is signalled. -/
theorem deliver (h : Saved governor s) (hd : s.driver = some d) {target : ℤ}
    (htarget : 0 < target) (signal : Signal) : Saved governor (s.deliver target signal) := by
  have hother : (s.deliver target signal).driver = s.driver ∧
      (s.deliver target signal).governor = s.governor := by
    rw [State.deliver, if_neg (by omega)]
    exact ⟨rfl, rfl⟩
  refine .of_driver (hother.1.trans hd) (fun pid g hg => ?_) ?_
  · rcases State.mem_deliver htarget hg with hg | hg
    · exact h.programs pid g hg
    · cases hg
  · rw [hother.2, State.pids_deliver htarget]
    exact h.running d hd

/-- A step of the driver. -/
theorem runDriver (h : Saved governor s) (hs : Sound s) {a : Answer} {e : Effect}
    (hd : s.driver = some d) (hstep : d.step a = some (d', e))
    (heff : s.effect .driver d' e = some s') : Saved governor s' := by
  have ⟨hset, hgov, hreaping⟩ := h.running d hd
  have ⟨hkept, heffect⟩ := hreaping.step (hs.driver d hd) hs.pos hstep
  have hsound := (hs.driver d hd).step hs.pos hstep
  cases e with
  | none =>
    cases heff
    exact h.setDriver hd hkept heffect
  | fork pid =>
    rw [State.effect] at heff
    split_ifs at heff with hpid
    cases heff
    refine .of_driver rfl (fun pid' g hg => ?_) ⟨hset, hkept.trans hgov, heffect⟩
    rcases List.mem_cons.1 hg with hg | hg
    · cases hg
    · exact h.programs pid' g hg
  | exec => exact hsound.elim
  | kill target signal =>
    cases heff
    exact (h.setDriver hd hkept heffect).deliver rfl (hs.pos target hsound.2) signal
  | wait pid =>
    rw [State.effect] at heff
    split_ifs at heff with hpid
    · split at heff
      · cases heff
        have hpids : (s.children.filter fun c => c.1 ≠ pid).map Prod.fst =
            s.pids.filter (· ≠ pid) := by
          rw [State.pids, List.filter_map]
          rfl
        refine .of_driver rfl (fun pid' g hg => h.programs pid' g (List.mem_of_mem_filter hg)) ?_
        rw [State.pids, hpids]
        exact ⟨hset, hkept.trans hgov, heffect.2 hpid.2⟩
      · cases heff
    · cases heff
      exact h.setDriver hd hkept (heffect.1 fun hmem => hpid ⟨rfl, hmem⟩)
  | exit restore =>
    cases heff
    obtain ⟨rfl, hpids⟩ := heffect
    have hnone : s.children = [] := List.map_eq_nil_iff.1 hpids
    exact ⟨h.programs, by simp [State.endOf], fun _ => ⟨hkept.trans hgov, hnone⟩⟩

/-- There is a child only while the driver runs. -/
theorem running_of_mem (h : Saved governor s) {child : Child} (hmem : (pid, child) ∈ s.children) :
    ∃ d, s.driver = some d := by
  cases hd : s.driver with
  | none =>
    rw [(h.ended hd).2] at hmem
    exact absurd hmem List.not_mem_nil
  | some d => exact ⟨d, rfl⟩

/-- A step of a copy. -/
theorem runCopy (h : Saved governor s) (hs : Sound s) {a : Answer} {e : Effect}
    (hd : s.child? pid = some (.copy d)) (ha : a ≠ .execFailed) (hstep : d.step a = some (d', e))
    (heff : s.effect (.child pid) d' e = some s') : Saved governor s' := by
  have hmem := State.mem_of_child? hd
  obtain ⟨driver, hdriver⟩ := h.running_of_mem hmem
  rcases (hs.copies pid d hmem).step ha hstep with ⟨rfl, -⟩ | rfl
  · cases heff
    exact h.setChild hdriver pid (by simp)
  · cases heff
    exact h.setChild hdriver pid (by simp)

/-- A step of a program: it saves the governor that the driver has set, and restores it. -/
theorem programStep (h : Saved governor s) {defaultGov : Option String} {event : ProgramEvent}
    (hchild : s.child? pid = some (.program defaultGov))
    (hs : s.programStep pid defaultGov event = some s') : Saved governor s' := by
  have hmem := State.mem_of_child? hchild
  obtain ⟨d, hd⟩ := h.running_of_mem hmem
  have ⟨hset, hgov, hreaping⟩ := h.running d hd
  have hdead : Saved governor (s.setChild pid .dead) := h.setChild hd pid (by simp)
  cases event with
  | save =>
    cases defaultGov with
    | none =>
      cases hs
      refine h.setChild hd pid fun g hg => ?_
      cases hg
      exact hset
    | some g => cases hs
  | set =>
    cases defaultGov with
    | none => cases hs
    | some g =>
      cases hs
      exact .of_driver hd h.programs ⟨rfl, hgov, hreaping⟩
  | exit =>
    have hrestored : defaultGov.getD s.governor = "userspace" := by
      cases defaultGov with
      | none => exact hset
      | some g => exact h.programs pid g hmem
    have hnext : s' = { s.setChild pid .dead with governor := defaultGov.getD s.governor } := by
      cases defaultGov <;> exact (Option.some.inj hs).symm
    rw [hnext, hrestored]
    exact .of_driver hd hdead.programs ⟨rfl, (hdead.running d hd).2⟩
  | die =>
    cases defaultGov <;> cases hs <;> exact hdead

/-- The step lemma. -/
theorem next {l : Label} (h : Saved governor s) (hs : Sound s) (hu : Uninterrupted s l)
    (hst : (system governor).next s l = some s') : Saved governor s' := by
  cases l with
  | run who a =>
    obtain ⟨d, hd, hst⟩ := Option.bind_eq_some_iff.1 hst
    obtain ⟨⟨d', e⟩, hstep, hst⟩ := Option.bind_eq_some_iff.1 hst
    cases who with
    | driver => exact h.runDriver hs hd hstep hst
    | child pid =>
      refine h.runCopy hs (child?_of_image? hd) (fun ha => ?_) hstep hst
      rw [ha] at hu
      exact hu
  | sigint who => exact hu.elim
  | program pid event =>
    simp only [system] at hst
    split at hst
    · next hchild => exact h.programStep hchild hst
    · cases hst

end Saved

/-- The run lemma. -/
theorem Run.saved {governor : String} {ls : List Label} {s : State}
    (hr : ((system governor).guard Uninterrupted).Run ls s) : Saved governor s := by
  refine hr.invariant (P := fun _ s => Saved governor s) (fun s hs => ?_)
    fun ls s l s' hr hs hst => ?_
  · obtain rfl := Set.mem_singleton_iff.1 hs
    exact saved_start governor
  · have hsound := Run.sound (hr.guard_mono fun _ _ => Uninterrupted.orderly)
    obtain ⟨hu, hst⟩ := Lts.guard_next_iff.1 hst
    exact hs.next hsound hu hst

/-- In every run without SIGINT in which every `exec` succeeds, once the driver and all its children
    have ended, the governor is the one that the driver found. -/
theorem Run.governor_restored {governor : String} {ls : List Label} {s : State}
    (hr : ((system governor).guard Uninterrupted).Run ls s) (hdriver : s.driver = none)
    (_ : ∀ c ∈ s.children, c.2 = .dead) : s.governor = governor :=
  ((Run.saved hr).ended hdriver).1

/-- A whole experiment with a server. -/
def experiment : List Label :=
  untilFork ++ [.run (.child 7) .ok, .run (.child 7) .ok, .run (.child 7) .ok, .program 7 .save,
    .program 7 .set] ++ .replicate 27 (.run .driver .ok) ++ [.program 7 .exit] ++
    .replicate 10 (.run .driver .ok)

theorem Run.governor_restored_experiment :
    ∃ s, ((system "ondemand").guard Uninterrupted).Run experiment s ∧ s.governor = "ondemand" := by
  obtain ⟨s, hs, hdriver, hchildren⟩ : ∃ s, ((system "ondemand").guard Uninterrupted).exec
      ⟨"userspace", some (.start "ondemand"), [], [], []⟩ experiment = some s ∧
      s.driver = none ∧ s.children = [] := ⟨_, rfl, rfl, rfl⟩
  have hr := Lts.run_of_exec rfl hs
  refine ⟨s, hr, governor_restored hr hdriver ?_⟩
  rw [hchildren]
  exact nofun

/-- SIGINT ends the driver without its exit handlers. -/
theorem governor_not_restored :
    ∃ s, (system "ondemand").Run (.sigint .driver :: .replicate 13 (.run .driver .ok)) s ∧
      s.driver = none ∧ (∀ c ∈ s.children, c.2 = .dead) ∧ s.governor ≠ "ondemand" :=
  ⟨_, Lts.run_of_exec rfl rfl, rfl, nofun, by decide⟩

end RealtimeTests.Driver
