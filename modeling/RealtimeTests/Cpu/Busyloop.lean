import Mathlib.Data.Rat.Floor
import Mathlib.Tactic

/-!
# Busy loops

`create_cpu_busyloop` looks for the number of iterations that a loop needs to last for a given
duration. It starts from a prediction, which `busyloop_search` then refines by measurements.

Durations are exact, `unsigned long` has `w` bits, and nothing is assumed of the measurements.

* `busyloopSearch_spec`: the count which the search returns is the last one it has measured, and
  only the last measurement is within the tolerance.
* `exactlyCreated_iff`: when each count that is measured after another one, and that of the loop,
  is what the measurement before it asks for in integers, and no loop is created with a count of
  zero, for which it runs `2 ^ w` times (`iterations_zero`).
-/

namespace RealtimeTests.Busyloop

variable {w : ℕ}

/-! ## The loop -/

/-- The number before one that is not zero. -/
theorem toNat_sub_one {x : BitVec w} (hx : x ≠ 0#w) : (x - 1#w).toNat + 1 = x.toNat := by
  have hpos : 0 < x.toNat := by
    refine Nat.pos_of_ne_zero fun hzero => hx (BitVec.eq_of_toNat_eq ?_)
    rw [hzero, BitVec.toNat_ofNat, Nat.zero_mod]
  have hone : (1#w).toNat = 1 := by
    have := x.isLt
    exact Nat.mod_eq_of_lt (by omega)
  rw [BitVec.toNat_sub_of_le (BitVec.le_def.2 (by omega)), hone]
  omega

theorem toNat_sub_succ {loopCount i : BitVec w} (hne : i + 1#w ≠ loopCount) :
    (loopCount - (i + 1#w + 1#w)).toNat + 1 = (loopCount - (i + 1#w)).toNat := by
  have hx : loopCount - (i + 1#w) ≠ 0#w := by
    intro hzero
    rw [BitVec.sub_eq_iff_eq_add, BitVec.zero_add] at hzero
    exact hne hzero.symm
  rw [← toNat_sub_one hx, BitVec.sub_sub]

/-- The iterations of `busyloop` from `i` on: it is incremented, and then compared. -/
def iterationsFrom (loopCount i : BitVec w) : ℕ :=
  if i + 1#w = loopCount then 1 else 1 + iterationsFrom loopCount (i + 1#w)
termination_by (loopCount - (i + 1#w)).toNat
decreasing_by
  have := toNat_sub_succ ‹_›
  omega

/-- The iterations of `busyloop`. -/
def iterations (loopCount : BitVec w) : ℕ :=
  iterationsFrom loopCount 0#w

theorem iterationsFrom_eq (loopCount i : BitVec w) :
    iterationsFrom loopCount i = (loopCount - (i + 1#w)).toNat + 1 := by
  induction i using iterationsFrom.induct loopCount with
  | case1 i heq =>
    rw [iterationsFrom, if_pos heq, heq, BitVec.sub_self, BitVec.toNat_ofNat, Nat.zero_mod]
  | case2 i hne ih =>
    rw [iterationsFrom, if_neg hne, ih, toNat_sub_succ hne]
    omega

/-- The iterations for a count that is not zero. -/
theorem iterations_of_ne_zero {loopCount : BitVec w} (hne : loopCount ≠ 0#w) :
    iterations loopCount = loopCount.toNat := by
  rw [iterations, iterationsFrom_eq, BitVec.zero_add, toNat_sub_one hne]

/-- A count of zero is only found when the counter wraps. -/
theorem iterations_zero (w : ℕ) : iterations 0#w = 2 ^ w := by
  rw [iterations, iterationsFrom_eq, BitVec.zero_add, BitVec.zero_sub, BitVec.neg_one_eq_allOnes,
    BitVec.toNat_allOnes]
  have := Nat.two_pow_pos w
  omega

/-! ## The search -/

/-- `duration_to_loop_count`. -/
def durationToLoopCount (frequency : ℕ) (duration : ℚ) : ℕ :=
  ⌊frequency * duration⌋₊

/-- `loop_count_too_long`. -/
def loopCountTooLong (w loopCount : ℕ) : Bool :=
  2 ^ w - 1 < loopCount

/-- What the search is for. -/
structure Goal where
  currFreq : ℕ
  duration : ℚ
  searchTolerance : ℚ

/-- What is done with a measurement: the search ends, it fails, or it goes on with another count. -/
inductive Pass (w : ℕ)
  | done
  | fail (rc : ℤ)
  | next (loopCount : BitVec w)

/-- The body of the loop of `busyloop_search` after the measurement `actual` of a pass which is not
    the last one. -/
def Goal.refine (goal : Goal) (loopCount : BitVec w) (actual : ℚ) : Pass w :=
  let delta := actual - goal.duration
  if delta < 0 then
    if -goal.searchTolerance ≤ delta then .done
    else
      let loopCountDelta := durationToLoopCount goal.currFreq (-delta)
      if loopCount.toNat / 10 < loopCountDelta then .fail (-3)
      -- The count that is checked is the one before the change.
      else if loopCountTooLong w loopCount.toNat then .fail (-4)
      else .next (loopCount + .ofNat w loopCountDelta)
  else if delta ≤ goal.searchTolerance then .done
  else
    let loopCountDelta := durationToLoopCount goal.currFreq delta
    if loopCount.toNat < loopCountDelta then .fail (-2)
    else .next (loopCount - .ofNat w loopCountDelta)

/-- What the search returns, with the counts that it has measured and what it has got for each. -/
structure Search (w : ℕ) where
  rc : ℤ
  loopCount : BitVec w
  measured : List (BitVec w × ℚ)

/-- `busyloop_search` with the passes that are left, of which the measurements are `measure 0`,
    `measure 1`, ..., negative when they fail. -/
def busyloopSearch (goal : Goal) : ℕ → (ℕ → ℚ) → BitVec w → Search w
  | 0, _, loopCount => ⟨0, loopCount, []⟩
  | passes + 1, measure, loopCount =>
    let actual := measure 0
    let measured := [(loopCount, actual)]
    if actual < 0 then ⟨-3, loopCount, measured⟩
    -- The last pass does not change the count.
    else if passes = 0 then ⟨0, loopCount, measured⟩
    else
      match goal.refine loopCount actual with
      | .done => ⟨0, loopCount, measured⟩
      | .fail rc => ⟨rc, loopCount, measured⟩
      | .next loopCount =>
        let rest := busyloopSearch goal passes (fun n => measure (n + 1)) loopCount
        { rest with measured := measured ++ rest.measured }

/-! ## The creation -/

/-- What `create_cpu_busyloop` finds: the frequency of the CPU, zero when it cannot be read, which
    of the calls succeed, and the measurements. -/
structure Machine where
  cpuFreqGet : ℕ
  pthreadCreate : Bool
  pthreadJoin : Bool
  lockMeToCpu : Bool
  schedFifoEnterMax : ℤ
  malloc : Bool
  measure : ℕ → ℚ

/-- `cpu_busyloop`. -/
structure CpuBusyloop (w : ℕ) where
  whichCpu : ℤ
  frequency : ℕ
  loopCount : BitVec w
  duration : ℚ

/-- `busyloop_search_thread`. -/
def busyloopSearchThread (env : Machine) (goal : Goal) (passes : ℕ) (loopCount : BitVec w) :
    Search w :=
  if !env.lockMeToCpu then ⟨-3, loopCount, []⟩
  else if env.schedFifoEnterMax = 0 then busyloopSearch goal passes env.measure loopCount
  else if env.schedFifoEnterMax = -1 then ⟨-1, loopCount, []⟩
  else ⟨-3, loopCount, []⟩

/-- What `create_cpu_busyloop` returns and leaves in `*result`, with what was measured. -/
structure Creation (w : ℕ) where
  rc : ℤ
  result : Option (CpuBusyloop w)
  measured : List (BitVec w × ℚ)

/-- The count before the search. -/
def Machine.predicted (env : Machine) (duration : ℚ) : ℕ :=
  durationToLoopCount env.cpuFreqGet duration

/-- The end of `create_cpu_busyloop`. -/
def createResult (env : Machine) (whichCpu : ℤ) (duration : ℚ) (loopCount : BitVec w)
    (measured : List (BitVec w × ℚ)) : Creation w :=
  if !env.malloc then ⟨-3, none, measured⟩
  else ⟨0, some ⟨whichCpu, env.cpuFreqGet, loopCount, duration⟩, measured⟩

/-- `create_cpu_busyloop`, with what is in `*result` before. -/
def createCpuBusyloop (env : Machine) (whichCpu : ℤ) (duration searchTolerance : ℚ)
    (searchMaxPasses : ℕ) (result : Option (CpuBusyloop w)) : Creation w :=
  let loopCount := env.predicted duration
  -- Here `*result` is left as it is.
  if loopCountTooLong w loopCount then ⟨-4, result, []⟩
  else if 0 < searchMaxPasses then
    let goal : Goal := ⟨env.cpuFreqGet, duration, searchTolerance⟩
    if !env.pthreadCreate then ⟨-3, none, []⟩
    else
      let search := busyloopSearchThread env goal searchMaxPasses (.ofNat w loopCount)
      if !env.pthreadJoin then ⟨-3, none, search.measured⟩
      else if search.rc ≠ 0 then ⟨search.rc, none, search.measured⟩
      else createResult env whichCpu duration search.loopCount search.measured
  else createResult env whichCpu duration (.ofNat w loopCount) []

/-! ## The passes -/

/-- The measurements for which the count is kept. -/
def Goal.tolerated (goal : Goal) : Set ℚ :=
  Set.Icc (goal.duration - goal.searchTolerance) (goal.duration + goal.searchTolerance)

/-- By how much the count is changed for another one. -/
def Goal.change (goal : Goal) (actual : ℚ) : ℕ :=
  durationToLoopCount goal.currFreq |actual - goal.duration|

namespace Goal

variable {goal : Goal} {actual : ℚ} {loopCount : BitVec w}

/-- A pass ends the search when its measurement is tolerated. -/
theorem refine_of_mem (hmem : actual ∈ goal.tolerated) (loopCount : BitVec w) :
    goal.refine loopCount actual = .done := by
  obtain ⟨hlo, hhi⟩ := hmem
  by_cases hneg : actual - goal.duration < 0
  · simp only [refine, if_pos hneg]
    exact if_pos (by linarith)
  · simp only [refine, if_neg hneg]
    exact if_pos (by linarith)

/-- Otherwise it increases a count with which the loop is too short. No count is too long for its
    own type. -/
theorem refine_of_lt (hmem : actual ∉ goal.tolerated) (hlt : actual < goal.duration)
    (loopCount : BitVec w) :
    goal.refine loopCount actual =
      if loopCount.toNat / 10 < goal.change actual then .fail (-3)
      else .next (loopCount + .ofNat w (goal.change actual)) := by
  have hneg : actual - goal.duration < 0 := by linarith
  have htol : ¬ -goal.searchTolerance ≤ actual - goal.duration := by
    intro hle
    exact hmem ⟨by linarith, by linarith⟩
  have hlong : ¬ loopCountTooLong w loopCount.toNat = true := by
    have := loopCount.isLt
    simp only [loopCountTooLong, decide_eq_true_eq]
    omega
  simp only [refine, if_pos hneg, if_neg htol, if_neg hlong, change, abs_of_neg hneg]

/-- And it decreases a count with which the loop is too long. -/
theorem refine_of_le (hmem : actual ∉ goal.tolerated) (hle : goal.duration ≤ actual)
    (loopCount : BitVec w) :
    goal.refine loopCount actual =
      if loopCount.toNat < goal.change actual then .fail (-2)
      else .next (loopCount - .ofNat w (goal.change actual)) := by
  have hneg : ¬ actual - goal.duration < 0 := by linarith
  have htol : ¬ actual - goal.duration ≤ goal.searchTolerance := by
    intro hle'
    exact hmem ⟨by linarith, by linarith⟩
  simp only [refine, if_neg hneg, if_neg htol, change, abs_of_nonneg (not_lt.1 hneg)]

/-- A pass does not end the search otherwise. -/
theorem mem_of_refine (hdone : goal.refine loopCount actual = .done) : actual ∈ goal.tolerated := by
  by_contra hmem
  by_cases hlt : actual < goal.duration
  · rw [refine_of_lt hmem hlt] at hdone
    split_ifs at hdone
  · rw [refine_of_le hmem (not_lt.1 hlt)] at hdone
    split_ifs at hdone

/-- Failures have negative codes. -/
theorem rc_of_refine {rc : ℤ} (hfail : goal.refine loopCount actual = .fail rc) : rc < 0 := by
  by_cases hmem : actual ∈ goal.tolerated
  · rw [refine_of_mem hmem] at hfail
    cases hfail
  · by_cases hlt : actual < goal.duration
    · rw [refine_of_lt hmem hlt] at hfail
      split_ifs at hfail
      cases hfail
      decide
    · rw [refine_of_le hmem (not_lt.1 hlt)] at hfail
      split_ifs at hfail
      cases hfail
      decide

/-- What a pass does when it goes on. -/
theorem not_mem_of_refine {loopCount' : BitVec w}
    (hnext : goal.refine loopCount actual = .next loopCount') : actual ∉ goal.tolerated := by
  intro hmem
  rw [refine_of_mem hmem] at hnext
  cases hnext

end Goal

/-! ## What the search has measured -/

variable {goal : Goal} {measure : ℕ → ℚ} {loopCount : BitVec w}

/-- A search ends with its first pass, or goes on with another count. -/
inductive Ends (goal : Goal) (passes : ℕ) (measure : ℕ → ℚ) (loopCount : BitVec w) : Search w → Prop
  | failed (hneg : measure 0 < 0) : Ends goal passes measure loopCount
      ⟨-3, loopCount, [(loopCount, measure 0)]⟩
  | last (hneg : 0 ≤ measure 0) (hlast : passes = 0) : Ends goal passes measure loopCount
      ⟨0, loopCount, [(loopCount, measure 0)]⟩
  | done (hneg : 0 ≤ measure 0) (hlast : passes ≠ 0)
      (hdone : goal.refine loopCount (measure 0) = .done) : Ends goal passes measure loopCount
      ⟨0, loopCount, [(loopCount, measure 0)]⟩
  | fail (hneg : 0 ≤ measure 0) (hlast : passes ≠ 0) (rc : ℤ)
      (hfail : goal.refine loopCount (measure 0) = .fail rc) : Ends goal passes measure loopCount
      ⟨rc, loopCount, [(loopCount, measure 0)]⟩
  | next (hneg : 0 ≤ measure 0) (hlast : passes ≠ 0) (loopCount' : BitVec w)
      (hnext : goal.refine loopCount (measure 0) = .next loopCount') :
      Ends goal passes measure loopCount
      ⟨(busyloopSearch goal passes (fun n => measure (n + 1)) loopCount').rc,
        (busyloopSearch goal passes (fun n => measure (n + 1)) loopCount').loopCount,
        (loopCount, measure 0) ::
          (busyloopSearch goal passes (fun n => measure (n + 1)) loopCount').measured⟩

theorem ends (goal : Goal) (passes : ℕ) (measure : ℕ → ℚ) (loopCount : BitVec w) :
    Ends goal passes measure loopCount (busyloopSearch goal (passes + 1) measure loopCount) := by
  rw [busyloopSearch]
  dsimp only
  split_ifs with hneg hlast
  · exact .failed hneg
  · exact .last (not_lt.1 hneg) hlast
  · cases hrefine : goal.refine loopCount (measure 0) with
    | done => exact .done (not_lt.1 hneg) hlast hrefine
    | fail rc => exact .fail (not_lt.1 hneg) hlast rc hrefine
    | next loopCount' => exact .next (not_lt.1 hneg) hlast loopCount' hrefine

theorem measured_ne_nil (goal : Goal) {passes : ℕ} (hpasses : 0 < passes) (measure : ℕ → ℚ)
    (loopCount : BitVec w) : (busyloopSearch goal passes measure loopCount).measured ≠ [] := by
  obtain ⟨passes, rfl⟩ : ∃ n, passes = n + 1 := ⟨passes - 1, by omega⟩
  have hends := ends goal passes measure loopCount
  generalize busyloopSearch goal (passes + 1) measure loopCount = search at hends
  cases hends <;> exact List.cons_ne_nil _ _

/-- The search makes no more measurements than it has passes, the count which it returns is that of
    the last one, and the measurements before are not tolerated. -/
theorem busyloopSearch_spec (goal : Goal) {passes : ℕ} (hpasses : 0 < passes) (measure : ℕ → ℚ)
    (loopCount : BitVec w) :
    let search := busyloopSearch goal passes measure loopCount
    (∀ i x, search.measured[i]? = some x → x.2 = measure i) ∧
      search.measured.length ≤ passes ∧
      (search.rc = 0 → ∃ actual, search.measured.getLast? = some (search.loopCount, actual) ∧
        (actual ∈ goal.tolerated ∨ search.measured.length = passes)) ∧
      ∀ x ∈ search.measured.dropLast, x.2 ∉ goal.tolerated := by
  induction passes generalizing measure loopCount with
  | zero => exact absurd hpasses (Nat.lt_irrefl 0)
  | succ passes ih =>
    -- A search which ends has made a single measurement.
    have hsingle : ∀ i x, [(loopCount, measure 0)][i]? = some x → x.2 = measure i := by
      intro i x hx
      obtain ⟨rfl, rfl⟩ : i = 0 ∧ (loopCount, measure 0) = x := by
        cases i with
        | zero => exact ⟨rfl, Option.some_inj.1 hx⟩
        | succ i => cases hx
      rfl
    have hends := ends goal passes measure loopCount
    generalize busyloopSearch goal (passes + 1) measure loopCount = search at hends
    cases hends with
    | failed hneg => exact ⟨hsingle, by simp, by simp, by simp⟩
    | last hneg hlast =>
      exact ⟨hsingle, by simp, fun _ => ⟨_, rfl, .inr (by rw [hlast]; rfl)⟩, by simp⟩
    | done hneg hlast hdone =>
      exact ⟨hsingle, by simp, fun _ => ⟨_, rfl, .inl (Goal.mem_of_refine hdone)⟩, by simp⟩
    | fail hneg hlast rc hfail =>
      refine ⟨hsingle, by simp, fun hrc => ?_, by simp⟩
      have := Goal.rc_of_refine hfail
      dsimp only at hrc
      omega
    | next hneg hlast loopCount' hnext =>
      obtain ⟨hmeasure, hlength, hlastCount, hbefore⟩ :=
        ih (Nat.pos_of_ne_zero hlast) (fun n => measure (n + 1)) loopCount'
      have hne := measured_ne_nil goal (Nat.pos_of_ne_zero hlast) (fun n => measure (n + 1))
        loopCount'
      dsimp only
      refine ⟨?_, ?_, ?_, ?_⟩
      · intro i x hx
        cases i with
        | zero => exact Option.some_inj.1 hx ▸ rfl
        | succ i => exact hmeasure i x hx
      · rw [List.length_cons]
        omega
      · intro hrc
        obtain ⟨actual, hactual, hend⟩ := hlastCount hrc
        refine ⟨actual, ?_, ?_⟩
        · rw [List.getLast?_cons_of_ne_nil hne]
          exact hactual
        · refine hend.imp_right fun hlen => ?_
          rw [List.length_cons, hlen]
      · intro x hx
        rw [List.dropLast_cons_of_ne_nil hne] at hx
        rcases List.mem_cons.1 hx with rfl | hx
        · exact Goal.not_mem_of_refine hnext
        · exact hbefore x hx

/-- A search which measures a loop that is too long, and then one that is right. -/
theorem busyloopSearch_spec_twice :
    (busyloopSearch ⟨100, 1, 1 / 100⟩ 3 (fun n => if n = 0 then 2 else 1) 1000#32).measured.length
        ≤ 3 ∧
      ∃ actual, (busyloopSearch ⟨100, 1, 1 / 100⟩ 3 (fun n => if n = 0 then 2 else 1)
        1000#32).measured.getLast? = some (900#32, actual) := by
  obtain ⟨-, hlength, hlast, -⟩ := busyloopSearch_spec ⟨100, 1, 1 / 100⟩ (by decide : 0 < 3)
    (fun n => if n = 0 then 2 else 1) 1000#32
  obtain ⟨actual, hactual, -⟩ := hlast (by decide +kernel)
  refine ⟨hlength, actual, hactual.trans ?_⟩
  have hcount : (busyloopSearch ⟨100, 1, 1 / 100⟩ 3 (fun n => if n = 0 then 2 else 1)
      1000#32).loopCount = 900#32 := by decide +kernel
  rw [hcount]

/-! ## Exact changes -/

namespace Goal

/-- The measurement is rejected, since it deviates too much. -/
def Deviates (goal : Goal) (loopCount : ℕ) (actual : ℚ) : Prop :=
  actual < goal.duration ∧ loopCount / 10 < goal.change actual

/-- The measurement asks for another count: it does not fail, and is neither tolerated nor
    rejected. -/
def Refines (goal : Goal) (loopCount : ℕ) (actual : ℚ) : Prop :=
  0 ≤ actual ∧ actual ∉ goal.tolerated ∧ ¬ goal.Deviates loopCount actual

/-- The count that a measurement asks for, as an integer. -/
def wanted (goal : Goal) (loopCount : ℕ) (actual : ℚ) : ℤ :=
  if actual < goal.duration then loopCount + goal.change actual
  else loopCount - goal.change actual

/-- The count of `y`, measured after `x`, is the one that `x` asks for, and leaves an iteration. -/
def Follows (goal : Goal) (x y : BitVec w × ℚ) : Prop :=
  goal.Refines x.1.toNat x.2 ∧ (y.1.toNat : ℤ) = goal.wanted x.1.toNat x.2 ∧
    0 < goal.wanted x.1.toNat x.2

/-- When nothing is measured after `x`, though it asks for another count and its pass is not the
    last one, this count exceeds the range, or leaves no iteration. `Returns` tells the code. -/
def Stops (goal : Goal) (Last : Prop) (Returns : ℤ → Prop) (x : BitVec w × ℚ) : Prop :=
  goal.Refines x.1.toNat x.2 → ¬ Last →
    2 ^ w ≤ goal.wanted x.1.toNat x.2 ∧ Returns (-4) ∨
      goal.wanted x.1.toNat x.2 ≤ 0 ∧ Returns (-2)

/-- A measurement for which the checks of the code are enough, when it asks for another count. -/
def Safe (w : ℕ) (goal : Goal) (loopCount : ℕ) (actual : ℚ) : Prop :=
  goal.wanted loopCount actual ≠ 0 ∧ goal.wanted loopCount actual < 2 ^ w

/-- The measurements of the passes are safe, from a count on, with the counts that they ask for in
    integers, up to the first one which does not ask for another count. That of the last pass does
    not matter. -/
def SafeFrom (w : ℕ) (goal : Goal) : ℕ → (ℕ → ℚ) → ℕ → Prop
  | 0, _, _ | 1, _, _ => True
  | passes + 2, measure, loopCount =>
    goal.Refines loopCount (measure 0) →
      goal.Safe w loopCount (measure 0) ∧
        (0 < goal.wanted loopCount (measure 0) →
          SafeFrom w goal (passes + 1) (fun n => measure (n + 1))
            (goal.wanted loopCount (measure 0)).toNat)

variable {goal : Goal} {actual : ℚ} {loopCount : BitVec w}

theorem safe_iff {k : ℕ} : goal.Safe w k actual ↔
    goal.wanted k actual ≠ 0 ∧ goal.wanted k actual < (2 ^ w : ℕ) := by
  rw [Safe]
  push_cast
  rfl

theorem SafeFrom.of_not_refines {k : ℕ} {measure : ℕ → ℚ} (hnot : ¬ goal.Refines k (measure 0)) :
    ∀ passes, goal.SafeFrom w passes measure k
  | 0 | 1 => trivial
  | _ + 2 => fun hrefines => absurd hrefines hnot

/-- A pass which fails is right to do so. -/
theorem wanted_of_fail {rc : ℤ} (hrefines : goal.Refines loopCount.toNat actual)
    (hfail : goal.refine loopCount actual = .fail rc) :
    rc = -2 ∧ ¬ actual < goal.duration ∧ loopCount.toNat < goal.change actual := by
  obtain ⟨-, hmem, hdev⟩ := hrefines
  by_cases hlt : actual < goal.duration
  · rw [refine_of_lt hmem hlt, if_neg fun hlt' => hdev ⟨hlt, hlt'⟩] at hfail
    cases hfail
  · rw [refine_of_le hmem (not_lt.1 hlt)] at hfail
    split_ifs at hfail with hlt'
    cases hfail
    exact ⟨rfl, hlt, hlt'⟩

/-- A pass which goes on has been asked to. -/
theorem refines_of_next {loopCount' : BitVec w} (hpos : 0 ≤ actual)
    (hnext : goal.refine loopCount actual = .next loopCount') :
    goal.Refines loopCount.toNat actual := by
  have hmem := not_mem_of_refine hnext
  refine ⟨hpos, hmem, fun ⟨hlt, hdev⟩ => ?_⟩
  rw [refine_of_lt hmem hlt, if_pos hdev] at hnext
  cases hnext

/-- It goes on with the count that it was asked for precisely when the measurement is safe. -/
theorem safe_iff_of_next {loopCount' : BitVec w}
    (hrefines : goal.Refines loopCount.toNat actual)
    (hnext : goal.refine loopCount actual = .next loopCount') :
    goal.Safe w loopCount.toNat actual ↔
      (loopCount'.toNat : ℤ) = goal.wanted loopCount.toNat actual ∧
        0 < goal.wanted loopCount.toNat actual := by
  obtain ⟨-, hmem, hdev⟩ := hrefines
  have hk := loopCount.isLt
  rw [safe_iff, wanted]
  by_cases hlt : actual < goal.duration
  · rw [refine_of_lt hmem hlt, if_neg fun hlt' => hdev ⟨hlt, hlt'⟩] at hnext
    cases hnext
    rw [if_pos hlt, BitVec.toNat_add, BitVec.toNat_ofNat, Nat.add_mod_mod]
    constructor
    · rintro ⟨hne, hrange⟩
      rw [Nat.mod_eq_of_lt (by omega)]
      omega
    · rintro ⟨heq, hpos⟩
      have := Nat.mod_lt (loopCount.toNat + goal.change actual) (Nat.two_pow_pos w)
      omega
  · rw [refine_of_le hmem (not_lt.1 hlt)] at hnext
    split_ifs at hnext with hlt'
    cases hnext
    have hof : (BitVec.ofNat w (goal.change actual)).toNat = goal.change actual := by
      rw [BitVec.toNat_ofNat, Nat.mod_eq_of_lt (by omega)]
    rw [if_neg hlt, BitVec.toNat_sub_of_le (BitVec.le_def.2 (by omega)), hof]
    omega

end Goal

/-- A search begins with the count that it is given. -/
theorem head?_measured (goal : Goal) {passes : ℕ} (hpasses : 0 < passes) (measure : ℕ → ℚ)
    (loopCount : BitVec w) :
    (busyloopSearch goal passes measure loopCount).measured.head? =
      some (loopCount, measure 0) := by
  obtain ⟨passes, rfl⟩ : ∃ n, passes = n + 1 := ⟨passes - 1, by omega⟩
  have hends := ends goal passes measure loopCount
  generalize busyloopSearch goal (passes + 1) measure loopCount = search at hends
  cases hends <;> rfl

/-- The counts follow each other precisely when the measurements are safe. -/
theorem isChain_measured_iff (goal : Goal) (passes : ℕ) (measure : ℕ → ℚ) (loopCount : BitVec w) :
    (busyloopSearch goal passes measure loopCount).measured.IsChain goal.Follows ↔
      goal.SafeFrom w passes measure loopCount.toNat := by
  induction passes generalizing measure loopCount with
  | zero => exact iff_of_true .nil trivial
  | succ passes ih =>
    have hends := ends goal passes measure loopCount
    generalize busyloopSearch goal (passes + 1) measure loopCount = search at hends
    cases hends with
    | failed hneg =>
      exact iff_of_true (.singleton _) (.of_not_refines (fun h => absurd h.1 (not_le.2 hneg)) _)
    | last hneg hlast =>
      subst hlast
      exact iff_of_true (.singleton _) trivial
    | done hneg hlast hdone =>
      exact iff_of_true (.singleton _)
        (.of_not_refines (fun h => h.2.1 (Goal.mem_of_refine hdone)) _)
    | fail hneg hlast rc hfail =>
      obtain ⟨passes, rfl⟩ : ∃ n, passes = n + 1 := ⟨passes - 1, by omega⟩
      refine iff_of_true (.singleton _) fun hrefines => ?_
      obtain ⟨-, hlt, hlt'⟩ := Goal.wanted_of_fail hrefines hfail
      have hk := loopCount.isLt
      rw [Goal.safe_iff, Goal.wanted, if_neg hlt]
      omega
    | next hneg hlast loopCount' hnext =>
      obtain ⟨passes, rfl⟩ : ∃ n, passes = n + 1 := ⟨passes - 1, by omega⟩
      have hrefines := Goal.refines_of_next hneg hnext
      have hsafe := Goal.safe_iff_of_next hrefines hnext
      rw [List.isChain_cons, head?_measured goal passes.succ_pos, ih]
      constructor
      · rintro ⟨hfollows, hrest⟩ -
        obtain ⟨-, hcount, hpos⟩ := hfollows _ rfl
        refine ⟨hsafe.2 ⟨hcount, hpos⟩, fun _ => ?_⟩
        rwa [← hcount, Int.toNat_natCast]
      · intro hsafeFrom
        obtain ⟨hfirst, hrest⟩ := hsafeFrom hrefines
        obtain ⟨hcount, hpos⟩ := hsafe.1 hfirst
        refine ⟨?_, ?_⟩
        · rintro y hy
          obtain rfl := Option.some.inj hy
          exact ⟨hrefines, hcount, hpos⟩
        · have := hrest hpos
          rwa [← hcount, Int.toNat_natCast] at this

/-- When the search stops at a measurement which asks for another count, it fails rightly. -/
theorem stops_measured (goal : Goal) (passes : ℕ) (measure : ℕ → ℚ) (loopCount : BitVec w) :
    let search := busyloopSearch goal passes measure loopCount
    ∀ x ∈ search.measured.getLast?,
      goal.Stops (search.measured.length = passes) (search.rc = ·) x := by
  induction passes generalizing measure loopCount with
  | zero => exact fun x hx => absurd hx (by simp [busyloopSearch])
  | succ passes ih =>
    have hends := ends goal passes measure loopCount
    generalize busyloopSearch goal (passes + 1) measure loopCount = search at hends
    cases hends with
    | failed hneg =>
      dsimp only
      rintro x hx hrefines
      obtain rfl := Option.some.inj hx
      exact absurd hrefines.1 (not_le.2 hneg)
    | last hneg hlast =>
      subst hlast
      dsimp only
      exact fun x _ _ hnot => absurd rfl hnot
    | done hneg hlast hdone =>
      dsimp only
      rintro x hx hrefines
      obtain rfl := Option.some.inj hx
      exact absurd (Goal.mem_of_refine hdone) hrefines.2.1
    | fail hneg hlast rc hfail =>
      dsimp only
      rintro x hx hrefines -
      obtain rfl := Option.some.inj hx
      obtain ⟨hrc, hlt, hlt'⟩ := Goal.wanted_of_fail hrefines hfail
      refine .inr ⟨?_, hrc⟩
      rw [Goal.wanted, if_neg hlt]
      omega
    | next hneg hlast loopCount' hnext =>
      have hne := measured_ne_nil goal (Nat.pos_of_ne_zero hlast) (fun n => measure (n + 1))
        loopCount'
      dsimp only
      rw [List.getLast?_cons_of_ne_nil hne]
      intro x hx hrefines hnot
      refine ih _ _ x hx hrefines fun hlen => hnot ?_
      rw [List.length_cons, hlen]

/-- The first count is returned as it is. -/
def KeepsFirst (goal : Goal) (passes : ℕ) (measure : ℕ → ℚ) : Prop :=
  passes = 0 ∨ 0 ≤ measure 0 ∧ (passes = 1 ∨ measure 0 ∈ goal.tolerated)

theorem rc_of_keepsFirst (loopCount : BitVec w) {passes : ℕ}
    (hkeeps : KeepsFirst goal passes measure) :
    (busyloopSearch goal passes measure loopCount).rc = 0 ∧
      (busyloopSearch goal passes measure loopCount).loopCount = loopCount := by
  cases passes with
  | zero => exact ⟨rfl, rfl⟩
  | succ passes =>
    obtain hpasses | ⟨hneg, hone⟩ := hkeeps
    · exact absurd hpasses (Nat.succ_ne_zero passes)
    · rw [busyloopSearch]
      dsimp only
      rw [if_neg (not_lt.2 hneg)]
      split_ifs with hlast
      · exact ⟨rfl, rfl⟩
      · have hmem : measure 0 ∈ goal.tolerated := hone.resolve_left (by omega)
        rw [Goal.refine_of_mem hmem]
        exact ⟨rfl, rfl⟩

/-- A search whose measurements are safe returns a count which is not zero, except for the first
    one. -/
theorem pos_of_safeFrom {passes : ℕ} (hsafe : goal.SafeFrom w passes measure loopCount.toNat)
    (hkeeps : loopCount.toNat = 0 → ¬ KeepsFirst goal passes measure)
    (hrc : (busyloopSearch goal passes measure loopCount).rc = 0) :
    0 < (busyloopSearch goal passes measure loopCount).loopCount.toNat := by
  induction passes generalizing measure loopCount with
  | zero => exact Nat.pos_of_ne_zero fun hzero => hkeeps hzero (.inl rfl)
  | succ passes ih =>
    have hends := ends goal passes measure loopCount
    generalize busyloopSearch goal (passes + 1) measure loopCount = search at hends hrc ⊢
    cases hends with
    | failed hneg => cases hrc
    | last hneg hlast =>
      exact Nat.pos_of_ne_zero fun hzero => hkeeps hzero (.inr ⟨hneg, .inl (by rw [hlast])⟩)
    | done hneg hlast hdone =>
      refine Nat.pos_of_ne_zero fun hzero => hkeeps hzero (.inr ⟨hneg, .inr ?_⟩)
      exact Goal.mem_of_refine hdone
    | fail hneg hlast rc hfail =>
      have := Goal.rc_of_refine hfail
      dsimp only at hrc
      omega
    | next hneg hlast loopCount' hnext =>
      obtain ⟨passes, rfl⟩ : ∃ n, passes = n + 1 := ⟨passes - 1, by omega⟩
      have hrefines := Goal.refines_of_next hneg hnext
      obtain ⟨hfirst, hrest⟩ := hsafe hrefines
      -- The count after the first one is not zero.
      obtain ⟨hcount, hpos⟩ := (Goal.safe_iff_of_next hrefines hnext).1 hfirst
      have hrest := hrest hpos
      rw [← hcount, Int.toNat_natCast] at hrest
      refine ih hrest (fun hzero => ?_) hrc
      omega

/-! ## Created loops -/

/-- The count that is the last one measured, or else the one predicted. -/
def Creation.finalCount (creation : Creation w) (predicted : ℕ) : ℕ :=
  creation.measured.getLast?.elim predicted fun x => x.1.toNat

/-- A loop which is created has the given count, and as many iterations, at least one. -/
def Creation.Runs (creation : Creation w) (loopCount : ℕ) : Prop :=
  creation.rc = 0 → ∃ obj, creation.result = some obj ∧ obj.loopCount.toNat = loopCount ∧
    0 < loopCount ∧ iterations obj.loopCount = loopCount

/-- The search is made. -/
def Machine.Searches (env : Machine) (w : ℕ) (duration : ℚ) (passes : ℕ) : Prop :=
  env.predicted duration < 2 ^ w ∧ 0 < passes ∧ env.pthreadCreate = true ∧
    env.lockMeToCpu = true ∧ env.schedFifoEnterMax = 0

instance (env : Machine) (w : ℕ) (duration : ℚ) (passes : ℕ) :
    Decidable (env.Searches w duration passes) :=
  inferInstanceAs (Decidable (_ ∧ _))

/-- A creation changes the count exactly. If the thread of the search cannot be joined, its code is
    not returned. -/
structure ExactlyCreated (env : Machine) (duration searchTolerance : ℚ) (passes : ℕ)
    (creation : Creation w) : Prop where
  /-- What is measured first is the prediction. -/
  first : creation.measured.head? =
    if env.Searches w duration passes then some (.ofNat w (env.predicted duration), env.measure 0)
    else none
  measured : ∀ i x, creation.measured[i]? = some x → x.2 = env.measure i
  /-- A count measured after another one is exactly what that one's measurement asks for. -/
  follows : creation.measured.IsChain (Goal.Follows ⟨env.cpuFreqGet, duration, searchTolerance⟩)
  /-- When the last measurement asks for another count, this is out of range, and an error is
      returned. -/
  stops : ∀ x ∈ creation.measured.getLast?,
    Goal.Stops ⟨env.cpuFreqGet, duration, searchTolerance⟩ (creation.measured.length = passes)
      (fun rc => env.pthreadJoin = true → creation.rc = rc) x
  /-- The loop has the last count. -/
  runs : creation.Runs (creation.finalCount (env.predicted duration))

/-- The first count would be that of the loop. -/
def Machine.KeepsFirst (env : Machine) (goal : Goal) (passes : ℕ) : Prop :=
  env.malloc = true ∧
    (passes = 0 ∨ env.pthreadCreate = true ∧ env.pthreadJoin = true ∧ env.lockMeToCpu = true ∧
      env.schedFifoEnterMax = 0) ∧
    Busyloop.KeepsFirst goal passes env.measure

theorem runs_of_rc {creation : Creation w} (hrc : creation.rc ≠ 0) (n : ℕ) : creation.Runs n :=
  fun h => absurd h hrc

theorem runs_createResult (env : Machine) (whichCpu : ℤ) (duration : ℚ) (loopCount : BitVec w)
    (measured : List (BitVec w × ℚ)) :
    (createResult env whichCpu duration loopCount measured).Runs loopCount.toNat ↔
      (env.malloc = true → 0 < loopCount.toNat) := by
  rw [createResult]
  cases hmalloc : env.malloc with
  | false => exact iff_of_true (runs_of_rc (show (-3 : ℤ) ≠ 0 by decide) _) (by simp)
  | true =>
    constructor
    · intro hruns _
      obtain ⟨obj, hobj, -, hpos, -⟩ := hruns rfl
      exact hpos
    · intro hpos _
      have hne : loopCount ≠ 0#w := by
        rintro rfl
        have := hpos rfl
        rw [BitVec.toNat_ofNat, Nat.zero_mod] at this
        omega
      exact ⟨_, rfl, rfl, hpos rfl, iterations_of_ne_zero hne⟩

@[simp]
theorem measured_createResult (env : Machine) (whichCpu : ℤ) (duration : ℚ) (loopCount : BitVec w)
    (measured : List (BitVec w × ℚ)) :
    (createResult env whichCpu duration loopCount measured).measured = measured := by
  rw [createResult]
  split_ifs <;> rfl

theorem busyloopSearchThread_of_ready {env : Machine} (hlock : env.lockMeToCpu = true)
    (hsched : env.schedFifoEnterMax = 0) {passes : ℕ} :
    busyloopSearchThread env goal passes loopCount =
      busyloopSearch goal passes env.measure loopCount := by
  simp [busyloopSearchThread, hlock, hsched]

/-- Without its conditions, the search fails before anything is measured. -/
theorem busyloopSearchThread_of_not_ready {env : Machine} {passes : ℕ}
    (hnot : ¬ (env.lockMeToCpu = true ∧ env.schedFifoEnterMax = 0)) :
    (busyloopSearchThread env goal passes loopCount).rc ≠ 0 ∧
      (busyloopSearchThread env goal passes loopCount).measured = [] := by
  rw [busyloopSearchThread]
  split_ifs with hlock hsched
  · exact ⟨(by decide : (-3 : ℤ) ≠ 0), rfl⟩
  · exact absurd ⟨by simpa using hlock, hsched⟩ hnot
  · exact ⟨(by decide : (-1 : ℤ) ≠ 0), rfl⟩
  · exact ⟨(by decide : (-3 : ℤ) ≠ 0), rfl⟩

section Created

variable {env : Machine} {duration : ℚ} {searchMaxPasses : ℕ}

theorem loopCountTooLong_iff {n : ℕ} : loopCountTooLong w n = true ↔ 2 ^ w ≤ n := by
  have := Nat.two_pow_pos w
  rw [loopCountTooLong, decide_eq_true_eq]
  omega

theorem toNat_ofNat_predicted (hlong : env.predicted duration < 2 ^ w) :
    (BitVec.ofNat w (env.predicted duration)).toNat = env.predicted duration := by
  rw [BitVec.toNat_ofNat, Nat.mod_eq_of_lt hlong]

variable (whichCpu : ℤ) (searchTolerance : ℚ) (result : Option (CpuBusyloop w))

/-- Without a search, nothing is measured, and the prediction is kept or an error is returned. -/
theorem createCpuBusyloop_of_not_searches (hs : ¬ env.Searches w duration searchMaxPasses) :
    let creation :=
      createCpuBusyloop env whichCpu duration searchTolerance searchMaxPasses result
    creation.measured = [] ∧
      (searchMaxPasses = 0 ∧ env.predicted duration < 2 ^ w ∧
          creation = createResult env whichCpu duration (.ofNat w (env.predicted duration)) [] ∨
        creation.rc ≠ 0 ∧ (2 ^ w ≤ env.predicted duration ∨ 0 < searchMaxPasses ∧
          ¬ (env.pthreadCreate = true ∧ env.lockMeToCpu = true ∧ env.schedFifoEnterMax = 0))) := by
  -- When the thread is created, it is not ready.
  have hthread : ¬ loopCountTooLong w (env.predicted duration) = true → 0 < searchMaxPasses →
      ¬ (!env.pthreadCreate) = true →
      ¬ (env.lockMeToCpu = true ∧ env.schedFifoEnterMax = 0) := fun hlong hpasses hcreate h =>
    hs ⟨not_le.1 (mt loopCountTooLong_iff.2 hlong), hpasses, by simpa using hcreate, h⟩
  rw [createCpuBusyloop]
  dsimp only
  split_ifs with hlong hpasses hcreate hjoin hrc
  · exact ⟨rfl, .inr ⟨(by decide : (-4 : ℤ) ≠ 0), .inl (loopCountTooLong_iff.1 hlong)⟩⟩
  · refine ⟨rfl, .inr ⟨(by decide : (-3 : ℤ) ≠ 0), .inr ⟨hpasses, fun h => ?_⟩⟩⟩
    simp [h.1] at hcreate
  · have hready := hthread hlong hpasses hcreate
    exact ⟨(busyloopSearchThread_of_not_ready hready).2,
      .inr ⟨(by decide : (-3 : ℤ) ≠ 0), .inr ⟨hpasses, fun h => hready h.2⟩⟩⟩
  · have hready := hthread hlong hpasses hcreate
    exact ⟨(busyloopSearchThread_of_not_ready hready).2,
      .inr ⟨hrc, .inr ⟨hpasses, fun h => hready h.2⟩⟩⟩
  · exact absurd (not_not.1 hrc)
      (busyloopSearchThread_of_not_ready (hthread hlong hpasses hcreate)).1
  · exact ⟨measured_createResult ..,
      .inl ⟨by omega, not_le.1 (mt loopCountTooLong_iff.2 hlong), rfl⟩⟩

/-- With a search, what it measures is measured, and its code is returned, or its count is kept. -/
theorem createCpuBusyloop_of_searches (hs : env.Searches w duration searchMaxPasses) :
    let creation :=
      createCpuBusyloop env whichCpu duration searchTolerance searchMaxPasses result
    let search := busyloopSearch ⟨env.cpuFreqGet, duration, searchTolerance⟩ searchMaxPasses
      env.measure (.ofNat w (env.predicted duration))
    creation.measured = search.measured ∧
      (search.rc ≠ 0 → env.pthreadJoin = true → creation.rc = search.rc) ∧
      (creation.rc = 0 → search.rc = 0) ∧
      (creation.Runs search.loopCount.toNat ↔
        (env.pthreadJoin = true → search.rc = 0 → env.malloc = true →
          0 < search.loopCount.toNat)) := by
  obtain ⟨hlong, hpasses, hcreate, hlock, hsched⟩ := hs
  have hlong : ¬ loopCountTooLong w (env.predicted duration) = true := fun h =>
    absurd (loopCountTooLong_iff.1 h) (not_le.2 hlong)
  rw [createCpuBusyloop]
  dsimp only
  rw [if_neg hlong, if_pos hpasses, if_neg (by simp [hcreate]),
    busyloopSearchThread_of_ready hlock hsched]
  split_ifs with hjoin hrc
  · have hjoin : ¬ env.pthreadJoin = true := by simpa using hjoin
    have hne : (-3 : ℤ) ≠ 0 := by decide
    exact ⟨rfl, fun _ h => absurd h hjoin, fun h => absurd h hne,
      iff_of_true (runs_of_rc hne _) fun h => absurd h hjoin⟩
  · exact ⟨rfl, fun _ _ => rfl, id, iff_of_true (runs_of_rc hrc _) fun _ h => absurd h hrc⟩
  · have hjoin : env.pthreadJoin = true := by simpa using hjoin
    refine ⟨measured_createResult .., fun h => absurd h hrc, fun _ => not_not.1 hrc, ?_⟩
    rw [runs_createResult]
    exact ⟨fun h _ _ => h, fun h => h hjoin (not_not.1 hrc)⟩

/-- Without a search, only a prediction of zero matters. -/
theorem exactlyCreated_of_not_searches (hs : ¬ env.Searches w duration searchMaxPasses) :
    ExactlyCreated env duration searchTolerance searchMaxPasses
        (createCpuBusyloop env whichCpu duration searchTolerance searchMaxPasses result) ↔
      (env.predicted duration = 0 →
        ¬ env.KeepsFirst ⟨env.cpuFreqGet, duration, searchTolerance⟩ searchMaxPasses) := by
  obtain ⟨hmeasured, hcreation⟩ := createCpuBusyloop_of_not_searches whichCpu searchTolerance
    result hs
  generalize createCpuBusyloop env whichCpu duration searchTolerance searchMaxPasses result =
    creation at hmeasured hcreation
  have hfinal : creation.finalCount (env.predicted duration) = env.predicted duration := by
    rw [Creation.finalCount, hmeasured]
    rfl
  have hexact : ExactlyCreated env duration searchTolerance searchMaxPasses creation ↔
      creation.Runs (env.predicted duration) := by
    refine ⟨fun h => hfinal ▸ h.runs, fun h => ⟨?_, ?_, ?_, ?_, hfinal.symm ▸ h⟩⟩
    · rw [hmeasured, if_neg hs]
      rfl
    · simp [hmeasured]
    · rw [hmeasured]
      exact .nil
    · simp [hmeasured]
  rw [hexact]
  obtain ⟨hpasses, hlong, rfl⟩ | ⟨hrc, hnot⟩ := hcreation
  · have hruns := runs_createResult env whichCpu duration (.ofNat w (env.predicted duration)) []
    rw [toNat_ofNat_predicted hlong] at hruns
    rw [hruns]
    constructor
    · rintro hpos hzero ⟨hmalloc, -⟩
      exact absurd (hpos hmalloc) (by omega)
    · intro hkeeps hmalloc
      exact Nat.pos_of_ne_zero fun hzero => hkeeps hzero ⟨hmalloc, .inl hpasses, .inl hpasses⟩
  · refine iff_of_true (runs_of_rc hrc _) ?_
    rintro hzero ⟨-, hthread, -⟩
    rcases hnot with hlong | ⟨hpasses, hready⟩
    · have := Nat.two_pow_pos w
      omega
    · obtain hthread | ⟨hcreate, -, hlock, hsched⟩ := hthread
      · omega
      · exact hready ⟨hcreate, hlock, hsched⟩

/-- With a search, the measurements matter as well. -/
theorem exactlyCreated_of_searches (hs : env.Searches w duration searchMaxPasses) :
    ExactlyCreated env duration searchTolerance searchMaxPasses
        (createCpuBusyloop env whichCpu duration searchTolerance searchMaxPasses result) ↔
      Goal.SafeFrom w ⟨env.cpuFreqGet, duration, searchTolerance⟩ searchMaxPasses env.measure
          (env.predicted duration) ∧
        (env.predicted duration = 0 →
          ¬ env.KeepsFirst ⟨env.cpuFreqGet, duration, searchTolerance⟩ searchMaxPasses) := by
  have hcount := toNat_ofNat_predicted hs.1
  obtain ⟨hmeasured, hrc, hzero, hruns⟩ :=
    createCpuBusyloop_of_searches whichCpu searchTolerance result hs
  generalize createCpuBusyloop env whichCpu duration searchTolerance searchMaxPasses result =
    creation at hmeasured hrc hzero hruns ⊢
  generalize hgoal : (⟨env.cpuFreqGet, duration, searchTolerance⟩ : Goal) = goal
    at hmeasured hrc hzero hruns
  have hchain := isChain_measured_iff goal searchMaxPasses env.measure
    (.ofNat w (env.predicted duration))
  rw [hcount] at hchain
  obtain ⟨hmeasure, -, hlast, -⟩ := busyloopSearch_spec goal hs.2.1 env.measure
    (.ofNat w (env.predicted duration))
  -- When the search succeeds, its count is the last one.
  have hfinal (h : (busyloopSearch goal searchMaxPasses env.measure
      (.ofNat w (env.predicted duration))).rc = 0) : creation.finalCount (env.predicted duration) =
        (busyloopSearch goal searchMaxPasses env.measure
          (.ofNat w (env.predicted duration))).loopCount.toNat := by
    obtain ⟨actual, hactual, -⟩ := hlast h
    rw [Creation.finalCount, hmeasured, hactual]
    rfl
  constructor
  · rintro ⟨-, -, hfollows, -, hcreated⟩
    rw [hgoal, hmeasured] at hfollows
    refine ⟨hchain.1 hfollows, ?_⟩
    rintro hpredicted ⟨hmalloc, hthread, hkeeps⟩
    obtain ⟨hrc0, hfirst⟩ := rc_of_keepsFirst (.ofNat w (env.predicted duration)) hkeeps
    obtain ⟨-, hjoin, -⟩ := hthread.resolve_left hs.2.1.ne'
    have hpos := hruns.1 (hfinal hrc0 ▸ hcreated) hjoin hrc0 hmalloc
    rw [hfirst, hcount] at hpos
    exact hpos.ne' hpredicted
  · rintro ⟨hsafe, hkeeps⟩
    refine ⟨?_, ?_, ?_, ?_, fun hrc0 => ?_⟩
    · rw [hmeasured, if_pos hs]
      exact head?_measured goal hs.2.1 _ _
    · rw [hmeasured]
      exact hmeasure
    · rw [hgoal, hmeasured]
      exact hchain.2 hsafe
    · rw [hgoal, hmeasured]
      intro x hx hrefines hnot
      have hstops := stops_measured goal searchMaxPasses env.measure
        (.ofNat w (env.predicted duration)) x hx hrefines hnot
      refine hstops.imp (.imp_right fun h hjoin => ?_) (.imp_right fun h hjoin => ?_)
      all_goals exact (hrc (h.trans_ne (by decide)) hjoin).trans h
    · have hsearch := hzero hrc0
      rw [hfinal hsearch]
      refine hruns.2 (fun hjoin _ hmalloc => ?_) hrc0
      refine pos_of_safeFrom (hcount.symm ▸ hsafe) (fun h0 hfirst => ?_) hsearch
      exact hkeeps (hcount ▸ h0) ⟨hmalloc, .inr ⟨hs.2.2.1, hjoin, hs.2.2.2⟩, hfirst⟩

end Created

/-- Counts are changed exactly, and loops have the iterations that their counts say, precisely when
    no measurement of the search asks for a count of zero or beyond the range, and a prediction of
    zero is not kept. -/
theorem exactlyCreated_iff (w : ℕ) (env : Machine) (whichCpu : ℤ) (duration searchTolerance : ℚ)
    (searchMaxPasses : ℕ) (result : Option (CpuBusyloop w)) :
    ExactlyCreated env duration searchTolerance searchMaxPasses
        (createCpuBusyloop env whichCpu duration searchTolerance searchMaxPasses result) ↔
      (env.Searches w duration searchMaxPasses →
        Goal.SafeFrom w ⟨env.cpuFreqGet, duration, searchTolerance⟩ searchMaxPasses env.measure
          (env.predicted duration)) ∧
      (env.predicted duration = 0 →
        ¬ env.KeepsFirst ⟨env.cpuFreqGet, duration, searchTolerance⟩ searchMaxPasses) := by
  by_cases hs : env.Searches w duration searchMaxPasses
  · rw [exactlyCreated_of_searches whichCpu searchTolerance result hs, imp_iff_right hs]
  · rw [exactlyCreated_of_not_searches whichCpu searchTolerance result hs]
    exact (and_iff_right fun h => absurd h hs).symm

/-- A machine on which all calls succeed. -/
def ready (cpuFreqGet : ℕ) (measure : ℕ → ℚ) : Machine where
  cpuFreqGet := cpuFreqGet
  pthreadCreate := true
  pthreadJoin := true
  lockMeToCpu := true
  schedFifoEnterMax := 0
  malloc := true
  measure := measure

/-- When the frequency cannot be read, a loop is created with a count of zero; a count close to the
    end of its range wraps when its loop is a little too short; and when a loop lasts for twice the
    duration, its count comes to zero. -/
theorem not_exactlyCreated :
    ¬ ExactlyCreated (ready 0 fun _ => 1) 1 0 0
        (createCpuBusyloop (w := 32) (ready 0 fun _ => 1) 0 1 0 0 none) ∧
      ¬ ExactlyCreated (ready (2 ^ 32 - 1) fun _ => 19 / 20) 1 0 2
        (createCpuBusyloop (w := 32) (ready (2 ^ 32 - 1) fun _ => 19 / 20) 0 1 0 2 none) ∧
      ¬ ExactlyCreated (ready 10 fun _ => 2) 1 0 2
        (createCpuBusyloop (w := 32) (ready 10 fun _ => 2) 0 1 0 2 none) := by
  refine ⟨?_, ?_, ?_⟩
  · rintro ⟨-, -, -, -, hruns⟩
    obtain ⟨-, -, -, hpos, -⟩ := hruns (by decide +kernel)
    exact absurd hpos (by decide +kernel)
  · rintro ⟨-, -, hfollows, -, -⟩
    have hmeasured : (createCpuBusyloop (w := 32) (ready (2 ^ 32 - 1) fun _ => 19 / 20) 0 1 0 2
        none).measured = [(4294967295#32, 19 / 20), (214748363#32, 19 / 20)] := by decide +kernel
    rw [hmeasured, List.isChain_cons] at hfollows
    have hcount := (hfollows.1 _ rfl).2.1
    exact absurd hcount (by decide +kernel)
  · rintro ⟨-, -, hfollows, -, -⟩
    have hmeasured : (createCpuBusyloop (w := 32) (ready 10 fun _ => 2) 0 1 0 2 none).measured =
        [(10#32, 2), (0#32, 2)] := by decide +kernel
    rw [hmeasured, List.isChain_cons] at hfollows
    have hpos := (hfollows.1 _ rfl).2.2
    exact absurd hpos (by decide +kernel)

end RealtimeTests.Busyloop
