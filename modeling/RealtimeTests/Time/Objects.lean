import RealtimeTests.Time

/-!
# Time objects

The functions of `utility_time.h` that store a time take pointers to `utility_time`
objects, any of which may be the same one. Here they are given as they access the
memory, field by field: when the nanoseconds of a result are computed, its seconds
have been stored already, possibly over those of an operand.

The nanoseconds of the operands are still there then, so that it does not matter
which objects coincide: an object is changed only by storing the time that is
computed from the values of the operands before (`utilityTimeAddAt_eq`,
`utilityTimeSubAt_eq`, `utilityTimeMulAt_eq`). On normalised times which are not
negative, the computations are exact (`utilityTime_exact`), and those of
nanoseconds stay within 32 bits (`Long32`).
-/

namespace RealtimeTests

/-- `utility_time` objects at addresses in `ι`. -/
abbrev Objects (ι : Type*) (h : Host) := ι → UtilityTime h

variable {h : Host} {ι : Type*} [DecidableEq ι]

namespace Objects

/-- `p->t.tv_sec = s`. -/
def setSec (p : ι) (s : BitVec h.timeBits) (m : Objects ι h) : Objects ι h :=
  Function.update m p { m p with tvSec := s }

/-- `p->t.tv_nsec = ns`. -/
def setNsec (p : ι) (ns : BitVec h.longBits) (m : Objects ι h) : Objects ι h :=
  Function.update m p { m p with tvNsec := ns }

/-- Storing seconds leaves all the nanoseconds as they are. -/
@[simp]
theorem tvNsec_setSec (p q : ι) (s : BitVec h.timeBits) (m : Objects ι h) :
    (m.setSec p s q).tvNsec = (m q).tvNsec := by
  by_cases hq : q = p
  · subst hq
    simp [setSec]
  · simp [setSec, hq]

/-- Storing both fields is storing a time. -/
theorem setNsec_setSec (p : ι) (s : BitVec h.timeBits) (ns : BitVec h.longBits)
    (m : Objects ι h) : (m.setSec p s).setNsec p ns = Function.update m p ⟨s, ns⟩ := by
  simp [setNsec, setSec]

end Objects

/-! ## The functions -/

/-- `to_utility_time`. -/
def toUtilityTimeAt (t : BitVec 64) (tUnit : TimeUnit) (internalT : ι) (m : Objects ι h) :
    Objects ι h :=
  let m := m.setSec internalT (toUtilityTime t tUnit : UtilityTime h).tvSec
  m.setNsec internalT (toUtilityTime t tUnit : UtilityTime h).tvNsec

/-- `utility_time_add`. -/
def utilityTimeAddAt (t1 t2 res : ι) (m : Objects ι h) : Objects ι h :=
  let m := m.setSec res ((m t1).tvSec + (m t2).tvSec + (combinedNsInS (m t1) (m t2)).setWidth _)
  m.setNsec res (combinedNsLeftover (m t1) (m t2))

/-- `utility_time_inc`. -/
def utilityTimeIncAt (target inc : ι) (m : Objects ι h) : Objects ι h :=
  utilityTimeAddAt target inc target m

/-- `utility_time_sub`. -/
def utilityTimeSubAt (t1 t2 res : ι) (m : Objects ι h) : Objects ι h :=
  if utilityTimeLe (m t1) (m t2) then Function.update m res utilityTimeZeroT
  else if (m t1).tvNsec.slt (m t2).tvNsec then
    let m := m.setSec res ((m t1).tvSec - 1 - (m t2).tvSec)
    m.setNsec res (.ofNat _ billion + (m t1).tvNsec - (m t2).tvNsec)
  else
    let m := m.setSec res ((m t1).tvSec - (m t2).tvSec)
    m.setNsec res ((m t1).tvNsec - (m t2).tvNsec)

/-- `utility_time_mul`. The sum is a local variable, which is none of the objects. -/
def utilityTimeMulAt (t1 : ι) (n : BitVec 32) (res : ι) (m : Objects ι h) : Objects ι h :=
  let t := utilityTimeMulLoop (m t1) n.toNat utilityTimeZeroT
  let m := m.setSec res t.tvSec
  m.setNsec res t.tvNsec

theorem toUtilityTimeAt_eq (t : BitVec 64) (tUnit : TimeUnit) (internalT : ι) (m : Objects ι h) :
    toUtilityTimeAt t tUnit internalT m = Function.update m internalT (toUtilityTime t tUnit) :=
  Objects.setNsec_setSec ..

/-- Whichever objects coincide, the sum of the values before is stored. -/
theorem utilityTimeAddAt_eq (t1 t2 res : ι) (m : Objects ι h) :
    utilityTimeAddAt t1 t2 res m = Function.update m res (utilityTimeAdd (m t1) (m t2)) := by
  rw [utilityTimeAddAt, combinedNsLeftover, Objects.tvNsec_setSec, Objects.tvNsec_setSec,
    Objects.setNsec_setSec]
  rfl

/-- Whichever objects coincide, the difference of the values before is stored. -/
theorem utilityTimeSubAt_eq (t1 t2 res : ι) (m : Objects ι h) :
    utilityTimeSubAt t1 t2 res m = Function.update m res (utilityTimeSub (m t1) (m t2)) := by
  rw [utilityTimeSubAt, utilityTimeSub]
  simp only [Objects.tvNsec_setSec, Objects.setNsec_setSec]
  split_ifs <;> rfl

theorem utilityTimeMulAt_eq (t1 : ι) (n : BitVec 32) (res : ι) (m : Objects ι h) :
    utilityTimeMulAt t1 n res m = Function.update m res (utilityTimeMul (m t1) n) :=
  Objects.setNsec_setSec ..

/-! ## Exactness -/

/-- A number fits a signed `long` of 32 bits. -/
def Long32 (v : ℤ) : Prop := -2 ^ 31 ≤ v ∧ v < 2 ^ 31

/-- The nanoseconds computed by `combined_ns_in_s` and `combined_ns_leftover`. -/
def nsOfAdd (t1 t2 : UtilityTime h) : List ℤ :=
  let ns := t1.tvNsec.toInt + t2.tvNsec.toInt
  [ns, ns.tdiv billion, ns.tmod billion]

/-- The nanoseconds computed by `utility_time_sub`. -/
def nsOfSub (t1 t2 : UtilityTime h) : List ℤ :=
  if utilityTimeLe t1 t2 then []
  else if t1.tvNsec.slt t2.tvNsec then
    [billion + t1.tvNsec.toInt, billion + t1.tvNsec.toInt - t2.tvNsec.toInt]
  else [t1.tvNsec.toInt - t2.tvNsec.toInt]

/-- The nanoseconds computed by `utility_time_mul`, in each round of its loop. -/
def nsOfMul (t1 : UtilityTime h) (n : BitVec 32) : List ℤ :=
  (List.range n.toNat).flatMap fun k => nsOfAdd (utilityTimeMulLoop t1 k utilityTimeZeroT) t1

/-- The nanoseconds computed by `to_utility_time`. -/
def nsOfUnits (t : ℕ) : TimeUnit → ℤ
  | .s => 0
  | .ms => t % 1000 * 1000000
  | .us => t % 1000000 * 1000
  | .ns => t % billion

section Long32

variable {t1 t2 : UtilityTime h} (h1 : t1.Normalised) (h2 : t2.Normalised)
include h1 h2

theorem long32_nsOfAdd : ∀ v ∈ nsOfAdd t1 t2, Long32 v := by
  have hsum := tvNsec_add_mem h1 h2
  have hdiv := Int.tdiv_eq_ediv_of_nonneg (b := (billion : ℤ)) hsum.1
  have hmod := Int.tmod_eq_emod_of_nonneg (b := (billion : ℤ)) hsum.1
  simp only [nsOfAdd, hdiv, hmod, Long32, List.forall_mem_cons, List.not_mem_nil, false_imp_iff,
    implies_true, and_true]
  simp only [billion] at hsum ⊢
  omega

theorem long32_nsOfSub : ∀ v ∈ nsOfSub t1 t2, Long32 v := by
  have hn1 := h1
  have hn2 := h2
  simp only [Timespec.Normalised, billion] at hn1 hn2
  rw [nsOfSub]
  split_ifs <;> simp only [Long32, List.forall_mem_cons, List.not_mem_nil, false_imp_iff,
    implies_true, and_true, billion]
  all_goals omega

end Long32

theorem long32_nsOfUnits (t : ℕ) (tUnit : TimeUnit) : Long32 (nsOfUnits t tUnit) := by
  cases tUnit <;> simp only [nsOfUnits, Long32, billion] <;> omega

/-- After an operation, the object `res` has a normalised time of the value `v`, and the other
    objects are as before. -/
structure Objects.Exact (m m' : Objects ι h) (res : ι) (v : ℤ) : Prop where
  normalised : (m' res).Normalised
  value : (m' res).value = v
  others : ∀ p ≠ res, m' p = m p

/-- Storing a time of the value `v`. -/
theorem Objects.exact_update {m : Objects ι h} {res : ι} {t : UtilityTime h} {v : ℤ}
    (ht : t.Normalised ∧ t.value = v) : m.Exact (Function.update m res t) res v where
  normalised := by rw [Function.update_self]; exact ht.1
  value := by rw [Function.update_self]; exact ht.2
  others p hp := Function.update_of_ne hp _ _

/-- In each round of the multiplication, the sum is still normalised. -/
theorem long32_nsOfMul {t1 : UtilityTime h} (h1 : t1.Normalised) {n : BitVec 32}
    (hfit : ∀ k ≤ n.toNat, FitsTimeT h (k * t1.value)) : ∀ v ∈ nsOfMul t1 n, Long32 v := by
  intro v hv
  obtain ⟨k, hk, hv⟩ := List.mem_flatMap.1 hv
  have hk := List.mem_range.1 hk
  refine long32_nsOfAdd (utilityTimeMulLoop_spec h1 utilityTimeZeroT_normalised fun j hj => ?_).1
    h1 v hv
  rw [utilityTimeZeroT_value, zero_add]
  exact hfit j (by omega)

/-- Time arithmetic is exact on normalised times that are not negative, whichever of the objects
    coincide, and no computation of nanoseconds leaves 32 bits. -/
theorem utilityTime_exact {m : Objects ι h} {t1 t2 : ι} (h1 : (m t1).Normalised)
    (h2 : (m t2).Normalised) (hs1 : 0 ≤ (m t1).tvSec.toInt) (hs2 : 0 ≤ (m t2).tvSec.toInt)
    (res : ι) :
    (FitsTimeT h ((m t1).value + (m t2).value) →
      m.Exact (utilityTimeAddAt t1 t2 res m) res ((m t1).value + (m t2).value) ∧
      m.Exact (utilityTimeIncAt t1 t2 m) t1 ((m t1).value + (m t2).value)) ∧
    m.Exact (utilityTimeSubAt t1 t2 res m) res (max 0 ((m t1).value - (m t2).value)) ∧
    (∀ n : BitVec 32, FitsTimeT h (n.toNat * (m t1).value) →
      m.Exact (utilityTimeMulAt t1 n res m) res (n.toNat * (m t1).value) ∧
      ∀ v ∈ nsOfMul (m t1) n, Long32 v) ∧
    (∀ (t : BitVec 64) (tUnit : TimeUnit), FitsTimeT h (t.toNat * tUnit.inNs) →
      m.Exact (toUtilityTimeAt t tUnit res m) res (t.toNat * tUnit.inNs) ∧
      Long32 (nsOfUnits t.toNat tUnit)) ∧
    (∀ v ∈ nsOfAdd (m t1) (m t2), Long32 v) ∧ (∀ v ∈ nsOfSub (m t1) (m t2), Long32 v) ∧
    (utilityTimeEq (m t1) (m t2) = true ↔ (m t1).value = (m t2).value) ∧
    (utilityTimeNe (m t1) (m t2) = true ↔ (m t1).value ≠ (m t2).value) ∧
    (utilityTimeLt (m t1) (m t2) = true ↔ (m t1).value < (m t2).value) ∧
    (utilityTimeLe (m t1) (m t2) = true ↔ (m t1).value ≤ (m t2).value) ∧
    (utilityTimeGt (m t1) (m t2) = true ↔ (m t1).value > (m t2).value) ∧
    (utilityTimeGe (m t1) (m t2) = true ↔ (m t1).value ≥ (m t2).value) := by
  have hv1 := h1.value_nonneg hs1
  have hv2 := h2.value_nonneg hs2
  have hsub := utilityTimeSub_spec h1 h2 (h1.fitsTimeT.of_le (le_max_left _ _) (by omega))
  refine ⟨fun hfit => ?_, ?_, fun n hfit => ?_, fun t tUnit hfit => ?_, long32_nsOfAdd h1 h2,
    long32_nsOfSub h1 h2, utilityTimeEq_iff h1 h2, utilityTimeNe_iff h1 h2,
    utilityTimeLt_iff h1 h2, utilityTimeLe_iff h1 h2, utilityTimeGt_iff h1 h2,
    utilityTimeGe_iff h1 h2⟩
  · have hadd := utilityTimeAdd_spec h1 h2 hfit
    rw [utilityTimeIncAt, utilityTimeAddAt_eq, utilityTimeAddAt_eq]
    exact ⟨Objects.exact_update hadd, Objects.exact_update hadd⟩
  · rw [utilityTimeSubAt_eq]
    exact Objects.exact_update hsub
  · -- The multiples on the way are not greater than the result.
    have hfits : ∀ k ≤ n.toNat, FitsTimeT h (k * (m t1).value) := fun k hk =>
      hfit.of_le (by positivity) (mul_le_mul_of_nonneg_right (by exact_mod_cast hk) hv1)
    rw [utilityTimeMulAt_eq]
    exact ⟨Objects.exact_update (utilityTimeMul_spec h1 hfits), long32_nsOfMul h1 hfits⟩
  · rw [toUtilityTimeAt_eq]
    exact ⟨Objects.exact_update (toUtilityTime_spec hfit), long32_nsOfUnits _ _⟩

/-- The objects of an example: one second, and half a second. -/
def Objects.seconds : Objects Bool .lp64
  | true => ⟨1, 0⟩
  | false => ⟨0, 500000000⟩

/-- The difference is stored over the subtrahend. -/
theorem utilityTime_exact_seconds :
    Objects.seconds.Exact (utilityTimeSubAt true false false .seconds) false 500000000 := by
  have hvalue : max 0 ((Objects.seconds true).value - (Objects.seconds false).value) =
      500000000 := by decide
  rw [← hvalue]
  exact (utilityTime_exact (by decide) (by decide) (by decide) (by decide) false).2.1

end RealtimeTests
