import RealtimeTests.Host

/-!
# Times

`utility_time.h`: times in seconds and nanoseconds, with their arithmetic. A
`utility_time` is a `struct timespec` and two flags for its deallocation, which
no computation looks at; it is modelled by the former.

The *value* of a time is its length in nanoseconds, and a time is *normalised*
when its nanoseconds are less than a second. On normalised times, addition and
multiplication are exact as long as the result has seconds that fit `time_t`
(`utilityTimeAdd_spec`, `utilityTimeMul_spec`), subtraction is exact down to zero
(`utilityTimeSub_spec`), and comparisons compare the values (`utilityTimeLt_iff`).
-/

namespace RealtimeTests

/-- `struct timespec`. -/
@[ext]
structure Timespec (h : Host) where
  tvSec : BitVec h.timeBits
  tvNsec : BitVec h.longBits
  deriving DecidableEq

/-- The internal representation of a time. -/
abbrev UtilityTime := Timespec

variable {h : Host}

/-! ## The functions of `utility_time.h` -/

/-- `BILLION`. -/
def billion : ℕ := 1000000000

/-- The second part of the sum of the ns parts. -/
def combinedNsInS (t1 t2 : UtilityTime h) : ULong h :=
  (t1.tvNsec + t2.tvNsec).sdiv (.ofNat _ billion)

/-- The ns part of the sum of the ns parts. -/
def combinedNsLeftover (t1 t2 : UtilityTime h) : ULong h :=
  (t1.tvNsec + t2.tvNsec).srem (.ofNat _ billion)

/-- The zero time. -/
def utilityTimeZeroT : UtilityTime h := ⟨0, 0⟩

/-- `enum time_unit`. -/
inductive TimeUnit
  | s
  | ms
  | us
  | ns
  deriving DecidableEq, Repr

/-- `to_utility_time`; `t` is an `unsigned long long`. -/
def toUtilityTime (t : BitVec 64) : TimeUnit → UtilityTime h
  | .s => ⟨t.setWidth _, 0⟩
  | .ms => ⟨(t / 1000).setWidth _, (t % 1000 * 1000000).setWidth _⟩
  | .us => ⟨(t / 1000000).setWidth _, (t % 1000000 * 1000).setWidth _⟩
  | .ns => ⟨(t / .ofNat _ billion).setWidth _, (t % .ofNat _ billion).setWidth _⟩

def utilityTimeEq (t1 t2 : UtilityTime h) : Bool :=
  t1.tvSec == t2.tvSec && t1.tvNsec == t2.tvNsec

def utilityTimeLt (t1 t2 : UtilityTime h) : Bool :=
  t1.tvSec.slt t2.tvSec || (t1.tvSec == t2.tvSec && t1.tvNsec.slt t2.tvNsec)

def utilityTimeLe (t1 t2 : UtilityTime h) : Bool :=
  utilityTimeEq t1 t2 || utilityTimeLt t1 t2

def utilityTimeGt (t1 t2 : UtilityTime h) : Bool := !utilityTimeLe t1 t2

def utilityTimeGe (t1 t2 : UtilityTime h) : Bool := !utilityTimeLt t1 t2

def utilityTimeNe (t1 t2 : UtilityTime h) : Bool := !utilityTimeEq t1 t2

def utilityTimeAdd (t1 t2 : UtilityTime h) : UtilityTime h where
  tvSec := t1.tvSec + t2.tvSec + (combinedNsInS t1 t2).setWidth _
  tvNsec := combinedNsLeftover t1 t2

/-- `utility_time_inc`: the new value of `target`. -/
def utilityTimeInc (target inc : UtilityTime h) : UtilityTime h := utilityTimeAdd target inc

/-- `max(0, t1 - t2)`. -/
def utilityTimeSub (t1 t2 : UtilityTime h) : UtilityTime h :=
  if utilityTimeLe t1 t2 then utilityTimeZeroT
  else if t1.tvNsec.slt t2.tvNsec then
    { tvSec := t1.tvSec - 1 - t2.tvSec
      tvNsec := .ofNat _ billion + t1.tvNsec - t2.tvNsec }
  else
    { tvSec := t1.tvSec - t2.tvSec
      tvNsec := t1.tvNsec - t2.tvNsec }

/-- The loop of `utility_time_mul`: `n` increments of `t` by `t1`. -/
def utilityTimeMulLoop (t1 : UtilityTime h) : ℕ → UtilityTime h → UtilityTime h
  | 0, t => t
  | n + 1, t => utilityTimeMulLoop t1 n (utilityTimeInc t t1)

/-- `utility_time_mul`; `n` is an `unsigned`. -/
def utilityTimeMul (t1 : UtilityTime h) (n : BitVec 32) : UtilityTime h :=
  utilityTimeMulLoop t1 n.toNat utilityTimeZeroT

/-! ## Values -/

namespace Timespec

/-- The nanoseconds are less than a second. -/
def Normalised (t : Timespec h) : Prop := 0 ≤ t.tvNsec.toInt ∧ t.tvNsec.toInt < billion

instance (t : Timespec h) : Decidable t.Normalised := inferInstanceAs (Decidable (_ ∧ _))

/-- The length of a time in nanoseconds. -/
def value (t : Timespec h) : ℤ := t.tvSec.toInt * billion + t.tvNsec.toInt

end Timespec

/-- The seconds of a length of `v` nanoseconds fit `time_t`. -/
def FitsTimeT (h : Host) (v : ℤ) : Prop :=
  -2 ^ h.timeBits ≤ v / billion * 2 ∧ v / billion * 2 < 2 ^ h.timeBits

instance (v : ℤ) : Decidable (FitsTimeT h v) := inferInstanceAs (Decidable (_ ∧ _))

/-- A signed computation modulo `2 ^ w` is exact when its result fits `w` bits. -/
theorem bmod_eq_of_fits {w : ℕ} {s : ℤ} (hl : -2 ^ w ≤ s * 2) (hu : s * 2 < 2 ^ w) :
    s.bmod (2 ^ w) = s :=
  Int.bmod_eq_of_le_mul_two (by push_cast; exact hl) (by push_cast; exact hu)

theorem toInt_billion : (BitVec.ofNat h.longBits billion).toInt = billion := by
  have := h.two_pow_32_le_longBits
  rw [BitVec.toInt_ofNat', bmod_eq_of_fits] <;> simp [billion] <;> norm_cast <;> omega

/-- The unit in nanoseconds. -/
def TimeUnit.inNs : TimeUnit → ℕ
  | s => billion
  | ms => 1000000
  | us => 1000
  | ns => 1

/-- Widening or narrowing an unsigned number is exact when it fits as a signed one. -/
theorem toInt_setWidth_of_lt {v w : ℕ} {x : BitVec v} (hx : (x.toNat : ℤ) * 2 < 2 ^ w) :
    (x.setWidth w).toInt = x.toNat := by
  rw [BitVec.toInt_setWidth, bmod_eq_of_fits _ hx]
  have : (0 : ℤ) < 2 ^ w := by positivity
  omega

/-- Converting a number of units is exact, if the result fits. -/
theorem toUtilityTime_spec {t : BitVec 64} {tUnit : TimeUnit}
    (hfit : FitsTimeT h (t.toNat * tUnit.inNs)) :
    (toUtilityTime t tUnit : UtilityTime h).Normalised ∧
      (toUtilityTime t tUnit : UtilityTime h).value = t.toNat * tUnit.inNs := by
  have hpow : (2 : ℤ) ^ 32 ≤ 2 ^ h.longBits := by exact_mod_cast h.two_pow_32_le_longBits
  have hlt := t.isLt
  -- The nanoseconds are less than a second, so that their products do not overflow.
  have hms : (t % 1000 * 1000000).toNat = t.toNat % 1000 * 1000000 := by
    rw [BitVec.toNat_mul, BitVec.toNat_umod]
    exact Nat.mod_eq_of_lt (by simp; omega)
  have hus : (t % 1000000 * 1000).toNat = t.toNat % 1000000 * 1000 := by
    rw [BitVec.toNat_mul, BitVec.toNat_umod]
    exact Nat.mod_eq_of_lt (by simp; omega)
  rw [FitsTimeT] at hfit
  cases tUnit <;> simp only [TimeUnit.inNs, billion] at hfit <;>
    simp only [toUtilityTime, Timespec.Normalised, Timespec.value, billion, TimeUnit.inNs]
  case s =>
    rw [toInt_setWidth_of_lt (by omega), show (0 : BitVec h.longBits).toInt = 0 from
      BitVec.toInt_zero]
    omega
  case ms =>
    have hns : ((t % 1000 * 1000000).setWidth h.longBits).toInt = t.toNat % 1000 * 1000000 := by
      rw [toInt_setWidth_of_lt] <;> rw [hms] <;> push_cast <;> omega
    rw [hns, toInt_setWidth_of_lt] <;> simp <;> omega
  case us =>
    have hns : ((t % 1000000 * 1000).setWidth h.longBits).toInt = t.toNat % 1000000 * 1000 := by
      rw [toInt_setWidth_of_lt] <;> rw [hus] <;> push_cast <;> omega
    rw [hns, toInt_setWidth_of_lt] <;> simp <;> omega
  case ns => rw [toInt_setWidth_of_lt, toInt_setWidth_of_lt] <;> simp <;> omega

/-- Lengths below one that fits do so. -/
theorem FitsTimeT.of_le {v v' : ℤ} (hfit : FitsTimeT h v') (hv : 0 ≤ v) (hle : v ≤ v') :
    FitsTimeT h v := by
  have hpow : (0 : ℤ) < 2 ^ h.timeBits := by positivity
  simp only [FitsTimeT, billion] at hfit ⊢
  omega

/-- The value of a normalised time fits. -/
theorem Timespec.Normalised.fitsTimeT {t : Timespec h} (ht : t.Normalised) :
    FitsTimeT h t.value := by
  have hsec : t.value / billion = t.tvSec.toInt := by
    have hn := ht
    simp only [Timespec.Normalised, Timespec.value, billion] at hn ⊢
    omega
  have hlo := t.tvSec.le_two_mul_toInt
  have hhi := t.tvSec.two_mul_toInt_lt
  rw [FitsTimeT, hsec]
  omega

/-- A normalised time is not negative when its seconds are not. -/
theorem Timespec.Normalised.value_nonneg {t : Timespec h} (ht : t.Normalised)
    (hs : 0 ≤ t.tvSec.toInt) : 0 ≤ t.value := by
  have hn := ht.1
  rw [Timespec.value]
  positivity

section Add

variable {t1 t2 : UtilityTime h} (h1 : t1.Normalised) (h2 : t2.Normalised)
include h1 h2

/-- The nanoseconds of two normalised times are less than two seconds. -/
theorem tvNsec_add_mem : 0 ≤ t1.tvNsec.toInt + t2.tvNsec.toInt ∧
    t1.tvNsec.toInt + t2.tvNsec.toInt < 2 * billion :=
  ⟨add_nonneg h1.1 h2.1, by linarith [h1.2, h2.2]⟩

/-- So they carry at most one second. -/
theorem carry_mem : 0 ≤ (t1.tvNsec.toInt + t2.tvNsec.toInt) / billion ∧
    (t1.tvNsec.toInt + t2.tvNsec.toInt) / billion ≤ 1 := by
  have := tvNsec_add_mem h1 h2
  simp only [billion] at this ⊢
  omega

/-- They add up in a 32-bit `long`. -/
theorem toInt_tvNsec_add :
    (t1.tvNsec + t2.tvNsec).toInt = t1.tvNsec.toInt + t2.tvNsec.toInt := by
  have := tvNsec_add_mem h1 h2
  have hpow : (2 : ℤ) ^ 32 ≤ 2 ^ h.longBits := by exact_mod_cast h.two_pow_32_le_longBits
  simp only [billion] at this
  rw [BitVec.toInt_add, bmod_eq_of_fits (by omega) (by omega)]

theorem toInt_combinedNsLeftover :
    (combinedNsLeftover t1 t2).toInt = (t1.tvNsec.toInt + t2.tvNsec.toInt) % billion := by
  rw [combinedNsLeftover, BitVec.toInt_srem, toInt_tvNsec_add h1 h2, toInt_billion,
    Int.tmod_eq_emod_of_nonneg (tvNsec_add_mem h1 h2).1]

theorem toNat_combinedNsInS :
    ((combinedNsInS t1 t2).toNat : ℤ) = (t1.tvNsec.toInt + t2.tvNsec.toInt) / billion := by
  have hc := carry_mem h1 h2
  have hpow : (2 : ℤ) ^ 32 ≤ 2 ^ h.longBits := by exact_mod_cast h.two_pow_32_le_longBits
  have hi : (combinedNsInS t1 t2).toInt = (t1.tvNsec.toInt + t2.tvNsec.toInt) / billion := by
    rw [combinedNsInS, BitVec.toInt_sdiv, toInt_tvNsec_add h1 h2, toInt_billion,
      Int.tdiv_eq_ediv_of_nonneg (tvNsec_add_mem h1 h2).1, bmod_eq_of_fits] <;> omega
  have hlt := (combinedNsInS t1 t2).isLt
  rw [BitVec.toInt_eq_toNat_cond] at hi
  split_ifs at hi with hpos
  · exact hi
  · omega

/-- The carry, as added to the seconds. -/
theorem toInt_setWidth_combinedNsInS :
    ((combinedNsInS t1 t2).setWidth h.timeBits).toInt =
      (t1.tvNsec.toInt + t2.tvNsec.toInt) / billion := by
  have hc := carry_mem h1 h2
  have hpow : (2 : ℤ) ^ 32 ≤ 2 ^ h.timeBits := by exact_mod_cast h.two_pow_32_le_timeBits
  rw [BitVec.toInt_setWidth, toNat_combinedNsInS h1 h2, bmod_eq_of_fits] <;> omega

/-- Adding normalised times is exact, if the result fits. -/
theorem utilityTimeAdd_spec (hfit : FitsTimeT h (t1.value + t2.value)) :
    (utilityTimeAdd t1 t2).Normalised ∧ (utilityTimeAdd t1 t2).value = t1.value + t2.value := by
  have hn : (utilityTimeAdd t1 t2).tvNsec.toInt =
      (t1.tvNsec.toInt + t2.tvNsec.toInt) % billion := toInt_combinedNsLeftover h1 h2
  have hs : (utilityTimeAdd t1 t2).tvSec.toInt = t1.tvSec.toInt + t2.tvSec.toInt +
      (t1.tvNsec.toInt + t2.tvNsec.toInt) / billion := by
    have hsec : (t1.value + t2.value) / billion = t1.tvSec.toInt + t2.tvSec.toInt +
        (t1.tvNsec.toInt + t2.tvNsec.toInt) / billion := by
      simp only [Timespec.value, billion]
      omega
    rw [FitsTimeT, hsec] at hfit
    rw [utilityTimeAdd, BitVec.toInt_add, BitVec.toInt_add, Int.bmod_add_bmod,
      toInt_setWidth_combinedNsInS h1 h2, bmod_eq_of_fits hfit.1 hfit.2]
  simp only [Timespec.Normalised, Timespec.value, hn, hs, billion]
  omega

end Add

section Compare

variable {t1 t2 : UtilityTime h} (h1 : t1.Normalised) (h2 : t2.Normalised)
include h1 h2

/-- Normalised times are equal when their values are. -/
theorem utilityTimeEq_iff : utilityTimeEq t1 t2 = true ↔ t1.value = t2.value := by
  have hn1 := h1.2
  have hn2 := h2.2
  simp only [utilityTimeEq, Bool.and_eq_true, beq_iff_eq, ← BitVec.toInt_inj, Timespec.value,
    billion] at *
  have := h1.1
  have := h2.1
  omega

/-- The order of normalised times is that of their values. -/
theorem utilityTimeLt_iff : utilityTimeLt t1 t2 = true ↔ t1.value < t2.value := by
  have hn1 := h1.2
  have hn2 := h2.2
  simp only [utilityTimeLt, Bool.or_eq_true, Bool.and_eq_true, beq_iff_eq, BitVec.slt_iff_toInt_lt,
    ← BitVec.toInt_inj, Timespec.value, billion] at *
  have := h1.1
  have := h2.1
  omega

theorem utilityTimeLe_iff : utilityTimeLe t1 t2 = true ↔ t1.value ≤ t2.value := by
  rw [utilityTimeLe, Bool.or_eq_true, utilityTimeEq_iff h1 h2, utilityTimeLt_iff h1 h2,
    le_iff_eq_or_lt]

theorem utilityTimeGt_iff : utilityTimeGt t1 t2 = true ↔ t2.value < t1.value := by
  rw [utilityTimeGt, Bool.not_eq_true', Bool.eq_false_iff, ne_eq, utilityTimeLe_iff h1 h2, not_le]

theorem utilityTimeGe_iff : utilityTimeGe t1 t2 = true ↔ t2.value ≤ t1.value := by
  rw [utilityTimeGe, Bool.not_eq_true', Bool.eq_false_iff, ne_eq, utilityTimeLt_iff h1 h2, not_lt]

theorem utilityTimeNe_iff : utilityTimeNe t1 t2 = true ↔ t1.value ≠ t2.value := by
  rw [utilityTimeNe, Bool.not_eq_true', Bool.eq_false_iff, ne_eq, utilityTimeEq_iff h1 h2]

end Compare

theorem utilityTimeZeroT_normalised : (utilityTimeZeroT : UtilityTime h).Normalised := by
  simp [Timespec.Normalised, utilityTimeZeroT, billion]

theorem utilityTimeZeroT_value : (utilityTimeZeroT : UtilityTime h).value = 0 := by
  simp [Timespec.value, utilityTimeZeroT]

section Sub

variable {t1 t2 : UtilityTime h} (h1 : t1.Normalised) (h2 : t2.Normalised)
include h1 h2

/-- The nanoseconds of a difference, without a borrow. -/
theorem toInt_tvNsec_sub (hle : t2.tvNsec.toInt ≤ t1.tvNsec.toInt) :
    (t1.tvNsec - t2.tvNsec).toInt = t1.tvNsec.toInt - t2.tvNsec.toInt := by
  have hpow : (2 : ℤ) ^ 32 ≤ 2 ^ h.longBits := by exact_mod_cast h.two_pow_32_le_longBits
  have hn1 := h1.2
  have hn2 := h2.1
  simp only [billion] at hn1
  rw [BitVec.toInt_sub, bmod_eq_of_fits (by omega) (by omega)]

/-- The nanoseconds of a difference, with a borrow. -/
theorem toInt_tvNsec_sub_borrow (hlt : t1.tvNsec.toInt < t2.tvNsec.toInt) :
    (.ofNat _ billion + t1.tvNsec - t2.tvNsec).toInt =
      billion + t1.tvNsec.toInt - t2.tvNsec.toInt := by
  have hpow : (2 : ℤ) ^ 32 ≤ 2 ^ h.longBits := by exact_mod_cast h.two_pow_32_le_longBits
  have hn1 := h1.1
  have hn2 := h2.2
  rw [BitVec.toInt_sub, BitVec.toInt_add, toInt_billion, Int.bmod_sub_bmod]
  simp only [billion] at hn2 ⊢
  rw [bmod_eq_of_fits (by omega) (by omega)]

/-- Subtracting normalised times is exact down to zero, if the result fits. -/
theorem utilityTimeSub_spec (hfit : FitsTimeT h (max 0 (t1.value - t2.value))) :
    (utilityTimeSub t1 t2).Normalised ∧
      (utilityTimeSub t1 t2).value = max 0 (t1.value - t2.value) := by
  by_cases hle : utilityTimeLe t1 t2 = true
  · rw [utilityTimeSub, if_pos hle]
    rw [utilityTimeLe_iff h1 h2] at hle
    exact ⟨utilityTimeZeroT_normalised, by rw [utilityTimeZeroT_value, max_eq_left (by omega)]⟩
  have hlt : t2.value < t1.value := not_le.1 fun hv => hle ((utilityTimeLe_iff h1 h2).2 hv)
  rw [max_eq_right (by omega)] at hfit ⊢
  rw [utilityTimeSub, if_neg hle]
  have hn1 := h1
  have hn2 := h2
  simp only [Timespec.Normalised, billion] at hn1 hn2
  rw [FitsTimeT] at hfit
  -- The seconds are exact as they are those of the result.
  by_cases hb : t1.tvNsec.slt t2.tvNsec = true
  · have hns := toInt_tvNsec_sub_borrow h1 h2 (BitVec.slt_iff_toInt_lt.1 hb)
    have hbi := BitVec.slt_iff_toInt_lt.1 hb
    have hsec : (t1.value - t2.value) / billion = t1.tvSec.toInt - 1 - t2.tvSec.toInt := by
      simp only [Timespec.value, billion]
      omega
    have hone : (1 : BitVec h.timeBits).toInt = 1 := by
      have hpow := h.two_pow_32_le_timeBits
      change (BitVec.ofNat h.timeBits 1).toInt = 1
      rw [BitVec.toInt_ofNat', bmod_eq_of_fits] <;> norm_cast <;> omega
    have hs : (t1.tvSec - 1 - t2.tvSec).toInt = t1.tvSec.toInt - 1 - t2.tvSec.toInt := by
      rw [hsec] at hfit
      rw [BitVec.toInt_sub, BitVec.toInt_sub, Int.bmod_sub_bmod, hone,
        bmod_eq_of_fits hfit.1 hfit.2]
    rw [if_pos hb]
    simp only [billion] at hns
    simp only [Timespec.Normalised, Timespec.value, hns, hs, billion]
    omega
  · have hbi : t2.tvNsec.toInt ≤ t1.tvNsec.toInt :=
      not_lt.1 fun hv => hb (BitVec.slt_iff_toInt_lt.2 hv)
    have hns := toInt_tvNsec_sub h1 h2 hbi
    have hsec : (t1.value - t2.value) / billion = t1.tvSec.toInt - t2.tvSec.toInt := by
      simp only [Timespec.value, billion]
      omega
    have hs : (t1.tvSec - t2.tvSec).toInt = t1.tvSec.toInt - t2.tvSec.toInt := by
      rw [hsec] at hfit
      rw [BitVec.toInt_sub, bmod_eq_of_fits hfit.1 hfit.2]
    rw [if_neg hb]
    simp only [Timespec.Normalised, Timespec.value, hns, hs, billion]
    omega

end Sub

/-- The loop of the multiplication, when all the sums on the way fit. -/
theorem utilityTimeMulLoop_spec {t1 : UtilityTime h} (h1 : t1.Normalised) {n : ℕ}
    {t : UtilityTime h} (ht : t.Normalised)
    (hfit : ∀ k ≤ n, FitsTimeT h (t.value + k * t1.value)) :
    (utilityTimeMulLoop t1 n t).Normalised ∧
      (utilityTimeMulLoop t1 n t).value = t.value + n * t1.value := by
  induction n generalizing t with
  | zero => exact ⟨ht, by simp [utilityTimeMulLoop]⟩
  | succ n ih =>
    obtain ⟨hn, hv⟩ := utilityTimeAdd_spec ht h1 (by simpa using hfit 1 (by omega))
    obtain ⟨hn', hv'⟩ := ih hn fun k hk => by
      rw [hv]
      convert hfit (k + 1) (by omega) using 1
      push_cast
      ring
    refine ⟨hn', ?_⟩
    rw [utilityTimeMulLoop, utilityTimeInc, hv', hv]
    push_cast
    ring

/-- Multiplying a normalised time is exact, if the multiples up to the result fit. -/
theorem utilityTimeMul_spec {t1 : UtilityTime h} (h1 : t1.Normalised) {n : BitVec 32}
    (hfit : ∀ k ≤ n.toNat, FitsTimeT h (k * t1.value)) :
    (utilityTimeMul t1 n).Normalised ∧ (utilityTimeMul t1 n).value = n.toNat * t1.value := by
  have := utilityTimeMulLoop_spec h1 utilityTimeZeroT_normalised
    (fun k hk => by simpa [utilityTimeZeroT_value] using hfit k hk)
  rwa [utilityTimeZeroT_value, zero_add] at this

end RealtimeTests
