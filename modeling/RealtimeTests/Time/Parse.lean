import RealtimeTests.Text
import RealtimeTests.Time

/-!
# Reading times

`string_to_utility_time`: seconds, and possibly a dot and a fraction of a second. The
position where the conversion ends, returned in `endptr`, is given as the number of the
characters before it.

The function does not compare the seconds with what `time_t` holds, but their number of
digits with an estimate. It does what it is documented to (`ReadsAs`) for the seconds on
which the two agree (`stringToUtilityTime_readsAs_iff`). They do not for most of the
seconds that a `time_t` holds, which have one more digit, nor for those with many zeros in
front.
-/

namespace RealtimeTests

open Text

variable {h : Host}

/-- `longest_second_digit_count`. -/
def longestSecondDigitCount (h : Host) : ℕ := h.sizeofTimeT * 8 / 10 * 3

/-- The digits that are converted to nanoseconds, after those of the seconds and a dot. -/
def nanosecondDigits (rest : List Char) : List Char :=
  match rest with
  | '.' :: fraction => (digitRun fraction).take 9
  | _ => []

/-- `string_to_utility_time`: the time, and where the conversion ended. -/
def stringToUtilityTime (h : Host) (str : List Char) : UtilityTime h × ℕ :=
  let secondDigits := (digitRun str).length
  -- The digits are counted by an `unsigned`.
  let secondDigitCount := (BitVec.ofNat 32 secondDigits).toNat
  if secondDigitCount = 0 ∨ longestSecondDigitCount h < secondDigitCount then
    (utilityTimeZeroT, 0)
  else
    let rest := str.drop secondDigits
    let ns := nanosecondDigits rest
    -- `buffer` has zeros where there are no digits.
    let buffer := ns ++ List.replicate (9 - ns.length) '0'
    ({ tvSec := (strtoull str).setWidth _
       tvNsec := if rest.head? = some '.' then (strtoull buffer).setWidth _ else 0 },
     if ns = [] then secondDigits else secondDigits + 1 + ns.length)

/-! ## The documented behaviour -/

/-- The largest `time_t`. -/
def maxTimeT (h : Host) : ℕ := 2 ^ (h.timeBits - 1) - 1

/-- The seconds that a string begins with. -/
def secondsOf (str : List Char) : ℕ := Nat.ofDigitChars 10 (digitRun str) 0

/-- The digits of the fraction that follows them, up to nine. -/
def fractionOf (str : List Char) : List Char := nanosecondDigits (str.drop (digitRun str).length)

/-- What reading a string is documented to give. -/
def ReadsAs (str : List Char) (r : UtilityTime h × ℕ) : Prop :=
  if digitRun str = [] ∨ maxTimeT h < secondsOf str then r = (utilityTimeZeroT, 0)
  else
    r.1.Normalised ∧ r.1.tvSec.toInt = secondsOf str ∧
      r.1.tvNsec.toInt =
        Nat.ofDigitChars 10 (fractionOf str) 0 * 10 ^ (9 - (fractionOf str).length) ∧
      r.2 = (digitRun str).length +
        if fractionOf str = [] then 0 else 1 + (fractionOf str).length

/-- The number of digits of the seconds, as counted by an `unsigned`, is one which the estimate
    admits. -/
def SecondsAdmitted (h : Host) (str : List Char) : Prop :=
  (digitRun str).length % 2 ^ 32 ≠ 0 ∧ (digitRun str).length % 2 ^ 32 ≤ longestSecondDigitCount h

instance (str : List Char) : Decidable (SecondsAdmitted h str) :=
  inferInstanceAs (Decidable (_ ∧ _))

theorem stringToUtilityTime_of_not_admitted {str : List Char} (ha : ¬SecondsAdmitted h str) :
    stringToUtilityTime h str = (utilityTimeZeroT, 0) := by
  rw [stringToUtilityTime, BitVec.toNat_ofNat]
  refine if_pos ?_
  rw [SecondsAdmitted] at ha
  omega

theorem stringToUtilityTime_of_admitted {str : List Char} (ha : SecondsAdmitted h str) :
    stringToUtilityTime h str =
      ({ tvSec := (strtoull str).setWidth _
         tvNsec :=
          if (str.drop (digitRun str).length).head? = some '.' then
            (strtoull (fractionOf str ++
              List.replicate (9 - (fractionOf str).length) '0')).setWidth _
          else 0 },
       if fractionOf str = [] then (digitRun str).length
       else (digitRun str).length + 1 + (fractionOf str).length) := by
  rw [stringToUtilityTime, BitVec.toNat_ofNat]
  refine if_neg ?_
  rw [SecondsAdmitted] at ha
  omega

/-- The digits of the nanoseconds are digits. -/
theorem isDigit_of_mem_nanosecondDigits {rest : List Char} :
    ∀ c ∈ nanosecondDigits rest, c.isDigit = true := by
  intro c hc
  unfold nanosecondDigits at hc
  split at hc
  · exact isDigit_of_mem_digitRun c (List.mem_of_mem_take hc)
  · cases hc

theorem length_nanosecondDigits_le (rest : List Char) : (nanosecondDigits rest).length ≤ 9 := by
  unfold nanosecondDigits
  split
  · exact List.length_take_le _ _
  · exact Nat.zero_le _

/-- Without a dot, there are none. -/
theorem nanosecondDigits_of_ne {rest : List Char} (hr : rest.head? ≠ some '.') :
    nanosecondDigits rest = [] := by
  unfold nanosecondDigits
  split
  · exact absurd rfl hr
  · rfl

/-- The nanoseconds are read from the buffer. -/
theorem toNat_strtoull_buffer {ns : List Char} (hns : ∀ c ∈ ns, c.isDigit = true)
    (hlen : ns.length ≤ 9) :
    (strtoull (ns ++ List.replicate (9 - ns.length) '0')).toNat =
        Nat.ofDigitChars 10 ns 0 * 10 ^ (9 - ns.length) ∧
      Nat.ofDigitChars 10 ns 0 * 10 ^ (9 - ns.length) < billion := by
  have hdigits : ∀ c ∈ ns ++ List.replicate (9 - ns.length) '0', c.isDigit = true := by
    intro c hc
    rcases List.mem_append.1 hc with hc | hc
    · exact hns c hc
    · obtain rfl := List.eq_of_mem_replicate hc
      rfl
  have hrun : digitRun (ns ++ List.replicate (9 - ns.length) '0') =
      ns ++ List.replicate (9 - ns.length) '0' :=
    List.takeWhile_eq_self_iff.2 hdigits
  have hlt := ofDigitChars_lt hdigits
  rw [List.length_append, List.length_replicate, Nat.add_sub_cancel' hlen,
    ofDigitChars_append_zeros] at hlt
  obtain ⟨c, cs, hbuf⟩ : ∃ c cs, ns ++ List.replicate (9 - ns.length) '0' = c :: cs := by
    refine List.exists_cons_of_length_pos ?_
    rw [List.length_append, List.length_replicate]
    omega
  have hc : c.isDigit = true := hdigits c (hbuf ▸ List.mem_cons_self)
  have hval : Nat.ofDigitChars 10 (digitRun (c :: cs)) 0 =
      Nat.ofDigitChars 10 ns 0 * 10 ^ (9 - ns.length) := by
    rw [← hbuf, hrun, ofDigitChars_append_zeros]
  refine ⟨?_, hlt⟩
  rw [hbuf, strtoull_of_isDigit hc (by rw [hval]; omega), hval]

/-- What is read when the number of digits is admitted, and the seconds fit. -/
theorem readsAs_of_admitted (hsize : h.sizeofTimeT ≤ 8) {str : List Char}
    (ha : SecondsAdmitted h str) (hmax : secondsOf str ≤ maxTimeT h) :
    ReadsAs str (stringToUtilityTime h str) := by
  have hne : digitRun str ≠ [] := by
    intro hnil
    rw [SecondsAdmitted, hnil] at ha
    exact ha.1 rfl
  obtain ⟨c, cs, rfl⟩ : ∃ c cs, str = c :: cs := List.exists_cons_of_ne_nil fun hnil => by
    rw [hnil] at hne
    exact hne rfl
  have hc : c.isDigit = true := by
    by_contra hc
    exact hne (List.takeWhile_cons_of_neg hc)
  have hpow : 2 ^ h.timeBits = 2 * 2 ^ (h.timeBits - 1) := by
    rw [← Nat.pow_succ', Nat.succ_eq_add_one, Nat.sub_add_cancel (by have := h.le_timeBits; omega)]
  have hle : 2 ^ h.timeBits ≤ 2 ^ 64 :=
    Nat.pow_le_pow_right (by decide) (by rw [Host.timeBits]; omega)
  have hpos := Nat.two_pow_pos (h.timeBits - 1)
  have hlong : (2 : ℤ) ^ 32 ≤ 2 ^ h.longBits := by exact_mod_cast h.two_pow_32_le_longBits
  rw [maxTimeT] at hmax
  have hread := stringToUtilityTime_of_admitted ha
  -- The seconds.
  have hsec : (strtoull (c :: cs)).toNat = secondsOf (c :: cs) :=
    strtoull_of_isDigit hc (by rw [secondsOf] at hmax; omega)
  have hsec' : ((strtoull (c :: cs)).setWidth h.timeBits).toInt = secondsOf (c :: cs) := by
    have hlt : ((secondsOf (c :: cs) : ℕ) : ℤ) * 2 < 2 ^ h.timeBits := by
      have : secondsOf (c :: cs) * 2 < 2 ^ h.timeBits := by omega
      exact_mod_cast this
    rw [toInt_setWidth_of_lt (by rwa [hsec]), hsec]
  -- The nanoseconds, which are zero when there is no dot.
  obtain ⟨hns, hlt⟩ := toNat_strtoull_buffer
    (@isDigit_of_mem_nanosecondDigits ((c :: cs).drop (digitRun (c :: cs)).length))
    (length_nanosecondDigits_le _)
  have hnsec : (stringToUtilityTime h (c :: cs)).1.tvNsec.toInt =
      Nat.ofDigitChars 10 (fractionOf (c :: cs)) 0 * 10 ^ (9 - (fractionOf (c :: cs)).length) := by
    rw [hread, fractionOf]
    dsimp only
    split_ifs with hdot
    · have hfit : (Nat.ofDigitChars 10 (nanosecondDigits ((c :: cs).drop
          (digitRun (c :: cs)).length)) 0 * 10 ^ (9 - (nanosecondDigits ((c :: cs).drop
          (digitRun (c :: cs)).length)).length) : ℤ) < billion := by exact_mod_cast hlt
      rw [toInt_setWidth_of_lt, hns]
      · push_cast
        rfl
      · rw [hns]
        simp only [billion] at hfit
        push_cast at hfit ⊢
        omega
    · rw [nanosecondDigits_of_ne hdot]
      simp
  have hfit : (Nat.ofDigitChars 10 (fractionOf (c :: cs)) 0 *
      10 ^ (9 - (fractionOf (c :: cs)).length) : ℤ) < billion := by exact_mod_cast hlt
  rw [ReadsAs, if_neg (not_or.2 ⟨hne, by rw [maxTimeT]; omega⟩)]
  refine ⟨⟨by rw [hnsec]; positivity, by rw [hnsec]; exact hfit⟩, ?_, hnsec, ?_⟩
  · rw [hread]
    exact hsec'
  · rw [hread, fractionOf]
    dsimp only
    split_ifs <;> omega

/-- The function reads a string as documented exactly when its estimate admits the number of the
    digits of the seconds, unless there are none, exactly when the seconds fit. -/
theorem stringToUtilityTime_readsAs_iff (hsize : h.sizeofTimeT = 4 ∨ h.sizeofTimeT = 8)
    (str : List Char) :
    ReadsAs str (stringToUtilityTime h str) ↔
      digitRun str = [] ∨ (SecondsAdmitted h str ↔ secondsOf str ≤ maxTimeT h) := by
  by_cases hnil : digitRun str = []
  · have ha : ¬SecondsAdmitted h str := by
      rw [SecondsAdmitted, hnil]
      exact fun ha => ha.1 rfl
    rw [ReadsAs, if_pos (.inl hnil), stringToUtilityTime_of_not_admitted ha]
    exact iff_of_true rfl (.inl hnil)
  by_cases ha : SecondsAdmitted h str <;> by_cases hmax : secondsOf str ≤ maxTimeT h
  · exact iff_of_true (readsAs_of_admitted (by omega) ha hmax) (.inr (iff_of_true ha hmax))
  · -- Digits are converted although the seconds do not fit.
    refine iff_of_false (fun hr => ?_) (not_or.2 ⟨hnil, fun hiff => hmax (hiff.1 ha)⟩)
    rw [ReadsAs, if_pos (.inr (not_le.1 hmax)), stringToUtilityTime_of_admitted ha] at hr
    have hend := congrArg Prod.snd hr
    have hlen := List.length_pos_of_ne_nil hnil
    dsimp only at hend
    split_ifs at hend <;> omega
  · -- No digits are converted although the seconds fit.
    refine iff_of_false (fun hr => ?_) (not_or.2 ⟨hnil, fun hiff => ha (hiff.2 hmax)⟩)
    rw [ReadsAs, if_neg (not_or.2 ⟨hnil, not_lt.2 hmax⟩),
      stringToUtilityTime_of_not_admitted ha] at hr
    have hlen := List.length_pos_of_ne_nil hnil
    have hend : 0 = _ := hr.2.2.2
    omega
  · rw [ReadsAs, if_pos (.inr (not_le.1 hmax)), stringToUtilityTime_of_not_admitted ha]
    exact iff_of_true rfl (.inr (iff_of_false ha hmax))

/-- A sentence which begins with a number. -/
theorem stringToUtilityTime_sentence :
    ReadsAs "45. It is the fastest.".toList
      (stringToUtilityTime .lp64 "45. It is the fastest.".toList) :=
  (stringToUtilityTime_readsAs_iff (.inr rfl) _).2 (.inr (by decide))

/-- A billion billion seconds, which fit, are not converted. -/
theorem stringToUtilityTime_billion_billion :
    secondsOf "1000000000000000000".toList ≤ maxTimeT .lp64 ∧
      stringToUtilityTime .lp64 "1000000000000000000".toList = (utilityTimeZeroT, 0) ∧
      ¬ReadsAs "1000000000000000000".toList
        (stringToUtilityTime .lp64 "1000000000000000000".toList) := by
  have hmax : secondsOf "1000000000000000000".toList ≤ maxTimeT .lp64 := by decide
  have hread : stringToUtilityTime .lp64 "1000000000000000000".toList = (utilityTimeZeroT, 0) :=
    stringToUtilityTime_of_not_admitted (by decide)
  refine ⟨hmax, hread, fun hr => ?_⟩
  rw [ReadsAs, if_neg (not_or.2 ⟨by decide, not_lt.2 hmax⟩), hread] at hr
  exact absurd hr.2.2.2 (by decide)

/-- The seconds with as many digits as the estimate admits fit, so that the strings which are not
    read as documented are those with more digits for seconds that fit. -/
theorem secondsOf_le_maxTimeT (hsize : h.sizeofTimeT = 4 ∨ h.sizeofTimeT = 8) {str : List Char}
    (hlen : (digitRun str).length ≤ longestSecondDigitCount h) : secondsOf str ≤ maxTimeT h := by
  have hlt : secondsOf str < 10 ^ (digitRun str).length := ofDigitChars_lt isDigit_of_mem_digitRun
  have hle := Nat.pow_le_pow_right (show 0 < 10 by decide) hlen
  rcases hsize with hsize | hsize <;>
    simp only [maxTimeT, longestSecondDigitCount, Host.timeBits, hsize] at hle ⊢ <;> omega

end RealtimeTests
