import RealtimeTests.Strtok
import RealtimeTests.Time.Parse

/-!
# Writing times

`to_string`: the seconds, a dot, and nine digits for the nanoseconds. `%lu` takes a `time_t` for
an `unsigned long`, so that the function has a meaning where these are as wide.

What is written is read back by `string_to_utility_time`, and conversely
(`toString_stringToUtilityTime`).
-/

namespace RealtimeTests

open Text Strtok

variable {h : Host}

/-- `"%lu.%09lu"`. -/
def Timespec.text (t : UtilityTime h) : List Char :=
  Nat.toDigits 10 (t.tvSec.setWidth h.longBits).toNat ++ '.' :: padded 9 t.tvNsec.toNat

/-- `to_string`: what it returns, and what it writes in the buffer. -/
def Timespec.toString (t : UtilityTime h) (bufferLen : ℕ) : ℕ × List Char :=
  let reqLen := t.text.length
  (if reqLen < bufferLen then 0 else reqLen + 1, snprintf bufferLen t.text)

/-- `to_string_dyn`: the content of the block that is allocated, if it is. -/
def Timespec.toStringDyn (t : UtilityTime h) (malloc : Bool) : Option (List Char) :=
  let resultLen := (t.toString 1).1
  if malloc then some (t.toString resultLen).2 else none

/-- A string is a run of digits, without superfluous zeros in front, a dot, and nine digits. -/
structure Fixed (h : Host) (run ns : List Char) : Prop where
  run_digits : ∀ c ∈ run, c.isDigit = true
  run_ne_nil : run ≠ []
  run_le : run.length ≤ longestSecondDigitCount h
  run_zero : run.head? = some '0' → run.length = 1
  ns_digits : ∀ c ∈ ns, c.isDigit = true
  ns_length : ns.length = 9

/-- What a string of that form is read as. -/
theorem Fixed.stringToUtilityTime (hsize : h.sizeofTimeT = 4 ∨ h.sizeofTimeT = 8)
    {run ns : List Char} (hf : Fixed h run ns) :
    (stringToUtilityTime h (run ++ '.' :: ns)).1.Normalised ∧
      (stringToUtilityTime h (run ++ '.' :: ns)).1.tvSec.toInt = Nat.ofDigitChars 10 run 0 ∧
      (stringToUtilityTime h (run ++ '.' :: ns)).1.tvNsec.toInt = Nat.ofDigitChars 10 ns 0 ∧
      (stringToUtilityTime h (run ++ '.' :: ns)).2 = (run ++ '.' :: ns).length := by
  have hrun : digitRun (run ++ '.' :: ns) = run := by
    rw [digitRun, List.takeWhile_append_of_pos hf.run_digits,
      List.takeWhile_cons_of_neg (by decide), List.append_nil]
  have hfraction : fractionOf (run ++ '.' :: ns) = ns := by
    have hns : digitRun ns = ns := List.takeWhile_eq_self_iff.2 hf.ns_digits
    rw [fractionOf, hrun, List.drop_left, nanosecondDigits, hns]
    exact List.take_of_length_le hf.ns_length.le
  have hlongest : longestSecondDigitCount h ≤ 18 := by
    rw [longestSecondDigitCount]
    rcases hsize with hsize | hsize
    · rw [hsize]
      decide
    · rw [hsize]
  have hadmitted : SecondsAdmitted h (run ++ '.' :: ns) := by
    have hpos := List.length_pos_iff.2 hf.run_ne_nil
    have hle := hf.run_le
    rw [SecondsAdmitted, hrun, Nat.mod_eq_of_lt (by omega)]
    omega
  have hmax : secondsOf (run ++ '.' :: ns) ≤ maxTimeT h :=
    secondsOf_le_maxTimeT hsize (by rw [hrun]; exact hf.run_le)
  have hread := readsAs_of_admitted (by omega) hadmitted hmax
  have hne : ns ≠ [] := List.ne_nil_of_length_eq_add_one hf.ns_length
  rw [ReadsAs, if_neg (not_or.2 ⟨by rw [hrun]; exact hf.run_ne_nil, not_lt.2 hmax⟩), secondsOf,
    hrun, hfraction, hf.ns_length, if_neg hne] at hread
  obtain ⟨hnormalised, hsec, hnsec, hend⟩ := hread
  refine ⟨hnormalised, hsec, by simpa using hnsec, ?_⟩
  rw [hend, List.length_append, List.length_cons, hf.ns_length]

/-- The seconds that are written. -/
theorem toNat_seconds (hwidth : h.sizeofLong = h.sizeofTimeT) (t : UtilityTime h) :
    (t.tvSec.setWidth h.longBits).toNat = t.tvSec.toNat := by
  have hbits : h.longBits = h.timeBits := by rw [Host.longBits, Host.timeBits, hwidth]
  rw [BitVec.toNat_setWidth, hbits, Nat.mod_eq_of_lt t.tvSec.isLt]

/-- Words which are not negative. -/
theorem toNat_of_toInt_nonneg {w : ℕ} {x : BitVec w} (hx : 0 ≤ x.toInt) :
    x.toNat = x.toInt.toNat := by
  rw [BitVec.toInt_eq_toNat_cond] at hx ⊢
  have := x.isLt
  split_ifs at hx ⊢ <;> omega

/-- The text of a time whose seconds have as many digits as are admitted. -/
theorem Timespec.fixed_text (hwidth : h.sizeofLong = h.sizeofTimeT) {t : UtilityTime h}
    (ht : t.Normalised) (hsec : 0 ≤ t.tvSec.toInt)
    (hdigits : (Nat.toDigits 10 t.tvSec.toInt.toNat).length ≤ longestSecondDigitCount h) :
    ∃ run ns, Fixed h run ns ∧ t.text = run ++ '.' :: ns ∧
      Nat.ofDigitChars 10 run 0 = t.tvSec.toInt ∧ Nat.ofDigitChars 10 ns 0 = t.tvNsec.toInt := by
  have hnsec : t.tvNsec.toNat < 10 ^ 9 := by
    have hlt := ht.2
    rw [toNat_of_toInt_nonneg ht.1]
    simp only [billion] at hlt
    omega
  refine ⟨Nat.toDigits 10 t.tvSec.toInt.toNat, padded 9 t.tvNsec.toNat, ⟨fun c hc => ?_,
    Nat.toDigits_ne_nil, hdigits, length_toDigits_of_zero, isDigit_of_mem_padded,
    length_padded hnsec (by decide)⟩, ?_, ?_, ?_⟩
  · exact Nat.isDigit_of_mem_toDigits (by decide) (by decide) hc
  · rw [Timespec.text, toNat_seconds hwidth, toNat_of_toInt_nonneg hsec]
  · rw [Nat.ofDigitChars_ten_toDigits, Int.toNat_of_nonneg hsec]
  · rw [ofDigitChars_padded, toNat_of_toInt_nonneg ht.1, Int.toNat_of_nonneg ht.1]

/-- What is written is read back, with everything that was written. -/
theorem Timespec.stringToUtilityTime_text (hsize : h.sizeofTimeT = 4 ∨ h.sizeofTimeT = 8)
    (hwidth : h.sizeofLong = h.sizeofTimeT) {t : UtilityTime h} (ht : t.Normalised)
    (hsec : 0 ≤ t.tvSec.toInt)
    (hdigits : (Nat.toDigits 10 t.tvSec.toInt.toNat).length ≤ longestSecondDigitCount h) :
    stringToUtilityTime h t.text = (t, t.text.length) := by
  obtain ⟨run, ns, hfixed, htext, hrun, hns⟩ := t.fixed_text hwidth ht hsec hdigits
  obtain ⟨-, hsec', hnsec', hend⟩ := hfixed.stringToUtilityTime hsize
  rw [htext]
  refine Prod.ext (Timespec.ext ?_ ?_) hend
  · exact BitVec.eq_of_toInt_eq (hsec'.trans hrun)
  · exact BitVec.eq_of_toInt_eq (hnsec'.trans hns)

/-- What is read is written as it was. -/
theorem Fixed.text_stringToUtilityTime (hsize : h.sizeofTimeT = 4 ∨ h.sizeofTimeT = 8)
    (hwidth : h.sizeofLong = h.sizeofTimeT) {run ns : List Char} (hf : Fixed h run ns) :
    (RealtimeTests.stringToUtilityTime h (run ++ '.' :: ns)).1.text = run ++ '.' :: ns := by
  obtain ⟨hnormalised, hsec, hnsec, -⟩ := hf.stringToUtilityTime hsize
  have hnonneg : 0 ≤ (RealtimeTests.stringToUtilityTime h (run ++ '.' :: ns)).1.tvSec.toInt := by
    rw [hsec]
    exact Int.natCast_nonneg _
  rw [Timespec.text, toNat_seconds hwidth, toNat_of_toInt_nonneg hnonneg,
    toNat_of_toInt_nonneg hnormalised.1, hsec, hnsec, Int.toNat_natCast, Int.toNat_natCast,
    toDigits_ofDigitChars hf.run_digits hf.run_ne_nil hf.run_zero, ← hf.ns_length,
    padded_ofDigitChars hf.ns_digits (List.ne_nil_of_length_eq_add_one hf.ns_length)]

theorem Timespec.nul_notMem_text (t : UtilityTime h) : nul ∉ t.text := by
  have hdigit {ds : List Char} (hds : ∀ c ∈ ds, c.isDigit = true) : nul ∉ ds := fun hmem =>
    absurd (hds nul hmem) (by decide)
  rw [Timespec.text, List.mem_append, List.mem_cons, not_or, not_or]
  exact ⟨hdigit fun c hc => Nat.isDigit_of_mem_toDigits (by decide) (by decide) hc, by decide,
    hdigit isDigit_of_mem_padded⟩

/-- The buffer is large enough for the text and its NUL, or the size that it needs is returned. -/
theorem Timespec.toString_eq_zero_iff (t : UtilityTime h) (bufferLen : ℕ) :
    (t.toString bufferLen).1 = 0 ↔ t.text.length < bufferLen := by
  change (if t.text.length < bufferLen then 0 else t.text.length + 1) = 0 ↔ _
  split_ifs with hlen
  · exact iff_of_true rfl hlen
  · exact iff_of_false id hlen

/-- The text is in the buffer then. -/
theorem Timespec.readStr_toString {t : UtilityTime h} {bufferLen : ℕ}
    (hlen : t.text.length < bufferLen) : readStr (t.toString bufferLen).2 0 = some t.text := by
  have hbuf : snprintf bufferLen t.text = t.text ++ [nul] := by
    rw [snprintf, if_neg (Nat.ne_zero_of_lt hlen), List.take_of_length_le (by omega)]
  change readStr (snprintf bufferLen t.text) 0 = _
  rw [hbuf]
  exact (strAt_zero t.nul_notMem_text []).readStr_eq

/-- Writing and reading times are inverse, and the size which is returned is the one that is
    needed. -/
theorem toString_stringToUtilityTime (hsize : h.sizeofTimeT = 4 ∨ h.sizeofTimeT = 8)
    (hwidth : h.sizeofLong = h.sizeofTimeT) :
    (∀ t : UtilityTime h, t.Normalised → 0 ≤ t.tvSec.toInt →
      (Nat.toDigits 10 t.tvSec.toInt.toNat).length ≤ longestSecondDigitCount h →
      (∀ bufferLen, (t.toString bufferLen).1 = 0 →
        ∃ str, readStr (t.toString bufferLen).2 0 = some str ∧
          stringToUtilityTime h str = (t, str.length)) ∧
      ∃ block, t.toStringDyn true = some block ∧ ∃ str, readStr block 0 = some str ∧
        stringToUtilityTime h str = (t, str.length)) ∧
    (∀ run ns, Fixed h run ns → ∀ bufferLen,
      ((stringToUtilityTime h (run ++ '.' :: ns)).1.toString bufferLen).1 = 0 →
      readStr ((stringToUtilityTime h (run ++ '.' :: ns)).1.toString bufferLen).2 0 =
        some (run ++ '.' :: ns)) ∧
    ∀ (t : UtilityTime h) (bufferLen : ℕ), (t.toString bufferLen).1 ≠ 0 →
      ∀ n, (t.toString n).1 = 0 ↔ (t.toString bufferLen).1 ≤ n := by
  refine ⟨fun t ht hsec hdigits => ?_, fun run ns hfixed bufferLen hzero => ?_,
    fun t bufferLen hne n => ?_⟩
  · have hread := t.stringToUtilityTime_text hsize hwidth ht hsec hdigits
    refine ⟨fun bufferLen hzero => ?_, _, rfl, t.text, ?_, hread⟩
    · exact ⟨t.text, Timespec.readStr_toString ((t.toString_eq_zero_iff _).1 hzero), hread⟩
    · refine Timespec.readStr_toString ?_
      change t.text.length < if t.text.length < 1 then 0 else t.text.length + 1
      have htext : 1 ≤ t.text.length := by
        simp only [Timespec.text, List.length_append, List.length_cons]
        omega
      rw [if_neg (by omega)]
      omega
  · rw [Timespec.readStr_toString ((Timespec.toString_eq_zero_iff _ _).1 hzero),
      hfixed.text_stringToUtilityTime hsize hwidth]
  · rw [Timespec.toString_eq_zero_iff]
    have hlen : (t.toString bufferLen).1 = t.text.length + 1 := by
      exact if_neg fun hlt => hne ((t.toString_eq_zero_iff _).2 hlt)
    rw [hlen]
    exact Nat.lt_iff_add_one_le

/-- Twelve seconds and 777888 microseconds. -/
theorem toString_stringToUtilityTime_us :
    readStr (Timespec.toString (h := .lp64) ⟨12, 777888000⟩ 13).2 0 =
        some "12.777888000".toList ∧
      stringToUtilityTime .lp64 "12.777888000".toList = (⟨12, 777888000⟩, 12) := by
  have hinverse := toString_stringToUtilityTime (h := .lp64) (.inr rfl) rfl
  have htext : readStr (Timespec.toString (h := .lp64) ⟨12, 777888000⟩ 13).2 0 =
      some "12.777888000".toList := by decide +kernel
  obtain ⟨hbuffer, -⟩ := hinverse.1 ⟨12, 777888000⟩ (by decide) (by decide) (by decide +kernel)
  obtain ⟨str, hstr, hread⟩ := hbuffer 13 (by decide +kernel)
  obtain rfl := Option.some.inj (htext.symm.trans hstr)
  exact ⟨htext, hread⟩

end RealtimeTests
