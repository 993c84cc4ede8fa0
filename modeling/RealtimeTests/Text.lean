import Mathlib.Data.List.TakeWhile
import Mathlib.Tactic.Linarith

/-!
# Numbers in text

Strings are lists of the characters before the terminating NUL, in the C locale.
A number is read from the digits it begins with (`digitRun`), whose value is that of
`Nat.ofDigitChars`, and written by `Nat.toDigits`.

* `ofDigitChars_lt`: a run of `n` digits has a value less than `10 ^ n`.
* `strtoull`: reading an `unsigned long long`, exact as long as the value fits
  (`strtoull_of_isDigit`).
* `strtoul`, `strtol`: reading a `long`, with what follows it.
-/

namespace RealtimeTests.Text

/-- `isspace`. -/
def isspace (c : Char) : Bool :=
  c = ' ' || c = '\t' || c = '\n' || c = '\x0b' || c = '\x0c' || c = '\r'

theorem isspace_of_isDigit {c : Char} (hc : c.isDigit = true) : isspace c = false := by
  rw [← Bool.not_eq_true]
  intro hs
  simp only [isspace, Bool.or_eq_true, decide_eq_true_eq] at hs
  rcases hs with ((((rfl | rfl) | rfl) | rfl) | rfl) | rfl <;> cases hc

/-- The digits that a string begins with. -/
def digitRun (str : List Char) : List Char := str.takeWhile Char.isDigit

theorem isDigit_of_mem_digitRun {str : List Char} : ∀ c ∈ digitRun str, c.isDigit = true :=
  fun _ hc => List.mem_takeWhile_imp hc

/-- The value of a digit. -/
theorem toNat_sub_lt_ten {c : Char} (hc : c.isDigit = true) : c.toNat - '0'.toNat < 10 := by
  simp only [Char.isDigit, Bool.and_eq_true, decide_eq_true_eq, UInt32.le_iff_toNat_le] at hc
  have hval : c.toNat = c.val.toNat := rfl
  have h0 : '0'.toNat = 48 := rfl
  have h9 := hc.2
  change c.val.toNat ≤ 57 at h9
  omega

theorem zero_le_toNat {c : Char} (hc : c.isDigit = true) : '0'.toNat ≤ c.toNat := by
  simp only [Char.isDigit, Bool.and_eq_true, decide_eq_true_eq] at hc
  exact hc.1

/-- The value of `n` digits is less than `10 ^ n`. -/
theorem ofDigitChars_lt {ds : List Char} (hds : ∀ c ∈ ds, c.isDigit = true) :
    Nat.ofDigitChars 10 ds 0 < 10 ^ ds.length := by
  induction ds with
  | nil => simp
  | cons c cs ih =>
    have hc := toNat_sub_lt_ten (hds c List.mem_cons_self)
    have hcs := ih fun d hd => hds d (List.mem_cons_of_mem _ hd)
    rw [Nat.ofDigitChars_cons, Nat.ofDigitChars_eq_ofDigitChars_zero, List.length_cons, pow_succ]
    have := Nat.mul_le_mul_left (10 ^ cs.length) (Nat.le_of_lt_succ hc)
    linarith

/-- Zeros at the end multiply by ten. -/
theorem ofDigitChars_append_zeros (ds : List Char) (n : ℕ) :
    Nat.ofDigitChars 10 (ds ++ List.replicate n '0') 0 = Nat.ofDigitChars 10 ds 0 * 10 ^ n := by
  rw [Nat.ofDigitChars_append, Nat.ofDigitChars_replicate_zero, mul_comm]

/-- Zeros in front do not change the value. -/
theorem ofDigitChars_zeros_append (n : ℕ) (ds : List Char) :
    Nat.ofDigitChars 10 (List.replicate n '0' ++ ds) 0 = Nat.ofDigitChars 10 ds 0 := by
  rw [Nat.ofDigitChars_append, Nat.ofDigitChars_replicate_zero, Nat.mul_zero]

/-- Digits are determined by their number and their value. -/
theorem ofDigitChars_inj {ds ds' : List Char} (hds : ∀ c ∈ ds, c.isDigit = true)
    (hds' : ∀ c ∈ ds', c.isDigit = true) (hlen : ds.length = ds'.length)
    (hval : Nat.ofDigitChars 10 ds 0 = Nat.ofDigitChars 10 ds' 0) : ds = ds' := by
  induction ds generalizing ds' with
  | nil => exact (List.length_eq_zero_iff.1 hlen.symm).symm
  | cons c cs ih =>
    cases ds' with
    | nil => cases hlen
    | cons d ds =>
      have hlen : cs.length = ds.length := Nat.succ.inj hlen
      have hcs := ofDigitChars_lt fun e he => hds e (List.mem_cons_of_mem _ he)
      have hds'' := ofDigitChars_lt fun e he => hds' e (List.mem_cons_of_mem _ he)
      have hcons (e : Char) (es : List Char) : Nat.ofDigitChars 10 (e :: es) 0 =
          10 ^ es.length * (e.toNat - '0'.toNat) + Nat.ofDigitChars 10 es 0 := by
        rw [Nat.ofDigitChars_cons, Nat.ofDigitChars_eq_ofDigitChars_zero, Nat.mul_zero,
          Nat.zero_add]
      rw [hcons, hcons, hlen] at hval
      rw [hlen] at hcs
      -- The digits are the quotients by the power of ten, and the rest the remainders.
      have hrest : Nat.ofDigitChars 10 cs 0 = Nat.ofDigitChars 10 ds 0 := by
        have hmod := congrArg (· % 10 ^ ds.length) hval
        simpa [Nat.mul_add_mod, Nat.mod_eq_of_lt hcs, Nat.mod_eq_of_lt hds''] using hmod
      have hdigit : c.toNat - '0'.toNat = d.toNat - '0'.toNat := by
        rw [hrest] at hval
        exact Nat.eq_of_mul_eq_mul_left (Nat.pow_pos (by decide)) (Nat.add_right_cancel hval)
      have hcd : c.toNat = d.toNat := by
        have hc := zero_le_toNat (hds c List.mem_cons_self)
        have hd := zero_le_toNat (hds' d List.mem_cons_self)
        omega
      rw [Char.toNat_inj.1 hcd, ih (fun e he => hds e (List.mem_cons_of_mem _ he))
        (fun e he => hds' e (List.mem_cons_of_mem _ he)) hlen hrest]

/-- A number with zeros in front, up to a width. -/
def padded (width n : ℕ) : List Char :=
  List.replicate (width - (Nat.toDigits 10 n).length) '0' ++ Nat.toDigits 10 n

theorem isDigit_of_mem_padded {width n : ℕ} : ∀ c ∈ padded width n, c.isDigit = true := by
  intro c hc
  rcases List.mem_append.1 hc with hc | hc
  · obtain rfl := List.eq_of_mem_replicate hc
    rfl
  · exact Nat.isDigit_of_mem_toDigits (by decide) (by decide) hc

theorem length_padded {width n : ℕ} (hn : n < 10 ^ width) (hwidth : 0 < width) :
    (padded width n).length = width := by
  have := (Nat.length_toDigits_le_iff (by decide) hwidth).2 hn
  rw [padded, List.length_append, List.length_replicate]
  omega

@[simp]
theorem ofDigitChars_padded (width n : ℕ) : Nat.ofDigitChars 10 (padded width n) 0 = n := by
  rw [padded, ofDigitChars_zeros_append, Nat.ofDigitChars_ten_toDigits]

/-- Digits are what is written for their value. -/
theorem padded_ofDigitChars {ds : List Char} (hds : ∀ c ∈ ds, c.isDigit = true) (hne : ds ≠ []) :
    padded ds.length (Nat.ofDigitChars 10 ds 0) = ds :=
  ofDigitChars_inj isDigit_of_mem_padded hds
    (length_padded (ofDigitChars_lt hds) (List.length_pos_iff.2 hne)) (ofDigitChars_padded _ _)

/-- Without zeros in front, no width is needed. -/
theorem toDigits_ofDigitChars {ds : List Char} (hds : ∀ c ∈ ds, c.isDigit = true) (hne : ds ≠ [])
    (hzero : ds.head? = some '0' → ds.length = 1) :
    Nat.toDigits 10 (Nat.ofDigitChars 10 ds 0) = ds := by
  have hlen : ds.length ≤ (Nat.toDigits 10 (Nat.ofDigitChars 10 ds 0)).length := by
    obtain ⟨c, cs, rfl⟩ := List.exists_cons_of_ne_nil hne
    have hpos : 0 < (Nat.toDigits 10 (Nat.ofDigitChars 10 (c :: cs) 0)).length :=
      Nat.length_toDigits_pos
    by_cases hcs : cs = []
    · rw [hcs] at hpos ⊢
      exact hpos
    · by_contra hlt
      have hle : (Nat.toDigits 10 (Nat.ofDigitChars 10 (c :: cs) 0)).length ≤ cs.length := by
        rw [List.length_cons] at hlt
        omega
      have hsmall := (Nat.length_toDigits_le_iff (by decide) (List.length_pos_iff.2 hcs)).1 hle
      -- The first digit is zero.
      rw [Nat.ofDigitChars_cons, Nat.ofDigitChars_eq_ofDigitChars_zero, Nat.mul_zero,
        Nat.zero_add] at hsmall
      have hc : c.toNat - '0'.toNat = 0 := by
        by_contra hpos
        have := Nat.mul_le_mul_left (10 ^ cs.length) (Nat.one_le_iff_ne_zero.2 hpos)
        omega
      have hle := zero_le_toNat (hds c List.mem_cons_self)
      have hzeroc : c = '0' := Char.toNat_inj.1 (by omega)
      have hone := hzero (by rw [hzeroc]; rfl)
      rw [List.length_cons] at hone
      exact hcs (List.length_eq_zero_iff.1 (Nat.succ.inj hone))
  have hpadded := padded_ofDigitChars hds hne
  rwa [padded, Nat.sub_eq_zero_of_le hlen, List.replicate_zero, List.nil_append] at hpadded

/-- A number is written without zeros in front. -/
theorem length_toDigits_of_zero {n : ℕ} (hzero : (Nat.toDigits 10 n).head? = some '0') :
    (Nat.toDigits 10 n).length = 1 := by
  obtain ⟨c, cs, hds⟩ := List.exists_cons_of_ne_nil (Nat.toDigits_ne_nil (n := n) (b := 10))
  rw [hds] at hzero
  obtain rfl : c = '0' := Option.some.inj hzero
  by_contra hlen
  have hcs : 0 < cs.length := by
    rw [hds, List.length_cons] at hlen
    omega
  have hdigits : ∀ c ∈ cs, c.isDigit = true := fun c hc =>
    Nat.isDigit_of_mem_toDigits (n := n) (by decide) (by decide) (hds ▸ List.mem_cons_of_mem _ hc)
  have hn : Nat.ofDigitChars 10 cs 0 = n := by
    have hval := ofDigitChars_zeros_append 1 cs
    rwa [List.replicate_one, List.singleton_append, ← hds, Nat.ofDigitChars_ten_toDigits,
      eq_comm] at hval
  have hle := (Nat.length_toDigits_le_iff (by decide) hcs).2 (hn ▸ ofDigitChars_lt hdigits)
  rw [hds, List.length_cons] at hle
  omega

/-- What `strtoull` returns for a run of digits: `ULLONG_MAX` when their value does not fit. -/
def ullOfDigits (negative : Bool) (ds : List Char) : BitVec 64 :=
  let n := Nat.ofDigitChars 10 ds 0
  if 2 ^ 64 ≤ n then .allOnes 64 else if negative then -.ofNat 64 n else .ofNat 64 n

/-- `strtoull(str, NULL, 10)`. -/
def strtoull (str : List Char) : BitVec 64 :=
  match str.dropWhile isspace with
  | '-' :: ds => ullOfDigits true (digitRun ds)
  | '+' :: ds => ullOfDigits false (digitRun ds)
  | ds => ullOfDigits false (digitRun ds)

/-- A digit is neither a space nor a sign. -/
theorem strtoull_of_isDigit {c : Char} {cs : List Char} (hc : c.isDigit = true)
    (hn : Nat.ofDigitChars 10 (digitRun (c :: cs)) 0 < 2 ^ 64) :
    (strtoull (c :: cs)).toNat = Nat.ofDigitChars 10 (digitRun (c :: cs)) 0 := by
  have hspace := isspace_of_isDigit hc
  have hminus : c ≠ '-' := by
    rintro rfl
    cases hc
  have hplus : c ≠ '+' := by
    rintro rfl
    cases hc
  have hdrop : (c :: cs).dropWhile isspace = c :: cs := by
    rw [List.dropWhile_cons, hspace]
    rfl
  rw [strtoull, hdrop]
  split
  · exact absurd (List.cons.inj ‹_›).1 hminus
  · exact absurd (List.cons.inj ‹_›).1 hplus
  · rw [ullOfDigits, if_neg (Nat.not_le.2 hn), if_neg Bool.false_ne_true, BitVec.toNat_ofNat,
      Nat.mod_eq_of_lt hn]

/-! ## Numbers with a sign -/

/-- A number after white space: whether it has a minus sign, and what follows its sign. -/
def signed (str : List Char) : Bool × List Char :=
  match str.dropWhile isspace with
  | '-' :: ds => (true, ds)
  | '+' :: ds => (false, ds)
  | ds => (false, ds)

/-- The number that a string begins with, whatever its sign. -/
def number (str : List Char) : ℕ := Nat.ofDigitChars 10 (digitRun (signed str).2) 0

/-- What follows it. -/
def afterNumber (str : List Char) : List Char := (signed str).2.dropWhile Char.isDigit

/-- `strtoul(str, &endptr, 10)` for an `unsigned long` of `w` bits: its value, and what is at
    `endptr`. -/
def strtoul (w : ℕ) (str : List Char) : BitVec w × List Char :=
  if digitRun (signed str).2 = [] then (0#w, str)
  else
    (if 2 ^ w ≤ number str then .allOnes w
      else if (signed str).1 then -.ofNat w (number str)
      else .ofNat w (number str),
     afterNumber str)

/-- `strtol(str, NULL, 10)` for a `long` of `w` bits. -/
def strtol (w : ℕ) (str : List Char) : BitVec w :=
  if (signed str).1 then
    if 2 ^ (w - 1) < number str then .intMin w else -.ofNat w (number str)
  else if 2 ^ (w - 1) ≤ number str then .intMax w else .ofNat w (number str)

/-- White space, maybe a plus sign, and digits. -/
theorem signed_append {blanks sign ds rest : List Char} (hblanks : ∀ c ∈ blanks, isspace c = true)
    (hsign : sign = [] ∨ sign = ['+']) (hds : ∀ c ∈ ds, c.isDigit = true) (hne : ds ≠ []) :
    signed (blanks ++ sign ++ ds ++ rest) = (false, ds ++ rest) := by
  obtain ⟨d, ds, rfl⟩ := List.exists_cons_of_ne_nil hne
  have hd := hds d List.mem_cons_self
  have hdrop : (blanks ++ sign ++ d :: ds ++ rest).dropWhile isspace =
      sign ++ (d :: ds ++ rest) := by
    rw [List.append_assoc, List.append_assoc, List.dropWhile_append_of_pos hblanks]
    obtain rfl | rfl := hsign
    · simp [isspace_of_isDigit hd]
    · rfl
  rw [signed, hdrop]
  obtain rfl | rfl := hsign
  · -- A digit is not a sign.
    rw [List.nil_append, List.cons_append]
    split
    · cases (List.cons.inj ‹_›).1
      cases hd
    · cases (List.cons.inj ‹_›).1
      cases hd
    · rfl
  · rfl

/-- What is before a number without a minus sign. -/
theorem eq_of_signed {str : List Char} (hsigned : (signed str).1 = false) :
    ∃ blanks sign, (∀ c ∈ blanks, isspace c = true) ∧ (sign = [] ∨ sign = ['+']) ∧
      str = blanks ++ sign ++ (signed str).2 := by
  have hsplit : str.takeWhile isspace ++ str.dropWhile isspace = str :=
    List.takeWhile_append_dropWhile
  refine ⟨str.takeWhile isspace, ?_⟩
  revert hsigned
  rw [signed]
  split
  · intro hsigned
    cases hsigned
  · next ds hds =>
    intro
    refine ⟨['+'], fun c hc => List.mem_takeWhile_imp hc, .inr rfl, ?_⟩
    rw [List.append_assoc, List.singleton_append, ← hds, hsplit]
  · intro
    refine ⟨[], fun c hc => List.mem_takeWhile_imp hc, .inl rfl, ?_⟩
    rw [List.append_nil, hsplit]

end RealtimeTests.Text
