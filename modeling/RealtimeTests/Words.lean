import Mathlib.Tactic

/-!
# Words in byte streams

A word of `k` bytes in a byte stream, in either byte order (`wordBytes`,
`wordVal`), and a packed structure as a sequence of words (`pack`, `unpack`).
Packing keeps the bits that fit each word (`unpack_pack`), so that it is undone
by unpacking when the words fit.
-/

namespace RealtimeTests.Words

/-- The order of the bytes of a word. -/
inductive Endian
  | little
  | big
  deriving DecidableEq, Repr

/-! ## Words -/

/-- The `k` lowest bytes of `n`, least significant first. -/
def leBytes : ℕ → ℕ → List UInt8
  | 0, _ => []
  | k + 1, n => UInt8.ofNat n :: leBytes k (n / 256)

/-- The number whose bytes, least significant first, are given. -/
def leVal : List UInt8 → ℕ
  | [] => 0
  | b :: bs => b.toNat + 256 * leVal bs

/-- The word of `k` bytes holding `n`, in the order `e`. -/
def wordBytes (e : Endian) (k n : ℕ) : List UInt8 :=
  match e with
  | .little => leBytes k n
  | .big => (leBytes k n).reverse

/-- The number held by a word in the order `e`. -/
def wordVal (e : Endian) (bs : List UInt8) : ℕ :=
  match e with
  | .little => leVal bs
  | .big => leVal bs.reverse

@[simp]
theorem length_leBytes (k n : ℕ) : (leBytes k n).length = k := by
  induction k generalizing n with
  | zero => rfl
  | succ k ih => rw [leBytes, List.length_cons, ih]

theorem leVal_leBytes (k n : ℕ) : leVal (leBytes k n) = n % 256 ^ k := by
  induction k generalizing n with
  | zero => simp [leBytes, leVal, Nat.mod_one]
  | succ k ih =>
    have h : (UInt8.ofNat n).toNat = n % 256 := UInt8.toNat_ofNat'
    rw [leBytes, leVal, ih, h, pow_succ', Nat.mod_mul]

@[simp]
theorem length_wordBytes (e : Endian) (k n : ℕ) : (wordBytes e k n).length = k := by
  cases e <;> simp [wordBytes]

/-- A word keeps the bits that fit it. -/
theorem wordVal_wordBytes (e : Endian) (k n : ℕ) : wordVal e (wordBytes e k n) = n % 256 ^ k := by
  cases e <;> simp [wordVal, wordBytes, leVal_leBytes]

/-! ## Packed structures -/

/-- A packed structure: words, each with its size and the number it holds. -/
def pack (e : Endian) (fields : List (ℕ × ℕ)) : List UInt8 :=
  fields.flatMap fun f => wordBytes e f.1 f.2

/-- The numbers held by a packed structure whose words have the given sizes. -/
def unpack (e : Endian) : List ℕ → List UInt8 → List ℕ
  | [], _ => []
  | k :: ks, bs => wordVal e (bs.take k) :: unpack e ks (bs.drop k)

@[simp]
theorem length_pack (e : Endian) (fields : List (ℕ × ℕ)) :
    (pack e fields).length = (fields.map Prod.fst).sum := by
  simp [pack, List.length_flatMap]

/-- Unpacking gives back, of every number packed, the bits that fit its word. -/
theorem unpack_pack (e : Endian) (fields : List (ℕ × ℕ)) (rest : List UInt8) :
    unpack e (fields.map Prod.fst) (pack e fields ++ rest) =
      fields.map fun f => f.2 % 256 ^ f.1 := by
  induction fields with
  | nil => rfl
  | cons f fields ih =>
    -- The first word is followed by the rest of the structure.
    have hf : pack e (f :: fields) ++ rest =
        wordBytes e f.1 f.2 ++ (pack e fields ++ rest) := by
      simp [pack, List.append_assoc]
    rw [List.map_cons, List.map_cons, unpack, hf, List.take_left' (length_wordBytes ..),
      List.drop_left' (length_wordBytes ..), wordVal_wordBytes, ih]

/-- Unpacking looks at no more bytes than the words have. -/
theorem unpack_append (e : Endian) {ks : List ℕ} {bs : List UInt8} (hbs : ks.sum ≤ bs.length)
    (rest : List UInt8) : unpack e ks (bs ++ rest) = unpack e ks bs := by
  induction ks generalizing bs with
  | nil => rfl
  | cons k ks ih =>
    rw [List.sum_cons] at hbs
    rw [unpack, unpack, List.take_append_of_le_length (by omega),
      List.drop_append_of_le_length (by omega), ih (by rw [List.length_drop]; omega)]

/-- A bit vector of `k` bytes survives being packed. -/
theorem ofNat_toNat_mod {k : ℕ} (x : BitVec (8 * k)) :
    BitVec.ofNat (8 * k) (x.toNat % 256 ^ k) = x := by
  have h : x.toNat < 256 ^ k := by
    have := x.isLt
    rwa [pow_mul] at this
  rw [Nat.mod_eq_of_lt h, BitVec.ofNat_toNat, BitVec.setWidth_eq]

end RealtimeTests.Words
