import RealtimeTests.Words

/-!
# The host

What the code takes from the platform it is compiled for: the byte order and
the widths of `time_t`, `long` and pointers. `unsigned long` and `size_t` are as
wide as `long`, `int` and `unsigned` have 32 bits, and signed integers are in
two's complement. A `struct timespec` is its two fields, without padding.
-/

namespace RealtimeTests

open Words

/-- The platform: sizes are in bytes. -/
structure Host where
  byteOrder : Endian
  sizeofTimeT : ℕ
  sizeofLong : ℕ
  sizeofPtr : ℕ
  /-- `time_t` has at least 32 bits, and its size fits the byte the logs have for it. -/
  timeT_mem : sizeofTimeT ∈ Set.Ico 4 256
  /-- So has `long`. -/
  long_mem : sizeofLong ∈ Set.Ico 4 256
  ptr_mem : sizeofPtr ∈ Set.Ico 4 256

namespace Host

/-- The width of `time_t`. -/
abbrev timeBits (h : Host) : ℕ := 8 * h.sizeofTimeT

/-- The width of `long`, of `unsigned long` and of `size_t`. -/
abbrev longBits (h : Host) : ℕ := 8 * h.sizeofLong

theorem le_timeBits (h : Host) : 32 ≤ h.timeBits := by
  have := h.timeT_mem.1
  rw [timeBits]
  omega

theorem le_longBits (h : Host) : 32 ≤ h.longBits := by
  have := h.long_mem.1
  rw [longBits]
  omega

theorem two_pow_32_le_timeBits (h : Host) : 2 ^ 32 ≤ 2 ^ h.timeBits :=
  Nat.pow_le_pow_right (by decide) h.le_timeBits

theorem two_pow_32_le_longBits (h : Host) : 2 ^ 32 ≤ 2 ^ h.longBits :=
  Nat.pow_le_pow_right (by decide) h.le_longBits

/-- `host_byte_order`: `CPU_LITTLE_ENDIAN` or `CPU_BIG_ENDIAN`. -/
def hostByteOrder (h : Host) : ℕ :=
  match h.byteOrder with
  | .little => 0
  | .big => 1

/-- The usual 64-bit platform. -/
def lp64 : Host where
  byteOrder := .little
  sizeofTimeT := 8
  sizeofLong := 8
  sizeofPtr := 8
  timeT_mem := by decide
  long_mem := by decide
  ptr_mem := by decide

/-- The usual 32-bit platform. -/
def ilp32 : Host where
  byteOrder := .little
  sizeofTimeT := 4
  sizeofLong := 4
  sizeofPtr := 4
  timeT_mem := by decide
  long_mem := by decide
  ptr_mem := by decide

end Host

/-- An `unsigned long`. -/
abbrev ULong (h : Host) := BitVec h.longBits

/-- A file content. -/
abbrev Bytes := List UInt8

end RealtimeTests
