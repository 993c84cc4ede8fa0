import RealtimeTests.Host

/-!
# Files

`FILE` streams, as far as the code relies on them.

* A stream open for writing (`OutFile`): the content, and how the device will
  answer the calls of `fwrite` to come. A call which fails stores no item.
* A stream open for reading (`InFile`): the bytes that the device still
  delivers, after which it either ends or fails, for ever; and the sticky
  indicators that `feof` and `ferror` test.

`utility_file_read_bin` is the reader of `utility_file.c` for binary files.
-/

namespace RealtimeTests

/-! ## Writing -/

/-- A `FILE` open for writing. -/
structure OutFile where
  /-- The content written so far. -/
  content : Bytes
  /-- Whether the calls of `fwrite` to come succeed, in order. -/
  device : ℕ → Bool

namespace OutFile

/-- An empty file on a device. -/
def empty (device : ℕ → Bool) : OutFile := ⟨[], device⟩

/-- `fwrite` of one item: whether it was written. -/
def fwrite (item : Bytes) (f : OutFile) : Bool × OutFile :=
  (f.device 0,
    { content := if f.device 0 then f.content ++ item else f.content
      device := fun n => f.device (n + 1) })

/-- Calls of `fwrite` item by item, up to the first one failing: whether all
    were written. -/
def fwriteAll : List Bytes → OutFile → Bool × OutFile
  | [], f => (true, f)
  | item :: items, f =>
    match f.fwrite item with
    | (true, f) => fwriteAll items f
    | (false, f) => (false, f)

/-- When no call fails, all the items are written. -/
theorem fwriteAll_of_device {items : List Bytes} {f : OutFile}
    (hf : ∀ n < items.length, f.device n = true) :
    (f.fwriteAll items).1 = true ∧
      (f.fwriteAll items).2.content = f.content ++ items.flatten ∧
      (f.fwriteAll items).2.device = fun n => f.device (n + items.length) := by
  induction items generalizing f with
  | nil => simp [fwriteAll]
  | cons item items ih =>
    have h0 : f.device 0 = true := hf 0 (by simp)
    have := ih (f := (f.fwrite item).2) fun n hn => hf (n + 1) (by simpa using hn)
    simp only [fwriteAll, fwrite, h0] at this ⊢
    simpa [Nat.add_assoc, Nat.add_comm] using this

/-- When a call fails, the items before it are written. -/
theorem fwriteAll_of_fail {items : List Bytes} {f : OutFile} {j : ℕ} (hj : j < items.length)
    (hf : ∀ n < j, f.device n = true) (hfail : f.device j = false) :
    (f.fwriteAll items).1 = false ∧
      (f.fwriteAll items).2.content = f.content ++ (items.take j).flatten := by
  induction items generalizing f j with
  | nil => exact absurd hj (Nat.not_lt_zero _)
  | cons item items ih =>
    cases j with
    | zero => simp [fwriteAll, fwrite, hfail]
    | succ j =>
      have h0 : f.device 0 = true := hf 0 (Nat.succ_pos j)
      have := ih (f := (f.fwrite item).2) (j := j) (by simpa using hj)
        (fun n hn => hf (n + 1) (by omega)) hfail
      simp only [fwriteAll, fwrite, h0] at this ⊢
      simpa using this

/-- What is written is some of the items, from the first one on. -/
theorem exists_content_fwriteAll (items : List Bytes) (f : OutFile) :
    ∃ j ≤ items.length,
      (f.fwriteAll items).2.content = f.content ++ (items.take j).flatten ∧
        ((f.fwriteAll items).1 = true → j = items.length) := by
  by_cases hall : ∀ n < items.length, f.device n = true
  · exact ⟨items.length, le_rfl, by simpa using (fwriteAll_of_device hall).2.1, fun _ => rfl⟩
  · push Not at hall
    -- The items before the first call that fails are written.
    obtain ⟨hlt, hfail⟩ := Nat.find_spec hall
    have hbefore : ∀ n < Nat.find hall, f.device n = true := fun n hn => by
      by_contra hne
      exact Nat.find_min hall hn ⟨hn.trans hlt, hne⟩
    obtain ⟨h1, h2⟩ := fwriteAll_of_fail hlt hbefore (by simpa using hfail)
    exact ⟨_, hlt.le, h2, fun h => by simp [h1] at h⟩

end OutFile

/-! ## Reading -/

/-- A `FILE` open for reading. -/
structure InFile where
  /-- The bytes still to be delivered. -/
  rest : Bytes
  /-- Whether the device then fails, rather than ends. -/
  fails : Bool
  /-- What `feof` tests. -/
  feof : Bool
  /-- What `ferror` tests. -/
  ferror : Bool
  /-- The end of a file is seen only once it is reached. -/
  rest_of_feof : feof = true → rest = []

namespace InFile

/-- A file newly open, or read so far without reaching its end: the device delivers the
    bytes `bs`, and then fails or ends. -/
def opened (bs : Bytes) (fails : Bool) : InFile where
  rest := bs
  fails := fails
  feof := false
  ferror := false
  rest_of_feof := by simp

@[simp]
theorem rest_opened (bs : Bytes) (fails : Bool) : (opened bs fails).rest = bs := rfl

/-- A file on a device which has failed or ended. -/
def exhausted (fails : Bool) : InFile where
  rest := []
  fails := fails
  feof := !fails
  ferror := fails
  rest_of_feof := by simp

/-- `fread` of `n` bytes: the bytes read. -/
def fread (n : ℕ) (f : InFile) : Bytes × InFile :=
  if hn : n ≤ f.rest.length then
    (f.rest.take n,
      { f with
        rest := f.rest.drop n
        rest_of_feof := fun h => by rw [f.rest_of_feof h, List.drop_nil] })
  else
    (f.rest,
      { f with
        rest := []
        feof := f.feof || !f.fails
        ferror := f.ferror || f.fails
        rest_of_feof := fun _ => rfl })

/-- A read of no more bytes than there are. -/
theorem fread_opened_of_le {n : ℕ} {bs : Bytes} (hn : n ≤ bs.length) (fails : Bool) :
    (opened bs fails).fread n = (bs.take n, opened (bs.drop n) fails) := by
  simp [fread, opened, hn]

/-- A read of more bytes than there are. -/
theorem fread_opened_of_lt {n : ℕ} {bs : Bytes} (hn : bs.length < n) (fails : Bool) :
    (opened bs fails).fread n = (bs, exhausted fails) := by
  simp [fread, opened, exhausted, Nat.not_le.2 hn]

/-- A read after a failure fails again. -/
theorem fread_exhausted {n : ℕ} (hn : 0 < n) (fails : Bool) :
    (exhausted fails).fread n = ([], exhausted fails) := by
  simp [fread, exhausted, hn.ne']

end InFile

/-- `utility_file_read_bin` of `n` bytes: its return value, the bytes stored in
    the buffer, the new value of `*len` and the stream. -/
def utilityFileReadBin (f : InFile) (n : ℕ) : ℤ × Bytes × ℕ × InFile :=
  if f.feof then (-1, [], n, f)
  else
    let (bs, f) := f.fread n
    if bs.length ≠ n then
      -- Only the end of the file changes `*len`.
      if f.ferror then (-3, bs, n, f) else (-2, bs, bs.length, f)
    else (0, bs, n, f)

end RealtimeTests
