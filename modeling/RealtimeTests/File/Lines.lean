import Mathlib.Data.List.TakeWhile
import RealtimeTests.File

/-!
# Reading lines

`utility_file_readln` stores the next line of a file in a buffer that it enlarges as needed, and
`utility_file_read` passes the lines of a file to a function, one by one.

* A store outside of the block that is allocated has no meaning: the function is then `none`.
* `utilityFileReadln_of_room`: with room for the line, what is in the buffer is the next piece of
  the file between two newlines, whatever the buffer was.
* `utilityFileReadln_of_not_room`: without, the call fails, or stores outside of its block. The new
  length is computed in a `size_t`: the block becomes smaller when it is wrapped.
* `splits_iff`, `continues_iff`: so a file is split at its newlines by successive calls exactly when
  there is room for each line.
-/

namespace RealtimeTests

variable {h : Host}

/-! ## The reader -/

/-- `'\n'`. -/
def newline : UInt8 := 10

/-- What `realloc` does: the sizes for which it finds a block, and what is in the part of a block
    that is new. -/
structure Allocator where
  grants : ℕ → Bool
  garbage : ℕ → UInt8

/-- `realloc` of a block. -/
def Allocator.realloc (heap : Allocator) (block : Bytes) (n : ℕ) : Option Bytes :=
  if heap.grants n then
    some (block.take n ++ (List.range (n - block.length)).map heap.garbage)
  else none

/-- The buffer of a caller, with what it has for its length. -/
structure LineBuffer where
  block : Option Bytes
  len : ℕ
  deriving DecidableEq

/-- A byte stored in a block. -/
def store (block : Bytes) (i : ℕ) (c : UInt8) : Option Bytes :=
  if i < block.length then some (block.set i c) else none

/-- Reading of a line: the buffer, where the next byte is stored, and the calls of `fgetc` so
    far. -/
structure LineScan where
  block : Bytes
  len : ℕ
  ptr : ℕ
  got : ℕ
  deriving DecidableEq

/-- The loop of `utility_file_readln` over what `fgetc` delivers: whether the buffer could be
    enlarged, and where the loop stops. -/
def readLoop (h : Host) (heap : Allocator) (inc : ℕ) :
    Bytes → LineScan → Option (Bool × LineScan)
  -- `EOF`
  | [], s => some (true, { s with got := s.got + 1 })
  | c :: cs, s =>
    if c = newline then some (true, { s with got := s.got + 1 })
    else
      match store s.block s.ptr c with
      | none => none
      | some block =>
        if s.ptr + 1 = s.len then
          let enlargedLen := (s.len + inc) % 2 ^ h.longBits
          match heap.realloc block enlargedLen with
          | none => some (false, ⟨block, s.len, s.ptr + 1, s.got + 1⟩)
          | some block => readLoop h heap inc cs ⟨block, enlargedLen, s.len, s.got + 1⟩
        else readLoop h heap inc cs ⟨block, s.len, s.ptr + 1, s.got + 1⟩

/-- The buffer that a line is read to, if it can be allocated. -/
def LineBuffer.initial (heap : Allocator) (b : LineBuffer) (inc : ℕ) : Option (Bytes × ℕ) :=
  match b.block with
  | none => (heap.realloc [] inc).map (·, inc)
  | some block =>
    if b.len = 0 then (heap.realloc block inc).map (·, inc) else some (block, b.len)

/-- `utility_file_readln`: its return value, the stream and the buffer. -/
def utilityFileReadln (h : Host) (heap : Allocator) (f : InFile) (b : LineBuffer) (inc : ℕ) :
    Option (ℤ × InFile × LineBuffer) :=
  if f.feof then some (-1, f, b)
  else
    match b.initial heap inc with
    | none => some (-2, f, b)
    | some (block, len) =>
      match readLoop h heap inc f.rest ⟨block, len, 0, 0⟩ with
      | none => none
      -- The stream is as after an `fread` of the bytes that were asked for.
      | some (false, s) => some (-2, (f.fread s.got).2, ⟨some s.block, s.len⟩)
      | some (true, s) =>
        match store s.block s.ptr 0 with
        | none => none
        | some block =>
          let f := (f.fread s.got).2
          some (if f.ferror then -2 else 0, f, ⟨some block, s.len⟩)

/-- The string in a buffer, which is only defined when there is a NUL. -/
def LineBuffer.line (b : LineBuffer) : Option Bytes :=
  match b.block with
  | none => none
  | some block => if 0 ∈ block then some (block.takeWhile (· ≠ 0)) else none

/-- A function that lines are passed to, with an object which it may change: what it returns. -/
abbrev ReadFn (σ : Type*) := Bytes → σ → ℤ × σ

/-- The loop of `utility_file_read`, for at most `n` calls of `utility_file_readln`. -/
def readLines (h : Host) (heap : Allocator) (inc : ℕ) {σ : Type*} (readFn : ReadFn σ) :
    ℕ → InFile → LineBuffer → σ → Option (ℤ × InFile × σ)
  | 0, _, _, _ => none
  | n + 1, f, b, args =>
    match utilityFileReadln h heap f b inc with
    | none => none
    | some (rc, f, b) =>
      if rc = -1 then some (0, f, args)
      else if rc = -2 then some (-2, f, args)
      else
        match b.line with
        | none => none
        | some line =>
          let (res, args) := readFn line args
          if res ≠ 0 then some (-1, f, args) else readLines h heap inc readFn n f b args

/-- `utility_file_read`: its return value, the stream, and what `args` points to. No call but the
    last two ones leaves less than it finds. -/
def utilityFileRead (h : Host) (heap : Allocator) (f : InFile) (inc : ℕ) {σ : Type*}
    (readFn : ReadFn σ) (args : σ) : Option (ℤ × InFile × σ) :=
  readLines h heap inc readFn (f.rest.length + 2) f ⟨none, 0⟩ args

/-! ## The lines of a file -/

/-- What is before a newline is the first line, and the lines after it are the others. -/
theorem splitOn_line {line t : Bytes} (hline : newline ∉ line) (ht : ∀ c ∈ t.head?, c = newline) :
    (line ++ t).splitOn newline = line :: if t = [] then [] else t.tail.splitOn newline := by
  have hp : ∀ c ∈ line, (c == newline) = false := by
    intro c hc
    exact beq_eq_false_iff_ne.2 fun heq => hline (heq ▸ hc)
  cases t with
  | nil => rw [List.append_nil, List.splitOn, List.splitOnP_eq_singleton hp, if_pos rfl]
  | cons c cs =>
    have hc : (c == newline) = true := beq_iff_eq.2 (ht c rfl)
    rw [List.splitOn, List.splitOnP_append_cons_of_forall_mem hp c hc, if_neg (by simp)]
    rfl

/-- A content is cut at its first newline. -/
theorem exists_line (bs : Bytes) :
    ∃ line t, bs = line ++ t ∧ newline ∉ line ∧ ∀ c ∈ t.head?, c = newline := by
  refine ⟨bs.takeWhile (· ≠ newline), bs.dropWhile (· ≠ newline),
    List.takeWhile_append_dropWhile.symm, ?_, ?_⟩
  · intro hmem
    simpa using List.mem_takeWhile_imp hmem
  · intro c hc
    have := List.head?_dropWhile_not (fun c => decide (c ≠ newline)) bs
    rw [Option.mem_def.1 hc] at this
    simpa using this

namespace InFile

/-- The lines that are still to be read. -/
def lines (f : InFile) : List Bytes :=
  if f.feof then [] else f.rest.splitOn newline

/-- A file that can be read to its end. -/
structure Readable (f : InFile) : Prop where
  not_fails : f.fails = false
  not_ferror : f.ferror = false

theorem readable_opened (bs : Bytes) : (opened bs false).Readable := ⟨rfl, rfl⟩

theorem readable_exhausted : (exhausted false).Readable := ⟨rfl, rfl⟩

/-- A file that can be read to its end is open, or at its end. -/
theorem Readable.eq {f : InFile} (hf : f.Readable) (heof : f.feof = false) :
    f = opened f.rest false := by
  obtain ⟨rest, fails, feof, ferror, hrest⟩ := f
  obtain ⟨hfails, hferror⟩ := hf
  subst hfails hferror heof
  rfl

@[simp]
theorem lines_opened (bs : Bytes) (fails : Bool) :
    (opened bs fails).lines = bs.splitOn newline := rfl

/-- There are no more lines than bytes, and one. -/
theorem length_lines_le (f : InFile) : f.lines.length ≤ f.rest.length + 1 := by
  rw [lines]
  split_ifs
  · exact Nat.zero_le _
  · rw [List.splitOn]
    induction f.rest with
    | nil => simp
    | cons c cs ih =>
      rw [List.splitOnP_cons_eq_if_modifyHead, List.length_cons]
      split_ifs
      · rw [List.length_cons]
        omega
      · rw [List.length_modifyHead]
        omega

end InFile

/-! ## Room for a line -/

/-- The length of a buffer when the reading of a line starts, from its length before. -/
def startLen (size inc : ℕ) : ℕ :=
  if size = 0 then inc else size

/-- The length of a buffer which is enlarged as needed for `n` bytes and a NUL. -/
def grown (len inc n : ℕ) : ℕ :=
  if n < len then len else len + ((n - len) / inc + 1) * inc

/-- Each enlargement that is needed for `n` bytes and a NUL is possible. -/
def Grows (h : Host) (heap : Allocator) (inc len n : ℕ) : Prop :=
  ∀ j ≤ n, len + j * inc ≤ n →
    len + (j + 1) * inc < 2 ^ h.longBits ∧ heap.grants (len + (j + 1) * inc) = true

/-- There is room for a line of `n` bytes in a buffer of the given size, which is zero when it is
    still to be allocated. -/
def Room (h : Host) (heap : Allocator) (inc size n : ℕ) : Prop :=
  (size = 0 → heap.grants inc = true) ∧ Grows h heap inc (startLen size inc) n

/-- There is room for each line, with the increments `inc 0`, `inc 1`, ... -/
def Fits (h : Host) (heap : Allocator) : (ℕ → ℕ) → ℕ → List Bytes → Prop
  | _, _, [] => True
  | inc, size, line :: lines =>
    Room h heap (inc 0) size line.length ∧
      Fits h heap (fun i => inc (i + 1)) (grown (startLen size (inc 0)) (inc 0) line.length) lines

instance (h : Host) (heap : Allocator) (inc len n : ℕ) : Decidable (Grows h heap inc len n) :=
  inferInstanceAs (Decidable (∀ j ≤ n, _))

instance (h : Host) (heap : Allocator) (inc size n : ℕ) : Decidable (Room h heap inc size n) :=
  inferInstanceAs (Decidable (_ ∧ _))

instance decidableFits (h : Host) (heap : Allocator) :
    ∀ (inc : ℕ → ℕ) (size : ℕ) (lines : List Bytes), Decidable (Fits h heap inc size lines)
  | _, _, [] => .isTrue trivial
  | inc, size, line :: lines =>
    have := decidableFits h heap (fun i => inc (i + 1))
      (grown (startLen size (inc 0)) (inc 0) line.length) lines
    inferInstanceAs (Decidable (_ ∧ _))

variable {heap : Allocator} {inc len n : ℕ}

theorem lt_grown (hinc : 0 < inc) : n < grown len inc n := by
  rw [grown]
  split_ifs with hn
  · exact hn
  · have := Nat.lt_mul_div_succ (n - len) hinc
    rw [Nat.mul_comm] at this
    omega

/-- The length does not depend on when the buffer is enlarged. -/
theorem grown_add (hinc : 0 < inc) (hn : len ≤ n) : grown (len + inc) inc n = grown len inc n := by
  rw [grown, grown, if_neg (Nat.not_lt.2 hn)]
  split_ifs with hlt
  · rw [Nat.div_eq_of_lt (by omega)]
    omega
  · have hsub : n - len = n - (len + inc) + inc := by omega
    rw [hsub, Nat.add_div_right _ hinc]
    ring

/-- No enlargement is needed, or it is possible and so are the next ones. -/
theorem grows_iff (hinc : 0 < inc) (hn : len ≤ n) :
    Grows h heap inc len n ↔
      (len + inc < 2 ^ h.longBits ∧ heap.grants (len + inc) = true) ∧
        Grows h heap inc (len + inc) n := by
  have hadd : ∀ i, len + inc + i * inc = len + (i + 1) * inc := fun i => by ring
  constructor
  · intro hgrows
    refine ⟨by simpa using hgrows 0 (Nat.zero_le _) (by simpa using hn), ?_⟩
    intro j _ hj
    rw [hadd] at hj ⊢
    have hle : j + 1 ≤ (j + 1) * inc := Nat.le_mul_of_pos_right _ hinc
    exact hgrows (j + 1) (by omega) hj
  · rintro ⟨hfirst, hgrows⟩ j hle hj
    cases j with
    | zero => simpa using hfirst
    | succ j =>
      rw [← hadd] at hj ⊢
      exact hgrows j (by omega) hj

theorem grows_of_lt (hn : n < len) : Grows h heap inc len n := by
  intro j _ hj
  omega

/-! ## Reading a line -/

/-- A store inside of the block. -/
theorem store_of_lt {block : Bytes} {i : ℕ} (hi : i < block.length) (c : UInt8) :
    store block i c = some (block.set i c) :=
  if_pos hi

theorem store_of_le {block : Bytes} {i : ℕ} (hi : block.length ≤ i) (c : UInt8) :
    store block i c = none :=
  if_neg (Nat.not_lt.2 hi)

/-- The bytes before a store, and the byte stored. -/
theorem take_set {block : Bytes} {i : ℕ} (hi : i < block.length) (c : UInt8) :
    (block.set i c).take (i + 1) = block.take i ++ [c] := by
  rw [List.take_add_one, List.take_set_of_le (le_refl i), List.getElem?_set_self hi]
  rfl

/-- A block that is enlarged keeps its bytes. -/
theorem Allocator.realloc_of_le (block : Bytes) {n : ℕ} (hgrants : heap.grants n = true)
    (hn : block.length ≤ n) :
    ∃ block', heap.realloc block n = some block' ∧ block'.length = n ∧
      block'.take block.length = block := by
  refine ⟨_, if_pos hgrants, ?_, ?_⟩
  · simp only [List.length_append, List.length_take, List.length_map, List.length_range]
    omega
  · rw [List.take_of_length_le hn, List.take_left]

/-- A block has the size that was asked for. -/
theorem Allocator.length_of_realloc {block block' : Bytes} {n : ℕ}
    (h : heap.realloc block n = some block') : block'.length = n := by
  rw [realloc] at h
  split_ifs at h
  cases h
  simp only [List.length_append, List.length_take, List.length_map, List.length_range]
  omega

/-- What the loop does for a line for which there is room: it stores the line, and there is still
    room for a NUL. -/
theorem readLoop_of_grows (hinc : 0 < inc) {line t : Bytes} (hline : newline ∉ line)
    (ht : ∀ c ∈ t.head?, c = newline) {s : LineScan} (hlen : s.block.length = s.len)
    (hptr : s.ptr < s.len) (hgrows : Grows h heap inc s.len (s.ptr + line.length)) :
    ∃ block', readLoop h heap inc (line ++ t) s =
        some (true, ⟨block', grown s.len inc (s.ptr + line.length), s.ptr + line.length,
          s.got + line.length + 1⟩) ∧
      block'.length = grown s.len inc (s.ptr + line.length) ∧
      block'.take (s.ptr + line.length) = s.block.take s.ptr ++ line := by
  induction line generalizing s with
  | nil =>
    have hgrown : grown s.len inc (s.ptr + ([] : Bytes).length) = s.len := if_pos hptr
    refine ⟨s.block, ?_, by rw [hgrown, hlen], by simp⟩
    rw [hgrown]
    cases t with
    | nil => rfl
    | cons c cs => exact if_pos (ht c rfl)
  | cons c cs ih =>
    have hc : c ≠ newline := fun heq => hline (heq ▸ List.mem_cons_self)
    have hcs : newline ∉ cs := fun hmem => hline (List.mem_cons_of_mem _ hmem)
    have hstore := store_of_lt (hlen ▸ hptr) c
    have hadd : s.ptr + (c :: cs).length = s.ptr + 1 + cs.length := by
      rw [List.length_cons]
      omega
    have hgot : s.got + (c :: cs).length + 1 = s.got + 1 + cs.length + 1 := by
      rw [List.length_cons]
      omega
    rw [hadd] at hgrows ⊢
    rw [hgot]
    by_cases hfull : s.ptr + 1 = s.len
    · -- The block is full: it is enlarged at once, so that there is room for the next byte.
      obtain ⟨⟨hlt, hgrants⟩, hgrows⟩ := (grows_iff hinc (by omega)).1 hgrows
      obtain ⟨block', hrealloc, hlen', htake⟩ :=
        heap.realloc_of_le (s.block.set s.ptr c) hgrants (by rw [List.length_set]; omega)
      obtain ⟨block'', hloop, hlen'', htake'⟩ :=
        ih hcs (s := ⟨block', s.len + inc, s.len, s.got + 1⟩) hlen' (by simpa using hinc)
          (by rw [← hfull] at hgrows ⊢; exact hgrows)
      refine ⟨block'', ?_, ?_, ?_⟩
      · simp only [List.cons_append, readLoop, if_neg hc, hstore, if_pos hfull, hrealloc,
          Nat.mod_eq_of_lt hlt, hloop]
        rw [grown_add hinc (by omega), hfull]
      · rw [hlen'']
        dsimp only
        rw [grown_add hinc (by omega), hfull]
      · rw [List.length_set] at htake
        dsimp only at htake'
        rw [hfull, htake', ← hlen, htake, List.append_cons, ← take_set (hlen ▸ hptr) c, hfull,
          ← hlen, List.take_of_length_le (by rw [List.length_set])]
    · obtain ⟨block', hloop, hlen', htake⟩ :=
        ih hcs (s := ⟨s.block.set s.ptr c, s.len, s.ptr + 1, s.got + 1⟩)
          (by rw [List.length_set, hlen]) (by dsimp only; omega) hgrows
      refine ⟨block', ?_, hlen', ?_⟩
      · simp only [List.cons_append, readLoop, if_neg hc, hstore, if_neg hfull, hloop]
      · rw [htake, take_set (hlen ▸ hptr), List.append_assoc, List.singleton_append]

/-- What the loop does when the next byte has its place outside of the block. -/
theorem readLoop_of_le (h : Host) (heap : Allocator) (inc : ℕ) {s : LineScan}
    (hle : s.block.length ≤ s.ptr) (bs : Bytes) :
    readLoop h heap inc bs s = none ∨
      ∃ s', readLoop h heap inc bs s = some (true, s') ∧ s'.block.length ≤ s'.ptr := by
  cases bs with
  | nil => exact .inr ⟨_, rfl, hle⟩
  | cons c cs =>
    by_cases hc : c = newline
    · exact .inr ⟨_, if_pos hc, hle⟩
    · rw [readLoop, if_neg hc, store_of_le hle]
      exact .inl rfl

/-- What the loop does for a line for which there is not room: the last enlargement fails, or it
    makes the block smaller. -/
theorem readLoop_of_not_grows (hpos : 0 < inc) (hinc : inc < 2 ^ h.longBits) {line t : Bytes}
    (hline : newline ∉ line) {s : LineScan} (hlen : s.block.length = s.len)
    (hptr : s.ptr < s.len) (hgrows : ¬ Grows h heap inc s.len (s.ptr + line.length)) :
    readLoop h heap inc (line ++ t) s = none ∨
      (∃ s', readLoop h heap inc (line ++ t) s = some (false, s')) ∨
      ∃ s', readLoop h heap inc (line ++ t) s = some (true, s') ∧ s'.block.length ≤ s'.ptr := by
  induction line generalizing s with
  | nil => exact absurd (grows_of_lt hptr) hgrows
  | cons c cs ih =>
    have hc : c ≠ newline := fun heq => hline (heq ▸ List.mem_cons_self)
    have hcs : newline ∉ cs := fun hmem => hline (List.mem_cons_of_mem _ hmem)
    have hadd : s.ptr + (c :: cs).length = s.ptr + 1 + cs.length := by
      rw [List.length_cons]
      omega
    rw [hadd] at hgrows
    simp only [List.cons_append, readLoop, if_neg hc, store_of_lt (hlen ▸ hptr)]
    split_ifs with hfull
    · cases hrealloc : heap.realloc (s.block.set s.ptr c) ((s.len + inc) % 2 ^ h.longBits) with
      | none => exact .inr (.inl ⟨_, rfl⟩)
      | some block' =>
        have hlen' := heap.length_of_realloc hrealloc
        dsimp only
        by_cases hlt : s.len + inc < 2 ^ h.longBits
        · rw [Nat.mod_eq_of_lt hlt] at hrealloc hlen' ⊢
          have hgrants : heap.grants (s.len + inc) = true := by
            by_contra hno
            rw [Allocator.realloc, if_neg hno] at hrealloc
            cases hrealloc
          rw [grows_iff hpos (by omega)] at hgrows
          refine ih hcs hlen' (by simpa using hpos) ?_
          intro hrest
          exact hgrows ⟨⟨hlt, hgrants⟩, by rw [hfull]; exact hrest⟩
        · -- A sum that is wrapped is not more than its terms.
          have hmod : (s.len + inc) % 2 ^ h.longBits ≤ s.len := by
            by_cases hbig : s.len < 2 ^ h.longBits
            · rw [Nat.mod_eq_sub_mod (by omega), Nat.mod_eq_of_lt (by omega)]
              omega
            · have := Nat.mod_lt (s.len + inc) (Nat.two_pow_pos h.longBits)
              omega
          obtain hle | hle := readLoop_of_le h heap inc
            (s := ⟨block', _, s.len, s.got + 1⟩) (hlen'.le.trans hmod) (cs ++ t)
          · exact .inl hle
          · exact .inr (.inr hle)
    · refine ih hcs (by rw [List.length_set, hlen]) (by dsimp only; omega) ?_
      exact hgrows

namespace LineBuffer

/-- The length which the caller has is that of the block, if there is one. -/
def Sized (b : LineBuffer) : Prop :=
  ∀ block ∈ b.block, block.length = b.len

/-- The size of the block, which is zero when there is none. -/
def size (b : LineBuffer) : ℕ :=
  if b.block.isSome then b.len else 0

/-- A line starts with a block that has a byte at least. -/
theorem Sized.exists_initial {b : LineBuffer} (hb : b.Sized)
    (hgrants : b.size = 0 → heap.grants inc = true) :
    ∃ block, b.initial heap inc = some (block, startLen b.size inc) ∧
      block.length = startLen b.size inc := by
  obtain ⟨_ | block, len⟩ := b
  · obtain ⟨block', hrealloc, hlen', -⟩ :=
      heap.realloc_of_le [] (hgrants rfl) (Nat.zero_le _)
    refine ⟨block', ?_, hlen'⟩
    simp [initial, size, startLen, hrealloc]
  · have hlen : block.length = len := hb block rfl
    by_cases hzero : len = 0
    · have hnil : block.length ≤ inc := by omega
      obtain ⟨block', hrealloc, hlen', -⟩ :=
        heap.realloc_of_le block (hgrants (by simpa [size] using hzero)) hnil
      refine ⟨block', ?_, ?_⟩
      · simp [initial, size, startLen, hzero, hrealloc]
      · simpa [size, startLen, hzero] using hlen'
    · refine ⟨block, ?_, ?_⟩
      · simp [initial, size, startLen, hzero]
      · simpa [size, startLen, hzero] using hlen

/-- When the first block is not found, there is none. -/
theorem initial_eq_none {b : LineBuffer} (hzero : b.size = 0) (hgrants : ¬ heap.grants inc = true) :
    b.initial heap inc = none := by
  obtain ⟨_ | block, len⟩ := b
  · simp [initial, Allocator.realloc, hgrants]
  · have hlen : len = 0 := by simpa [size] using hzero
    simp [initial, Allocator.realloc, hgrants, hlen]

end LineBuffer

theorem startLen_pos (hinc : 0 < inc) (size : ℕ) : 0 < startLen size inc := by
  rw [startLen]
  split_ifs <;> omega

variable {f : InFile} {b : LineBuffer}

/-- At the end of a file. -/
theorem utilityFileReadln_of_lines_nil (hlines : f.lines = []) :
    utilityFileReadln h heap f b inc = some (-1, f, b) := by
  have heof : f.feof = true := by
    by_contra hno
    rw [InFile.lines, if_neg hno] at hlines
    exact List.splitOnP_ne_nil _ _ hlines
  exact if_pos heof

/-- Otherwise, the file is at the beginning of its first line. -/
theorem InFile.Readable.of_lines {line : Bytes} {lines : List Bytes} (hf : f.Readable)
    (hlines : f.lines = line :: lines) :
    ∃ t, f = opened (line ++ t) false ∧ newline ∉ line ∧ (∀ c ∈ t.head?, c = newline) ∧
      lines = if t = [] then [] else t.tail.splitOn newline := by
  have heof : f.feof = false := by
    by_contra hno
    rw [InFile.lines, if_pos (by simpa using hno)] at hlines
    cases hlines
  have hfile := hf.eq heof
  obtain ⟨line', t, hrest, hline, ht⟩ := exists_line f.rest
  rw [hfile, lines_opened, hrest, splitOn_line hline ht] at hlines
  obtain ⟨rfl, rfl⟩ := List.cons.inj hlines
  rw [hrest] at hfile
  exact ⟨t, hfile, hline, ht, rfl⟩

/-- The stream after the bytes of a line and what ends it. -/
theorem fread_line (line : Bytes) {t : Bytes} (ht : ∀ c ∈ t.head?, c = newline) :
    ((InFile.opened (line ++ t) false).fread (line.length + 1)).2.Readable ∧
      ((InFile.opened (line ++ t) false).fread (line.length + 1)).2.lines =
        if t = [] then [] else t.tail.splitOn newline := by
  cases t with
  | nil =>
    rw [List.append_nil, InFile.fread_opened_of_lt (by omega)]
    exact ⟨InFile.readable_exhausted, rfl⟩
  | cons c cs =>
    rw [InFile.fread_opened_of_le (by simp), List.append_cons, List.drop_left' (by simp)]
    exact ⟨InFile.readable_opened cs, by simp⟩

/-- A line for which there is room is read whatever was in the buffer. -/
theorem utilityFileReadln_of_room (hinc : 0 < inc) {line : Bytes} {lines : List Bytes}
    (hf : f.Readable) (hlines : f.lines = line :: lines) (hb : b.Sized)
    (hroom : Room h heap inc b.size line.length) :
    ∃ f' b', utilityFileReadln h heap f b inc = some (0, f', b') ∧ f'.Readable ∧
      f'.lines = lines ∧ b'.Sized ∧
      b'.size = grown (startLen b.size inc) inc line.length ∧
      (0 ∉ line → b'.line = some line) := by
  obtain ⟨t, rfl, hline, ht, rfl⟩ := hf.of_lines hlines
  obtain ⟨block, hinitial, hlen⟩ := hb.exists_initial hroom.1
  obtain ⟨block', hloop, hlen', htake⟩ :=
    readLoop_of_grows hinc hline ht (s := ⟨block, startLen b.size inc, 0, 0⟩) hlen
      (startLen_pos hinc _) (by simpa using hroom.2)
  simp only [Nat.zero_add, List.take_zero, List.nil_append] at hloop hlen' htake
  -- The NUL is inside of the block, since there is always a byte left in it.
  have hnul : line.length < block'.length := hlen' ▸ lt_grown hinc
  obtain ⟨hreadable, hrest⟩ := fread_line line ht
  refine ⟨_, ⟨some (block'.set line.length 0), grown (startLen b.size inc) inc line.length⟩, ?_,
    hreadable, hrest, ?_, rfl, ?_⟩
  · rw [utilityFileReadln, if_neg (by simp [InFile.opened]), hinitial]
    simp only [InFile.rest_opened, hloop, store_of_lt hnul, hreadable.not_ferror]
    rfl
  · intro block'' hblock
    cases hblock
    rw [List.length_set, hlen']
  · intro hzero
    have hset : block'.set line.length 0 = line ++ 0 :: block'.drop (line.length + 1) := by
      rw [List.set_eq_take_append_cons_drop, if_pos hnul, htake]
    have hmem : 0 ∈ line ++ 0 :: block'.drop (line.length + 1) := by simp
    have hne : ∀ c ∈ line, decide (c ≠ 0) = true := fun c hc =>
      decide_eq_true fun heq => hzero (heq ▸ hc)
    simp only [LineBuffer.line, hset, if_pos hmem, List.takeWhile_append_of_pos hne]
    simp

/-- A line for which there is not room is not read. -/
theorem utilityFileReadln_of_not_room (hpos : 0 < inc) (hinc : inc < 2 ^ h.longBits)
    {line : Bytes} {lines : List Bytes} (hf : f.Readable) (hlines : f.lines = line :: lines)
    (hb : b.Sized) (hroom : ¬ Room h heap inc b.size line.length) :
    utilityFileReadln h heap f b inc = none ∨
      ∃ f' b', utilityFileReadln h heap f b inc = some (-2, f', b') := by
  obtain ⟨t, rfl, hline, -, -⟩ := hf.of_lines hlines
  rw [utilityFileReadln, if_neg (by simp [InFile.opened])]
  by_cases hgrants : b.size = 0 → heap.grants inc = true
  · obtain ⟨block, hinitial, hlen⟩ := hb.exists_initial hgrants
    have hgrows : ¬ Grows h heap inc (startLen b.size inc) (0 + line.length) := by
      rw [Nat.zero_add]
      exact fun hgrows => hroom ⟨hgrants, hgrows⟩
    rw [hinitial]
    simp only [InFile.rest_opened]
    obtain hloop | ⟨s', hloop⟩ | ⟨s', hloop, hle⟩ :=
      readLoop_of_not_grows hpos hinc hline (t := t) (s := ⟨block, startLen b.size inc, 0, 0⟩) hlen
        (startLen_pos hpos _) hgrows
    · exact .inl (by rw [hloop])
    · exact .inr ⟨_, _, by rw [hloop]⟩
    · refine .inl ?_
      rw [hloop]
      simp only [store_of_le hle]
  · push Not at hgrants
    rw [LineBuffer.initial_eq_none hgrants.1 hgrants.2]
    exact .inr ⟨_, _, rfl⟩

/-! ## Successive calls -/

/-- What the call of `utility_file_readln` after `n` other ones does, with the increments `inc 0`,
    `inc 1`, ... -/
def nthCall (h : Host) (heap : Allocator) : ℕ → (ℕ → ℕ) → InFile → LineBuffer →
    Option (ℤ × InFile × LineBuffer)
  | 0, inc, f, b => utilityFileReadln h heap f b (inc 0)
  | n + 1, inc, f, b =>
    match utilityFileReadln h heap f b (inc 0) with
    | none => none
    | some (_, f, b) => nthCall h heap n (fun i => inc (i + 1)) f b

/-- What a call gives: the line, or the end of the file when there is none. -/
def Gives (res : Option (ℤ × InFile × LineBuffer)) : Option Bytes → Prop
  | some line => ∃ f b, res = some (0, f, b) ∧ b.Sized ∧ b.line = some line
  | none => ∃ f b, res = some (-1, f, b) ∧ b.Sized

/-- Successive calls give the lines one after the other, and then the end of the file for ever. -/
def Splits (h : Host) (heap : Allocator) (inc : ℕ → ℕ) (f : InFile) (b : LineBuffer)
    (lines : List Bytes) : Prop :=
  ∀ n, Gives (nthCall h heap n inc f b) lines[n]?

/-- The calls after the end of the file. -/
theorem splits_nil (inc : ℕ → ℕ) (hlines : f.lines = []) (hb : b.Sized) :
    Splits h heap inc f b [] := by
  intro n
  refine ⟨f, b, ?_, hb⟩
  induction n generalizing inc with
  | zero => exact utilityFileReadln_of_lines_nil hlines
  | succ n ih =>
    rw [nthCall, utilityFileReadln_of_lines_nil hlines]
    exact ih _

/-- A call which reads a line leaves the others to the next calls. -/
theorem splits_cons {inc : ℕ → ℕ} {f' : InFile} {b' : LineBuffer} {line : Bytes}
    {lines : List Bytes} (hcall : utilityFileReadln h heap f b (inc 0) = some (0, f', b'))
    (hb' : b'.Sized) (hline : b'.line = some line) :
    Splits h heap inc f b (line :: lines) ↔
      Splits h heap (fun i => inc (i + 1)) f' b' lines := by
  have hsucc : ∀ n, nthCall h heap (n + 1) inc f b =
      nthCall h heap n (fun i => inc (i + 1)) f' b' := by
    intro n
    rw [nthCall, hcall]
  constructor
  · intro hsplits n
    rw [← hsucc]
    simpa using hsplits (n + 1)
  · intro hsplits n
    cases n with
    | zero => exact ⟨f', b', hcall, hb', hline⟩
    | succ n =>
      rw [hsucc]
      simpa using hsplits n

/-- The lines are those of the file exactly when there is room for each of them. -/
theorem splits_iff {inc : ℕ → ℕ} (hinc : ∀ i, 0 < inc i ∧ inc i < 2 ^ h.longBits)
    {lines : List Bytes} (hf : f.Readable) (hlines : f.lines = lines) (hzero : ∀ l ∈ lines, 0 ∉ l)
    (hb : b.Sized) :
    Splits h heap inc f b lines ↔ Fits h heap inc b.size lines := by
  induction lines generalizing inc f b with
  | nil => exact iff_of_true (splits_nil inc hlines hb) trivial
  | cons line lines ih =>
    by_cases hroom : Room h heap (inc 0) b.size line.length
    · obtain ⟨f', b', hcall, hf', hlines', hb', hsize, hline⟩ :=
        utilityFileReadln_of_room (hinc 0).1 hf hlines hb hroom
      rw [splits_cons hcall hb' (hline (hzero line List.mem_cons_self)),
        ih (fun i => hinc (i + 1)) hf' hlines' (fun l hl => hzero l (List.mem_cons_of_mem _ hl))
          hb', hsize, Fits]
      exact (and_iff_right hroom).symm
    · -- Neither a call that fails nor one that has no meaning gives the line.
      refine iff_of_false (fun hsplits => ?_) fun hfits => hroom hfits.1
      obtain ⟨f', b', hcall, -, -⟩ := hsplits 0
      rw [nthCall] at hcall
      obtain hnone | ⟨f'', b'', hfail⟩ :=
        utilityFileReadln_of_not_room (hinc 0).1 (hinc 0).2 hf hlines hb hroom
      · rw [hnone] at hcall
        cases hcall
      · rw [hfail] at hcall
        cases hcall

/-! ## Passing the lines to a function -/

/-- What a function does with lines: the return value of the reader, its object, the lines that are
    passed to it, and those that are left. -/
structure Fed (σ : Type*) where
  rc : ℤ
  args : σ
  passed : List Bytes
  left : List Bytes

/-- Lines passed to a function until it returns non-zero. -/
def feed {σ : Type*} (readFn : ReadFn σ) : List Bytes → σ → Fed σ
  | [], args => ⟨0, args, [], []⟩
  | line :: lines, args =>
    let (res, args) := readFn line args
    if res ≠ 0 then ⟨-1, args, [line], lines⟩
    else
      let fed := feed readFn lines args
      { fed with passed := line :: fed.passed }

/-- Each line is either passed, or left. -/
theorem passed_append_left {σ : Type*} (readFn : ReadFn σ) (lines : List Bytes) (args : σ) :
    (feed readFn lines args).passed ++ (feed readFn lines args).left = lines := by
  induction lines generalizing args with
  | nil => rfl
  | cons line lines ih =>
    rw [feed]
    dsimp only
    split_ifs
    · rfl
    · rw [List.cons_append, ih]

/-- The readers after each other on one stream: each passes the lines that were left. -/
def Continues (h : Host) (heap : Allocator) {σ : Type*} :
    List (ℕ × ReadFn σ) → InFile → σ → List Bytes → Prop
  | [], _, _, _ => True
  | (inc, readFn) :: calls, f, args, lines =>
    let fed := feed readFn lines args
    ∃ f', utilityFileRead h heap f inc readFn args = some (fed.rc, f', fed.args) ∧
      Continues h heap calls f' fed.args fed.left

/-- There is room for each line that is passed. -/
def FitsAll (h : Host) (heap : Allocator) {σ : Type*} :
    List (ℕ × ReadFn σ) → σ → List Bytes → Prop
  | [], _, _ => True
  | (inc, readFn) :: calls, args, lines =>
    let fed := feed readFn lines args
    Fits h heap (fun _ => inc) 0 fed.passed ∧ FitsAll h heap calls fed.args fed.left

variable {σ : Type*} {readFn : ReadFn σ}

/-- Lines for which there is room are passed, and the stream has those that are left. -/
theorem readLines_of_fits (hpos : 0 < inc) {lines : List Bytes} {n : ℕ} (hn : lines.length < n)
    (hf : f.Readable) (hlines : f.lines = lines) (hzero : ∀ l ∈ lines, 0 ∉ l) (hb : b.Sized)
    {args : σ} (hfits : Fits h heap (fun _ => inc) b.size (feed readFn lines args).passed) :
    ∃ f', readLines h heap inc readFn n f b args =
        some ((feed readFn lines args).rc, f', (feed readFn lines args).args) ∧
      f'.Readable ∧ f'.lines = (feed readFn lines args).left := by
  obtain ⟨n, rfl⟩ : ∃ m, n = m + 1 := ⟨n - 1, by omega⟩
  induction lines generalizing n f b args with
  | nil =>
    refine ⟨f, ?_, hf, hlines⟩
    rw [readLines, utilityFileReadln_of_lines_nil hlines]
    rfl
  | cons line lines ih =>
    obtain ⟨n, rfl⟩ : ∃ m, n = m + 1 := ⟨n - 1, by simp at hn; omega⟩
    have hroom : Room h heap inc b.size line.length := by
      rw [feed] at hfits
      dsimp only at hfits
      split_ifs at hfits <;> exact hfits.1
    obtain ⟨f', b', hcall, hf', hlines', hb', hsize, hline⟩ :=
      utilityFileReadln_of_room hpos hf hlines hb hroom
    rw [readLines, hcall]
    simp only [hline (hzero line List.mem_cons_self), if_neg (show ¬ (0 : ℤ) = -1 by decide),
      if_neg (show ¬ (0 : ℤ) = -2 by decide), feed] at hfits ⊢
    split_ifs at hfits ⊢ with hres
    · exact ⟨f', rfl, hf', hlines'⟩
    · refine ih hf' hlines' (fun l hl => hzero l (List.mem_cons_of_mem _ hl)) hb' ?_ n
        (by simpa using hn)
      rw [hsize]
      exact hfits.2

/-- Without room for one of them, the reading fails, or stores outside of its block. -/
theorem readLines_of_not_fits (hpos : 0 < inc) (hinc : inc < 2 ^ h.longBits) {lines : List Bytes}
    {n : ℕ} (hf : f.Readable) (hlines : f.lines = lines)
    (hzero : ∀ l ∈ lines, 0 ∉ l) (hb : b.Sized) {args : σ}
    (hfits : ¬ Fits h heap (fun _ => inc) b.size (feed readFn lines args).passed) :
    readLines h heap inc readFn n f b args = none ∨
      ∃ f' args', readLines h heap inc readFn n f b args = some (-2, f', args') := by
  induction lines generalizing n f b args with
  | nil => exact absurd trivial hfits
  | cons line lines ih =>
    cases n with
    | zero => exact .inl rfl
    | succ n =>
      by_cases hroom : Room h heap inc b.size line.length
      · obtain ⟨f', b', hcall, hf', hlines', hb', hsize, hline⟩ :=
          utilityFileReadln_of_room hpos hf hlines hb hroom
        rw [readLines, hcall]
        simp only [hline (hzero line List.mem_cons_self), if_neg (show ¬ (0 : ℤ) = -1 by decide),
          if_neg (show ¬ (0 : ℤ) = -2 by decide), feed] at hfits ⊢
        split_ifs at hfits ⊢ with hres
        · exact absurd ⟨hroom, trivial⟩ hfits
        · refine ih hf' hlines' (fun l hl => hzero l (List.mem_cons_of_mem _ hl)) hb' ?_
          intro hrest
          rw [hsize] at hrest
          exact hfits ⟨hroom, hrest⟩
      · obtain hnone | ⟨f', b', hfail⟩ :=
          utilityFileReadln_of_not_room hpos hinc hf hlines hb hroom
        · exact .inl (by rw [readLines, hnone])
        · exact .inr ⟨f', args, by rw [readLines, hfail]; rfl⟩

/-- A function that is passed lines is done, or has returned non-zero. -/
theorem feed_rc (readFn : ReadFn σ) (lines : List Bytes) (args : σ) :
    (feed readFn lines args).rc = 0 ∨ (feed readFn lines args).rc = -1 := by
  induction lines generalizing args with
  | nil => exact .inl rfl
  | cons line lines ih =>
    rw [feed]
    dsimp only
    split_ifs
    · exact .inr rfl
    · exact ih _

/-- The readers pass all the lines one after the other exactly when there is room for each line
    that they pass. -/
theorem continues_iff {calls : List (ℕ × ReadFn σ)}
    (hcalls : ∀ c ∈ calls, 0 < c.1 ∧ c.1 < 2 ^ h.longBits) {lines : List Bytes}
    (hf : f.Readable) (hlines : f.lines = lines) (hzero : ∀ l ∈ lines, 0 ∉ l) (args : σ) :
    Continues h heap calls f args lines ↔ FitsAll h heap calls args lines := by
  induction calls generalizing f lines args with
  | nil => exact Iff.rfl
  | cons call calls ih =>
    obtain ⟨inc, readFn⟩ := call
    obtain ⟨hpos, hinc⟩ := hcalls _ List.mem_cons_self
    have hb : (⟨none, 0⟩ : LineBuffer).Sized := by
      intro block hblock
      cases hblock
    have hleft : ∀ l ∈ (feed readFn lines args).left, 0 ∉ l := by
      intro l hl
      refine hzero l ?_
      rw [← passed_append_left readFn lines args]
      exact List.mem_append_right _ hl
    by_cases hfits : Fits h heap (fun _ => inc) 0 (feed readFn lines args).passed
    · have hn : lines.length < f.rest.length + 2 := by
        have := f.length_lines_le
        rw [hlines] at this
        omega
      obtain ⟨f', hread, hf', hlines'⟩ :=
        readLines_of_fits (b := ⟨none, 0⟩) hpos hn hf hlines hzero hb hfits
      have := ih (fun c hc => hcalls c (List.mem_cons_of_mem _ hc)) hf' hlines' hleft
        (feed readFn lines args).args
      rw [FitsAll, Continues]
      refine Iff.trans ?_ (and_iff_right hfits).symm
      rw [← this]
      constructor
      · rintro ⟨f'', hread', hcont⟩
        rw [utilityFileRead, hread] at hread'
        cases hread'
        exact hcont
      · exact fun hcont => ⟨f', hread, hcont⟩
    · refine iff_of_false ?_ fun hall => hfits hall.1
      rintro ⟨f', hread, -⟩
      rw [utilityFileRead] at hread
      obtain hnone | ⟨f'', args', hfail⟩ :=
        readLines_of_not_fits (n := f.rest.length + 2) (b := ⟨none, 0⟩) hpos hinc hf hlines hzero hb
          hfits
      · rw [hnone] at hread
        cases hread
      · rw [hfail, Option.some_inj, Prod.mk.injEq] at hread
        rcases feed_rc readFn lines args with hrc | hrc <;> rw [hrc] at hread <;> cases hread.1

/-- The lines of a content without NUL have none. -/
theorem notMem_of_mem_splitOn {content l : Bytes} (hcontent : 0 ∉ content)
    (hl : l ∈ content.splitOn newline) : 0 ∉ l := by
  rw [List.splitOn] at hl
  induction content generalizing l with
  | nil =>
    rw [List.splitOnP_nil, List.mem_singleton] at hl
    rw [hl]
    exact List.not_mem_nil
  | cons c cs ih =>
    have hc : 0 ≠ c := fun heq => hcontent (heq ▸ List.mem_cons_self)
    have hcs : 0 ∉ cs := fun hmem => hcontent (List.mem_cons_of_mem _ hmem)
    rw [List.splitOnP_cons_eq_if_modifyHead] at hl
    split_ifs at hl
    · rcases List.mem_cons.1 hl with rfl | hl
      · exact List.not_mem_nil
      · exact ih hcs hl
    · obtain ⟨line, lines, hsplit⟩ := List.exists_cons_of_ne_nil (List.splitOnP_ne_nil _ cs)
      rw [hsplit, List.modifyHead_cons] at hl
      rcases List.mem_cons.1 hl with rfl | hl
      · exact List.not_mem_cons_of_ne_of_not_mem hc (ih hcs (hsplit ▸ List.mem_cons_self))
      · exact ih hcs (hsplit ▸ List.mem_cons_of_mem _ hl)

/-- Successive calls split a content at its newlines exactly when there is room for each line, and
    so do readers which pass its lines on. -/
theorem splits_and_continues_iff (h : Host) (heap : Allocator) {content : Bytes}
    (hcontent : 0 ∉ content) {inc : ℕ → ℕ} (hinc : ∀ i, 0 < inc i ∧ inc i < 2 ^ h.longBits)
    {b : LineBuffer} (hb : b.Sized) {σ : Type*} {calls : List (ℕ × ReadFn σ)}
    (hcalls : ∀ c ∈ calls, 0 < c.1 ∧ c.1 < 2 ^ h.longBits) (args : σ) :
    (Splits h heap inc (.opened content false) b (content.splitOn newline) ↔
        Fits h heap inc b.size (content.splitOn newline)) ∧
      (Continues h heap calls (.opened content false) args (content.splitOn newline) ↔
        FitsAll h heap calls args (content.splitOn newline)) := by
  have hzero : ∀ l ∈ content.splitOn newline, 0 ∉ l := fun l => notMem_of_mem_splitOn hcontent
  exact ⟨splits_iff hinc (InFile.readable_opened content) rfl hzero hb,
    continues_iff hcalls (InFile.readable_opened content) rfl hzero args⟩

/-- An allocator which finds the blocks that are smaller than half of the address space. -/
def roomy : Allocator where
  grants n := 0 < n && n < 2 ^ 63
  garbage _ := 0xAA

/-- A text as the bytes of a file. -/
def ascii (text : String) : Bytes := text.toList.map fun c => UInt8.ofNat c.toNat

/-- A text which is split with the increments 4 and then 8, and passed to a function which stops at
    its first line, and then to one which goes on. -/
theorem splits_and_continues_hello :
    Splits .lp64 roomy (fun i => if i = 0 then 4 else 8)
        (.opened (ascii "hello there\nlast line") false) ⟨none, 0⟩
        [ascii "hello there", ascii "last line"] ∧
      Continues .lp64 roomy
        [(4, fun line passed => (1, passed ++ [line])),
          (4, fun line passed => (0, passed ++ [line]))]
        (.opened (ascii "hello there\nlast line") false) []
        [ascii "hello there", ascii "last line"] := by
  have hcontent : 0 ∉ ascii "hello there\nlast line" := by decide
  have hb : (⟨none, 0⟩ : LineBuffer).Sized := by
    intro block hblock
    cases hblock
  have hinc : ∀ i, 0 < (if i = 0 then 4 else 8) ∧
      (if i = 0 then 4 else 8) < 2 ^ Host.lp64.longBits := by
    intro i
    split_ifs <;> decide
  have hcalls : ∀ c ∈ ([(4, fun line passed => (1, passed ++ [line])),
      (4, fun line passed => (0, passed ++ [line]))] : List (ℕ × ReadFn (List Bytes))),
      0 < c.1 ∧ c.1 < 2 ^ Host.lp64.longBits := by decide
  have hiff := splits_and_continues_iff .lp64 roomy hcontent hinc hb hcalls []
  have hlines : (ascii "hello there\nlast line").splitOn newline =
      [ascii "hello there", ascii "last line"] := by decide
  rw [hlines] at hiff
  exact ⟨hiff.1.2 (by decide), hiff.2.2 ⟨by decide, by decide, trivial⟩⟩

/-- A text which is not split, with an increment that makes the length of a buffer wrap: the buffer
    of 10 bytes is replaced by one of 5, and the next byte is stored after its end. -/
theorem not_splits_wrap :
    0 ∉ ascii "hello there" ∧ (⟨some (List.replicate 10 0), 10⟩ : LineBuffer).Sized ∧
      ¬ Splits .lp64 roomy (fun _ => 2 ^ 64 - 5) (.opened (ascii "hello there") false)
        ⟨some (List.replicate 10 0), 10⟩ ((ascii "hello there").splitOn newline) := by
  refine ⟨by decide, ?_, ?_⟩
  · intro block hblock
    cases hblock
    rfl
  · intro hsplits
    have hfirst := hsplits 0
    have hfault : (utilityFileReadln .lp64 roomy (.opened (ascii "hello there") false)
        ⟨some (List.replicate 10 0), 10⟩ (2 ^ 64 - 5)).isNone = true := by decide
    rw [nthCall, Option.isNone_iff_eq_none.1 hfault] at hfirst
    obtain ⟨f, b, hres, -⟩ := hfirst
    cases hres

end RealtimeTests
