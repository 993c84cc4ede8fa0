import RealtimeTests.Task.Log

/-!
# The buffer for the name

`task_statistics_read` allocates a buffer for the name of the task, reads the name
into it, and puts a null after it. The length of the name is whatever the header
says: the buffer is one larger than it *in 32 bits*, while the length itself bounds
the read, and is where the null goes.

* `NameInBounds`: all that is stored lies in the buffer.
* `nameInBounds_iff`: it does on a stream unless the log overflows the size of the
  buffer (`NameOverflow`), whatever else the stream holds. On such a log the reader has
  no result (`taskStatisticsRead_of_nameOverflow`).
-/

namespace RealtimeTests

/-! ## The stores -/

/-- What is done to a buffer: the size it is allocated with, and the offsets of the bytes that
    are stored. -/
structure BufferUse where
  size : ℕ
  stores : List ℕ
  deriving DecidableEq

/-- Every byte is stored in the buffer. -/
def BufferUse.InBounds (u : BufferUse) : Prop := ∀ i ∈ u.stores, i < u.size

instance (u : BufferUse) : Decidable u.InBounds := inferInstanceAs (Decidable (∀ i ∈ u.stores, _))

/-- The stores of a name: those of `fread`, and the null behind a name which is complete. -/
def TaskStatistics.nameUse (taskStats : TaskStatistics) (statsLog : InFile) : BufferUse where
  size := taskStats.nameSize
  stores :=
    let name := (statsLog.fread taskStats.nameLen.toNat).1
    if name.length ≠ taskStats.nameLen.toNat then List.range name.length
    else List.range name.length ++ [taskStats.nameLen.toNat]

/-- What `task_statistics_read` does to the buffer for the name, if it allocates it; `malloc`
    tells whether it can. -/
def taskStatisticsReadName (h : Host) (malloc : Bool) (statsLog : InFile) : Option BufferUse :=
  if statsLog.feof then none
  else
    match statsLog.fread TaskStatistics.sizeof with
    | (bs, statsLog) =>
      if bs.length ≠ TaskStatistics.sizeof then none
      else
        let taskStats := TaskStatistics.ofBytes h bs
        if !taskStats.compatible h then none
        else if !malloc then none
        else some (taskStats.nameUse statsLog)

/-- Reading a log never stores past the buffer for the name. -/
def NameInBounds (h : Host) (malloc : Bool) (statsLog : InFile) : Prop :=
  ∀ u ∈ taskStatisticsReadName h malloc statsLog, u.InBounds

/-! ## Where they lie -/

namespace InFile

variable (n : ℕ) (f : InFile)

/-- What is read is what comes next. -/
theorem fst_fread : (f.fread n).1 = f.rest.take n := by
  rw [fread]
  split_ifs with hn
  · rfl
  · exact (List.take_of_length_le (not_le.1 hn).le).symm

/-- The rest stays. -/
theorem rest_snd_fread : (f.fread n).2.rest = f.rest.drop n := by
  rw [fread]
  split_ifs with hn
  · rfl
  · exact (List.drop_of_length_le (not_le.1 hn).le).symm

end InFile

namespace TaskStatistics

variable (s : TaskStatistics) (f : InFile)

/-- The bytes stored are the first ones of the buffer, as many as are read of the name and the
    null. -/
theorem mem_stores_nameUse (i : ℕ) :
    i ∈ (s.nameUse f).stores ↔
      if s.nameLen.toNat ≤ f.rest.length then i ≤ s.nameLen.toNat else i < f.rest.length := by
  simp only [nameUse, InFile.fst_fread, List.length_take]
  split_ifs with hshort hle hle
  · exact absurd (min_eq_left hle) hshort
  · rw [List.mem_range, min_eq_right (not_le.1 hle).le]
  · rw [List.mem_append, List.mem_range, List.mem_singleton, min_eq_left hle]
    omega
  · exact absurd (not_not.1 hshort) (by omega)

/-- Unless the size overflows, no name and no truncation of it takes more bytes than the buffer
    has; when it does, any byte is one too many. -/
theorem inBounds_nameUse_iff :
    (s.nameUse f).InBounds ↔ (s.nameLen.toNat = 2 ^ 32 - 1 → f.rest = []) := by
  have hsize : (s.nameUse f).size = if s.nameLen.toNat = 2 ^ 32 - 1 then 0
    else s.nameLen.toNat + 1 := s.nameSize_eq
  simp only [BufferUse.InBounds, mem_stores_nameUse, hsize]
  by_cases hmax : s.nameLen.toNat = 2 ^ 32 - 1
  · simp only [hmax, if_true, true_implies, Nat.not_lt_zero, imp_false]
    constructor
    · -- The first byte that is left is stored in a buffer of none.
      intro hnone
      by_contra hne
      have hpos := List.length_pos_iff.2 hne
      have hzero := hnone 0
      split_ifs at hzero
      · exact hzero (Nat.zero_le _)
      · exact hzero hpos
    · intro hnil i
      simp [hnil]
  · simp only [hmax, if_false, false_implies, iff_true]
    intro i hi
    split_ifs at hi <;> omega

end TaskStatistics

variable {h : Host} {σ : Type*}

/-- The buffer is allocated on a compatible header, and the name is read after it. -/
theorem mem_taskStatisticsReadName_iff (malloc : Bool) (statsLog : InFile) (u : BufferUse) :
    u ∈ taskStatisticsReadName h malloc statsLog ↔
      statsLog.feof = false ∧ TaskStatistics.sizeof ≤ statsLog.rest.length ∧
        (logHeader h statsLog.rest).compatible h = true ∧ malloc = true ∧
        (logHeader h statsLog.rest).nameUse (statsLog.fread TaskStatistics.sizeof).2 = u := by
  have hheader : TaskStatistics.ofBytes h (statsLog.fread TaskStatistics.sizeof).1 =
      logHeader h statsLog.rest := by
    rw [InFile.fst_fread, logHeader]
  have hlen : (statsLog.fread TaskStatistics.sizeof).1.length = TaskStatistics.sizeof ↔
      TaskStatistics.sizeof ≤ statsLog.rest.length := by
    rw [InFile.fst_fread, List.length_take, min_eq_left_iff]
  rw [taskStatisticsReadName, Option.mem_def]
  simp only [hheader, ne_eq, hlen]
  cases statsLog.feof <;> cases malloc <;>
    cases (logHeader h statsLog.rest).compatible h <;> simp

/-- What is stored in a buffer which is allocated lies in it unless its size overflows. -/
theorem inBounds_iff_of_mem {malloc : Bool} {statsLog : InFile} {u : BufferUse}
    (hu : u ∈ taskStatisticsReadName h malloc statsLog) :
    u.InBounds ↔ ¬NameOverflow h statsLog.rest := by
  obtain ⟨-, hle, hcomp, -, rfl⟩ := (mem_taskStatisticsReadName_iff malloc statsLog u).1 hu
  rw [TaskStatistics.inBounds_nameUse_iff, InFile.rest_snd_fread, List.drop_eq_nil_iff]
  constructor
  · rintro hend ⟨hlt, -, hmax⟩
    exact (hend hmax).not_gt hlt
  · intro hno hmax
    by_contra hgt
    exact hno ⟨not_le.1 hgt, hcomp, hmax⟩

/-- It is allocated whenever its size overflows. -/
theorem exists_mem_of_nameOverflow {statsLog : InFile} (ho : NameOverflow h statsLog.rest) :
    ∃ u, u ∈ taskStatisticsReadName h true statsLog := by
  obtain ⟨hlt, hcomp, -⟩ := ho
  have hfeof : statsLog.feof = false := by
    by_contra htrue
    rw [statsLog.rest_of_feof (eq_true_of_ne_false htrue)] at hlt
    exact absurd hlt (Nat.not_lt_zero _)
  exact ⟨_, (mem_taskStatisticsReadName_iff _ _ _).2 ⟨hfeof, hlt.le, hcomp, rfl, rfl⟩⟩

/-- The bytes stored for the name lie in its buffer, for every stream and however it ends,
    except when the size of the buffer overflows and there is a byte to be stored. -/
theorem nameInBounds_iff (h : Host) (malloc : Bool) (statsLog : InFile) :
    NameInBounds h malloc statsLog ↔ (malloc = true → ¬NameOverflow h statsLog.rest) := by
  constructor
  · rintro hall rfl ho
    obtain ⟨u, hu⟩ := exists_mem_of_nameOverflow ho
    exact (inBounds_iff_of_mem hu).1 (hall u hu) ho
  · intro hno u hu
    have hmalloc : malloc = true := ((mem_taskStatisticsReadName_iff _ _ _).1 hu).2.2.2.1
    exact (inBounds_iff_of_mem hu).2 (hno hmalloc)

/-- A log written with the longest name that its length can tell, of which one byte is left:
    the byte is stored in a buffer of none. -/
theorem not_nameInBounds :
    ¬NameInBounds .lp64 true (.opened
      ({ (TaskCreateArgs.everySecond 2).taskStats with nameLen := -1 }.toBytes .lp64 ++ [97])
      false) := by
  intro hall
  have huse : taskStatisticsReadName .lp64 true (.opened
      ({ (TaskCreateArgs.everySecond 2).taskStats with nameLen := -1 }.toBytes .lp64 ++ [97])
      false) = some ⟨0, [0]⟩ := by decide +kernel
  exact absurd (hall _ huse) (by decide)

end RealtimeTests
