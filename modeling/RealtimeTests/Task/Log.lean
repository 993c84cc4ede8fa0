import RealtimeTests.Task.Read

/-!
# The parts of a log

A log consists of a header, the name of the task and, unless the job statistics
are disabled, a preamble and the records. Where they are is determined by the
bytes of the log, read from the beginning, whether or not it is a complete one.

* `LogComplete`: the log reaches up to the records.
* `taskStatisticsRead_of_complete`, `taskStatisticsRead_of_not_complete`: on such a
  log, and only then, the callbacks are called.
* `NameOverflow`: the size of the buffer for the name overflows, which leaves the
  behaviour undefined.
-/

namespace RealtimeTests

variable {h : Host} {σ : Type*}

/-! ## The layout -/

section Layout

variable (h) (bs : Bytes)

/-- The header. -/
def logHeader : TaskStatistics := .ofBytes h (bs.take TaskStatistics.sizeof)

/-- There are neither a preamble nor records. -/
def LogDisabled : Prop := (logHeader h bs).jobStatisticsDisabled ≠ 0

instance : Decidable (LogDisabled h bs) := inferInstanceAs (Decidable (_ ≠ _))

/-- Where the name ends. -/
def nameEnd : ℕ := TaskStatistics.sizeof + (logHeader h bs).nameLen.toNat

/-- The name. -/
def logName : Bytes := (bs.drop TaskStatistics.sizeof).take (logHeader h bs).nameLen.toNat

/-- Where the records start. -/
def recordsBegin : ℕ :=
  if LogDisabled h bs then nameEnd h bs else nameEnd h bs + TaskStatisticsRingbuf.sizeof h

/-- The preamble. -/
def logPreamble : TaskStatisticsRingbuf h :=
  if LogDisabled h bs then ⟨-1, -1, -1⟩
  else .ofBytes h ((bs.drop (nameEnd h bs)).take (TaskStatisticsRingbuf.sizeof h))

/-- The task that the log describes. -/
def logTask : TaskInfo h := (logHeader h bs).toTaskInfo h (logName h bs) (logPreamble h bs)

/-- The bytes of the records. -/
def logRecords : Bytes := bs.drop (recordsBegin h bs)

/-- The log is compatible with the host and reaches up to its records. -/
def LogComplete : Prop :=
  TaskStatistics.sizeof ≤ bs.length ∧ (logHeader h bs).compatible h = true ∧
    recordsBegin h bs ≤ bs.length

instance : Decidable (LogComplete h bs) := inferInstanceAs (Decidable (_ ∧ _))

/-- The name is as long as its length can tell, so that it gets a buffer of no bytes, and the
    log has some byte of it. -/
def NameOverflow : Prop :=
  TaskStatistics.sizeof < bs.length ∧ (logHeader h bs).compatible h = true ∧
    (logHeader h bs).nameLen.toNat = 2 ^ 32 - 1

instance : Decidable (NameOverflow h bs) := inferInstanceAs (Decidable (_ ∧ _))

end Layout

theorem nameEnd_le_recordsBegin (h : Host) (bs : Bytes) : nameEnd h bs ≤ recordsBegin h bs := by
  rw [recordsBegin]
  split_ifs <;> omega

/-- Of a log which is disabled, the task has the flag. -/
theorem disableJobStatistics_logTask (h : Host) (bs : Bytes) :
    (logTask h bs).disableJobStatistics = 0 ↔ ¬LogDisabled h bs := by
  rw [LogDisabled, not_not, ← BitVec.toNat_inj]
  exact Int.natCast_eq_zero

/-! ## Reading up to the records -/

open InFile TaskStatistics

variable {cb : Callbacks h σ} {uninit bs : Bytes} {fuel : ℕ} {fails : Bool} {st : σ}

/-- The buffer for the name has room for it and a null, unless its size overflows. -/
theorem TaskStatistics.nameSize_eq (s : TaskStatistics) :
    s.nameSize = if s.nameLen.toNat = 2 ^ 32 - 1 then 0 else s.nameLen.toNat + 1 := by
  have hlt := s.nameLen.isLt
  have hone : BitVec.toNat (1 : BitVec 32) = 1 := rfl
  rw [nameSize, BitVec.toNat_add, hone]
  split_ifs with hmax
  · rw [hmax]
    rfl
  · exact Nat.mod_eq_of_lt (by omega)

/-- Reading the name goes wrong exactly on an overflow. -/
theorem nameSize_lt_iff (hlen : sizeof ≤ bs.length) (hcomp : (logHeader h bs).compatible h = true) :
    (logHeader h bs).nameSize <
        min (logHeader h bs).nameLen.toNat (bs.length - sizeof) ↔ NameOverflow h bs := by
  rw [TaskStatistics.nameSize_eq, NameOverflow, lt_min_iff]
  split_ifs with hmax
  · -- The size has wrapped to zero: any byte of the name is one too many.
    simp only [hcomp, hmax, and_true]
    omega
  · refine iff_of_false (fun hlt => by omega) fun ho => hmax ho.2.2

/-- Reading a log from its preamble on. -/
theorem readPreamble_opened (hlen : nameEnd h bs ≤ bs.length) :
    readPreamble cb uninit fuel (logHeader h bs) (logName h bs)
        (opened (bs.drop (nameEnd h bs)) fails) st =
      if recordsBegin h bs ≤ bs.length then
        readCallbacks cb uninit fuel (logTask h bs) (opened (logRecords h bs) fails) st
      else some ⟨-3, none, [], st⟩ := by
  by_cases hd : LogDisabled h bs
  · have hflag : (logHeader h bs).jobStatisticsDisabled ≠ 0 := hd
    rw [readPreamble, if_pos hflag, logTask, logPreamble, logRecords, recordsBegin, if_pos hd,
      if_pos hd, if_pos hlen]
  · have hflag : ¬(logHeader h bs).jobStatisticsDisabled ≠ 0 := hd
    rw [readPreamble, if_neg hflag, logTask, logPreamble, logRecords, recordsBegin, if_neg hd,
      if_neg hd]
    have hrest : (bs.drop (nameEnd h bs)).length = bs.length - nameEnd h bs := List.length_drop
    by_cases hle : TaskStatisticsRingbuf.sizeof h ≤ (bs.drop (nameEnd h bs)).length
    · rw [fread_opened_of_le hle, if_pos (by omega)]
      simp only [List.length_take, min_eq_left hle, ne_eq, not_true_eq_false, if_false,
        List.drop_drop]
    · rw [fread_opened_of_lt (not_le.1 hle), if_neg (by omega)]
      simp only [ne_eq, (not_le.1 hle).ne, not_false_eq_true, if_true]

/-- Reading a log from its name on. -/
theorem readName_opened (hlen : sizeof ≤ bs.length) (hcomp : (logHeader h bs).compatible h = true) :
    readName cb uninit true fuel (logHeader h bs) (opened (bs.drop sizeof) fails) st =
      if NameOverflow h bs then none
      else if recordsBegin h bs ≤ bs.length then
        readCallbacks cb uninit fuel (logTask h bs) (opened (logRecords h bs) fails) st
      else some ⟨-3, none, [], st⟩ := by
  have hrest : (bs.drop sizeof).length = bs.length - sizeof := List.length_drop
  have hover := nameSize_lt_iff hlen hcomp
  have hend := nameEnd_le_recordsBegin h bs
  rw [readName, Bool.not_true, if_neg Bool.false_ne_true]
  by_cases hle : (logHeader h bs).nameLen.toNat ≤ (bs.drop sizeof).length
  · -- The whole name is read.
    have hname : nameEnd h bs ≤ bs.length := by
      rw [nameEnd]
      omega
    rw [fread_opened_of_le hle, ← readPreamble_opened hname]
    rw [min_eq_left (by omega)] at hover
    simp only [List.length_take, min_eq_left hle, hover, ne_eq, not_true_eq_false, if_false,
      List.drop_drop]
    rfl
  · -- The name is truncated, so that the records are not reached.
    have hname : ¬recordsBegin h bs ≤ bs.length := by
      rw [nameEnd] at hend
      omega
    rw [fread_opened_of_lt (not_le.1 hle), if_neg hname]
    rw [min_eq_right (by omega), ← hrest] at hover
    simp only [hover, ne_eq, (not_le.1 hle).ne, not_false_eq_true, if_true]

/-- Reading a log whose header is complete. -/
theorem taskStatisticsRead_of_le (hlen : sizeof ≤ bs.length) :
    taskStatisticsRead cb uninit true fuel (opened bs fails) st =
      if NameOverflow h bs then none
      else if LogComplete h bs then
        readCallbacks cb uninit fuel (logTask h bs) (opened (logRecords h bs) fails) st
      else some ⟨-3, none, [], st⟩ := by
  have hfeof : (opened bs fails).feof = false := rfl
  have htake : (bs.take sizeof).length = sizeof := by rw [List.length_take, min_eq_left hlen]
  rw [taskStatisticsRead, hfeof, if_neg Bool.false_ne_true, fread_opened_of_le hlen]
  simp only [htake, ne_eq, not_true_eq_false, if_false]
  change (if !(logHeader h bs).compatible h then _ else readName _ _ _ _ (logHeader h bs) _ _) = _
  by_cases hcomp : (logHeader h bs).compatible h = true
  · rw [readName_opened hlen hcomp, hcomp, Bool.not_true, if_neg Bool.false_ne_true]
    simp only [LogComplete, hlen, hcomp, true_and]
  · rw [Bool.not_eq_true] at hcomp
    simp [NameOverflow, LogComplete, hcomp]

/-- Reading a log whose header is not. -/
theorem taskStatisticsRead_of_lt (hlen : bs.length < sizeof) :
    taskStatisticsRead cb uninit true fuel (opened bs fails) st =
      if bs = [] ∧ fails = false then some ⟨-4, none, [], st⟩ else some ⟨-3, none, [], st⟩ := by
  have hfeof : (opened bs fails).feof = false := rfl
  have hferror : (exhausted fails).ferror = fails := rfl
  have hfeof' : (exhausted fails).feof = !fails := rfl
  rw [taskStatisticsRead, hfeof, if_neg Bool.false_ne_true, fread_opened_of_lt hlen]
  cases fails <;>
    simp [hlen.ne, hferror, hfeof', List.length_eq_zero_iff]

/-- Reading an empty log. -/
theorem taskStatisticsRead_nil :
    taskStatisticsRead cb uninit true fuel (opened [] false) st = some ⟨-4, none, [], st⟩ := by
  rw [taskStatisticsRead_of_lt (by decide), if_pos ⟨rfl, rfl⟩]

/-- On a log which does not reach up to its records, no callback is called. -/
theorem taskStatisticsRead_of_not_complete (hne : bs ≠ [] ∨ fails = true)
    (hc : ¬LogComplete h bs) (ho : ¬NameOverflow h bs) :
    taskStatisticsRead cb uninit true fuel (opened bs fails) st = some ⟨-3, none, [], st⟩ := by
  by_cases hlen : sizeof ≤ bs.length
  · rw [taskStatisticsRead_of_le hlen, if_neg ho, if_neg hc]
  · rw [taskStatisticsRead_of_lt (not_le.1 hlen), if_neg]
    rintro ⟨rfl, rfl⟩
    exact hne.elim (· rfl) Bool.false_ne_true

/-- On a log which does, they are called for the task and the records. -/
theorem taskStatisticsRead_of_complete (hc : LogComplete h bs) (ho : ¬NameOverflow h bs) :
    taskStatisticsRead cb uninit true fuel (opened bs fails) st =
      readCallbacks cb uninit fuel (logTask h bs) (opened (logRecords h bs) fails) st := by
  rw [taskStatisticsRead_of_le hc.1, if_neg ho, if_pos hc]

/-- When the size of the buffer for the name overflows, there is no result. -/
theorem taskStatisticsRead_of_nameOverflow (ho : NameOverflow h bs) :
    taskStatisticsRead cb uninit true fuel (opened bs fails) st = none := by
  rw [taskStatisticsRead_of_le ho.1.le, if_pos ho]

end RealtimeTests
