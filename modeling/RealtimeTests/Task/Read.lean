import RealtimeTests.Task

/-!
# Reading the log of a task

`task_statistics_read`, with its record loop. The callbacks are functions of what
they are given and of a state of type `σ`, for all that their arguments point to;
besides its exit code, a read gives the calls that were made. `fuel` bounds the
iterations of the record loop: a result is `none` when it is not over by then. It
is also `none` when the behaviour is undefined, as the name does not fit its buffer.

Each of the layers it reads through is described by what it does on a stream which
still delivers the bytes `bs` and then ends or fails (`InFile.opened`).
-/

namespace RealtimeTests

variable {h : Host} {σ : Type*}

/-- The callbacks of `task_statistics_read`: a return value which is not zero rejects. -/
structure Callbacks (h : Host) (σ : Type*) where
  taskStatisticsFn : TaskInfo h → σ → ℤ × σ
  jobStatisticsFn : JobStatistics h → σ → ℤ × σ

/-- The result of `task_statistics_read`. -/
structure ReadResult (h : Host) (σ : Type*) where
  exitCode : ℤ
  /-- The task that `task_statistics_fn` was called with, if it was. -/
  task : Option (TaskInfo h)
  /-- The statistics that `job_statistics_fn` was called with, in order. -/
  jobs : List (JobStatistics h)
  /-- The state that the callbacks left. -/
  state : σ

namespace TaskStatistics

/-- The checks of binary compatibility with the host. -/
def compatible (h : Host) (s : TaskStatistics) : Bool :=
  s.byteOrder.toNat == h.hostByteOrder &&
    s.sizeofStructTimespecTvSec.toNat == h.sizeofTimeT &&
    s.sizeofStructTimespecTvNsec.toNat == h.sizeofLong &&
    s.sizeofUnsignedLong.toNat == h.sizeofPtr

/-- The task populated from the header, the name and the preamble. -/
def toTaskInfo (h : Host) (s : TaskStatistics) (name : Bytes)
    (ringbufParams : TaskStatisticsRingbuf h) : TaskInfo h where
  name := name
  wcet := s.wcet.toTimespec h
  period := s.period.toTimespec h
  deadline := s.deadline.toTimespec h
  t0 := s.t0.toTimespec h
  offset := s.offset.toTimespec h
  jobStatisticsOverhead := s.jobStatisticsOverhead.toTimespec h
  finishToStartOverhead := s.finishToStartOverhead.toTimespec h
  aperiodic := s.aperiodic.toNat
  disableJobStatistics := s.jobStatisticsDisabled.toNat
  oldestJobPos := ringbufParams.oldestJobPos
  lostJobCount := ringbufParams.lostJobCount
  writeCount := ringbufParams.writeCount

end TaskStatistics

/-! ## The functions -/

/-- The record loop of `task_statistics_read`: the exit code, the calls of
    `job_statistics_fn`, and the state they left. -/
def readJobs (cb : Callbacks h σ) (uninit : Bytes) :
    ℕ → InFile → JobStatistics h → σ → Option (ℤ × List (JobStatistics h) × σ)
  | 0, _, _, _ => none
  | fuel + 1, statsLog, jobStats, st =>
    match jobStatisticsRead uninit statsLog jobStats with
    | (rc, jobStats, statsLog) =>
      if rc = 0 then
        match cb.jobStatisticsFn jobStats st with
        | (r, st) =>
          if r ≠ 0 then some (-2, [jobStats], st)
          else (readJobs cb uninit fuel statsLog jobStats st).map fun (exitCode, jobs, st) =>
            (exitCode, jobStats :: jobs, st)
      else if rc = -1 then some (0, [], st)
      else some (-3, [], st)

/-- The part of `task_statistics_read` from the call of `task_statistics_fn` on. -/
def readCallbacks (cb : Callbacks h σ) (uninit : Bytes) (fuel : ℕ) (tau : TaskInfo h)
    (statsLog : InFile) (st : σ) : Option (ReadResult h σ) :=
  match cb.taskStatisticsFn tau st with
  | (r, st) =>
    if r ≠ 0 then some ⟨-1, some tau, [], st⟩
    else if tau.disableJobStatistics = 0 then
      (readJobs cb uninit fuel statsLog (JobStatistics.ofBytes h uninit) st).map
        fun (exitCode, jobs, st) => ⟨exitCode, some tau, jobs, st⟩
    -- The exit code is still the one that it was initialised with.
    else some ⟨-3, some tau, [], st⟩

/-- The part of `task_statistics_read` from the preamble of the records on. -/
def readPreamble (cb : Callbacks h σ) (uninit : Bytes) (fuel : ℕ) (taskStats : TaskStatistics)
    (name : Bytes) (statsLog : InFile) (st : σ) : Option (ReadResult h σ) :=
  if taskStats.jobStatisticsDisabled ≠ 0 then
    readCallbacks cb uninit fuel (taskStats.toTaskInfo h name ⟨-1, -1, -1⟩) statsLog st
  else
    match statsLog.fread (TaskStatisticsRingbuf.sizeof h) with
    | (bs, statsLog) =>
      if bs.length ≠ TaskStatisticsRingbuf.sizeof h then some ⟨-3, none, [], st⟩
      else
        readCallbacks cb uninit fuel
          (taskStats.toTaskInfo h name (TaskStatisticsRingbuf.ofBytes h bs)) statsLog st

/-- The size of the buffer for the name: `name_len + 1`, in 32 bits. -/
def TaskStatistics.nameSize (s : TaskStatistics) : ℕ := (s.nameLen + 1).toNat

/-- The part of `task_statistics_read` from the name on; `malloc` tells whether its buffer
    can be allocated. When more bytes are stored in the buffer than it has, the behaviour is
    undefined. -/
def readName (cb : Callbacks h σ) (uninit : Bytes) (malloc : Bool) (fuel : ℕ)
    (taskStats : TaskStatistics) (statsLog : InFile) (st : σ) : Option (ReadResult h σ) :=
  if !malloc then some ⟨-3, none, [], st⟩
  else
    match statsLog.fread taskStats.nameLen.toNat with
    | (name, statsLog) =>
      if taskStats.nameSize < name.length then none
      else if name.length ≠ taskStats.nameLen.toNat then some ⟨-3, none, [], st⟩
      else readPreamble cb uninit fuel taskStats name statsLog st

/-- `task_statistics_read`. -/
def taskStatisticsRead (cb : Callbacks h σ) (uninit : Bytes) (malloc : Bool) (fuel : ℕ)
    (statsLog : InFile) (st : σ) : Option (ReadResult h σ) :=
  if statsLog.feof then some ⟨-4, none, [], st⟩
  else
    match statsLog.fread TaskStatistics.sizeof with
    | (bs, statsLog) =>
      if bs.length ≠ TaskStatistics.sizeof then
        if statsLog.ferror then some ⟨-3, none, [], st⟩
        else if bs.length = 0 ∧ statsLog.feof then some ⟨-4, none, [], st⟩
        else some ⟨-3, none, [], st⟩
      else
        let taskStats := TaskStatistics.ofBytes h bs
        if !taskStats.compatible h then some ⟨-3, none, [], st⟩
        else readName cb uninit malloc fuel taskStats statsLog st

/-! ## The calls of the callbacks -/

/-- The state after a call of `task_statistics_fn`, if there is one, and then calls of
    `job_statistics_fn`, in order. -/
def Callbacks.called (cb : Callbacks h σ) (task : Option (TaskInfo h))
    (jobs : List (JobStatistics h)) (st : σ) : σ :=
  jobs.foldl (fun st stats => (cb.jobStatisticsFn stats st).2)
    (task.elim st fun tau => (cb.taskStatisticsFn tau st).2)

section Called

variable {cb : Callbacks h σ} {uninit : Bytes} {fuel : ℕ}

/-- The record loop makes the calls that it gives. -/
theorem state_readJobs {statsLog : InFile} {stats : JobStatistics h} {st : σ}
    {r : ℤ × List (JobStatistics h) × σ}
    (hread : readJobs cb uninit fuel statsLog stats st = some r) :
    r.2.2 = cb.called none r.2.1 st := by
  induction fuel generalizing statsLog stats st r with
  | zero => cases hread
  | succ fuel ih =>
    simp only [readJobs] at hread
    split_ifs at hread with h0 hrej hend
    · obtain rfl := Option.some.inj hread
      rfl
    · obtain ⟨⟨exitCode, jobs, st'⟩, hr', rfl⟩ := Option.map_eq_some_iff.1 hread
      exact (ih hr' :)
    · obtain rfl := Option.some.inj hread
      rfl
    · obtain rfl := Option.some.inj hread
      rfl

theorem state_readCallbacks {tau : TaskInfo h} {statsLog : InFile} {st : σ} {r : ReadResult h σ}
    (hread : readCallbacks cb uninit fuel tau statsLog st = some r) :
    r.state = cb.called r.task r.jobs st := by
  simp only [readCallbacks] at hread
  split_ifs at hread
  · obtain rfl := Option.some.inj hread
    rfl
  · obtain ⟨r', hr', rfl⟩ := Option.map_eq_some_iff.1 hread
    exact state_readJobs hr'
  · obtain rfl := Option.some.inj hread
    rfl

theorem state_readPreamble {taskStats : TaskStatistics} {name : Bytes} {statsLog : InFile} {st : σ}
    {r : ReadResult h σ}
    (hread : readPreamble cb uninit fuel taskStats name statsLog st = some r) :
    r.state = cb.called r.task r.jobs st := by
  simp only [readPreamble] at hread
  split_ifs at hread
  · exact state_readCallbacks hread
  · obtain rfl := Option.some.inj hread
    rfl
  · exact state_readCallbacks hread

theorem state_readName {malloc : Bool} {taskStats : TaskStatistics} {statsLog : InFile} {st : σ}
    {r : ReadResult h σ}
    (hread : readName cb uninit malloc fuel taskStats statsLog st = some r) :
    r.state = cb.called r.task r.jobs st := by
  simp only [readName] at hread
  split_ifs at hread
  · obtain rfl := Option.some.inj hread
    rfl
  · obtain rfl := Option.some.inj hread
    rfl
  · exact state_readPreamble hread

/-- The calls that a read gives are those that it makes: `task_statistics_fn` at most once, and
    first. -/
theorem state_taskStatisticsRead {malloc : Bool} {statsLog : InFile} {st : σ}
    {r : ReadResult h σ}
    (hread : taskStatisticsRead cb uninit malloc fuel statsLog st = some r) :
    r.state = cb.called r.task r.jobs st := by
  simp only [taskStatisticsRead] at hread
  split_ifs at hread
  any_goals
    obtain rfl := Option.some.inj hread
    rfl
  exact state_readName hread

end Called

/-! ## Reading records -/

namespace JobStatistics

/-- The whole records that bytes consist of, but for a rest shorter than a record. -/
def records (h : Host) (bs : Bytes) : List (JobStatistics h) :=
  (List.range (bs.length / sizeof h)).map fun n =>
    ofBytes h ((bs.drop (n * sizeof h)).take (sizeof h))

theorem records_of_lt {bs : Bytes} (hbs : bs.length < sizeof h) : records h bs = [] := by
  rw [records, Nat.div_eq_of_lt hbs]
  rfl

theorem records_of_le {bs : Bytes} (hbs : sizeof h ≤ bs.length) :
    records h bs = ofBytes h (bs.take (sizeof h)) :: records h (bs.drop (sizeof h)) := by
  have hdiv : bs.length / sizeof h = (bs.length - sizeof h) / sizeof h + 1 :=
    Nat.div_eq_sub_div (sizeof_pos h) hbs
  rw [records, records, List.length_drop, hdiv, List.range_succ_eq_map, List.map_cons,
    List.map_map, Nat.zero_mul, List.drop_zero]
  congr 2
  funext n
  rw [Function.comp, List.drop_drop, Nat.succ_mul, Nat.add_comm]

/-- Records are read back from their bytes. -/
theorem records_flatMap_toBytes (xs : List (JobStatistics h)) :
    records h (xs.flatMap toBytes) = xs := by
  induction xs with
  | nil => exact records_of_lt (sizeof_pos h)
  | cons x xs ih =>
    rw [List.flatMap_cons, records_of_le (by simp), List.take_left' (length_toBytes x),
      List.drop_left' (length_toBytes x), ofBytes_toBytes, ih]

theorem length_flatMap_toBytes (xs : List (JobStatistics h)) :
    (xs.flatMap toBytes).length = xs.length * sizeof h := by
  simp [List.length_flatMap]

end JobStatistics

section Records

variable {uninit bs : Bytes} {stats : JobStatistics h}

open JobStatistics InFile

/-- Reading a whole record. -/
theorem jobStatisticsRead_of_le (hbs : sizeof h ≤ bs.length) (fails : Bool) :
    jobStatisticsRead uninit (opened bs fails) stats =
      (0, ofBytes h (bs.take (sizeof h)), opened (bs.drop (sizeof h)) fails) := by
  have hlen : (bs.take (sizeof h)).length = sizeof h := by
    rw [List.length_take, min_eq_left hbs]
  have hfeof : (opened bs fails).feof = false := rfl
  simp only [jobStatisticsRead, utilityFileReadBin, hfeof, fread_opened_of_le hbs, hlen,
    ofBytes_append hlen.ge, Bool.false_eq_true, if_false, ne_eq, not_true_eq_false,
    show ¬((0 : ℤ) = -2) by decide, show ¬((0 : ℤ) = -1) by decide]

/-- Reading at the end of the stream. -/
theorem jobStatisticsRead_nil :
    jobStatisticsRead uninit (opened [] false) stats = (-1, stats, exhausted false) := by
  have hfeof : (opened [] false).feof = false := rfl
  have hferror : (exhausted false).ferror = false := rfl
  have hpos := sizeof_pos h
  simp only [jobStatisticsRead, utilityFileReadBin, hfeof, hferror,
    fread_opened_of_lt (show [].length < sizeof h from hpos), List.length_nil, Bool.false_eq_true,
    if_false, ne_eq, hpos.ne, not_false_eq_true, not_true_eq_false, if_true]

/-- Reading a truncated record. -/
theorem jobStatisticsRead_of_lt (hbs : bs.length < sizeof h) (hne : bs ≠ []) :
    jobStatisticsRead uninit (opened bs false) stats = (-2, stats, exhausted false) := by
  have hfeof : (opened bs false).feof = false := rfl
  have hferror : (exhausted false).ferror = false := rfl
  have hlen : bs.length ≠ 0 := fun h0 => hne (List.length_eq_zero_iff.1 h0)
  simp only [jobStatisticsRead, utilityFileReadBin, hfeof, hferror, fread_opened_of_lt hbs,
    Bool.false_eq_true, if_false, ne_eq, hbs.ne, hlen, not_false_eq_true, if_true]

/-- Reading a record at which the device fails: the error is not reported. -/
theorem jobStatisticsRead_of_fails (hbs : bs.length < sizeof h) :
    jobStatisticsRead uninit (opened bs true) stats =
      (0, ofBytes h (bs ++ uninit.drop bs.length), exhausted true) := by
  have hfeof : (opened bs true).feof = false := rfl
  have hferror : (exhausted true).ferror = true := rfl
  simp only [jobStatisticsRead, utilityFileReadBin, hfeof, hferror, fread_opened_of_lt hbs,
    Bool.false_eq_true, if_false, ne_eq, hbs.ne, not_false_eq_true, if_true,
    show ¬((-3 : ℤ) = -2) by decide, show ¬((-3 : ℤ) = -1) by decide]

/-- Nor is it afterwards. -/
theorem jobStatisticsRead_exhausted :
    jobStatisticsRead uninit (exhausted true) stats =
      (0, ofBytes h uninit, exhausted true) := by
  have hfeof : (exhausted true).feof = false := rfl
  have hferror : (exhausted true).ferror = true := rfl
  have hpos := sizeof_pos h
  simp only [jobStatisticsRead, utilityFileReadBin, hfeof, hferror, fread_exhausted hpos,
    List.length_nil, Bool.false_eq_true, if_false, ne_eq, hpos.ne, not_false_eq_true, if_true,
    List.nil_append, List.drop_zero, show ¬((-3 : ℤ) = -2) by decide,
    show ¬((-3 : ℤ) = -1) by decide]

end Records

/-! ## The record loop -/

/-- The calls of `fn` on records, up to the first one rejected: whether all were accepted,
    the calls made, and the state they left. -/
def feedJobs (fn : JobStatistics h → σ → ℤ × σ) :
    List (JobStatistics h) → σ → Bool × List (JobStatistics h) × σ
  | [], st => (true, [], st)
  | x :: xs, st =>
    if (fn x st).1 ≠ 0 then (false, [x], (fn x st).2)
    else
      ((feedJobs fn xs (fn x st).2).1, x :: (feedJobs fn xs (fn x st).2).2.1,
        (feedJobs fn xs (fn x st).2).2.2)

/-- The exit code for what `feedJobs` gives, with a rest after the records or not. -/
def jobsExitCode (accepted truncated : Bool) : ℤ :=
  if !accepted then -2 else if truncated then -3 else 0

open JobStatistics InFile

variable {cb : Callbacks h σ} {uninit bs : Bytes} {stats : JobStatistics h} {st : σ}

/-- On a stream which ends, the record loop terminates, and makes the calls for the whole
    records up to the first one rejected. -/
theorem readJobs_opened {fuel : ℕ} (hfuel : bs.length < fuel * sizeof h) :
    readJobs cb uninit fuel (opened bs false) stats st =
      some (jobsExitCode (feedJobs cb.jobStatisticsFn (records h bs) st).1
          (decide (bs.length % sizeof h ≠ 0)),
        (feedJobs cb.jobStatisticsFn (records h bs) st).2) := by
  induction fuel generalizing bs stats st with
  | zero => simp at hfuel
  | succ fuel ih =>
    rw [readJobs]
    by_cases hle : sizeof h ≤ bs.length
    · -- A whole record is read, and given to the callback.
      have hmod : (bs.drop (sizeof h)).length % sizeof h = bs.length % sizeof h := by
        rw [List.length_drop, ← Nat.mod_eq_sub_mod hle]
      rw [jobStatisticsRead_of_le hle, records_of_le hle, feedJobs]
      simp only [if_true]
      split_ifs with hrej
      · rfl
      · rw [ih (by rw [List.length_drop]; rw [Nat.succ_mul] at hfuel; omega), hmod]
        rfl
    · -- Less than a record is left: the stream is at its end, or the record is truncated.
      rw [records_of_lt (not_le.1 hle), Nat.mod_eq_of_lt (not_le.1 hle)]
      rcases eq_or_ne bs [] with rfl | hne
      · rw [jobStatisticsRead_nil]
        rfl
      · rw [jobStatisticsRead_of_lt (not_le.1 hle) hne]
        simp [feedJobs, jobsExitCode, hne]

/-- Callbacks which accept everything. -/
def Callbacks.Accepting (cb : Callbacks h σ) : Prop :=
  (∀ tau st, (cb.taskStatisticsFn tau st).1 = 0) ∧ ∀ stats st, (cb.jobStatisticsFn stats st).1 = 0

/-- Such callbacks. -/
def Callbacks.acceptAll (h : Host) : Callbacks h Unit where
  taskStatisticsFn _ st := (0, st)
  jobStatisticsFn _ st := (0, st)

theorem Callbacks.accepting_acceptAll (h : Host) : (acceptAll h).Accepting :=
  ⟨fun _ _ => rfl, fun _ _ => rfl⟩

theorem feedJobs_of_accepting (ha : cb.Accepting) (xs : List (JobStatistics h)) (st : σ) :
    (feedJobs cb.jobStatisticsFn xs st).1 = true ∧
      (feedJobs cb.jobStatisticsFn xs st).2.1 = xs := by
  induction xs generalizing st with
  | nil => exact ⟨rfl, rfl⟩
  | cons x xs ih =>
    rw [feedJobs, if_neg (not_not.2 (ha.2 x st))]
    obtain ⟨hacc, hjobs⟩ := ih (cb.jobStatisticsFn x st).2
    exact ⟨hacc, by rw [hjobs]⟩

/-- After a failure of the device, the record loop does not terminate if its callback
    accepts everything. -/
theorem readJobs_exhausted (ha : cb.Accepting) (fuel : ℕ) :
    readJobs cb uninit fuel (exhausted true) stats st = none := by
  induction fuel generalizing stats st with
  | zero => rfl
  | succ fuel ih =>
    rw [readJobs, jobStatisticsRead_exhausted]
    simp only [if_true, ha.2, ne_eq, not_true_eq_false, if_false, ih, Option.map_none]

/-- Nor does it on a stream on which the device fails. -/
theorem readJobs_fails (ha : cb.Accepting) (fuel : ℕ) :
    readJobs cb uninit fuel (opened bs true) stats st = none := by
  induction fuel generalizing bs stats st with
  | zero => rfl
  | succ fuel ih =>
    rw [readJobs]
    by_cases hle : sizeof h ≤ bs.length
    · rw [jobStatisticsRead_of_le hle]
      simp only [if_true, ha.2, ne_eq, not_true_eq_false, if_false, ih, Option.map_none]
    · -- The device fails, and the callback is called on what the buffer holds.
      rw [jobStatisticsRead_of_fails (not_le.1 hle)]
      simp only [if_true, ha.2, ne_eq, not_true_eq_false, if_false, readJobs_exhausted ha,
        Option.map_none]

end RealtimeTests
