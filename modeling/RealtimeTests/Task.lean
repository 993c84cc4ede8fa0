import RealtimeTests.Job.Account

/-!
# Tasks and their logs

`task.h` and the writing half of `task.c`: the objects of a task, the
header of its log (`TaskStatistics`), the preamble of the records in it
(`TaskStatisticsRingbuf`), and the functions that write them: `task_create`, and
the two clean-up handlers of the thread of the task, `flush_stats_ringbuf` and
`close_logging_file`.

The code pointers of a task (`aperiodic_release`, the program of its job) and
their arguments are not data of the model, nor is the path of the log.
-/

namespace RealtimeTests

open Words

variable {h : Host}

/-! ## Tasks -/

/-- What is known of a task from its log: the fields of `task` that the functions
    `task_statistics_*` return. -/
@[ext]
structure TaskInfo (h : Host) where
  name : Bytes
  wcet : UtilityTime h
  period : UtilityTime h
  deadline : UtilityTime h
  t0 : UtilityTime h
  offset : UtilityTime h
  jobStatisticsOverhead : UtilityTime h
  finishToStartOverhead : UtilityTime h
  aperiodic : ℤ
  disableJobStatistics : ℤ
  oldestJobPos : ULong h
  lostJobCount : ULong h
  writeCount : ULong h
  deriving DecidableEq

/-- `task`. -/
structure Task (h : Host) extends TaskInfo h where
  stopped : ℤ
  nextReleaseTime : Timespec h
  insideAperiodicRelease : ℤ
  statsLog : Option OutFile
  failToCloseStatsLog : ℤ
  statsRingbuf : Option (JobstatsRingbuf h)

/-- The length of a C string: its bytes up to the first null. -/
def strlen (s : Bytes) : ℕ := (s.takeWhile (· ≠ 0)).length

theorem strlen_of_notMem {s : Bytes} (hs : 0 ∉ s) : strlen s = s.length := by
  rw [strlen, List.takeWhile_eq_self_iff.2]
  intro b hb
  simpa using ne_of_mem_of_not_mem hb hs

/-! ## The header of a log -/

/-- A time in the header of a log. -/
structure Stamp where
  tvSec : BitVec 32
  tvNsec : BitVec 32
  deriving DecidableEq

namespace Stamp

/-- The assignments from a `struct timespec`. -/
def ofTimespec (t : Timespec h) : Stamp := ⟨t.tvSec.setWidth 32, t.tvNsec.setWidth 32⟩

/-- The assignments to a `struct timespec`. -/
def toTimespec (h : Host) (t : Stamp) : Timespec h := ⟨t.tvSec.setWidth _, t.tvNsec.setWidth _⟩

/-- The words of a time. -/
def words (t : Stamp) : List (ℕ × ℕ) := [(4, t.tvSec.toNat), (4, t.tvNsec.toNat)]

end Stamp

/-- `task_statistics`: the header of a log. -/
structure TaskStatistics where
  byteOrder : BitVec 8
  sizeofStructTimespecTvSec : BitVec 8
  sizeofStructTimespecTvNsec : BitVec 8
  sizeofUnsignedLong : BitVec 8
  aperiodic : BitVec 8
  jobStatisticsDisabled : BitVec 8
  wcet : Stamp
  period : Stamp
  deadline : Stamp
  t0 : Stamp
  offset : Stamp
  jobStatisticsOverhead : Stamp
  finishToStartOverhead : Stamp
  nameLen : BitVec 32
  deriving DecidableEq

namespace TaskStatistics

/-- The words of the (packed) structure. -/
def words (s : TaskStatistics) : List (ℕ × ℕ) :=
  [(1, s.byteOrder.toNat), (1, s.sizeofStructTimespecTvSec.toNat),
    (1, s.sizeofStructTimespecTvNsec.toNat), (1, s.sizeofUnsignedLong.toNat),
    (1, s.aperiodic.toNat), (1, s.jobStatisticsDisabled.toNat)] ++ s.wcet.words ++ s.period.words ++
    s.deadline.words ++ s.t0.words ++ s.offset.words ++ s.jobStatisticsOverhead.words ++
    s.finishToStartOverhead.words ++ [(4, s.nameLen.toNat)]

/-- The sizes of the words of the structure. -/
def sizes : List ℕ := [1, 1, 1, 1, 1, 1, 4, 4, 4, 4, 4, 4, 4, 4, 4, 4, 4, 4, 4, 4, 4]

/-- `sizeof(task_statistics)`. -/
def sizeof : ℕ := sizes.sum

/-- The bytes of the structure in memory. -/
def toBytes (h : Host) (s : TaskStatistics) : Bytes := pack h.byteOrder s.words

/-- The structure that bytes in memory are. -/
def ofBytes (h : Host) (bs : Bytes) : TaskStatistics :=
  let v := unpack h.byteOrder sizes bs
  let stamp (i : ℕ) : Stamp := ⟨.ofNat _ (v.getD i 0), .ofNat _ (v.getD (i + 1) 0)⟩
  { byteOrder := .ofNat _ (v.getD 0 0)
    sizeofStructTimespecTvSec := .ofNat _ (v.getD 1 0)
    sizeofStructTimespecTvNsec := .ofNat _ (v.getD 2 0)
    sizeofUnsignedLong := .ofNat _ (v.getD 3 0)
    aperiodic := .ofNat _ (v.getD 4 0)
    jobStatisticsDisabled := .ofNat _ (v.getD 5 0)
    wcet := stamp 6
    period := stamp 8
    deadline := stamp 10
    t0 := stamp 12
    offset := stamp 14
    jobStatisticsOverhead := stamp 16
    finishToStartOverhead := stamp 18
    nameLen := .ofNat _ (v.getD 20 0) }

@[simp]
theorem length_toBytes (h : Host) (s : TaskStatistics) : (s.toBytes h).length = sizeof := by
  simp [toBytes, words, Stamp.words, sizeof, sizes]

theorem ofNat_toNat_mod_byte (x : BitVec 8) : BitVec.ofNat 8 (x.toNat % 256 ^ 1) = x :=
  ofNat_toNat_mod (k := 1) x

theorem ofNat_toNat_mod_uint32 (x : BitVec 32) : BitVec.ofNat 32 (x.toNat % 256 ^ 4) = x :=
  ofNat_toNat_mod (k := 4) x

/-- A header is read back from its bytes, whatever follows them. -/
theorem ofBytes_toBytes_append (h : Host) (s : TaskStatistics) (rest : Bytes) :
    ofBytes h (s.toBytes h ++ rest) = s := by
  have hv := unpack_pack h.byteOrder s.words rest
  simp only [words, Stamp.words, List.cons_append, List.nil_append, List.map_cons,
    List.map_nil] at hv
  simp only [ofBytes, toBytes, words, Stamp.words, sizes, List.cons_append, List.nil_append, hv,
    List.getD_cons_zero, List.getD_cons_succ, ofNat_toNat_mod_byte, ofNat_toNat_mod_uint32]

end TaskStatistics

/-- `task_statistics_ringbuf`: the preamble of the records in a log. -/
structure TaskStatisticsRingbuf (h : Host) where
  oldestJobPos : ULong h
  lostJobCount : ULong h
  writeCount : ULong h
  deriving DecidableEq

namespace TaskStatisticsRingbuf

/-- The sizes of the words of the (packed) structure. -/
def sizes (h : Host) : List ℕ := [h.sizeofLong, h.sizeofLong, h.sizeofLong]

/-- `sizeof(task_statistics_ringbuf)`. -/
def sizeof (h : Host) : ℕ := (sizes h).sum

/-- The bytes of the structure in memory. -/
def toBytes (s : TaskStatisticsRingbuf h) : Bytes :=
  pack h.byteOrder [(h.sizeofLong, s.oldestJobPos.toNat), (h.sizeofLong, s.lostJobCount.toNat),
    (h.sizeofLong, s.writeCount.toNat)]

/-- The structure that bytes in memory are. -/
def ofBytes (h : Host) (bs : Bytes) : TaskStatisticsRingbuf h :=
  let v := unpack h.byteOrder (sizes h) bs
  ⟨.ofNat _ (v.getD 0 0), .ofNat _ (v.getD 1 0), .ofNat _ (v.getD 2 0)⟩

@[simp]
theorem length_toBytes (s : TaskStatisticsRingbuf h) : s.toBytes.length = sizeof h := by
  simp [toBytes, sizeof, sizes]

/-- A preamble is read back from its bytes, whatever follows them. -/
theorem ofBytes_toBytes_append (s : TaskStatisticsRingbuf h) (rest : Bytes) :
    ofBytes h (s.toBytes ++ rest) = s := by
  have hv := unpack_pack h.byteOrder [(h.sizeofLong, s.oldestJobPos.toNat),
    (h.sizeofLong, s.lostJobCount.toNat), (h.sizeofLong, s.writeCount.toNat)] rest
  simp only [List.map_cons, List.map_nil] at hv
  simp only [ofBytes, toBytes, sizes, hv, List.getD_cons_zero, List.getD_cons_succ,
    ofNat_toNat_mod]

end TaskStatisticsRingbuf

/-! ## Creating a task -/

/-- The arguments of `task_create`. -/
structure TaskCreateArgs (h : Host) where
  name : Bytes
  wcet : UtilityTime h
  period : UtilityTime h
  deadline : UtilityTime h
  t0 : UtilityTime h
  offset : UtilityTime h
  /-- Whether `aperiodic_release` is given. -/
  aperiodicRelease : Bool
  ringbufferSize : ULong h
  ringbufferDisableOverrun : ℤ
  jobStatisticsOverhead : UtilityTime h
  finishToStartOverhead : UtilityTime h

/-- What the system answers to `task_create`: whether its allocations succeed, and the device
    of the log, if this can be opened. -/
structure TaskCreateEnv where
  mallocTaskStats : Bool
  mallocResult : Bool
  mallocName : Bool
  mallocStatsLogPath : Bool
  statsLog : Option (ℕ → Bool)
  mallocRingbuf : Bool
  mallocRingbufArray : Bool

namespace TaskCreateEnv

/-- All the allocations succeed, and the log is opened on a device. -/
def succeeding (device : ℕ → Bool) : TaskCreateEnv :=
  ⟨true, true, true, true, some device, true, true⟩

end TaskCreateEnv

namespace TaskCreateArgs

/-- The header that `task_create` writes. -/
def taskStats (args : TaskCreateArgs h) : TaskStatistics where
  byteOrder := .ofNat _ h.hostByteOrder
  sizeofStructTimespecTvSec := .ofNat _ h.sizeofTimeT
  sizeofStructTimespecTvNsec := .ofNat _ h.sizeofLong
  sizeofUnsignedLong := .ofNat _ h.sizeofPtr
  aperiodic := if args.aperiodicRelease then 1 else 0
  jobStatisticsDisabled := if args.ringbufferSize = 0 then 1 else 0
  wcet := .ofTimespec args.wcet
  period := .ofTimespec args.period
  deadline := .ofTimespec args.deadline
  t0 := .ofTimespec args.t0
  offset := .ofTimespec args.offset
  jobStatisticsOverhead := .ofTimespec args.jobStatisticsOverhead
  finishToStartOverhead := .ofTimespec args.finishToStartOverhead
  nameLen := .ofNat _ (strlen args.name)

/-- The item that `task_create` writes: the header and the name, without its null. -/
def header (args : TaskCreateArgs h) : Bytes :=
  args.taskStats.toBytes h ++ args.name.take (strlen args.name)

/-- The object that `task_create` makes, but for its log and its ring buffer. -/
def result (args : TaskCreateArgs h) : Task h where
  name := args.name.take (strlen args.name)
  wcet := args.wcet
  period := args.period
  deadline := args.deadline
  t0 := args.t0
  offset := args.offset
  jobStatisticsOverhead := args.jobStatisticsOverhead
  finishToStartOverhead := args.finishToStartOverhead
  aperiodic := if args.aperiodicRelease then 1 else 0
  disableJobStatistics := if args.ringbufferSize = 0 then 1 else 0
  oldestJobPos := 0
  lostJobCount := 0
  writeCount := 0
  stopped := 0
  nextReleaseTime := utilityTimeAdd args.t0 args.offset
  insideAperiodicRelease := 0
  statsLog := none
  failToCloseStatsLog := 0
  statsRingbuf := none

/-- A task with a period of a second and the name `a`, to run examples. -/
def everySecond (ringbufferSize : ULong .lp64) : TaskCreateArgs .lp64 where
  name := [97]
  wcet := ⟨0, 500000000⟩
  period := ⟨1, 0⟩
  deadline := ⟨1, 0⟩
  t0 := ⟨7, 0⟩
  offset := ⟨2, 0⟩
  aperiodicRelease := false
  ringbufferSize := ringbufferSize
  ringbufferDisableOverrun := 0
  jobStatisticsOverhead := ⟨0, 0⟩
  finishToStartOverhead := ⟨0, 0⟩

/-- A like task which is aperiodic. -/
def onEvents (ringbufferSize : ULong .lp64) : TaskCreateArgs .lp64 :=
  { everySecond ringbufferSize with aperiodicRelease := true }

end TaskCreateArgs

/-- The ring buffer of a new task, if it can be made: there is none when the job
    statistics are disabled. -/
def TaskCreateArgs.statsRingbuf (args : TaskCreateArgs h) (env : TaskCreateEnv) :
    Option (Option (JobstatsRingbuf h)) :=
  if args.result.disableJobStatistics ≠ 0 then some none
  else
    (jobstatsRingbufCreate args.ringbufferSize args.ringbufferDisableOverrun env.mallocRingbuf
      env.mallocRingbufArray).map some

/-- `task_create`: its return value and the task. The clean-up on its error paths is not
    part of the result. -/
def taskCreate (args : TaskCreateArgs h) (env : TaskCreateEnv) : ℤ × Option (Task h) :=
  if !env.mallocTaskStats then (-1, none)
  else if !env.mallocResult then (-1, none)
  else if !env.mallocName then (-1, none)
  else if !env.mallocStatsLogPath then (-1, none)
  else
    match env.statsLog with
    | none => (-2, none)
    | some device =>
      match args.statsRingbuf env with
      | none => (-1, none)
      | some ringbuf =>
        match (OutFile.empty device).fwrite args.header with
        | (false, _) => (-1, none)
        | (true, statsLog) =>
          (0, some { args.result with statsLog := some statsLog, statsRingbuf := ringbuf })

/-- The log with its header. -/
def TaskCreateArgs.logged (args : TaskCreateArgs h) (device : ℕ → Bool) : OutFile where
  content := args.header
  device n := device (n + 1)

/-- What `task_create` made, when it did. -/
theorem taskCreate_eq_some {args : TaskCreateArgs h} {env : TaskCreateEnv} {rc : ℤ} {tau : Task h}
    (hc : taskCreate args env = (rc, some tau)) :
    ∃ (device : ℕ → Bool) (ringbuf : Option (JobstatsRingbuf h)), env.statsLog = some device ∧
      args.statsRingbuf env = some ringbuf ∧
      tau = { args.result with
        statsLog := some (args.logged device)
        statsRingbuf := ringbuf } := by
  rw [taskCreate] at hc
  split_ifs at hc
  any_goals cases hc
  rcases hf : env.statsLog with _ | device <;> simp only [hf] at hc
  · cases hc
  rcases hring : args.statsRingbuf env with _ | ringbuf <;> simp only [hring] at hc
  · cases hc
  refine ⟨device, ringbuf, rfl, rfl, ?_⟩
  by_cases h0 : device 0 = true
  · simp only [OutFile.fwrite, OutFile.empty, h0, if_true, List.nil_append] at hc
    exact (Option.some.inj (congrArg Prod.snd hc)).symm
  · simp [OutFile.fwrite, OutFile.empty, h0] at hc

/-- A task with job statistics has a new ring buffer. -/
theorem TaskCreateArgs.statsRingbuf_of_ne {args : TaskCreateArgs h} {env : TaskCreateEnv}
    (hN : args.ringbufferSize ≠ 0) {ringbuf : Option (JobstatsRingbuf h)}
    (hr : args.statsRingbuf env = some ringbuf) :
    ∃ log, ringbuf = some log ∧
      log.Logs args.ringbufferSize args.ringbufferDisableOverrun [] := by
  have hd : args.result.disableJobStatistics = 0 := if_neg hN
  rw [TaskCreateArgs.statsRingbuf, if_neg (not_not.2 hd), Option.map_eq_some_iff] at hr
  obtain ⟨log, hlog, rfl⟩ := hr
  exact ⟨log, rfl, JobstatsRingbuf.logs_create hlog⟩

/-! ## The clean-up handlers -/

/-- The preamble for the ring buffer of a task. -/
def JobstatsRingbuf.preamble (ringbuf : JobstatsRingbuf h) : TaskStatisticsRingbuf h where
  oldestJobPos := jobstatsRingbufOldestPos ringbuf
  lostJobCount := jobstatsRingbufLostCount ringbuf
  writeCount := jobstatsRingbufWriteCount ringbuf

/-- `flush_stats_ringbuf`: the new value of the task. -/
def flushStatsRingbuf (fuel : ℕ) (tau : Task h) : Option (Task h) :=
  match tau.statsRingbuf with
  | none => some tau
  | some ringbuf =>
    if tau.disableJobStatistics ≠ 0 then some tau
    else
      -- The ring buffer is destroyed at the end, whether or not it can be saved.
      let tau :=
        { tau with
          oldestJobPos := ringbuf.preamble.oldestJobPos
          lostJobCount := ringbuf.preamble.lostJobCount
          writeCount := ringbuf.preamble.writeCount
          statsRingbuf := none }
      match tau.statsLog with
      | none => some tau
      | some statsLog =>
        match statsLog.fwrite ringbuf.preamble.toBytes with
        | (false, statsLog) =>
          some
            { tau with
              statsLog := some statsLog
              failToCloseStatsLog := tau.failToCloseStatsLog + 1 }
        | (true, statsLog) =>
          (jobstatsRingbufSave fuel ringbuf statsLog).map fun (rc, statsLog) =>
            { tau with
              statsLog := some statsLog
              failToCloseStatsLog := tau.failToCloseStatsLog - rc }

/-- The content of the log after a flush in which no call of `fwrite` fails. -/
def fullContent (fuel : ℕ) (tau : Task h) : Option Bytes :=
  tau.statsLog.bind fun statsLog =>
    ((flushStatsRingbuf fuel
      { tau with statsLog := some { statsLog with device := fun _ => true } }).bind
        Task.statsLog).map OutFile.content

/-- `flush_stats_ringbuf` cut short in a call of `fwrite`, when the log has the given content: it
    is the beginning of what the flush writes. The ring buffer is not destroyed. -/
def cutFlush (fuel : ℕ) (content : Bytes) (tau : Task h) : Option (Task h) :=
  match tau.statsRingbuf, tau.statsLog, fullContent fuel tau with
  | some ringbuf, some statsLog, some full =>
    if tau.disableJobStatistics = 0 ∧ statsLog.content <+: content ∧ content <+: full then
      some
        { tau with
          oldestJobPos := ringbuf.preamble.oldestJobPos
          lostJobCount := ringbuf.preamble.lostJobCount
          writeCount := ringbuf.preamble.writeCount
          statsLog := some { statsLog with content := content } }
    else none
  | _, _, _ => none

/-- The items that `flush_stats_ringbuf` writes: the preamble and the records. -/
def flushItems (preamble : TaskStatisticsRingbuf h) (records : List (JobStatistics h)) :
    List Bytes :=
  preamble.toBytes :: records.map JobStatistics.toBytes

/-- The task flushed, with what the calls of `fwrite` gave. -/
def Task.flushed (tau : Task h) (preamble : TaskStatisticsRingbuf h) (r : Bool × OutFile) :
    Task h :=
  { tau with
    oldestJobPos := preamble.oldestJobPos
    lostJobCount := preamble.lostJobCount
    writeCount := preamble.writeCount
    statsRingbuf := none
    statsLog := some r.2
    failToCloseStatsLog := tau.failToCloseStatsLog + if r.1 then 0 else 1 }

section Flush

variable {tau tau' : Task h} {log : JobstatsRingbuf h} {N : ULong h} {disableOverrun : ℤ}
  {xs : List (JobStatistics h)} {f : OutFile} {fuel : ℕ}

/-- `flush_stats_ringbuf` writes its items, whatever the fuel. -/
theorem JobstatsRingbuf.Logs.flush (hl : log.Logs N disableOverrun xs)
    (hring : tau.statsRingbuf = some log) (hd : tau.disableJobStatistics = 0)
    (hlog : tau.statsLog = some f) (hflush : flushStatsRingbuf fuel tau = some tau') :
    tau' = tau.flushed log.preamble
      (f.fwriteAll (flushItems log.preamble (savedRecords N disableOverrun xs))) := by
  simp only [flushStatsRingbuf, hring, if_neg (not_not.2 hd), hlog] at hflush
  rw [flushItems, OutFile.fwriteAll]
  rcases hw : f.fwrite log.preamble.toBytes with ⟨_ | _, f'⟩ <;> simp only [hw] at hflush ⊢
  · exact (Option.some.inj hflush).symm
  · obtain ⟨r, hr, rfl⟩ := Option.map_eq_some_iff.1 hflush
    rw [hl.save_eq hr, saveResult, Task.flushed]
    rcases (f'.fwriteAll _).1 with _ | _ <;> simp

/-- With enough fuel, it terminates. -/
theorem JobstatsRingbuf.Logs.isSome_flush (hl : log.Logs N disableOverrun xs)
    (hring : tau.statsRingbuf = some log) (hfuel : N.toNat ≤ fuel) :
    (flushStatsRingbuf fuel tau).isSome := by
  rw [flushStatsRingbuf, hring]
  simp only
  split_ifs
  · rfl
  · rcases tau.statsLog with _ | f
    · rfl
    · simp only
      rcases f.fwrite log.preamble.toBytes with ⟨_ | _, f'⟩
      · rfl
      · simp [hl.save hfuel]

/-- When no call of `fwrite` fails, all the items follow what has been in the log before. -/
theorem JobstatsRingbuf.Logs.fullContent_eq (hl : log.Logs N disableOverrun xs) {full : Bytes}
    (hring : tau.statsRingbuf = some log) (hd : tau.disableJobStatistics = 0)
    (hlog : tau.statsLog = some f) (hfull : fullContent fuel tau = some full) :
    full = f.content ++ (flushItems log.preamble (savedRecords N disableOverrun xs)).flatten := by
  rw [fullContent, hlog, Option.bind_some, Option.map_eq_some_iff] at hfull
  obtain ⟨f', hf', rfl⟩ := hfull
  obtain ⟨tau', hflush, hlog'⟩ := Option.bind_eq_some_iff.1 hf'
  obtain rfl := hl.flush (by exact hring) (by exact hd) rfl hflush
  obtain rfl := Option.some.inj hlog'
  exact (OutFile.fwriteAll_of_device fun _ _ => rfl).2.1

/-- A flush which is cut short has written the beginning of that. -/
theorem JobstatsRingbuf.Logs.cutFlush_eq (hl : log.Logs N disableOverrun xs) {content : Bytes}
    (hring : tau.statsRingbuf = some log) (hlog : tau.statsLog = some f)
    (hcut : cutFlush fuel content tau = some tau') :
    tau'.statsLog = some { f with content := content } ∧ content <+:
      f.content ++ (flushItems log.preamble (savedRecords N disableOverrun xs)).flatten := by
  cases hfull : fullContent fuel tau with
  | none =>
    rw [cutFlush, hring, hlog, hfull] at hcut
    cases hcut
  | some full =>
    simp only [cutFlush, hring, hlog, hfull] at hcut
    split_ifs at hcut with hcond
    obtain rfl := Option.some.inj hcut
    obtain ⟨hd, -, hprefix⟩ := hcond
    rw [← hl.fullContent_eq hring hd hlog hfull]
    exact ⟨rfl, hprefix⟩

/-- It only changes what it is about. -/
theorem exists_flushStatsRingbuf_getD (fuel : ℕ) (tau : Task h) :
    ∃ oldest lost write statsLog ringbuf fail, (flushStatsRingbuf fuel tau).getD tau =
      { tau with
        oldestJobPos := oldest
        lostJobCount := lost
        writeCount := write
        statsRingbuf := ringbuf
        statsLog := statsLog
        failToCloseStatsLog := fail } := by
  rw [flushStatsRingbuf]
  rcases tau.statsRingbuf with _ | ringbuf
  · exact ⟨_, _, _, _, _, _, rfl⟩
  simp only
  split_ifs
  · exact ⟨_, _, _, _, _, _, rfl⟩
  rcases tau.statsLog with _ | f
  · exact ⟨_, _, _, _, _, _, rfl⟩
  simp only
  rcases f.fwrite ringbuf.preamble.toBytes with ⟨_ | _, f'⟩
  · exact ⟨_, _, _, _, _, _, rfl⟩
  simp only
  rcases jobstatsRingbufSave fuel ringbuf f' with _ | r <;> exact ⟨_, _, _, _, _, _, rfl⟩

end Flush

/-- `close_logging_file`: the new value of the task, and the file, if it could be closed. -/
def closeLoggingFile (closes : Bool) (tau : Task h) : Task h × Option Bytes :=
  match tau.statsLog with
  | none => (tau, none)
  | some statsLog =>
    if !closes then ({ tau with failToCloseStatsLog := tau.failToCloseStatsLog + 1 }, none)
    else ({ tau with statsLog := none }, some statsLog.content)

end RealtimeTests
