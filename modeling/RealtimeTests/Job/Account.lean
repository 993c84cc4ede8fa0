import RealtimeTests.Job.Save

/-!
# The accounting of the ring buffer

What the accessors of the ring buffer return after fewer than `2 ^ w` jobs: they
agree with each other and with what `jobstats_ringbuf_save` writes, although they
are computed from different counters. The subtractions in them are only
evaluated once there has been no slot for a job, and do not underflow then.
-/

namespace RealtimeTests

open Circular JobstatsRingbuf

variable {h : Host}

/-! ## The slots claimed -/

namespace JobstatsRingbuf

/-- Where the statistics of the jobs `xs` go, in order. -/
def claimed (log : JobstatsRingbuf h) : List (JobStatistics h) → List StatsPtr
  | [] => []
  | x :: xs =>
    match RealtimeTests.jobStart (some log) (some x.tBegin) (some x.tEnd) with
    | (_, some log') => (jobStartClaim log).1 :: claimed log' xs
    | (_, none) => []

/-- How often the record in the first slot is replaced by another one. -/
def overwritten (log : JobstatsRingbuf h) (xs : List (JobStatistics h)) : ℕ :=
  (log.claimed xs).count (.ringbuf 0) - 1

variable {log : JobstatsRingbuf h} {N : ULong h} {disableOverrun : ℤ}
  {xs : List (JobStatistics h)}

theorem Logs.claimed_eq (hl : log.Logs N disableOverrun xs) (ys : List (JobStatistics h)) :
    log.claimed ys = (List.range' xs.length ys.length).map (statsPtrOf N.toNat disableOverrun) := by
  induction ys generalizing log xs with
  | nil => rfl
  | cons y ys ih =>
    obtain ⟨log', h', hl'⟩ := hl.jobStart y
    rw [claimed, h', List.length_cons, List.range'_succ, List.map_cons]
    simp only [ih hl', hl.claim.1, List.length_append, List.length_singleton]

end JobstatsRingbuf

/-- With overrun enabled, the first slot is claimed by one job in `N`. -/
theorem count_statsPtrOf_enabled (N n : ℕ) :
    ((List.range' 0 (n + 1)).map (statsPtrOf N 0)).count (.ringbuf 0) = n / N + 1 := by
  induction n with
  | zero => simp [statsPtrOf]
  | succ n ih =>
    rw [List.range'_concat, List.map_append, List.count_append, ih, Nat.succ_div]
    by_cases hd : N ∣ n + 1
    · simp [statsPtrOf, hd, Nat.mod_eq_zero_of_dvd hd]
    · have hne : (n + 1) % N ≠ 0 := fun h0 => hd (Nat.dvd_of_mod_eq_zero h0)
      simp [statsPtrOf, hd, hne]

/-- With overrun disabled, the first slot is claimed by the first job only. -/
theorem count_statsPtrOf_disabled {N : ℕ} (hN : 0 < N) {disableOverrun : ℤ}
    (hd : disableOverrun ≠ 0) (n : ℕ) :
    ((List.range' 0 (n + 1)).map (statsPtrOf N disableOverrun)).count (.ringbuf 0) = 1 := by
  induction n with
  | zero => simp [statsPtrOf, hN.ne']
  | succ n ih =>
    rw [List.range'_concat, List.map_append, List.count_append, ih]
    by_cases hle : N ≤ n + 1
    · simp [statsPtrOf, hd, hle]
    · simp [statsPtrOf, hle, Nat.mod_eq_of_lt (not_le.1 hle)]

/-! ## The accessors -/

namespace JobstatsRingbuf

variable {log : JobstatsRingbuf h} {N : ULong h} {disableOverrun : ℤ}
  {xs : List (JobStatistics h)} (hl : log.Logs N disableOverrun xs)
  (hn : xs.length < 2 ^ h.longBits)
include hl hn

theorem Logs.toNat_writeCount : (jobstatsRingbufWriteCount log).toNat = xs.length := by
  rw [jobstatsRingbufWriteCount, hl.writeCount, BitVec.toNat_ofNat, Nat.mod_eq_of_lt hn]

theorem Logs.toNat_overrunCount : (jobstatsRingbufOverrunCount log).toNat =
    if disableOverrun ≠ 0 then 0 else (xs.length - 1) / N.toNat := by
  rw [jobstatsRingbufOverrunCount, hl.overrunCount, BitVec.toNat_ofNat]
  refine Nat.mod_eq_of_lt (lt_of_le_of_lt ?_ hn)
  split_ifs
  · exact Nat.zero_le _
  · exact (Nat.div_le_self _ _).trans (Nat.sub_le _ _)

/-- `jobstats_ringbuf_overrun`, whichever counter it looks at. -/
theorem Logs.overrun_ne_zero_iff : jobstatsRingbufOverrun log ≠ 0 ↔ N.toNat < xs.length := by
  have hpos := hl.pos
  rw [jobstatsRingbufOverrun]
  split_ifs with hd hc
  · -- Overrun is disabled: this is what the flag tells.
    rw [Ne, hl.overrun, not_le]
  · -- The count is not zero, so that a second lap has begun.
    refine iff_of_true one_ne_zero ?_
    have hcount : (jobstatsRingbufOverrunCount log).toNat ≠ 0 := fun h0 =>
      hc (BitVec.eq_of_toNat_eq h0)
    rw [hl.toNat_overrunCount hn, if_neg fun hne => hne (hl.overrunDisabled.1 (not_not.1 hd))]
      at hcount
    by_contra hle
    exact hcount (Nat.div_eq_of_lt (by omega))
  · -- It is zero, so that none has.
    refine iff_of_false (not_not.2 rfl) fun hlt => ?_
    have hcount := hl.toNat_overrunCount hn
    rw [jobstatsRingbufOverrunCount, not_not.1 hc,
      if_neg fun hne => hne (hl.overrunDisabled.1 (not_not.1 hd))] at hcount
    exact (Nat.div_pos (show N.toNat ≤ xs.length - 1 by omega) hpos).ne hcount

/-- The subtraction in the accessors, once a job had no slot. -/
theorem Logs.toNat_writeCount_sub_size (hlt : N.toNat < xs.length) :
    (jobstatsRingbufWriteCount log - jobstatsRingbufSize log).toNat = xs.length - N.toNat := by
  have hle : jobstatsRingbufSize log ≤ jobstatsRingbufWriteCount log := by
    rw [BitVec.le_def, hl.toNat_writeCount hn, jobstatsRingbufSize, hl.slotCount]
    exact hlt.le
  rw [BitVec.toNat_sub_of_le hle, hl.toNat_writeCount hn, jobstatsRingbufSize, hl.slotCount]

theorem Logs.toNat_oldestPos : (jobstatsRingbufOldestPos log).toNat =
    if xs = [] then 0
    else if disableOverrun ≠ 0 then 1 else xs.length - min xs.length N.toNat + 1 := by
  have hover := hl.overrun_ne_zero_iff hn
  have hwrite : jobstatsRingbufWriteCount log = 0 ↔ xs = [] := by
    rw [← List.length_eq_zero_iff, ← hl.toNat_writeCount hn, ← BitVec.toNat_inj]
    rfl
  rw [jobstatsRingbufOldestPos]
  by_cases h0 : xs = []
  · rw [if_pos (hwrite.2 h0), if_pos h0]
    rfl
  rw [if_neg fun hz => h0 (hwrite.1 hz), if_neg h0]
  by_cases hd : disableOverrun = 0
  · rw [if_neg (not_not.2 hd)]
    by_cases hlt : N.toNat < xs.length
    · have hsub := hl.toNat_writeCount_sub_size hn hlt
      have hpos := hl.pos
      have hcond : ¬(jobstatsRingbufOverrunDisabled log ≠ 0 ∨ jobstatsRingbufOverrun log = 0) :=
        not_or.2 ⟨not_not.2 (hl.overrunDisabled.2 hd), hover.2 hlt⟩
      rw [if_neg hcond, BitVec.toNat_add, hsub, toNat_one, Nat.mod_eq_of_lt (by omega),
        min_eq_right hlt.le]
    · rw [if_pos (.inr (not_not.1 fun hne => hlt (hover.1 hne))), toNat_one,
        min_eq_left (not_lt.1 hlt), Nat.sub_self]
  · rw [if_pos hd, if_pos (.inl fun hz => hd (hl.overrunDisabled.1 hz)), toNat_one]

theorem Logs.toNat_lostCount :
    (jobstatsRingbufLostCount log).toNat = xs.length - min xs.length N.toNat := by
  have hover := hl.overrun_ne_zero_iff hn
  rw [jobstatsRingbufLostCount]
  split_ifs with ho hd
  · rw [min_eq_left (not_lt.1 fun hlt => hover.2 hlt ho), Nat.sub_self]
    rfl
  · have hlt := hover.1 ho
    rw [hl.toNat_writeCount_sub_size hn hlt, min_eq_right hlt.le]
  · have hlt := hover.1 ho
    have hold := hl.toNat_oldestPos hn
    rw [if_neg fun h0 => by simp [h0] at hlt,
      if_neg fun hne => hne (hl.overrunDisabled.1 (not_not.1 hd))] at hold
    have hle : (1 : ULong h) ≤ jobstatsRingbufOldestPos log := by
      rw [BitVec.le_def, toNat_one, hold]
      omega
    rw [BitVec.toNat_sub_of_le hle, hold, toNat_one, Nat.add_sub_cancel]

omit hl hn in
/-- The retained statistics are consecutive, from the oldest position on. -/
theorem retained_eq_take_drop (N : ℕ) (disableOverrun : ℤ) (xs : List (JobStatistics h)) :
    retained N disableOverrun xs =
      (xs.drop (if disableOverrun ≠ 0 then 0 else xs.length - min xs.length N)).take
        (min xs.length N) := by
  rw [retained]
  split_ifs
  · rw [List.drop_zero, min_comm, ← List.take_eq_take_min]
  · rw [List.rtake, List.take_of_length_le (by rw [List.length_drop]; omega)]
    congr 1
    omega

end JobstatsRingbuf

/-- The accounting of the ring buffer agrees with what `jobstats_ringbuf_save` writes: with `n`
    jobs run, it writes records `ys` such that

    * there are `min n N` of them, `n - ys.length` are lost, and `n` is the write count;
    * they are consecutive, from the job at the oldest position on;
    * the ring buffer has overrun iff there have been more than `N` jobs, and the overrun count
      is the number of times that the record in the first slot was replaced.

    No subtraction of unsigned numbers underflows: they are only evaluated after an overrun,
    and then the size is at most the write count, and the oldest position at least `1`. -/
theorem jobstatsRingbuf_accounting {N : ULong h} (hN : N ≠ 0) (disableOverrun : ℤ)
    (xs : List (JobStatistics h)) (hn : xs.length < 2 ^ h.longBits) :
    ∃ new log ys, jobstatsRingbufCreate N disableOverrun true true = some new ∧
      new.runJobs xs = some log ∧
      (∀ (f : OutFile) (fuel : ℕ), N.toNat ≤ fuel → (∀ n, f.device n = true) →
        ∃ f', jobstatsRingbufSave fuel log f = some (0, f') ∧
          f'.content = f.content ++ ys.flatMap JobStatistics.toBytes) ∧
      ys.length = min xs.length N.toNat ∧
      (jobstatsRingbufLostCount log).toNat = xs.length - ys.length ∧
      (jobstatsRingbufWriteCount log).toNat = xs.length ∧
      (xs = [] → (jobstatsRingbufOldestPos log).toNat = 0) ∧
      (xs ≠ [] → 0 < (jobstatsRingbufOldestPos log).toNat ∧
        ys = (xs.drop ((jobstatsRingbufOldestPos log).toNat - 1)).take ys.length) ∧
      (jobstatsRingbufOverrun log ≠ 0 ↔ N.toNat < xs.length) ∧
      (jobstatsRingbufOverrunCount log).toNat = new.overwritten xs ∧
      (jobstatsRingbufOverrunCount log).toNat =
        (if disableOverrun ≠ 0 then 0 else (xs.length - 1) / N.toNat) ∧
      (jobstatsRingbufOverrun log ≠ 0 →
        (jobstatsRingbufSize log).toNat ≤ (jobstatsRingbufWriteCount log).toNat ∧
          1 ≤ (jobstatsRingbufOldestPos log).toNat) := by
  obtain ⟨new, hnew⟩ := exists_create hN disableOverrun
  have hl₀ := logs_create hnew
  obtain ⟨log, hlog, hl⟩ := hl₀.runJobs xs
  rw [List.nil_append] at hl
  have hlen := length_retained N.toNat disableOverrun xs
  have hover := hl.overrun_ne_zero_iff hn
  have hwrite := hl.toNat_writeCount hn
  have hold := hl.toNat_oldestPos hn
  have hcount := hl.toNat_overrunCount hn
  refine ⟨new, log, retained N.toNat disableOverrun xs, hnew, hlog, fun f fuel hfuel hf => ?_,
    hlen, by rw [hlen, hl.toNat_lostCount hn], hwrite, fun h0 => by rw [hold, if_pos h0],
    fun h0 => ?_, hover, ?_, hcount, fun ho => ?_⟩
  · obtain ⟨h1, h2, _⟩ := OutFile.fwriteAll_of_device
      (fun n (_ : n < ((savedRecords N disableOverrun xs).map JobStatistics.toBytes).length) =>
        hf n)
    refine ⟨_, (hl.save hfuel f).trans (by rw [saveResult, h1]; rfl), h2.trans ?_⟩
    rw [savedRecords_of_lt hn, List.flatMap_def]
  · rw [if_neg h0] at hold
    refine ⟨by rw [hold]; split_ifs <;> omega, ?_⟩
    conv_lhs => rw [retained_eq_take_drop]
    rw [hlen, hold]
    split_ifs <;> rfl
  · rw [hcount, overwritten, hl₀.claimed_eq, List.length_nil]
    cases xs with
    | nil => simp
    | cons x xs =>
      rw [List.length_cons]
      split_ifs with hd
      · rw [count_statsPtrOf_disabled hl.pos hd]
      · rw [not_not.1 hd, count_statsPtrOf_enabled]
        rfl
  · have hlt := hover.1 ho
    rw [hwrite, jobstatsRingbufSize, hl.slotCount, hold, if_neg fun h0 => by simp [h0] at hlt]
    exact ⟨hlt.le, by split_ifs <;> omega⟩

/-- After three jobs in two slots, one is lost, and the oldest one is the second. -/
theorem jobstatsRingbuf_accounting_three :
    let jobs : List (JobStatistics .lp64) := [⟨⟨1, 0⟩, ⟨2, 0⟩⟩, ⟨⟨3, 0⟩, ⟨4, 0⟩⟩, ⟨⟨5, 0⟩, ⟨6, 0⟩⟩]
    ∃ new log, jobstatsRingbufCreate (2 : ULong .lp64) 0 true true = some new ∧
      new.runJobs jobs = some log ∧ (jobstatsRingbufLostCount log).toNat = 1 ∧
      (jobstatsRingbufWriteCount log).toNat = 3 ∧ jobstatsRingbufOverrun log ≠ 0 ∧
      (jobstatsRingbufOverrunCount log).toNat = 1 := by
  intro jobs
  obtain ⟨new, log, ys, hnew, hlog, _, hlen, hlost, hwrite, _, _, hover, _, hcount, _⟩ :=
    jobstatsRingbuf_accounting (show (2 : ULong .lp64) ≠ 0 by decide) 0 jobs (by decide)
  have hN : (2 : ULong .lp64).toNat = 2 := rfl
  rw [hN] at hlen hover hcount
  refine ⟨new, log, hnew, hlog, ?_, hwrite, hover.2 (by decide), hcount.trans (by decide)⟩
  rw [hlost, hlen]
  rfl

end RealtimeTests
