import RealtimeTests.Circular
import RealtimeTests.Job

/-!
# The ring buffer of job statistics and its history

What the ring buffer holds after a sequence of jobs, as an invariant relating it
to the statistics `xs` of all the jobs, in release order (`Logs`): the array is a
circular array of the statistics that were *stored* (all of them, or only those
for which there was a slot when overrun is disabled), and each of the counters
is a function of the number of jobs and of the number of slots. The counters are
`unsigned long`s, so that they count modulo `2 ^ w`.

* `Logs.claim`: what `job_start` does before the job runs extends the history by
  a record which is still what the claimed slot held before;
* `Logs.modify`: storing a time changes that record;
* `Logs.jobStart`, `Logs.runJobs`: running jobs.
-/

namespace RealtimeTests

open Circular

variable {h : Host}

section Histories

variable {α : Type*}

/-- Of the statistics of all the jobs, those that were stored in the ring buffer. -/
def stored (N : ℕ) (disableOverrun : ℤ) (xs : List α) : List α :=
  if disableOverrun ≠ 0 then xs.take N else xs

theorem stored_of_le {N : ℕ} {disableOverrun : ℤ} {xs : List α}
    (hx : disableOverrun ≠ 0 → xs.length ≤ N) : stored N disableOverrun xs = xs := by
  rw [stored]
  split_ifs with hd
  · exact List.take_of_length_le (hx hd)
  · rfl

theorem stored_append_of_le {N : ℕ} {disableOverrun : ℤ} {xs : List α} (hd : disableOverrun ≠ 0)
    (hx : N ≤ xs.length) (ys : List α) :
    stored N disableOverrun (xs ++ ys) = stored N disableOverrun xs := by
  rw [stored, stored, if_pos hd, if_pos hd, List.take_append_of_le_length hx]

theorem length_stored_of_le {N : ℕ} {disableOverrun : ℤ} {xs : List α} (hd : disableOverrun ≠ 0)
    (hx : N ≤ xs.length) : (stored N disableOverrun xs).length = N := by
  rw [stored, if_pos hd, List.length_take, min_eq_left hx]

/-- Of the statistics of all the jobs, those that are still in the ring buffer:
    the first `N` if overrun is disabled, and otherwise the last `N`. -/
def retained (N : ℕ) (disableOverrun : ℤ) (xs : List α) : List α :=
  if disableOverrun ≠ 0 then xs.take N else xs.rtake N

theorem length_retained (N : ℕ) (disableOverrun : ℤ) (xs : List α) :
    (retained N disableOverrun xs).length = min xs.length N := by
  rw [retained]
  split_ifs
  · rw [List.length_take, min_comm]
  · exact length_rtake xs N

theorem mem_of_mem_retained {N : ℕ} {disableOverrun : ℤ} {xs : List α} {x : α}
    (hx : x ∈ retained N disableOverrun xs) : x ∈ xs := by
  rw [retained] at hx
  split_ifs at hx
  · exact List.mem_of_mem_take hx
  · exact List.mem_of_mem_drop hx

end Histories

/-- Where the statistics of a job go, after `n` jobs. -/
def statsPtrOf (N : ℕ) (disableOverrun : ℤ) (n : ℕ) : StatsPtr :=
  if disableOverrun ≠ 0 ∧ N ≤ n then .dummy else .ringbuf (n % N)

namespace JobstatsRingbuf

/-- The ring buffer, with `N` slots, logs the jobs of statistics `xs`. -/
structure Logs (log : JobstatsRingbuf h) (N : ULong h) (disableOverrun : ℤ)
    (xs : List (JobStatistics h)) : Prop where
  pos : 0 < N.toNat
  slotCount : log.slotCount = N
  overrunDisabled : log.overrunDisabled = 0 ↔ disableOverrun = 0
  next : log.next.toNat = cursor N.toNat (stored N.toNat disableOverrun xs).length
  overrun : log.overrun = 0 ↔ xs.length ≤ N.toNat
  overrunCount : log.overrunCount =
    .ofNat _ (if disableOverrun ≠ 0 then 0 else (xs.length - 1) / N.toNat)
  writeCount : log.writeCount = .ofNat _ xs.length
  slots : Holds log.ringbuf N.toNat (stored N.toNat disableOverrun xs)

variable {log : JobstatsRingbuf h} {N : ULong h} {disableOverrun : ℤ}
  {xs : List (JobStatistics h)}

theorem exists_create (hN : N ≠ 0) (disableOverrun : ℤ) :
    ∃ new, jobstatsRingbufCreate N disableOverrun true true = some new := by
  rw [jobstatsRingbufCreate]
  rw [if_neg hN]
  exact ⟨_, rfl⟩

/-- A new ring buffer logs no job. -/
theorem logs_create {malloc1 malloc2 : Bool}
    (hc : jobstatsRingbufCreate N disableOverrun malloc1 malloc2 = some log) :
    log.Logs N disableOverrun [] := by
  rw [jobstatsRingbufCreate] at hc
  split_ifs at hc with hN <;> cases hc
  all_goals
    have hpos : 0 < N.toNat := Nat.pos_of_ne_zero fun h0 => hN (BitVec.eq_of_toNat_eq (by simpa))
    constructor <;> simp_all [stored, holds_nil]

theorem Logs.next_eq_iff (hl : log.Logs N disableOverrun xs) :
    log.next = log.slotCount ↔
      cursor N.toNat (stored N.toNat disableOverrun xs).length = N.toNat := by
  rw [hl.slotCount, ← BitVec.toNat_inj, hl.next]

theorem toNat_one : (1 : ULong h).toNat = 1 := BitVec.toNat_one (by have := h.le_longBits; omega)

/-- Incrementing an index does not overflow as long as it is inside the array. -/
theorem toNat_add_one {i : ULong h} (hi : i.toNat < N.toNat) : (i + 1).toNat = i.toNat + 1 := by
  rw [BitVec.toNat_add, toNat_one, Nat.mod_eq_of_lt (by have := N.isLt; omega)]

/-- The counters count modulo `2 ^ w`. -/
theorem add_one_of_eq_ofNat {c : ULong h} {n : ℕ} (hc : c = .ofNat _ n) :
    c + 1 = .ofNat _ (n + 1) := by
  rw [hc, BitVec.ofNat_add]
  rfl

/-- A job for which the array has a slot left. -/
theorem Logs.claim_of_ne (hl : log.Logs N disableOverrun xs) (hn : log.next ≠ log.slotCount) :
    (jobStartClaim log).1 = .ringbuf (xs.length % N.toNat) ∧
      (disableOverrun ≠ 0 → xs.length < N.toNat) ∧
      (jobStartClaim log).2.Logs N disableOverrun
        (xs ++ [log.ringbuf (xs.length % N.toNat)]) := by
  have hcur : cursor N.toNat (stored N.toNat disableOverrun xs).length ≠ N.toNat :=
    fun hc => hn (hl.next_eq_iff.2 hc)
  have hlt : disableOverrun ≠ 0 → xs.length < N.toNat := fun hd => by
    by_contra hle
    rw [length_stored_of_le hd (not_lt.1 hle), cursor_of_le le_rfl] at hcur
    exact hcur rfl
  -- So all the jobs have been stored, and the next one will be.
  have hstored := stored_of_le fun hd => (hlt hd).le
  have hstored' : stored N.toNat disableOverrun (xs ++ [log.ringbuf (xs.length % N.toNat)]) = _ :=
    stored_of_le fun hd => by simpa using hlt hd
  have hnext := hl.next
  have hslots := hl.slots
  have hover := hl.overrun
  rw [hstored] at hcur hnext hslots
  have hmod : xs.length % N.toNat = log.next.toNat := (mod_eq_cursor hl.pos hcur).trans hnext.symm
  have hin : log.next.toNat < N.toNat := hmod ▸ Nat.mod_lt _ hl.pos
  have hne : xs.length ≠ N.toNat := fun he => hcur (by rw [he, cursor_of_le le_rfl])
  have hlaps := laps_succ hl.pos xs.length
  rw [if_neg hcur] at hlaps
  rw [jobStartClaim_of_ne hn]
  refine ⟨by rw [hmod], hlt, hl.pos, hl.slotCount, hl.overrunDisabled, ?_, ?_, ?_, ?_, ?_⟩
  · rw [hstored', List.length_append, List.length_singleton, cursor_succ, hmod]
    exact toNat_add_one hin
  · rw [hover, List.length_append, List.length_singleton]
    omega
  · rw [List.length_append, List.length_singleton, Nat.add_sub_cancel, hlaps]
    exact hl.overrunCount
  · rw [List.length_append, List.length_singleton]
    exact add_one_of_eq_ofNat hl.writeCount
  · rw [hstored']
    exact hslots.concat

/-- A job at the end of a lap: it gets the first slot. -/
theorem Logs.claim_of_enabled (hl : log.Logs N disableOverrun xs) (hn : log.next = log.slotCount)
    (hd : disableOverrun = 0) :
    (jobStartClaim log).1 = .ringbuf (xs.length % N.toNat) ∧
      (jobStartClaim log).2.Logs N disableOverrun
        (xs ++ [log.ringbuf (xs.length % N.toNat)]) := by
  have hstored (ys : List (JobStatistics h)) : stored N.toNat disableOverrun ys = ys :=
    stored_of_le fun hne => absurd hd hne
  have hcur := hl.next_eq_iff.1 hn
  have hslots := hl.slots
  have hcount := hl.overrunCount
  rw [hstored] at hcur hslots
  rw [if_neg (not_not.2 hd)] at hcount
  -- A lap is over: the number of jobs is a multiple of `N`.
  obtain ⟨hpos, hdvd⟩ := dvd_of_cursor_eq hl.pos hcur
  have hmod : xs.length % N.toNat = 0 := Nat.mod_eq_zero_of_dvd hdvd
  have hle : N.toNat ≤ xs.length := Nat.le_of_dvd hpos hdvd
  have hlaps := laps_succ hl.pos xs.length
  rw [if_pos hcur] at hlaps
  rw [jobStartClaim_of_enabled hn (hl.overrunDisabled.2 hd)]
  refine ⟨by rw [hmod], hl.pos, hl.slotCount, hl.overrunDisabled, ?_, ?_, ?_, ?_, ?_⟩
  · rw [hstored, List.length_append, List.length_singleton, cursor_succ, hmod]
    exact toNat_one
  · rw [List.length_append, List.length_singleton]
    exact iff_of_false (overrunSet_ne_zero _) (by omega)
  · rw [if_neg (not_not.2 hd), List.length_append, List.length_singleton, Nat.add_sub_cancel, hlaps]
    exact add_one_of_eq_ofNat hcount
  · rw [List.length_append, List.length_singleton]
    exact add_one_of_eq_ofNat hl.writeCount
  · rw [hstored]
    exact hslots.concat

/-- A job which is not recorded, as the array is full and overrun is disabled. -/
theorem Logs.claim_of_disabled (hl : log.Logs N disableOverrun xs) (hn : log.next = log.slotCount)
    (hd : disableOverrun ≠ 0) (x : JobStatistics h) :
    (jobStartClaim log).1 = .dummy ∧ N.toNat ≤ xs.length ∧
      (jobStartClaim log).2.Logs N disableOverrun (xs ++ [x]) := by
  -- The array is full, so there have been at least `N` jobs.
  have hle : N.toNat ≤ xs.length := by
    have hcur := hl.next_eq_iff.1 hn
    by_contra hlt
    rw [stored_of_le fun _ => (not_le.1 hlt).le, cursor_of_le (not_le.1 hlt).le] at hcur
    exact hlt hcur.ge
  have hstored := stored_append_of_le hd hle [x]
  have hcount := hl.overrunCount
  rw [if_pos hd] at hcount
  rw [jobStartClaim_of_disabled hn fun hz => hd (hl.overrunDisabled.1 hz)]
  refine ⟨rfl, hle, hl.pos, hl.slotCount, hl.overrunDisabled, ?_, ?_, ?_, ?_, ?_⟩
  · rw [hstored]
    exact hl.next
  · rw [List.length_append, List.length_singleton]
    exact iff_of_false (overrunSet_ne_zero _) (by omega)
  · rw [if_pos hd]
    exact hcount
  · rw [List.length_append, List.length_singleton]
    exact add_one_of_eq_ofNat hl.writeCount
  · rw [hstored]
    exact hl.slots

/-- Claiming a slot extends the history by what the slot holds, or, if there is no
    slot, by anything. -/
theorem Logs.claim (hl : log.Logs N disableOverrun xs) :
    (jobStartClaim log).1 = statsPtrOf N.toNat disableOverrun xs.length ∧
      ∃ x, (jobStartClaim log).2.Logs N disableOverrun (xs ++ [x]) := by
  by_cases hn : log.next = log.slotCount
  · by_cases hd : disableOverrun = 0
    · obtain ⟨hp, hl'⟩ := hl.claim_of_enabled hn hd
      exact ⟨by rw [hp, statsPtrOf, if_neg fun hc => hc.1 hd], _, hl'⟩
    · obtain ⟨hp, hle, hl'⟩ := hl.claim_of_disabled hn hd ⟨⟨0, 0⟩, ⟨0, 0⟩⟩
      exact ⟨by rw [hp, statsPtrOf, if_pos ⟨hd, hle⟩], _, hl'⟩
  · obtain ⟨hp, hlt, hl'⟩ := hl.claim_of_ne hn
    exact ⟨by rw [hp, statsPtrOf, if_neg fun hc => absurd hc.2 (not_le.2 (hlt hc.1))], _, hl'⟩

/-- A job with a slot is among those that are stored. -/
theorem stored_append_singleton {N : ℕ} (hp : ¬(disableOverrun ≠ 0 ∧ N ≤ xs.length))
    (x : JobStatistics h) : stored N disableOverrun (xs ++ [x]) = xs ++ [x] :=
  stored_of_le fun hd => by simpa using not_le.1 fun hle => hp ⟨hd, hle⟩

/-- The record of a job with a slot is in the slot. -/
theorem Logs.ringbuf_last {x : JobStatistics h} (hl : log.Logs N disableOverrun (xs ++ [x]))
    (hp : ¬(disableOverrun ≠ 0 ∧ N.toNat ≤ xs.length)) :
    log.ringbuf (xs.length % N.toNat) = x := by
  have hslots := hl.slots
  rw [stored_append_singleton hp] at hslots
  rw [hslots xs.length (by simp) (by have := hl.pos; simp; omega), List.getElem_concat_length rfl]

/-- Storing a time of a job changes the last record of the history. -/
theorem Logs.modify {x : JobStatistics h} (hl : log.Logs N disableOverrun (xs ++ [x]))
    (f : JobStatistics h → JobStatistics h) :
    (log.modify (statsPtrOf N.toNat disableOverrun xs.length) f).Logs N disableOverrun
      (xs ++ [f x]) := by
  have hlen : (xs ++ [x]).length = (xs ++ [f x]).length := by simp
  have hover := hl.overrun
  have hcount := hl.overrunCount
  have hwrite := hl.writeCount
  rw [hlen] at hover hcount hwrite
  rw [statsPtrOf]
  split_ifs with hp
  · -- The job has no slot: its record is not among the stored ones.
    have hnext := hl.next
    have hslots := hl.slots
    rw [stored_append_of_le hp.1 hp.2] at hnext hslots
    refine ⟨hl.pos, hl.slotCount, hl.overrunDisabled, ?_, hover, hcount, hwrite, ?_⟩
    all_goals rwa [stored_append_of_le hp.1 hp.2]
  · -- Its slot holds the last element of the history.
    have hnext := hl.next
    have hslots := hl.slots
    rw [stored_append_singleton hp] at hnext hslots
    refine ⟨hl.pos, hl.slotCount, hl.overrunDisabled, ?_, hover, hcount, hwrite, ?_⟩
    · rw [stored_append_singleton hp, ← hlen]
      exact hnext
    · rw [stored_append_singleton hp]
      change Holds (Function.update log.ringbuf _ (f (log.ringbuf _))) _ _
      rw [hl.ringbuf_last hp]
      exact hslots.set_last (f x)

/-- The last record of the history is what the job's pointer points to; when this is `dummy`,
    the record may be anything. -/
theorem Logs.deref {x : JobStatistics h} (hl : log.Logs N disableOverrun (xs ++ [x]))
    (dummy : JobStatistics h) :
    log.Logs N disableOverrun
      (xs ++ [log.deref (statsPtrOf N.toNat disableOverrun xs.length) dummy]) := by
  have hm := hl.modify fun _ => dummy
  rw [statsPtrOf] at hm ⊢
  split_ifs at hm ⊢ with hp
  · exact hm
  · rw [JobstatsRingbuf.deref, hl.ringbuf_last hp]
    exact hl

/-! ## Runs -/

/-- Running a job extends the history by its statistics. -/
theorem Logs.jobStart (hl : log.Logs N disableOverrun xs) (x : JobStatistics h) :
    ∃ log', jobStart (some log) (some x.tBegin) (some x.tEnd) = (0, some log') ∧
      log'.Logs N disableOverrun (xs ++ [x]) := by
  obtain ⟨hp, y, hy⟩ := hl.claim
  have hy' := (hy.modify (storeBegin (some x.tBegin))).modify (storeEnd (some x.tEnd))
  rw [← hp] at hy'
  exact ⟨_, rfl, hy'⟩

/-- The ring buffer after jobs of the given statistics. -/
def runJobs (log : JobstatsRingbuf h) : List (JobStatistics h) → Option (JobstatsRingbuf h)
  | [] => some log
  | x :: xs =>
    match RealtimeTests.jobStart (some log) (some x.tBegin) (some x.tEnd) with
    | (_, some log) => runJobs log xs
    | (_, none) => none

theorem Logs.runJobs (hl : log.Logs N disableOverrun xs) (ys : List (JobStatistics h)) :
    ∃ log', log.runJobs ys = some log' ∧ log'.Logs N disableOverrun (xs ++ ys) := by
  induction ys generalizing log xs with
  | nil => exact ⟨log, rfl, by rwa [List.append_nil]⟩
  | cons y ys ih =>
    obtain ⟨log₁, h₁, hl₁⟩ := hl.jobStart y
    obtain ⟨log₂, h₂, hl₂⟩ := ih hl₁
    refine ⟨log₂, ?_, by simpa using hl₂⟩
    rw [JobstatsRingbuf.runJobs, h₁]
    exact h₂

end JobstatsRingbuf

end RealtimeTests
