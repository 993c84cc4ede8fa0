import RealtimeTests.Job.Ring

/-!
# Saving the ring buffer

`jobstats_ringbuf_save` writes the retained statistics, in release order.

Its loop is a walk around the circle: from the slot of the oldest record, `k`
slots on, to the slot before the cursor (`jobstatsRingbufSaveLoop_eq`). The exit
test compares the index, just incremented and not yet reduced, with the cursor,
which never is `0`: they are equal for the first time after `k` steps, as the
slots in between are distinct.
-/

namespace RealtimeTests

open Circular JobstatsRingbuf

variable {h : Host}

/-- The result of `jobstats_ringbuf_save` when its calls of `fwrite` have the given result. -/
def saveResult (r : Bool × OutFile) : ℤ × OutFile := (if r.1 then 0 else -1, r.2)

theorem saveResult_fwriteAll_cons (item : Bytes) (items : List Bytes) (f : OutFile) :
    saveResult (f.fwriteAll (item :: items)) =
      match f.fwrite item with
      | (true, f) => saveResult (f.fwriteAll items)
      | (false, f) => (-1, f) := by
  rw [OutFile.fwriteAll]
  rcases f.fwrite item with ⟨_ | _, f'⟩ <;> rfl

/-- The loop writes `k` slots around the circle, from the slot of the element `s`. -/
theorem jobstatsRingbufSaveLoop_eq {log : JobstatsRingbuf h} {N : ULong h}
    (hN : log.slotCount = N) (hpos : 0 < N.toNat) {stop : ULong h} {s k : ℕ} (hk : 0 < k)
    (hkN : k ≤ N.toNat) (hstop : stop.toNat = (s + k - 1) % N.toNat + 1) {i : ULong h}
    (hi : i.toNat % N.toNat = s % N.toNat) {fuel : ℕ} (hfuel : k ≤ fuel) (f : OutFile) :
    jobstatsRingbufSaveLoop log stop fuel i f = some (saveResult
      (f.fwriteAll ((List.range' s k).map fun j => (log.ringbuf (j % N.toNat)).toBytes))) := by
  induction k generalizing s i fuel f with
  | zero => exact absurd hk (lt_irrefl 0)
  | succ k ih =>
    cases fuel with
    | zero => exact absurd hfuel (Nat.not_succ_le_zero k)
    | succ fuel =>
      have hslot : (i % log.slotCount).toNat = s % N.toNat := by
        rw [hN, BitVec.toNat_umod, hi]
      have hlt : (i % log.slotCount).toNat < N.toNat := hslot ▸ Nat.mod_lt _ hpos
      have hnext : (i % log.slotCount + 1).toNat = s % N.toNat + 1 := by
        rw [toNat_add_one hlt, hslot]
      rw [List.range'_succ, List.map_cons, saveResult_fwriteAll_cons, jobstatsRingbufSaveLoop,
        hslot]
      rcases f.fwrite (log.ringbuf (s % N.toNat)).toBytes with ⟨_ | _, f'⟩
      · rfl
      · simp only
        cases k with
        | zero =>
          -- The last slot has been written: the index has hit the end.
          have hend : i % log.slotCount + 1 = stop :=
            BitVec.eq_of_toNat_eq (by rw [hnext, hstop, Nat.zero_add, Nat.add_sub_cancel])
          rw [if_neg (not_not.2 hend)]
          rfl
        | succ k =>
          -- Fewer than `N` slots ahead, the last slot is another one.
          have hne : i % log.slotCount + 1 ≠ stop := fun he => by
            have := congrArg BitVec.toNat he
            rw [hnext, hstop] at this
            exact mod_ne_of_lt (by omega) (by omega) (Nat.succ_injective this)
          rw [if_pos hne]
          refine ih (Nat.succ_pos k) (by omega) ?_ ?_ (by omega) f'
          · rw [hstop]
            congr 2
            omega
          · rw [hnext, Nat.mod_add_mod]

/-- The statistics that `jobstats_ringbuf_save` writes after the jobs of statistics `xs`:
    those retained, unless the count of the jobs is back to zero. -/
def savedRecords (N : ULong h) (disableOverrun : ℤ) (xs : List (JobStatistics h)) :
    List (JobStatistics h) :=
  if BitVec.ofNat h.longBits xs.length = 0 then [] else retained N.toNat disableOverrun xs

theorem savedRecords_of_lt {N : ULong h} {disableOverrun : ℤ} {xs : List (JobStatistics h)}
    (hn : xs.length < 2 ^ h.longBits) :
    savedRecords N disableOverrun xs = retained N.toNat disableOverrun xs := by
  rw [savedRecords]
  split_ifs with h0
  · have hlen : xs.length = 0 := by
      have := congrArg BitVec.toNat h0
      rwa [BitVec.toNat_ofNat, Nat.mod_eq_of_lt hn] at this
    rw [List.length_eq_zero_iff.1 hlen, retained, List.take_nil, List.rtake_nil, ite_self]
  · rfl

theorem mem_of_mem_savedRecords {N : ULong h} {disableOverrun : ℤ} {xs : List (JobStatistics h)}
    {x : JobStatistics h} (hx : x ∈ savedRecords N disableOverrun xs) : x ∈ xs := by
  rw [savedRecords] at hx
  split_ifs at hx
  · exact absurd hx List.not_mem_nil
  · exact mem_of_mem_retained hx

variable {log : JobstatsRingbuf h} {N : ULong h} {disableOverrun : ℤ}
  {xs : List (JobStatistics h)}

/-- The retained statistics, as read around the circle. -/
theorem JobstatsRingbuf.Logs.map_range'_eq_retained (hl : log.Logs N disableOverrun xs) {s k : ℕ}
    (hs : s + k = (stored N.toNat disableOverrun xs).length) (hk : k = min xs.length N.toNat) :
    (List.range' s k).map (fun j => log.ringbuf (j % N.toNat)) =
      retained N.toNat disableOverrun xs := by
  rw [hl.slots.map_range' hs (by omega), retained]
  by_cases hd : disableOverrun ≠ 0
  · rw [stored, if_pos hd] at hs ⊢
    rw [if_pos hd, show s = 0 by rw [List.length_take] at hs; omega, List.drop_zero]
  · rw [stored, if_neg hd] at hs ⊢
    rw [if_neg hd, List.rtake, show s = xs.length - N.toNat by omega]

/-- The walk starts from the slot of the element `s`, with `k` elements before the cursor. -/
theorem JobstatsRingbuf.Logs.saveBegin_eq (hl : log.Logs N disableOverrun xs)
    (hne : 0 < xs.length) :
    ∃ s k, s + k = (stored N.toNat disableOverrun xs).length ∧ k = min xs.length N.toNat ∧
      (saveBegin log).toNat % N.toNat = s % N.toNat := by
  rw [saveBegin]
  split_ifs with hstart
  · -- From the first slot on: no element has been overwritten.
    refine ⟨0, _, Nat.zero_add _, ?_, rfl⟩
    rcases hstart with hd | ho
    · rw [stored, if_pos fun hz => hd (hl.overrunDisabled.2 hz), List.length_take, min_comm]
    · have hle := hl.overrun.1 ho
      rw [stored_of_le fun _ => hle, min_eq_left hle]
  · -- From the cursor on, where the oldest element is.
    obtain ⟨hd, ho⟩ := not_or.1 hstart
    have hlt : N.toNat < xs.length := not_le.1 fun hle => ho (hl.overrun.2 hle)
    have hstored : stored N.toNat disableOverrun xs = xs :=
      stored_of_le fun hne => absurd (hl.overrunDisabled.1 (not_not.1 hd)) hne
    have hnext := hl.next
    rw [hstored] at hnext
    refine ⟨xs.length - N.toNat, N.toNat, by rw [hstored]; omega, by omega, ?_⟩
    obtain ⟨n, hn⟩ := Nat.exists_eq_succ_of_ne_zero hne.ne'
    rw [hnext, hn, cursor_succ, Nat.mod_add_mod, ← Nat.mod_eq_sub_mod (by omega)]

/-- It ends before the cursor, which is not `0`. -/
theorem JobstatsRingbuf.Logs.saveEnd_eq (hl : log.Logs N disableOverrun xs) {s k : ℕ} (hk : 0 < k)
    (hs : s + k = (stored N.toNat disableOverrun xs).length) :
    (saveEnd log).toNat = (s + k - 1) % N.toNat + 1 := by
  rw [saveEnd]
  split_ifs with h1
  · -- In an array with one slot, the cursor stays at its end.
    have : N.toNat = 1 := by rw [← hl.slotCount, h1.2.2, toNat_one]
    rw [toNat_one, this, Nat.mod_one]
  · rw [hl.next, ← hs, cursor, if_neg (by omega)]

/-- `jobstats_ringbuf_save` terminates, and writes the saved records in order. -/
theorem JobstatsRingbuf.Logs.save (hl : log.Logs N disableOverrun xs) {fuel : ℕ}
    (hfuel : N.toNat ≤ fuel) (f : OutFile) :
    jobstatsRingbufSave fuel log f = some (saveResult
      (f.fwriteAll ((savedRecords N disableOverrun xs).map JobStatistics.toBytes))) := by
  rw [jobstatsRingbufSave, savedRecords]
  rw [hl.writeCount]
  split_ifs with h0
  · rfl
  · have hne : 0 < xs.length := Nat.pos_of_ne_zero fun hz => h0 (by rw [hz]; rfl)
    have hpos := hl.pos
    -- The walk of the loop goes over the `k` elements from `s` on, which are those retained.
    obtain ⟨s, k, hs, hk, hi⟩ := hl.saveBegin_eq hne
    have hk0 : 0 < k := by omega
    rw [jobstatsRingbufSaveLoop_eq hl.slotCount hpos hk0 (by omega) (hl.saveEnd_eq hk0 hs) hi
      (by omega), ← hl.map_range'_eq_retained hs hk, List.map_map]
    rfl

/-- The loop gives the same result with more fuel. -/
theorem jobstatsRingbufSaveLoop_mono {log : JobstatsRingbuf h} {stop i : ULong h}
    {fuel fuel' : ℕ} {f : OutFile} {r : ℤ × OutFile} (hle : fuel ≤ fuel')
    (hr : jobstatsRingbufSaveLoop log stop fuel i f = some r) :
    jobstatsRingbufSaveLoop log stop fuel' i f = some r := by
  induction fuel generalizing fuel' i f with
  | zero => cases hr
  | succ fuel ih =>
    obtain ⟨n, rfl⟩ := Nat.exists_eq_add_of_lt hle
    rw [jobstatsRingbufSaveLoop] at hr ⊢
    rcases hw : f.fwrite (log.ringbuf (i % log.slotCount).toNat).toBytes with ⟨_ | _, f'⟩
    · rwa [hw] at hr
    · rw [hw] at hr
      simp only at hr ⊢
      split_ifs at hr ⊢
      · exact ih (by omega) hr
      · exact hr

/-- Whatever the fuel, the result of `jobstats_ringbuf_save` is the one of `Logs.save`. -/
theorem JobstatsRingbuf.Logs.save_eq (hl : log.Logs N disableOverrun xs) {fuel : ℕ} {f : OutFile}
    {r : ℤ × OutFile} (hr : jobstatsRingbufSave fuel log f = some r) :
    r = saveResult
      (f.fwriteAll ((savedRecords N disableOverrun xs).map JobStatistics.toBytes)) := by
  have hmax : jobstatsRingbufSave (max fuel N.toNat) log f = some r := by
    rw [jobstatsRingbufSave] at hr ⊢
    split_ifs at hr ⊢
    · exact hr
    · exact jobstatsRingbufSaveLoop_mono (le_max_left _ _) hr
  rw [hl.save (le_max_right _ _)] at hmax
  exact (Option.some.inj hmax).symm

/-- Saving the ring buffer writes exactly the retained statistics, in release order: those of
    the last `N` jobs, or of the first `N` ones if overrun is disabled. If a call of `fwrite`
    fails, `-1` is returned and exactly the statistics before it have been written. -/
theorem jobstatsRingbufSave_retained {N : ULong h} (hN : N ≠ 0) (disableOverrun : ℤ)
    (xs : List (JobStatistics h)) (hn : xs.length < 2 ^ h.longBits) :
    ∃ new log, jobstatsRingbufCreate N disableOverrun true true = some new ∧
      new.runJobs xs = some log ∧
      (retained N.toNat disableOverrun xs).length = min xs.length N.toNat ∧
      ∀ (f : OutFile) (fuel : ℕ), N.toNat ≤ fuel →
        ∃ rc f', jobstatsRingbufSave fuel log f = some (rc, f') ∧
          ((∀ n < min xs.length N.toNat, f.device n = true) → rc = 0 ∧
            f'.content = f.content ++
              (retained N.toNat disableOverrun xs).flatMap JobStatistics.toBytes) ∧
          ∀ j < min xs.length N.toNat, (∀ n < j, f.device n = true) → f.device j = false →
            rc = -1 ∧ f'.content = f.content ++
              ((retained N.toNat disableOverrun xs).take j).flatMap JobStatistics.toBytes := by
  obtain ⟨new, hnew⟩ := exists_create hN disableOverrun
  obtain ⟨log, hlog, hl⟩ := (logs_create hnew).runJobs xs
  have hlen := length_retained N.toNat disableOverrun xs
  have hlen' : ((retained N.toNat disableOverrun xs).map JobStatistics.toBytes).length =
      min xs.length N.toNat := by rw [List.length_map, hlen]
  rw [List.nil_append] at hl
  refine ⟨new, log, hnew, hlog, hlen, fun f fuel hfuel => ⟨_, _, hl.save hfuel f,
    fun hf => ?_, fun j hj hf hfail => ?_⟩⟩
  all_goals rw [savedRecords_of_lt hn]
  · rw [← hlen'] at hf
    obtain ⟨h1, h2, _⟩ := OutFile.fwriteAll_of_device hf
    exact ⟨by rw [h1]; rfl, h2.trans (by rw [List.flatMap_def])⟩
  · rw [← hlen'] at hj
    obtain ⟨h1, h2⟩ := OutFile.fwriteAll_of_fail hj hf hfail
    exact ⟨by rw [h1]; rfl, h2.trans (by rw [List.flatMap_def, List.map_take])⟩

/-- Of three jobs in two slots, the last two are saved. -/
theorem jobstatsRingbufSave_retained_three :
    let jobs : List (JobStatistics .lp64) := [⟨⟨1, 0⟩, ⟨2, 0⟩⟩, ⟨⟨3, 0⟩, ⟨4, 0⟩⟩, ⟨⟨5, 0⟩, ⟨6, 0⟩⟩]
    (3 : ℕ) < 2 ^ Host.lp64.longBits ∧
      ∃ new log f', jobstatsRingbufCreate (2 : ULong .lp64) 0 true true = some new ∧
        new.runJobs jobs = some log ∧
        jobstatsRingbufSave 2 log (.empty fun _ => true) = some (0, f') ∧
        f'.content = (jobs.drop 1).flatMap JobStatistics.toBytes := by
  intro jobs
  obtain ⟨new, log, hnew, hlog, _, hsave⟩ :=
    jobstatsRingbufSave_retained (show (2 : ULong .lp64) ≠ 0 by decide) 0 jobs (by decide)
  obtain ⟨rc, f', hf', hok, _⟩ := hsave (.empty fun _ => true) 2 le_rfl
  obtain ⟨rfl, hcontent⟩ := hok fun _ _ => rfl
  exact ⟨by decide, new, log, f', hnew, hlog, hf', hcontent⟩

end RealtimeTests
