import Mathlib.Algebra.Order.Field.Rat
import Mathlib.Data.Finset.Sort
import Mathlib.Data.List.Count
import Mathlib.Tactic

/-!
# Empirical distributions

The empirical distribution function of a list of samples gives, for each value that occurs, the
ratio of the samples which are at most this value. It is strictly increasing, ends at 1, and does
not depend on the order of the samples.

It is computed from a tally, the number of samples of each value in increasing order
(`Tally`): a tally is kept by counting a sample in it (`Tally.insertCount`), and its
running sums are the numbers of samples up to each value (`Tally.runningSums`). Counts are in any
type with addition and `1`, so that they may wrap around.
-/

namespace RealtimeTests.Empirical

variable {α : Type*} [LinearOrder α] {γ : Type*} [AddMonoidWithOne γ]

/-! ## The distribution function -/

/-- The values of the samples, in increasing order. -/
def distinct (xs : List α) : List α := xs.toFinset.sort

/-- The empirical distribution function. -/
def cdf (xs : List α) : List (α × ℚ) :=
  (distinct xs).map fun x => (x, xs.countP (· ≤ x) / xs.length)

variable {xs ys : List α} {x y : α}

theorem distinct_pairwise (xs : List α) : (distinct xs).Pairwise (· < ·) :=
  xs.toFinset.sortedLT_sort.pairwise

@[simp]
theorem mem_distinct : x ∈ distinct xs ↔ x ∈ xs := by
  rw [distinct, Finset.mem_sort, List.mem_toFinset]

/-- The increasing list of the values is unique. -/
theorem eq_distinct {keys : List α} (hsort : keys.Pairwise (· < ·))
    (hmem : ∀ x, x ∈ keys ↔ x ∈ xs) : keys = distinct xs :=
  hsort.sortedLT.eq_of_mem_iff (distinct_pairwise xs).sortedLT fun x =>
    (hmem x).trans mem_distinct.symm

theorem distinct_perm (h : xs.Perm ys) : distinct xs = distinct ys :=
  eq_distinct (distinct_pairwise xs) fun _ => mem_distinct.trans h.mem_iff

/-- The order of the samples does not matter. -/
theorem cdf_perm (h : xs.Perm ys) : cdf xs = cdf ys := by
  rw [cdf, cdf, distinct_perm h, h.length_eq]
  simp only [h.countP_eq]

/-- There are more samples up to a value which is greater and occurs. -/
theorem countP_le_lt (hy : y ∈ xs) (h : x < y) : xs.countP (· ≤ x) < xs.countP (· ≤ y) := by
  induction xs with
  | nil => exact absurd hy List.not_mem_nil
  | cons a xs ih =>
    have hle : xs.countP (· ≤ x) ≤ xs.countP (· ≤ y) :=
      List.countP_mono_left fun z _ hz => by
        simp only [decide_eq_true_eq] at hz ⊢
        exact hz.trans h.le
    simp only [List.countP_cons, decide_eq_true_eq]
    rcases List.mem_cons.1 hy with rfl | hy
    · rw [if_neg h.not_ge, if_pos le_rfl]
      omega
    · have hlt := ih hy
      by_cases hax : a ≤ x
      · rw [if_pos hax, if_pos (hax.trans h.le)]
        omega
      · rw [if_neg hax]
        omega

theorem map_fst_cdf (xs : List α) : (cdf xs).map Prod.fst = distinct xs := by
  rw [cdf, List.map_map]
  exact List.map_id _

/-- Values and ratios are strictly increasing. -/
theorem cdf_pairwise (xs : List α) : (cdf xs).Pairwise fun p q => p.1 < q.1 ∧ p.2 < q.2 := by
  rw [cdf, List.pairwise_map]
  refine (distinct_pairwise xs).imp_of_mem fun {x y} _ hy hlt => ⟨hlt, ?_⟩
  have hy := mem_distinct.1 hy
  have hlen : (0 : ℚ) < xs.length := Nat.cast_pos.2 (List.length_pos_of_mem hy)
  exact div_lt_div_of_pos_right (Nat.cast_lt.2 (countP_le_lt hy hlt)) hlen

/-- The ratio of the greatest value is 1. -/
theorem cdf_getLast? (hne : xs ≠ []) : ∃ x, (cdf xs).getLast? = some (x, 1) := by
  have hne' : distinct xs ≠ [] := by
    obtain ⟨x, hx⟩ := List.exists_mem_of_ne_nil xs hne
    exact List.ne_nil_of_mem (mem_distinct.2 hx)
  refine ⟨(distinct xs).getLast hne', ?_⟩
  have hmax : ∀ y ∈ xs, y ≤ (distinct xs).getLast hne' := fun y hy =>
    (distinct_pairwise xs).sortedLT.sortedLE.pairwise.rel_getLast (mem_distinct.2 hy)
  have hcount : xs.countP (· ≤ (distinct xs).getLast hne') = xs.length :=
    List.countP_eq_length.2 fun y hy => decide_eq_true (hmax y hy)
  rw [cdf, List.getLast?_map, List.getLast?_eq_some_getLast hne', Option.map_some, hcount,
    div_self (Nat.cast_ne_zero.2 (List.length_pos_iff.2 hne).ne')]

/-! ## Tallies -/

/-- The values with the numbers of their samples. -/
structure Tally (items : List (α × γ)) (xs : List α) : Prop where
  sorted : (items.map Prod.fst).Pairwise (· < ·)
  mem_iff : ∀ x, x ∈ items.map Prod.fst ↔ x ∈ xs
  count : ∀ item ∈ items, item.2 = (xs.count item.1 : γ)

/-- A sample is counted. -/
def insertCount (x : α) : List (α × γ) → List (α × γ)
  | [] => [(x, 1)]
  | item :: items =>
    if item.1 = x then (item.1, item.2 + 1) :: items
    else if x < item.1 then (x, 1) :: item :: items
    else item :: insertCount x items

theorem tally_nil : Tally ([] : List (α × γ)) [] :=
  ⟨.nil, fun _ => Iff.rfl, fun _ h => absurd h List.not_mem_nil⟩

/-- The values after a sample is counted. -/
theorem mem_insertCount (x y : α) (items : List (α × γ)) :
    y ∈ (insertCount x items).map Prod.fst ↔ y = x ∨ y ∈ items.map Prod.fst := by
  induction items with
  | nil => simp [insertCount]
  | cons item items ih =>
    rw [insertCount]
    split_ifs with heq hlt
    · rw [List.map_cons, List.map_cons, List.mem_cons, heq]
      tauto
    · rw [List.map_cons, List.mem_cons]
    · rw [List.map_cons, List.map_cons, List.mem_cons, List.mem_cons, ih]
      tauto

/-- The values stay in increasing order. -/
theorem insertCount_sorted {items : List (α × γ)} (h : (items.map Prod.fst).Pairwise (· < ·))
    (x : α) : ((insertCount x items).map Prod.fst).Pairwise (· < ·) := by
  induction items with
  | nil => exact List.pairwise_singleton _ _
  | cons item items ih =>
    have ⟨hitem, hitems⟩ := List.pairwise_cons.1 h
    rw [insertCount]
    split_ifs with heq hlt
    · exact h
    · refine List.pairwise_cons.2 ⟨fun y hy => ?_, h⟩
      rcases List.mem_cons.1 hy with rfl | hy
      · exact hlt
      · exact hlt.trans (hitem y hy)
    · refine List.pairwise_cons.2 ⟨fun y hy => ?_, ih hitems⟩
      rcases (mem_insertCount x y items).1 hy with rfl | hy
      · exact lt_of_le_of_ne (not_lt.1 hlt) heq
      · exact hitem y hy

/-- The count of the sample is one more, from none if it is new; the others stay. -/
theorem insertCount_count {items : List (α × γ)} (h : (items.map Prod.fst).Pairwise (· < ·))
    {x : α} (c : α → γ) (hc : ∀ item ∈ items, item.2 = c item.1)
    (hnew : x ∉ items.map Prod.fst → c x = 0) :
    ∀ item ∈ insertCount x items, item.2 = if item.1 = x then c x + 1 else c item.1 := by
  induction items with
  | nil =>
    intro item hitem
    obtain rfl := List.mem_singleton.1 hitem
    rw [if_pos rfl, hnew List.not_mem_nil, zero_add]
  | cons item items ih =>
    have ⟨hlts, hitems⟩ := List.pairwise_cons.1 h
    have hcs : ∀ i ∈ items, i.2 = c i.1 := fun i hi => hc i (List.mem_cons_of_mem _ hi)
    -- The items after the first one are not for the sample, unless the first one is before it.
    have hother (hle : x ≤ item.1) : ∀ i ∈ items, i.2 = if i.1 = x then c x + 1 else c i.1 := by
      intro i hi
      have hne := (hle.trans_lt (hlts i.1 (List.mem_map_of_mem hi))).ne'
      rw [if_neg hne, hcs i hi]
    rw [insertCount]
    split_ifs with heq hlt
    · refine List.forall_mem_cons.2 ⟨?_, hother heq.ge⟩
      rw [if_pos heq, hc item List.mem_cons_self, heq]
    · refine List.forall_mem_cons.2 ⟨?_, List.forall_mem_cons.2 ⟨?_, hother hlt.le⟩⟩
      · rw [if_pos rfl, hnew, zero_add]
        rw [List.map_cons, List.mem_cons, not_or]
        exact ⟨hlt.ne, fun hx => (hlt.trans (hlts x hx)).false⟩
      · rw [if_neg heq, hc item List.mem_cons_self]
    · refine List.forall_mem_cons.2 ⟨?_, ih hitems hcs fun hx => hnew ?_⟩
      · rw [if_neg heq, hc item List.mem_cons_self]
      · rw [List.map_cons, List.mem_cons, not_or]
        exact ⟨fun hx' => heq hx'.symm, hx⟩

/-- A tally stays one when a sample is counted. -/
theorem Tally.insertCount {items : List (α × γ)} (h : Tally items xs) (x : α) :
    Tally (insertCount x items) (x :: xs) where
  sorted := insertCount_sorted h.sorted x
  mem_iff y := by rw [mem_insertCount, List.mem_cons, h.mem_iff]
  count item hitem := by
    have hnew (hx : x ∉ items.map Prod.fst) : (xs.count x : γ) = 0 := by
      rw [List.count_eq_zero.2 fun hx' => hx ((h.mem_iff x).2 hx'), Nat.cast_zero]
    have hcount := insertCount_count h.sorted (fun y => (xs.count y : γ)) h.count hnew
    rw [hcount item hitem]
    by_cases heq : item.1 = x
    · rw [if_pos heq, heq, List.count_cons_self, Nat.cast_succ]
    · rw [if_neg heq, List.count_cons_of_ne (Ne.symm heq)]

/-- The order of the samples does not matter. -/
theorem Tally.perm {items : List (α × γ)} (h : Tally items xs) (hp : xs.Perm ys) :
    Tally items ys where
  sorted := h.sorted
  mem_iff x := (h.mem_iff x).trans hp.mem_iff
  count item hitem := by rw [h.count item hitem, hp.count_eq]

/-- There is one tally. -/
theorem Tally.eq_map {items : List (α × γ)} (h : Tally items xs) :
    items = (distinct xs).map fun x => (x, (xs.count x : γ)) := by
  rw [← eq_distinct h.sorted h.mem_iff, List.map_map]
  refine (List.map_id items).symm.trans (List.map_congr_left fun item hitem => ?_)
  exact Prod.ext rfl (h.count item hitem)

/-- The counts of the values add up to the number of samples. -/
theorem sum_count_distinct (xs : List α) :
    ((distinct xs).map fun x => xs.count x).sum = xs.length := by
  have hperm : (distinct xs).Perm xs.dedup :=
    (List.perm_ext_iff_of_nodup (Finset.sort_nodup _ _) (List.nodup_dedup xs)).2 fun _ =>
      mem_distinct.trans List.mem_dedup.symm
  rw [(hperm.map _).sum_eq, List.sum_map_count_dedup_eq_length]

/-! ## Running sums -/

/-- Each value with the sum of the counts up to it. -/
def runningSums : γ → List (α × γ) → List (α × γ)
  | _, [] => []
  | sum, (x, c) :: items => (x, sum + c) :: runningSums (sum + c) items

omit [LinearOrder α] in
/-- The sums are of the same values. -/
theorem map_fst_runningSums (sum : γ) (items : List (α × γ)) :
    (runningSums sum items).map Prod.fst = items.map Prod.fst := by
  induction items generalizing sum with
  | nil => rfl
  | cons item items ih => exact congrArg (item.1 :: ·) (ih _)

/-- The samples which are not of some values, with those of one of them, are not of the others. -/
theorem countP_notMem_cons {k : α} {keys : List α} (hk : k ∉ keys) (xs : List α) :
    xs.countP (· ∉ k :: keys) + xs.count k = xs.countP (· ∉ keys) := by
  induction xs with
  | nil => rfl
  | cons y xs ih =>
    rw [List.countP_cons, List.count_cons, List.countP_cons, ← ih]
    by_cases hy : y = k
    · subst hy
      simp only [List.mem_cons, true_or, not_true, decide_false, hk, not_false_eq_true,
        decide_true, BEq.rfl, if_true, Bool.false_eq_true, if_false]
      omega
    · simp only [List.mem_cons, hy, false_or, beq_iff_eq, if_false]
      omega

/-- From an item on, the sum is of the samples which are not of the items that follow. -/
theorem runningSums_suffix {items : List (α × γ)} (hsort : (items.map Prod.fst).Pairwise (· < ·))
    (hcount : ∀ item ∈ items, item.2 = (xs.count item.1 : γ))
    (hbefore : ∀ y ∈ xs, y ∉ items.map Prod.fst → ∀ k ∈ items.map Prod.fst, y < k) :
    runningSums (xs.countP (· ∉ items.map Prod.fst) : γ) items =
      items.map fun item => (item.1, (xs.countP (· ≤ item.1) : γ)) := by
  induction items with
  | nil => rfl
  | cons item items ih =>
    obtain ⟨k, c⟩ := item
    obtain rfl : c = (xs.count k : γ) := hcount _ List.mem_cons_self
    have ⟨hlts, hitems⟩ := List.pairwise_cons.1 hsort
    have hk : k ∉ items.map Prod.fst := fun hk => (hlts k hk).false
    -- The samples of `k` are not of the items after it, as those before.
    have hsplit : xs.countP (· ∉ k :: items.map Prod.fst) + xs.count k =
        xs.countP (· ∉ items.map Prod.fst) := countP_notMem_cons hk xs
    have hle : xs.countP (· ∉ items.map Prod.fst) = xs.countP (· ≤ k) := by
      refine List.countP_congr fun y hy => ?_
      simp only [decide_eq_true_eq]
      constructor
      · intro hnot
        by_cases hyk : y = k
        · exact hyk.le
        · refine (hbefore y hy ?_ k List.mem_cons_self).le
          rw [List.map_cons, List.mem_cons, not_or]
          exact ⟨hyk, hnot⟩
      · exact fun hyk hy' => absurd (hlts y hy') hyk.not_gt
    rw [runningSums, ← Nat.cast_add, List.map_cons, hsplit, List.map_cons, ← hle,
      ih hitems (fun i hi => hcount i (List.mem_cons_of_mem _ hi)) fun y hy hnot i hi => ?_]
    by_cases hyk : y = k
    · exact hyk ▸ hlts i hi
    · refine hbefore y hy ?_ i (List.mem_cons_of_mem _ hi)
      rw [List.map_cons, List.mem_cons, not_or]
      exact ⟨hyk, hnot⟩

/-- The running sums of a tally are the numbers of samples up to each value. -/
theorem Tally.runningSums {items : List (α × γ)} (h : Tally items xs) :
    runningSums 0 items = (distinct xs).map fun x => (x, (xs.countP (· ≤ x) : γ)) := by
  have hnone : xs.countP (· ∉ items.map Prod.fst) = 0 :=
    List.countP_eq_zero.2 fun y hy => by simpa using (h.mem_iff y).2 hy
  have hsums := runningSums_suffix h.sorted h.count fun y hy hnot =>
    absurd ((h.mem_iff y).2 hy) hnot
  rw [hnone, Nat.cast_zero] at hsums
  rw [hsums, ← eq_distinct h.sorted h.mem_iff, List.map_map]
  rfl

end RealtimeTests.Empirical
