import Mathlib.Data.List.DropRight
import Mathlib.Data.Nat.ModEq
import Mathlib.Tactic

/-!
# Circular arrays

An array of `N` slots written in a circle: the element `j` of a history goes to
the slot `j % N`, over the element `j - N`. After a history `xs` the slots hold
its last `N` elements (`Holds`), which are read back by going once around,
from any element that is still there (`Holds.map_range'`).
-/

namespace RealtimeTests.Circular

variable {α : Type*} {a : ℕ → α} {N : ℕ} {xs : List α}

/-- The array `a` of `N` slots holds the last `N` elements of the history `xs`. -/
def Holds (a : ℕ → α) (N : ℕ) (xs : List α) : Prop :=
  ∀ j (hj : j < xs.length), xs.length ≤ j + N → a (j % N) = xs[j]

theorem holds_nil (a : ℕ → α) (N : ℕ) : Holds a N [] := fun _ hj => absurd hj (Nat.not_lt_zero _)

/-- Distinct elements less than a lap apart are in distinct slots. -/
theorem mod_ne_of_lt {i j : ℕ} (hij : i < j) (hj : j < i + N) : i % N ≠ j % N := by
  intro h
  -- Otherwise their distance, which is less than a lap, would be a multiple of `N`.
  have hd : N ∣ j - i := (Nat.modEq_iff_dvd' hij.le).1 h
  have := Nat.le_of_dvd (by omega) hd
  omega

/-- Writing the slot of the last element replaces it in the history. -/
theorem Holds.set_last {x : α} (h : Holds a N (xs ++ [x])) (y : α) :
    Holds (Function.update a (xs.length % N) y) N (xs ++ [y]) := by
  intro j hj hN
  simp only [List.length_append, List.length_singleton] at hj hN
  rcases Nat.lt_succ_iff_lt_or_eq.1 hj with hlt | rfl
  · -- An element before the last one is in another slot, as it is less than a lap behind.
    rw [Function.update_of_ne (mod_ne_of_lt hlt (by omega)), List.getElem_append_left hlt,
      h j (by simp; omega) (by simpa using hN), List.getElem_append_left hlt]
  · rw [Function.update_self, List.getElem_concat_length rfl]

/-- The slot of the next element, as it is, extends the history by its content. -/
theorem Holds.concat (h : Holds a N xs) : Holds a N (xs ++ [a (xs.length % N)]) := by
  intro j hj hN
  simp only [List.length_append, List.length_singleton] at hj hN
  rcases Nat.lt_succ_iff_lt_or_eq.1 hj with hlt | rfl
  · rw [List.getElem_append_left hlt, h j hlt (by omega)]
  · rw [List.getElem_concat_length rfl]

/-- Reading the slots from an element which is still there on gives the rest of the history. -/
theorem Holds.map_range' (h : Holds a N xs) {s k : ℕ} (hs : s + k = xs.length) (hk : k ≤ N) :
    (List.range' s k).map (fun j => a (j % N)) = xs.drop s := by
  refine List.ext_getElem (by simp; omega) fun i hi _ => ?_
  have hi' : i < k := by simpa using hi
  simp only [List.getElem_map, List.getElem_range', one_mul, List.getElem_drop]
  exact h (s + i) (by omega) (by omega)

/-! ## Cursors -/

/-- The slot after the last of `m` elements, which is `N`, rather than `0`, at the
    end of a lap. -/
def cursor (N m : ℕ) : ℕ := if m = 0 then 0 else (m - 1) % N + 1

@[simp]
theorem cursor_zero (N : ℕ) : cursor N 0 = 0 := rfl

@[simp]
theorem cursor_succ (N m : ℕ) : cursor N (m + 1) = m % N + 1 := rfl

theorem cursor_of_le {m : ℕ} (hm : m ≤ N) : cursor N m = m := by
  cases m with
  | zero => rfl
  | succ m => rw [cursor_succ, Nat.mod_eq_of_lt hm]

/-- The next element goes to the slot of the cursor, except at the end of a lap. -/
theorem mod_eq_cursor (hN : 0 < N) {m : ℕ} (hm : cursor N m ≠ N) : m % N = cursor N m := by
  cases m with
  | zero => rw [cursor_zero, Nat.zero_mod]
  | succ m =>
    rw [cursor_succ] at hm ⊢
    have := Nat.mod_lt m hN
    rw [← Nat.mod_add_mod, Nat.mod_eq_of_lt (by omega)]

/-- At the end of a lap, the next element goes to the first slot. -/
theorem dvd_of_cursor_eq (hN : 0 < N) {m : ℕ} (hm : cursor N m = N) : 0 < m ∧ N ∣ m := by
  cases m with
  | zero => exact absurd hm.symm hN.ne'
  | succ m =>
    rw [cursor_succ] at hm
    refine ⟨Nat.succ_pos m, Nat.dvd_of_mod_eq_zero ?_⟩
    rw [← Nat.mod_add_mod, hm, Nat.mod_self]

/-- The number of laps that are over before the element `m`. -/
theorem laps_succ (hN : 0 < N) (m : ℕ) :
    m / N = if cursor N m = N then (m - 1) / N + 1 else (m - 1) / N := by
  split_ifs with hm
  · -- The element `m` is the first one of a lap.
    obtain ⟨hpos, k, rfl⟩ := dvd_of_cursor_eq hN hm
    cases k with
    | zero => exact absurd hpos (lt_irrefl 0)
    | succ k =>
      have hlast : N * (k + 1) - 1 = N * k + (N - 1) := by
        rw [Nat.mul_succ]
        omega
      rw [Nat.mul_div_cancel_left _ hN, hlast, Nat.mul_add_div hN,
        Nat.div_eq_of_lt (Nat.sub_lt hN one_pos), Nat.add_zero]
  · cases m with
    | zero => rfl
    | succ m =>
      -- Inside a lap, `m + 1` is no multiple of `N`: the cursor would be at the end.
      refine Nat.succ_div_of_not_dvd fun hd => hm ?_
      rw [cursor_succ]
      have h0 := Nat.mod_eq_zero_of_dvd hd
      rw [← Nat.mod_add_mod] at h0
      have := Nat.mod_lt m hN
      by_contra hne
      rw [Nat.mod_eq_of_lt (by omega)] at h0
      omega

/-! ## The last elements -/

theorem length_rtake (xs : List α) (N : ℕ) : (xs.rtake N).length = min xs.length N := by
  rw [List.rtake, List.length_drop]
  omega

end RealtimeTests.Circular
