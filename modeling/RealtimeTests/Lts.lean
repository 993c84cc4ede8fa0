import Mathlib.Data.List.Induction
import Mathlib.Data.Set.Basic

/-!
# Labelled transition systems

A system of interacting parties: a set of initial states, and a step which, at
a state, is a partial function of a label. All the choices there are, of the
party that moves and of what the environment answers it, are in the label, so
that a step can be computed.

* `Lts.Run ls s`: a run from an initial state to `s` taking the labels `ls`, in
  order. Properties *over time* are properties of `ls`.
* `Lts.Run.invariant`: what holds initially and is preserved by the steps holds
  at the end of every run.
* `Lts.Run.since`: what a step establishes and the steps after it preserve holds at the
  end of every run which takes that step, as a property of the labels since.
* `Lts.Run.length_since_le`: when the steps since a step decrease a measure, there are no more of
  them than the measure was.
* `Lts.Run.project`: a run of a system of parties is, for each party, a run of its own.
* `Lts.guard`: the system restricted to the steps meeting a condition; its runs
  are the runs all of whose steps meet it.
* `Lts.exec`: the state a list of labels leads to, to compute particular runs.
-/

namespace RealtimeTests

/-- A labelled transition system on the states `S`, with the labels `L`. -/
structure Lts (S L : Type*) where
  /-- The initial states. -/
  init : Set S
  /-- The state after a step with a given label, if there is one. -/
  next : S → L → Option S

namespace Lts

variable {S L : Type*} (A : Lts S L)

/-- A run from an initial state, taking the labels in order. -/
inductive Run : List L → S → Prop
  | nil {s : S} : s ∈ A.init → Run [] s
  | snoc {ls : List L} {s s' : S} {l : L} :
      Run ls s → A.next s l = some s' → Run (ls ++ [l]) s'

variable {A}

/-- What holds initially and is preserved by every step of a run holds at its end. -/
theorem Run.invariant {P : List L → S → Prop} {ls : List L} {s : S} (hr : A.Run ls s)
    (init : ∀ s ∈ A.init, P [] s)
    (step : ∀ ls s l s', A.Run ls s → P ls s → A.next s l = some s' → P (ls ++ [l]) s') :
    P ls s := by
  induction hr with
  | nil hs => exact init _ hs
  | snoc hr hst ih => exact step _ _ _ _ hr ih hst

/-- The invariant rule for a property of the states alone. -/
theorem Run.state_invariant {P : S → Prop} {ls : List L} {s : S} (hr : A.Run ls s)
    (init : ∀ s ∈ A.init, P s) (step : ∀ s l s', P s → A.next s l = some s' → P s') : P s :=
  hr.invariant (P := fun _ s => P s) init fun _ _ _ _ _ hp hst => step _ _ _ hp hst

/-- The last step of a run. -/
theorem Run.of_concat {ls : List L} {l : L} {s : S} (hr : A.Run (ls ++ [l]) s) :
    ∃ s', A.Run ls s' ∧ A.next s' l = some s := by
  generalize hks : ls ++ [l] = ks at hr
  cases hr with
  | nil _ => simp at hks
  | snoc hr' hst =>
    obtain ⟨rfl, hl⟩ := List.append_inj' hks rfl
    obtain rfl := List.singleton_inj.1 hl
    exact ⟨_, hr', hst⟩

/-- The rule for the labels since a step. -/
theorem Run.since {P : List L → S → Prop} {l : L} {ls ms : List L} {s : S}
    (hr : A.Run (ls ++ l :: ms) s)
    (start : ∀ s s', A.Run ls s → A.next s l = some s' → P [] s')
    (step : ∀ ms s m s', P ms s → A.next s m = some s' → P (ms ++ [m]) s') : P ms s := by
  induction ms using List.reverseRecOn generalizing s with
  | nil =>
    obtain ⟨s', hr', hst⟩ := hr.of_concat
    exact start _ _ hr' hst
  | append_singleton ms m ih =>
    rw [← List.cons_append, ← List.append_assoc] at hr
    obtain ⟨s', hr', hst⟩ := hr.of_concat
    exact step _ _ _ _ (ih hr') hst

/-- The rule for the number of steps since a step. -/
theorem Run.length_since_le {P : S → Prop} {μ : S → ℕ} {b : ℕ} {l : L} {ls ms : List L} {s : S}
    (hr : A.Run (ls ++ l :: ms) s)
    (start : ∀ s s', A.Run ls s → A.next s l = some s' → P s' ∧ μ s' ≤ b)
    (step : ∀ s m s', P s → A.next s m = some s' → P s' ∧ μ s' + 1 ≤ μ s) :
    ms.length + μ s ≤ b := by
  have hs : P s ∧ ms.length + μ s ≤ b := by
    refine hr.since (P := fun ms s => P s ∧ ms.length + μ s ≤ b) (fun s s' hr hst => ?_)
      fun ms s m s' ⟨hP, hle⟩ hst => ?_
    · obtain ⟨hP, hle⟩ := start s s' hr hst
      exact ⟨hP, by simpa using hle⟩
    · obtain ⟨hP', hlt⟩ := step s m s' hP hst
      refine ⟨hP', ?_⟩
      rw [List.length_append, List.length_singleton]
      omega
  exact hs.2

/-! ## Parties -/

/-- When every step is one of a party or leaves the party as it is, a run is one of the party. -/
theorem Run.project {S' L' : Type*} {B : Lts S' L'} {f : S → S'} {g : L → Option L'} {ls : List L}
    {s : S} (hr : A.Run ls s) (init : ∀ s ∈ A.init, f s ∈ B.init)
    (step : ∀ ls s l s', A.Run ls s → A.next s l = some s' →
      f s' = f s ∧ g l = none ∨ ∃ l', g l = some l' ∧ B.next (f s) l' = some (f s')) :
    B.Run (ls.filterMap g) (f s) := by
  induction hr with
  | nil hs => exact .nil (init _ hs)
  | @snoc ls s s' l hr hst ih =>
    rw [List.filterMap_append]
    rcases step ls s l s' hr hst with ⟨hf, hg⟩ | ⟨l', hg, hst'⟩
    · rw [hf]
      simpa [hg] using ih
    · simpa [hg] using ih.snoc hst'

/-! ## Guarded systems -/

variable (A) in
/-- The system restricted to the steps which meet the condition `C`. -/
def guard (C : S → L → Prop) [∀ s l, Decidable (C s l)] : Lts S L where
  init := A.init
  next s l := if C s l then A.next s l else none

/-- A step of the restricted system is a step meeting the condition. -/
theorem guard_next_iff {C : S → L → Prop} [∀ s l, Decidable (C s l)] {s s' : S} {l : L} :
    (A.guard C).next s l = some s' ↔ C s l ∧ A.next s l = some s' := by
  simp [guard]

/-- A run of the restricted system is a run of the system. -/
theorem Run.of_guard {C : S → L → Prop} [∀ s l, Decidable (C s l)] {ls : List L} {s : S}
    (hr : (A.guard C).Run ls s) : A.Run ls s := by
  induction hr with
  | nil hs => exact .nil hs
  | snoc _ hst ih => exact .snoc ih (guard_next_iff.1 hst).2

/-- The condition on the steps can be weakened. -/
theorem Run.guard_mono {C D : S → L → Prop} [∀ s l, Decidable (C s l)] [∀ s l, Decidable (D s l)]
    (hCD : ∀ s l, C s l → D s l) {ls : List L} {s : S} (hr : (A.guard C).Run ls s) :
    (A.guard D).Run ls s := by
  induction hr with
  | nil hs => exact .nil hs
  | snoc _ hst ih =>
    obtain ⟨hC, hst⟩ := guard_next_iff.1 hst
    exact .snoc ih (guard_next_iff.2 ⟨hCD _ _ hC, hst⟩)

/-- Of two conditions on the steps, the first one can be dropped. -/
theorem Run.of_guard_guard {C D : S → L → Prop} [∀ s l, Decidable (C s l)]
    [∀ s l, Decidable (D s l)] {ls : List L} {s : S} (hr : ((A.guard C).guard D).Run ls s) :
    (A.guard D).Run ls s := by
  induction hr with
  | nil hs => exact .nil hs
  | snoc _ hst ih =>
    obtain ⟨hD, hst⟩ := guard_next_iff.1 hst
    exact .snoc ih (guard_next_iff.2 ⟨hD, (guard_next_iff.1 hst).2⟩)

/-! ## Computing runs -/

variable (A) in
/-- The state that the labels lead to from `s`, if they can all be taken. -/
def exec (s : S) : List L → Option S
  | [] => some s
  | l :: ls => (A.next s l).bind fun s' => exec s' ls

/-- What is computed from the end of a run is a longer run. -/
theorem Run.exec {ks ls : List L} {s s' : S} (hr : A.Run ks s) (h : A.exec s ls = some s') :
    A.Run (ks ++ ls) s' := by
  induction ls generalizing ks s with
  | nil =>
    obtain rfl : s = s' := Option.some.inj h
    rwa [List.append_nil]
  | cons l ls ih =>
    obtain ⟨t, ht, h⟩ := Option.bind_eq_some_iff.1 h
    have := ih (hr.snoc ht) h
    rwa [List.append_assoc, List.singleton_append] at this

/-- What is computed from an initial state is a run. -/
theorem run_of_exec {ls : List L} {s s' : S} (hs : s ∈ A.init) (h : A.exec s ls = some s') :
    A.Run ls s' :=
  (Run.nil hs).exec h

end Lts

end RealtimeTests
