import Mathlib.Tactic

/-!
# Resources of a procedure

A procedure acquires resources, stores the pointers to them in variables, and releases them. It has
no meaning, and is `none`, when it reads a variable that it has not assigned, follows NULL or the
pointer to what it has released, or releases what it does not hold: so a procedure which has a
meaning and holds nothing at its end has released what it acquired, each once.
-/

namespace RealtimeTests.Resource

/-- What a procedure holds, and the pointers that it has assigned, the last one first. -/
structure Store (ρ φ : Type) where
  held : List ρ
  assigned : List (φ × Option ρ)

variable {ρ φ : Type} [DecidableEq ρ] [DecidableEq φ]

/-- Nothing is held, and no variable assigned. -/
def Store.empty {ρ φ : Type} : Store ρ φ := ⟨[], []⟩

/-- A procedure. -/
abbrev Proc (ρ φ α : Type) := StateT (Store ρ φ) Option α

/-- A resource is asked for: a pointer to it, or NULL. -/
def acquire (found : Bool) (r : ρ) : Proc ρ φ (Option ρ) := fun s =>
  if found then some (some r, { s with held := r :: s.held }) else some (none, s)

/-- A pointer is followed. -/
def deref (p : Option ρ) : Proc ρ φ Unit := fun s =>
  match p with
  | none => none
  | some r => if r ∈ s.held then some (⟨⟩, s) else none

/-- A resource is released. -/
def release (p : Option ρ) : Proc ρ φ Unit := fun s =>
  match p with
  | none => none
  | some r => if r ∈ s.held then some (⟨⟩, { s with held := s.held.erase r }) else none

/-- A resource is released, unless there is none. -/
def releaseAny (p : Option ρ) : Proc ρ φ Unit :=
  if p.isSome then release p else pure ⟨⟩

/-- A variable is assigned. -/
def assign (x : φ) (p : Option ρ) : Proc ρ φ Unit := fun s =>
  some (⟨⟩, { s with assigned := (x, p) :: s.assigned })

/-- A variable is read. -/
def readVar (x : φ) : Proc ρ φ (Option ρ) := fun s =>
  (s.assigned.lookup x).map (·, s)

/-! ## Execution, call by call -/

variable {α : Type} {f : Option ρ → Proc ρ φ α} {g : Unit → Proc ρ φ α} {s : Store ρ φ} {r : ρ}
  {p : Option ρ} {x : φ}

omit [DecidableEq ρ] [DecidableEq φ] in
theorem acquire_true_bind :
    (acquire true r >>= f) s = f (some r) { s with held := r :: s.held } := by
  simp only [bind, StateT.bind, acquire, if_true, Option.bind_some]

omit [DecidableEq ρ] [DecidableEq φ] in
theorem acquire_false_bind : (acquire false r >>= f) s = f none s := by
  simp only [bind, StateT.bind, acquire, Bool.false_eq_true, if_false, Option.bind_some]

omit [DecidableEq ρ] [DecidableEq φ] in
theorem assign_bind : (assign x p >>= g) s = g ⟨⟩ { s with assigned := (x, p) :: s.assigned } := by
  simp only [bind, StateT.bind, assign, Option.bind_some]

omit [DecidableEq φ] in
theorem deref_none_bind : (deref none >>= g) s = none := by
  simp only [bind, StateT.bind, deref, Option.bind_none]

omit [DecidableEq φ] in
theorem deref_bind_of_mem (hr : r ∈ s.held) : (deref (some r) >>= g) s = g ⟨⟩ s := by
  simp only [bind, StateT.bind, deref, if_pos hr, Option.bind_some]

omit [DecidableEq φ] in
theorem release_bind_of_mem (hr : r ∈ s.held) :
    (release (some r) >>= g) s = g ⟨⟩ { s with held := s.held.erase r } := by
  simp only [bind, StateT.bind, release, if_pos hr, Option.bind_some]

end RealtimeTests.Resource
