import RealtimeTests.Text

/-!
# Formatted input

`sscanf` of the C library, for a 64-bit `unsigned long` and the conversions `%s`, `%u` and `%lf`.
Conversions skip the white space before them, and white space in a format stands for any amount of
it. What a `double` is, and how it is read, is left open.

`sscanf` gives the conversions made, in order, of which the function of the C library returns the
number.
-/

namespace RealtimeTests.Scanf

open Text

/-- The directives of a format. -/
inductive Directive
  /-- White space. -/
  | space
  /-- A character, which is matched as it is. -/
  | char (c : Char)
  /-- `%s`. -/
  | string
  /-- `%u`. -/
  | unsigned
  /-- `%lf`. -/
  | double
  deriving DecidableEq

/-- The directives that a format has. -/
def directives : List Char → List Directive
  | '%' :: 's' :: cs => .string :: directives cs
  | '%' :: 'u' :: cs => .unsigned :: directives cs
  | '%' :: 'l' :: 'f' :: cs => .double :: directives cs
  | c :: cs => (if isspace c then .space else .char c) :: directives cs
  | [] => []

/-- What a conversion stores. An `unsigned int` is its value. -/
inductive Arg (T : Type*)
  | string (w : List Char)
  | unsigned (n : ℕ)
  | double (x : T)

variable {T : Type*} (scanDouble : List Char → Option (T × List Char))

/-- The conversions made, up to the first directive that fails. -/
def sscanf : List Directive → List Char → List (Arg T)
  | [], _ => []
  | .space :: ds, str => sscanf ds (str.dropWhile isspace)
  | .char c :: ds, str => if str.head? = some c then sscanf ds str.tail else []
  | .string :: ds, str =>
    let str := str.dropWhile isspace
    let w := str.takeWhile fun c => !isspace c
    if w = [] then [] else .string w :: sscanf ds (str.dropWhile fun c => !isspace c)
  | .unsigned :: ds, str =>
    if digitRun (signed str).2 = [] then []
    else .unsigned ((strtoul 64 str).1.toNat % 2 ^ 32) :: sscanf ds (strtoul 64 str).2
  | .double :: ds, str =>
    match scanDouble (str.dropWhile isspace) with
    | none => []
    | some (x, str) => .double x :: sscanf ds str

/-- What is stored is a string which is not empty and has no white space, or fits an
    `unsigned int`. -/
def Arg.Ok : Arg T → Prop
  | .string w => w ≠ [] ∧ ∀ c ∈ w, isspace c = false
  | .unsigned n => n < 2 ^ 32
  | .double _ => True

theorem ok_of_mem_sscanf {ds : List Directive} {str : List Char} :
    ∀ a ∈ sscanf scanDouble ds str, a.Ok := by
  induction ds generalizing str with
  | nil => exact fun _ h => absurd h List.not_mem_nil
  | cons d ds ih =>
    cases d with
    | space => exact ih
    | char c =>
      rw [sscanf]
      split_ifs
      · exact ih
      · exact fun _ h => absurd h List.not_mem_nil
    | string =>
      rw [sscanf]
      split_ifs with hne
      · exact fun _ h => absurd h List.not_mem_nil
      · refine List.forall_mem_cons.2 ⟨⟨hne, fun c hc => ?_⟩, ih⟩
        simpa using List.mem_takeWhile_imp hc
    | unsigned =>
      rw [sscanf]
      split_ifs
      · exact fun _ h => absurd h List.not_mem_nil
      · exact List.forall_mem_cons.2 ⟨Nat.mod_lt _ (by decide), ih⟩
    | double =>
      rw [sscanf]
      split
      · exact fun _ h => absurd h List.not_mem_nil
      · exact List.forall_mem_cons.2 ⟨trivial, ih⟩

end RealtimeTests.Scanf
