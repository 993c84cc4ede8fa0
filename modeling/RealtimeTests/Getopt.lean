import Mathlib.Data.List.Basic
import Mathlib.Tactic

/-!
# Options

`getopt` of the C library goes through the words of an argument vector, without the name of the
program. A word which begins with `-` has options, each of which is a character of the option
string; one which takes an argument has it in the rest of the word, or in the next word. Other
words are operands, and no option is looked for after the word `--`.

* `getopt`: the options that are found, in order.
* `effective`: the argument of the last occurrence of an option.
* `others`: the words, without the arguments of some options.
-/

namespace RealtimeTests.Getopt

/-- A word of an argument vector. -/
abbrev Word := List Char

/-- An option that is found, with its argument if it takes one. What is not an option is found as
    `'?'`, and an option without its argument as `':'`. -/
abbrev Opt := Char × Option Word

variable (optstring : List Char)

/-- A character is an option. -/
def isOption (c : Char) : Bool := c ∈ optstring && c ≠ ':' && c ≠ ';'

/-- A character is an option which takes an argument. -/
def takesArg (c : Char) : Bool :=
  isOption optstring c && (optstring.dropWhile (· ≠ c)).tail.head? = some ':'

/-- The options of a word after its `-`, and the option whose argument is the next word. -/
def cluster : List Char → List Opt × Option Char
  | [] => ([], none)
  | c :: cs =>
    if takesArg optstring c then
      match cs with
      | [] => ([], some c)
      | _ :: _ => ([(c, some cs)], none)
    else
      let (opts, pending) := cluster cs
      ((if isOption optstring c then c else '?', none) :: opts, pending)

/-- A word: its options, and the option whose argument is the next word. The word `--` ends the
    options. -/
def word : Word → Option (List Opt × Option Char)
  | '-' :: c :: cs => if c = '-' ∧ cs = [] then none else some (cluster optstring (c :: cs))
  | _ => some ([], none)

/-- The options of the words, the first of which may be the argument of the option before. -/
def getopt : Option Char → List Word → List Opt
  | none, [] => []
  | some _, [] => [(':', none)]
  | some c, arg :: ws => (c, some arg) :: getopt none ws
  | none, w :: ws =>
    match word optstring w with
    | none => []
    | some (opts, pending) => opts ++ getopt pending ws

/-- The argument of the last occurrence of an option. -/
def effective (c : Char) (ws : List Word) : Option Word :=
  ((getopt optstring none ws).filter (·.1 = c)).getLast?.bind Prod.snd

/-- What is expected after the words, unless the options have ended. -/
def after : Option Char → List Word → Option (Option Char)
  | pending, [] => some pending
  | some _, _ :: ws => after none ws
  | none, w :: ws => (word optstring w).bind fun (_, pending) => after pending ws

/-- The options of a word after its `-`, without an argument of one of the given options. -/
def otherOptions (chars : List Char) : List Char → List Char
  | [] => []
  | c :: cs =>
    if takesArg optstring c then if c ∈ chars then [c] else c :: cs
    else c :: otherOptions chars cs

/-- A word without it. -/
def otherWord (chars : List Char) : Word → Word
  | '-' :: cs => '-' :: otherOptions optstring chars cs
  | w => w

/-- The words, but for the arguments of the given options. -/
def others (chars : List Char) : Option Char → List Word → List Word
  | _, [] => []
  | some c, arg :: ws => (if c ∈ chars then [] else arg) :: others chars none ws
  | none, w :: ws =>
    match word optstring w with
    | none => w :: ws
    | some (_, pending) => otherWord optstring chars w :: others chars pending ws

variable {optstring} {c : Char} {chars : List Char} {arg : Word} {pending : Option Char}
  {ws ws' : List Word}

/-- No option is the dash. -/
theorem word_arg (hc : takesArg optstring c = true) (hdash : c ≠ '-') :
    word optstring ['-', c] = some ([], some c) := by
  simp [word, cluster, hc, hdash]

theorem word_attached (hc : takesArg optstring c = true) (harg : arg ≠ []) :
    word optstring ('-' :: c :: arg) = some ([(c, some arg)], none) := by
  cases arg with
  | nil => exact absurd rfl harg
  | cons a as => simp [word, cluster, hc]

/-- The options of words which are complete are found first. -/
theorem getopt_append (h : after optstring pending ws = some none) (ws' : List Word) :
    getopt optstring pending (ws ++ ws') =
      getopt optstring pending ws ++ getopt optstring none ws' := by
  induction ws generalizing pending with
  | nil =>
    obtain rfl : pending = none := Option.some.inj h
    rfl
  | cons w ws ih =>
    cases pending with
    | some c => exact congrArg _ (ih h)
    | none =>
      rw [after] at h
      obtain ⟨⟨opts, pending⟩, hw, h⟩ := Option.bind_eq_some_iff.1 h
      simp only [List.cons_append, getopt, hw]
      rw [ih h, List.append_assoc]

theorem others_append (h : after optstring pending ws = some none) (ws' : List Word) :
    others optstring chars pending (ws ++ ws') =
      others optstring chars pending ws ++ others optstring chars none ws' := by
  induction ws generalizing pending with
  | nil =>
    obtain rfl : pending = none := Option.some.inj h
    rfl
  | cons w ws ih =>
    cases pending with
    | some c => exact congrArg _ (ih h)
    | none =>
      rw [after] at h
      obtain ⟨⟨opts, pending⟩, hw, h⟩ := Option.bind_eq_some_iff.1 h
      simp only [List.cons_append, others, hw]
      rw [ih h]

/-! ## Options with an argument in the next word -/

/-- The words of some options, with their arguments. -/
def separate (opts : List (Char × Word)) : List Word :=
  opts.flatMap fun (c, arg) => [['-', c], arg]

variable {opts : List (Char × Word)}

theorem separate_cons (o : Char × Word) (opts : List (Char × Word)) :
    separate (o :: opts) = ['-', o.1] :: o.2 :: separate opts := rfl

/-- They are found. -/
theorem getopt_separate
    (hopts : ∀ o ∈ opts, takesArg optstring o.1 = true ∧ o.1 ≠ '-') :
    getopt optstring none (separate opts) = opts.map fun o => (o.1, some o.2) := by
  induction opts with
  | nil => rfl
  | cons o opts ih =>
    have ho := hopts o List.mem_cons_self
    simp only [separate_cons, getopt, word_arg ho.1 ho.2, List.nil_append, List.map_cons]
    rw [ih fun o ho => hopts o (List.mem_cons_of_mem _ ho)]

/-- After words which are complete, they are the ones in effect. -/
theorem effective_separate (hws : after optstring none ws = some none)
    (hopts : ∀ o ∈ opts, takesArg optstring o.1 = true ∧ o.1 ≠ '-')
    (hnodup : (opts.map Prod.fst).Nodup) (hmem : (c, arg) ∈ opts) :
    effective optstring c (ws ++ separate opts) = some arg := by
  have hfilter : (opts.map fun o => (o.1, some o.2)).filter (·.1 = c) = [(c, some arg)] := by
    induction opts with
    | nil => exact absurd hmem List.not_mem_nil
    | cons o opts ih =>
      obtain ⟨d, a⟩ := o
      rw [List.map_cons, List.nodup_cons] at hnodup
      rw [List.map_cons, List.filter_cons]
      by_cases hd : d = c
      · subst hd
        have harg : a = arg := by
          rcases List.mem_cons.1 hmem with heq | hmem
          · exact (congrArg Prod.snd heq).symm
          · exact absurd (List.mem_map_of_mem hmem) hnodup.1
        have hrest : (opts.map fun o => (o.1, some o.2)).filter (·.1 = d) = [] := by
          refine List.filter_eq_nil_iff.2 fun o ho => ?_
          obtain ⟨o', ho', rfl⟩ := List.mem_map.1 ho
          exact fun heq => hnodup.1 (List.mem_map.2 ⟨o', ho', of_decide_eq_true heq⟩)
        rw [if_pos (by simp), hrest, harg]
      · have hmem' : (c, arg) ∈ opts := by
          rcases List.mem_cons.1 hmem with heq | hmem
          · exact absurd (congrArg Prod.fst heq).symm hd
          · exact hmem
        rw [if_neg (by simp [hd])]
        exact ih (fun o ho => hopts o (List.mem_cons_of_mem _ ho)) hnodup.2 hmem'
  rw [effective, getopt_append hws, getopt_separate hopts, List.filter_append, hfilter,
    List.getLast?_concat]
  rfl

end RealtimeTests.Getopt
