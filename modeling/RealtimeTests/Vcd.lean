import RealtimeTests.Strtok
import RealtimeTests.Text

/-!
# Value change dumps

A value change dump is a text of words separated by white space. It declares variables, each with
an identifier code and a name, and then tells, in order of time, which variable changes to which
value.

* `read`: the declared names, and the changes, each with its time and the number of its variable.
* `digits`: an identifier code for every number. Different numbers have different codes.
* `Spells`: the words that a text is written with.
* `read_of_spells`: a dump which is written word by word is read as it is meant.
-/

namespace RealtimeTests.Vcd

open Text Strtok

/-- A word of a text. -/
abbrev Word := List Char

/-- A word is not empty and has no white space. -/
def IsWord (w : Word) : Prop := w ≠ [] ∧ ∀ c ∈ w, isspace c = false

/-- A variable. -/
structure Var where
  id : Word
  name : Word

/-- What follows the declarations. -/
inductive Item
  | time (t : Word)
  | change (id value : Word)

/-! ## Reading -/

/-- The variables declared, and the words after the declarations. -/
def declarations : List Word → List Var × List Word
  | [] => ([], [])
  | w :: ws =>
    if w = "$enddefinitions".toList then ([], ws.tail)
    else if w = "$var".toList then
      match ws with
      | _ :: _ :: id :: name :: ws => (⟨id, name⟩ :: (declarations ws).1, (declarations ws).2)
      | _ => ([], [])
    else declarations ws

/-- A scalar value is a character in front of the identifier code, and a vector is a word of its
    own which begins with `b`. -/
def items : List Word → List Item
  | [] => []
  | w :: ws =>
    match w with
    | '#' :: t => .time t :: items ws
    | 'b' :: value =>
      match ws with
      | id :: ws => .change id value :: items ws
      | [] => []
    | c :: id => .change id [c] :: items ws
    | [] => items ws

/-- The changes, each with the last time before it. -/
def history : Word → List Item → List (Word × Word × Word)
  | _, [] => []
  | _, .time t :: is => history t is
  | now, .change id value :: is => (now, id, value) :: history now is

/-- The names of the variables, and the changes with the number of the variable, which is that of
    no variable when its identifier code is not declared. -/
def read (text : List Char) : List Word × List (Word × ℕ × Word) :=
  let (vars, ws) := declarations (tokens isspace text)
  (vars.map Var.name, (history [] (items ws)).map fun (t, id, value) =>
    (t, (vars.map Var.id).idxOf id, value))

/-! ## Words -/

/-- A fixed text is checked by its characters. -/
theorem isspace_of_all {w : Word} (h : w.all (fun c => !isspace c) = true) :
    ∀ c ∈ w, isspace c = false := by
  simpa using h

theorem isWord_of_all {w : Word} (hne : w ≠ []) (h : w.all (fun c => !isspace c) = true) :
    IsWord w :=
  ⟨hne, isspace_of_all h⟩

theorem IsWord.cons {c : Char} (hc : isspace c = false) {w : Word}
    (hw : ∀ c ∈ w, isspace c = false) : IsWord (c :: w) :=
  ⟨List.cons_ne_nil _ _, List.forall_mem_cons.2 ⟨hc, hw⟩⟩

theorem IsWord.append {w u : Word} (hw : IsWord w) (hu : ∀ c ∈ u, isspace c = false) :
    IsWord (w ++ u) :=
  ⟨List.append_ne_nil_of_left_ne_nil hw.1 _,
    fun c hc => (List.mem_append.1 hc).elim (hw.2 c) (hu c)⟩

/-- A text is seen by its words, whatever follows it. -/
def Spells (text : List Char) (ws : List Word) : Prop :=
  ∀ rest, tokens isspace (text ++ rest) = ws ++ tokens isspace rest

namespace Spells

theorem nil : Spells [] [] := fun _ => rfl

theorem append {text text' : List Char} {ws ws' : List Word} (h : Spells text ws)
    (h' : Spells text' ws') : Spells (text ++ text') (ws ++ ws') := by
  intro rest
  rw [List.append_assoc, h, h', List.append_assoc]

/-- A text that ends with white space. -/
theorem ended {text : List Char} (hlast : ∀ c ∈ text.getLast?, isspace c = true) {ws : List Word}
    (hws : tokens isspace text = ws) : Spells text ws := by
  intro rest
  subst hws
  rcases List.eq_nil_or_concat text with rfl | ⟨text, c, rfl⟩
  · rw [tokens_nil, List.nil_append]
    rfl
  · rw [List.concat_eq_append] at hlast ⊢
    have hc := hlast c List.getLast?_concat
    rw [List.append_assoc, List.singleton_append, tokens_append hc, tokens_append hc, tokens_nil,
      List.append_nil]

theorem word {w : Word} (hw : IsWord w) {c : Char} (hc : isspace c = true) :
    Spells (w ++ [c]) [w] := by
  refine ended (fun d hd => ?_) ?_
  · rw [List.getLast?_concat] at hd
    cases hd
    exact hc
  · rw [tokens_append hc, tokens_word hw.1 hw.2, tokens_nil, List.append_nil]

/-- A word in front of a text. -/
theorem cons {w : Word} (hw : IsWord w) {c : Char} (hc : isspace c = true) {text : List Char}
    {ws : List Word} (h : Spells text ws) : Spells (w ++ c :: text) (w :: ws) := by
  rw [← List.singleton_append, ← List.append_assoc]
  exact (word hw hc).append h

theorem flatMap {α : Type*} {l : List α} {text : α → List Char} {ws : α → List Word}
    (h : ∀ x ∈ l, Spells (text x) (ws x)) : Spells (l.flatMap text) (l.flatMap ws) := by
  induction l with
  | nil => exact nil
  | cons x l ih =>
    exact (h x List.mem_cons_self).append (ih fun y hy => h y (List.mem_cons_of_mem _ hy))

theorem tokens_eq {text : List Char} {ws : List Word} (h : Spells text ws) :
    tokens isspace text = ws := by
  rw [← List.append_nil text, h, tokens_nil, List.append_nil]

end Spells

/-! ## Identifier codes -/

/-- The digits of a number to the base of 94, the printable characters, from the last one. -/
def digits (n : ℕ) : Word :=
  Char.ofNat (n % 94 + 33) :: if n / 94 = 0 then [] else digits (n / 94)

theorem digits_ne_nil (n : ℕ) : digits n ≠ [] := by
  rw [digits]
  exact List.cons_ne_nil _ _

theorem toNat_ofNat_digit (d : ℕ) : (Char.ofNat (d % 94 + 33)).toNat = d % 94 + 33 := by
  have hvalid : (d % 94 + 33).isValidChar := .inl (by omega)
  rw [Char.ofNat, dif_pos hvalid]
  rfl

/-- A digit is printable. -/
theorem printable_of_mem_digits {n : ℕ} {c : Char} (hc : c ∈ digits n) :
    33 ≤ c.toNat ∧ c.toNat ≤ 126 := by
  induction n using Nat.strong_induction_on with
  | _ n ih =>
    rw [digits, List.mem_cons] at hc
    rcases hc with rfl | hc
    · rw [toNat_ofNat_digit]
      omega
    · split_ifs at hc with hdiv
      · cases hc
      · exact ih (n / 94) (Nat.div_lt_self (by omega) (by decide)) hc

/-- A printable character is not white space. -/
theorem isspace_of_printable {c : Char} (hc : 33 ≤ c.toNat) : isspace c = false := by
  rw [← Bool.not_eq_true]
  intro hs
  simp only [isspace, Bool.or_eq_true, decide_eq_true_eq] at hs
  rcases hs with ((((rfl | rfl) | rfl) | rfl) | rfl) | rfl <;> exact absurd hc (by decide)

theorem isWord_digits (n : ℕ) : IsWord (digits n) :=
  ⟨digits_ne_nil n, fun _ hc => isspace_of_printable (printable_of_mem_digits hc).1⟩

/-- Different numbers have different identifier codes. -/
theorem digits_injective : Function.Injective digits := by
  intro n
  induction n using Nat.strong_induction_on with
  | _ n ih =>
    intro m heq
    rw [digits, digits.eq_def m, List.cons.injEq] at heq
    obtain ⟨hlast, hrest⟩ := heq
    have hmod : n % 94 = m % 94 := by
      have := congrArg Char.toNat hlast
      rw [toNat_ofNat_digit, toNat_ofNat_digit] at this
      omega
    have hdiv : n / 94 = m / 94 := by
      split_ifs at hrest with hn hm hm
      · rw [hn, hm]
      · exact absurd hrest.symm (digits_ne_nil _)
      · exact absurd hrest (digits_ne_nil _)
      · exact ih (n / 94) (Nat.div_lt_self (by omega) (by decide)) hrest
    rw [← Nat.div_add_mod n 94, ← Nat.div_add_mod m 94, hmod, hdiv]

/-! ## Writing -/

/-- The words of an item. -/
def Item.words : Item → List Word
  | .time t => ['#' :: t]
  | .change id value => if value.length = 1 then [value ++ id] else ['b' :: value, id]

/-- A value is not empty, and is not taken for something else in front of an identifier code. -/
def IsValue (value : Word) : Prop := value ≠ [] ∧ '#' ∉ value ∧ 'b' ∉ value

/-- The value of a change is one. -/
def Item.Ok : Item → Prop
  | .time _ => True
  | .change _ value => IsValue value

/-- A scalar. -/
theorem items_scalar {c : Char} (htime : c ≠ '#') (hvector : c ≠ 'b') (id : Word) (ws : List Word) :
    items ((c :: id) :: ws) = .change id [c] :: items ws := by
  rw [items.eq_def]
  split
  · cases ‹_›
  · rename_i w ws' heq
    obtain ⟨rfl, rfl⟩ := List.cons.inj heq
    split
    · exact absurd (List.cons.inj ‹_›).1 htime
    · exact absurd (List.cons.inj ‹_›).1 hvector
    · obtain ⟨rfl, rfl⟩ := List.cons.inj ‹_ = _›
      rfl
    · cases ‹_›

/-- Items are read from their words. -/
theorem items_words {is : List Item} (his : ∀ i ∈ is, i.Ok) :
    items (is.flatMap Item.words) = is := by
  induction is with
  | nil => rfl
  | cons i is ih =>
    have ih := ih fun j hj => his j (List.mem_cons_of_mem _ hj)
    rw [List.flatMap_cons]
    cases i with
    | time t => exact congrArg _ ih
    | change id value =>
      obtain ⟨hne, htime, hvector⟩ := his _ List.mem_cons_self
      rw [Item.words]
      split_ifs with hlen
      · -- A scalar.
        obtain ⟨c, rfl⟩ := List.length_eq_one_iff.1 hlen
        rw [List.mem_singleton] at htime hvector
        rw [List.singleton_append, List.singleton_append,
          items_scalar (Ne.symm htime) (Ne.symm hvector), ih]
      · exact congrArg _ ih

/-- Changes after each other have the time before them. -/
theorem history_changes (now : Word) {α : Type*} (l : List α) (id value : α → Word)
    (is : List Item) :
    history now (l.map (fun x => .change (id x) (value x)) ++ is) =
      l.map (fun x => (now, id x, value x)) ++ history now is := by
  induction l with
  | nil => rfl
  | cons x l ih => exact congrArg _ ih

/-- Words which do not declare anything are skipped. -/
theorem declarations_append {us : List Word}
    (hus : ∀ u ∈ us, u ≠ "$enddefinitions".toList ∧ u ≠ "$var".toList) (ws : List Word) :
    declarations (us ++ ws) = declarations ws := by
  induction us with
  | nil => rfl
  | cons u us ih =>
    obtain ⟨hend, hvar⟩ := hus u List.mem_cons_self
    rw [List.cons_append, declarations.eq_def]
    dsimp only
    rw [if_neg hend, if_neg hvar]
    exact ih fun v hv => hus v (List.mem_cons_of_mem _ hv)

/-- The words of a declaration: what the variable is like, the variable, and words up to the next
    declaration. -/
def Var.words (type size : Word) (us : List Word) (v : Var) : List Word :=
  "$var".toList :: type :: size :: v.id :: v.name :: us

/-- Variables are read from their declarations. -/
theorem declarations_vars {us : List Word}
    (hus : ∀ u ∈ us, u ≠ "$enddefinitions".toList ∧ u ≠ "$var".toList) (type size : Word)
    (vars : List Var) (ws : List Word) :
    declarations (vars.flatMap (Var.words type size us) ++ ws) =
      (vars ++ (declarations ws).1, (declarations ws).2) := by
  induction vars with
  | nil => rfl
  | cons v vars ih =>
    rw [List.flatMap_cons, List.append_assoc, Var.words]
    simp only [List.cons_append]
    rw [declarations.eq_def]
    dsimp only
    rw [if_neg (by decide), if_pos rfl, declarations_append hus, ih]

/-- A variable is found by its identifier code. -/
theorem idxOf_id {vars : List Var} (hvars : (vars.map Var.id).Nodup) {i : ℕ} {id : Word}
    (hid : (vars.map Var.id)[i]? = some id) : (vars.map Var.id).idxOf id = i := by
  obtain ⟨hi, rfl⟩ := List.getElem?_eq_some_iff.1 hid
  exact hvars.idxOf_getElem i hi

/-- A dump that is written word by word is read as its variables and items. -/
theorem read_of_spells {text : List Char} {head us mid : List Word} {vars : List Var}
    {is : List Item} {type size endWord : Word}
    (hskipped : ∀ u ∈ head ++ us ++ mid, u ≠ "$enddefinitions".toList ∧ u ≠ "$var".toList)
    (his : ∀ i ∈ is, i.Ok)
    (h : Spells text (head ++ vars.flatMap (Var.words type size us) ++
      (mid ++ "$enddefinitions".toList :: endWord :: is.flatMap Item.words))) :
    read text = (vars.map Var.name, (history [] is).map fun (t, id, value) =>
      (t, (vars.map Var.id).idxOf id, value)) := by
  rw [List.forall_mem_append, List.forall_mem_append] at hskipped
  obtain ⟨⟨hhead, hus⟩, hmid⟩ := hskipped
  have hdeclarations : declarations (tokens isspace text) = (vars, is.flatMap Item.words) := by
    have hend : declarations ("$enddefinitions".toList :: endWord :: is.flatMap Item.words) =
        ([], is.flatMap Item.words) := by
      rw [declarations.eq_def]
      dsimp only
      rw [if_pos rfl, List.tail_cons]
    rw [h.tokens_eq, List.append_assoc, declarations_append hhead, declarations_vars hus,
      declarations_append hmid, hend, List.append_nil]
  rw [read, hdeclarations]
  dsimp only
  rw [items_words his]

end RealtimeTests.Vcd
