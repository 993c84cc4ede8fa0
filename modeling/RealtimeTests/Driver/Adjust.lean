import RealtimeTests.Getopt
import RealtimeTests.Driver.Config

/-!
# Adjusting the options

`bwi-client_server/main.c`: the value of an option which the driver forces is written where
`find_argv_to_adjust` finds the option, over what is there and not further.
-/

namespace RealtimeTests.Config

open Strtok Getopt

/-- `find_argv_to_adjust`: the place of the argument of the first string which begins with the
    option, or `NULL`. -/
def findArgvToAdjust (target_optchar : Char) (args : List Char) :
    List (Option ℕ) → Option (Option ℕ)
  | [] => none
  | none :: _ => some none
  | some arg :: argv => do
    if (← args[arg]?) = '-' then
      if (← args[arg + 1]?) = target_optchar then
        if (← args[arg + 2]?) = nul then argv.head?
        else some (some (arg + 2))
      else findArgvToAdjust target_optchar args argv
    else findArgvToAdjust target_optchar args argv

/-- The value of an option is adjusted:
    `snprintf(argv_to_adjust, strlen(argv_to_adjust), ...)`. -/
def adjust (target_optchar : Char) (text : List Char) (argv : List (Option ℕ))
    (args : List Char) : Option (List Char) := do
  match ← findArgvToAdjust target_optchar args argv with
  | none => some args
  | some argv_to_adjust =>
    let old ← readStr args argv_to_adjust
    some (write args argv_to_adjust (snprintf old.length text))

/-! ## The strings -/

/-- A string begins with an option. -/
abbrev Names (c : Char) (w : Word) : Prop := w.take 2 = ['-', c]

/-- A string after `snprintf` has written over it. -/
def overwrite (text w : Word) : Word := text.take (w.length - 1)

/-- The strings after the value of an option has been adjusted. -/
def adjustStrs (c : Char) (text : Word) : List Word → List Word
  | [] => []
  | w :: ws =>
    if Names c w then
      if w.length = 2 then w :: ws.modifyHead (overwrite text)
      else (w.take 2 ++ overwrite text (w.drop 2)) :: ws
    else w :: adjustStrs c text ws

variable {c : Char} {text : Word} {args : List Char} {strs : List Word} {q : ℕ}

theorem findArgvToAdjust_cons (hc : c ≠ nul) {s : Word} (hs : StrAt args q s)
    (argv : List (Option ℕ)) :
    findArgvToAdjust c args (some q :: argv) =
      if Names c s then if s.length = 2 then argv.head? else some (some (q + 2))
      else findArgvToAdjust c args argv := by
  have hget (i : ℕ) (hi : i ≤ s.length) := hs.getElem?_add hi
  rcases s with _ | ⟨a, _ | ⟨b, s⟩⟩
  · have h₀ : args[q]? = some nul := hget 0 le_rfl
    simp [findArgvToAdjust, h₀, show nul ≠ '-' by decide]
  · have h₀ : args[q]? = some a := hget 0 (by simp)
    have h₁ : args[q + 1]? = some nul := hget 1 (by simp)
    simp [findArgvToAdjust, h₀, h₁, hc.symm]
  · have h₀ : args[q]? = some a := hget 0 (by simp)
    have h₁ : args[q + 1]? = some b := hget 1 (by simp)
    obtain ⟨d, h₂, hnul⟩ : ∃ d, args[q + 2]? = some d ∧ (d = nul ↔ s = []) := by
      have h₂ := hget 2 (by simp)
      cases s with
      | nil => exact ⟨nul, h₂, by simp⟩
      | cons d s =>
        refine ⟨d, h₂, ?_⟩
        have hd : d ≠ nul := by
          rintro rfl
          exact hs.1 (by simp)
        simp [hd]
    by_cases ha : a = '-'
    · by_cases hb : b = c <;> simp [findArgvToAdjust, h₀, h₁, h₂, hnul, ha, hb]
    · simp [findArgvToAdjust, h₀, ha]

/-- What `snprintf` makes of the end of a string. -/
theorem strAt_snprintf {pre old : Word} (h : StrAt args q (pre ++ old)) (htext : nul ∉ text) :
    StrAt (write args (q + pre.length) (snprintf old.length text)) q
      (pre ++ overwrite text old) := by
  by_cases hold : old.length = 0
  · obtain rfl : old = [] := List.length_eq_zero_iff.1 hold
    simpa [snprintf, overwrite, write] using h
  · rw [snprintf, if_neg hold]
    exact h.write_self fun hmem => htext (List.mem_of_mem_take hmem)

/-- Strings after what `snprintf` writes are as they were. -/
theorem strsAt_write {p lo : ℕ} {qs : List ℕ} (h : StrsAt args lo qs strs) {n : ℕ}
    (hn : p + n ≤ lo) {lo' : ℕ} (hlo : lo' ≤ lo) (text : Word) :
    StrsAt (write args p (snprintf n text)) lo' qs strs := by
  refine h.frame (fun _ => hlo) fun r s hr hs => hs.write_of_le ?_
  have := length_snprintf_le n text
  omega

/-- The strings of `argv` are adjusted. -/
theorem strsAt_adjust (hc : c ≠ nul) (htext : nul ∉ text) {lo : ℕ} {qs : List ℕ}
    (h : StrsAt args lo qs strs) :
    ∃ args', adjust c text (qs.map some ++ [none]) args = some args' ∧
      StrsAt args' lo qs (adjustStrs c text strs) ∧
      ∀ r s, r + s.length < lo → StrAt args r s → StrAt args' r s := by
  induction strs generalizing lo qs with
  | nil =>
    cases qs with
    | nil => exact ⟨args, rfl, h, fun _ _ _ hs => hs⟩
    | cons q qs => exact absurd h id
  | cons s strs ih =>
    cases qs with
    | nil => exact absurd h id
    | cons q qs =>
      obtain ⟨hlo, hs, hrest⟩ := h
      rw [adjust, List.map_cons, List.cons_append, findArgvToAdjust_cons hc hs, adjustStrs]
      by_cases hnames : Names c s
      · rw [if_pos hnames, if_pos hnames]
        by_cases htwo : s.length = 2
        · -- The argument is the next string.
          rw [if_pos htwo, if_pos htwo]
          cases strs with
          | nil =>
            cases qs with
            | nil => exact ⟨args, rfl, ⟨hlo, hs, hrest⟩, fun _ _ _ hs => hs⟩
            | cons r qs => exact absurd hrest id
          | cons arg strs =>
            cases qs with
            | nil => exact absurd hrest id
            | cons r qs =>
              obtain ⟨hr, harg, hrest⟩ := hrest
              have hlen := harg.lt_length
              refine ⟨write args r (snprintf arg.length text), ?_, ⟨hlo, ?_, hr, ?_, ?_⟩,
                fun p t ht hpt => ?_⟩
              · simp [harg.readStr_eq]
              · exact hs.write_of_lt (by omega) (by omega)
              · have hself : StrAt args r ([] ++ arg) := harg
                exact strAt_snprintf hself htext
              · refine strsAt_write hrest (by omega) ?_ text
                simp only [overwrite, List.length_take]
                omega
              · exact hpt.write_of_lt (by omega) (by omega)
        · -- The argument is the rest of the string.
          rw [if_neg htwo, if_neg htwo]
          have hsplit : s = s.take 2 ++ s.drop 2 := (List.take_append_drop 2 s).symm
          have htake : (s.take 2).length = 2 := by rw [hnames]; rfl
          rw [hsplit] at hs
          have hlen := hs.lt_length
          have hold := hs.drop
          rw [htake] at hold
          have hdrop : 2 ≤ s.length := by
            rw [List.length_take] at htake
            omega
          simp only [List.length_append, htake, List.length_drop] at hlen
          refine ⟨write args (q + 2) (snprintf (s.drop 2).length text), ?_, ⟨hlo, ?_, ?_⟩,
            fun p t ht hpt => ?_⟩
          · simp [hold.readStr_eq]
          · have hself := strAt_snprintf hs htext
            rwa [htake] at hself
          · refine strsAt_write hrest ?_ ?_ text
            · rw [List.length_drop]
              omega
            · simp only [overwrite, List.length_append, htake, List.length_take, List.length_drop]
              omega
          · exact hpt.write_of_lt (by omega) (by omega)
      · rw [if_neg hnames, if_neg hnames]
        obtain ⟨args', hadjust, hstrs, hframe⟩ := ih hrest
        exact ⟨args', hadjust, ⟨hlo, hframe q s (by omega) hs, hstrs⟩, fun p t ht hpt =>
          hframe p t (by omega) hpt⟩

/-! ## Where the driver finds an option -/

theorem not_names_of_notMem {w : Word} (hw : '-' ∉ w) : ¬Names c w := fun hnames =>
  hw (List.mem_of_mem_take (hnames ▸ List.mem_cons_self : '-' ∈ w.take 2))

theorem adjustStrs_of_not_names {w : Word} (hw : ¬Names c w) (ws : List Word) :
    adjustStrs c text (w :: ws) = w :: adjustStrs c text ws := if_neg hw

/-- An option alone: its argument is the next string. -/
theorem adjustStrs_arg (c : Char) (text : Word) (ws : List Word) :
    adjustStrs c text (['-', c] :: ws) = ['-', c] :: ws.modifyHead (overwrite text) :=
  (if_pos rfl).trans (if_pos rfl)

/-- An option with its argument. -/
theorem adjustStrs_attached (c : Char) (text : Word) {old : Word} (hold : old ≠ [])
    (ws : List Word) :
    adjustStrs c text (('-' :: c :: old) :: ws) = ('-' :: c :: overwrite text old) :: ws :=
  (if_pos rfl).trans (if_neg (by simpa using hold))

/-- What the strings before do not have is adjusted in the strings after. -/
theorem adjustStrs_append {ws : List Word} (hws : ∀ w ∈ ws, ¬Names c w) (ws' : List Word) :
    adjustStrs c text (ws ++ ws') = ws ++ adjustStrs c text ws' := by
  induction ws with
  | nil => rfl
  | cons w ws ih =>
    rw [List.cons_append, adjustStrs_of_not_names (hws w List.mem_cons_self),
      ih fun w hw => hws w (List.mem_cons_of_mem _ hw), List.cons_append]

/-- An option with its argument in the next string. -/
theorem adjustStrs_separate {opts opts' : List (Char × Word)}
    (hopts : ∀ o ∈ opts, o.1 ≠ c ∧ '-' ∉ o.2) (old : Word) :
    adjustStrs c text (separate (opts ++ (c, old) :: opts')) =
      separate (opts ++ (c, overwrite text old) :: opts') := by
  have hnames : ∀ w ∈ separate opts, ¬Names c w := by
    intro w hw
    obtain ⟨o, ho, hw⟩ := List.mem_flatMap.1 hw
    simp only [List.mem_cons, List.not_mem_nil, or_false] at hw
    rcases hw with rfl | rfl
    · simp [(hopts o ho).1]
    · exact not_names_of_notMem (hopts o ho).2
  have hsplit (arg : Word) : separate (opts ++ (c, arg) :: opts') =
      separate opts ++ ['-', c] :: arg :: separate opts' := by
    simp [separate]
  rw [hsplit, hsplit, adjustStrs_append hnames, adjustStrs_arg, List.modifyHead_cons]

/-- `getopt` reads the words up to the end, and the driver finds the given options where `getopt`
    does: a word which begins with one of them is the option, alone or with two or more characters
    of its argument. -/
def Plain (optstring chars : List Char) : Option Char → List Word → Prop
  | none, [] => True
  | some _, [] => False
  | some _, arg :: ws => (∀ c ∈ chars, ¬Names c arg) ∧ Plain optstring chars none ws
  | none, w :: ws =>
    match word optstring w with
    | none => False
    | some (_, pending) =>
      (∀ c ∈ chars, Names c w → w.length = 2 ∨ 4 ≤ w.length) ∧ Plain optstring chars pending ws

/-- A word of the line begins with the option. -/
def Named (c : Char) (ws : List Word) : Prop := ∃ w ∈ ws, Names c w

instance (c : Char) (ws : List Word) : Decidable (Named c ws) :=
  inferInstanceAs (Decidable (∃ w ∈ ws, Names c w))

instance decidablePlain (optstring chars : List Char) :
    ∀ pending ws, Decidable (Plain optstring chars pending ws)
  | none, [] => .isTrue trivial
  | some _, [] => .isFalse id
  | some _, arg :: ws =>
    have := List.decidableBAll (fun c => ¬Names c arg) chars
    have := decidablePlain optstring chars none ws
    inferInstanceAs (Decidable (_ ∧ _))
  | none, w :: ws =>
    match hw : word optstring w with
    | none => .isFalse (by simp [Plain, hw])
    | some (_, pending) =>
      have := List.decidableBAll (fun c => Names c w → w.length = 2 ∨ 4 ≤ w.length) chars
      have := decidablePlain optstring chars pending ws
      decidable_of_iff ((∀ c ∈ chars, Names c w → w.length = 2 ∨ 4 ≤ w.length) ∧
        Plain optstring chars pending ws) (by simp [Plain, hw])

variable {optstring chars : List Char} {pending : Option Char} {ws : List Word}

theorem named_cons {w : Word} : Named c (w :: ws) ↔ Names c w ∨ Named c ws := by
  simp only [Named, List.exists_mem_cons_iff]

theorem Plain.mono {chars' : List Char} (h : Plain optstring chars pending ws)
    (hchars : chars' ⊆ chars) : Plain optstring chars' pending ws := by
  induction ws generalizing pending with
  | nil => cases pending <;> exact h
  | cons w ws ih =>
    cases pending with
    | some d => exact ⟨fun c hc => h.1 c (hchars hc), ih h.2⟩
    | none =>
      rw [Plain] at h ⊢
      cases hw : word optstring w with
      | none =>
        rw [hw] at h
        exact h
      | some opts =>
        rw [hw] at h
        exact ⟨fun c hc => h.1 c (hchars hc), ih h.2⟩

/-- The words are complete. -/
theorem Plain.after_eq (h : Plain optstring chars pending ws) :
    after optstring pending ws = some none := by
  induction ws generalizing pending with
  | nil =>
    cases pending with
    | none => rfl
    | some d => exact absurd h id
  | cons w ws ih =>
    cases pending with
    | some d => exact ih h.2
    | none =>
      rw [Plain] at h
      cases hw : word optstring w with
      | none =>
        rw [hw] at h
        exact absurd h id
      | some opts =>
        rw [hw] at h
        rw [after, hw]
        exact ih h.2

/-- What adjusting an option does to the words of a line. -/
structure Adjusts (optstring all chars : List Char) (c : Char) (text : Word)
    (pending : Option Char) (ws : List Word) : Prop where
  plain : Plain optstring chars pending (adjustStrs c text ws)
  others : others optstring all pending (adjustStrs c text ws) = others optstring all pending ws
  named : ∀ d ∈ chars, Named d (adjustStrs c text ws) ↔ Named d ws
  append : Named c ws → ∀ ws', adjustStrs c text (ws ++ ws') = adjustStrs c text ws ++ ws'

/-- An option with an argument is adjusted. -/
theorem Plain.adjusts {all : List Char} (h : Plain optstring (c :: chars) pending ws)
    (harg : takesArg optstring c = true) (hdash : c ≠ '-') (hc : c ∉ chars) (hall : c ∈ all)
    (htext : text ≠ []) (hdigits : '-' ∉ text) :
    Adjusts optstring all chars c text pending ws := by
  have hover (old : Word) : '-' ∉ overwrite text old := fun hmem =>
    hdigits (List.mem_of_mem_take hmem)
  induction ws generalizing pending with
  | nil =>
    refine ⟨?_, rfl, fun _ _ => Iff.rfl, fun hnamed => ?_⟩
    · exact h.mono (List.subset_cons_self _ _)
    · simp [Named] at hnamed
  | cons w ws ih =>
    cases pending with
    | some d =>
      -- The argument of the option before.
      have hw := h.1 c List.mem_cons_self
      obtain ⟨hplain, hothers, hnamed, happend⟩ := ih h.2
      refine ⟨?_, ?_, fun d hd => ?_, fun hn ws' => ?_⟩
      · rw [adjustStrs_of_not_names hw]
        exact ⟨fun c hc => h.1 c (List.mem_cons_of_mem _ hc), hplain⟩
      · rw [adjustStrs_of_not_names hw]
        simp only [Getopt.others, hothers]
      · rw [adjustStrs_of_not_names hw, named_cons, named_cons, hnamed d hd]
      · rw [List.cons_append, adjustStrs_of_not_names hw, adjustStrs_of_not_names hw,
          happend ((named_cons.1 hn).resolve_left hw), List.cons_append]
    | none =>
      rw [Plain] at h
      cases hword : word optstring w with
      | none =>
        rw [hword] at h
        exact absurd h id
      | some opts =>
        obtain ⟨opts, pending⟩ := opts
        rw [hword] at h
        by_cases hw : Names c w
        · obtain ⟨old, rfl⟩ : ∃ old, w = '-' :: c :: old :=
            ⟨w.drop 2, by rw [← List.take_append_drop 2 w, hw]; rfl⟩
          have hother (d : Char) (hd : d ∈ chars) (old : Word) : ¬Names d ('-' :: c :: old) := by
            have : c ≠ d := fun heq => hc (heq ▸ hd)
            simpa using this
          cases old with
          | nil =>
            -- The argument is the next word.
            rw [word_arg harg hdash] at hword
            cases hword
            cases ws with
            | nil => exact absurd h.2 id
            | cons old ws =>
              have hadjust (ws' : List Word) : adjustStrs c text (['-', c] :: old :: ws') =
                  ['-', c] :: overwrite text old :: ws' := adjustStrs_arg ..
              refine ⟨?_, ?_, fun d hd => ?_, fun _ ws' => ?_⟩
              · rw [hadjust, Plain, word_arg harg hdash]
                exact ⟨fun d hd hn => absurd hn (hother d hd []),
                  fun d _ => not_names_of_notMem (hover old),
                  h.2.2.mono (List.subset_cons_self _ _)⟩
              · rw [hadjust, Getopt.others, Getopt.others, word_arg harg hdash]
                simp only [Getopt.others, if_pos hall]
              · have hold := h.2.1 d (List.mem_cons_of_mem _ hd)
                simp only [hadjust, named_cons, hold, not_names_of_notMem (hover old)]
              · rw [List.cons_append, List.cons_append, hadjust, hadjust]
                rfl
          | cons a old =>
            -- It is the rest of the word.
            rw [word_attached harg (List.cons_ne_nil a old)] at hword
            cases hword
            have hlong : 2 ≤ (a :: old).length := by
              rcases h.1 c List.mem_cons_self rfl with htwo | hfour
              · exact absurd htwo (by simp)
              · simpa using hfour
            have hne : overwrite text (a :: old) ≠ [] := by
              simp only [List.length_cons] at hlong
              simp only [overwrite, ne_eq, List.take_eq_nil_iff, htext, or_false, List.length_cons]
              omega
            have hadjust := adjustStrs_attached c text (List.cons_ne_nil a old)
            refine ⟨?_, ?_, fun d hd => ?_, fun _ ws' => ?_⟩
            · rw [hadjust, Plain, word_attached harg hne]
              exact ⟨fun d hd hn => absurd hn (hother d hd _),
                h.2.mono (List.subset_cons_self _ _)⟩
            · rw [hadjust, Getopt.others, Getopt.others, word_attached harg hne,
                word_attached harg (List.cons_ne_nil a old)]
              simp only [otherWord, otherOptions, if_pos harg, if_pos hall]
            · simp only [hadjust, named_cons, hother d hd]
            · rw [List.cons_append, hadjust, hadjust]
              rfl
        · obtain ⟨hplain, hothers, hnamed, happend⟩ := ih h.2
          refine ⟨?_, ?_, fun d hd => ?_, fun hn ws' => ?_⟩
          · rw [adjustStrs_of_not_names hw, Plain, hword]
            exact ⟨fun d hd => h.1 d (List.mem_cons_of_mem _ hd), hplain⟩
          · rw [adjustStrs_of_not_names hw, Getopt.others, Getopt.others, hword]
            simp only [hothers]
          · rw [adjustStrs_of_not_names hw, named_cons, named_cons, hnamed d hd]
          · rw [List.cons_append, adjustStrs_of_not_names hw, adjustStrs_of_not_names hw,
              happend ((named_cons.1 hn).resolve_left hw), List.cons_append]

/-! ## The options that are forced -/

/-- An option that the driver forces, with its placeholder on the command line. -/
structure Forced where
  optchar : Char
  placeholder : ℕ
  value : ℕ
  deriving DecidableEq

/-- The strings after all the options have been adjusted, one after the other. -/
def adjustAll (forced : List Forced) (ws : List Word) : List Word :=
  forced.foldl (fun ws o => adjustStrs o.optchar (decimal o.value) ws) ws

/-- The options that the driver forces are the ones in effect, and what is on the line is as it was
    but for their arguments. -/
structure InEffect (optstring : List Char) (forced : List Forced) (line argv : List Word) :
    Prop where
  value : ∀ o ∈ forced, effective optstring o.optchar argv = some (decimal o.value)
  others : others optstring (forced.map Forced.optchar) none line <+:
    others optstring (forced.map Forced.optchar) none argv

/-- The option at the end of the strings. -/
def Forced.appended (o : Forced) : Char × Word := (o.optchar, decimal o.placeholder)

/-- What becomes of it, after the words `ws` of the line. -/
def Forced.final (o : Forced) (ws : List Word) : Char × Word :=
  (o.optchar, if Named o.optchar ws then decimal o.placeholder
    else overwrite (decimal o.value) (decimal o.placeholder))

/-- The words of a line let an option be forced: they do not have it and its value is shorter than
    its placeholder, or its value is its placeholder. -/
def Forced.Fits (o : Forced) (ws : List Word) : Prop :=
  if Named o.optchar ws then o.value = o.placeholder
  else (decimal o.value).length < (decimal o.placeholder).length

theorem dash_notMem_decimal (n : ℕ) : '-' ∉ decimal n := fun hmem =>
  absurd (isDigit_of_mem_decimal hmem) (by decide)

theorem decimal_injective : Function.Injective decimal := fun m n heq => by
  rw [← Nat.ofDigitChars_ten_toDigits (n := m), ← Nat.ofDigitChars_ten_toDigits (n := n)]
  exact congrArg (Nat.ofDigitChars 10 · 0) heq

/-- A text which is as long as what it is written over is cut. -/
theorem overwrite_eq_iff (text : Word) {old : Word} (hold : old ≠ []) :
    overwrite text old = text ↔ text.length < old.length := by
  have := List.length_pos_iff.2 hold
  rw [overwrite, List.take_eq_self_iff]
  omega

/-- Each option is adjusted on the line when it is there, and at the end of the strings
    otherwise. -/
theorem Plain.adjustAll {all : List Char} {forced : List Forced} {opts : List (Char × Word)}
    (h : Plain optstring (forced.map Forced.optchar) none ws)
    (harg : ∀ o ∈ forced, takesArg optstring o.optchar = true ∧ o.optchar ≠ '-')
    (hall : ∀ o ∈ forced, o.optchar ∈ all)
    (hnodup : (opts.map Prod.fst ++ forced.map Forced.optchar).Nodup)
    (hopts : ∀ o ∈ opts, '-' ∉ o.2) :
    ∃ ws', Config.adjustAll forced (ws ++ separate (opts ++ forced.map Forced.appended)) =
        ws' ++ separate (opts ++ forced.map (·.final ws)) ∧
      after optstring none ws' = some none ∧
      others optstring all none ws' = others optstring all none ws := by
  induction forced generalizing ws opts with
  | nil => exact ⟨ws, rfl, h.after_eq, rfl⟩
  | cons o os ih =>
    have hnotin : o.optchar ∉ opts.map Prod.fst ∧ o.optchar ∉ os.map Forced.optchar := by
      rw [List.map_cons, List.nodup_middle, List.nodup_cons, List.mem_append, not_or] at hnodup
      exact hnodup.1
    have hnext (arg : Word) : ((opts ++ [(o.optchar, arg)]).map Prod.fst ++
        os.map Forced.optchar).Nodup := by
      simpa using hnodup
    have hdash (arg : Word) (harg : '-' ∉ arg) : ∀ o' ∈ opts ++ [(o.optchar, arg)],
        '-' ∉ o'.2 := by
      intro o' ho'
      rcases List.mem_append.1 ho' with ho' | ho'
      · exact hopts o' ho'
      · rwa [List.mem_singleton.1 ho']
    obtain ⟨hplain, hothers, hnamed, happend⟩ := h.adjusts (harg o List.mem_cons_self).1
      (harg o List.mem_cons_self).2 hnotin.2 (hall o List.mem_cons_self)
      (Nat.toDigits_ne_nil (n := o.value) (b := 10)) (dash_notMem_decimal _)
    have hos (o' : Forced) (ho' : o' ∈ os) := List.mem_cons_of_mem o ho'
    rw [Config.adjustAll, List.foldl_cons, ← Config.adjustAll]
    by_cases hn : Named o.optchar ws
    · obtain ⟨ws', hws', hafter, hothers'⟩ := ih hplain (fun o' ho' => harg o' (hos o' ho'))
        (fun o' ho' => hall o' (hos o' ho')) (hnext (decimal o.placeholder))
        (hdash _ (dash_notMem_decimal _))
      refine ⟨ws', ?_, hafter, hothers'.trans hothers⟩
      have hfinal : os.map (·.final (adjustStrs o.optchar (decimal o.value) ws)) =
          os.map (·.final ws) := List.map_congr_left fun o' ho' => by
        simp only [Forced.final, hnamed o'.optchar (List.mem_map_of_mem ho')]
      rw [happend hn]
      rw [hfinal] at hws'
      simpa [Forced.final, Forced.appended, hn] using hws'
    · obtain ⟨ws', hws', hafter, hothers'⟩ := ih (h.mono (List.subset_cons_self _ _))
        (fun o' ho' => harg o' (hos o' ho')) (fun o' ho' => hall o' (hos o' ho'))
        (hnext (overwrite (decimal o.value) (decimal o.placeholder)))
        (hdash _ fun hmem => dash_notMem_decimal _ (List.mem_of_mem_take hmem))
      refine ⟨ws', ?_, hafter, hothers'⟩
      have hskip : ∀ o' ∈ opts, o'.1 ≠ o.optchar ∧ '-' ∉ o'.2 := fun o' ho' =>
        ⟨fun heq => hnotin.1 (heq ▸ List.mem_map_of_mem ho'), hopts o' ho'⟩
      have hws : ∀ w ∈ ws, ¬Names o.optchar w := fun w hw hnames => hn ⟨w, hw, hnames⟩
      rw [adjustStrs_append hws, List.map_cons, Forced.appended, adjustStrs_separate hskip]
      simpa [Forced.final, hn] using hws'

/-- Where the driver finds the options as `getopt` does, they are in effect if and only if they
    fit. -/
theorem inEffect_iff {forced : List Forced}
    (h : Plain optstring (forced.map Forced.optchar) none ws)
    (harg : ∀ o ∈ forced, takesArg optstring o.optchar = true ∧ o.optchar ≠ '-')
    (hnodup : (forced.map Forced.optchar).Nodup) :
    InEffect optstring forced ws
        (adjustAll forced (ws ++ separate (forced.map Forced.appended))) ↔
      ∀ o ∈ forced, o.Fits ws := by
  have hstart : (([] : List (Char × Word)).map Prod.fst ++ forced.map Forced.optchar).Nodup :=
    hnodup
  obtain ⟨ws', hws', hafter, hothers⟩ := h.adjustAll harg
    (fun o ho => List.mem_map_of_mem ho) hstart fun _ ho => absurd ho List.not_mem_nil
  rw [List.nil_append, List.nil_append] at hws'
  have hfinal : ((forced.map (·.final ws)).map Prod.fst).Nodup := by
    rwa [List.map_map]
  have heffective (o : Forced) (ho : o ∈ forced) :
      effective optstring o.optchar (ws' ++ separate (forced.map (·.final ws))) =
        some (o.final ws).2 := by
    refine effective_separate hafter (fun o' ho' => ?_) hfinal (List.mem_map_of_mem ho)
    obtain ⟨o₀, ho₀, rfl⟩ := List.mem_map.1 ho'
    exact harg o₀ ho₀
  have hvalue (o : Forced) : (o.final ws).2 = decimal o.value ↔ o.Fits ws := by
    simp only [Forced.final, Forced.Fits]
    split_ifs with hn
    · exact ⟨fun heq => (decimal_injective heq).symm, fun heq => by rw [heq]⟩
    · exact overwrite_eq_iff _ Nat.toDigits_ne_nil
  rw [hws']
  constructor
  · rintro ⟨heffect, -⟩ o ho
    rw [← hvalue]
    exact Option.some.inj ((heffective o ho).symm.trans (heffect o ho))
  · intro hcond
    refine ⟨fun o ho => ?_, ?_⟩
    · rw [heffective o ho, (hvalue o).2 (hcond o ho)]
    · rw [others_append hafter, hothers]
      exact List.prefix_append _ _

end RealtimeTests.Config
