import Mathlib.Data.List.TakeWhile
import Mathlib.Data.List.Forall2
import Mathlib.Tactic

/-!
# Strings in memory

A block of memory is the list of its characters, and a string is a part of it up to a NUL
(`StrAt`). `strtok` cuts a string into tokens where it is, writing a NUL over the delimiter
after each of them.

* `tokens`: the parts of a string between its delimiters, but for the empty ones.
* `strtok_cases`: what a call of `strtok` finds, and what it leaves in memory.
* `StrAt.forTokens`: the loop over the tokens of a string goes through `tokens`, which are
  strings in memory after it.
-/

namespace RealtimeTests.Strtok

variable {delim : Char → Bool}

/-! ## Tokens -/

/-- The tokens of a string. -/
def tokens (delim : Char → Bool) (str : List Char) : List (List Char) :=
  (str.splitOnP delim).filter (· ≠ [])

/-- A word is a single token. -/
theorem tokens_word {w : List Char} (hne : w ≠ []) (hw : ∀ c ∈ w, delim c = false) :
    tokens delim w = [w] := by
  rw [tokens, List.splitOnP_eq_singleton hw]
  simp [hne]

/-- A delimiter separates tokens. -/
theorem tokens_append {c : Char} (hc : delim c = true) (str str' : List Char) :
    tokens delim (str ++ c :: str') = tokens delim str ++ tokens delim str' := by
  rw [tokens, List.splitOnP_append_cons _ _ hc, List.filter_append]
  rfl

@[simp]
theorem tokens_nil : tokens delim [] = [] := by
  simp [tokens]

/-- A delimiter at the beginning is skipped. -/
theorem tokens_cons {c : Char} (hc : delim c = true) (str : List Char) :
    tokens delim (c :: str) = tokens delim str := by
  rw [← List.nil_append (c :: str), tokens_append hc, tokens_nil, List.nil_append]

/-- So are delimiters. -/
theorem tokens_delims {ds : List Char} (hds : ∀ c ∈ ds, delim c = true) (str : List Char) :
    tokens delim (ds ++ str) = tokens delim str := by
  induction ds with
  | nil => rfl
  | cons c cs ih =>
    rw [List.cons_append, tokens_cons (hds c List.mem_cons_self),
      ih fun d hd => hds d (List.mem_cons_of_mem _ hd)]

/-- A string has delimiters, and then a token up to the next delimiter. -/
inductive Cut (delim : Char → Bool) : List Char → Prop
  | blank (ds : List Char) (hds : ∀ c ∈ ds, delim c = true) : Cut delim ds
  | word (ds w rest : List Char) (hds : ∀ c ∈ ds, delim c = true) (hne : w ≠ [])
      (hw : ∀ c ∈ w, delim c = false) (hrest : ∀ c ∈ rest.head?, delim c = true) :
      Cut delim (ds ++ (w ++ rest))

theorem cut (delim : Char → Bool) (str : List Char) : Cut delim str := by
  have hds : ∀ c ∈ str.takeWhile delim, delim c = true := fun _ => List.mem_takeWhile_imp
  have hsplit := List.takeWhile_append_dropWhile (p := delim) (l := str)
  cases hdrop : str.dropWhile delim with
  | nil =>
    rw [hdrop, List.append_nil] at hsplit
    rw [← hsplit]
    exact .blank _ hds
  | cons c cs =>
    have hc : delim c = false := by
      have := List.head?_dropWhile_not delim str
      rw [hdrop] at this
      simpa using this
    rw [← hsplit, hdrop, ← List.takeWhile_append_dropWhile (p := fun c => !delim c) (l := c :: cs)]
    refine .word _ _ _ hds (by simp [hc]) (fun d hd => ?_) fun d hd => ?_
    · simpa using List.mem_takeWhile_imp hd
    · have := List.head?_dropWhile_not (fun c => !delim c) (c :: cs)
      rw [Option.mem_def.1 hd] at this
      simpa using this

/-- The first token of a string, with the others after it. -/
theorem tokens_cut {ds w rest : List Char} (hds : ∀ c ∈ ds, delim c = true) (hne : w ≠ [])
    (hw : ∀ c ∈ w, delim c = false) (hrest : ∀ c ∈ rest.head?, delim c = true) :
    tokens delim (ds ++ (w ++ rest)) = w :: tokens delim rest.tail := by
  rw [tokens_delims hds]
  cases rest with
  | nil => rw [List.append_nil, tokens_word hne hw, List.tail_nil, tokens_nil]
  | cons c cs => rw [tokens_append (hrest c rfl), tokens_word hne hw, List.tail_cons,
      List.singleton_append]

/-- A token is a word of the string. -/
theorem mem_tokens {str tok : List Char} (htok : tok ∈ tokens delim str) :
    tok ≠ [] ∧ (∀ c ∈ tok, delim c = false) ∧ ∀ c ∈ tok, c ∈ str := by
  induction hn : str.length using Nat.strong_induction_on generalizing str with
  | _ n ih =>
    cases cut delim str with
    | blank ds hds =>
      rw [← List.append_nil str, tokens_delims hds, tokens_nil] at htok
      cases htok
    | word ds w rest hds hne hw hrest =>
      rw [tokens_cut hds hne hw hrest] at htok
      rcases List.mem_cons.1 htok with rfl | htok
      · exact ⟨hne, hw, fun c hc => by simp [hc]⟩
      · have hlen : rest.tail.length < n := by
          have := List.length_pos_iff.2 hne
          simp only [List.length_append, List.length_tail] at hn ⊢
          omega
        obtain ⟨h₁, h₂, h₃⟩ := ih _ hlen htok rfl
        exact ⟨h₁, h₂, fun c hc => by simp [List.mem_of_mem_tail (h₃ c hc)]⟩

/-- There are no more tokens than characters. -/
theorem length_tokens_le (delim : Char → Bool) (str : List Char) :
    (tokens delim str).length ≤ str.length := by
  induction hn : str.length using Nat.strong_induction_on generalizing str with
  | _ n ih =>
    cases cut delim str with
    | blank ds hds =>
      rw [← List.append_nil str, tokens_delims hds, tokens_nil]
      exact Nat.zero_le _
    | word ds w rest hds hne hw hrest =>
      have := List.length_pos_iff.2 hne
      simp only [List.length_append] at hn
      have hlen : rest.tail.length < n := by
        rw [List.length_tail]
        omega
      have hle := ih _ hlen rest.tail rfl
      rw [tokens_cut hds hne hw hrest, List.length_cons]
      rw [List.length_tail] at hle hlen
      omega

/-! ## Memory -/

/-- The character that ends a string. -/
def nul : Char := '\x00'

/-- A string: the characters before its NUL. -/
@[ext]
structure CString where
  chars : List Char
  nul_notMem : nul ∉ chars
  deriving DecidableEq

/-- The end of a string. -/
def CString.drop (str : CString) (n : ℕ) : CString where
  chars := str.chars.drop n
  nul_notMem hmem := str.nul_notMem (List.mem_of_mem_drop hmem)

/-- The string at `p` in a block: its characters are followed by a NUL. -/
def StrAt (buf : List Char) (p : ℕ) (str : List Char) : Prop :=
  nul ∉ str ∧ ∃ tail, buf.drop p = str ++ nul :: tail

/-- Reading a string, which is only defined when there is a NUL. -/
def readStr (buf : List Char) (p : ℕ) : Option (List Char) :=
  if nul ∈ buf.drop p then some ((buf.drop p).takeWhile (· ≠ nul)) else none

/-- What `snprintf` writes in a block of the given size: a string, as far as there is room before
    its NUL. -/
def snprintf (size : ℕ) (str : List Char) : List Char :=
  if size = 0 then [] else str.take (size - 1) ++ [nul]

theorem length_snprintf_le (size : ℕ) (text : List Char) : (snprintf size text).length ≤ size := by
  rw [snprintf]
  split_ifs with h
  · exact Nat.zero_le _
  · simp only [List.length_append, List.length_take, List.length_singleton]
    omega

variable {buf str : List Char} {p : ℕ}

/-- A string that was put at the beginning of a block. -/
theorem strAt_zero (hstr : nul ∉ str) (tail : List Char) : StrAt (str ++ nul :: tail) 0 str :=
  ⟨hstr, tail, rfl⟩

theorem StrAt.readStr_eq (h : StrAt buf p str) : readStr buf p = some str := by
  obtain ⟨hstr, tail, hdrop⟩ := h
  have hne : ∀ c ∈ str, decide (c ≠ nul) = true := fun c hc =>
    decide_eq_true fun heq => hstr (heq ▸ hc)
  rw [readStr, hdrop, if_pos (by simp), List.takeWhile_append_of_pos hne]
  simp

/-- The NUL of a string is in the block. -/
theorem StrAt.lt_length (h : StrAt buf p str) : p + str.length < buf.length := by
  obtain ⟨-, tail, hdrop⟩ := h
  have := congrArg List.length hdrop
  simp only [List.length_drop, List.length_append, List.length_cons] at this
  omega

/-- The end of a string is a string. -/
theorem StrAt.drop {pre : List Char} (h : StrAt buf p (pre ++ str)) :
    StrAt buf (p + pre.length) str := by
  obtain ⟨hstr, tail, hdrop⟩ := h
  refine ⟨fun hmem => hstr (List.mem_append_right _ hmem), tail, ?_⟩
  rw [← List.drop_drop, hdrop, List.append_assoc, List.drop_left]

/-- What is at the beginning of a string. -/
theorem StrAt.getElem? {c : Char} (h : StrAt buf p (c :: str)) : buf[p]? = some c := by
  obtain ⟨-, tail, hdrop⟩ := h
  rw [← Nat.add_zero p, ← List.getElem?_drop, hdrop]
  rfl

/-- What is at the beginning of the empty string. -/
theorem StrAt.getElem?_nil (h : StrAt buf p []) : buf[p]? = some nul := by
  obtain ⟨-, tail, hdrop⟩ := h
  rw [← Nat.add_zero p, ← List.getElem?_drop, hdrop]
  rfl

/-- A string is cut where a NUL is written. -/
theorem StrAt.set_self {w rest : List Char} {c : Char} (h : StrAt buf p (w ++ c :: rest)) :
    StrAt (buf.set (p + w.length) nul) p w := by
  obtain ⟨hstr, tail, hdrop⟩ := h
  refine ⟨fun hmem => hstr (List.mem_append_left _ hmem), rest ++ nul :: tail, ?_⟩
  rw [List.drop_set, if_neg (by omega), hdrop, List.append_assoc,
    List.set_append_right _ _ (by omega)]
  simp

/-- A string after what is written is as it was. -/
theorem StrAt.set_of_lt {i : ℕ} (h : StrAt buf p str) (hi : i < p) (c : Char) :
    StrAt (buf.set i c) p str := by
  obtain ⟨hstr, tail, hdrop⟩ := h
  exact ⟨hstr, tail, by rw [List.drop_set_of_lt hi, hdrop]⟩

/-- So is a string which ends before. -/
theorem StrAt.set_of_gt {i : ℕ} (h : StrAt buf p str) (hi : p + str.length < i) (c : Char) :
    StrAt (buf.set i c) p str := by
  obtain ⟨hstr, tail, hdrop⟩ := h
  refine ⟨hstr, tail.set (i - p - str.length - 1) c, ?_⟩
  rw [List.drop_set, if_neg (by omega), hdrop, List.set_append_right _ _ (by omega)]
  obtain ⟨j, hj⟩ : ∃ j, i - p - str.length = j + 1 := ⟨i - p - str.length - 1, by omega⟩
  rw [hj, List.set_cons_succ, Nat.add_sub_cancel]

/-- A character of a string. -/
theorem StrAt.getElem?_add (h : StrAt buf p str) {i : ℕ} (hi : i ≤ str.length) :
    buf[p + i]? = (str ++ [nul])[i]? := by
  obtain ⟨-, tail, hdrop⟩ := h
  rw [← List.getElem?_drop, hdrop, ← List.singleton_append, ← List.append_assoc,
    List.getElem?_append_left (by simpa using Nat.lt_succ_of_le hi)]

/-- Characters are written over those at `p`. -/
def write (buf : List Char) (p : ℕ) (w : List Char) : List Char :=
  buf.take p ++ w ++ buf.drop (p + w.length)

/-- A string after what is written is as it was. -/
theorem StrAt.write_of_le {i : ℕ} {w : List Char} (h : StrAt buf p str) (hi : i + w.length ≤ p) :
    StrAt (write buf i w) p str := by
  obtain ⟨hstr, tail, hdrop⟩ := h
  have hlen : p < buf.length := by
    have := congrArg List.length hdrop
    simp only [List.length_drop, List.length_append, List.length_cons] at this
    omega
  refine ⟨hstr, tail, ?_⟩
  rw [write, List.drop_append, List.drop_eq_nil_of_le (by simp; omega), List.nil_append,
    List.drop_drop, ← hdrop]
  congr 1
  simp only [List.length_append, List.length_take]
  omega

/-- So is a string which ends before. -/
theorem StrAt.write_of_lt {i : ℕ} {w : List Char} (h : StrAt buf p str) (hi : p + str.length < i)
    (hlen : i ≤ buf.length) : StrAt (write buf i w) p str := by
  obtain ⟨hstr, tail, hdrop⟩ := h
  refine ⟨hstr, tail.take (i - p - str.length - 1) ++ w ++ buf.drop (i + w.length), ?_⟩
  have htake : (buf.take i).drop p = str ++ nul :: tail.take (i - p - str.length - 1) := by
    rw [List.drop_take, hdrop, List.take_append, List.take_of_length_le (by omega)]
    obtain ⟨j, hj⟩ : ∃ j, i - p - str.length = j + 1 := ⟨i - p - str.length - 1, by omega⟩
    rw [hj, List.take_succ_cons, Nat.add_sub_cancel]
  rw [write, List.append_assoc, List.drop_append_of_le_length (by simp; omega), htake]
  simp

/-- The end of a string is replaced. -/
theorem StrAt.write_self {pre w : List Char} (h : StrAt buf p (pre ++ str)) (hw : nul ∉ w) :
    StrAt (write buf (p + pre.length) (w ++ [nul])) p (pre ++ w) := by
  have hlen := h.lt_length
  obtain ⟨hstr, tail, hdrop⟩ := h
  rw [List.length_append] at hlen
  refine ⟨fun hmem => ?_, buf.drop (p + pre.length + (w ++ [nul]).length), ?_⟩
  · rcases List.mem_append.1 hmem with hmem | hmem
    · exact hstr (List.mem_append_left _ hmem)
    · exact hw hmem
  · have htake : (buf.take (p + pre.length)).drop p = pre := by
      rw [List.drop_take, hdrop, Nat.add_sub_cancel_left, List.append_assoc, List.take_left]
    rw [write, List.append_assoc, List.drop_append_of_le_length (by simp; omega), htake]
    simp

/-- Strings one after the other in a block, from `lo` on. -/
def StrsAt (buf : List Char) : ℕ → List ℕ → List (List Char) → Prop
  | _, [], [] => True
  | lo, q :: qs, s :: strs => lo ≤ q ∧ StrAt buf q s ∧ StrsAt buf (q + s.length + 1) qs strs
  | _, _, _ => False

/-- They only depend on what is in the block from there on. -/
theorem StrsAt.frame {buf buf' : List Char} {lo lo' : ℕ} {qs : List ℕ} {strs : List (List Char)}
    (h : StrsAt buf lo qs strs) (hlo : strs ≠ [] → lo' ≤ lo)
    (hframe : ∀ q s, lo ≤ q → StrAt buf q s → StrAt buf' q s) : StrsAt buf' lo' qs strs := by
  induction strs generalizing lo lo' qs with
  | nil => cases qs <;> exact h
  | cons s strs ih =>
    cases qs with
    | nil => exact h
    | cons q qs =>
      obtain ⟨hq, hs, h⟩ := h
      refine ⟨(hlo (by simp)).trans hq, hframe q s hq hs, ih h (fun _ => le_rfl) fun r t hr => ?_⟩
      exact hframe r t (by omega)

/-! ## Cutting a string into tokens -/

/-- How many characters from `p` on satisfy `accept`. -/
def span (accept : Char → Bool) (buf : List Char) (p : ℕ) : ℕ :=
  ((buf.drop p).takeWhile accept).length

/-- `strtok`, from what is left of the string by the previous call, or from a string: the token, if
    there is one, the memory, and what is left. -/
def strtok (delim : Char → Bool) (buf : List Char) (p : ℕ) : Option ℕ × List Char × ℕ :=
  let token := p + span delim buf p
  if buf[token]? = some nul then (none, buf, token)
  else
    let fin := token + span (fun c => !delim c && c ≠ nul) buf token
    if buf[fin]? = some nul then (some token, buf, fin)
    else (some token, buf.set fin nul, fin + 1)

/-- The characters of a prefix are all accepted, and the next one is not. -/
theorem span_eq {accept : Char → Bool} {pre rest : List Char} (h : StrAt buf p (pre ++ rest))
    (hpre : ∀ c ∈ pre, accept c = true) (hnul : accept nul = false)
    (hrest : ∀ c ∈ rest.head?, accept c = false) : span accept buf p = pre.length := by
  obtain ⟨-, tail, hdrop⟩ := h
  rw [span, hdrop, List.append_assoc, List.takeWhile_append_of_pos hpre]
  cases rest with
  | nil => simp [hnul]
  | cons c cs => simp [hrest c rfl]

variable (hnul : delim nul = false)
include hnul

/-- There is no token in a string of delimiters. -/
theorem strtok_blank (h : StrAt buf p str) (hstr : ∀ c ∈ str, delim c = true) :
    strtok delim buf p = (none, buf, p + str.length) := by
  have hspan : span delim buf p = str.length := by
    have hall : StrAt buf p (str ++ []) := by rwa [List.append_nil]
    exact span_eq hall hstr hnul nofun
  have hend : StrAt buf (p + str.length) [] := by
    have hall : StrAt buf p (str ++ []) := by rwa [List.append_nil]
    exact hall.drop
  rw [strtok, hspan, if_pos hend.getElem?_nil]

/-- The token of a string which has one. -/
theorem strtok_word {ds w rest : List Char} (h : StrAt buf p (ds ++ (w ++ rest)))
    (hds : ∀ c ∈ ds, delim c = true) (hne : w ≠ []) (hw : ∀ c ∈ w, delim c = false)
    (hrest : ∀ c ∈ rest.head?, delim c = true) :
    ∃ buf', strtok delim buf p =
        (some (p + ds.length), buf', p + ds.length + w.length + (rest.length - rest.tail.length)) ∧
      StrAt buf' (p + ds.length) w ∧
      StrAt buf' (p + ds.length + w.length + (rest.length - rest.tail.length)) rest.tail ∧
      (∀ q s, StrAt buf q s → q + s.length < p + ds.length + w.length → StrAt buf' q s) ∧
      buf'.length = buf.length := by
  have hword := h.drop
  have hspan : span delim buf p = ds.length := by
    refine span_eq h hds hnul fun c hc => ?_
    rw [List.head?_append_of_ne_nil _ hne] at hc
    exact hw c (List.mem_of_mem_head? hc)
  have hnotnul : ∀ c ∈ w ++ rest, c ≠ nul := by
    rintro c hc rfl
    exact hword.1 hc
  have hstart : buf[p + ds.length]? ≠ some nul := by
    obtain ⟨c, cs, rfl⟩ := List.exists_cons_of_ne_nil hne
    rw [hword.getElem?]
    exact fun heq => hnotnul c (by simp) (Option.some.inj heq)
  have hspan' : span (fun c => !delim c && c ≠ nul) buf (p + ds.length) = w.length := by
    refine span_eq hword (fun c hc => ?_) (by simp) fun c hc => by simp [hrest c hc]
    simp [hw c hc, hnotnul c (List.mem_append_left _ hc)]
  have hfin := hword.drop
  rw [strtok, hspan, if_neg hstart, hspan']
  cases rest with
  | nil =>
    rw [if_pos hfin.getElem?_nil]
    refine ⟨buf, rfl, ?_, hfin, fun q s hs _ => hs, rfl⟩
    rwa [List.append_nil] at hword
  | cons c cs =>
    have hc : c ≠ nul := hnotnul c (by simp)
    rw [if_neg fun heq => hc (Option.some.inj (hfin.getElem?.symm.trans heq))]
    have hone : (c :: cs).length - (c :: cs).tail.length = 1 := by simp
    rw [hone]
    refine ⟨_, rfl, hword.set_self, StrAt.set_of_lt ?_ (Nat.lt_succ_self _) nul,
      fun q s hs hlt => hs.set_of_gt hlt nul, List.length_set⟩
    have hone : StrAt buf (p + ds.length + w.length) ([c] ++ cs) := hfin
    exact hone.drop

/-- A call of `strtok`. -/
theorem strtok_cases (h : StrAt buf p str) :
    (tokens delim str = [] ∧ ∃ p', strtok delim buf p = (none, buf, p')) ∨
    ∃ q buf' p' tok str', strtok delim buf p = (some q, buf', p') ∧
      tokens delim str = tok :: tokens delim str' ∧ StrAt buf' q tok ∧ StrAt buf' p' str' ∧
      p ≤ q ∧ q + tok.length ≤ p' ∧ (tokens delim str' ≠ [] → q + tok.length < p') ∧
      ∀ r s, StrAt buf r s → r + s.length ≤ p → StrAt buf' r s := by
  cases cut delim str with
  | blank ds hds =>
    refine .inl ⟨?_, _, strtok_blank hnul h hds⟩
    rw [← List.append_nil str, tokens_delims hds, tokens_nil]
  | word ds w rest hds hne hw hrest =>
    obtain ⟨buf', hstrtok, htok, hleft, hframe, -⟩ := strtok_word hnul h hds hne hw hrest
    refine .inr ⟨_, buf', _, w, rest.tail, hstrtok, tokens_cut hds hne hw hrest, htok, hleft,
      Nat.le_add_right _ _, Nat.le_add_right _ _, fun hnext => ?_, fun r s hs hle =>
      hframe r s hs ?_⟩
    · cases rest with
      | nil => exact absurd tokens_nil hnext
      | cons c cs => simp
    · have := List.length_pos_iff.2 hne
      omega

/-- The loop over the tokens of what is left of a string, which goes on as long as `body` is
    defined. -/
def forTokens {σ : Type*} (delim : Char → Bool) (body : σ → ℕ → Option σ) :
    ℕ → List Char → ℕ → σ → Option (σ × List Char)
  | 0, _, _, _ => none
  | fuel + 1, buf, p, s =>
    match strtok delim buf p with
    | (none, buf, _) => some (s, buf)
    | (some token, buf, p) => (body s token).bind (forTokens delim body fuel buf p)

/-- The loop goes through the tokens. -/
theorem StrAt.forTokens (h : StrAt buf p str) {fuel : ℕ}
    (hfuel : (tokens delim str).length < fuel) :
    ∃ (qs : List ℕ) (buf' : List Char), StrsAt buf' p qs (tokens delim str) ∧
      (∀ r s, StrAt buf r s → r + s.length ≤ p → StrAt buf' r s) ∧
      ∀ {σ : Type} (body : σ → ℕ → Option σ) (s : σ),
        Strtok.forTokens delim body fuel buf p s = (qs.foldlM body s).map (·, buf') := by
  induction fuel generalizing buf p str with
  | zero => omega
  | succ fuel ih =>
    rcases strtok_cases hnul h with ⟨hnone, p', hstrtok⟩ |
      ⟨q, buf', p', tok, str', hstrtok, htokens, htok, hleft, hpq, hle, hlt, hframe⟩
    · refine ⟨[], buf, ?_, fun _ _ hs _ => hs, fun body s => ?_⟩
      · rw [hnone]
        trivial
      · rw [Strtok.forTokens, hstrtok]
        rfl
    · rw [htokens, List.length_cons] at hfuel
      obtain ⟨qs, buf'', hqs, hframe', hloop⟩ := ih hleft (by omega)
      refine ⟨q :: qs, buf'', ?_, fun r s hs hrp => ?_, fun body s => ?_⟩
      · rw [htokens]
        exact ⟨hpq, hframe' q tok htok hle, hqs.frame hlt fun _ _ _ hs => hs⟩
      · exact hframe' r s (hframe r s hs hrp) (by omega)
      · simp only [Strtok.forTokens, hstrtok, List.foldlM_cons]
        cases body s q with
        | none => rfl
        | some s' => exact hloop body s'

end RealtimeTests.Strtok
