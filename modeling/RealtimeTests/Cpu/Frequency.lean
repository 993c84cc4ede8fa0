import Mathlib.Data.List.Sort
import RealtimeTests.File.Lines
import RealtimeTests.Strtok
import RealtimeTests.Text

/-!
# CPU frequencies

`cpu_freq_available` reads the frequencies of a CPU from the first line of a file, and
`cpu_freq_set_max` and `enter_UP_mode_freq_max` choose its first one for the largest.

Nothing is sorted: what is returned is what the pieces of the line are read as that end at white
space (`cpuFreqAvailable_eq`). So the largest frequency is chosen when the file has them in
descending order, each with one white space after it, and has one at least (`selects_iff`).
-/

namespace RealtimeTests.Frequency

open Text Strtok

variable {h : Host} {heap : Allocator}

/-! ## The functions -/

/-- The characters of a text file. -/
def decode (bs : Bytes) : List Char := bs.map fun b => Char.ofNat b.toNat

/-- A text as the bytes of a file. -/
def encode (text : List Char) : Bytes := text.map fun c => UInt8.ofNat c.toNat

/-- A frequency, in Hz, that is written in kHz. -/
def frequency (str : List Char) : BitVec 64 := strtoull str * 1000

/-- The loop of `cpu_freq_available` which stores the frequencies: `start` is the text from
    `ptr_start` to `ptr`, and there is room for `room` frequencies. They are indexed by an `int`. -/
def storeFreqs (room : ℕ) : List Char → List Char → List (BitVec 64) → Option (List (BitVec 64))
  | [], _, result => some result
  | c :: cs, start, result =>
    if isspace c then
      if result.length < room ∧ result.length < 2 ^ 31 then
        storeFreqs room cs [] (result ++ [frequency start])
      else none
    else storeFreqs room cs (start ++ [c]) result

/-- How many frequencies there is room for in a block that is allocated for `n` ones. -/
def roomFor (h : Host) (heap : Allocator) (n : ℕ) : ℕ :=
  let size := 8 * n % 2 ^ h.longBits
  if heap.grants size then size / 8 else 0

/-- `cpu_freq_available` of the file with the frequencies, if it can be opened: the list, NULL if
    there is none, and its length. -/
def cpuFreqAvailable (h : Host) (heap : Allocator) (file : Option InFile) :
    Option (Option (List (BitVec 64)) × ℤ) :=
  match file with
  | none => some (none, -1)
  | some f =>
    match utilityFileReadln h heap f ⟨none, 0⟩ 256 with
    | none => none
    | some (rc, _, buffer) =>
      if rc = -2 then some (none, -1)
      else if rc = -1 then some (none, 0)
      else
        match buffer.line with
        | none => none
        | some line =>
          let frequencyCount := (decode line).countP isspace
          let listLen := (BitVec.ofNat h.longBits frequencyCount).toInt
          if frequencyCount = 0 then some (none, listLen)
          else
            match storeFreqs (roomFor h heap frequencyCount) (decode line) [] [] with
            | none => none
            | some result => some (some result, listLen)

/-- `list[0]`, which is only defined when there is one. -/
def firstFreq (list : Option (List (BitVec 64))) : Option (BitVec 64) :=
  match list with
  | none => none
  | some freqs => freqs[0]?

/-- `cpu_freq_set_max`, with the list of the frequencies and its length: what it returns, and the
    frequency which `cpu_freq_set` is asked for. -/
def cpuFreqSetMax (freqlist : Option (List (BitVec 64)) × ℤ) (cpuFreqSet : BitVec 64 → ℤ) :
    Option (ℤ × Option (BitVec 64)) :=
  if freqlist.2 = -1 then some (-1, none)
  else
    -- An empty list is only logged.
    match firstFreq freqlist.1 with
    | none => none
    | some maxFreq => some (cpuFreqSet maxFreq, some maxFreq)

/-- What `enter_UP_mode_freq_max` finds: what its calls return, and whether it knows the
    governor. -/
structure UPMode where
  enterUPMode : ℤ
  cpuFreqGetGovernor : Bool
  cpuFreqSet : BitVec 64 → ℤ

/-- `enter_UP_mode_freq_max`, with the list of the frequencies and its length: what it returns, and
    the frequency which `cpu_freq_set` is asked for. -/
def enterUPModeFreqMax (env : UPMode) (freqs : Option (List (BitVec 64)) × ℤ) :
    Option (ℤ × Option (BitVec 64)) :=
  if env.enterUPMode = -1 then some (-2, none)
  else if freqs.2 ≤ 0 then some (-2, none)
  else
    match firstFreq freqs.1 with
    | none => none
    | some maxFreq =>
      if !env.cpuFreqGetGovernor then some (-2, none)
      else
        let rc := env.cpuFreqSet maxFreq
        if rc = -2 then some (-1, some maxFreq)
        -- The governor is restored then, which changes nothing of what is returned.
        else if rc = -1 then some (-2, some maxFreq)
        else some (0, some maxFreq)

/-! ## What is stored -/

/-- The pieces of a text between its white space. -/
def pieces (text : List Char) : List (List Char) := text.splitOnP isspace

theorem pieces_ne_nil (text : List Char) : pieces text ≠ [] := List.splitOnP_ne_nil _ _

/-- A piece ends at each white space, and one at the end. -/
theorem length_pieces (text : List Char) : (pieces text).length = text.countP isspace + 1 := by
  induction text with
  | nil => rfl
  | cons c cs ih =>
    rw [pieces] at ih ⊢
    rw [List.splitOnP_cons_eq_if_modifyHead]
    split_ifs with hc
    · rw [List.length_cons, ih, List.countP_cons_of_pos hc]
    · rw [List.length_modifyHead, ih, List.countP_cons_of_neg hc]

/-- A piece, and then those after the white space that ends it. -/
theorem pieces_append_cons {start : List Char} (hstart : ∀ c ∈ start, isspace c = false) {c : Char}
    (hc : isspace c = true) (cs : List Char) : pieces (start ++ c :: cs) = start :: pieces cs :=
  List.splitOnP_append_cons_of_forall_mem hstart c hc cs

/-- The pieces which end at white space are stored, if there is room for them. -/
theorem storeFreqs_eq {room : ℕ} (text : List Char) {start : List Char}
    (hstart : ∀ c ∈ start, isspace c = false) {result : List (BitVec 64)}
    (hroom : result.length ≤ room) (hint : result.length ≤ 2 ^ 31) :
    storeFreqs room text start result =
      if result.length + text.countP isspace ≤ room ∧
          result.length + text.countP isspace ≤ 2 ^ 31 then
        some (result ++ (pieces (start ++ text)).dropLast.map frequency)
      else none := by
  induction text generalizing start result with
  | nil =>
    have hpieces : pieces (start ++ []) = [start] := by
      rw [List.append_nil, pieces, List.splitOnP_eq_singleton hstart]
    rw [storeFreqs, List.countP_nil, Nat.add_zero, if_pos ⟨hroom, hint⟩, hpieces]
    simp
  | cons c cs ih =>
    rw [storeFreqs]
    by_cases hc : isspace c = true
    · rw [if_pos hc, List.countP_cons_of_pos hc]
      by_cases hlt : result.length < room ∧ result.length < 2 ^ 31
      · rw [if_pos hlt, ih (by simp) (by simp; omega) (by simp; omega), List.length_append,
          List.length_singleton, Nat.add_assoc, Nat.add_comm 1, pieces_append_cons hstart hc,
          List.nil_append, List.dropLast_cons_of_ne_nil (pieces_ne_nil cs), List.map_cons,
          List.append_assoc, List.singleton_append]
      · rw [if_neg hlt, if_neg (by omega)]
    · have hstart' : ∀ d ∈ start ++ [c], isspace d = false := by
        intro d hd
        rcases List.mem_append.1 hd with hd | hd
        · exact hstart d hd
        · rw [List.mem_singleton.1 hd]
          exact Bool.not_eq_true _ ▸ hc
      rw [if_neg hc, List.countP_cons_of_neg hc, ih hstart' hroom hint, List.append_assoc,
        List.singleton_append]

/-! ## What is read -/

/-- A file of decimal numbers that are separated by white space. -/
def Decimals (content : List Char) : Prop :=
  ∀ c ∈ content, c.isDigit = true ∨ isspace c = true

/-- Its first line. -/
def firstLine (content : List Char) : List Char := content.takeWhile (· ≠ '\n')

theorem toNat_lt_of_decimal {c : Char} (hc : c.isDigit = true ∨ isspace c = true) :
    0 < c.toNat ∧ c.toNat < 128 := by
  rcases hc with hc | hc
  · simp only [Char.isDigit, Bool.and_eq_true, decide_eq_true_eq, UInt32.le_iff_toNat_le] at hc
    have hval : c.toNat = c.val.toNat := rfl
    have h0 : (48 : UInt32).toNat = 48 := rfl
    have h9 : (57 : UInt32).toNat = 57 := rfl
    have := hc.1
    have := hc.2
    simp at *
    omega
  · simp only [isspace, Bool.or_eq_true, decide_eq_true_eq] at hc
    rcases hc with ((((rfl | rfl) | rfl) | rfl) | rfl) | rfl <;> decide

theorem toNat_ofNat_of_lt {n : ℕ} (hn : n < 128) : (UInt8.ofNat n).toNat = n := by
  rw [UInt8.toNat_ofNat']
  exact Nat.mod_eq_of_lt (by omega)

theorem decode_encode {text : List Char} (htext : Decimals text) : decode (encode text) = text := by
  rw [decode, encode, List.map_map]
  refine (List.map_congr_left fun c hc => ?_).trans (List.map_id text)
  rw [Function.comp_apply, toNat_ofNat_of_lt (toNat_lt_of_decimal (htext c hc)).2,
    Char.ofNat_toNat, id]

/-- A byte of a text is that of one of its characters. -/
theorem mem_encode_iff {text : List Char} (htext : Decimals text) {c : Char} (hc : c.toNat < 128) :
    UInt8.ofNat c.toNat ∈ encode text ↔ c ∈ text := by
  constructor
  · intro hmem
    obtain ⟨d, hd, heq⟩ := List.mem_map.1 hmem
    have := congrArg UInt8.toNat heq
    rw [toNat_ofNat_of_lt hc, toNat_ofNat_of_lt (toNat_lt_of_decimal (htext d hd)).2] at this
    rwa [← Char.ofNat_toNat c, ← this, Char.ofNat_toNat]
  · exact List.mem_map_of_mem

/-- The file is its first line, and what is from the newline on, if there is one. -/
theorem firstLine_append (content : List Char) :
    firstLine content ++ content.dropWhile (· ≠ '\n') = content :=
  List.takeWhile_append_dropWhile

theorem decimals_firstLine {content : List Char} (hcontent : Decimals content) :
    Decimals (firstLine content) :=
  fun c hc => hcontent c ((List.takeWhile_sublist _).subset hc)

theorem length_encode (text : List Char) : (encode text).length = text.length := List.length_map _

/-- The first line of the file is what is read from it. -/
theorem lines_encode {content : List Char} (hcontent : Decimals content) :
    ∃ lines, (InFile.opened (encode content) false).lines =
      encode (firstLine content) :: lines := by
  have hline : newline ∉ encode (firstLine content) := by
    intro hmem
    have hmem' := (mem_encode_iff (decimals_firstLine hcontent) (c := '\n') (by decide)).1 hmem
    simpa using List.mem_takeWhile_imp hmem'
  have hrest : ∀ b ∈ (encode (content.dropWhile (· ≠ '\n'))).head?, b = newline := by
    intro b hb
    rw [encode, List.head?_map] at hb
    obtain ⟨c, hc, rfl⟩ := Option.map_eq_some_iff.1 hb
    have := List.head?_dropWhile_not (fun c => decide (c ≠ '\n')) content
    rw [hc] at this
    have hnl : c = '\n' := by simpa using this
    rw [hnl]
    rfl
  have hsplit := splitOn_line hline hrest
  rw [InFile.lines_opened, ← firstLine_append content]
  rw [encode, List.map_append, ← encode, ← encode, firstLine_append, hsplit]
  exact ⟨_, rfl⟩

/-- Without room for the first line, no list is returned. -/
theorem cpuFreqAvailable_of_not_room {content : List Char} (hcontent : Decimals content)
    (hroom : ¬ Room h heap 256 0 (firstLine content).length) :
    cpuFreqAvailable h heap (some (.opened (encode content) false)) = none ∨
      cpuFreqAvailable h heap (some (.opened (encode content) false)) = some (none, -1) := by
  obtain ⟨lines, hlines⟩ := lines_encode hcontent
  have hinc : 256 < 2 ^ h.longBits := lt_of_lt_of_le (by decide) h.two_pow_32_le_longBits
  rw [← length_encode] at hroom
  obtain hnone | ⟨f, b, hfail⟩ := utilityFileReadln_of_not_room (b := ⟨none, 0⟩) (by decide) hinc
    (InFile.readable_opened _) hlines (fun _ hblock => by cases hblock) hroom
  · exact .inl (by rw [cpuFreqAvailable, hnone])
  · exact .inr (by rw [cpuFreqAvailable, hfail]; rfl)

/-- The pieces of the first line which end at white space. -/
def listed (content : List Char) : List (List Char) := (pieces (firstLine content)).dropLast

theorem length_listed (content : List Char) :
    (listed content).length = (firstLine content).countP isspace := by
  rw [listed, List.length_dropLast, length_pieces, Nat.add_sub_cancel]

/-- With room for it, the pieces of the first line are returned which end at white space. -/
theorem cpuFreqAvailable_of_room {content : List Char} (hcontent : Decimals content)
    (hroom : Room h heap 256 0 (firstLine content).length) :
    cpuFreqAvailable h heap (some (.opened (encode content) false)) =
      if (listed content).length = 0 then
        some (none, (BitVec.ofNat h.longBits (listed content).length).toInt)
      else if (listed content).length ≤ roomFor h heap (listed content).length ∧
          (listed content).length ≤ 2 ^ 31 then
        some (some ((listed content).map frequency),
          (BitVec.ofNat h.longBits (listed content).length).toInt)
      else none := by
  obtain ⟨lines, hlines⟩ := lines_encode hcontent
  rw [← length_encode] at hroom
  obtain ⟨f, b, hread, -, -, -, -, hline⟩ := utilityFileReadln_of_room (b := ⟨none, 0⟩) (by decide)
    (InFile.readable_opened _) hlines (fun _ hblock => by cases hblock) hroom
  have hzero : 0 ∉ encode (firstLine content) := by
    intro hmem
    obtain ⟨c, hc, heq⟩ := List.mem_map.1 hmem
    obtain ⟨hpos, hlt⟩ := toNat_lt_of_decimal (decimals_firstLine hcontent c hc)
    have := congrArg UInt8.toNat heq
    rw [toNat_ofNat_of_lt hlt] at this
    exact hpos.ne' this
  have hdecode := decode_encode (decimals_firstLine hcontent)
  have hstore : storeFreqs (roomFor h heap (listed content).length) (firstLine content) [] [] =
      if (listed content).length ≤ roomFor h heap (listed content).length ∧
          (listed content).length ≤ 2 ^ 31 then
        some ((listed content).map frequency)
      else none := by
    rw [storeFreqs_eq (firstLine content) (by simp) (by simp) (by simp)]
    simp only [List.length_nil, Nat.zero_add, List.nil_append, ← length_listed]
    rfl
  simp only [cpuFreqAvailable, hread, hline hzero, hdecode, ← length_listed,
    if_neg (show ¬ (0 : ℤ) = -2 by decide), if_neg (show ¬ (0 : ℤ) = -1 by decide), hstore]
  split_ifs <;> rfl

/-! ## The largest frequency -/

/-- The value of a piece. -/
def value (piece : List Char) : ℕ := Nat.ofDigitChars 10 piece 0

/-- The values of a file, in kHz. -/
def values (content : List Char) : List ℕ := (tokens isspace content).map value

/-- A list of the given values, times 1000, in descending order, with its length. -/
def ListsOf (vals : List ℕ) (freqs : Option (List (BitVec 64)) × ℤ) : Prop :=
  ((freqs.1.getD []).map (·.toNat)).Perm (vals.map (· * 1000)) ∧
    ((freqs.1.getD []).map (·.toNat)).Pairwise (· ≥ ·) ∧ freqs.2 = vals.length

/-- The largest one of the given values, times 1000. -/
def IsLargest (vals : List ℕ) (freq : BitVec 64) : Prop :=
  freq.toNat ∈ vals.map (· * 1000) ∧ ∀ v ∈ vals.map (· * 1000), v ≤ freq.toNat

/-- What a function does with a list of frequencies: it asks for none but the largest one, and
    returns an error when there is none. -/
def Asks (vals : List ℕ) (res : Option (ℤ × Option (BitVec 64))) (mustAsk : Prop) : Prop :=
  ∃ rc asked, res = some (rc, asked) ∧ (∀ freq ∈ asked, IsLargest vals freq) ∧
    (vals = [] → asked = none ∧ rc ≠ 0) ∧ (vals ≠ [] → mustAsk → asked.isSome = true)

/-- The frequencies of the file are listed, and its largest one is selected. -/
def Selects (h : Host) (heap : Allocator) (content : List Char) : Prop :=
  ∃ freqs, cpuFreqAvailable h heap (some (.opened (encode content) false)) = some freqs ∧
    ListsOf (values content) freqs ∧
    (∀ cpuFreqSet, Asks (values content) (cpuFreqSetMax freqs cpuFreqSet) True) ∧
    ∀ env : UPMode, Asks (values content) (enterUPModeFreqMax env freqs)
      (env.enterUPMode ≠ -1 ∧ env.cpuFreqGetGovernor = true)

/-- The white space of the first line ends the values, one each, which are in descending order and
    have an exact product with 1000. -/
structure InOrder (content : List Char) : Prop where
  listed_eq : (listed content).map value = values content
  descending : (values content).Pairwise (· ≥ ·)
  exact : ∀ v ∈ values content, v * 1000 < 2 ^ 64

/-- There is memory for the line and for the list, and the indices of the list are in range. -/
structure HasRoom (h : Host) (heap : Allocator) (content : List Char) : Prop where
  line : Room h heap 256 0 (firstLine content).length
  list : (listed content).length ≤ roomFor h heap (listed content).length
  index : (listed content).length ≤ 2 ^ 31

/-- The pieces that are listed are the first ones of the file. -/
theorem listed_isPrefix (content : List Char) : listed content <+: pieces content := by
  refine (List.dropLast_prefix _).trans ?_
  have happend := firstLine_append content
  cases hrest : content.dropWhile (· ≠ '\n') with
  | nil =>
    rw [hrest, List.append_nil] at happend
    rw [happend]
  | cons c cs =>
    have hc : c = '\n' := by
      have := List.head?_dropWhile_not (fun c => decide (c ≠ '\n')) content
      rw [hrest] at this
      simpa using this
    rw [hrest] at happend
    rw [← happend, pieces, pieces, List.splitOnP_append_cons _ _ (by rw [hc]; rfl), happend]
    exact List.prefix_append _ _

/-- A piece has digits only. -/
theorem isDigit_of_mem_pieces {content : List Char} (hcontent : Decimals content)
    {piece : List Char} (hpiece : piece ∈ pieces content) : ∀ c ∈ piece, c.isDigit = true := by
  intro c hc
  have htoken : piece ∈ tokens isspace content :=
    List.mem_filter.2 ⟨hpiece, decide_eq_true (List.ne_nil_of_mem hc)⟩
  obtain ⟨-, hspace, hmem⟩ := mem_tokens htoken
  exact (hcontent c (hmem c hc)).resolve_right (by simp [hspace c hc])

/-- A piece is read exactly as long as the product fits. -/
theorem toNat_frequency {piece : List Char} (hpiece : ∀ c ∈ piece, c.isDigit = true)
    (hvalue : value piece * 1000 < 2 ^ 64) : (frequency piece).toNat = value piece * 1000 := by
  have hread : (strtoull piece).toNat = value piece := by
    cases piece with
    | nil => rfl
    | cons c cs =>
      have hrun : digitRun (c :: cs) = c :: cs := List.takeWhile_eq_self_iff.2 hpiece
      rw [strtoull_of_isDigit (hpiece c List.mem_cons_self), hrun]
      · rfl
      · rw [hrun]
        rw [value] at hvalue
        omega
  rw [frequency, BitVec.toNat_mul, hread]
  exact Nat.mod_eq_of_lt hvalue

/-- The length of a list for which there is room. -/
theorem toInt_of_le_roomFor {n : ℕ} (hn : n ≤ roomFor h heap n) :
    (BitVec.ofNat h.longBits n).toInt = n := by
  have hlt : 8 * n < 2 ^ h.longBits := by
    rw [roomFor] at hn
    have := Nat.mod_lt (8 * n) (Nat.two_pow_pos h.longBits)
    split_ifs at hn <;> omega
  have htoNat : (BitVec.ofNat h.longBits n).toNat = n := by
    rw [BitVec.toNat_ofNat, Nat.mod_eq_of_lt (by omega)]
  rw [BitVec.toInt_eq_toNat_of_lt (by omega), htoNat]

/-- The first one of a list in descending order is its largest. -/
theorem isLargest_of_firstFreq {vals : List ℕ} {freqs : Option (List (BitVec 64)) × ℤ}
    (hlists : ListsOf vals freqs) {freq : BitVec 64} (hfirst : firstFreq freqs.1 = some freq) :
    IsLargest vals freq := by
  obtain ⟨hperm, hsorted, -⟩ := hlists
  obtain ⟨_ | _ | ⟨f, fs⟩, len⟩ := freqs
  · cases hfirst
  · cases hfirst
  · cases hfirst
    rw [Option.getD_some, List.map_cons] at hperm hsorted
    refine ⟨hperm.subset List.mem_cons_self, fun v hv => ?_⟩
    rcases List.mem_cons.1 (hperm.symm.subset hv) with rfl | hv
    · exact le_rfl
    · exact List.rel_of_pairwise_cons hsorted hv

/-- A list of values has a first one exactly when it has values. -/
theorem firstFreq_eq_none_iff {vals : List ℕ} {freqs : Option (List (BitVec 64)) × ℤ}
    (hlists : ListsOf vals freqs) : firstFreq freqs.1 = none ↔ vals = [] := by
  have hlen := hlists.1.length_eq
  obtain ⟨_ | _ | ⟨f, fs⟩, len⟩ := freqs
  · simpa [firstFreq, eq_comm] using hlen
  · simpa [firstFreq, eq_comm] using hlen
  · refine iff_of_false (fun hnone => by cases hnone) fun hnil => ?_
    rw [hnil] at hlen
    cases hlen

/-- Both functions choose the first frequency, and only one of them checks that there is one. -/
theorem asks_cpuFreqSetMax_iff {vals : List ℕ} {freqs : Option (List (BitVec 64)) × ℤ}
    (hlists : ListsOf vals freqs) (cpuFreqSet : BitVec 64 → ℤ) :
    Asks vals (cpuFreqSetMax freqs cpuFreqSet) True ↔ vals ≠ [] := by
  have hlen : freqs.2 ≠ -1 := by
    rw [hlists.2.2]
    omega
  rw [cpuFreqSetMax, if_neg hlen]
  cases hfirst : firstFreq freqs.1 with
  | none =>
    refine iff_of_false ?_ (not_not.2 ((firstFreq_eq_none_iff hlists).1 hfirst))
    rintro ⟨_, _, hres, -⟩
    cases hres
  | some freq =>
    have hne : vals ≠ [] := by
      intro hnil
      rw [(firstFreq_eq_none_iff hlists).2 hnil] at hfirst
      cases hfirst
    refine iff_of_true ⟨_, _, rfl, ?_, fun hnil => absurd hnil hne, fun _ _ => rfl⟩ hne
    intro f hf
    cases hf
    exact isLargest_of_firstFreq hlists hfirst

theorem asks_enterUPModeFreqMax {vals : List ℕ} {freqs : Option (List (BitVec 64)) × ℤ}
    (hlists : ListsOf vals freqs) (env : UPMode) :
    Asks vals (enterUPModeFreqMax env freqs)
      (env.enterUPMode ≠ -1 ∧ env.cpuFreqGetGovernor = true) := by
  have herror : ∀ mustAsk : Prop, (vals ≠ [] → ¬ mustAsk) →
      Asks vals (some (-2, none)) mustAsk := by
    intro mustAsk hmust
    refine ⟨-2, none, rfl, ?_, fun _ => ⟨rfl, by decide⟩, fun hne hask => absurd hask (hmust hne)⟩
    intro f hf
    cases hf
  rw [enterUPModeFreqMax]
  by_cases hmode : env.enterUPMode = -1
  · rw [if_pos hmode]
    exact herror _ fun _ hask => hask.1 hmode
  rw [if_neg hmode]
  by_cases hlen : freqs.2 ≤ 0
  · rw [if_pos hlen]
    refine herror _ fun hne => ?_
    have := List.length_pos_iff.2 hne
    rw [hlists.2.2] at hlen
    omega
  · rw [if_neg hlen]
    cases hfirst : firstFreq freqs.1 with
    | none =>
      rw [hlists.2.2, (firstFreq_eq_none_iff hlists).1 hfirst] at hlen
      exact absurd le_rfl hlen
    | some freq =>
      have hne : vals ≠ [] := by
        intro hnil
        rw [(firstFreq_eq_none_iff hlists).2 hnil] at hfirst
        cases hfirst
      have hlargest := isLargest_of_firstFreq hlists hfirst
      have hasks : ∀ rc : ℤ, Asks vals (some (rc, some freq))
          (env.enterUPMode ≠ -1 ∧ env.cpuFreqGetGovernor = true) := by
        intro rc
        refine ⟨rc, some freq, rfl, ?_, fun hnil => absurd hnil hne, fun _ _ => rfl⟩
        intro f hf
        cases hf
        exact hlargest
      dsimp only
      split_ifs with hgovernor
      · exact herror _ fun _ hask => by simp [hask.2] at hgovernor
      · exact hasks _
      · exact hasks _
      · exact hasks _

/-- What the file has in order is listed in descending order. -/
theorem listsOf_of_inOrder {content : List Char} (hcontent : Decimals content)
    (hroom : HasRoom h heap content) (horder : InOrder content) :
    ListsOf (values content) (some ((listed content).map frequency),
      (BitVec.ofNat h.longBits (listed content).length).toInt) := by
  have hfreqs : ((listed content).map frequency).map (·.toNat) =
      (values content).map (· * 1000) := by
    rw [← horder.listed_eq, List.map_map, List.map_map]
    refine List.map_congr_left fun piece hpiece => ?_
    refine toNat_frequency (isDigit_of_mem_pieces hcontent ?_) (horder.exact _ ?_)
    · exact (listed_isPrefix content).subset hpiece
    · rw [← horder.listed_eq]
      exact List.mem_map_of_mem hpiece
  refine ⟨?_, ?_, ?_⟩
  · rw [Option.getD_some, hfreqs]
  · rw [Option.getD_some, hfreqs, List.pairwise_map]
    exact horder.descending.imp fun hle => Nat.mul_le_mul_right _ hle
  · rw [toInt_of_le_roomFor hroom.list, ← horder.listed_eq, List.length_map]

/-- An empty piece has the value zero. -/
theorem filter_map_value (ps : List (List Char)) :
    (ps.map value).filter (· ≠ 0) = ((ps.filter (· ≠ [])).map value).filter (· ≠ 0) := by
  rw [List.filter_map, List.filter_map, List.filter_filter]
  congr 1
  refine List.filter_congr fun p _ => ?_
  by_cases hp : p = []
  · rw [hp]
    decide
  · simp [hp]

/-- In a file whose values are listed in descending order, they are in order. -/
theorem inOrder_of_listsOf {content : List Char} (hcontent : Decimals content) {len : ℤ}
    (hlists : ListsOf (values content) (some ((listed content).map frequency), len)) :
    InOrder content := by
  obtain ⟨hperm, hsorted, -⟩ := hlists
  rw [Option.getD_some] at hperm hsorted
  have hexact : ∀ v ∈ values content, v * 1000 < 2 ^ 64 := by
    intro v hv
    obtain ⟨f, -, hf⟩ := List.mem_map.1 (hperm.symm.subset (List.mem_map_of_mem hv))
    rw [← hf]
    exact f.isLt
  -- The tokens of the file are the pieces listed that are not empty, and then others.
  obtain ⟨others, hothers⟩ := listed_isPrefix content
  have hvalues : values content = ((listed content).filter (· ≠ [])).map value ++
      (others.filter (· ≠ [])).map value := by
    rw [values, tokens, ← pieces, ← hothers, List.filter_append, List.map_append]
  have hfreqs : ((listed content).map frequency).map (·.toNat) =
      ((listed content).map value).map (· * 1000) := by
    rw [List.map_map, List.map_map]
    refine List.map_congr_left fun piece hpiece => ?_
    have hmem : piece ∈ pieces content := (listed_isPrefix content).subset hpiece
    refine toNat_frequency (isDigit_of_mem_pieces hcontent hmem) ?_
    by_cases hnil : piece = []
    · rw [hnil]
      decide
    · exact hexact _ (List.mem_map_of_mem (List.mem_filter.2 ⟨hmem, decide_eq_true hnil⟩))
  rw [hfreqs] at hperm hsorted
  have hdescending : ((listed content).map value).Pairwise (· ≥ ·) :=
    (List.pairwise_map.1 hsorted).imp fun hle => Nat.le_of_mul_le_mul_right hle (by decide)
  have hperm' : ((listed content).map value).Perm (values content) := by
    have := hperm.map (· / 1000)
    simpa [List.map_map, Function.comp_def] using this
  -- The other ones are zero, since the values listed are as many that are not.
  have hzero : ∀ v ∈ (others.filter (· ≠ [])).map value, v = 0 := by
    have hlen := (hperm'.filter (· ≠ 0)).length_eq
    rw [hvalues, List.filter_append, List.length_append, filter_map_value] at hlen
    have hnil := List.length_eq_zero_iff.1 (Nat.left_eq_add.1 hlen)
    intro v hv
    simpa using List.filter_eq_nil_iff.1 hnil v hv
  have hsorted' : (values content).Pairwise (· ≥ ·) := by
    rw [hvalues, List.pairwise_append]
    refine ⟨hdescending.sublist (List.filter_sublist.map value), ?_, ?_⟩
    · exact List.pairwise_of_forall_mem_list fun a _ b hb => (hzero b hb).le.trans (Nat.zero_le a)
    · exact fun a _ b hb => (hzero b hb).le.trans (Nat.zero_le a)
  exact ⟨hperm'.eq_of_pairwise (fun _ _ _ _ hle hge => le_antisymm hge hle) hdescending hsorted',
    hsorted', hexact⟩

/-- A file whose largest frequency is selected has its values in order. -/
theorem Selects.inOrder {content : List Char} (hcontent : Decimals content)
    (hselects : Selects h heap content) :
    values content ≠ [] ∧ HasRoom h heap content ∧ InOrder content := by
  obtain ⟨freqs, havailable, hlists, hset, -⟩ := hselects
  have hne : values content ≠ [] := (asks_cpuFreqSetMax_iff hlists _).1 (hset fun _ => 0)
  refine ⟨hne, ?_⟩
  have hline : Room h heap 256 0 (firstLine content).length := by
    by_contra hno
    obtain hnone | hfail := cpuFreqAvailable_of_not_room hcontent hno
    · rw [hnone] at havailable
      cases havailable
    · rw [hfail] at havailable
      cases havailable
      have := hlists.2.2
      dsimp only at this
      omega
  rw [cpuFreqAvailable_of_room hcontent hline] at havailable
  split_ifs at havailable with hzero hfits
  · cases havailable
    exact absurd ((firstFreq_eq_none_iff hlists).1 rfl) hne
  · cases havailable
    exact ⟨⟨hline, hfits.1, hfits.2⟩, inOrder_of_listsOf hcontent hlists⟩

/-- The frequencies of a file are listed, and the largest one is selected, exactly when it has
    values which are in order, and there is room for them. -/
theorem selects_iff {content : List Char} (hcontent : Decimals content) :
    Selects h heap content ↔
      values content ≠ [] ∧ HasRoom h heap content ∧ InOrder content := by
  refine ⟨fun hselects => hselects.inOrder hcontent, ?_⟩
  rintro ⟨hne, hroom, horder⟩
  have hlists := listsOf_of_inOrder hcontent hroom horder
  refine ⟨_, ?_, hlists, fun cpuFreqSet => (asks_cpuFreqSetMax_iff hlists _).2 hne,
    asks_enterUPModeFreqMax hlists⟩
  have hlen : (listed content).length ≠ 0 := by
    intro hzero
    have := congrArg List.length horder.listed_eq
    rw [List.length_map, hzero] at this
    exact hne (List.length_eq_zero_iff.1 this.symm)
  rw [cpuFreqAvailable_of_room hcontent hroom.line, if_neg hlen, if_pos ⟨hroom.list, hroom.index⟩]

/-- The characters of a text are decimal. -/
theorem decimals_of_all {text : List Char}
    (hall : (text.all fun c => c.isDigit || isspace c) = true) : Decimals text := by
  intro c hc
  simpa using List.all_eq_true.1 hall c hc

/-- Two frequencies in descending order. -/
theorem selects_descending : Selects .lp64 roomy "1200000 800000 \n".toList := by
  have hroom : HasRoom .lp64 roomy "1200000 800000 \n".toList :=
    ⟨by decide, by decide, by decide⟩
  have horder : InOrder "1200000 800000 \n".toList := ⟨by decide, by decide, by decide⟩
  exact (selects_iff (decimals_of_all (by decide))).2 ⟨by decide, hroom, horder⟩

/-- Two frequencies in ascending order, two without white space at the end, and none. -/
theorem not_selects :
    ¬ Selects .lp64 roomy "800000 1200000 ".toList ∧
      ¬ Selects .lp64 roomy "1200000 800000".toList ∧ ¬ Selects .lp64 roomy [] := by
  refine ⟨fun hselects => ?_, fun hselects => ?_, fun hselects => ?_⟩
  · have := (hselects.inOrder (decimals_of_all (by decide))).2.2.descending
    exact absurd this (by decide)
  · have := (hselects.inOrder (decimals_of_all (by decide))).2.2.listed_eq
    exact absurd this (by decide)
  · exact (hselects.inOrder (decimals_of_all (by decide))).1 (by decide)

end RealtimeTests.Frequency
