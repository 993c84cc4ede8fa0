import RealtimeTests.Driver.Config
import RealtimeTests.Getopt

/-!
# The duration of an experiment

`bwi-client_server/main.c`: `parse_cmd_line_args` reads the duration of the experiment from the
argument of `-t`, a number followed by `s` or `ms`, and `main` sleeps for it between starting and
stopping the processes. On the way, the number is an `unsigned long`, is multiplied to get
milliseconds and then microseconds, and becomes a `useconds_t`.

* `parseCmdLineArgs`: the options, unless they are rejected;
* `parseOpts_duration`: the duration is that of the last `-t`;
* `lasts_iff`: the experiment lasts as long as the argument says exactly when this has no minus
  sign, and says less than 2^32 microseconds. Other durations are not rejected.
-/

namespace RealtimeTests.CmdLine

open Text Getopt Config

variable {h : Host}

/-! ## The options -/

/-- The options of the driver. -/
structure Options (h : Host) where
  configPath : Option Word
  experimentDurationMs : ULong h
  cbsBudgetPeriodMs : BitVec 32
  ftraceStart : BitVec 32
  ftraceStop : BitVec 32
  deriving DecidableEq

/-- The options before any is read. -/
def Options.initial (h : Host) : Options h := ⟨none, -1, -1, -1, -1⟩

/-- Why the options are rejected. -/
inductive Rejection
  | start
  | limit
  | budgetPeriod
  | duration
  | durationUnit
  | unrecognized
  | noArgument
  | unexpected
  | noDuration
  | noBudgetPeriod
  | noConfig
  | startOrLimit
  deriving DecidableEq, Repr

/-- What is logged; `optopt` is the character of the option. -/
def Rejection.text (optopt : Char) : Rejection → String
  | start => "-r must be at least 1 (-h for help)"
  | limit => "-l must be at least 1 (-h for help)"
  | budgetPeriod => "-p must be at least 1 ms (-h for help)"
  | duration => "Experiment duration must be greater than 0 (-h for help)"
  | durationUnit =>
    "Experimentation duration must be directly followed by either 's' or 'ms' (-h for help)"
  | unrecognized => "Unrecognized option -" ++ optopt.toString ++ " (-h for help)"
  | noArgument => "Option -" ++ optopt.toString ++ " needs an argument (-h for help)"
  | unexpected => "Unexpected return value of fn getopt"
  | noDuration => "-t must be specified (-h for help)"
  | noBudgetPeriod => "-p must be specified (-h for help)"
  | noConfig => "-f must be specified (-h for help)"
  | startOrLimit => "-r must be specified together with -l (-h for help)"

/-- `atoi`. -/
def atoi (h : Host) (str : List Char) : BitVec 32 := (strtol h.longBits str).setWidth 32

/-- An `int` which has to be positive. -/
def parsePositive (h : Host) (rejection : Rejection) (arg : Word) : Except Rejection (BitVec 32) :=
  if (atoi h arg).toInt ≤ 0 then .error rejection else .ok (atoi h arg)

/-- The argument of `-t`, in milliseconds. -/
def parseDuration (h : Host) (arg : Word) : Except Rejection (ULong h) :=
  let (experimentDurationMs, durationUnit) := strtoul h.longBits arg
  -- It is not less than zero, being unsigned.
  if experimentDurationMs = 0 then .error .duration
  else if strcasecmp durationUnit ['s'] then .ok (experimentDurationMs * 1000)
  else if strcasecmp durationUnit ['m', 's'] then .ok experimentDurationMs
  else .error .durationUnit

/-- The body of the loop of `parse_cmd_line_args`, but for `-h`. -/
def parseOption (s : Options h) : Opt → Except Rejection (Options h)
  | ('r', some arg) => do return { s with ftraceStart := ← parsePositive h .start arg }
  | ('l', some arg) => do return { s with ftraceStop := ← parsePositive h .limit arg }
  | ('p', some arg) => do return { s with cbsBudgetPeriodMs := ← parsePositive h .budgetPeriod arg }
  | ('f', some arg) => .ok { s with configPath := some arg }
  | ('t', some arg) => do return { s with experimentDurationMs := ← parseDuration h arg }
  | ('?', _) => .error .unrecognized
  | (':', _) => .error .noArgument
  | _ => .error .unexpected

/-- What `parse_cmd_line_args` checks in the end. -/
def validate (s : Options h) : Except Rejection (Options h) :=
  if s.experimentDurationMs = -1 then .error .noDuration
  else if s.cbsBudgetPeriodMs = -1 then .error .noBudgetPeriod
  else if s.configPath = none then .error .noConfig
  else if (s.ftraceStart ≠ -1 ∧ s.ftraceStop = -1) ∨ (s.ftraceStart = -1 ∧ s.ftraceStop ≠ -1) then
    .error .startOrLimit
  else .ok s

/-- The loop of `parse_cmd_line_args`. After `-h` it returns without a check, and `main`
    goes on. -/
def parseOpts : List Opt → Options h → Except Rejection (Options h)
  | [], s => validate s
  | o :: os, s => if o.1 = 'h' then .ok s else (parseOption s o).bind (parseOpts os)

/-- The option string. -/
def optstring : List Char := [':', 'h', 'r', ':', 'l', ':', 't', ':', 'f', ':', 'p', ':']

/-- `parse_cmd_line_args`, with the words after the name of the program. -/
def parseCmdLineArgs (h : Host) (ws : List Word) : Except Rejection (Options h) :=
  parseOpts (getopt optstring none ws) (.initial h)

/-- The `useconds_t` that `main` gives `usleep`, between starting and stopping the processes. -/
def usleepArg (s : Options h) : BitVec 32 := (s.experimentDurationMs * 1000).setWidth 32

/-! ## What `-t` asks for -/

/-- The units of a duration. -/
inductive DurationUnit
  | s
  | ms
  deriving DecidableEq, Repr

namespace DurationUnit

def chars : DurationUnit → List Char
  | s => ['s']
  | ms => ['m', 's']

/-- The unit in milliseconds. -/
def inMs : DurationUnit → ℕ
  | s => 1000
  | ms => 1

end DurationUnit

/-- A text is a decimal number, as C reads them, followed by a unit in either case. -/
def IsDuration (arg : Word) (n : ℕ) (durationUnit : DurationUnit) : Prop :=
  ∃ blanks sign digits unitText : List Char, arg = blanks ++ sign ++ digits ++ unitText ∧
    (∀ c ∈ blanks, isspace c = true) ∧ (sign = [] ∨ sign = ['+']) ∧
    digits ≠ [] ∧ (∀ c ∈ digits, c.isDigit = true) ∧ Nat.ofDigitChars 10 digits 0 = n ∧
    strcasecmp unitText durationUnit.chars = true

/-- The experiment lasts as long as the argument says: this is a positive number followed by a unit,
    and the number, the milliseconds, the microseconds and the argument of `usleep` are
    what they should be. -/
def Lasts (arg : Word) (s : Options h) : Prop :=
  ∃ (n : ℕ) (durationUnit : DurationUnit), IsDuration arg n durationUnit ∧ 0 < n ∧
    (strtoul h.longBits arg).1.toNat = n ∧
    s.experimentDurationMs.toNat = n * durationUnit.inMs ∧
    (s.experimentDurationMs * 1000).toNat = n * durationUnit.inMs * 1000 ∧
    (usleepArg s).toNat = n * durationUnit.inMs * 1000

/-- The milliseconds that a text says, whatever the sign. -/
def milliseconds (arg : Word) : ℕ :=
  number arg * if strcasecmp (afterNumber arg) ['s'] then 1000 else 1

/-- The argument of the last `-t` before `-h`. -/
def lastDuration (opts : List Opt) : Option Word :=
  ((opts.takeWhile (·.1 ≠ 'h')).filterMap fun o => if o.1 = 't' then o.2 else none).getLast?

/-! ## The duration in effect -/

/-- Only `-t` sets the duration. -/
theorem parseOption_duration {s s' : Options h} {o : Opt} (hp : parseOption s o = .ok s') :
    (o.1 = 't' → ∃ arg, o.2 = some arg ∧ parseDuration h arg = .ok s'.experimentDurationMs) ∧
      (o.1 ≠ 't' → s'.experimentDurationMs = s.experimentDurationMs) := by
  rw [parseOption.eq_def] at hp
  split at hp
  · cases hn : parsePositive h .start _ <;> rw [hn] at hp <;> cases hp
    exact ⟨fun h => absurd h (by decide : 'r' ≠ 't'), fun _ => rfl⟩
  · cases hn : parsePositive h .limit _ <;> rw [hn] at hp <;> cases hp
    exact ⟨fun h => absurd h (by decide : 'l' ≠ 't'), fun _ => rfl⟩
  · cases hn : parsePositive h .budgetPeriod _ <;> rw [hn] at hp <;> cases hp
    exact ⟨fun h => absurd h (by decide : 'p' ≠ 't'), fun _ => rfl⟩
  · cases hp
    exact ⟨fun h => absurd h (by decide : 'f' ≠ 't'), fun _ => rfl⟩
  · next arg =>
    cases hn : parseDuration h arg <;> rw [hn] at hp <;> cases hp
    exact ⟨fun _ => ⟨arg, rfl, hn⟩, fun h => absurd rfl h⟩
  all_goals cases hp

theorem validate_eq {s s' : Options h} (hv : validate s = .ok s') : s' = s := by
  rw [validate] at hv
  split_ifs at hv
  exact (Except.ok.inj hv).symm

theorem lastDuration_cons {o : Opt} (ho : o.1 ≠ 'h') (os : List Opt) : lastDuration (o :: os) =
    if o.1 = 't' then (lastDuration os).or o.2 else lastDuration os := by
  rw [lastDuration, lastDuration, List.takeWhile_cons, if_pos (by simpa using ho),
    List.filterMap_cons]
  split_ifs with ht
  · cases ho2 : o.2 with
    | none => simp
    | some arg =>
      rw [List.getLast?_cons]
      cases List.getLast? _ <;> rfl
  · rfl

/-- The duration is that of the last `-t`. -/
theorem parseOpts_duration {os : List Opt} {s s' : Options h} (hp : parseOpts os s = .ok s') :
    (lastDuration os = none → s'.experimentDurationMs = s.experimentDurationMs) ∧
      ∀ arg, lastDuration os = some arg → parseDuration h arg = .ok s'.experimentDurationMs := by
  induction os generalizing s with
  | nil =>
    rw [validate_eq hp]
    exact ⟨fun _ => rfl, fun arg harg => by cases harg⟩
  | cons o os ih =>
    rw [parseOpts] at hp
    split_ifs at hp with ho
    · cases hp
      have hnone : lastDuration (o :: os) = none := by
        rw [lastDuration, List.takeWhile_cons, if_neg (by simpa using ho)]
        rfl
      exact ⟨fun _ => rfl, fun arg harg => by rw [hnone] at harg; cases harg⟩
    · cases hs : parseOption s o with
      | error e =>
        rw [hs] at hp
        cases hp
      | ok s1 =>
        rw [hs] at hp
        obtain ⟨hnone, hsome⟩ := ih hp
        obtain ⟨ht, hnot⟩ := parseOption_duration hs
        rw [lastDuration_cons ho]
        by_cases hot : o.1 = 't'
        · -- This `-t` counts if there is no further one.
          obtain ⟨arg, ho2, harg⟩ := ht hot
          rw [if_pos hot, ho2]
          cases hlast : lastDuration os with
          | none =>
            rw [hnone hlast, Option.none_or]
            exact ⟨fun h => absurd h (Option.some_ne_none arg),
              fun arg' h => Option.some.inj h ▸ harg⟩
          | some last =>
            rw [Option.some_or]
            exact ⟨fun h => absurd h (Option.some_ne_none last),
              fun arg' h => Option.some.inj h ▸ hsome last hlast⟩
        · rw [if_neg hot, ← hnot hot]
          exact ⟨hnone, hsome⟩

/-! ## What is requested -/

theorem toLower_of_isDigit {c : Char} (hc : c.isDigit = true) : c.toLower = c := by
  have hupper : ¬(c.val ≥ 'A'.val ∧ c.val ≤ 'Z'.val) := by
    simp only [Char.isDigit, Bool.and_eq_true, decide_eq_true_eq] at hc
    intro h
    have h9 := UInt32.le_iff_toNat_le.1 hc.2
    have hA := UInt32.le_iff_toNat_le.1 h.1
    have h9' : '9'.val.toNat = 57 := rfl
    have hA' : 'A'.val.toNat = 65 := rfl
    omega
  exact dif_neg hupper

/-- A unit does not begin with a digit. -/
theorem head?_of_strcasecmp {unitText : List Char} {durationUnit : DurationUnit}
    (hunit : strcasecmp unitText durationUnit.chars = true) :
    ∀ c ∈ unitText.head?, c.isDigit = false := by
  intro c hc
  obtain ⟨cs, rfl⟩ := List.head?_eq_some_iff.1 hc
  rw [← Bool.not_eq_true]
  intro hdigit
  have hmap : c.toLower :: cs.map Char.toLower = durationUnit.chars.map Char.toLower :=
    of_decide_eq_true hunit
  rw [toLower_of_isDigit hdigit] at hmap
  cases durationUnit <;> obtain rfl := (List.cons.inj hmap).1 <;> cases hdigit

theorem span_digits {ds rest : List Char} (hds : ∀ c ∈ ds, c.isDigit = true)
    (hrest : ∀ c ∈ rest.head?, c.isDigit = false) :
    digitRun (ds ++ rest) = ds ∧ (ds ++ rest).dropWhile Char.isDigit = rest := by
  rw [digitRun, List.takeWhile_append_of_pos hds, List.dropWhile_append_of_pos hds]
  cases rest with
  | nil => exact ⟨List.append_nil ds, rfl⟩
  | cons c cs =>
    have hc := hrest c rfl
    rw [List.takeWhile_cons_of_neg (by simp [hc]), List.dropWhile_cons_of_neg (by simp [hc])]
    exact ⟨List.append_nil ds, rfl⟩

/-- What the argument says is what is found in it. -/
theorem IsDuration.found {arg : Word} {n : ℕ} {durationUnit : DurationUnit}
    (harg : IsDuration arg n durationUnit) : (signed arg).1 = false ∧ number arg = n ∧
      strcasecmp (afterNumber arg) durationUnit.chars = true := by
  obtain ⟨blanks, sign, digits, unitText, rfl, hblanks, hsign, hne, hdigits, hn, hunit⟩ := harg
  obtain ⟨hrun, hrest⟩ := span_digits hdigits (head?_of_strcasecmp hunit)
  rw [number, afterNumber, signed_append hblanks hsign hdigits hne]
  exact ⟨rfl, by rw [hrun, hn], by rw [hrest, hunit]⟩

theorem isDuration_of_found {arg : Word} {durationUnit : DurationUnit}
    (hsigned : (signed arg).1 = false) (hne : digitRun (signed arg).2 ≠ [])
    (hunit : strcasecmp (afterNumber arg) durationUnit.chars = true) :
    IsDuration arg (number arg) durationUnit := by
  obtain ⟨blanks, sign, hblanks, hsign, harg⟩ := eq_of_signed hsigned
  have hsplit : digitRun (signed arg).2 ++ afterNumber arg = (signed arg).2 :=
    List.takeWhile_append_dropWhile
  exact ⟨blanks, sign, _, _, by rw [List.append_assoc (_ ++ _), hsplit, ← harg], hblanks, hsign,
    hne, isDigit_of_mem_digitRun, rfl, hunit⟩

/-- The unit in the argument. -/
theorem milliseconds_of_unit {arg : Word} {durationUnit : DurationUnit}
    (hunit : strcasecmp (afterNumber arg) durationUnit.chars = true) :
    milliseconds arg = number arg * durationUnit.inMs := by
  cases durationUnit with
  | s =>
    have hs : strcasecmp (afterNumber arg) ['s'] = true := hunit
    rw [milliseconds, if_pos hs, DurationUnit.inMs]
  | ms =>
    have hmap : (afterNumber arg).map Char.toLower = ['m', 's'] := of_decide_eq_true hunit
    rw [milliseconds, if_neg, DurationUnit.inMs]
    rw [strcasecmp, hmap]
    decide

/-- What an accepted argument is read as. -/
theorem parseDuration_eq_ok {arg : Word} {ms : ULong h} (hp : parseDuration h arg = .ok ms) :
    (strtoul h.longBits arg).1 ≠ 0 ∧ digitRun (signed arg).2 ≠ [] ∧
      ∃ durationUnit : DurationUnit, strcasecmp (afterNumber arg) durationUnit.chars = true ∧
        ms = (strtoul h.longBits arg).1 * .ofNat _ durationUnit.inMs := by
  rw [parseDuration] at hp
  dsimp only at hp
  by_cases hzero : (strtoul h.longBits arg).1 = 0
  · rw [if_pos hzero] at hp
    cases hp
  rw [if_neg hzero] at hp
  have hne : digitRun (signed arg).2 ≠ [] := by
    intro hnil
    rw [strtoul, if_pos hnil] at hzero
    exact hzero rfl
  have hrest : (strtoul h.longBits arg).2 = afterNumber arg := by rw [strtoul, if_neg hne]
  rw [hrest] at hp
  refine ⟨hzero, hne, ?_⟩
  by_cases hs : strcasecmp (afterNumber arg) ['s'] = true
  · rw [if_pos hs] at hp
    exact ⟨.s, hs, (Except.ok.inj hp).symm⟩
  · rw [if_neg hs] at hp
    by_cases hms : strcasecmp (afterNumber arg) ['m', 's'] = true
    · rw [if_pos hms] at hp
      exact ⟨.ms, hms, by rw [← Except.ok.inj hp]; exact (BitVec.mul_one _).symm⟩
    · rw [if_neg hms] at hp
      cases hp

/-- The number is read exactly if it has no minus sign and fits. -/
theorem toNat_strtoul {arg : Word} {w : ℕ} (hsigned : (signed arg).1 = false)
    (hne : digitRun (signed arg).2 ≠ []) (hfit : number arg < 2 ^ w) :
    (strtoul w arg).1.toNat = number arg := by
  rw [strtoul, if_neg hne]
  dsimp only
  rw [if_neg (Nat.not_le.2 hfit), hsigned, if_neg Bool.false_ne_true, BitVec.toNat_ofNat,
    Nat.mod_eq_of_lt hfit]

/-- For an argument which is accepted, the experiment lasts as long as it says exactly when it
    has no minus sign, and says less than 2^32 microseconds. -/
theorem lasts_iff_of_parseDuration {arg : Word} {s : Options h}
    (hp : parseDuration h arg = .ok s.experimentDurationMs) :
    Lasts arg s ↔ (signed arg).1 = false ∧ milliseconds arg * 1000 < 2 ^ 32 := by
  obtain ⟨hzero, hne, durationUnit, hunit, hms⟩ := parseDuration_eq_ok hp
  constructor
  · rintro ⟨n, durationUnit', hduration, -, -, -, -, husleep⟩
    obtain ⟨hsigned, rfl, hunit'⟩ := hduration.found
    refine ⟨hsigned, ?_⟩
    rw [milliseconds_of_unit hunit', ← husleep]
    exact (usleepArg s).isLt
  · rintro ⟨hsigned, hfit⟩
    have hlong := h.two_pow_32_le_longBits
    rw [milliseconds_of_unit hunit] at hfit
    have hunitPos : 0 < durationUnit.inMs := by cases durationUnit <;> decide
    have hle : number arg ≤ number arg * durationUnit.inMs := Nat.le_mul_of_pos_right _ hunitPos
    have hnumber := toNat_strtoul hsigned hne (w := h.longBits) (by omega)
    have hunitLt : durationUnit.inMs < 2 ^ h.longBits := by cases durationUnit <;>
      simp only [DurationUnit.inMs] <;> omega
    -- The products fit an `unsigned long`, as the last one fits a `useconds_t`.
    have hexact : s.experimentDurationMs.toNat = number arg * durationUnit.inMs := by
      rw [hms, BitVec.toNat_mul, hnumber, BitVec.toNat_ofNat, Nat.mod_eq_of_lt hunitLt,
        Nat.mod_eq_of_lt (by omega)]
    have hmicro : (s.experimentDurationMs * 1000).toNat =
        number arg * durationUnit.inMs * 1000 := by
      have hthousand : (1000 : ULong h).toNat = 1000 := by
        rw [show (1000 : ULong h) = .ofNat _ 1000 from rfl, BitVec.toNat_ofNat,
          Nat.mod_eq_of_lt (by omega)]
      rw [BitVec.toNat_mul, hexact, hthousand, Nat.mod_eq_of_lt (by omega)]
    have hpos : 0 < number arg := by
      rw [Nat.pos_iff_ne_zero, ← hnumber]
      exact fun h0 => hzero (BitVec.eq_of_toNat_eq h0)
    refine ⟨number arg, durationUnit, isDuration_of_found hsigned hne hunit, hpos, hnumber, hexact,
      hmicro, ?_⟩
    rw [usleepArg, BitVec.toNat_setWidth, hmicro, Nat.mod_eq_of_lt hfit]

/-- When the options are accepted, the experiment lasts as long as the argument of `-t` says exactly
    when this has no minus sign, and says less than 2^32 microseconds. -/
theorem lasts_iff {ws : List Word} {s : Options h} {arg : Word}
    (hp : parseCmdLineArgs h ws = .ok s)
    (harg : lastDuration (getopt optstring none ws) = some arg) :
    Lasts arg s ↔ (signed arg).1 = false ∧ milliseconds arg * 1000 < 2 ^ 32 :=
  lasts_iff_of_parseDuration ((parseOpts_duration hp).2 arg harg)

/-- The options of an experiment. -/
def experiment (duration : Word) : List Word :=
  [['-', 't'], duration, ['-', 'p'], ['5'], ['-', 'f'], ['c']]

/-- An hour and eleven minutes. -/
theorem lasts_iff_4294s : ∃ s : Options .lp64,
    parseCmdLineArgs .lp64 (experiment ['4', '2', '9', '4', 's']) = .ok s ∧
      Lasts ['4', '2', '9', '4', 's'] s := by
  obtain ⟨s, hs⟩ : ∃ s, parseCmdLineArgs .lp64 (experiment ['4', '2', '9', '4', 's']) = .ok s :=
    ⟨_, rfl⟩
  exact ⟨s, hs, (lasts_iff hs rfl).2 (by decide)⟩

/-- One more second is accepted, and `usleep` is given 32.704 ms. So is a negative duration. -/
theorem not_lasts :
    (∃ s : Options .lp64, parseCmdLineArgs .lp64 (experiment ['4', '2', '9', '5', 's']) = .ok s ∧
      (usleepArg s).toNat = 32704 ∧ ¬Lasts ['4', '2', '9', '5', 's'] s) ∧
    ∃ s : Options .lp64, parseCmdLineArgs .lp64 (experiment ['-', '5', 's']) = .ok s ∧
      ¬Lasts ['-', '5', 's'] s := by
  refine ⟨⟨_, rfl, by decide, fun hlasts => ?_⟩, ⟨_, rfl, fun hlasts => ?_⟩⟩
  · exact absurd ((lasts_iff_of_parseDuration rfl).1 hlasts).2 (by decide)
  · exact absurd ((lasts_iff_of_parseDuration rfl).1 hlasts).1 (by decide)

end RealtimeTests.CmdLine
