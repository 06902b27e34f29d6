import Columbo.NumberParsing

/-!
# Timestamp bounds of the command line

The bounds on the timestamps are read from the command line with the number
parser of the string utilities, whereas the timestamps of a trace are read with
the parser of the line handler. The former consumes a string and reads the
digits it delimits in base sixteen, whatever the base that was asked for. The
two agree in base sixteen, and in base ten where the value does not depend on
the base; they treat the text of the largest number differently.
-/
namespace Columbo

open Numeral

namespace SimStringUtils

def extractAndSubstrUntil (predicate : UInt8 → Bool) : Bytes → Bytes × Bytes
  | [] => ([], [])
  | letter :: extractFrom =>
    if predicate letter then
      let (extracted, extractFrom) := extractAndSubstrUntil predicate extractFrom
      (letter :: extracted, extractFrom)
    else ([], letter :: extractFrom)

/-- The number, and what is left of the string. -/
def parseUintTrim (base : ℕ) (s : Bytes) : Option UInt64 × Bytes :=
  let (numString, s) := extractAndSubstrUntil (if base = 10 then isNum else isAlnum) s
  if numString.isEmpty then (none, s)
  else
    let num := strtoul 16 numString
    if num = ULONG_MAX then (none, s) else (some num.toUInt64, s)

def parseUintTrimCopy (base : ℕ) (s : Bytes) : Option UInt64 := (parseUintTrim base s).1

theorem extractAndSubstrUntil_eq (predicate : UInt8 → Bool) (s : Bytes) :
    extractAndSubstrUntil predicate s = (s.takeWhile predicate, s.dropWhile predicate) := by
  induction s with
  | nil => rfl
  | cons letter s ih =>
    cases h : predicate letter with
    | true => simp [extractAndSubstrUntil, h, ih]
    | false => simp [extractAndSubstrUntil, h]

end SimStringUtils

structure EventTimeBoundary where
  lowerBound : UInt64
  upperBound : UInt64

namespace EventTimeBoundary

def kMinLowerBound : UInt64 := 0

def kMaxUpperBound : UInt64 := (2 ^ 64 - 1).toUInt64

end EventTimeBoundary

/-- `EventTimestampFilter::handel`: whether an event with this timestamp is passed on. -/
def EventTimestampFilter.handel (eventTimeBoundaries : List EventTimeBoundary)
    (timestamp : UInt64) : Bool :=
  eventTimeBoundaries.any fun boundary =>
    boundary.lowerBound ≤ timestamp && timestamp ≤ boundary.upperBound

/-- The boundary that `main` makes of the options `ts-lower-bound` and
`ts-upper-bound`. A bound that cannot be parsed keeps its default. -/
def timestampBounds (parse : Bytes → Option UInt64) (tsLowerBound tsUpperBound : Option Bytes) :
    EventTimeBoundary :=
  { lowerBound := (tsLowerBound.bind parse).getD EventTimeBoundary.kMinLowerBound
    upperBound := (tsUpperBound.bind parse).getD EventTimeBoundary.kMaxUpperBound }

section Tokens

/-- A decimal token has the same digits in base sixteen. -/
theorem digitRun_sixteen_isNum (s : Bytes) : digitRun 16 (s.takeWhile isNum) = digitRun 10 s := by
  induction s with
  | nil => rfl
  | cons c s ih =>
    cases hc : isNum c with
    | true =>
      obtain ⟨d, hd, hlt⟩ := isDigitOf_iff.mp ((isDigitOf_ten (c := c)).trans hc)
      rw [List.takeWhile_cons, if_pos hc, digitRun, digitRun, hd]
      have h16 : d < 16 := by omega
      simp only [if_pos hlt, if_pos h16, ih]
    | false =>
      rw [digitRun_cons_neg (isDigitOf_ten.trans hc), List.takeWhile_cons, if_neg (by simp [hc])]
      rfl

theorem skip0x_of_isNum {t : Bytes} (h : ∀ c ∈ t, isNum c = true) : skip0x t = t := by
  unfold skip0x
  split
  · next z x c u =>
    have hx := h x (by simp)
    rw [if_neg]
    rintro ⟨-, rfl | rfl, -⟩
    · exact absurd hx (by decide)
    · exact absurd hx (by decide)
  · rfl

/-- A decimal token is read in base sixteen. -/
theorem strtoul_sixteen_takeWhile_isNum (t : Bytes) :
    strtoul 16 (t.takeWhile isNum) = min (value 16 (digitRun 10 t)) ULONG_MAX := by
  rw [strtoul, if_pos rfl, skip0x_of_isNum fun c hc => List.mem_takeWhile_imp hc,
    digitRun_sixteen_isNum]

end Tokens

section Agreement

variable {base : ℕ} {s mem : Bytes}

/-- What the string utilities read. -/
theorem parseUintTrim_string (base : ℕ) (s : Bytes) :
    SimStringUtils.parseUintTrim base s =
      if s.takeWhile (numberClass base) = [] then (none, s)
      else if strtoul 16 (s.takeWhile (numberClass base)) = ULONG_MAX then
        (none, s.dropWhile (numberClass base))
      else (some (strtoul 16 (s.takeWhile (numberClass base))).toUInt64,
        s.dropWhile (numberClass base)) := by
  have hclass : (if base = 10 then isNum else isAlnum) = numberClass base := rfl
  rw [SimStringUtils.parseUintTrim, hclass, SimStringUtils.extractAndSubstrUntil_eq]
  simp only [List.isEmpty_iff]
  split_ifs with hempty
  · have hsplit := List.takeWhile_append_dropWhile (p := numberClass base) (l := s)
    rw [hempty, List.nil_append] at hsplit
    rw [hsplit]
  · rfl
  · rfl

/-- What the line handler reads of the same text. -/
theorem parseUintTrim_line (hbase : base = 10 ∨ base = 16) (s mem : Bytes) :
    let line := parseUintTrim base (.ofLine s (kLineEnd :: mem))
    (line.1, line.2.rest) =
      if s.takeWhile (numberClass base) = [] ∨ strtoul base s = ULONG_MAX then (none, s)
      else (some (strtoul base s).toUInt64, s.dropWhile (numberClass base)) := by
  have hv := atText_ofLine s mem
  have hsplit : s.takeWhile (numberClass base) ++ s.dropWhile (numberClass base) = s :=
    List.takeWhile_append_dropWhile
  simp only [parseUintTrim_eq hbase hv, strtoul_append_lineEnd, List.length_eq_zero_iff]
  split_ifs with hfails
  · rw [hv.rest_eq]
  · have hbehind : AtText mem (.ofLine s (kLineEnd :: mem))
        (s.takeWhile (numberClass base) ++ s.dropWhile (numberClass base)) := by rwa [hsplit]
    rw [hbehind.advance.rest_eq]

/-- Both parsers read the same number or none, and leave the same text. -/
def ReadAlike (base : ℕ) (s : Bytes) : Prop :=
  ∀ mem, let line := parseUintTrim base (.ofLine s (kLineEnd :: mem))
    SimStringUtils.parseUintTrim base s = (line.1, line.2.rest)

/-- Both parsers read the same number or none, and leave the same text behind a number. -/
def ReadAlikeOnSuccess (base : ℕ) (s : Bytes) : Prop :=
  ∀ mem, let line := parseUintTrim base (.ofLine s (kLineEnd :: mem))
    (SimStringUtils.parseUintTrim base s).1 = line.1 ∧
      (line.1.isSome → (SimStringUtils.parseUintTrim base s).2 = line.2.rest)

theorem toUInt64_strtoul_inj (b b' : ℕ) (t t' : Bytes) :
    (strtoul b t).toUInt64 = (strtoul b' t').toUInt64 ↔ strtoul b t = strtoul b' t' := by
  have hmod : ∀ b t, strtoul b t % 2 ^ 64 = strtoul b t := fun b t => by
    rw [strtoul]
    exact Nat.mod_eq_of_lt ((min_le_right _ _).trans_lt (by decide))
  refine ⟨fun h => ?_, fun h => by rw [h]⟩
  have heq := congrArg UInt64.toNat h
  rw [← hmod b t, ← hmod b' t']
  simpa using heq

/-- It is the value of the token that decides. -/
theorem readAlikeOnSuccess_iff_token (hbase : base = 10 ∨ base = 16) :
    ReadAlikeOnSuccess base s ↔ s.takeWhile (numberClass base) = [] ∨
      strtoul 16 (s.takeWhile (numberClass base)) = strtoul base s := by
  have hinj := toUInt64_strtoul_inj 16 base (s.takeWhile (numberClass base)) s
  have hline : ∀ mem, _ := parseUintTrim_line hbase s
  simp only [Prod.ext_iff] at hline
  simp only [ReadAlikeOnSuccess, hline, parseUintTrim_string, forall_const]
  generalize strtoul 16 (s.takeWhile (numberClass base)) = string at hinj ⊢
  generalize strtoul base s = line at hinj ⊢
  by_cases hempty : s.takeWhile (numberClass base) = []
  · simp [hempty]
  · by_cases hstring : string = ULONG_MAX <;> by_cases hmax : line = ULONG_MAX
    · simp [hempty, hstring, hmax]
    · simp [hempty, hstring, hmax, Ne.symm hmax]
    · simp [hempty, hstring, hmax]
    · simp [hempty, hstring, hmax, hinj]

/-- After the largest number the string is consumed, and the line is not. -/
theorem readAlike_iff_token (hbase : base = 10 ∨ base = 16) :
    ReadAlike base s ↔ s.takeWhile (numberClass base) = [] ∨
      strtoul 16 (s.takeWhile (numberClass base)) = strtoul base s ∧ strtoul base s ≠ ULONG_MAX := by
  have hinj := toUInt64_strtoul_inj 16 base (s.takeWhile (numberClass base)) s
  simp only [ReadAlike, parseUintTrim_line hbase s, parseUintTrim_string, forall_const]
  generalize strtoul 16 (s.takeWhile (numberClass base)) = string at hinj ⊢
  generalize strtoul base s = line at hinj ⊢
  by_cases hempty : s.takeWhile (numberClass base) = []
  · simp [hempty]
  · have hshorter : s.dropWhile (numberClass base) ≠ s := by
      intro heq
      have hlength := congrArg List.length
        (List.takeWhile_append_dropWhile (p := numberClass base) (l := s))
      rw [heq, List.length_append] at hlength
      exact hempty (List.length_eq_zero_iff.mp (by omega))
    by_cases hstring : string = ULONG_MAX <;> by_cases hmax : line = ULONG_MAX
    · simp [hempty, hstring, hmax, hshorter]
    · simp [hempty, hstring, hmax, Ne.symm hmax]
    · simp [hempty, hstring, hmax]
    · simp [hempty, hstring, hmax, hinj]

/-- The decimal value is below ten, or so large that neither parser accepts the number. -/
def SameInBoth (s : Bytes) : Prop :=
  value 10 (digitsAt 10 s) < 10 ∨ ULONG_MAX ≤ value 10 (digitsAt 10 s)

theorem digit_lt_of_mem_digitRun {d : ℕ} (h : d ∈ digitRun base s) : d < base := by
  induction s with
  | nil => cases h
  | cons c s ih =>
    rw [digitRun] at h
    split at h
    · split_ifs at h with hlt
      · rcases List.mem_cons.mp h with rfl | h
        · exact hlt
        · exact ih h
      · cases h
    · cases h

theorem strtoul_ten (s : Bytes) : strtoul 10 s = min (value 10 (digitsAt 10 s)) ULONG_MAX := rfl

theorem strtoul_token_ten (s : Bytes) :
    strtoul 16 (s.takeWhile (numberClass 10)) = min (value 16 (digitsAt 10 s)) ULONG_MAX :=
  strtoul_sixteen_takeWhile_isNum s

/-- Only a value below ten is the same in base sixteen. -/
theorem value_sixteen (s : Bytes) : value 10 (digitsAt 10 s) ≤ value 16 (digitsAt 10 s) ∧
    (value 10 (digitsAt 10 s) = value 16 (digitsAt 10 s) ↔ value 10 (digitsAt 10 s) < 10) := by
  have hdigits : ∀ d ∈ digitsAt 10 s, d < 10 := fun d hd => digit_lt_of_mem_digitRun hd
  exact ⟨value_mono (by decide) _,
    value_eq_value_iff (b := 10) (c := 16) (by decide) hdigits (by decide)⟩

theorem sameInBoth_iff (s : Bytes) :
    SameInBoth s ↔ strtoul 16 (s.takeWhile (numberClass 10)) = strtoul 10 s := by
  obtain ⟨hmono, hsame⟩ := value_sixteen s
  rw [strtoul_token_ten, strtoul_ten, SameInBoth, ← hsame]
  omega

theorem takeWhile_ten_eq_nil (s : Bytes) :
    s.takeWhile (numberClass 10) = [] ↔ digitsAt 10 s = [] := by
  change s.takeWhile isNum = [] ↔ digitRun 10 s = []
  cases s with
  | nil => simp [digitRun]
  | cons c s =>
    cases hc : isNum c with
    | true =>
      obtain ⟨d, hd, hlt⟩ := isDigitOf_iff.mp ((isDigitOf_ten (c := c)).trans hc)
      simp [hc, digitRun, hd, hlt]
    | false => simp [hc, digitRun_cons_neg (isDigitOf_ten.trans hc)]

theorem takeWhile_ten_of_nil (h : s.takeWhile (numberClass 10) = []) :
    value 10 (digitsAt 10 s) = 0 := by
  rw [(takeWhile_ten_eq_nil s).mp h, value_nil]

theorem takeWhile_sixteen_of_nil (h : s.takeWhile (numberClass 16) = []) :
    strtoul 16 s = 0 := by
  rw [← strtoul_takeWhile (.inr rfl), h]
  rfl

/-- The bound that a text states. Without a decimal number in front it states none. -/
def decimalBound (s : Bytes) : Option ℕ :=
  if digitsAt 10 s = [] then none else some (value 10 (digitsAt 10 s))

/-- With these options `main` selects the timestamps between the decimal bounds. -/
def SelectsBetween (tsLowerBound tsUpperBound : Option Bytes) : Prop :=
  ∀ timestamp : UInt64,
    EventTimestampFilter.handel
        [timestampBounds (SimStringUtils.parseUintTrimCopy 10) tsLowerBound tsUpperBound]
        timestamp = true ↔
      (∀ n, tsLowerBound.bind decimalBound = some n → n ≤ timestamp.toNat) ∧
        ∀ n, tsUpperBound.bind decimalBound = some n → timestamp.toNat ≤ n

theorem parseUintTrimCopy_ten (s : Bytes) :
    SimStringUtils.parseUintTrimCopy 10 s =
      if digitsAt 10 s = [] ∨ ULONG_MAX ≤ value 16 (digitsAt 10 s) then none
      else some (value 16 (digitsAt 10 s)).toUInt64 := by
  rw [SimStringUtils.parseUintTrimCopy, parseUintTrim_string, strtoul_token_ten]
  simp only [takeWhile_ten_eq_nil]
  by_cases hempty : digitsAt 10 s = []
  · simp [hempty]
  · rcases Nat.lt_or_ge (value 16 (digitsAt 10 s)) ULONG_MAX with hlt | hle
    · rw [min_eq_left hlt.le, if_neg hempty, if_neg hlt.ne,
        if_neg (not_or.mpr ⟨hempty, hlt.not_ge⟩)]
    · rw [min_eq_right hle, if_neg hempty, if_pos rfl, if_pos (.inr hle)]

theorem toNat_toUInt64_of_lt {n : ℕ} (h : n < ULONG_MAX) : n.toUInt64.toNat = n :=
  UInt64.toNat_ofNat_of_lt' (h.trans (by decide))

theorem le_kMaxUpperBound (timestamp : UInt64) :
    timestamp ≤ EventTimeBoundary.kMaxUpperBound := by
  have hlt := timestamp.toNat_lt
  rw [UInt64.le_iff_toNat_le]
  simp [EventTimeBoundary.kMaxUpperBound]
  omega

theorem kMinLowerBound_le (timestamp : UInt64) :
    EventTimeBoundary.kMinLowerBound ≤ timestamp := by
  rw [UInt64.le_iff_toNat_le]
  exact Nat.zero_le _

/-- A lower bound selects the timestamps from its value on exactly if the value is below ten. One
that is too large is dropped. -/
theorem lowerBound_iff : (∀ timestamp : UInt64,
      (SimStringUtils.parseUintTrimCopy 10 s).getD EventTimeBoundary.kMinLowerBound ≤ timestamp ↔
        ∀ n, decimalBound s = some n → n ≤ timestamp.toNat) ↔ value 10 (digitsAt 10 s) < 10 := by
  obtain ⟨hmono, hsame⟩ := value_sixteen s
  by_cases hnil : digitsAt 10 s = []
  · simp [parseUintTrimCopy_ten, decimalBound, hnil, kMinLowerBound_le, value_nil]
  · have hbound : decimalBound s = some (value 10 (digitsAt 10 s)) := if_neg hnil
    simp only [parseUintTrimCopy_ten, hnil, false_or, hbound, Option.some.injEq, forall_eq']
    split_ifs with hlarge
    · constructor
      · intro h
        have hzero := (h 0).mp (kMinLowerBound_le 0)
        exact (Nat.le_zero.mp hzero).trans_lt (by decide)
      · intro hlt
        unfold ULONG_MAX at hlarge
        omega
    · have hvalue := toNat_toUInt64_of_lt (not_le.mp hlarge)
      have hten := toNat_toUInt64_of_lt (hmono.trans_lt (not_le.mp hlarge))
      simp only [Option.getD_some, UInt64.le_iff_toNat_le, hvalue, ← hsame]
      refine ⟨fun h => hmono.antisymm ?_, fun h timestamp => by rw [h]⟩
      rw [← hten]
      exact (h _).mpr hten.ge

/-- An upper bound that is too large is dropped as well, and excludes no timestamp. -/
theorem upperBound_iff : (∀ timestamp : UInt64,
      timestamp ≤ (SimStringUtils.parseUintTrimCopy 10 s).getD EventTimeBoundary.kMaxUpperBound ↔
        ∀ n, decimalBound s = some n → timestamp.toNat ≤ n) ↔ SameInBoth s := by
  obtain ⟨hmono, hsame⟩ := value_sixteen s
  have hmax : EventTimeBoundary.kMaxUpperBound.toNat = ULONG_MAX := by decide
  by_cases hnil : digitsAt 10 s = []
  · simp [parseUintTrimCopy_ten, decimalBound, hnil, le_kMaxUpperBound, SameInBoth, value_nil]
  · have hbound : decimalBound s = some (value 10 (digitsAt 10 s)) := if_neg hnil
    simp only [parseUintTrimCopy_ten, hnil, false_or, hbound, Option.some.injEq, forall_eq']
    split_ifs with hlarge
    · rw [Option.getD_none, SameInBoth]
      constructor
      · intro h
        exact .inr (hmax ▸ (h _).mp UInt64.le_rfl)
      · rintro (hlt | hle) timestamp
        · unfold ULONG_MAX at hlarge
          omega
        · have hlt := timestamp.toNat_lt
          unfold ULONG_MAX at hle
          exact iff_of_true (le_kMaxUpperBound timestamp) (by omega)
    · have hvalue := toNat_toUInt64_of_lt (not_le.mp hlarge)
      have hsmall : SameInBoth s ↔ value 10 (digitsAt 10 s) < 10 :=
        or_iff_left (hmono.trans_lt (not_le.mp hlarge)).not_ge
      simp only [Option.getD_some, UInt64.le_iff_toNat_le, hvalue, hsmall, ← hsame]
      refine ⟨fun h => hmono.antisymm ?_, fun h timestamp => by rw [h]⟩
      have hself := (h (value 16 (digitsAt 10 s)).toUInt64).mp hvalue.le
      rwa [hvalue] at hself

theorem selectsBetween_lower : SelectsBetween (some s) none ↔ value 10 (digitsAt 10 s) < 10 := by
  rw [← lowerBound_iff]
  simp [SelectsBetween, EventTimestampFilter.handel, timestampBounds, le_kMaxUpperBound]

theorem selectsBetween_upper : SelectsBetween none (some s) ↔ SameInBoth s := by
  rw [← upperBound_iff]
  simp [SelectsBetween, EventTimestampFilter.handel, timestampBounds, kMinLowerBound_le]

theorem selectsBetween_of_bounds {s' : Bytes} (h : value 10 (digitsAt 10 s) < 10)
    (h' : SameInBoth s') : SelectsBetween (some s) (some s') := by
  intro timestamp
  have hlower := lowerBound_iff.mpr h timestamp
  have hupper := upperBound_iff.mpr h' timestamp
  simp [EventTimestampFilter.handel, timestampBounds, hlower, hupper]

theorem readAlikeOnSuccess_ten : ReadAlikeOnSuccess 10 s ↔ SameInBoth s := by
  rw [readAlikeOnSuccess_iff_token (.inl rfl), ← sameInBoth_iff]
  refine or_iff_right_of_imp fun hnil => .inl ?_
  rw [takeWhile_ten_of_nil hnil]
  decide

theorem readAlikeOnSuccess_sixteen (s : Bytes) : ReadAlikeOnSuccess 16 s :=
  (readAlikeOnSuccess_iff_token (.inr rfl)).mpr (.inr (strtoul_takeWhile (.inr rfl) s))

theorem readAlike_ten : ReadAlike 10 s ↔ value 10 (digitsAt 10 s) < 10 := by
  rw [readAlike_iff_token (.inl rfl), ← sameInBoth_iff, strtoul_ten, SameInBoth]
  constructor
  · rintro (hnil | ⟨hsame, hmax⟩)
    · rw [takeWhile_ten_of_nil hnil]
      decide
    · omega
  · intro hlt
    refine .inr ⟨.inl hlt, ?_⟩
    rw [min_eq_left (by unfold ULONG_MAX; omega)]
    unfold ULONG_MAX
    omega

theorem readAlike_sixteen : ReadAlike 16 s ↔ strtoul 16 s ≠ ULONG_MAX := by
  rw [readAlike_iff_token (.inr rfl), and_iff_right (strtoul_takeWhile (.inr rfl) s)]
  refine or_iff_right_of_imp fun hnil => ?_
  rw [takeWhile_sixteen_of_nil hnil]
  decide

/-- The parsers read a text alike exactly if the base is sixteen and the number
not the largest, or the base is ten and the number below ten. Apart from what is
left of the text they also agree on the largest number. `main` selects by the
decimal value of a lower bound exactly if it is below ten, and by that of an
upper bound also if it excludes no timestamp. -/
theorem readAlike_iff (hbase : base = 10 ∨ base = 16) (s s' : Bytes) :
    (ReadAlike base s ↔ base = 16 ∧ strtoul 16 s ≠ ULONG_MAX ∨
        base = 10 ∧ value 10 (digitsAt 10 s) < 10) ∧
      (ReadAlikeOnSuccess base s ↔ base = 16 ∨ base = 10 ∧ SameInBoth s) ∧
      (SelectsBetween (some s) none ↔ value 10 (digitsAt 10 s) < 10) ∧
      (SelectsBetween none (some s) ↔ SameInBoth s) ∧
      (value 10 (digitsAt 10 s) < 10 → SameInBoth s' → SelectsBetween (some s) (some s')) := by
  refine ⟨?_, ?_, selectsBetween_lower, selectsBetween_upper, selectsBetween_of_bounds⟩
  · rcases hbase with rfl | rfl
    · simp [readAlike_ten]
    · simp [readAlike_sixteen]
  · rcases hbase with rfl | rfl
    · simp [readAlikeOnSuccess_ten]
    · simp [readAlikeOnSuccess_sixteen]

theorem readAlike_iff_seven :
    (10 = 10 ∨ 10 = 16) ∧
      (ReadAlike 10 (bytes "7") ↔ 10 = 16 ∧ strtoul 16 (bytes "7") ≠ ULONG_MAX ∨
        10 = 10 ∧ value 10 (digitsAt 10 (bytes "7")) < 10) :=
  ⟨by decide, (readAlike_iff (by decide) (bytes "7") (bytes "7")).1⟩

/-- The bound `10` is read as sixteen, so a timestamp of twelve is left out. -/
theorem not_readAlike :
    ¬ (∀ base s, base = 10 ∨ base = 16 → ReadAlikeOnSuccess base s) ∧
      ¬ SelectsBetween (some (bytes "10")) none := by
  constructor
  · intro hall
    exact absurd (hall 10 (bytes "10") (by decide) []).1 (by decide)
  · intro hselects
    exact absurd (selectsBetween_lower.mp hselects) (by decide)

end Agreement

end Columbo
