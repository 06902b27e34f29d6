import Columbo.LineReading

/-!
# Numbers at the front of a line

The extent of a number is found with the character classes of the utilities and its value
with the C library. In base ten the two agree; in base sixteen the class takes every letter,
so what the digits are followed by matters. The largest number is taken for an error, and an
`int` keeps the low half of what it reads.
-/
namespace Columbo

open Numeral

def isDigitOf (base : ℕ) (c : UInt8) : Bool := (digitOf c).any (· < base)

/-- The length of a `0x` in front of a hexadecimal digit. -/
def prefix0x : Bytes → ℕ
  | z :: x :: c :: _ => if z = byte '0' ∧ x = byte 'x' ∧ isDigitOf 16 c then 2 else 0
  | _ => 0

def prefixLength (base : ℕ) (t : Bytes) : ℕ := if base = 16 then prefix0x t else 0

/-- The run of digits at the front of a text, which a prefix may precede. -/
def digitsAt (base : ℕ) (t : Bytes) : List ℕ := digitRun base (t.drop (prefixLength base t))

/-- The text behind the run of digits. -/
def behindDigits (base : ℕ) (t : Bytes) : Bytes :=
  t.drop (prefixLength base t + (digitsAt base t).length)

/-- The bytes that `parseUintTrim` takes for a part of the number. -/
def numberClass (base : ℕ) : UInt8 → Bool := if base = 10 then isNum else isAlnum

namespace LineHandler

/-- A number of the base that fits 64 bits is read, and nothing else. -/
def requiredUint (base : ℕ) (h : LineHandler) : Option UInt64 × LineHandler :=
  let digits := digitsAt base h.rest
  if digits ≠ [] ∧ value base digits < 2 ^ 64 then
    (some (value base digits).toUInt64,
      h.advance (prefixLength base h.rest + digits.length))
  else (none, h)

/-- A decimal number that fits an `int` is read, and nothing else. -/
def requiredInt (h : LineHandler) : Option Int32 × LineHandler :=
  let digits := digitsAt 10 h.rest
  if digits ≠ [] ∧ value 10 digits < 2 ^ 31 then
    (some (Int32.ofNat (value 10 digits)), h.advance digits.length)
  else (none, h)

end LineHandler

section Runs

variable {base : ℕ} {c : UInt8} {s t mem : Bytes}

theorem isDigitOf_iff : isDigitOf base c = true ↔ ∃ d, digitOf c = some d ∧ d < base := by
  unfold isDigitOf
  cases digitOf c <;> simp

theorem isDigitOf_ten : isDigitOf 10 c = isNum c := by
  rw [Bool.eq_iff_iff, isDigitOf_iff]
  unfold digitOf isNum
  constructor
  · rintro ⟨d, hd, hlt⟩
    split_ifs at hd with hnum hupper hlower
    · simpa using hnum
    · have h65 : 65 ≤ c.toNat := UInt8.le_iff_toNat_le.mp hupper.1
      have hd := Option.some.inj hd
      omega
    · have h97 : 97 ≤ c.toNat := UInt8.le_iff_toNat_le.mp hlower.1
      have hd := Option.some.inj hd
      omega
  · intro hnum
    have hnum : 48 ≤ c ∧ c ≤ 57 := by simpa using hnum
    have h57 : c.toNat ≤ 57 := UInt8.le_iff_toNat_le.mp hnum.2
    exact ⟨c.toNat - 48, if_pos hnum, by omega⟩

/-- A digit belongs to what the parser takes for the number. -/
theorem numberClass_of_isDigitOf (hbase : base = 10 ∨ base = 16) (hc : isDigitOf base c = true) :
    numberClass base c = true := by
  rcases hbase with rfl | rfl
  · rwa [isDigitOf_ten] at hc
  · obtain ⟨d, hd, -⟩ := isDigitOf_iff.mp hc
    exact isAlnum_of_digitOf hd

theorem digitRun_cons_pos (hc : isDigitOf base c = true) :
    ∃ d, digitRun base (c :: s) = d :: digitRun base s := by
  obtain ⟨d, hd, hlt⟩ := isDigitOf_iff.mp hc
  exact ⟨d, by simp [digitRun, hd, hlt]⟩

theorem digitRun_cons_neg (hc : isDigitOf base c = false) : digitRun base (c :: s) = [] := by
  rw [digitRun]
  split
  · next d hd =>
    rw [if_neg]
    intro hlt
    rw [isDigitOf_iff.mpr ⟨d, hd, hlt⟩] at hc
    cases hc
  · rfl

theorem length_takeWhile_isDigitOf (base : ℕ) (s : Bytes) :
    (s.takeWhile (isDigitOf base)).length = (digitRun base s).length := by
  induction s with
  | nil => rfl
  | cons c s ih =>
    cases hc : isDigitOf base c with
    | false => rw [digitRun_cons_neg hc, List.takeWhile_cons, if_neg (by simp [hc])]; rfl
    | true =>
      obtain ⟨d, hd⟩ := digitRun_cons_pos (s := s) hc
      rw [hd, List.takeWhile_cons, if_pos hc, List.length_cons, List.length_cons, ih]

/-- A newline ends every run. -/
theorem digitRun_append_lineEnd (s : Bytes) :
    digitRun base (s ++ kLineEnd :: mem) = digitRun base s := by
  have hend : digitOf kLineEnd = none := by decide
  induction s with
  | nil => simp [digitRun, hend]
  | cons c s ih =>
    rw [List.cons_append, digitRun, digitRun]
    cases digitOf c with
    | none => rfl
    | some d => dsimp only; rw [ih]

theorem takeWhile_append_lineEnd {pred : UInt8 → Bool} (hpred : pred kLineEnd = false)
    (s : Bytes) : (s ++ kLineEnd :: mem).takeWhile pred = s.takeWhile pred := by
  induction s with
  | nil => simp [hpred]
  | cons c s ih => simp only [List.cons_append, List.takeWhile_cons, ih]

theorem numberClass_lineEnd (base : ℕ) : numberClass base kLineEnd = false := by
  unfold numberClass
  split_ifs <;> decide

theorem digitRun_singleton_length : (digitRun base [c]).length = 1 ↔ isDigitOf base c = true := by
  cases hc : isDigitOf base c with
  | false => simp [digitRun_cons_neg hc]
  | true =>
    obtain ⟨d, hd⟩ := digitRun_cons_pos (s := []) hc
    rw [hd]
    simp [digitRun]

end Runs

section Prefix

variable {base : ℕ} {t mem : Bytes}

theorem prefixLength_cases (base : ℕ) (t : Bytes) : prefixLength base t = 0 ∨
    base = 16 ∧ prefixLength base t = 2 ∧
      ∃ c u, t = byte '0' :: byte 'x' :: c :: u ∧ isDigitOf 16 c = true := by
  unfold prefixLength
  split_ifs with hbase
  · unfold prefix0x
    split
    · next z x c u =>
      split_ifs with hlead
      · obtain ⟨rfl, rfl, hc⟩ := hlead
        exact .inr ⟨hbase, rfl, c, u, rfl, hc⟩
      · exact .inl rfl
    · exact .inl rfl
  · exact .inl rfl

theorem prefixLength_of_digitsAt_nil (h : digitsAt base t = []) : prefixLength base t = 0 := by
  rcases prefixLength_cases base t with hzero | ⟨rfl, htwo, c, u, rfl, hc⟩
  · exact hzero
  · rw [digitsAt, htwo] at h
    obtain ⟨d, hd⟩ := digitRun_cons_pos (s := u) hc
    exact absurd (hd.symm.trans h) (by simp)

/-- The number as the parser delimits it: the digits, and whatever of its class follows. -/
theorem length_takeWhile_numberClass (hbase : base = 10 ∨ base = 16) (t : Bytes) :
    (t.takeWhile (numberClass base)).length =
      prefixLength base t + (digitsAt base t).length +
        ((behindDigits base t).takeWhile (numberClass base)).length := by
  have hlead : ∀ c ∈ t.take (prefixLength base t), numberClass base c = true := by
    rcases prefixLength_cases base t with hzero | ⟨rfl, htwo, c, u, rfl, hc⟩
    · simp [hzero]
    · rw [htwo]
      simp [numberClass, show isAlnum (byte '0') = true by decide,
        show isAlnum (byte 'x') = true by decide]
  have hlength : (t.take (prefixLength base t)).length = prefixLength base t := by
    rcases prefixLength_cases base t with hzero | ⟨rfl, htwo, c, u, rfl, hc⟩
    · simp [hzero]
    · rw [htwo]
      rfl
  have hdigits : ∀ c ∈ (t.drop (prefixLength base t)).takeWhile (isDigitOf base),
      numberClass base c = true :=
    fun c hc => numberClass_of_isDigitOf hbase (List.mem_takeWhile_imp hc)
  have hrun := length_takeWhile_isDigitOf base (t.drop (prefixLength base t))
  have hbehind : (t.drop (prefixLength base t)).dropWhile (isDigitOf base) =
      behindDigits base t := by
    have hdrop := congrArg (List.drop (digitRun base (t.drop (prefixLength base t))).length)
      (List.takeWhile_append_dropWhile (p := isDigitOf base) (l := t.drop (prefixLength base t)))
    rwa [← hrun, List.drop_left, hrun, List.drop_drop] at hdrop
  have hsplit : t = t.take (prefixLength base t) ++
      ((t.drop (prefixLength base t)).takeWhile (isDigitOf base) ++ behindDigits base t) := by
    rw [← hbehind, List.takeWhile_append_dropWhile, List.take_append_drop]
  have htoken : t.takeWhile (numberClass base) = t.take (prefixLength base t) ++
      ((t.drop (prefixLength base t)).takeWhile (isDigitOf base) ++
        (behindDigits base t).takeWhile (numberClass base)) := by
    conv_lhs => rw [hsplit]
    rw [List.takeWhile_append_of_pos hlead, List.takeWhile_append_of_pos hdigits]
  rw [htoken, List.length_append, List.length_append, hlength, hrun, digitsAt]
  omega

theorem skip0x_append_lineEnd (t : Bytes) :
    skip0x (t ++ kLineEnd :: mem) = skip0x t ++ kLineEnd :: mem := by
  have hzero : kLineEnd ≠ byte '0' := by decide
  have hx : ¬ (kLineEnd = byte 'x' ∨ kLineEnd = byte 'X') := by decide
  have hdigit : (digitRun 16 [kLineEnd]).length ≠ 1 := by decide
  match t with
  | [] => rcases mem with _ | ⟨a, _ | ⟨b, mem⟩⟩ <;> simp [skip0x, hzero]
  | [z] => cases mem <;> simp [skip0x, hx]
  | [z, x] => simp [skip0x, hdigit]
  | z :: x :: c :: u =>
    simp only [skip0x, List.cons_append]
    split_ifs <;> rfl

/-- The C library skips the prefix, and a prefix with a capital letter as well. Behind that
the digits of the claimed number end at the letter. -/
theorem skip0x_cases (t : Bytes) : skip0x t = t.drop (prefixLength 16 t) ∨
    digitsAt 16 t = [0] ∧ ¬ StopsAt (numberClass 16) (behindDigits 16 t) := by
  have hdigit : ∀ c, (digitRun 16 [c]).length = 1 ↔ isDigitOf 16 c = true :=
    fun _ => digitRun_singleton_length
  match t with
  | [] => exact .inl rfl
  | [_] => exact .inl rfl
  | [_, _] => exact .inl rfl
  | z :: x :: c :: u =>
    by_cases hlead : z = byte '0' ∧ (x = byte 'x' ∨ x = byte 'X') ∧ isDigitOf 16 c = true
    · obtain ⟨rfl, rfl | rfl, hc⟩ := hlead
      · left
        simp [skip0x, hdigit, prefixLength, prefix0x, hc]
      · right
        have hcapital : byte 'X' ≠ byte 'x' := by decide
        have hnone : prefixLength 16 (byte '0' :: byte 'X' :: c :: u) = 0 := by
          simp [prefixLength, prefix0x, hcapital]
        have hdigits : digitsAt 16 (byte '0' :: byte 'X' :: c :: u) = [0] := by
          rw [digitsAt, hnone, List.drop_zero, digitRun, show digitOf (byte '0') = some 0 by decide]
          have hletter : isDigitOf 16 (byte 'X') = false := by decide
          simp [digitRun_cons_neg hletter]
        refine ⟨hdigits, ?_⟩
        rw [behindDigits, hnone, hdigits]
        simp [numberClass, show isAlnum (byte 'X') = true by decide]
    · left
      have hnone : prefixLength 16 (z :: x :: c :: u) = 0 := by
        rw [prefixLength, if_pos rfl, prefix0x, if_neg]
        rintro ⟨hz, hx, hc⟩
        exact hlead ⟨hz, .inl hx, hc⟩
      rw [hnone, List.drop_zero, skip0x, if_neg]
      rintro ⟨hz, hx, hc⟩
      exact hlead ⟨hz, hx, (hdigit c).mp hc⟩

/-- The value of the C library is that of the digits, where no other byte of the class
follows or where the digits are not a zero. -/
theorem strtoul_eq (hbase : base = 10 ∨ base = 16)
    (h : StopsAt (numberClass base) (behindDigits base t) ∨ digitsAt base t ≠ [0]) :
    strtoul base (t ++ kLineEnd :: mem) = min (value base (digitsAt base t)) ULONG_MAX := by
  rw [strtoul]
  rcases hbase with rfl | rfl
  · rw [if_neg (by decide), digitRun_append_lineEnd]
    rfl
  · rw [if_pos rfl, skip0x_append_lineEnd, digitRun_append_lineEnd]
    rcases skip0x_cases t with hskip | ⟨hdigits, hbehind⟩
    · rw [hskip]
      rfl
    · exact absurd h (by simp [hdigits, hbehind])

end Prefix

section Tokens

variable {base : ℕ} {mem : Bytes}

/-- The digits that belong to the class are in the token that the class delimits. -/
theorem digitRun_takeWhile {pred : UInt8 → Bool}
    (h : ∀ c, isDigitOf base c = true → pred c = true) (s : Bytes) :
    digitRun base (s.takeWhile pred) = digitRun base s := by
  induction s with
  | nil => rfl
  | cons c s ih =>
    cases hc : isDigitOf base c with
    | true =>
      have hd := isDigitOf_iff.mp hc
      obtain ⟨d, hd, hlt⟩ := hd
      rw [List.takeWhile_cons, if_pos (h c hc), digitRun, digitRun, hd]
      simp only [if_pos hlt, ih]
    | false =>
      rw [digitRun_cons_neg hc, List.takeWhile_cons]
      split_ifs
      · exact digitRun_cons_neg hc
      · rfl

/-- The prefix is a part of the token. -/
theorem skip0x_takeWhile_isAlnum (t : Bytes) :
    skip0x (t.takeWhile isAlnum) = (skip0x t).takeWhile isAlnum := by
  match t with
  | [] => rfl
  | [z] => cases hz : isAlnum z <;> simp [skip0x, hz]
  | [z, x] => cases hz : isAlnum z <;> cases hx : isAlnum x <;> simp [skip0x, hz, hx]
  | z :: x :: c :: u =>
    by_cases hlead : z = byte '0' ∧ (x = byte 'x' ∨ x = byte 'X') ∧ (digitRun 16 [c]).length = 1
    · have hz : isAlnum z = true := by rw [hlead.1]; decide
      have hx : isAlnum x = true := by rcases hlead.2.1 with rfl | rfl <;> decide
      obtain ⟨d, hd, -⟩ := isDigitOf_iff.mp (digitRun_singleton_length.mp hlead.2.2)
      have hc : isAlnum c = true := isAlnum_of_digitOf hd
      simp [skip0x, hz, hx, hc, if_pos hlead]
    · rw [show skip0x (z :: x :: c :: u) = z :: x :: c :: u by rw [skip0x, if_neg hlead]]
      cases hz : isAlnum z <;> cases hx : isAlnum x <;> cases hc : isAlnum c <;>
        simp only [List.takeWhile_cons, hz, hx, hc, skip0x, if_neg hlead, if_true, if_false,
          Bool.false_eq_true]

/-- The value of a number is that of its token. -/
theorem strtoul_takeWhile (hbase : base = 10 ∨ base = 16) (t : Bytes) :
    strtoul base (t.takeWhile (numberClass base)) = strtoul base t := by
  have hclass : ∀ c, isDigitOf base c = true → numberClass base c = true :=
    fun c hc => numberClass_of_isDigitOf hbase hc
  rw [strtoul, strtoul]
  rcases hbase with rfl | rfl
  · rw [if_neg (by decide), if_neg (by decide), digitRun_takeWhile hclass]
  · have hprefix : skip0x (t.takeWhile (numberClass 16)) =
        (skip0x t).takeWhile (numberClass 16) := skip0x_takeWhile_isAlnum t
    rw [if_pos rfl, if_pos rfl, hprefix, digitRun_takeWhile hclass]

theorem strtol_takeWhile (t : Bytes) : strtol (t.takeWhile isNum) = strtol t := by
  rw [strtol, strtol, digitRun_takeWhile fun c hc => isDigitOf_ten.symm.trans hc]

theorem strtoul_append_lineEnd (base : ℕ) (t : Bytes) :
    strtoul base (t ++ kLineEnd :: mem) = strtoul base t := by
  rw [strtoul, strtoul]
  split_ifs
  · rw [skip0x_append_lineEnd, digitRun_append_lineEnd]
  · rw [digitRun_append_lineEnd]

end Tokens

section Parsing

variable {base : ℕ} {mem t : Bytes} {h : LineHandler}

/-- The condition under which a number of 64 bits is read as it should be. -/
def UintReadable (base : ℕ) (t : Bytes) : Prop :=
  value base (digitsAt base t) ≠ ULONG_MAX ∧
    (value base (digitsAt base t) < ULONG_MAX → StopsAt (numberClass base) (behindDigits base t))

/-- What the parser does on a line that a newline follows. -/
theorem parseUintTrim_eq (hbase : base = 10 ∨ base = 16) (hv : AtText mem h t) :
    parseUintTrim base h =
      if (t.takeWhile (numberClass base)).length = 0 ∨
          strtoul base (t ++ kLineEnd :: mem) = ULONG_MAX then (none, h)
      else (some (strtoul base (t ++ kLineEnd :: mem)).toUInt64,
        h.advance (t.takeWhile (numberClass base)).length) := by
  have hlength := (List.takeWhile_sublist (l := t) (numberClass base)).length_le
  have hsize := hv.2
  unfold parseUintTrim
  rw [hv.1]
  simp only
  rw [show (if base = 10 then isNum else isAlnum) = numberClass base from rfl,
    takeWhile_append_lineEnd (numberClass_lineEnd base)]
  by_cases ht : t = []
  · subst ht
    simp [LineHandler.isEmpty, hv.curLength_eq]
  · rw [hv.isEmpty_eq ht, if_neg (by rcases hbase with rfl | rfl <;> simp)]
    by_cases hzero : (t.takeWhile (numberClass base)).length = 0
    · simp [hzero]
    · have hfits : ¬ h.size < h.curReadingPos + (t.takeWhile (numberClass base)).length := by omega
      simp only [hzero, false_or, decide_false, Bool.false_or, gt_iff_lt, hfits]
      simp

theorem stopsAt_iff {pred : UInt8 → Bool} {s : Bytes} :
    StopsAt pred s ↔ (s.takeWhile pred).length = 0 := by
  cases s with
  | nil => simp
  | cons c s => cases hc : pred c <;> simp [hc]

/-- A number is read as it should be exactly where it is readable. -/
theorem parseUintTrim_iff (hbase : base = 10 ∨ base = 16) (hv : AtText mem h t) :
    parseUintTrim base h = h.requiredUint base ↔ UintReadable base t := by
  have htoken := length_takeWhile_numberClass hbase t
  rw [parseUintTrim_eq hbase hv, LineHandler.requiredUint, hv.rest_eq, UintReadable]
  constructor
  · intro hparse
    constructor
    · -- The largest number makes the parser return the error value's answer.
      intro hmax
      have hdigits : digitsAt base t ≠ [0] := by
        intro hzero
        rw [hzero, value_singleton] at hmax
        exact absurd hmax (by decide)
      have hne : digitsAt base t ≠ [] := by
        intro hnil
        rw [hnil, value_nil] at hmax
        exact absurd hmax (by decide)
      rw [strtoul_eq hbase (.inr hdigits), hmax, if_pos (.inr (min_self _)),
        if_pos ⟨hne, by decide⟩] at hparse
      exact absurd (congrArg Prod.fst hparse) (by simp)
    · intro hlt
      by_contra hstop
      have hbehind : 0 < ((behindDigits base t).takeWhile (numberClass base)).length := by
        rw [stopsAt_iff] at hstop
        omega
      by_cases hnil : digitsAt base t = []
      · have hnum : strtoul base (t ++ kLineEnd :: mem) = 0 := by
          rw [strtoul_eq hbase (.inr (by simp [hnil])), hnil, value_nil, Nat.zero_min]
        have hsome : ¬ ((t.takeWhile (numberClass base)).length = 0 ∨ 0 = ULONG_MAX) := by
          rintro (hzero | hmax)
          · omega
          · exact absurd hmax (by decide)
        rw [hnum, if_neg hsome, if_neg fun hboth => hboth.1 hnil] at hparse
        exact absurd (congrArg Prod.fst hparse) (by simp)
      · have hrequired : digitsAt base t ≠ [] ∧ value base (digitsAt base t) < 2 ^ 64 :=
          ⟨hnil, by unfold ULONG_MAX at hlt; omega⟩
        rw [if_pos hrequired] at hparse
        split_ifs at hparse with hrefused
        · exact absurd (congrArg Prod.fst hparse) (by simp)
        · have hposition := congrArg (fun r => r.2.curReadingPos) hparse
          simp only [LineHandler.advance] at hposition
          omega
  · rintro ⟨hmax, hstop⟩
    by_cases hlt : value base (digitsAt base t) < ULONG_MAX
    · have hends := stopsAt_iff.mp (hstop hlt)
      rw [strtoul_eq hbase (.inl (hstop hlt)), min_eq_left hlt.le]
      by_cases hnil : digitsAt base t = []
      · have hlead := prefixLength_of_digitsAt_nil hnil
        rw [if_pos (.inl (by rw [htoken, hlead, hnil, hends]; rfl)), if_neg (by simp [hnil])]
      · have hpos := List.length_pos_iff.mpr hnil
        rw [if_neg (by rw [htoken]; omega),
          if_pos ⟨hnil, by unfold ULONG_MAX at hlt; omega⟩, htoken, hends]
        rfl
    · have hgt : ULONG_MAX < value base (digitsAt base t) := by omega
      have hdigits : digitsAt base t ≠ [0] := by
        intro hzero
        rw [hzero, value_singleton] at hgt
        exact absurd hgt (by decide)
      rw [strtoul_eq hbase (.inr hdigits), if_pos (.inr (min_eq_right hgt.le)), if_neg]
      rintro ⟨-, hfits⟩
      unfold ULONG_MAX at hgt
      omega

/-- What the parser of an `int` does on a line that a newline follows. -/
theorem parseInt_eq (hv : AtText mem h t) :
    parseInt h = if digitsAt 10 t = [] then (none, h)
      else (some (Int32.ofNat (min (value 10 (digitsAt 10 t)) LONG_MAX)),
        h.advance (digitsAt 10 t).length) := by
  have hdigits : digitsAt 10 t = digitRun 10 t := rfl
  have hlength : ((t ++ kLineEnd :: mem).takeWhile isNum).length = (digitsAt 10 t).length := by
    rw [takeWhile_append_lineEnd (by decide), hdigits, ← length_takeWhile_isDigitOf]
    congr 2
    funext c
    exact isDigitOf_ten.symm
  have hshort : (digitsAt 10 t).length ≤ t.length := by
    rw [hdigits, ← length_takeWhile_isDigitOf]
    exact (List.takeWhile_sublist _).length_le
  have hsize := hv.2
  unfold parseInt
  rw [hv.1]
  simp only [strtol, digitRun_append_lineEnd, hlength]
  by_cases hnil : digitsAt 10 t = []
  · simp [hnil]
  · have hne : t ≠ [] := by
      rintro rfl
      exact hnil rfl
    have hpos := List.length_pos_iff.mpr hnil
    have hfits : ¬ h.size < h.curReadingPos + (digitsAt 10 t).length := by omega
    rw [hv.isEmpty_eq hne, if_neg hnil, if_neg (by decide), if_neg (by simp [hnil]; omega), hdigits]

/-- An `int` is read as it should be exactly where the number fits it. -/
theorem parseInt_iff (hv : AtText mem h t) :
    parseInt h = h.requiredInt ↔ value 10 (digitsAt 10 t) < 2 ^ 31 := by
  rw [parseInt_eq hv, LineHandler.requiredInt, hv.rest_eq]
  by_cases hnil : digitsAt 10 t = []
  · simp [hnil]
  · rw [if_neg hnil]
    by_cases hfits : value 10 (digitsAt 10 t) < 2 ^ 31
    · rw [if_pos ⟨hnil, hfits⟩, min_eq_left (by unfold LONG_MAX; omega)]
      exact iff_of_true rfl hfits
    · rw [if_neg fun hboth => hfits hboth.2]
      exact iff_of_false (fun hparse => absurd (congrArg Prod.fst hparse) (by simp)) hfits

/-- Numbers are read as they should be, exactly where the unsigned one is readable and
where the `int` fits. -/
theorem parse_numbers_iff (hbase : base = 10 ∨ base = 16) (hv : AtText mem h t) :
    (parseUintTrim base h = h.requiredUint base ↔ UintReadable base t) ∧
      (parseInt h = h.requiredInt ↔ value 10 (digitsAt 10 t) < 2 ^ 31) :=
  ⟨parseUintTrim_iff hbase hv, parseInt_iff hv⟩

theorem parse_numbers_iff_offset :
    (parseUintTrim 16 (.ofLine (bytes "0x1f, len=4") (kLineEnd :: [])) =
        LineHandler.requiredUint 16 (.ofLine (bytes "0x1f, len=4") (kLineEnd :: [])) ↔
      UintReadable 16 (bytes "0x1f, len=4")) ∧
    (parseInt (.ofLine (bytes "0x1f, len=4") (kLineEnd :: [])) =
        LineHandler.requiredInt (.ofLine (bytes "0x1f, len=4") (kLineEnd :: [])) ↔
      value 10 (digitsAt 10 (bytes "0x1f, len=4")) < 2 ^ 31) :=
  parse_numbers_iff (.inr rfl) (atText_ofLine _ [])

/-- A letter that is no digit is read as a zero, and `4294967295` becomes a negative `int`. -/
theorem not_parse_numbers :
    (¬ ∀ (base : ℕ) (mem t : Bytes) (h : LineHandler), base = 10 ∨ base = 16 →
      AtText mem h t → parseUintTrim base h = h.requiredUint base) ∧
    ¬ ∀ (mem t : Bytes) (h : LineHandler), AtText mem h t → parseInt h = h.requiredInt := by
  constructor
  · intro hall
    have hread := congrArg Prod.fst (hall 16 [] (bytes "g12") _ (.inr rfl) (atText_ofLine _ []))
    exact absurd hread (by decide)
  · intro hall
    have hread := congrArg Prod.fst (hall [] (bytes "4294967295") _ (atText_ofLine _ []))
    exact absurd hread (by decide)

end Parsing

end Columbo
