import Columbo.Numeral
import Mathlib.Data.List.TakeWhile
import Mathlib.Tactic.IntervalCases

/-!
# Bytes, character classes and number texts

Lines, file contents and printed text are lists of bytes. The character classes
are those of `sim_string_utils` in the C locale. `numText` is the text a stream
writes for an unsigned number; `strtoul` and `strtol` are the parts of the C
library functions that the line handler relies on.
-/
namespace Columbo

abbrev Bytes := List UInt8

/-- The bytes of an ASCII literal. -/
def bytes (s : String) : Bytes := s.toList.map fun c => c.toNat.toUInt8

/-- The byte of an ASCII character. -/
def byte (c : Char) : UInt8 := c.toNat.toUInt8

def kLineEnd : UInt8 := byte '\n'

def isSpace (c : UInt8) : Bool := c == byte ' ' || (9 ≤ c && c ≤ 13)

def isNum (c : UInt8) : Bool := 48 ≤ c && c ≤ 57

def isAlnum (c : UInt8) : Bool := isNum c || (65 ≤ c && c ≤ 90) || (97 ≤ c && c ≤ 122)

def isAlnumDotBar (c : UInt8) : Bool := isAlnum c || c == byte '_' || c == byte '.'

theorem isAlnum_of_isNum {c : UInt8} (h : isNum c = true) : isAlnum c = true := by
  simp [isAlnum, h]

theorem isSpace_of_isAlnum {c : UInt8} (h : isAlnum c = true) : isSpace c = false := by
  by_contra hspace
  simp only [isAlnum, isNum, isSpace, byte, Bool.or_eq_true, Bool.and_eq_true, decide_eq_true_eq,
    beq_iff_eq, Bool.not_eq_false, UInt8.le_iff_toNat_le] at h hspace
  rcases hspace with rfl | hspace
  · exact absurd h (by decide)
  · simp at h hspace
    omega

/-- The lower-case digit a stream writes. -/
def digitByte (d : ℕ) : UInt8 := (if d < 10 then 48 + d else 87 + d).toUInt8

/-- The value `strtoul` gives a digit or a letter of either case. -/
def digitOf (c : UInt8) : Option ℕ :=
  if 48 ≤ c ∧ c ≤ 57 then some (c.toNat - 48)
  else if 65 ≤ c ∧ c ≤ 90 then some (c.toNat - 55)
  else if 97 ≤ c ∧ c ≤ 122 then some (c.toNat - 87)
  else none

theorem digitOf_digitByte {d : ℕ} (h : d < 16) : digitOf (digitByte d) = some d := by
  interval_cases d <;> decide

theorem isAlnum_digitByte {d : ℕ} (h : d < 16) : isAlnum (digitByte d) = true := by
  interval_cases d <;> decide

theorem isNum_digitByte {d : ℕ} (h : d < 16) : isNum (digitByte d) = decide (d < 10) := by
  interval_cases d <;> decide

/-- Only digits and letters have a digit value. -/
theorem isAlnum_of_digitOf {c : UInt8} {d : ℕ} (h : digitOf c = some d) : isAlnum c = true := by
  unfold digitOf at h
  simp only [isAlnum, isNum, Bool.or_eq_true, Bool.and_eq_true, decide_eq_true_eq]
  split_ifs at h <;> tauto

/-- The text of an unsigned number in a base of at most sixteen. -/
def numText (b n : ℕ) : Bytes := (Numeral.numeral b n).map digitByte

/-- `std::to_string` of an unsigned number. -/
def toString10 (n : ℕ) : Bytes := numText 10 n

theorem numText_ne_nil (b n : ℕ) : numText b n ≠ [] := by
  simpa [numText] using Numeral.numeral_ne_nil b n

theorem numText_inj {b n n' : ℕ} (hb : 1 < b) (hb16 : b ≤ 16) (h : numText b n = numText b n') :
    n = n' := by
  have hdigits : ∀ n, (numText b n).map (fun c => (digitOf c).getD 0) = Numeral.numeral b n := by
    intro n
    rw [numText, List.map_map]
    refine (List.map_congr_left fun d hd => ?_).trans (List.map_id _)
    have hlt := (Numeral.digit_lt hb hd).trans_le hb16
    simp [digitOf_digitByte hlt]
  rw [← Numeral.value_numeral (b := b) n, ← hdigits, h, hdigits, Numeral.value_numeral]

theorem isAlnum_of_mem_numText {b n : ℕ} {c : UInt8} (hb : 1 < b) (hb16 : b ≤ 16)
    (h : c ∈ numText b n) : isAlnum c = true := by
  obtain ⟨d, hd, rfl⟩ := List.mem_map.mp h
  exact isAlnum_digitByte ((Numeral.digit_lt hb hd).trans_le hb16)

theorem isNum_of_mem_numText {n : ℕ} {c : UInt8} (h : c ∈ numText 10 n) : isNum c = true := by
  obtain ⟨d, hd, rfl⟩ := List.mem_map.mp h
  have hlt := Numeral.digit_lt (by decide) hd
  rw [isNum_digitByte (by omega)]
  exact decide_eq_true hlt

/-- Values of the longest run of digits of the base at the front of a text. -/
def digitRun (base : ℕ) : Bytes → List ℕ
  | [] => []
  | c :: cs =>
    match digitOf c with
    | some d => if d < base then d :: digitRun base cs else []
    | none => []

/-- The front of the text is not alphanumeric. -/
def StopsAlnum (s : Bytes) : Prop := ∀ c ∈ s.head?, isAlnum c = false

@[simp] theorem stopsAlnum_nil : StopsAlnum [] := by simp [StopsAlnum]

@[simp] theorem stopsAlnum_cons (c : UInt8) (cs : Bytes) :
    StopsAlnum (c :: cs) ↔ isAlnum c = false := by simp [StopsAlnum]

theorem digitRun_of_stops {base : ℕ} {s : Bytes} (h : StopsAlnum s) : digitRun base s = [] := by
  cases s with
  | nil => rfl
  | cons c cs =>
    rw [digitRun]
    split
    · next d hd => simp [isAlnum_of_digitOf hd] at h
    · rfl

/-- A run of written digits is read until the first one that the base lacks. -/
theorem digitRun_map_append {base : ℕ} {ds : List ℕ} {s : Bytes} (hds : ∀ d ∈ ds, d < 16)
    (hs : StopsAlnum s) :
    digitRun base (ds.map digitByte ++ s) = ds.takeWhile (· < base) := by
  induction ds with
  | nil => simpa using digitRun_of_stops hs
  | cons d ds ih =>
    have hd := digitOf_digitByte (hds d (by simp))
    have ih' := ih fun x hx => hds x (by simp [hx])
    simp only [List.map_cons, List.cons_append, digitRun, hd, List.takeWhile_cons]
    by_cases h : d < base
    · simp [h, ih']
    · simp [h]

/-- In base sixteen a leading `0x` is skipped when a hexadecimal digit follows it. -/
def skip0x : Bytes → Bytes
  | z :: x :: c :: cs =>
    if z = byte '0' ∧ (x = byte 'x' ∨ x = byte 'X') ∧ (digitRun 16 [c]).length = 1 then c :: cs
    else z :: x :: c :: cs
  | s => s

def ULONG_MAX : ℕ := 2 ^ 64 - 1

def LONG_MAX : ℕ := 2 ^ 63 - 1

/-- The value `strtoul` returns for a text that starts with an alphanumeric
byte, the only texts it is called on here: the leading white space and the sign
that it accepts as well do not occur. Values out of range are clamped. -/
def strtoul (base : ℕ) (s : Bytes) : ℕ :=
  min (Numeral.value base (digitRun base (if base = 16 then skip0x s else s))) ULONG_MAX

/-- The value `strtol` returns in base ten for a text that starts with a digit. -/
def strtol (s : Bytes) : ℕ := min (Numeral.value 10 (digitRun 10 s)) LONG_MAX

/-- No `0x` is skipped in front of written digits. -/
theorem skip0x_map_append {ds : List ℕ} {s : Bytes} (hne : ds ≠ []) (hds : ∀ d ∈ ds, d < 16)
    (hs : StopsAlnum s) : skip0x (ds.map digitByte ++ s) = ds.map digitByte ++ s := by
  have hx : ∀ x c : UInt8, ∀ t, ds.map digitByte ++ s = byte '0' :: x :: c :: t →
      ¬ (x = byte 'x' ∨ x = byte 'X') := by
    intro x c t ht hxx
    match ds, hne with
    | [d], _ =>
      simp only [List.map_cons, List.map_nil, List.cons_append, List.nil_append,
        List.cons.injEq] at ht
      rw [ht.2, stopsAlnum_cons] at hs
      rcases hxx with rfl | rfl <;> exact absurd hs (by decide)
    | d :: e :: ds, _ =>
      simp only [List.map_cons, List.cons_append, List.cons.injEq] at ht
      have he := digitOf_digitByte (hds e (by simp))
      rw [ht.2.1] at he
      have hlt := hds e (by simp)
      rcases hxx with rfl | rfl
      · rw [show digitOf (byte 'x') = some 33 by decide, Option.some.injEq] at he
        omega
      · rw [show digitOf (byte 'X') = some 33 by decide, Option.some.injEq] at he
        omega
  match hm : ds.map digitByte ++ s with
  | [] => rfl
  | [_] => rfl
  | [_, _] => rfl
  | z :: x :: c :: t =>
    rw [skip0x, if_neg]
    rintro ⟨rfl, hxx, -⟩
    exact hx x c t hm hxx

/-- What `strtoul` makes of a written number, in the base of writing or another. -/
theorem strtoul_numText {base b n : ℕ} {s : Bytes} (hb : 1 < b) (hb16 : b ≤ 16)
    (hs : StopsAlnum s) :
    strtoul base (numText b n ++ s) =
      min (Numeral.value base ((Numeral.numeral b n).takeWhile (· < base))) ULONG_MAX := by
  have hds : ∀ d ∈ Numeral.numeral b n, d < 16 :=
    fun d hd => (Numeral.digit_lt hb hd).trans_le hb16
  rw [strtoul, numText, skip0x_map_append (Numeral.numeral_ne_nil b n) hds hs]
  simp only [ite_self, digitRun_map_append hds hs]

/-- Digits of the base itself, leading zeros included, are read back. -/
theorem strtoul_digits {base : ℕ} {ds : List ℕ} {s : Bytes} (hne : ds ≠ []) (hbase : base ≤ 16)
    (hds : ∀ d ∈ ds, d < base) (hs : StopsAlnum s) (hmax : Numeral.value base ds ≤ ULONG_MAX) :
    strtoul base (ds.map digitByte ++ s) = Numeral.value base ds := by
  have h16 : ∀ d ∈ ds, d < 16 := fun d hd => (hds d hd).trans_le hbase
  have hall : ds.takeWhile (· < base) = ds :=
    List.takeWhile_eq_self_iff.mpr fun d hd => decide_eq_true (hds d hd)
  rw [strtoul, skip0x_map_append hne h16 hs]
  simp only [ite_self, digitRun_map_append h16 hs, hall, min_eq_left hmax]

/-- What `strtol` makes of a number written in some base. -/
theorem strtol_numText_base {b n : ℕ} {s : Bytes} (hb : 1 < b) (hb16 : b ≤ 16)
    (hs : StopsAlnum s) :
    strtol (numText b n ++ s) =
      min (Numeral.value 10 ((Numeral.numeral b n).takeWhile (· < 10))) LONG_MAX := by
  rw [strtol, numText,
    digitRun_map_append (fun d hd => (Numeral.digit_lt hb hd).trans_le hb16) hs]

theorem strtol_numText {n : ℕ} {s : Bytes} (hs : StopsAlnum s) (hn : n ≤ LONG_MAX) :
    strtol (numText 10 n ++ s) = n := by
  have hlt : ∀ d ∈ Numeral.numeral 10 n, d < 10 := fun d hd => Numeral.digit_lt (by decide) hd
  have hall : (Numeral.numeral 10 n).takeWhile (· < 10) = Numeral.numeral 10 n :=
    List.takeWhile_eq_self_iff.mpr fun d hd => decide_eq_true (hlt d hd)
  rw [strtol, numText, digitRun_map_append (fun d hd => (hlt d hd).trans (by decide)) hs, hall,
    Numeral.value_numeral, min_eq_left hn]

end Columbo
