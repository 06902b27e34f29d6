import Mathlib.Data.Nat.Digits.Lemmas
import Mathlib.Tactic.Ring

/-!
# Positional numerals

A natural number is written as its digits in a base, most significant digit
first, and a digit list is read back in a base that need not be the same one.
Reading in the base of writing is the identity. Reading in a smaller or larger
base moves every number of two or more digits, which is how a printer and a
parser that disagree on the base are told apart.
-/
namespace Columbo.Numeral

/-- Big-endian value of a digit list, as a left-to-right scan computes it. -/
def value (b : ℕ) (ds : List ℕ) : ℕ := ds.foldl (fun acc d => acc * b + d) 0

/-- Big-endian digits of a number. Zero is written with one digit. -/
def numeral (b n : ℕ) : List ℕ := if n = 0 then [0] else (Nat.digits b n).reverse

theorem value_eq_ofDigits (b : ℕ) (ds : List ℕ) : value b ds = Nat.ofDigits b ds.reverse := by
  rw [value, Nat.ofDigits_eq_foldr, List.foldr_reverse]
  congr
  funext acc d
  simp only [Nat.cast_id]
  ring

@[simp] theorem value_nil (b : ℕ) : value b [] = 0 := rfl

@[simp] theorem value_singleton (b d : ℕ) : value b [d] = d := by simp [value]

theorem value_append (b : ℕ) (xs ys : List ℕ) :
    value b (xs ++ ys) = value b xs * b ^ ys.length + value b ys := by
  simp only [value_eq_ofDigits, List.reverse_append, Nat.ofDigits_append, List.length_reverse]
  ring

theorem value_cons (b d : ℕ) (ds : List ℕ) :
    value b (d :: ds) = d * b ^ ds.length + value b ds := by
  simpa using value_append b [d] ds

/-- Reading in the base of writing returns the number. -/
@[simp] theorem value_numeral {b : ℕ} (n : ℕ) : value b (numeral b n) = n := by
  unfold numeral
  split_ifs with h
  · simp [h]
  · rw [value_eq_ofDigits, List.reverse_reverse, Nat.ofDigits_digits]

theorem numeral_ne_nil (b n : ℕ) : numeral b n ≠ [] := by
  unfold numeral
  split_ifs with h
  · simp
  · simpa [Nat.digits_ne_nil_iff_ne_zero] using h

theorem digit_lt {b n d : ℕ} (hb : 1 < b) (h : d ∈ numeral b n) : d < b := by
  unfold numeral at h
  split_ifs at h with hn
  · rw [List.mem_singleton] at h
    omega
  · exact Nat.digits_lt_base hb (List.mem_reverse.mp h)

/-- A number that is not zero has a leading digit that is not zero. -/
theorem exists_leading {b n : ℕ} (h : n ≠ 0) : ∃ d ds, numeral b n = d :: ds ∧ d ≠ 0 := by
  have hne : Nat.digits b n ≠ [] := Nat.digits_ne_nil_iff_ne_zero.mpr h
  refine ⟨(Nat.digits b n).getLast hne, (Nat.digits b n).dropLast.reverse, ?_,
    Nat.getLast_digit_ne_zero b h⟩
  rw [numeral, if_neg h]
  conv_lhs => rw [← List.dropLast_append_getLast hne]
  simp

theorem value_mono {b c : ℕ} (hbc : b ≤ c) (ds : List ℕ) : value b ds ≤ value c ds := by
  induction ds with
  | nil => simp
  | cons d ds ih =>
    rw [value_cons, value_cons]
    exact Nat.add_le_add (Nat.mul_le_mul_left d (Nat.pow_le_pow_left hbc _)) ih

/-- Two or more digits with a leading digit that is not zero have a strictly
larger value in the larger base. -/
theorem value_strict_mono {b c d : ℕ} (hbc : b < c) (hd : d ≠ 0) {ds : List ℕ} (hds : ds ≠ []) :
    value b (d :: ds) < value c (d :: ds) := by
  have hpow : b ^ ds.length < c ^ ds.length :=
    Nat.pow_lt_pow_left hbc (by simpa using hds)
  have hlead := Nat.mul_lt_mul_of_pos_left hpow (Nat.pos_of_ne_zero hd)
  have htail := value_mono hbc.le ds
  rw [value_cons, value_cons]
  omega

/-- Digits of the smaller base that are cut from the front of a numeral in the
larger base read as less than the number, unless the number has one digit only. -/
theorem value_front_lt {b c n : ℕ} {xs ys : List ℕ} (hb : 1 < b) (hbc : b < c) (hn : b ≤ n)
    (hsplit : numeral c n = xs ++ ys) (hxs : ∀ x ∈ xs, x < b) :
    value b xs < n := by
  have hval : value c xs * c ^ ys.length + value c ys = n := by
    rw [← value_append, ← hsplit, value_numeral]
  have hmono := value_mono hbc.le xs
  cases ys with
  | cons y ys =>
    -- something is left over, so the front is at most the number divided by the base
    by_cases hz : value c xs = 0
    · omega
    · have hpow : 1 < c ^ (y :: ys).length := Nat.one_lt_pow (by simp) (by omega)
      have := Nat.mul_lt_mul_of_pos_left hpow (Nat.pos_of_ne_zero hz)
      omega
  | nil =>
    rw [List.append_nil] at hsplit
    obtain ⟨d, ds, hds, hd⟩ := exists_leading (b := c) (show n ≠ 0 by omega)
    rw [hsplit] at hds
    subst hds
    have hne : ds ≠ [] := by
      rintro rfl
      have := hxs d (by simp)
      simp only [value_singleton, List.length_nil, pow_zero, mul_one, value_nil, add_zero] at hval
      omega
    have := value_strict_mono hbc hd hne
    simp only [List.length_nil, pow_zero, mul_one, value_nil, add_zero] at hval
    omega

/-- A numeral of two or more digits reads as more than the number in a larger base. -/
theorem lt_value_numeral {b c n : ℕ} (hbc : b < c) (hb : 1 < b) (hn : b ≤ n) :
    n < value c (numeral b n) := by
  obtain ⟨d, ds, hds, hd⟩ := exists_leading (b := b) (show n ≠ 0 by omega)
  have hne : ds ≠ [] := by
    rintro rfl
    have hlt := digit_lt hb (n := n) (d := d) (by simp [hds])
    have hv := value_numeral (b := b) n
    rw [hds, value_singleton] at hv
    omega
  have hlt := value_strict_mono hbc hd hne
  rwa [← hds, value_numeral] at hlt

/-- Digits of the smaller base have the same value in both bases exactly if all
but the last one are zero. -/
theorem value_eq_value_iff {b c : ℕ} (hbc : b < c) {ds : List ℕ} (hds : ∀ d ∈ ds, d < b)
    (hb : 0 < b) : value b ds = value c ds ↔ value b ds < b := by
  induction ds using List.reverseRecOn with
  | nil => simpa using hb
  | append_singleton ds d ih =>
    have ih := ih fun x hx => hds x (by simp [hx])
    have hd : d < b := hds d (by simp)
    have hmono := value_mono hbc.le ds
    simp only [value_append, value_singleton, List.length_singleton, pow_one,
      Nat.add_right_cancel_iff]
    rcases Nat.eq_zero_or_pos (value b ds) with hzero | hpos
    · rw [hzero] at ih
      simp [hzero, ← ih.mpr hb, hd]
    · have hlt : value b ds * b < value c ds * c :=
        (Nat.mul_le_mul_right b hmono).trans_lt (Nat.mul_lt_mul_of_pos_left hbc (by omega))
      have hle : b ≤ value b ds * b := Nat.le_mul_of_pos_left b hpos
      exact iff_of_false hlt.ne (by omega)

/-- A one-digit number is written the same way in every base that has the digit. -/
theorem numeral_of_lt {b n : ℕ} (hn : n < b) : numeral b n = [n] := by
  unfold numeral
  split_ifs with h
  · rw [h]
  · rw [Nat.digits_of_lt b n h hn, List.reverse_singleton]

end Columbo.Numeral
