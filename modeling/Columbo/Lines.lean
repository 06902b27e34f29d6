import Mathlib.Data.List.Basic
import Mathlib.Data.List.DropRight

/-!
# Separated lines

The non-empty runs of a list between separators, and the first complete line of
a list, which the separators in front of it and its terminator delimit.
-/
namespace Columbo

section Lines

variable {α : Type} [DecidableEq α] {sep : α} {xs ys : List α}

/-- The non-empty lines of a list, in order. -/
def lines (sep : α) (xs : List α) : List (List α) := (xs.splitOn sep).filter (· ≠ [])

@[simp] theorem lines_nil : lines sep [] = [] := by simp [lines]

theorem lines_append_cons (xs ys : List α) :
    lines sep (xs ++ sep :: ys) = lines sep xs ++ lines sep ys := by
  rw [lines, List.splitOn_append_cons_self, List.filter_append]
  rfl

theorem lines_cons_self (xs : List α) : lines sep (sep :: xs) = lines sep xs := by
  simpa using lines_append_cons [] xs

theorem lines_of_not_mem (h : sep ∉ xs) (hne : xs ≠ []) : lines sep xs = [xs] := by
  rw [lines, List.splitOn_eq_singleton h]
  simp [hne]

/-- A list that starts with a complete line. -/
theorem lines_line_append (h : sep ∉ xs) (hne : xs ≠ []) (ys : List α) :
    lines sep (xs ++ sep :: ys) = xs :: lines sep ys := by
  rw [lines_append_cons, lines_of_not_mem h hne, List.singleton_append]

/-- A list that is made of complete lines. -/
theorem lines_flatMap {ls : List (List α)} (hls : ∀ l ∈ ls, l ≠ [] ∧ sep ∉ l) :
    lines sep (ls.flatMap (· ++ [sep])) = ls := by
  induction ls with
  | nil => simp
  | cons l ls ih =>
    obtain ⟨hne, hnot⟩ := hls l List.mem_cons_self
    rw [List.flatMap_cons, List.append_assoc, List.singleton_append, lines_line_append hnot hne,
      ih fun l' hl' => hls l' (List.mem_cons_of_mem l hl')]

theorem lines_replicate_append (k : ℕ) (xs : List α) :
    lines sep (List.replicate k sep ++ xs) = lines sep xs := by
  induction k with
  | zero => rfl
  | succ k ih => rw [List.replicate_succ, List.cons_append, lines_cons_self, ih]

end Lines

section FirstLine

variable {α : Type} {sep : α} {xs ys : List α}

/-- Behind `k` separators the list goes on with the line `l`, its terminator and `ys`. -/
structure StartsLine (sep : α) (xs : List α) (k : ℕ) (l ys : List α) : Prop where
  eq : xs = List.replicate k sep ++ (l ++ sep :: ys)
  ne_nil : l ≠ []
  not_mem : sep ∉ l

theorem replicate_append_inj {j k : ℕ} {xs ys : List α} (hx : ∀ c ∈ xs.head?, c ≠ sep)
    (hy : ∀ c ∈ ys.head?, c ≠ sep)
    (h : List.replicate j sep ++ xs = List.replicate k sep ++ ys) : j = k ∧ xs = ys := by
  induction j generalizing k with
  | zero =>
    cases k with
    | zero => exact ⟨rfl, h⟩
    | succ k =>
      rw [List.replicate_zero, List.nil_append] at h
      exact absurd rfl (hx sep (by simp [h, List.replicate_succ]))
  | succ j ih =>
    cases k with
    | zero =>
      rw [List.replicate_zero, List.nil_append] at h
      exact absurd rfl (hy sep (by simp [← h, List.replicate_succ]))
    | succ k =>
      simp only [List.replicate_succ, List.cons_append, List.cons.injEq, true_and] at h
      obtain ⟨hjk, hxy⟩ := ih h
      exact ⟨by rw [hjk], hxy⟩

theorem line_append_inj {l l' r r' : List α} (hl : sep ∉ l) (hl' : sep ∉ l')
    (h : l ++ sep :: r = l' ++ sep :: r') : l = l' ∧ r = r' := by
  induction l generalizing l' with
  | nil =>
    cases l' with
    | nil => exact ⟨rfl, by simpa using h⟩
    | cons c l' =>
      have hc : sep = c := by simpa using (List.cons.inj h).1
      exact absurd (by simp [hc]) hl'
  | cons c l ih =>
    cases l' with
    | nil =>
      have hc : c = sep := by simpa using (List.cons.inj h).1
      exact absurd (by simp [hc]) hl
    | cons c' l' =>
      simp only [List.cons_append, List.cons.injEq] at h
      obtain ⟨hll, hrr⟩ := ih (fun hm => hl (by simp [hm])) (fun hm => hl' (by simp [hm])) h.2
      exact ⟨by rw [h.1, hll], hrr⟩

namespace StartsLine

variable {k k' n : ℕ} {l l' zs : List α}

theorem head?_ne (h : StartsLine sep xs k l ys) (zs : List α) : ∀ c ∈ (l ++ zs).head?, c ≠ sep := by
  obtain ⟨c, cs, rfl⟩ := List.exists_cons_of_ne_nil h.ne_nil
  intro d hd
  obtain rfl : c = d := by simpa using hd
  rintro rfl
  exact h.not_mem (by simp)

/-- A list has at most one first line. -/
theorem unique {ys' : List α} (h : StartsLine sep xs k l ys) (h' : StartsLine sep xs k' l' ys') :
    k = k' ∧ l = l' ∧ ys = ys' := by
  have heq := h.eq.symm.trans h'.eq
  obtain ⟨hk, hrest⟩ := replicate_append_inj (h.head?_ne _) (h'.head?_ne _) heq
  exact ⟨hk, line_append_inj h.not_mem h'.not_mem hrest⟩

theorem append (h : StartsLine sep xs k l ys) (zs : List α) :
    StartsLine sep (xs ++ zs) k l (ys ++ zs) :=
  ⟨by simp [h.eq], h.ne_nil, h.not_mem⟩

theorem length_eq (h : StartsLine sep xs k l ys) : xs.length = k + l.length + 1 + ys.length := by
  rw [h.eq]
  simp
  omega

/-- A prefix that is long enough starts with the same line. -/
theorem take (h : StartsLine sep xs k l ys) (hn : k + l.length < n) :
    StartsLine sep (xs.take n) k l (ys.take (n - (k + l.length + 1))) := by
  refine ⟨?_, h.ne_nil, h.not_mem⟩
  rw [h.eq, List.take_append, List.take_append]
  have h₁ : n - (List.replicate k sep).length - l.length = (n - (k + l.length + 1)) + 1 := by
    rw [List.length_replicate]
    omega
  rw [h₁, List.take_succ_cons, List.take_of_length_le (by simp; omega),
    List.take_of_length_le (by simp; omega)]

theorem replicate_append (h : StartsLine sep xs k l ys) (j : ℕ) :
    StartsLine sep (List.replicate j sep ++ xs) (j + k) l ys :=
  ⟨by rw [h.eq, ← List.append_assoc, List.replicate_append_replicate], h.ne_nil, h.not_mem⟩

/-- Separators in front of a list belong to the ones in front of its first line. -/
theorem of_replicate_append {j : ℕ} (h : StartsLine sep (List.replicate j sep ++ xs) k l ys) :
    j ≤ k ∧ StartsLine sep xs (k - j) l ys := by
  induction j generalizing k with
  | zero => exact ⟨Nat.zero_le k, h⟩
  | succ j ih =>
    cases k with
    | zero =>
      have heq := h.eq
      rw [List.replicate_zero, List.nil_append] at heq
      exact absurd rfl (h.head?_ne (sep :: ys) sep (by rw [← heq]; simp [List.replicate_succ]))
    | succ k =>
      have heq := h.eq
      simp only [List.replicate_succ, List.cons_append, List.cons.injEq, true_and] at heq
      obtain ⟨hj, hxs⟩ := ih ⟨heq, h.ne_nil, h.not_mem⟩
      exact ⟨by omega, by simpa using hxs⟩

end StartsLine

/-- The list starts with a complete line. -/
def HasLine (sep : α) (xs : List α) : Prop := ∃ k l ys, StartsLine sep xs k l ys

theorem HasLine.append (h : HasLine sep xs) (zs : List α) : HasLine sep (xs ++ zs) := by
  obtain ⟨k, l, ys, h⟩ := h
  exact ⟨k, l, ys ++ zs, h.append zs⟩

theorem HasLine.take_mono {m n : ℕ} (hmn : m ≤ n) (h : HasLine sep (xs.take m)) :
    HasLine sep (xs.take n) := by
  rw [← Nat.add_sub_cancel' hmn, List.take_add]
  exact h.append _

end FirstLine

section Strip

variable {α : Type} [DecidableEq α] {sep : α} {xs ys : List α}

theorem StartsLine.lines_eq {k : ℕ} {l : List α} (h : StartsLine sep xs k l ys) :
    lines sep xs = l :: lines sep ys := by
  rw [h.eq, lines_replicate_append, lines_line_append h.not_mem h.ne_nil]

/-- The list without the separators it starts with. -/
def strip (sep : α) (xs : List α) : List α := xs.dropWhile (· = sep)

theorem strip_strip (xs : List α) : strip sep (strip sep xs) = strip sep xs :=
  List.dropWhile_idempotent _ _

theorem replicate_append_strip (sep : α) (xs : List α) :
    List.replicate (xs.length - (strip sep xs).length) sep ++ strip sep xs = xs := by
  induction xs with
  | nil => rfl
  | cons c cs ih =>
    by_cases hc : c = sep
    · have hstrip : strip sep (c :: cs) = strip sep cs := by simp [strip, hc]
      have hle : (strip sep cs).length ≤ cs.length := (List.dropWhile_suffix _).length_le
      rw [hstrip, List.length_cons, Nat.succ_sub hle, List.replicate_succ, List.cons_append, ih, hc]
    · have hstrip : strip sep (c :: cs) = c :: cs := by simp [strip, hc]
      rw [hstrip, Nat.sub_self, List.replicate_zero, List.nil_append]

theorem strip_head?_ne (xs : List α) : ∀ c ∈ (strip sep xs).head?, c ≠ sep := by
  intro c hc
  have hnot := List.head?_dropWhile_not (· = sep) xs
  rw [show (List.dropWhile (· = sep) xs).head? = some c from hc] at hnot
  simpa using hnot

/-- A list starts with a complete line when it has a separator behind the ones
that it starts with. -/
theorem hasLine_iff (xs : List α) : HasLine sep xs ↔ sep ∈ strip sep xs := by
  constructor
  · rintro ⟨k, l, ys, h⟩
    rw [← replicate_append_strip sep xs] at h
    rw [h.of_replicate_append.2.eq]
    simp
  · intro h
    obtain ⟨l, ys, hl, hnot⟩ := List.eq_append_cons_of_mem h
    have hne : l ≠ [] := by
      rintro rfl
      exact absurd rfl (strip_head?_ne xs sep (by simp [hl]))
    have hline : StartsLine sep (strip sep xs) 0 l ys := ⟨hl, hne, hnot⟩
    rw [← replicate_append_strip sep xs]
    exact ⟨_, l, ys, hline.replicate_append _⟩

end Strip

end Columbo
