import Mathlib.Data.List.TakeWhile

/-!
# Columns of a text

A row of columns, each of them a separator and a word without separators. Reading a row
word by word, from a place that may be in the middle of a column, reads the rest of the
column in which it starts for its first word.
-/
namespace Columbo.TextColumns

variable {α : Type} {sep : α → Bool} {t u : List α}

/-- The text behind its first word. -/
def behindWord (sep : α → Bool) (t : List α) : List α :=
  (t.dropWhile sep).dropWhile fun c => !sep c

theorem dropWhile_append_of_head {p : α → Bool} (hu : ∀ c ∈ u.head?, p c = false) :
    (t ++ u).dropWhile p = t.dropWhile p ++ u := by
  induction t with
  | nil =>
    cases u with
    | nil => rfl
    | cons c u => exact List.dropWhile_cons_of_neg (by simpa using hu)
  | cons c t ih =>
    cases hc : p c with
    | true =>
      rw [List.cons_append, List.dropWhile_cons_of_pos hc, ih, List.dropWhile_cons_of_pos hc]
    | false => simp [hc]

theorem takeWhile_append_of_head {p : α → Bool} (hu : ∀ c ∈ u.head?, p c = false) :
    (t ++ u).takeWhile p = t.takeWhile p := by
  induction t with
  | nil =>
    cases u with
    | nil => rfl
    | cons c u => exact List.takeWhile_cons_of_neg (by simpa using hu)
  | cons c t ih => simp only [List.cons_append, List.takeWhile_cons, ih]

theorem behindWord_cons_of_sep {c : α} (hc : sep c = true) :
    behindWord sep (c :: t) = behindWord sep t := by
  rw [behindWord, List.dropWhile_cons_of_pos hc, behindWord]

/-- A word ends where a separator follows it, or with the text. -/
theorem behindWord_append {w : List α} (hne : w ≠ []) (hw : ∀ c ∈ w, sep c = false)
    (hu : ∀ c ∈ u.head?, sep c = true) : behindWord sep (w ++ u) = u := by
  obtain ⟨c, w, rfl⟩ := List.exists_cons_of_ne_nil hne
  rw [behindWord, List.cons_append, List.dropWhile_cons_of_neg (by simpa using hw c (by simp)),
    ← List.cons_append, dropWhile_append_of_head (by simpa using hu),
    List.dropWhile_eq_nil_iff.mpr (by simpa using hw), List.nil_append]

abbrev Word (sep : α → Bool) := { w : List α // w ≠ [] ∧ ∀ c ∈ w, sep c = false }

theorem dropWhile_word (w : Word sep) (u : List α) : (w.1 ++ u).dropWhile sep = w.1 ++ u := by
  obtain ⟨c, w', hw⟩ := List.exists_cons_of_ne_nil w.2.1
  have hc : sep c = false := w.2.2 c (by simp [hw])
  rw [hw, List.cons_append, List.dropWhile_cons_of_neg (by simp [hc])]

structure Column (sep : α → Bool) where
  lead : α
  word : Word sep
  lead_sep : sep lead = true

def text (cs : List (Column sep)) : List α := cs.flatMap fun c => c.lead :: c.word.1

/-- The columns behind the one in which a place of the row is. -/
def behind : ℕ → List (Column sep) → List (Column sep)
  | _, [] => []
  | k, c :: cs => if k ≤ c.word.1.length then cs else behind (k - (c.word.1.length + 1)) cs

theorem text_cons (c : Column sep) (cs : List (Column sep)) :
    text (c :: cs) = c.lead :: (c.word.1 ++ text cs) := rfl

theorem head?_text (cs : List (Column sep)) : ∀ c ∈ (text cs).head?, sep c = true := by
  cases cs with
  | nil => simp [text]
  | cons c cs => simpa [text_cons] using c.lead_sep

/-- From any place in a row the first word ends with the column. -/
theorem behindWord_drop (k : ℕ) (cs : List (Column sep)) :
    behindWord sep ((text cs).drop k) = text (behind k cs) := by
  induction cs generalizing k with
  | nil => simp [text, behind, behindWord]
  | cons c cs ih =>
    rw [behind, text_cons]
    split_ifs with hk
    · cases k with
      | zero =>
        rw [List.drop_zero, behindWord_cons_of_sep c.lead_sep,
          behindWord_append c.word.2.1 c.word.2.2 (head?_text cs)]
      | succ k =>
        have hne : c.word.1.drop k ≠ [] := by
          simpa using Nat.lt_of_succ_le hk
        rw [List.drop_succ_cons, List.drop_append_of_le_length (by omega)]
        exact behindWord_append hne (fun d hd => c.word.2.2 d (List.mem_of_mem_drop hd))
          (head?_text cs)
    · have hdrop : (c.lead :: (c.word.1 ++ text cs)).drop k =
          (text cs).drop (k - (c.word.1.length + 1)) := by
        rw [← List.cons_append, List.drop_append, List.length_cons,
          List.drop_of_length_le (by rw [List.length_cons]; omega), List.nil_append]
      rw [hdrop, ih]

theorem behindWord_text (cs : List (Column sep)) : behindWord sep (text cs) = text cs.tail := by
  have h := behindWord_drop 0 cs
  rw [List.drop_zero] at h
  rw [h]
  cases cs <;> rfl

/-- At least one column is passed. -/
theorem length_behind_lt (k : ℕ) (cs : List (Column sep)) (hne : cs ≠ []) :
    (behind k cs).length < cs.length := by
  induction cs generalizing k with
  | nil => exact absurd rfl hne
  | cons c cs ih =>
    rw [behind]
    split_ifs
    · exact Nat.lt_succ_self _
    · by_cases hcs : cs = []
      · simp [hcs, behind]
      · exact (ih _ hcs).trans (Nat.lt_succ_self _)

end Columbo.TextColumns
