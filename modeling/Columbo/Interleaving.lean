import Mathlib.Data.List.Count
import Mathlib.Data.List.Nodup

/-!
# Interleaved sequences

An interleaving of sequences is a list whose items carry the name of their sequence. The
own items of a sequence stand in the list in their order.
-/
namespace Columbo.Interleaving

variable {τ α : Type*} {t t' : τ} {a : α} {p : α → Bool} {l l' : List (τ × α)}

/-- The sequences of the items that satisfy `p`, in the order of the items. -/
def tags (p : α → Bool) (l : List (τ × α)) : List τ := (l.filter (p ·.2)).map Prod.fst

@[simp] theorem tags_nil : tags p ([] : List (τ × α)) = [] := rfl

@[simp] theorem tags_append : tags p (l ++ l') = tags p l ++ tags p l' := by
  simp [tags]

theorem tags_singleton : tags p [(t, a)] = if p a then [t] else [] := by
  cases h : p a <;> simp [tags, h]

theorem tags_concat_pos (h : p a = true) : tags p (l ++ [(t, a)]) = tags p l ++ [t] := by
  rw [tags_append, tags_singleton, if_pos h]

theorem tags_concat_neg (h : p a = false) : tags p (l ++ [(t, a)]) = tags p l := by
  rw [tags_append, tags_singleton, if_neg (by simp [h]), List.append_nil]

variable [DecidableEq τ]

/-- The items of one sequence. -/
def own (t : τ) (l : List (τ × α)) : List α := (l.filter (·.1 = t)).map Prod.snd

@[simp] theorem own_nil : own t ([] : List (τ × α)) = [] := rfl

@[simp] theorem own_append : own t (l ++ l') = own t l ++ own t l' := by
  simp [own]

theorem own_singleton_self : own t [(t, a)] = [a] := by
  simp [own]

theorem own_singleton_of_ne (h : t' ≠ t) : own t' [(t, a)] = [] := by
  simp [own, h.symm]

theorem own_concat_of_ne (h : t' ≠ t) : own t' (l ++ [(t, a)]) = own t' l := by
  rw [own_append, own_singleton_of_ne h, List.append_nil]

theorem own_concat_self : own t (l ++ [(t, a)]) = own t l ++ [a] := by
  rw [own_append, own_singleton_self]

theorem mem_own : a ∈ own t l ↔ (t, a) ∈ l := by
  simp [own]

theorem mem_tags : t ∈ tags p l ↔ ∃ a ∈ own t l, p a = true := by
  simp [tags, mem_own]

/-- A sequence is named once for each of its items. -/
theorem count_tags (p : α → Bool) (t : τ) (l : List (τ × α)) :
    (tags p l).count t = (own t l).countP p := by
  induction l with
  | nil => rfl
  | cons x l ih =>
    obtain ⟨s, a⟩ := x
    have hl : (s, a) :: l = [(s, a)] ++ l := rfl
    rw [hl, tags_append, own_append, List.count_append, List.countP_append, ih, tags_singleton]
    congr 1
    by_cases hs : s = t
    · subst hs
      rw [own_singleton_self]
      cases hp : p a <;> simp [hp]
    · rw [own_singleton_of_ne (Ne.symm hs)]
      cases hp : p a <;> simp [hs]

/-- If every sequence has at most one such item, no sequence is named twice. -/
theorem nodup_tags (h : ∀ t, (own t l).countP p ≤ 1) : (tags p l).Nodup := by
  rw [List.nodup_iff_count_le_one]
  intro t
  rw [count_tags]
  exact h t

/-- The sequences with an item that satisfies `p`, but none that satisfies `q`. -/
def unfinished (p q : α → Bool) (l : List (τ × α)) : List τ :=
  (tags p l).filter (· ∉ tags q l)

section Unfinished

variable {q : α → Bool}

theorem unfinished_concat_start (hp : p a = true) (hq : q a = false) (ht : t ∉ tags q l) :
    unfinished p q (l ++ [(t, a)]) = unfinished p q l ++ [t] := by
  unfold unfinished
  rw [tags_concat_pos hp, tags_concat_neg hq, List.filter_append]
  simp [ht]

theorem unfinished_concat_other (hp : p a = false) (hq : q a = false) :
    unfinished p q (l ++ [(t, a)]) = unfinished p q l := by
  unfold unfinished
  rw [tags_concat_neg hp, tags_concat_neg hq]

theorem unfinished_concat_finish (hp : p a = false) (hq : q a = true) :
    unfinished p q (l ++ [(t, a)]) = (unfinished p q l).filter (· ≠ t) := by
  unfold unfinished
  rw [tags_concat_neg hp, tags_concat_pos hq, List.filter_filter]
  refine List.filter_congr fun t' _ => ?_
  simp [and_comm, not_or]

/-- The sequence that finishes is taken away. -/
theorem perm_unfinished_finish (hp : p a = false) (hq : q a = true)
    (hnodup : (unfinished p q l).Nodup) (ht : t ∈ unfinished p q l) :
    (unfinished p q l).Perm (t :: unfinished p q (l ++ [(t, a)])) := by
  have hperm := List.perm_cons_erase ht
  rw [hnodup.erase_eq_filter] at hperm
  have hother : (unfinished p q l).filter (· ≠ t) = (unfinished p q l).filter (· != t) :=
    List.filter_congr fun t' _ => by by_cases h : t' = t <;> simp [h]
  rw [unfinished_concat_finish hp hq, hother]
  exact hperm

end Unfinished

end Columbo.Interleaving
