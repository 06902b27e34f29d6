import Mathlib.Data.List.Infix

/-!
# Occurrences of a pattern in a text

`find` is the start of the first occurrence. A search that resumes behind a failed attempt,
and not one position behind its start, passes over a front of the text in pieces;
`SteppedOver` says which fronts these are.
-/
namespace Columbo.Occurrence

variable {α : Type*} {s t front rest : List α} {c : α} {k : ℕ}

section Find

variable [DecidableEq α]

/-- Where the first occurrence of the pattern starts. -/
def find (s : List α) : List α → Option ℕ
  | [] => if s = [] then some 0 else none
  | c :: t => if s <+: c :: t then some 0 else (find s t).map (· + 1)

theorem find_eq_some_iff :
    find s t = some k ↔ k ≤ t.length ∧ s <+: t.drop k ∧ ∀ j < k, ¬ s <+: t.drop j := by
  induction t generalizing k with
  | nil =>
    simp only [find, List.drop_nil, List.prefix_nil, List.length_nil, Nat.le_zero]
    split_ifs with hs
    · constructor
      · intro hk
        obtain rfl := Option.some.inj hk
        exact ⟨rfl, hs, fun j hj => absurd hj (Nat.not_lt_zero j)⟩
      · rintro ⟨rfl, -, -⟩
        rfl
    · simp [hs]
  | cons c t ih =>
    rw [find]
    split_ifs with hs
    · constructor
      · intro hk
        obtain rfl := Option.some.inj hk
        exact ⟨Nat.zero_le _, hs, fun j hj => absurd hj (Nat.not_lt_zero j)⟩
      · rintro ⟨-, -, hfirst⟩
        cases k with
        | zero => rfl
        | succ k => exact absurd hs (hfirst 0 k.succ_pos)
    · constructor
      · intro hk
        obtain ⟨k, hfind, rfl⟩ := Option.map_eq_some_iff.mp hk
        obtain ⟨hle, hat, hfirst⟩ := ih.mp hfind
        refine ⟨Nat.succ_le_succ hle, hat, fun j hj => ?_⟩
        cases j with
        | zero => exact hs
        | succ j => exact hfirst j (Nat.lt_of_succ_lt_succ hj)
      · rintro ⟨hle, hat, hfirst⟩
        cases k with
        | zero => exact absurd hat hs
        | succ k =>
          have hfind : find s t = some k :=
            ih.mpr ⟨Nat.le_of_succ_le_succ hle, hat,
              fun j hj => hfirst (j + 1) (Nat.succ_lt_succ hj)⟩
          rw [hfind]
          rfl

theorem find_eq_none_iff : find s t = none ↔ ¬ s <:+: t := by
  induction t with
  | nil => simp [find]
  | cons c t ih =>
    rw [find, List.infix_cons_iff]
    split_ifs with hs
    · simp [hs]
    · simp [hs, ih]

/-- The text in front of the first occurrence and the text behind it. -/
theorem split_of_find (h : find s t = some k) :
    ∃ front rest, t = front ++ (s ++ rest) ∧ front.length = k := by
  obtain ⟨hle, ⟨rest, hrest⟩, -⟩ := find_eq_some_iff.mp h
  exact ⟨t.take k, rest, by rw [hrest, List.take_append_drop], List.length_take_of_le hle⟩

end Find

/-- An occurrence lies on one side of an item that the pattern does not have. -/
theorem not_infix_of_split (hc : c ∉ s) (hfront : ¬ s <:+: front) (hrest : ¬ s <:+: rest) :
    ¬ s <:+: front ++ c :: rest := by
  rintro ⟨u, v, heq⟩
  rw [List.append_assoc] at heq
  rcases List.append_eq_append_iff.mp heq with ⟨w, hw, hbehind⟩ | ⟨w, hw, hbehind⟩
  · -- The front goes on behind `u`, so that the item is behind the occurrence or in it.
    rcases List.append_eq_append_iff.mp hbehind with ⟨w', hw', -⟩ | ⟨w', hw', hitem⟩
    · exact hfront ⟨u, w', by rw [hw, hw', List.append_assoc]⟩
    · cases w' with
      | nil => exact hfront ⟨u, [], by rw [hw, hw']; simp⟩
      | cons d w' =>
        obtain ⟨rfl, -⟩ := List.cons.inj hitem
        exact hc (by rw [hw']; simp)
  · cases w with
    | nil =>
      rw [List.nil_append] at hbehind
      cases s with
      | nil => exact hfront List.nil_infix
      | cons d s =>
        obtain ⟨rfl, -⟩ := List.cons.inj hbehind
        exact hc List.mem_cons_self
    | cons d w =>
      obtain ⟨rfl, hrest'⟩ := List.cons.inj hbehind
      exact hrest ⟨w, v, by rw [List.append_assoc]; exact hrest'.symm⟩

/-- The front of a text that a search passes over which resumes behind a failed attempt: single
items that do not start the pattern, and attempts that break off inside the pattern. -/
inductive SteppedOver (s : List α) : List α → List α → Prop
  | nil (rest : List α) : SteppedOver s [] rest
  | gap {c : α} {front rest : List α} (hc : s.head? ≠ some c) (h : SteppedOver s front rest) :
    SteppedOver s (c :: front) rest
  | attempt {p : List α} {c : α} {front rest : List α} (hp : p ≠ []) (hmatched : p ++ [c] <+: s)
    (hbroken : (front ++ rest).head? ≠ some c) (h : SteppedOver s front rest) :
    SteppedOver s (p ++ front) rest

theorem SteppedOver.gaps {gap : List α} (hgap : ∀ c ∈ gap, s.head? ≠ some c)
    (h : SteppedOver s front rest) : SteppedOver s (gap ++ front) rest := by
  induction gap with
  | nil => exact h
  | cons c gap ih =>
    exact .gap (hgap c List.mem_cons_self) (ih fun d hd => hgap d (List.mem_cons_of_mem c hd))

end Columbo.Occurrence
