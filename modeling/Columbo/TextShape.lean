import Columbo.Occurrence

/-!
# Texts with holes

A shape is a text that is known up to holes, of which only a class of items is known
that they are filled with. Whether a pattern may occur in some text of a shape is
computed from the shape, and so is whether a search that resumes behind a failed attempt
passes over every text of it.
-/
namespace Columbo.TextShape

open Occurrence

inductive Item (α : Type*)
  | item (c : α)
  | hole (cls : α → Bool)

variable {α : Type*} {cls : α → Bool} {c : α} {p q t front rest u left : List α}
  {s s₁ s₂ : List (Item α)}

/-- The texts of a shape. -/
inductive Fills : List (Item α) → List α → Prop
  | nil : Fills [] []
  | item (c : α) {s : List (Item α)} {t : List α} (h : Fills s t) : Fills (.item c :: s) (c :: t)
  | hole {cls : α → Bool} {d : List α} {s : List (Item α)} {t : List α}
    (hd : ∀ c ∈ d, cls c = true) (h : Fills s t) : Fills (.hole cls :: s) (d ++ t)

theorem Fills.items (t : List α) : Fills (t.map .item) t := by
  induction t with
  | nil => exact .nil
  | cons c t ih => exact .item c ih

theorem Fills.fill {d : List α} (hd : ∀ c ∈ d, cls c = true) : Fills [.hole cls] d := by
  rw [← List.append_nil d]
  exact .hole hd .nil

theorem Fills.append (h₁ : Fills s₁ t) (h₂ : Fills s₂ u) :
    Fills (s₁ ++ s₂) (t ++ u) := by
  induction h₁ with
  | nil => exact h₂
  | item c _ ih => exact .item c ih
  | hole hd _ ih =>
    rw [List.append_assoc]
    exact .hole hd ih

theorem Fills.of_append (h : Fills (s₁ ++ s₂) t) :
    ∃ u v, t = u ++ v ∧ Fills s₁ u ∧ Fills s₂ v := by
  induction s₁ generalizing t with
  | nil => exact ⟨[], t, rfl, .nil, h⟩
  | cons i s₁ ih =>
    cases h with
    | item c h =>
      obtain ⟨u, v, rfl, hu, hv⟩ := ih h
      exact ⟨c :: u, v, rfl, .item c hu, hv⟩
    | hole hd h =>
      obtain ⟨u, v, rfl, hu, hv⟩ := ih h
      exact ⟨_, v, (List.append_assoc ..).symm, .hole hd hu, hv⟩

/-- What can be left of a pattern behind a text of the class. -/
def leftovers (cls : α → Bool) : List α → List (List α)
  | [] => [[]]
  | c :: p => (c :: p) :: if cls c then leftovers cls p else []

theorem self_mem_leftovers : p ∈ leftovers cls p := by
  cases p with
  | nil => exact List.mem_singleton.mpr rfl
  | cons c p => exact List.mem_cons_self

theorem exists_leftover {d : List α} (hd : ∀ c ∈ d, cls c = true) (h : p <+: d ++ t) :
    ∃ q ∈ leftovers cls p, q <+: t := by
  induction d generalizing p with
  | nil => exact ⟨p, self_mem_leftovers, h⟩
  | cons c d ih =>
    cases p with
    | nil => exact ⟨[], self_mem_leftovers, List.nil_prefix⟩
    | cons b p =>
      obtain ⟨rfl, hp⟩ := List.cons_prefix_cons.mp h
      obtain ⟨q, hq, hqt⟩ := ih (fun e he => hd e (List.mem_cons_of_mem b he)) hp
      refine ⟨q, ?_, hqt⟩
      rw [leftovers, if_pos (hd b List.mem_cons_self)]
      exact List.mem_cons_of_mem _ hq

variable [DecidableEq α]

/-- Whether some text of the shape may start with the pattern. -/
def mayStart : List (Item α) → List α → Bool
  | [], p => p.isEmpty
  | .item d :: s, p =>
    match p with
    | [] => true
    | c :: p => if c = d then mayStart s p else false
  | .hole cls :: s, p => (leftovers cls p).any fun q => mayStart s q

theorem mayStart_of_starts (hs : Fills s t) (h : p <+: t) : mayStart s p = true := by
  induction hs generalizing p with
  | nil =>
    obtain rfl := List.prefix_nil.mp h
    rfl
  | item c _ ih =>
    cases p with
    | nil => rfl
    | cons b p =>
      obtain ⟨rfl, hp⟩ := List.cons_prefix_cons.mp h
      rw [mayStart, if_pos rfl]
      exact ih hp
  | hole hd _ ih =>
    obtain ⟨q, hq, hqt⟩ := exists_leftover hd h
    exact List.any_eq_true.mpr ⟨q, hq, ih hqt⟩

/-- Whether the pattern may occur in some text of the shape. -/
def mayOccur (p : List α) : List (Item α) → Bool
  | [] => mayStart [] p
  | i :: s => if mayStart (i :: s) p then true else mayOccur p s

theorem mayOccur_of_occurs (hs : Fills s t) (h : p <:+: t) : mayOccur p s = true := by
  induction hs with
  | nil => exact mayStart_of_starts .nil (List.prefix_nil.mpr (List.infix_nil.mp h))
  | item c hs ih =>
    rw [mayOccur]
    split_ifs with hstart
    · rfl
    · rcases List.infix_cons_iff.mp h with hp | hp
      · exact absurd (mayStart_of_starts (.item c hs) hp) hstart
      · exact ih hp
  | @hole cls d s t hd hs ih =>
    rw [mayOccur]
    split_ifs with hstart
    · rfl
    -- An occurrence that starts in the hole would start a text of the shape.
    induction d with
    | nil => exact ih h
    | cons c d ihd =>
      rcases List.infix_cons_iff.mp h with hp | hp
      · exact absurd (mayStart_of_starts (.hole hd hs) hp) hstart
      · exact ihd (fun e he => hd e (List.mem_cons_of_mem c he)) hp

theorem not_infix_of_shape (hs : Fills s t) (h : mayOccur p s = false) : ¬ p <:+: t := by
  intro hp
  rw [mayOccur_of_occurs hs hp] at h
  cases h

/-- Whether a search with `left` left of its current attempt passes over every text of the
shape and has no attempt open at its end. Holes are reached without an open attempt. -/
def passes (p : List α) : List (Item α) → List α → Bool
  | [], left => decide (left = p)
  | .hole cls :: s, left => if left = p then !p.head?.any cls && passes p s p else false
  | .item c :: s, left =>
    match left, p with
    | [], _ | _, [] => false
    | d :: left, a :: q =>
      if c = d then passes p s left else if c = a then passes p s q else passes p s p

theorem steppedOver_of_passes (hs : Fills s t) (hp : p = u ++ left)
    (h : passes p s left = true) : SteppedOver p (u ++ t) rest := by
  induction hs generalizing u left with
  | nil =>
    obtain rfl := of_decide_eq_true h
    obtain rfl := List.self_eq_append_left.mp hp
    exact .nil rest
  | @hole cls d s t hd hs ih =>
    rw [passes] at h
    split_ifs at h with hleft
    obtain rfl := hleft
    obtain rfl := List.self_eq_append_left.mp hp
    rw [Bool.and_eq_true, Bool.not_eq_true'] at h
    rw [List.nil_append]
    refine .gaps (fun c hc he => ?_) (ih (u := []) rfl h.2)
    rw [he, Option.any_some, hd c hc] at h
    cases h.1
  | @item c s t hs ih =>
    match left, p, hp, h with
    | d :: left, a :: q, hp, h =>
      rw [passes] at h
      by_cases hcd : c = d
      · rw [if_pos hcd] at h
        have hmore : SteppedOver (a :: q) (u ++ [c] ++ t) rest :=
          ih (by rw [hp, hcd, List.append_assoc]; rfl) h
        rwa [List.append_assoc] at hmore
      · -- The attempt, if one is open, breaks off, and a new one may start.
        rw [if_neg hcd] at h
        have hagain : SteppedOver (a :: q) (c :: t) rest := by
          by_cases hca : c = a
          · rw [if_pos hca] at h
            rw [hca]
            exact ih (u := [a]) rfl h
          · rw [if_neg hca] at h
            exact .gap (by simpa using Ne.symm hca) (ih (u := []) rfl h)
        by_cases hused : u = []
        · rwa [hused, List.nil_append]
        · exact .attempt hused ⟨left, by rw [hp, List.append_assoc]; rfl⟩ (by simpa using hcd)
            hagain

/-- Whether every text of the shape is the pattern. -/
def spells : List (Item α) → List α → Bool
  | [], p => p.isEmpty
  | .hole _ :: _, _ => false
  | .item _ :: _, [] => false
  | .item c :: s, d :: p => if c = d then spells s p else false

theorem eq_of_spells (hs : Fills s t) (h : spells s p = true) : t = p := by
  induction hs generalizing p with
  | nil => exact (List.isEmpty_iff.mp h).symm
  | hole _ _ _ => cases h
  | item c _ ih =>
    cases p with
    | nil => cases h
    | cons d p =>
      rw [spells] at h
      split_ifs at h with hcd
      rw [hcd, ih h]

/-- Whether a search ends where the shape ends. -/
def finds (p : List α) (s : List (Item α)) : Bool :=
  passes p (s.take (s.length - p.length)) p && spells (s.drop (s.length - p.length)) p

theorem split_of_finds (hs : Fills s t) (h : finds p s = true) :
    ∃ front, t = front ++ p ∧ ∀ rest, SteppedOver p front rest := by
  rw [finds, Bool.and_eq_true] at h
  rw [← List.take_append_drop (s.length - p.length) s] at hs
  obtain ⟨front, v, rfl, hfront, hv⟩ := hs.of_append
  exact ⟨front, by rw [eq_of_spells hv h.2],
    fun rest => steppedOver_of_passes (u := []) hfront rfl h.1⟩

end Columbo.TextShape
