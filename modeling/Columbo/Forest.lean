import Mathlib.Logic.Relation
import Mathlib.Data.Set.Basic
import Mathlib.Data.List.Induction

/-!
# Forests given by parent pointers

A partial function `parent` orders its nodes into trees. Three notions are
developed: sequences in which every node comes after its parent, the nodes whose
whole chain of ancestors is finished, and the change of the parent of some roots.
-/
namespace Columbo.Forest

open Relation

variable {α : Type*} {parent parent' : α → Option α}

/-- Every node of the sequence that has a parent comes after it. -/
def ParentFirst (parent : α → Option α) (l : List α) : Prop :=
  ∀ before s after, l = before ++ s :: after → ∀ p, parent s = some p → p ∈ before

theorem parentFirst_nil : ParentFirst parent [] := by
  intro before s after h
  simp at h

theorem ParentFirst.concat {l : List α} {s : α} (h : ParentFirst parent l)
    (hs : ∀ p, parent s = some p → p ∈ l) : ParentFirst parent (l ++ [s]) := by
  intro before x after heq p hp
  rcases List.eq_nil_or_concat after with rfl | ⟨init, y, rfl⟩
  · have hend : l = before ∧ s = x := by simpa using heq
    obtain ⟨rfl, rfl⟩ := hend
    exact hs p hp
  · have hinit : l ++ [s] = (before ++ x :: init) ++ [y] := by simpa using heq
    have hl : l = before ++ x :: init := (List.append_inj' hinit rfl).1
    exact h before x init hl p hp

theorem ParentFirst.congr {l : List α} (h : ParentFirst parent l)
    (hp : ∀ s ∈ l, parent' s = parent s) : ParentFirst parent' l := by
  intro before s after heq p hs
  have hmem : s ∈ l := by simp [heq]
  rw [hp s hmem] at hs
  exact h before s after heq p hs

/-- The nodes of `done` from which the parent pointers lead through nodes of `done`
to a root. -/
inductive Released (parent : α → Option α) (done : Set α) : α → Prop
  | root {s : α} : s ∈ done → parent s = none → Released parent done s
  | child {s p : α} : s ∈ done → parent s = some p → Released parent done p →
      Released parent done s

/-- A set that contains a done node as soon as it contains the parent, or as there
is none, contains every released node. -/
theorem Released.mem {done released : Set α} (hroot : ∀ s ∈ done, parent s = none → s ∈ released)
    (hchild : ∀ s ∈ done, ∀ p ∈ released, parent s = some p → s ∈ released)
    {s : α} (h : Released parent done s) : s ∈ released := by
  induction h with
  | root hs hp => exact hroot _ hs hp
  | child hs hp _ ih => exact hchild _ hs _ ih hp

/-- In a sequence of done nodes in which parents come first every node is released. -/
theorem ParentFirst.released {done : Set α} {l : List α} (h : ParentFirst parent l)
    (hdone : ∀ s ∈ l, s ∈ done) {s : α} (hs : s ∈ l) : Released parent done s := by
  induction l using List.reverseRecOn generalizing s with
  | nil => simp at hs
  | append_singleton l x ih =>
    have hinit : ParentFirst parent l := by
      intro before y after heq p hp
      exact h before y (after ++ [x]) (by simp [heq]) p hp
    have hl : ∀ y ∈ l, Released parent done y := fun y hy =>
      ih hinit (fun z hz => hdone z (by simp [hz])) hy
    rcases List.mem_append.mp hs with hmem | hmem
    · exact hl s hmem
    · have hsx : s = x := by simpa using hmem
      subst hsx
      have hsd : s ∈ done := hdone s hs
      cases hp : parent s with
      | none => exact .root hsd hp
      | some p => exact .child hsd hp (hl p (h l s [] rfl p hp))

/-- The step from a node to its parent. -/
def Up (parent : α → Option α) (s p : α) : Prop := parent s = some p

/-- The parent pointers lead from the node to this root. -/
def RootOf (parent : α → Option α) (s r : α) : Prop :=
  ReflTransGen (Up parent) s r ∧ parent r = none

theorem ParentFirst.mem_parent {l : List α} {s p : α} (h : ParentFirst parent l) (hs : s ∈ l)
    (hp : parent s = some p) : p ∈ l := by
  obtain ⟨before, after, heq⟩ := List.append_of_mem hs
  exact heq ▸ List.mem_append_left _ (h before s after heq p hp)

/-- A label that goes from parents to children is that of the root. -/
theorem ParentFirst.label_root {β : Type*} {l : List α} (h : ParentFirst parent l)
    {label : α → β} (hchild : ∀ s ∈ l, ∀ p, parent s = some p → label s = label p)
    {s r : α} (hs : s ∈ l) (hr : RootOf parent s r) : label s = label r := by
  obtain ⟨hup, -⟩ := hr
  induction hup using ReflTransGen.head_induction_on with
  | refl => rfl
  | head hp _ ih => exact (hchild _ hs _ hp).trans (ih (h.mem_parent hs hp))

/-- No node is a proper ancestor of itself. -/
def Acyclic (parent : α → Option α) : Prop := ∀ s, ¬ TransGen (Up parent) s s

section Reparent

variable {roots : Set α} {p : α}
  (hroots : ∀ r ∈ roots, parent r = none)
  (hnew : ∀ r ∈ roots, parent' r = some p)
  (hold : ∀ s ∉ roots, parent' s = parent s)

include hroots hold in
theorem up_reparent {s q : α} (h : Up parent s q) : Up parent' s q := by
  have hs : s ∉ roots := by
    intro hmem
    rw [Up, hroots s hmem] at h
    cases h
  unfold Up
  rw [hold s hs]
  exact h

include hnew hold in
/-- A walk in the new forest is one in the old forest, or it has passed the new
parent. -/
theorem transGen_reparent {a b : α} (h : TransGen (Up parent') a b) :
    TransGen (Up parent) a b ∨ ReflTransGen (Up parent') p b := by
  have hedge : ∀ {s q}, Up parent' s q → Up parent s q ∨ p = q := by
    intro s q hs
    by_cases hmem : s ∈ roots
    · rw [Up, hnew s hmem] at hs
      exact .inr (Option.some.inj hs)
    · rw [Up, hold s hmem] at hs
      exact .inl hs
  induction h with
  | single hs =>
    rcases hedge hs with hs | rfl
    · exact .inl (.single hs)
    · exact .inr .refl
  | tail _ hs ih =>
    rcases ih with ih | ih
    · rcases hedge hs with hs | rfl
      · exact .inl (ih.tail hs)
      · exact .inr .refl
    · exact .inr (ih.tail hs)

include hold in
/-- Without a changed root above it, a node keeps its ancestors. -/
theorem reflTransGen_reparent {a b : α} (hfree : ∀ r ∈ roots, ¬ ReflTransGen (Up parent) a r)
    (h : ReflTransGen (Up parent') a b) : ReflTransGen (Up parent) a b := by
  induction h with
  | refl => exact .refl
  | @tail b c _ hs ih =>
    have hb : b ∉ roots := fun hmem => hfree b hmem ih
    rw [Up, hold b hb] at hs
    exact ih.tail hs

/-- Giving some roots a common parent keeps a forest acyclic exactly when none of
them is that parent or one of its ancestors. -/
theorem acyclic_reparent_iff (hroots : ∀ r ∈ roots, parent r = none)
    (hnew : ∀ r ∈ roots, parent' r = some p) (hold : ∀ s ∉ roots, parent' s = parent s) :
    Acyclic parent' ↔ Acyclic parent ∧ ∀ r ∈ roots, ¬ ReflTransGen (Up parent) p r := by
  constructor
  · intro h
    refine ⟨fun s hs => h s (hs.lift id fun _ _ => up_reparent hroots hold), ?_⟩
    intro r hr hup
    have hback : ReflTransGen (Up parent') p r :=
      hup.lift id fun _ _ => up_reparent hroots hold
    exact h r (TransGen.head' (hnew r hr) hback)
  · rintro ⟨h, hfree⟩ s hs
    rcases transGen_reparent hnew hold hs with hcycle | hps
    · exact h s hcycle
    · -- the cycle lies above the new parent, so it uses old edges only
      have hup : ReflTransGen (Up parent) p s := reflTransGen_reparent hold hfree hps
      have hfree' : ∀ r ∈ roots, ¬ ReflTransGen (Up parent) s r :=
        fun r hr hsr => hfree r hr (hup.trans hsr)
      obtain ⟨q, hsq, hlast⟩ := TransGen.tail'_iff.mp hs
      have hsq' : ReflTransGen (Up parent) s q := reflTransGen_reparent hold hfree' hsq
      have hq : q ∉ roots := fun hmem => hfree' q hmem hsq'
      rw [Up, hold q hq] at hlast
      exact h s (TransGen.tail' hsq' hlast)

end Reparent

end Columbo.Forest
