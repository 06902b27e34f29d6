import Mathlib.Data.List.Basic

/-!
# Runs of a partial step function

A system is a step function `σ → ι → Option σ`; `none` is a step that aborts.
The environment chooses any operation that the predicate `allowed` admits in the
current state. Loops over a list with a body that may abort are runs as well.
-/
namespace Columbo.Transition

variable {σ ι : Type*}

/-- The states that some run from `start` reaches. -/
inductive Reachable (step : σ → ι → Option σ) (allowed : σ → ι → Prop) (start : σ) : σ → Prop
  | refl : Reachable step allowed start start
  | tail {s s' : σ} {i : ι} : Reachable step allowed start s → allowed s i →
      step s i = some s' → Reachable step allowed start s'

variable {step : σ → ι → Option σ} {allowed allowed' : σ → ι → Prop} {start : σ}

/-- What holds at the start and is kept by every allowed step holds in every
reachable state. -/
theorem Reachable.invariant {inv : σ → Prop} (hstart : inv start)
    (hstep : ∀ {s i s'}, inv s → allowed s i → step s i = some s' → inv s')
    {s : σ} (h : Reachable step allowed start s) : inv s := by
  induction h with
  | refl => exact hstart
  | tail _ hallowed hs ih => exact hstep ih hallowed hs

/-- More operations reach more states. -/
theorem Reachable.mono (himp : ∀ s i, allowed s i → allowed' s i) {s : σ}
    (h : Reachable step allowed start s) : Reachable step allowed' start s := by
  induction h with
  | refl => exact .refl
  | tail _ hallowed hs ih => exact ih.tail (himp _ _ hallowed) hs

/-- Execute a list of operations, each of which has to be allowed. -/
def follow (step : σ → ι → Option σ) (allowed : σ → ι → Prop)
    [∀ s i, Decidable (allowed s i)] : σ → List ι → Option σ
  | s, [] => some s
  | s, i :: is => if allowed s i then (step s i).bind fun s' => follow step allowed s' is else none

theorem Reachable.follow [∀ s i, Decidable (allowed s i)] {is : List ι} {s s' : σ}
    (hs : Reachable step allowed start s) (h : follow step allowed s is = some s') :
    Reachable step allowed start s' := by
  induction is generalizing s with
  | nil =>
    have hss : s = s' := Option.some.inj h
    exact hss ▸ hs
  | cons i is ih =>
    unfold Transition.follow at h
    split_ifs at h with hi
    obtain ⟨s₁, hs₁, hrest⟩ := Option.bind_eq_some_iff.mp h
    exact ih (hs.tail hi hs₁) hrest

/-- A loop runs to its end when its invariant, which speaks about the items that
are left, makes every round succeed. -/
theorem foldlM_total {α : Type*} {f : σ → α → Option σ} (inv : List α → σ → Prop)
    (hstep : ∀ {a rest s}, inv (a :: rest) s → ∃ s', f s a = some s' ∧ inv rest s')
    {l : List α} {s : σ} (h : inv l s) : ∃ s', l.foldlM f s = some s' ∧ inv [] s' := by
  induction l generalizing s with
  | nil => exact ⟨s, rfl, h⟩
  | cons a rest ih =>
    obtain ⟨s₁, hs₁, hinv⟩ := hstep h
    obtain ⟨s', hs', hend⟩ := ih hinv
    refine ⟨s', ?_, hend⟩
    rw [List.foldlM_cons, hs₁]
    exact hs'

/-- What every round of a loop that ran to its end has kept holds at the end. -/
theorem foldlM_partial {α : Type*} {f : σ → α → Option σ} (inv : List α → σ → Prop)
    (hstep : ∀ {a rest s s'}, inv (a :: rest) s → f s a = some s' → inv rest s')
    {l : List α} {s s' : σ} (h : inv l s) (hrun : l.foldlM f s = some s') : inv [] s' := by
  induction l generalizing s with
  | nil =>
    have hss : s = s' := Option.some.inj hrun
    exact hss ▸ h
  | cons a rest ih =>
    rw [List.foldlM_cons] at hrun
    obtain ⟨s₁, hs₁, hrest⟩ := Option.bind_eq_some_iff.mp hrun
    exact ih (hstep h hs₁) hrest

end Columbo.Transition
