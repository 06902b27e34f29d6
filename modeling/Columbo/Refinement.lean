import Columbo.Coroutine

/-!
# Objects with atomic operations

An object executes operations `c : C`, each of which returns a response in `R c`; none
means that the operation is not possible in the state. A run is the history of the
operations. An object refines another one if a relation between their states makes
every operation of the first one possible for the second one, with the same response.
-/
namespace Columbo

/-- The states of an object and what its operations do. -/
abbrev Executes (C : Type) (R : C → Type) (σ : Type) := σ → (c : C) → Option (R c × σ)

namespace Executes

variable {C : Type} {R : C → Type} {σ τ : Type}

/-- The operations of a history, with their responses, lead from one state to another. -/
inductive Run (exec : Executes C R σ) : σ → Coroutine.History C R → σ → Prop
  | nil (s : σ) : Run exec s [] s
  | cons {s s₁ s' : σ} {c : C} {r : R c} {h : Coroutine.History C R}
    (hexec : exec s c = some (r, s₁)) (hrest : Run exec s₁ h s') :
    Run exec s (⟨c, r⟩ :: h) s'

variable {exec : Executes C R σ} {s s' : σ} {h h' : Coroutine.History C R}

theorem run_append : Run exec s (h ++ h') s' ↔ ∃ s₁, Run exec s h s₁ ∧ Run exec s₁ h' s' := by
  induction h generalizing s with
  | nil =>
    constructor
    · intro hrun
      exact ⟨s, .nil s, hrun⟩
    · rintro ⟨s₁, hnil, hrun⟩
      cases hnil
      exact hrun
  | cons e h ih =>
    constructor
    · intro hrun
      cases hrun with
      | cons hexec hrest =>
        obtain ⟨s₂, hfirst, hsecond⟩ := ih.mp hrest
        exact ⟨s₂, .cons hexec hfirst, hsecond⟩
    · rintro ⟨s₂, hfirst, hsecond⟩
      cases hfirst with
      | cons hexec hrest => exact .cons hexec (ih.mpr ⟨s₂, hrest, hsecond⟩)

/-- Related states have related successors, with the same responses. -/
def Refines (impl : Executes C R σ) (model : Executes C R τ) (rel : σ → τ → Prop) : Prop :=
  ∀ {s t c}, rel s t → Option.Rel (fun x y => x.1 = y.1 ∧ rel x.2 y.2) (impl s c) (model t c)

theorem Refines.run {impl : Executes C R σ} {model : Executes C R τ} {rel : σ → τ → Prop}
    (hrefines : Refines impl model rel) {t : τ} (hrel : rel s t) (hrun : Run impl s h s') :
    ∃ t', Run model t h t' ∧ rel s' t' := by
  induction hrun generalizing t with
  | nil s => exact ⟨t, .nil t, hrel⟩
  | @cons s s₁ s' c r h hexec _ ih =>
    have hstep := hrefines (c := c) hrel
    rw [hexec] at hstep
    cases hmodel : model t c with
    | none =>
      rw [hmodel] at hstep
      cases hstep
    | some rt =>
      obtain ⟨r', t₁⟩ := rt
      rw [hmodel] at hstep
      cases hstep with
      | some hsame =>
        obtain ⟨t', hrest, hrel'⟩ := ih hsame.2
        obtain rfl : r = r' := hsame.1
        exact ⟨t', .cons hmodel hrest, hrel'⟩

end Executes

end Columbo
