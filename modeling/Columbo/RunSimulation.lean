import Columbo.Transition

/-!
# Relating the runs of two systems

A system simulates another one when each of its steps is a step of the other one or leaves its
state as it is. A system whose steps use something up has no long runs.
-/
namespace Columbo.Transition

variable {σ ι τ κ : Type*} {step : σ → ι → Option σ} {allowed : σ → ι → Prop} {start : σ}
  {step' : τ → κ → Option τ} {allowed' : τ → κ → Prop} {start' : τ}

/-- Each step is a step between related states of the other system, or is not seen there. -/
def Simulates (step : σ → ι → Option σ) (allowed : σ → ι → Prop) (step' : τ → κ → Option τ)
    (allowed' : τ → κ → Prop) (rel : σ → τ → Prop) : Prop :=
  ∀ {s t i s'}, rel s t → allowed s i → step s i = some s' →
    rel s' t ∨ ∃ k t', allowed' t k ∧ step' t k = some t' ∧ rel s' t'

theorem Simulates.reachable {rel : σ → τ → Prop}
    (hsim : Simulates step allowed step' allowed' rel) (hstart : rel start start') {s : σ}
    (h : Reachable step allowed start s) : ∃ t, Reachable step' allowed' start' t ∧ rel s t := by
  induction h with
  | refl => exact ⟨start', .refl, hstart⟩
  | tail _ hallowed hstep ih =>
    obtain ⟨t, ht, hrel⟩ := ih
    rcases hsim hrel hallowed hstep with hstutter | ⟨k, t', hk, hstep', hrel'⟩
    · exact ⟨t, ht, hstutter⟩
    · exact ⟨t', ht.tail hk hstep', hrel'⟩

/-- A run is no longer than what its steps use up. -/
theorem length_follow [∀ s i, Decidable (allowed s i)] {left : σ → ℕ → Prop}
    (hleft : ∀ {s n i s'}, left s n → allowed s i → step s i = some s' → ∃ m < n, left s' m)
    {is : List ι} {s s' : σ} {n : ℕ} (hs : left s n) (h : follow step allowed s is = some s') :
    ∃ m, left s' m ∧ is.length + m ≤ n := by
  induction is generalizing s n with
  | nil =>
    obtain rfl : s = s' := Option.some.inj h
    exact ⟨n, hs, by simp⟩
  | cons i is ih =>
    unfold follow at h
    split_ifs at h with hi
    obtain ⟨s₁, hs₁, hrest⟩ := Option.bind_eq_some_iff.mp h
    obtain ⟨n₁, hlt, hn₁⟩ := hleft hs hi hs₁
    obtain ⟨m, hm, hlength⟩ := ih hn₁ hrest
    refine ⟨m, hm, ?_⟩
    rw [List.length_cons]
    omega

end Columbo.Transition
