import Columbo.Scan

/-!
# Scans that are put together from basic ones

A parser is put together from basic scans by sequencing and by choices. What every basic scan
respects, and what every basic scan keeps, carries over to the parser.
-/
namespace Columbo

section Rules

variable {σ α β : Type} {R : σ → σ → Prop}

theorem Respects.optional {p : Scan σ α} (hp : Respects R p) : Respects R p.optional := by
  intro s s' h
  obtain ⟨hresult, hstate⟩ := hp s s' h
  exact ⟨congrArg some hresult, hstate⟩

theorem Respects.branch {p : Scan σ Unit} {q r : Scan σ α} (hp : Respects R p)
    (hq : Respects R q) (hr : Respects R r) : Respects R (Scan.branch p q r) := by
  intro s s' h
  obtain ⟨hresult, hstate⟩ := hp s s' h
  rcases hps : p s with ⟨o, t⟩
  rcases hps' : p s' with ⟨o', t'⟩
  rw [hps, hps'] at hresult hstate
  obtain rfl : o = o' := hresult
  simp only [Scan.branch, hps, hps']
  cases o with
  | none => exact hr t t' hstate
  | some u => exact hq t t' hstate

end Rules

namespace Scan

variable {σ : Type}

/-- The scans over some basic ones. -/
inductive Built (basic : (α : Type) → Scan σ α → Prop) : {α : Type} → Scan σ α → Prop
  | basic {α : Type} {p : Scan σ α} (hp : basic α p) : Built basic p
  | pure {α : Type} (a : α) : Built basic (Pure.pure a : Scan σ α)
  | fail {α : Type} : Built basic (Scan.fail : Scan σ α)
  | bind {α β : Type} {p : Scan σ α} {f : α → Scan σ β} (hp : Built basic p)
    (hf : ∀ a, Built basic (f a)) : Built basic (p >>= f)
  | orElse {α : Type} {p q : Scan σ α} (hp : Built basic p) (hq : Built basic q) :
    Built basic (p.orElse q)
  | optional {α : Type} {p : Scan σ α} (hp : Built basic p) : Built basic p.optional
  | branch {α : Type} {p : Scan σ Unit} {q r : Scan σ α} (hp : Built basic p)
    (hq : Built basic q) (hr : Built basic r) : Built basic (Scan.branch p q r)

variable {basic : (α : Type) → Scan σ α → Prop} {α : Type} {p q : Scan σ α}

theorem Built.ite {c : Prop} [Decidable c] (hp : Built basic p) (hq : Built basic q) :
    Built basic (if c then p else q) := by
  split_ifs
  · exact hp
  · exact hq

/-- A relation that every basic scan respects is respected by every scan. -/
theorem Built.respects {R : σ → σ → Prop}
    (hbasic : ∀ {β : Type} {b : Scan σ β}, basic β b → Respects R b) (h : Built basic p) :
    Respects R p := by
  induction h with
  | basic hp => exact hbasic hp
  | pure a => exact .pure a
  | fail => exact .fail
  | bind _ _ hp hf => exact hp.bind hf
  | orElse _ _ hp hq => exact hp.orElse hq
  | optional _ hp => exact hp.optional
  | branch _ _ _ hp hq hr => exact hp.branch hq hr

/-- Every value that the scan returns meets the condition. -/
def Yields (p : Scan σ α) (post : α → Prop) : Prop := ∀ s a, (p s).1 = some a → post a

namespace Yields

variable {β : Type} {p q : Scan σ α} {f : α → Scan σ β} {a : α} {post mid : α → Prop}
  {post' : β → Prop}

theorem trivial (p : Scan σ α) : p.Yields fun _ => True := fun _ _ _ => ⟨⟩

theorem pure (ha : post a) : Yields (Pure.pure a : Scan σ α) post := by
  intro s b hb
  exact Option.some.inj hb ▸ ha

theorem fail : Yields (Scan.fail : Scan σ α) post := by
  intro s a ha
  cases ha

theorem bind (hp : p.Yields mid) (hf : ∀ a, mid a → (f a).Yields post') :
    (p >>= f).Yields post' := by
  intro s b hb
  obtain ⟨a, s', ha, hb'⟩ := Scan.bind_eq_some hb
  exact hf a (hp s a (by rw [ha])) s' b hb'

/-- The value of the first scan does not matter. -/
theorem after (hf : ∀ a, (f a).Yields post') : (p >>= f).Yields post' :=
  (trivial p).bind fun a _ => hf a

theorem orElse (hp : p.Yields post) (hq : q.Yields post) : (p.orElse q).Yields post := by
  intro s a ha
  rcases hps : p s with ⟨o, t⟩
  simp only [Scan.orElse, hps] at ha
  cases o with
  | none => exact hq t a ha
  | some b => exact hp s a (by rw [hps, ← ha])

theorem optional (hp : p.Yields post) : p.optional.Yields fun o => ∀ a ∈ o, post a := by
  intro s o ho a ha
  exact hp s a (Option.some.inj ho ▸ ha)

theorem branch {c : Scan σ Unit} (hp : p.Yields post) (hq : q.Yields post) :
    (Scan.branch c p q).Yields post := by
  intro s a ha
  rcases hcs : c s with ⟨o, t⟩
  simp only [Scan.branch, hcs] at ha
  cases o with
  | none => exact hq t a ha
  | some u => exact hp t a ha

theorem ite {c : Prop} [Decidable c] (hp : p.Yields post) (hq : q.Yields post) :
    (if c then p else q).Yields post := by
  split_ifs
  · exact hp
  · exact hq

end Yields

end Scan

end Columbo
