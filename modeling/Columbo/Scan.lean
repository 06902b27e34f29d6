import Mathlib.Data.List.Basic

/-!
# Scanners that read back a printed text

A scanner is a function of a cursor state that either returns a value or fails,
and in both cases leaves a cursor behind: a failed scan may have moved it. The
text in front of the cursor is given by a view, a relation between states and
symbol lists, so that the same rules serve every representation of a cursor.

`Reads` says that a scanner consumes exactly a given text and returns a given
value whenever the text that follows is acceptable. Its rule for sequencing
turns the layout of a printed record into a proof that the parser of the record
returns what was printed.
-/
namespace Columbo

/-- A scan of a cursor state. Failure keeps the state that was reached. -/
def Scan (σ α : Type) : Type := σ → Option α × σ

namespace Scan

variable {σ α β γ : Type}

instance : Monad (Scan σ) where
  pure a := fun s => (some a, s)
  bind p f := fun s =>
    match p s with
    | (some a, s') => f a s'
    | (none, s') => (none, s')

/-- Fails without moving the cursor. -/
def fail : Scan σ α := fun s => (none, s)

/-- Runs the second scan from where the first one failed. -/
def orElse (p q : Scan σ α) : Scan σ α := fun s =>
  match p s with
  | (some a, s') => (some a, s')
  | (none, s') => q s'

/-- Turns failure into a value, as a scan into an `std::optional` does. -/
def optional (p : Scan σ α) : Scan σ (Option α) := fun s => (some (p s).1, (p s).2)

/-- `if (p) q else r`, for a scan `p` that is run for its effect. -/
def branch (p : Scan σ Unit) (q r : Scan σ α) : Scan σ α := fun s =>
  match p s with
  | (some (), s') => q s'
  | (none, s') => r s'

@[simp] theorem pure_apply (a : α) (s : σ) : (pure a : Scan σ α) s = (some a, s) := rfl

@[simp] theorem pure_bind (a : α) (f : α → Scan σ β) : (pure a >>= f) = f a := rfl

theorem bind_of_some {p : Scan σ α} {f : α → Scan σ β} {s s' : σ} {a : α}
    (h : p s = (some a, s')) : (p >>= f) s = f a s' := by
  change (match p s with | (some a, s') => f a s' | (none, s') => (none, s')) = _
  rw [h]

theorem bind_of_none {p : Scan σ α} {f : α → Scan σ β} {s s' : σ}
    (h : p s = (none, s')) : (p >>= f) s = (none, s') := by
  change (match p s with | (some a, s') => f a s' | (none, s') => (none, s')) = _
  rw [h]

/-- A computation on the value maps the result. -/
theorem bind_pure_fst (p : Scan σ α) (f : α → β) (s : σ) :
    ((p >>= fun a => pure (f a)) s).1 = (p s).1.map f := by
  rcases hp : p s with ⟨_ | a, s'⟩
  · rw [bind_of_none hp]
    rfl
  · rw [bind_of_some hp]
    rfl

theorem isSome_bind_pure (p : Scan σ α) (f : α → β) (s : σ) :
    ((p >>= fun a => pure (f a)) s).1.isSome = (p s).1.isSome := by
  rw [bind_pure_fst, Option.isSome_map]

/-- A sequence that returns a value has a first part that returned one. -/
theorem bind_eq_some {p : Scan σ α} {f : α → Scan σ β} {s : σ} {b : β}
    (h : ((p >>= f) s).1 = some b) :
    ∃ a s', p s = (some a, s') ∧ (f a s').1 = some b := by
  rcases hp : p s with ⟨_ | a, s'⟩
  · rw [bind_of_none hp] at h
    cases h
  · exact ⟨a, s', rfl, by rwa [bind_of_some hp] at h⟩

end Scan

section Reading

variable {σ τ α β : Type} (V : σ → List τ → Prop)

/-- The scan consumes exactly `text` and returns `a`, whatever acceptable text follows. -/
def Reads (p : Scan σ α) (text : List τ) (a : α) (ok : List τ → Prop) : Prop :=
  ∀ s rest, V s (text ++ rest) → ok rest → ∃ s', p s = (some a, s') ∧ V s' rest

/-- The scan fails on the text in front of the cursor and leaves the cursor there. -/
def Refuses (p : Scan σ α) (text : List τ) : Prop :=
  ∀ s, V s text → ∃ s', p s = (none, s') ∧ V s' text

/-- The scan returns `a` on exactly this text. Where it leaves the cursor does not matter. -/
def Returns (p : Scan σ α) (text : List τ) (a : α) : Prop :=
  ∀ s, V s text → (p s).1 = some a

variable {V} {p q : Scan σ α} {f : α → Scan σ β} {a : α} {b : β} {t u : List τ}
  {ok ok' : List τ → Prop}

theorem Reads.pure : Reads V (pure a) [] a ok := fun s _ hv _ => ⟨s, rfl, hv⟩

/-- Reading two texts in sequence. What follows the first text is the second
one, so the second one has to be acceptable to the first scan. -/
theorem Reads.bind (hp : Reads V p t a ok) (hf : Reads V (f a) u b ok')
    (hok : ∀ rest, ok' rest → ok (u ++ rest)) : Reads V (p >>= f) (t ++ u) b ok' := by
  intro s rest hv hrest
  rw [List.append_assoc] at hv
  obtain ⟨s₁, h₁, hv₁⟩ := hp s (u ++ rest) hv (hok rest hrest)
  obtain ⟨s₂, h₂, hv₂⟩ := hf s₁ rest hv₁ hrest
  exact ⟨s₂, by rw [Scan.bind_of_some h₁, h₂], hv₂⟩

/-- A scan that accepts everything after its text needs no side condition. -/
theorem Reads.seq (hp : Reads V p t a fun _ => True) (hf : Reads V (f a) u b ok) :
    Reads V (p >>= f) (t ++ u) b ok :=
  hp.bind hf fun _ _ => trivial

/-- A scan followed by a computation on its value. -/
theorem Reads.map (hp : Reads V p t a ok) (g : α → β) :
    Reads V (p >>= fun x => Pure.pure (g x)) t (g a) ok := by
  intro s rest hv hrest
  obtain ⟨s', h, hv'⟩ := hp s rest hv hrest
  exact ⟨s', by rw [Scan.bind_of_some h]; rfl, hv'⟩

/-- A sequence that returns a value reads its first text and goes on behind it. -/
theorem Reads.bind_eq_some {s : σ} {rest : List τ} (hp : Reads V p t a ok)
    (hv : V s (t ++ rest)) (hrest : ok rest) (h : ((p >>= f) s).1 = some b) :
    ∃ s', V s' rest ∧ (f a s').1 = some b := by
  obtain ⟨s', hs, hv'⟩ := hp s rest hv hrest
  exact ⟨s', hv', by rwa [Scan.bind_of_some hs] at h⟩

/-- A text from which two values are read was written for one value. -/
theorem Reads.unique {b : α} {s : σ} {rest : List τ} (h : Reads V p t a ok)
    (h' : Reads V p t b ok') (hv : V s (t ++ rest)) (hrest : ok rest) (hrest' : ok' rest) :
    a = b := by
  obtain ⟨s₁, hs₁, -⟩ := h s rest hv hrest
  obtain ⟨s₂, hs₂, -⟩ := h' s rest hv hrest'
  rw [hs₁] at hs₂
  exact Option.some.inj (Prod.mk.inj hs₂).1

theorem Reads.returns (hp : Reads V p t a ok) (hu : ok u) : Returns V p (t ++ u) a := by
  intro s hv
  obtain ⟨s', hs, -⟩ := hp s u hv hu
  rw [hs]

/-- The last part of a sequence may leave text unread. -/
theorem Reads.bind_returns (hp : Reads V p t a ok) (hf : Returns V (f a) u b) (hu : ok u) :
    Returns V (p >>= f) (t ++ u) b := by
  intro s hv
  obtain ⟨s', hs, hv'⟩ := hp s u hv hu
  rw [Scan.bind_of_some hs]
  exact hf s' hv'

theorem Returns.pure : Returns V (Pure.pure a) t a := fun _ _ => rfl

theorem Returns.orElse (hp : Returns V p t a) : Returns V (p.orElse q) t a := by
  intro s hv
  have hs : p s = (some a, (p s).2) := Prod.ext (hp s hv) rfl
  rw [Scan.orElse, hs]

theorem Returns.orElse_right (hp : Refuses V p t) (hq : Returns V q t a) :
    Returns V (p.orElse q) t a := by
  intro s hv
  obtain ⟨s', hs, hv'⟩ := hp s hv
  rw [Scan.orElse, hs]
  exact hq s' hv'

/-- What comes behind the last part returns without reading. -/
theorem Returns.bind (hp : Returns V p t a) (hf : ∀ s, (f a s).1 = some b) :
    Returns V (p >>= f) t b := by
  intro s hv
  have hs : p s = (some a, (p s).2) := Prod.ext (hp s hv) rfl
  rw [Scan.bind_of_some hs]
  exact hf _

theorem Reads.mono (hp : Reads V p t a ok) (h : ∀ rest, ok' rest → ok rest) :
    Reads V p t a ok' :=
  fun s rest hv hrest => hp s rest hv (h rest hrest)

theorem Reads.orElse (hp : Reads V p t a ok) : Reads V (p.orElse q) t a ok := by
  intro s rest hv hrest
  obtain ⟨s', h, hv'⟩ := hp s rest hv hrest
  exact ⟨s', by rw [Scan.orElse, h], hv'⟩

theorem Reads.orElse_right (hp : ∀ rest, ok rest → Refuses V p (t ++ rest))
    (hq : Reads V q t a ok) : Reads V (p.orElse q) t a ok := by
  intro s rest hv hrest
  obtain ⟨s₁, h₁, hv₁⟩ := hp rest hrest s hv
  obtain ⟨s₂, h₂, hv₂⟩ := hq s₁ rest hv₁ hrest
  exact ⟨s₂, by rw [Scan.orElse, h₁]; exact h₂, hv₂⟩

theorem Reads.optional (hp : Reads V p t a ok) : Reads V p.optional t (some a) ok := by
  intro s rest hv hrest
  obtain ⟨s', h, hv'⟩ := hp s rest hv hrest
  exact ⟨s', by rw [Scan.optional, h], hv'⟩

theorem Reads.branch {p : Scan σ Unit} {q r : Scan σ α} (hp : Reads V p t () ok)
    (hq : Returns V q u a) (hu : ok u) : Returns V (p.branch q r) (t ++ u) a := by
  intro s hv
  obtain ⟨s', hs, hv'⟩ := hp s u hv hu
  rw [Scan.branch, hs]
  exact hq s' hv'

theorem Refuses.branch {p : Scan σ Unit} {q r : Scan σ α} (hp : Refuses V p t)
    (hr : Returns V r t a) : Returns V (p.branch q r) t a := by
  intro s hv
  obtain ⟨s', hs, hv'⟩ := hp s hv
  rw [Scan.branch, hs]
  exact hr s' hv'

/-- A branch that reads goes on behind its condition, -/
theorem Reads.branch_seq {p : Scan σ Unit} {q r : Scan σ α} (hp : Reads V p t () fun _ => True)
    (hq : Reads V q u a ok) : Reads V (p.branch q r) (t ++ u) a ok := by
  intro s rest hv hrest
  rw [List.append_assoc] at hv
  obtain ⟨s₁, h₁, hv₁⟩ := hp s (u ++ rest) hv trivial
  obtain ⟨s₂, h₂, hv₂⟩ := hq s₁ rest hv₁ hrest
  exact ⟨s₂, by rw [Scan.branch, h₁]; exact h₂, hv₂⟩

/-- or takes the other way in front of it. -/
theorem Reads.branch_right {p : Scan σ Unit} {q r : Scan σ α}
    (hp : ∀ rest, ok rest → Refuses V p (t ++ rest)) (hr : Reads V r t a ok) :
    Reads V (p.branch q r) t a ok := by
  intro s rest hv hrest
  obtain ⟨s₁, h₁, hv₁⟩ := hp rest hrest s hv
  obtain ⟨s₂, h₂, hv₂⟩ := hr s₁ rest hv₁ hrest
  exact ⟨s₂, by rw [Scan.branch, h₁]; exact h₂, hv₂⟩

theorem Refuses.bind (hp : Refuses V p t) : Refuses V (p >>= f) t := by
  intro s hv
  obtain ⟨s', h, hv'⟩ := hp s hv
  exact ⟨s', Scan.bind_of_none h, hv'⟩

end Reading

section Relations

variable {σ α β : Type} {R : σ → σ → Prop}

/-- The same result, and states that stay related. -/
def Alike (R : σ → σ → Prop) (x y : Option α × σ) : Prop := x.1 = y.1 ∧ R x.2 y.2

/-- From related states the scan gives the same result. -/
def Respects (R : σ → σ → Prop) (p : Scan σ α) : Prop := ∀ s s', R s s' → Alike R (p s) (p s')

theorem Alike.bind {p : Scan σ α} {f : α → Scan σ β} {s s' : σ} (h : Alike R (p s) (p s'))
    (hf : ∀ a, Respects R (f a)) : Alike R ((p >>= f) s) ((p >>= f) s') := by
  rcases hp : p s with ⟨o, t⟩
  rcases hp' : p s' with ⟨o', t'⟩
  rw [hp, hp'] at h
  obtain ⟨rfl, hr⟩ : o = o' ∧ R t t' := h
  cases o with
  | none =>
    rw [Scan.bind_of_none hp, Scan.bind_of_none hp']
    exact ⟨rfl, hr⟩
  | some a =>
    rw [Scan.bind_of_some hp, Scan.bind_of_some hp']
    exact hf a t t' hr

theorem Respects.pure (a : α) : Respects R (pure a) := fun _ _ h => ⟨rfl, h⟩

theorem Respects.fail : Respects R (Scan.fail : Scan σ α) := fun _ _ h => ⟨rfl, h⟩

theorem Respects.bind {p : Scan σ α} {f : α → Scan σ β} (hp : Respects R p)
    (hf : ∀ a, Respects R (f a)) : Respects R (p >>= f) :=
  fun s s' h => (hp s s' h).bind hf

theorem Respects.orElse {p q : Scan σ α} (hp : Respects R p) (hq : Respects R q) :
    Respects R (p.orElse q) := by
  intro s s' h
  obtain ⟨hresult, hstate⟩ := hp s s' h
  rcases hps : p s with ⟨o, t⟩
  rcases hps' : p s' with ⟨o', t'⟩
  rw [hps, hps'] at hresult hstate
  obtain rfl : o = o' := hresult
  simp only [Scan.orElse, hps, hps']
  cases o with
  | none => exact hq t t' hstate
  | some a => exact ⟨rfl, hstate⟩

end Relations

end Columbo
