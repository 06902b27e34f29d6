import Mathlib.Data.List.Basic

/-!
# Acceptors of words

An acceptor takes or refuses every item that it is offered. `Tracks` relates its states to
the items that were taken so far and says what a step does to them; the rules for runs
follow by induction. `single`, `pair` and `triple` are languages of words of one length,
with what begins a word of theirs.
-/
namespace Columbo.Acceptor

variable {σ ε : Type*}

/-- The items that are taken, and the state at the end. -/
def run (step : σ → ε → Bool × σ) : σ → List ε → List ε × σ
  | s, [] => ([], s)
  | s, e :: es =>
    let rest := run step (step s e).2 es
    (if (step s e).1 then e :: rest.1 else rest.1, rest.2)

/-- The items can be completed to a word. -/
def Begins (word : List ε → Prop) (past : List ε) : Prop := ∃ rest, word (past ++ rest)

section Languages

variable {p : ε → Prop} {q r : ε → ε → Prop} {w past : List ε} {a b c : ε}

def single (p : ε → Prop) (w : List ε) : Prop := ∃ a, w = [a] ∧ p a

def pair (p : ε → Prop) (q : ε → ε → Prop) (w : List ε) : Prop := ∃ a b, w = [a, b] ∧ p a ∧ q a b

/-- The second and the third item depend on the first one. -/
def triple (p : ε → Prop) (q r : ε → ε → Prop) (w : List ε) : Prop :=
  ∃ a b c, w = [a, b, c] ∧ p a ∧ q a b ∧ r a c

theorem Begins.of_word {word : List ε → Prop} (h : word w) : Begins word w :=
  ⟨[], by rwa [List.append_nil]⟩

@[simp] theorem single_singleton : single p [a] ↔ p a := by simp [single]

@[simp] theorem not_single_nil : ¬ single p [] := by simp [single]

@[simp] theorem begins_single : Begins (single p) (a :: past) ↔ past = [] ∧ p a := by
  constructor
  · rintro ⟨rest, b, heq, hb⟩
    obtain ⟨rfl, hnil⟩ := List.cons.inj heq
    exact ⟨(List.append_eq_nil_iff.mp hnil).1, hb⟩
  · rintro ⟨rfl, ha⟩
    exact .of_word ⟨a, rfl, ha⟩

@[simp] theorem not_pair_nil : ¬ pair p q [] := by simp [pair]

@[simp] theorem not_pair_singleton : ¬ pair p q [a] := by simp [pair]

@[simp] theorem pair_pair : pair p q [a, b] ↔ p a ∧ q a b := by
  constructor
  · rintro ⟨a', b', heq, hp, hq⟩
    obtain ⟨rfl, htail⟩ := List.cons.inj heq
    obtain ⟨rfl, -⟩ := List.cons.inj htail
    exact ⟨hp, hq⟩
  · rintro ⟨hp, hq⟩
    exact ⟨a, b, rfl, hp, hq⟩

theorem begins_pair_singleton : Begins (pair p q) [a] ↔ p a ∧ ∃ b, q a b := by
  constructor
  · rintro ⟨rest, a', b, heq, hp, hq⟩
    obtain ⟨rfl, -⟩ := List.cons.inj heq
    exact ⟨hp, b, hq⟩
  · rintro ⟨hp, b, hq⟩
    exact ⟨[b], a, b, rfl, hp, hq⟩

@[simp] theorem begins_pair : Begins (pair p q) (a :: b :: past) ↔ past = [] ∧ p a ∧ q a b := by
  constructor
  · rintro ⟨rest, a', b', heq, hp, hq⟩
    obtain ⟨rfl, htail⟩ := List.cons.inj heq
    obtain ⟨rfl, hnil⟩ := List.cons.inj htail
    exact ⟨(List.append_eq_nil_iff.mp hnil).1, hp, hq⟩
  · rintro ⟨rfl, hp, hq⟩
    exact .of_word ⟨a, b, rfl, hp, hq⟩

theorem begins_pair_pair : Begins (pair p q) [a, b] ↔ pair p q [a, b] := by simp

@[simp] theorem not_triple_nil : ¬ triple p q r [] := by simp [triple]

@[simp] theorem not_triple_singleton : ¬ triple p q r [a] := by simp [triple]

@[simp] theorem not_triple_pair : ¬ triple p q r [a, b] := by simp [triple]

@[simp] theorem triple_triple : triple p q r [a, b, c] ↔ p a ∧ q a b ∧ r a c := by
  constructor
  · rintro ⟨a', b', c', heq, hp, hq, hr⟩
    obtain ⟨rfl, htail⟩ := List.cons.inj heq
    obtain ⟨rfl, hlast⟩ := List.cons.inj htail
    obtain ⟨rfl, -⟩ := List.cons.inj hlast
    exact ⟨hp, hq, hr⟩
  · rintro ⟨hp, hq, hr⟩
    exact ⟨a, b, c, rfl, hp, hq, hr⟩

theorem begins_triple_singleton :
    Begins (triple p q r) [a] ↔ p a ∧ (∃ b, q a b) ∧ ∃ c, r a c := by
  constructor
  · rintro ⟨rest, a', b, c, heq, hp, hq, hr⟩
    obtain ⟨rfl, -⟩ := List.cons.inj heq
    exact ⟨hp, ⟨b, hq⟩, c, hr⟩
  · rintro ⟨hp, ⟨b, hq⟩, c, hr⟩
    exact ⟨[b, c], a, b, c, rfl, hp, hq, hr⟩

theorem begins_triple_pair :
    Begins (triple p q r) [a, b] ↔ p a ∧ q a b ∧ ∃ c, r a c := by
  constructor
  · rintro ⟨rest, a', b', c, heq, hp, hq, hr⟩
    obtain ⟨rfl, htail⟩ := List.cons.inj heq
    obtain ⟨rfl, -⟩ := List.cons.inj htail
    exact ⟨hp, hq, c, hr⟩
  · rintro ⟨hp, hq, c, hr⟩
    exact ⟨[c], a, b, c, rfl, hp, hq, hr⟩

@[simp] theorem begins_triple : Begins (triple p q r) (a :: b :: c :: past) ↔
    past = [] ∧ p a ∧ q a b ∧ r a c := by
  constructor
  · rintro ⟨rest, a', b', c', heq, hp, hq, hr⟩
    obtain ⟨rfl, htail⟩ := List.cons.inj heq
    obtain ⟨rfl, hlast⟩ := List.cons.inj htail
    obtain ⟨rfl, hnil⟩ := List.cons.inj hlast
    exact ⟨(List.append_eq_nil_iff.mp hnil).1, hp, hq, hr⟩
  · rintro ⟨rfl, hp, hq, hr⟩
    exact .of_word ⟨a, b, c, rfl, hp, hq, hr⟩

theorem begins_triple_triple : Begins (triple p q r) [a, b, c] ↔ triple p q r [a, b, c] := by simp

end Languages

section Relations

variable {p : ε → Prop} {q r rel : ε → ε → Prop} {word : List ε → Prop} {w past : List ε}

/-- All items of a list are related to each other. -/
def AllRelated (rel : ε → ε → Prop) (w : List ε) : Prop := ∀ a ∈ w, ∀ b ∈ w, rel a b

theorem Begins.allRelated (hword : ∀ w, word w → AllRelated rel w) (h : Begins word past) :
    AllRelated rel past := by
  obtain ⟨rest, hrest⟩ := h
  intro a ha b hb
  exact hword _ hrest a (List.mem_append_left _ ha) b (List.mem_append_left _ hb)

theorem single_allRelated (hrel : Equivalence rel) (h : single p w) : AllRelated rel w := by
  obtain ⟨a, rfl, -⟩ := h
  intro x hx y hy
  obtain rfl := List.mem_singleton.mp hx
  obtain rfl := List.mem_singleton.mp hy
  exact hrel.refl _

theorem triple_allRelated (hrel : Equivalence rel) (hq : ∀ a b, q a b → rel a b)
    (hr : ∀ a c, r a c → rel a c) (h : triple p q r w) : AllRelated rel w := by
  obtain ⟨a, b, c, rfl, -, hab, hac⟩ := h
  have hfirst : ∀ x ∈ [a, b, c], rel a x := by
    intro x hx
    simp only [List.mem_cons, List.not_mem_nil, or_false] at hx
    rcases hx with rfl | rfl | rfl
    · exact hrel.refl _
    · exact hq _ _ hab
    · exact hr _ _ hac
  intro x hx y hy
  exact hrel.trans (hrel.symm (hfirst x hx)) (hfirst y hy)

theorem pair_allRelated (hrel : Equivalence rel) (hq : ∀ a b, q a b → rel a b)
    (h : pair p q w) : AllRelated rel w := by
  obtain ⟨a, b, rfl, ha, hab⟩ := h
  have htriple := triple_allRelated hrel hq hq (triple_triple.mpr ⟨ha, hab, hab⟩)
  intro x hx y hy
  exact htriple x (by simp at hx ⊢; tauto) y (by simp at hy ⊢; tauto)

end Relations

section Runs

variable {step : σ → ε → Bool × σ} {starts : List ε → Prop} {represents : σ → List ε → Prop}
  {s : σ} {past es : List ε}

/-- What each step keeps holds of the state, of what was taken and of what was offered. -/
theorem run_induction {keeps : σ → List ε → List ε → Prop} {offered : List ε}
    (hstep : ∀ s past offered e, keeps s past offered →
      keeps (step s e).2 (if (step s e).1 then past ++ [e] else past) (offered ++ [e]))
    (hs : keeps s past offered) :
    keeps (run step s es).2 (past ++ (run step s es).1) (offered ++ es) := by
  induction es generalizing s past offered with
  | nil => simpa [run] using hs
  | cons e es ih =>
    have hrest := ih (hstep s past offered e hs)
    rw [run]
    cases htaken : (step s e).1 with
    | false => simpa [htaken] using hrest
    | true => simpa [htaken] using hrest

/-- The states represent what was taken, and only what starts a word is taken. -/
def Tracks (step : σ → ε → Bool × σ) (starts : List ε → Prop) (represents : σ → List ε → Prop) :
    Prop :=
  ∀ s past e, represents s past →
    (starts (past ++ [e]) ∧ ∃ s', step s e = (true, s') ∧ represents s' (past ++ [e])) ∨
      ∃ s', step s e = (false, s') ∧ represents s' past

/-- What starts a word is taken as well. -/
def Exact (step : σ → ε → Bool × σ) (starts : List ε → Prop) (represents : σ → List ε → Prop) :
    Prop :=
  ∀ s past e, represents s past →
    (starts (past ++ [e]) ∧ ∃ s', step s e = (true, s') ∧ represents s' (past ++ [e])) ∨
      ¬ starts (past ++ [e]) ∧ ∃ s', step s e = (false, s') ∧ represents s' past

theorem Exact.tracks (h : Exact step starts represents) : Tracks step starts represents :=
  fun s past e hs => (h s past e hs).imp_right fun hrefused => hrefused.2

theorem Exact.taken_iff (h : Exact step starts represents) (hs : represents s past) (e : ε) :
    (step s e).1 = true ↔ starts (past ++ [e]) := by
  rcases h s past e hs with ⟨hstarts, s', hstep, -⟩ | ⟨hstarts, s', hstep, -⟩
  · exact iff_of_true (by rw [hstep]) hstarts
  · exact iff_of_false (by rw [hstep]; exact Bool.false_ne_true) hstarts

theorem Tracks.run (h : Tracks step starts represents) (hs : represents s past) :
    represents (run step s es).2 (past ++ (run step s es).1) := by
  induction es generalizing s past with
  | nil =>
    rw [Acceptor.run, List.append_nil]
    exact hs
  | cons e es ih =>
    rw [Acceptor.run]
    rcases h s past e hs with ⟨-, s', hstep, hs'⟩ | ⟨s', hstep, hs'⟩
    · have hrest := ih hs'
      simp only [hstep, if_true]
      rwa [List.append_assoc, List.singleton_append] at hrest
    · simp only [hstep, Bool.false_eq_true, if_false]
      exact ih hs'

/-- What is taken starts a word, if nothing taken does. -/
theorem Tracks.starts_run (h : Tracks step starts represents) (hs : represents s past)
    (hpast : starts past) : starts (past ++ (Acceptor.run step s es).1) := by
  induction es generalizing s past with
  | nil =>
    rw [Acceptor.run, List.append_nil]
    exact hpast
  | cons e es ih =>
    rw [Acceptor.run]
    rcases h s past e hs with ⟨hstarts, s', hstep, hs'⟩ | ⟨s', hstep, hs'⟩
    · have hrest := ih hs' hstarts
      simp only [hstep, if_true]
      rwa [List.append_assoc, List.singleton_append] at hrest
    · simp only [hstep, Bool.false_eq_true, if_false]
      exact ih hs' hpast

section Images

variable {τ : Type*} {f : σ → τ} {step' : τ → ε → Bool × τ}

/-- The image of what the states represent. -/
def image (f : σ → τ) (represents : σ → List ε → Prop) (t : τ) (past : List ε) : Prop :=
  ∃ s, t = f s ∧ represents s past

theorem Tracks.image (hstep : ∀ s e, step' (f s) e = ((step s e).1, f (step s e).2))
    (h : Tracks step starts represents) : Tracks step' starts (Acceptor.image f represents) := by
  rintro t past e ⟨s, rfl, hs⟩
  rcases h s past e hs with ⟨hstarts, s', htaken, hs'⟩ | ⟨s', hrefused, hs'⟩
  · exact .inl ⟨hstarts, f s', by rw [hstep, htaken], s', rfl, hs'⟩
  · exact .inr ⟨f s', by rw [hstep, hrefused], s', rfl, hs'⟩

theorem Exact.image (hstep : ∀ s e, step' (f s) e = ((step s e).1, f (step s e).2))
    (h : Exact step starts represents) : Exact step' starts (Acceptor.image f represents) := by
  rintro t past e ⟨s, rfl, hs⟩
  rcases h s past e hs with ⟨hstarts, s', htaken, hs'⟩ | ⟨hstarts, s', hrefused, hs'⟩
  · exact .inl ⟨hstarts, f s', by rw [hstep, htaken], s', rfl, hs'⟩
  · exact .inr ⟨hstarts, f s', by rw [hstep, hrefused], s', rfl, hs'⟩

end Images

theorem Tracks.starts_of_taken (h : Tracks step starts represents) (hs : represents s past)
    {e : ε} (htaken : (step s e).1 = true) : starts (past ++ [e]) := by
  rcases h s past e hs with ⟨hstarts, -⟩ | ⟨s', hstep, -⟩
  · exact hstarts
  · rw [hstep] at htaken
    cases htaken

end Runs

end Columbo.Acceptor
