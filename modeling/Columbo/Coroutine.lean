import Columbo.Transition
import Mathlib.Logic.Function.Basic

/-!
# Programs that act on a shared world

A coroutine performs actions `c : C` and continues with their responses in `R c`.
Between two of its actions other programs may act on the same world. Its correctness
is stated by rely and guarantee: what it promises about its next action, given its
history, provided that the responses so far were those that it relies on.
-/
namespace Columbo

inductive Coroutine (C : Type) (R : C → Type) (α : Type)
  | pure (a : α)
  | act (c : C) (k : R c → Coroutine C R α)

namespace Coroutine

variable {C : Type} {R : C → Type} {α β σ : Type}

protected def bind : Coroutine C R α → (α → Coroutine C R β) → Coroutine C R β
  | .pure a, f => f a
  | .act c k, f => .act c fun r => (k r).bind f

instance : Monad (Coroutine C R) where
  pure := .pure
  bind := Coroutine.bind

def perform (c : C) : Coroutine C R (R c) := .act c .pure

theorem bind_assoc {γ : Type} (x : Coroutine C R α) (f : α → Coroutine C R β)
    (g : β → Coroutine C R γ) : x >>= f >>= g = x >>= fun a => f a >>= g := by
  induction x with
  | pure a => rfl
  | act c k ih => exact congrArg (Coroutine.act c) (funext ih)

/-- The actions performed so far, with their responses. -/
abbrev History (C : Type) (R : C → Type) := List ((c : C) × R c)

section Keeps

variable {guar : History C R → C → Prop} {rely : History C R → (c : C) → R c → Prop}

/-- Every action of the program is guaranteed, and its result satisfies `post`, as long
as the responses are those that it relies on. -/
def Keeps (guar : History C R → C → Prop) (rely : History C R → (c : C) → R c → Prop)
    (post : History C R → α → Prop) : Coroutine C R α → History C R → Prop
  | .pure a, h => post h a
  | .act c k, h => guar h c ∧ ∀ r, rely h c r → (k r).Keeps guar rely post (h ++ [⟨c, r⟩])

theorem keeps_pure {post : History C R → α → Prop} {h : History C R} {a : α} (hpost : post h a) :
    Keeps guar rely post (Pure.pure a) h := hpost

theorem keeps_perform {c : C} {post : History C R → R c → Prop} {h : History C R}
    (hguar : guar h c) (hpost : ∀ r, rely h c r → post (h ++ [⟨c, r⟩]) r) :
    Keeps guar rely post (perform c) h := ⟨hguar, hpost⟩

theorem Keeps.mono {post post' : History C R → α → Prop} {x : Coroutine C R α}
    {h : History C R} (hx : Keeps guar rely post x h) (himp : ∀ h' a, post h' a → post' h' a) :
    Keeps guar rely post' x h := by
  induction x generalizing h with
  | pure a => exact himp h a hx
  | act c k ih => exact ⟨hx.1, fun r hr => ih r (hx.2 r hr)⟩

theorem Keeps.bind {post : History C R → α → Prop} {post' : History C R → β → Prop}
    {x : Coroutine C R α} {f : α → Coroutine C R β} {h : History C R}
    (hx : Keeps guar rely post x h)
    (hf : ∀ h' a, post h' a → Keeps guar rely post' (f a) h') :
    Keeps guar rely post' (x >>= f) h := by
  induction x generalizing h with
  | pure a => exact hf h a hx
  | act c k ih => exact ⟨hx.1, fun r hr => ih r (hx.2 r hr)⟩

/-- Two guarantees of a program are one. -/
theorem Keeps.and {guar' : History C R → C → Prop} {post post' : History C R → α → Prop}
    {x : Coroutine C R α} {h : History C R} (hx : Keeps guar rely post x h)
    (hx' : Keeps guar' rely post' x h) :
    Keeps (fun h c => guar h c ∧ guar' h c) rely (fun h a => post h a ∧ post' h a) x h := by
  induction x generalizing h with
  | pure a => exact ⟨hx, hx'⟩
  | act c k ih => exact ⟨⟨hx.1, hx'.1⟩, fun r hr => ih r (hx.2 r hr) (hx'.2 r hr)⟩

theorem keeps_bind {post : History C R → β → Prop} {x : Coroutine C R α} {f : α → Coroutine C R β}
    {h : History C R} (hx : Keeps guar rely (fun h' a => Keeps guar rely post (f a) h') x h) :
    Keeps guar rely post (x >>= f) h :=
  hx.bind fun _ _ hf => hf

/-- A program adds to its history. -/
theorem Keeps.history {post : History C R → α → Prop} {x : Coroutine C R α} {h : History C R}
    (hx : Keeps guar rely post x h) :
    Keeps guar rely (fun h' a => post h' a ∧ h <+: h') x h := by
  induction x generalizing h with
  | pure a => exact ⟨hx, List.prefix_rfl⟩
  | act c k ih =>
    refine ⟨hx.1, fun r hr => (ih r (hx.2 r hr)).mono ?_⟩
    rintro h' a ⟨hpost, hh'⟩
    exact ⟨hpost, (List.prefix_append _ _).trans hh'⟩

/-- Nothing is asked of the actions and the result. -/
theorem keeps_true {x : Coroutine C R α} {h : History C R} :
    Keeps (fun _ _ => True) rely (fun _ _ => True) x h := by
  induction x generalizing h with
  | pure a => trivial
  | act c k ih => exact ⟨trivial, fun r _ => ih r⟩

theorem keeps_bind_true {post : History C R → β → Prop} {x : Coroutine C R α}
    {f : α → Coroutine C R β} {h : History C R}
    (hf : ∀ h' a, Keeps (fun _ _ => True) rely post (f a) h') :
    Keeps (fun _ _ => True) rely post (x >>= f) h :=
  keeps_bind (keeps_true.mono fun h' a _ => hf h' a)

/-- A loop over a list keeps an invariant that speaks about the items handled so far. -/
theorem Keeps.foldlM {f : σ → α → Coroutine C R σ} {l : List α}
    (inv : List α → History C R → σ → Prop)
    (hstep : ∀ past a rest h s, l = past ++ a :: rest → inv past h s →
      Keeps guar rely (inv (past ++ [a])) (f s a) h)
    {h : History C R} {s : σ} (hstart : inv [] h s) :
    Keeps guar rely (inv l) (l.foldlM f s) h := by
  have hloop : ∀ (rest past : List α) (h : History C R) (s : σ), l = past ++ rest →
      inv past h s → Keeps guar rely (inv l) (rest.foldlM f s) h := by
    intro rest
    induction rest with
    | nil =>
      intro past h s hl hinv
      have hall : l = past := by simpa using hl
      exact keeps_pure (hall ▸ hinv)
    | cons a rest ih =>
      intro past h s hl hinv
      rw [List.foldlM_cons]
      refine (hstep past a rest h s hl hinv).bind fun h' s' hinv' => ?_
      exact ih (past ++ [a]) h' s' (by simpa using hl) hinv'
  exact hloop l [] h s rfl hstart

end Keeps

variable {W E ι : Type} (exec : W → (c : C) → Option (R c × W))

/-- Execute a program; the result comes with the history and the world at the end. -/
def run : Coroutine C R α → W → Option (α × History C R × W)
  | .pure a, w => some (a, [], w)
  | .act c k, w => match exec w c with
    | none => none
    | some (r, w') => ((k r).run w').map fun (a, h, w'') => (a, ⟨c, r⟩ :: h, w'')

variable {exec}

@[simp] theorem run_pure (a : α) (w : W) :
    (Pure.pure a : Coroutine C R α).run exec w = some (a, [], w) := rfl

theorem run_act (c : C) (k : R c → Coroutine C R α) (w : W) :
    (Coroutine.act c k).run exec w = (exec w c).bind fun (r, w₁) =>
      ((k r).run exec w₁).map fun (a, h, w₂) => (a, ⟨c, r⟩ :: h, w₂) := by
  rw [Coroutine.run]
  cases exec w c <;> rfl

theorem run_bind (x : Coroutine C R α) (f : α → Coroutine C R β) (w : W) :
    (x >>= f).run exec w = (x.run exec w).bind fun (a, h, w₁) =>
      ((f a).run exec w₁).map fun (b, h', w₂) => (b, h ++ h', w₂) := by
  induction x generalizing w with
  | pure a =>
    change (f a).run exec w = ((Pure.pure a : Coroutine C R α).run exec w).bind _
    simp
  | act c k ih =>
    change (Coroutine.act c fun r => k r >>= f).run exec w = _
    rw [run_act, run_act]
    cases exec w c with
    | none => rfl
    | some rw' =>
      dsimp only [Option.bind_some]
      rw [ih]
      cases (k rw'.1).run exec rw'.2 with
      | none => rfl
      | some end₁ => simp [Function.comp_def]

/-- What a program keeps holds at the end of its execution, if an invariant that links
the world to the history makes every response one that the program relies on. -/
theorem Keeps.run {guar : History C R → C → Prop} {rely : History C R → (c : C) → R c → Prop}
    {post : History C R → α → Prop} (inv : W → History C R → Prop)
    (hexec : ∀ {w h c r w'}, inv w h → guar h c → exec w c = some (r, w') →
      rely h c r ∧ inv w' (h ++ [⟨c, r⟩]))
    {x : Coroutine C R α} {h : History C R} {w : W} (hinv : inv w h)
    (hx : Keeps guar rely post x h) {a : α} {new : History C R} {w' : W}
    (hrun : x.run exec w = some (a, new, w')) : post (h ++ new) a ∧ inv w' (h ++ new) := by
  induction x generalizing h w new with
  | pure b =>
    obtain ⟨rfl, rfl, rfl⟩ : b = a ∧ [] = new ∧ w = w' := by
      simpa [Coroutine.run] using hrun
    have hpost : post h b := hx
    simpa using And.intro hpost hinv
  | act c k ih =>
    unfold Coroutine.run at hrun
    cases hc : exec w c with
    | none => simp [hc] at hrun
    | some rw' =>
      obtain ⟨r, w₁⟩ := rw'
      rw [hc] at hrun
      obtain ⟨⟨b, h₁, w₂⟩, hrest, heq⟩ := Option.map_eq_some_iff.mp hrun
      obtain ⟨rfl, rfl, rfl⟩ : b = a ∧ ⟨c, r⟩ :: h₁ = new ∧ w₂ = w' := by simpa using heq
      obtain ⟨hrely, hinv₁⟩ := hexec hinv hx.1 hc
      have hend := ih r hinv₁ (hx.2 r hrely) hrest
      simpa using hend

section Runs

/-- The program, executed alone, comes to its end, where `post` holds. -/
def Runs (exec : W → (c : C) → Option (R c × W)) (post : α → History C R → W → Prop)
    (x : Coroutine C R α) (w : W) : Prop :=
  ∃ a h w', x.run exec w = some (a, h, w') ∧ post a h w'

theorem runs_pure {post : α → History C R → W → Prop} {a : α} {w : W} (hpost : post a [] w) :
    Runs exec post (Pure.pure a) w :=
  ⟨a, [], w, rfl, hpost⟩

theorem runs_perform {c : C} {post : R c → History C R → W → Prop} {r : R c} {w w' : W}
    (hexec : exec w c = some (r, w')) (hpost : post r [⟨c, r⟩] w') :
    Runs exec post (perform c) w := by
  refine ⟨r, [⟨c, r⟩], w', ?_, hpost⟩
  unfold perform
  rw [run_act, hexec]
  rfl

theorem Runs.mono {post post' : α → History C R → W → Prop} {x : Coroutine C R α} {w : W}
    (hx : Runs exec post x w) (himp : ∀ a h w', post a h w' → post' a h w') :
    Runs exec post' x w := by
  obtain ⟨a, h, w', hrun, hpost⟩ := hx
  exact ⟨a, h, w', hrun, himp a h w' hpost⟩

theorem runs_bind {post : β → History C R → W → Prop} {x : Coroutine C R α}
    {f : α → Coroutine C R β} {w : W}
    (hx : Runs exec (fun a h w' => Runs exec (fun b h' => post b (h ++ h')) (f a) w') x w) :
    Runs exec post (x >>= f) w := by
  obtain ⟨a, h, w', hrun, b, h', w'', hrun', hpost⟩ := hx
  refine ⟨b, h ++ h', w'', ?_, hpost⟩
  rw [run_bind, hrun]
  dsimp only [Option.bind_some]
  rw [hrun']
  rfl

/-- A loop comes to its end if every round does. -/
theorem Runs.foldlM {f : σ → α → Coroutine C R σ} {l : List α}
    (inv : List α → σ → History C R → W → Prop)
    (hstep : ∀ past a rest s h w, l = past ++ a :: rest → inv past s h w →
      Runs exec (fun s' h' w' => inv (past ++ [a]) s' (h ++ h') w') (f s a) w)
    {s : σ} {w : W} (hstart : inv [] s [] w) : Runs exec (inv l) (l.foldlM f s) w := by
  have hloop : ∀ (rest past : List α) (s : σ) (h : History C R) (w : W), l = past ++ rest →
      inv past s h w → Runs exec (fun s' h' w' => inv l s' (h ++ h') w') (rest.foldlM f s) w := by
    intro rest
    induction rest with
    | nil =>
      intro past s h w hl hinv
      have hall : l = past := by simpa using hl
      refine runs_pure ?_
      rw [List.append_nil]
      exact hall ▸ hinv
    | cons a rest ih =>
      intro past s h w hl hinv
      rw [List.foldlM_cons]
      refine runs_bind ((hstep past a rest s h w hl hinv).mono fun s' h' w' hinv' => ?_)
      refine (ih (past ++ [a]) s' (h ++ h') w' (by simpa using hl) hinv').mono ?_
      intro s'' h'' w'' hend
      rwa [List.append_assoc] at hend
  simpa using hloop l [] s [] w rfl hstart

end Runs

section Same

/-- Some world gives the response. -/
def Possible (exec : W → (c : C) → Option (R c × W)) (c : C) (r : R c) : Prop :=
  ∃ w w', exec w c = some (r, w')

/-- A program performs the actions of a history, and another one is left of it. Between
two actions the world may change. -/
inductive Performs (exec : W → (c : C) → Option (R c × W)) :
    Coroutine C R α → History C R → Coroutine C R α → Prop
  | nil (x : Coroutine C R α) : Performs exec x [] x
  | act {c : C} {k : R c → Coroutine C R α} {r : R c} {h : History C R} {y : Coroutine C R α}
    (hr : Possible exec c r) (hrest : Performs exec (k r) h y) :
    Performs exec (.act c k) (⟨c, r⟩ :: h) y

/-- Two programs perform the same actions and return the same. -/
inductive Same (exec : W → (c : C) → Option (R c × W)) :
    Coroutine C R α → Coroutine C R α → Prop
  | pure (a : α) : Same exec (.pure a) (.pure a)
  | act {c : C} {k k' : R c → Coroutine C R α}
    (h : ∀ r, Possible exec c r → Same exec (k r) (k' r)) : Same exec (.act c k) (.act c k')

variable {exec : W → (c : C) → Option (R c × W)} {x y z : Coroutine C R α} {h : History C R}

theorem Same.symm (hxy : Same exec x y) : Same exec y x := by
  induction hxy with
  | pure a => exact .pure a
  | act _ ih => exact .act ih

theorem Same.performs (hxy : Same exec x y) (hx : Performs exec x h z) :
    ∃ z', Performs exec y h z' ∧ Same exec z z' := by
  induction hx generalizing y with
  | nil x => exact ⟨y, .nil y, hxy⟩
  | act hr _ ih =>
    cases hxy with
    | act hk =>
      obtain ⟨z', hrest, hsame⟩ := ih (hk _ hr)
      exact ⟨z', .act hr hrest, hsame⟩

/-- After a history, both programs perform the same action or return the same. -/
theorem Same.performs_iff (hxy : Same exec x y) :
    (∀ a, Performs exec x h (.pure a) ↔ Performs exec y h (.pure a)) ∧
      ∀ c, (∃ k, Performs exec x h (.act c k)) ↔ ∃ k, Performs exec y h (.act c k) := by
  have hpure : ∀ {x y : Coroutine C R α}, Same exec x y → ∀ a, Performs exec x h (.pure a) →
      Performs exec y h (.pure a) := by
    intro x y hsame a hx
    obtain ⟨z, hy, hz⟩ := hsame.performs hx
    cases hz with
    | pure a => exact hy
  have hact : ∀ {x y : Coroutine C R α}, Same exec x y → ∀ c,
      (∃ k, Performs exec x h (.act c k)) → ∃ k, Performs exec y h (.act c k) := by
    rintro x y hsame c ⟨k, hx⟩
    obtain ⟨z, hy, hz⟩ := hsame.performs hx
    cases hz with
    | act _ => exact ⟨_, hy⟩
  exact ⟨fun a => ⟨hpure hxy a, hpure hxy.symm a⟩, fun c => ⟨hact hxy c, hact hxy.symm c⟩⟩

/-- A run in one world is a performance. -/
theorem performs_of_run {w w' : W} {a : α} (hrun : x.run exec w = some (a, h, w')) :
    Performs exec x h (.pure a) := by
  induction x generalizing w h with
  | pure b =>
    obtain ⟨rfl, rfl, rfl⟩ : b = a ∧ [] = h ∧ w = w' := by
      simpa [Coroutine.run] using hrun
    exact .nil _
  | act c k ih =>
    unfold Coroutine.run at hrun
    cases hc : exec w c with
    | none => simp [hc] at hrun
    | some rw' =>
      obtain ⟨r, w₁⟩ := rw'
      rw [hc] at hrun
      obtain ⟨⟨b, h₁, w₂⟩, hrest, heq⟩ := Option.map_eq_some_iff.mp hrun
      obtain ⟨rfl, rfl, rfl⟩ : b = a ∧ ⟨c, r⟩ :: h₁ = h ∧ w₂ = w' := by simpa using heq
      exact .act ⟨w, w₁, hc⟩ (ih r hrest)

/-- What a program keeps for possible responses holds when it returns. -/
theorem Keeps.performs {guar : History C R → C → Prop} {post : History C R → α → Prop}
    {past : History C R} {a : α} (hx : Keeps guar (fun _ => Possible exec) post x past)
    (hperforms : Performs exec x h (.pure a)) : post (past ++ h) a := by
  induction x generalizing past h with
  | pure b =>
    cases hperforms
    have hpost : post past a := hx
    simpa using hpost
  | act c k ih =>
    cases hperforms with
    | @act _ _ r h _ hr hrest =>
      have hend := ih r (hx.2 r hr) hrest
      simpa using hend

/-- Programs go on in the same way if they do so for the results that are possible. -/
theorem same_bind {f g : α → Coroutine C R β}
    (hx : Keeps (fun _ _ => True) (fun _ => Possible exec) (fun _ a => Same exec (f a) (g a)) x h) :
    Same exec (x >>= f) (x >>= g) := by
  induction x generalizing h with
  | pure a => exact hx
  | act c k ih => exact .act fun r hr => ih r (hx.2 r hr)

/-- A loop need not handle the items that change nothing while its invariant holds. -/
theorem same_foldlM_filter {f : σ → α → Coroutine C R σ} {p : α → Bool} (inv : σ → Prop)
    (hskip : ∀ s a, inv s → p a = false → f s a = Pure.pure s)
    (hkeep : ∀ s a, inv s →
      Keeps (fun _ _ => True) (fun _ => Possible exec) (fun _ s' => inv s') (f s a) [])
    {l : List α} {s : σ} (hs : inv s) : Same exec ((l.filter p).foldlM f s) (l.foldlM f s) := by
  induction l generalizing s with
  | nil => exact .pure s
  | cons a rest ih =>
    by_cases ha : p a
    · rw [List.filter_cons_of_pos ha, List.foldlM_cons, List.foldlM_cons]
      exact same_bind ((hkeep s a hs).mono fun _ _ hinv => ih hinv)
    · have ha : p a = false := by simpa using ha
      rw [List.filter_cons_of_neg (by simp [ha]), List.foldlM_cons, hskip s a hs ha]
      exact ih hs

end Same

section Among

/-- A program performs the actions of a history, and another one is left of it; the
environment changes the world before, between and after them. -/
inductive Among (exec : W → (c : C) → Option (R c × W)) (environment : W → E → Option W) :
    Coroutine C R α → W → History C R → Coroutine C R α → W → Prop
  | refl (x : Coroutine C R α) (w : W) : Among exec environment x w [] x w
  | act {c : C} {k : R c → Coroutine C R α} {w w₁ w' : W} {r : R c} {h : History C R}
    {y : Coroutine C R α} (hexec : exec w c = some (r, w₁))
    (hrest : Among exec environment (k r) w₁ h y w') :
    Among exec environment (.act c k) w (⟨c, r⟩ :: h) y w'
  | environment {x y : Coroutine C R α} {w w₁ w' : W} {e : E} {h : History C R}
    (hchange : environment w e = some w₁) (hrest : Among exec environment x w₁ h y w') :
    Among exec environment x w h y w'

variable {environment : W → E → Option W} {x y : Coroutine C R α}

/-- Nothing happens in between when the program runs alone. -/
theorem among_of_run {w w' : W} {a : α} {h : History C R}
    (hrun : x.run exec w = some (a, h, w')) :
    Among exec environment x w h (Pure.pure a) w' := by
  induction x generalizing w h with
  | pure b =>
    obtain ⟨rfl, rfl, rfl⟩ : b = a ∧ [] = h ∧ w = w' := by
      simpa [Coroutine.run] using hrun
    exact .refl _ _
  | act c k ih =>
    rw [run_act] at hrun
    obtain ⟨⟨r, w₁⟩, hexec, hrest⟩ := Option.bind_eq_some_iff.mp hrun
    obtain ⟨⟨b, h₁, w₂⟩, hrun', heq⟩ := Option.map_eq_some_iff.mp hrest
    obtain ⟨rfl, rfl, rfl⟩ : b = a ∧ ⟨c, r⟩ :: h₁ = h ∧ w₂ = w' := by simpa using heq
    exact .act hexec (ih r hrun')

/-- Before every action the environment had a world in which that action was possible. -/
theorem Among.split {w w' : W} {h₁ h₂ : History C R} {c : C} {r : R c}
    (hamong : Among exec environment x w (h₁ ++ ⟨c, r⟩ :: h₂) y w') :
    ∃ k w₁ w₂, Among exec environment x w h₁ (.act c k) w₁ ∧ exec w₁ c = some (r, w₂) ∧
      Among exec environment (k r) w₂ h₂ y w' := by
  generalize hall : h₁ ++ ⟨c, r⟩ :: h₂ = h at hamong
  induction hamong generalizing h₁ with
  | refl x w => simp at hall
  | @act c' k w w₁ w' r' h y hexec hrest ih =>
    cases h₁ with
    | nil =>
      obtain ⟨heq, rfl⟩ := List.cons.inj hall
      cases heq
      exact ⟨k, w, w₁, .refl _ _, hexec, hrest⟩
    | cons e h₁ =>
      obtain ⟨rfl, hrest'⟩ := List.cons.inj hall
      obtain ⟨k', w₂, w₃, hfirst, hstep, hend⟩ := ih hrest'
      exact ⟨k', w₂, w₃, .act hexec hfirst, hstep, hend⟩
  | environment hchange _ ih =>
    obtain ⟨k, w₂, w₃, hfirst, hstep, hend⟩ := ih hall
    exact ⟨k, w₂, w₃, .environment hchange hfirst, hstep, hend⟩

/-- What is left of a program keeps its guarantee, if the invariant that makes the responses
reliable is kept by the environment as well. -/
theorem Keeps.among {guar : History C R → C → Prop} {rely : History C R → (c : C) → R c → Prop}
    {post : History C R → α → Prop} (inv : W → History C R → Prop)
    (hexec : ∀ {w h c r w'}, inv w h → guar h c → exec w c = some (r, w') →
      rely h c r ∧ inv w' (h ++ [⟨c, r⟩]))
    (henvironment : ∀ {w h e w'}, inv w h → environment w e = some w' → inv w' h)
    {past new : History C R} {w w' : W} (hinv : inv w past) (hx : Keeps guar rely post x past)
    (hamong : Among exec environment x w new y w') :
    Keeps guar rely post y (past ++ new) ∧ inv w' (past ++ new) := by
  induction hamong generalizing past with
  | refl x w => simpa using And.intro hx hinv
  | act hstep _ ih =>
    obtain ⟨hrely, hinv₁⟩ := hexec hinv hx.1 hstep
    have hend := ih hinv₁ (hx.2 _ hrely)
    simpa using hend
  | environment hchange _ ih => exact ih (henvironment hinv hchange) hx

end Among

/-- A world with the programs that act on it, and what each of them did so far. -/
structure Config (ι : Type) (C : Type) (R : C → Type) (W : Type) where
  world : W
  program : ι → Coroutine C R Unit
  history : ι → History C R

/-- One of the programs acts, or the environment does. -/
inductive Move (ι E : Type)
  | act (i : ι)
  | environment (e : E)

variable [DecidableEq ι] (exec) (environment : W → E → Option W)

def step (s : Config ι C R W) : Move ι E → Option (Config ι C R W)
  | .environment e => (environment s.world e).map fun w => { s with world := w }
  | .act i => match s.program i with
    | .pure _ => none
    | .act c k => (exec s.world c).map fun (r, w) => {
        world := w
        program := Function.update s.program i (k r)
        history := Function.update s.history i (s.history i ++ [⟨c, r⟩]) }

variable {exec environment}

/-- A program may be executed to its end before another one acts. -/
theorem reachable_of_run {allowed : Config ι C R W → Move ι E → Prop}
    {start s : Config ι C R W} {i : ι} (hallowed : ∀ s, allowed s (.act i)) {a : Unit}
    {new : History C R} {w : W} (hrun : (s.program i).run exec s.world = some (a, new, w))
    (hs : Transition.Reachable (Coroutine.step exec environment) allowed start s) :
    Transition.Reachable (Coroutine.step exec environment) allowed start
      ⟨w, Function.update s.program i (Pure.pure a),
        Function.update s.history i (s.history i ++ new)⟩ := by
  induction new generalizing s with
  | nil =>
    cases hprog : s.program i with
    | pure b =>
      rw [hprog] at hrun
      obtain ⟨rfl, hw⟩ : b = a ∧ s.world = w := by simpa [Coroutine.run] using hrun
      have hsame : Function.update s.program i (Pure.pure b) = s.program :=
        Function.update_eq_self_iff.mpr hprog.symm
      rw [hsame, List.append_nil, Function.update_eq_self, ← hw]
      exact hs
    | act c k =>
      rw [hprog, run_act] at hrun
      obtain ⟨⟨r, w₁⟩, -, hrest⟩ := Option.bind_eq_some_iff.mp hrun
      obtain ⟨⟨b, h₁, w₂⟩, -, heq⟩ := Option.map_eq_some_iff.mp hrest
      simp at heq
  | cons e new ih =>
    cases hprog : s.program i with
    | pure b =>
      rw [hprog] at hrun
      simp [Coroutine.run] at hrun
    | act c k =>
      rw [hprog, run_act] at hrun
      obtain ⟨⟨r, w₁⟩, hexec, hrest⟩ := Option.bind_eq_some_iff.mp hrun
      obtain ⟨⟨b, h₁, w₂⟩, hrun', heq⟩ := Option.map_eq_some_iff.mp hrest
      obtain ⟨rfl, ⟨rfl, rfl⟩, rfl⟩ : b = a ∧ (⟨c, r⟩ = e ∧ h₁ = new) ∧ w₂ = w := by
        simpa using heq
      have hstep : Coroutine.step exec environment s (.act i) = some {
          world := w₁
          program := Function.update s.program i (k r)
          history := Function.update s.history i (s.history i ++ [⟨c, r⟩]) } := by
        unfold Coroutine.step
        simp [hprog, hexec]
      have hend := ih (by simpa using hrun') (hs.tail (hallowed s) hstep)
      simpa using hend

section Interleaved

variable {guar : ι → History C R → C → Prop} {rely : ι → History C R → (c : C) → R c → Prop}
  {post : ι → History C R → Unit → Prop} {inv : W → (ι → History C R) → Prop}

/-- The invariant holds, and what is left of every program keeps its guarantee. -/
def Guarded (guar : ι → History C R → C → Prop) (rely : ι → History C R → (c : C) → R c → Prop)
    (post : ι → History C R → Unit → Prop) (inv : W → (ι → History C R) → Prop)
    (s : Config ι C R W) : Prop :=
  inv s.world s.history ∧
    ∀ i, Keeps (guar i) (rely i) (post i) (s.program i) (s.history i)

theorem Guarded.step
    (hexec : ∀ {w h i c r w'}, inv w h → guar i (h i) c → exec w c = some (r, w') →
      rely i (h i) c r ∧ inv w' (Function.update h i (h i ++ [⟨c, r⟩])))
    {s s' : Config ι C R W} {move : Move ι E}
    (henvironment : ∀ {e w'}, move = .environment e → inv s.world s.history →
      environment s.world e = some w' → inv w' s.history)
    (hs : Guarded guar rely post inv s)
    (hstep : Coroutine.step exec environment s move = some s') :
    Guarded guar rely post inv s' := by
  obtain ⟨hinv, hprogram⟩ := hs
  cases move with
  | environment e =>
    obtain ⟨w, hw, rfl⟩ := Option.map_eq_some_iff.mp hstep
    exact ⟨henvironment rfl hinv hw, hprogram⟩
  | act i =>
    unfold Coroutine.step at hstep
    dsimp only at hstep
    have hi := hprogram i
    cases hprog : s.program i with
    | pure a => simp [hprog] at hstep
    | act c k =>
      rw [hprog] at hstep hi
      obtain ⟨⟨r, w⟩, hw, rfl⟩ := Option.map_eq_some_iff.mp hstep
      obtain ⟨hrely, hinv'⟩ := hexec hinv hi.1 hw
      refine ⟨hinv', fun j => ?_⟩
      by_cases hj : j = i
      · subst hj
        simpa using hi.2 r hrely
      · simpa [hj] using hprogram j

/-- Programs that rely on what the invariant provides, and guarantee what keeps it, keep
it in all interleavings, if the moves that the environment is allowed keep it. -/
theorem Guarded.reachable
    (hexec : ∀ {w h i c r w'}, inv w h → guar i (h i) c → exec w c = some (r, w') →
      rely i (h i) c r ∧ inv w' (Function.update h i (h i ++ [⟨c, r⟩])))
    {start s : Config ι C R W} {allowed : Config ι C R W → Move ι E → Prop}
    (henvironment : ∀ {s e w'}, allowed s (.environment e) → inv s.world s.history →
      environment s.world e = some w' → inv w' s.history)
    (hstart : Guarded guar rely post inv start)
    (hs : Transition.Reachable (Coroutine.step exec environment) allowed start s) :
    Guarded guar rely post inv s := by
  refine hs.invariant hstart fun {s move s'} h hallowed hstep => ?_
  refine h.step hexec (fun hmove hinv henv => ?_) hstep
  subst hmove
  exact henvironment hallowed hinv henv

end Interleaved

end Coroutine

end Columbo
