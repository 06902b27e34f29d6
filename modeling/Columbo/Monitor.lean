import Columbo.Refinement
import Mathlib.Data.Fintype.Card

/-!
# Monitors

The operations of an object hold its lock. An operation that is not possible in the state
gives the lock back and is suspended until it is woken; then it takes the lock and tries
again. An operation that returned gives the lock back as well, and may then have to notify:
this wakes everything that is suspended. Between any two of these steps other programs take
theirs. Seen from outside, the operations are atomic; and if every operation that makes
another one possible notifies, then nothing is suspended for longer than it has to be.
-/
namespace Columbo

/-- An object with its operations, and those that notify in a state of it. -/
structure Monitor (C : Type) (R : C → Type) (σ : Type) where
  exec : Executes C R σ
  notifies : σ → C → Bool

namespace Monitor

/-- The object with the programs that use it. A program is suspended in its next operation,
or its last one returned and has not notified yet. The order is that in which operations
held the lock and returned. -/
structure State (ι C : Type) (R : C → Type) (σ : Type) extends Coroutine.Config ι C R σ where
  suspended : ι → Bool
  notifying : ι → Bool
  order : Coroutine.History C R

/-- A program takes the lock for its next operation, or notifies for the last one. What is
suspended may also be woken by nobody. -/
inductive Move (ι : Type)
  | enter (i : ι)
  | notify (i : ι)
  | wake (i : ι)

variable {ι C σ : Type} {R : C → Type}

def State.start (world : σ) (program : ι → Coroutine C R Unit) : State ι C R σ where
  world := world
  program := program
  history := fun _ => []
  suspended := fun _ => false
  notifying := fun _ => false
  order := []

section Step

variable [DecidableEq ι] (m : Monitor C R σ)

def enter (s : State ι C R σ) (i : ι) : Option (State ι C R σ) :=
  if s.suspended i || s.notifying i then none
  else match s.program i with
    | .pure _ => none
    | .act c k => match m.exec s.world c with
      | none => some { s with suspended := Function.update s.suspended i true }
      | some (r, w) => some {
          world := w
          program := Function.update s.program i (k r)
          history := Function.update s.history i (s.history i ++ [⟨c, r⟩])
          suspended := s.suspended
          notifying := Function.update s.notifying i (m.notifies s.world c)
          order := s.order ++ [⟨c, r⟩] }

/-- `notify_all`. -/
def notify (s : State ι C R σ) (i : ι) : Option (State ι C R σ) :=
  if s.notifying i then
    some { s with suspended := fun _ => false, notifying := Function.update s.notifying i false }
  else none

def wake (s : State ι C R σ) (i : ι) : Option (State ι C R σ) :=
  if s.suspended i then some { s with suspended := Function.update s.suspended i false } else none

def step (s : State ι C R σ) : Move ι → Option (State ι C R σ)
  | .enter i => m.enter s i
  | .notify i => notify s i
  | .wake i => wake s i

/-- The states that some order of moves reaches. -/
abbrev Reaches (start s : State ι C R σ) : Prop :=
  Transition.Reachable m.step (fun _ _ => True) start s

variable {m} {s s' start : State ι C R σ} {i : ι} {w : σ} {program : ι → Coroutine C R Unit}

/-- The next operation was suspended, or it returned. -/
theorem enter_cases (h : m.enter s i = some s') : ∃ c k, s.suspended i = false ∧
    s.notifying i = false ∧ s.program i = .act c k ∧
    ((m.exec s.world c = none ∧ s' = { s with suspended := Function.update s.suspended i true }) ∨
      ∃ r w, m.exec s.world c = some (r, w) ∧ s' = {
        world := w
        program := Function.update s.program i (k r)
        history := Function.update s.history i (s.history i ++ [⟨c, r⟩])
        suspended := s.suspended
        notifying := Function.update s.notifying i (m.notifies s.world c)
        order := s.order ++ [⟨c, r⟩] }) := by
  unfold enter at h
  split at h
  · cases h
  · next hawake =>
    obtain ⟨hsuspended, hnotifying⟩ := Bool.or_eq_false_iff.mp (Bool.eq_false_iff.mpr hawake)
    cases hprogram : s.program i with
    | pure a => simp [hprogram] at h
    | act c k =>
      refine ⟨c, k, hsuspended, hnotifying, rfl, ?_⟩
      simp only [hprogram] at h
      cases hexec : m.exec s.world c with
      | none =>
        rw [hexec] at h
        exact .inl ⟨rfl, (Option.some.inj h).symm⟩
      | some rw' =>
        rw [hexec] at h
        exact .inr ⟨rw'.1, rw'.2, rfl, (Option.some.inj h).symm⟩

theorem notify_cases (h : notify s i = some s') : s.notifying i = true ∧ s' = { s with
    suspended := fun _ => false, notifying := Function.update s.notifying i false } := by
  unfold notify at h
  split_ifs at h with hnotifying
  exact ⟨hnotifying, (Option.some.inj h).symm⟩

theorem wake_cases (h : wake s i = some s') : s.suspended i = true ∧
    s' = { s with suspended := Function.update s.suspended i false } := by
  unfold wake at h
  split_ifs at h with hsuspended
  exact ⟨hsuspended, (Option.some.inj h).symm⟩

/-- The same programs, of which one after the other performs its next operation at once. -/
abbrev atomicStep (m : Monitor C R σ) :
    Coroutine.Config ι C R σ → Coroutine.Move ι Empty → Option (Coroutine.Config ι C R σ) :=
  Coroutine.step m.exec fun _ e => e.elim

/-- A move is an operation, or it does not change what the programs have done. -/
theorem step_atomic {move : Move ι} (h : m.step s move = some s') :
    (s'.toConfig = s.toConfig ∧ s'.order = s.order) ∨
      ∃ c r, m.exec s.world c = some (r, s'.world) ∧ s'.order = s.order ++ [⟨c, r⟩] := by
  cases move with
  | enter i =>
    obtain ⟨c, k, -, -, -, ⟨-, rfl⟩ | ⟨r, w, hexec, rfl⟩⟩ := enter_cases h
    · exact .inl ⟨rfl, rfl⟩
    · exact .inr ⟨c, r, hexec, rfl⟩
  | notify i =>
    obtain ⟨-, rfl⟩ := notify_cases h
    exact .inl ⟨rfl, rfl⟩
  | wake i =>
    obtain ⟨-, rfl⟩ := wake_cases h
    exact .inl ⟨rfl, rfl⟩

/-- The operations lead from the state of the object at the start to the one at the end. -/
theorem Reaches.run (h : m.Reaches start s) (hstart : start.order = []) :
    Executes.Run m.exec start.world s.order s.world := by
  induction h with
  | refl => exact hstart ▸ .nil _
  | tail _ _ hstep ih =>
    obtain ⟨hsame, horder⟩ | ⟨c, r, hexec, horder⟩ := step_atomic hstep
    · rw [horder, hsame]
      exact ih
    · rw [horder]
      exact Executes.run_append.mpr ⟨_, ih, .cons hexec (.nil _)⟩

/-- An operation that does not notify makes no other operation possible. -/
def Announces (m : Monitor C R σ) : Prop :=
  ∀ ⦃s c r s'⦄, m.exec s c = some (r, s') → m.notifies s c = false →
    ∀ d, m.exec s d = none → m.exec s' d = none

theorem announces_of_unchanged
    (h : ∀ ⦃s c r s'⦄, m.exec s c = some (r, s') → m.notifies s c = false → s' = s) :
    m.Announces := by
  intro s c r s' hexec hsilent d hd
  obtain rfl := h hexec hsilent
  exact hd

theorem reaches_of_moves {moves : List (Move ι)} (h : moves.foldlM m.step s = some s') :
    m.Reaches s s' := by
  refine Transition.foldlM_partial (fun _ s₁ => m.Reaches s s₁) ?_ .refl h
  exact fun hreaches hstep => hreaches.tail trivial hstep

/-- What is suspended is not possible, unless somebody is going to notify. -/
def Heard (m : Monitor C R σ) (s : State ι C R σ) : Prop :=
  ∀ i, s.suspended i = true → ∃ c k, s.program i = .act c k ∧
    (m.exec s.world c = none ∨ ∃ j, s.notifying j = true)

theorem heard_step (hannounces : m.Announces) {move : Move ι} (hs : m.Heard s)
    (h : m.step s move = some s') : m.Heard s' := by
  cases move with
  | enter i =>
    obtain ⟨c, k, hsuspended, hnotifying, hprogram, hcases⟩ := enter_cases h
    obtain ⟨hexec, rfl⟩ | ⟨r, w, hexec, rfl⟩ := hcases
    · intro j hj
      by_cases hij : j = i
      · subst hij
        exact ⟨c, k, hprogram, .inl hexec⟩
      · exact hs j (by simpa [hij] using hj)
    · intro j hj
      have hij : j ≠ i := fun heq => Bool.false_ne_true (hsuspended.symm.trans (heq ▸ hj))
      obtain ⟨d, k', hnext, hblocked⟩ := hs j hj
      refine ⟨d, k', by simpa [hij] using hnext, ?_⟩
      cases hnotifies : m.notifies s.world c with
      | true => exact .inr ⟨i, by simp⟩
      | false =>
        refine hblocked.imp (hannounces hexec hnotifies d) fun ⟨l, hl⟩ => ⟨l, ?_⟩
        have hli : l ≠ i := fun heq => Bool.false_ne_true (hnotifying.symm.trans (heq ▸ hl))
        simpa [hli] using hl
  | notify i =>
    obtain ⟨-, rfl⟩ := notify_cases h
    exact fun j hj => absurd hj Bool.false_ne_true
  | wake i =>
    obtain ⟨-, rfl⟩ := wake_cases h
    intro j hj
    have hij : j ≠ i := fun heq => by simp [heq] at hj
    exact hs j (by simpa [hij] using hj)

theorem Reaches.heard (hannounces : m.Announces) (h : m.Reaches (.start w program) s) :
    m.Heard s :=
  h.invariant (fun _ hi => absurd hi Bool.false_ne_true) fun hs _ hstep =>
    heard_step hannounces hs hstep

/-- Nobody can take the lock with success or has to notify. -/
def Settled (m : Monitor C R σ) (s : State ι C R σ) : Prop :=
  ∀ i, m.enter s i = none ∧ notify s i = none

theorem Settled.notifying (h : m.Settled s) (i : ι) : s.notifying i = false := by
  have hi := (h i).2
  unfold notify at hi
  split_ifs at hi with hnotifying
  exact Bool.eq_false_iff.mpr hnotifying

/-- Where the monitor comes to rest, no program could perform its next operation. -/
theorem Settled.atomicStep (h : m.Settled s) (hs : m.Heard s) (i : ι) :
    m.atomicStep s.toConfig (.act i) = none := by
  unfold Monitor.atomicStep Coroutine.step
  dsimp only
  cases hprogram : s.program i with
  | pure a => simp
  | act c k =>
    cases hsuspended : s.suspended i with
    | true =>
      obtain ⟨d, k', hnext, hblocked⟩ := hs i hsuspended
      obtain ⟨rfl, -⟩ := Coroutine.act.inj (hprogram.symm.trans hnext)
      have hnone : m.exec s.world c = none :=
        hblocked.resolve_right fun ⟨j, hj⟩ => Bool.false_ne_true ((h.notifying j).symm.trans hj)
      simp [hnone]
    | false =>
      have henter := (h i).1
      unfold enter at henter
      rw [hsuspended, h.notifying i, hprogram] at henter
      simp only [Bool.or_self, Bool.false_eq_true, if_false] at henter
      split at henter <;> cases henter

end Step

section Load

variable [Fintype ι]

def amount (f : ι → Bool) : ℕ := (Finset.univ.filter fun i => f i = true).card

/-- The moves that are possible before the next operation returns, at most. -/
def load (s : State ι C R σ) : ℕ :=
  (Fintype.card ι + 1) * amount s.notifying + (Fintype.card ι - amount s.suspended)

theorem amount_le (f : ι → Bool) : amount f ≤ Fintype.card ι :=
  Finset.card_le_univ _

theorem amount_false : amount (fun _ : ι => false) = 0 := by
  simp [amount]

variable [DecidableEq ι] {f : ι → Bool} {i : ι}

theorem amount_update_true (hf : f i = false) : amount (Function.update f i true) = amount f + 1 := by
  have hinsert : (Finset.univ.filter fun j => Function.update f i true j = true) =
      insert i (Finset.univ.filter fun j => f j = true) := by
    ext j
    by_cases hj : j = i <;> simp [hj]
  unfold amount
  rw [hinsert, Finset.card_insert_of_notMem (by simp [hf])]

theorem amount_update_false (hf : f i = true) :
    amount (Function.update f i false) + 1 = amount f := by
  have herase : (Finset.univ.filter fun j => Function.update f i false j = true) =
      (Finset.univ.filter fun j => f j = true).erase i := by
    ext j
    by_cases hj : j = i <;> simp [hj]
  unfold amount
  rw [herase, Finset.card_erase_add_one (by simp [hf])]

/-- A wake-up that nobody asked for. -/
def Move.isWake : Move ι → Bool
  | .wake _ => true
  | _ => false

variable {m : Monitor C R σ} {s s' : State ι C R σ}

theorem load_step {move : Move ι} (h : m.step s move = some s') :
    1 + load s' + (Fintype.card ι + 2) * s.order.length ≤
      load s + (Fintype.card ι + 2) * s'.order.length + if move.isWake then 2 else 0 := by
  have hsuspended := amount_le s.suspended
  have hsuspended' := amount_le s'.suspended
  cases move with
  | enter i =>
    obtain ⟨c, k, hawake, hsilent, -, ⟨-, rfl⟩ | ⟨r, w, -, rfl⟩⟩ := enter_cases h
    · have hmore := amount_update_true hawake
      simp only [load, Move.isWake] at *
      omega
    · have hnotifying : amount (Function.update s.notifying i (m.notifies s.world c)) ≤
          amount s.notifying + 1 := by
        cases m.notifies s.world c with
        | true => exact (amount_update_true hsilent).le
        | false =>
          have hsame : Function.update s.notifying i false = s.notifying := by
            rw [← hsilent, Function.update_eq_self]
          rw [hsame]
          exact Nat.le_succ _
      have hload := Nat.mul_le_mul_left (Fintype.card ι + 1) hnotifying
      simp only [load, Move.isWake, List.length_append, List.length_singleton, Nat.mul_add,
        Nat.mul_one] at *
      omega
  | notify i =>
    obtain ⟨hnotifying, rfl⟩ := notify_cases h
    have hless := amount_update_false hnotifying
    have hload := congrArg ((Fintype.card ι + 1) * ·) hless
    simp only [load, Move.isWake, amount_false, Nat.mul_add, Nat.mul_one] at *
    omega
  | wake i =>
    obtain ⟨hasleep, rfl⟩ := wake_cases h
    have hless := amount_update_false hasleep
    simp only [load, Move.isWake, if_true] at *
    omega

/-- The programs make few moves for every operation that returns, and for every wake-up that
nobody asked for. -/
theorem length_moves {moves : List (Move ι)} (h : moves.foldlM m.step s = some s') :
    moves.length + load s' + (Fintype.card ι + 2) * s.order.length ≤
      load s + (Fintype.card ι + 2) * s'.order.length + 2 * moves.countP Move.isWake := by
  induction moves generalizing s with
  | nil =>
    obtain rfl : s = s' := Option.some.inj h
    simp
  | cons move moves ih =>
    rw [List.foldlM_cons] at h
    obtain ⟨s₁, hstep, hrest⟩ := Option.bind_eq_some_iff.mp h
    have hfirst := load_step hstep
    have hlast := ih hrest
    rw [List.length_cons, List.countP_cons]
    split_ifs at hfirst ⊢ <;> omega

end Load

end Monitor

end Columbo
