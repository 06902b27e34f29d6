import Columbo.Refinement
import Mathlib.Data.List.Infix

/-!
# A queue that can be closed

The values that were accepted are handed out in their order. Nothing is accepted after
the queue was closed or poisoned; a closed queue still hands out what it has, a poisoned
one nothing. A queue with a capacity makes `Push` wait while it is full.
-/
namespace Columbo

inductive ChannelCall (α : Type)
  | push (value : α)
  | tryPush (value : α)
  | pop
  | tryPop
  | tryPopOnTrue (predicate : α → Bool)
  | closeChannel
  | poisenChannel

def ChannelCall.Response {α : Type} : ChannelCall α → Type
  | .push _ | .tryPush _ => Bool
  | .pop | .tryPop | .tryPopOnTrue _ => Option α
  | .closeChannel | .poisenChannel => Unit

/-- The operations on a channel, oldest first. -/
abbrev ChannelHistory (α : Type) := Coroutine.History (ChannelCall α) ChannelCall.Response

namespace ChannelHistory

variable {α : Type}

/-- The values whose push returned true. -/
def accepted (h : ChannelHistory α) : List α :=
  h.filterMap fun
    | ⟨.push value, added⟩ | ⟨.tryPush value, added⟩ => bif added then some value else none
    | _ => none

/-- The values that pops returned. -/
def popped (h : ChannelHistory α) : List α :=
  h.filterMap fun
    | ⟨.pop, value⟩ | ⟨.tryPop, value⟩ | ⟨.tryPopOnTrue _, value⟩ => value
    | _ => none

/-- Whether the channel was closed, and whether it was poisoned. -/
def closed (h : ChannelHistory α) : Bool := h.any fun | ⟨.closeChannel, _⟩ => true | _ => false

def poisened (h : ChannelHistory α) : Bool := h.any fun | ⟨.poisenChannel, _⟩ => true | _ => false

@[simp] theorem accepted_append (h h' : ChannelHistory α) :
    accepted (h ++ h') = accepted h ++ accepted h' := List.filterMap_append

@[simp] theorem popped_append (h h' : ChannelHistory α) :
    popped (h ++ h') = popped h ++ popped h' := List.filterMap_append

end ChannelHistory

structure FifoQueue (α : Type) where
  values : List α
  closed : Bool
  poisened : Bool

namespace FifoQueue

variable {α : Type}

def init : FifoQueue α := ⟨[], false, false⟩

/-- Whether another value has no room. -/
def isFull (capacity : Option Nat) (q : FifoQueue α) : Bool :=
  capacity.any (· ≤ q.values.length)

def enqueue (q : FifoQueue α) (value : α) : FifoQueue α :=
  { q with values := q.values ++ [value] }

/-- An operation that waits returns none. -/
def push (capacity : Option Nat) (q : FifoQueue α) (value : α) : Option (Bool × FifoQueue α) :=
  if q.closed || q.poisened then some (false, q)
  else if q.isFull capacity then none
  else some (true, q.enqueue value)

def tryPush (capacity : Option Nat) (q : FifoQueue α) (value : α) : Bool × FifoQueue α :=
  if q.closed || q.poisened || q.isFull capacity then (false, q) else (true, q.enqueue value)

/-- The first value goes out if the predicate holds for it. -/
def tryPopOnTrue (q : FifoQueue α) (predicate : α → Bool) : Option α × FifoQueue α :=
  if q.poisened then (none, q)
  else match q.values with
    | [] => (none, q)
    | value :: rest =>
      if predicate value then (some value, { q with values := rest }) else (none, q)

def tryPop (q : FifoQueue α) : Option α × FifoQueue α := q.tryPopOnTrue fun _ => true

def pop (q : FifoQueue α) : Option (Option α × FifoQueue α) :=
  if !q.poisened && !q.closed && q.values.isEmpty then none else some q.tryPop

def exec (capacity : Option Nat) : Executes (ChannelCall α) ChannelCall.Response (FifoQueue α)
  | q, .push value => q.push capacity value
  | q, .tryPush value => some (q.tryPush capacity value)
  | q, .pop => q.pop
  | q, .tryPop => some q.tryPop
  | q, .tryPopOnTrue predicate => some (q.tryPopOnTrue predicate)
  | q, .closeChannel => some ((), { q with closed := true })
  | q, .poisenChannel => some ((), { q with poisened := true })

section

variable {capacity : Option Nat} {q q' : FifoQueue α}

/-- What an operation says about the queue before and after it. -/
structure Step (q : FifoQueue α) (e : (c : ChannelCall α) × c.Response) (q' : FifoQueue α) :
    Prop where
  values : q.values ++ ChannelHistory.accepted [e] = ChannelHistory.popped [e] ++ q'.values
  closed : q'.closed = (q.closed || ChannelHistory.closed [e])
  poisened : q'.poisened = (q.poisened || ChannelHistory.poisened [e])
  rejecting : q.closed || q.poisened → ChannelHistory.accepted [e] = []
  silent : q.poisened → ChannelHistory.popped [e] = []

variable {e : (c : ChannelCall α) × c.Response} {value : α} {rest : List α}

theorem step_accept (haccepted : ChannelHistory.accepted [e] = [value])
    (hpopped : ChannelHistory.popped [e] = []) (hclosed : ChannelHistory.closed [e] = false)
    (hpoisened : ChannelHistory.poisened [e] = false) (hopen : ¬(q.closed || q.poisened)) :
    Step q e (q.enqueue value) := by
  constructor
  · simp [haccepted, hpopped, enqueue]
  · simp [hclosed, enqueue]
  · simp [hpoisened, enqueue]
  · exact fun hended => absurd hended hopen
  · exact fun _ => hpopped

theorem step_popped (haccepted : ChannelHistory.accepted [e] = [])
    (hpopped : ChannelHistory.popped [e] = [value]) (hclosed : ChannelHistory.closed [e] = false)
    (hpoisened : ChannelHistory.poisened [e] = false) (hvalues : q.values = value :: rest)
    (hyields : ¬q.poisened) : Step q e { q with values := rest } := by
  constructor
  · simp [haccepted, hpopped, hvalues]
  · simp [hclosed]
  · simp [hpoisened]
  · exact fun _ => haccepted
  · exact fun hq => absurd hq hyields

theorem step_unchanged (haccepted : ChannelHistory.accepted [e] = [])
    (hpopped : ChannelHistory.popped [e] = []) (hclosed : ChannelHistory.closed [e] = false)
    (hpoisened : ChannelHistory.poisened [e] = false) : Step q e q := by
  constructor
  · simp [haccepted, hpopped]
  · simp [hclosed]
  · simp [hpoisened]
  · exact fun _ => haccepted
  · exact fun _ => hpopped

/-- Either the first value goes out, or nothing changes. -/
theorem tryPopOnTrue_cases (q : FifoQueue α) (predicate : α → Bool) :
    q.tryPopOnTrue predicate = (none, q) ∨
      ∃ value rest, q.values = value :: rest ∧ ¬q.poisened ∧
        q.tryPopOnTrue predicate = (some value, { q with values := rest }) := by
  unfold tryPopOnTrue
  by_cases hpoisened : q.poisened
  · exact .inl (if_pos hpoisened)
  · rw [if_neg hpoisened]
    cases hvalues : q.values with
    | nil => exact .inl rfl
    | cons value rest =>
      dsimp only
      split_ifs
      · exact .inr ⟨value, rest, rfl, hpoisened, rfl⟩
      · exact .inl rfl

theorem step_pop {predicate : α → Bool} {o : Option α}
    (hpop : q.tryPopOnTrue predicate = (o, q')) (haccepted : ChannelHistory.accepted [e] = [])
    (hpopped : ChannelHistory.popped [e] = o.toList) (hclosed : ChannelHistory.closed [e] = false)
    (hpoisened : ChannelHistory.poisened [e] = false) : Step q e q' := by
  obtain hnone | ⟨value, rest, hvalues, hyields, hsome⟩ := q.tryPopOnTrue_cases predicate
  · obtain ⟨rfl, rfl⟩ := Prod.mk.inj (hpop.symm.trans hnone)
    exact step_unchanged haccepted hpopped hclosed hpoisened
  · obtain ⟨rfl, rfl⟩ := Prod.mk.inj (hpop.symm.trans hsome)
    exact step_popped haccepted hpopped hclosed hpoisened hvalues hyields

theorem exec_step {c : ChannelCall α} {r : c.Response} (h : q.exec capacity c = some (r, q')) :
    Step q ⟨c, r⟩ q' := by
  have hlist : ∀ o : Option α, ChannelHistory.popped [⟨.tryPop, o⟩] = o.toList := by
    intro o
    cases o <;> rfl
  cases c with
  | push value =>
    have h : q.push capacity value = some (r, q') := h
    unfold push at h
    split_ifs at h with hended hfull
    · cases h
      exact step_unchanged rfl rfl rfl rfl
    · cases h
      exact step_accept rfl rfl rfl rfl hended
  | tryPush value =>
    have h : some (q.tryPush capacity value) = some (r, q') := h
    unfold tryPush at h
    split_ifs at h with hended
    · cases h
      exact step_unchanged rfl rfl rfl rfl
    · cases h
      exact step_accept rfl rfl rfl rfl fun hopen => hended (by simp [hopen])
  | pop =>
    have h : q.pop = some (r, q') := h
    unfold pop at h
    split_ifs at h
    exact step_pop (Option.some.inj h) rfl (hlist r) rfl rfl
  | tryPop => exact step_pop (Option.some.inj h) rfl (hlist r) rfl rfl
  | tryPopOnTrue predicate => exact step_pop (Option.some.inj h) rfl (hlist r) rfl rfl
  | closeChannel =>
    cases h
    exact ⟨by simp [ChannelHistory.accepted, ChannelHistory.popped],
      by simp [ChannelHistory.closed], by simp [ChannelHistory.poisened], fun _ => rfl, fun _ => rfl⟩
  | poisenChannel =>
    cases h
    exact ⟨by simp [ChannelHistory.accepted, ChannelHistory.popped],
      by simp [ChannelHistory.closed], by simp [ChannelHistory.poisened], fun _ => rfl, fun _ => rfl⟩

/-- The values in the queue are those that were accepted and not handed out. -/
theorem run_values {h : ChannelHistory α} (hrun : Executes.Run (exec capacity) q h q') :
    q.values ++ h.accepted = h.popped ++ q'.values ∧
      q'.closed = (q.closed || h.closed) ∧ q'.poisened = (q.poisened || h.poisened) := by
  induction hrun with
  | nil q => simp [ChannelHistory.accepted, ChannelHistory.popped, ChannelHistory.closed,
      ChannelHistory.poisened]
  | @cons q q₁ q' c r h hexec _ ih =>
    obtain ⟨hvalues, hclosed, hpoisened⟩ := ih
    have hstep := exec_step hexec
    have haccepted : ChannelHistory.accepted (⟨c, r⟩ :: h) =
        ChannelHistory.accepted [⟨c, r⟩] ++ ChannelHistory.accepted h :=
      ChannelHistory.accepted_append [⟨c, r⟩] h
    have hpopped : ChannelHistory.popped (⟨c, r⟩ :: h) =
        ChannelHistory.popped [⟨c, r⟩] ++ ChannelHistory.popped h :=
      ChannelHistory.popped_append [⟨c, r⟩] h
    refine ⟨?_, ?_, ?_⟩
    · calc q.values ++ ChannelHistory.accepted (⟨c, r⟩ :: h)
          = q.values ++ ChannelHistory.accepted [⟨c, r⟩] ++ ChannelHistory.accepted h := by
            rw [haccepted, List.append_assoc]
        _ = ChannelHistory.popped [⟨c, r⟩] ++ (q₁.values ++ ChannelHistory.accepted h) := by
            rw [hstep.values, List.append_assoc]
        _ = ChannelHistory.popped (⟨c, r⟩ :: h) ++ q'.values := by
            rw [hvalues, hpopped, List.append_assoc]
    · rw [hclosed, hstep.closed, Bool.or_assoc]
      simp [ChannelHistory.closed]
    · rw [hpoisened, hstep.poisened, Bool.or_assoc]
      simp [ChannelHistory.poisened]

end

end FifoQueue

end Columbo
