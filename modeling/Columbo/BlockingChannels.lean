import Columbo.ChannelRefinement
import Columbo.Monitor

/-!
# Channels with a lock and a condition variable

`Push` and `Pop` wait for their condition and are suspended until another operation notifies
after it gave back the lock. The channels are monitors, all operations of which notify that
change anything; so they are queues also when their operations are taken apart, and nobody
stays suspended who could go on.
-/
namespace Columbo

variable {α : Type}

/-- What an operation waits for while it is suspended; all others never are. -/
def CoroChannel.Awaits (s : CoroChannel) (capacity : Option ℕ) : ChannelCall α → Prop
  | .push _ => s.closed = false ∧ s.poisened = false ∧ capacity = some s.size
  | .pop => s.closed = false ∧ s.poisened = false ∧ s.size = 0
  | _ => False

theorem FifoQueue.awaits_of_exec_eq_none {s : CoroChannel} {capacity : Option ℕ}
    {q : FifoQueue α} (hq : s.Represents q) (hroom : ∀ n ∈ capacity, q.values.length ≤ n)
    {c : ChannelCall α} (h : q.exec capacity c = none) : s.Awaits capacity c := by
  cases c with
  | push value =>
    change q.push capacity value = none at h
    unfold FifoQueue.push at h
    split_ifs at h with hended hfull
    obtain ⟨hclosed, hpoisened⟩ := Bool.or_eq_false_iff.mp (Bool.eq_false_iff.mpr hended)
    refine ⟨hq.closed.trans hclosed, hq.poisened.trans hpoisened, ?_⟩
    obtain ⟨n, hn, hle⟩ := Option.any_eq_true _ _ |>.mp hfull
    have hsize : n = s.size := by
      have hup := hroom n hn
      have hdown : n ≤ q.values.length := by simpa using hle
      rw [hq.size]
      omega
    rw [hn, hsize]
  | pop =>
    change q.pop = none at h
    unfold FifoQueue.pop at h
    split_ifs at h with hwaits
    simp only [Bool.and_eq_true, Bool.not_eq_true', List.isEmpty_iff] at hwaits
    obtain ⟨⟨hpoisened, hclosed⟩, hempty⟩ := hwaits
    refine ⟨hq.closed.trans hclosed, hq.poisened.trans hpoisened, ?_⟩
    rw [hq.size, hempty]
    rfl
  | _ => cases h

/-- Only `TryPopOnTrue` may return without `notify_all`, when the value at the front has to
stay. -/
def CoroChannel.notifies (s : CoroChannel) (front : Except Stop α) : ChannelCall α → Bool
  | .tryPopOnTrue predicate => match front with
    | .ok value => s.poisened || s.size = 0 || predicate value
    | .error _ => true
  | _ => true

/-- An operation that does not notify meets a value for which the predicate does not hold. -/
theorem CoroChannel.of_silent {s : CoroChannel} {front : Except Stop α} {c : ChannelCall α}
    (h : s.notifies front c = false) : ∃ predicate value, c = .tryPopOnTrue predicate ∧
      front = .ok value ∧ (s.poisened || decide (s.size = 0)) = false ∧
      predicate value = false := by
  cases c with
  | tryPopOnTrue predicate =>
    cases front with
    | ok value =>
      obtain ⟨hyields, hvalue⟩ := Bool.or_eq_false_iff.mp h
      exact ⟨predicate, value, rfl, rfl, hyields, hvalue⟩
    | error e => cases h
  | _ => cases h

/-- Where `TryPopOnTrue` leaves the value at the front, nothing becomes possible. -/
theorem CoroChannel.announces_of_tryPopOnTrue {σ : Type} {toChannel : σ → CoroChannel}
    {front : σ → Except Stop α} {exec : σ → (c : ChannelCall α) → Except Stop (c.Response × σ)}
    (htry : ∀ s predicate, ∃ rest : α → Except Stop (Option α × σ),
      exec s (.tryPopOnTrue predicate) =
        if (toChannel s).poisened || (toChannel s).size = 0 then .ok (none, s)
        else front s >>= fun value => if !predicate value then .ok (none, s) else rest value) :
    (Monitor.mk (fun s c => (exec s c).toOption)
      fun s c => (toChannel s).notifies (front s) c).Announces := by
  refine Monitor.announces_of_unchanged fun s c r s' hexec hsilent => ?_
  obtain ⟨predicate, value, rfl, hfront, hyields, hvalue⟩ := CoroChannel.of_silent hsilent
  have hstays : exec s (.tryPopOnTrue predicate) = .ok (none, s) := by
    obtain ⟨rest, hrest⟩ := htry s predicate
    rw [hrest, hyields, hfront]
    simp only [bind, Except.bind, hvalue]
    rfl
  have hsame : some (r, s') = some (none, s) := hexec.symm.trans (congrArg Except.toOption hstays)
  exact (Prod.mk.inj (Option.some.inj hsame)).2

namespace CoroBoundedChannel

variable {capacity : ℕ}

def monitor (α : Type) (capacity : ℕ) :
    Monitor (ChannelCall α) ChannelCall.Response (CoroBoundedChannel α capacity) :=
  ⟨fun s c => (s.exec c).toOption, fun s c => s.notifies s.front c⟩

theorem monitor_announces : (monitor α capacity).Announces :=
  CoroChannel.announces_of_tryPopOnTrue fun _ _ => ⟨_, rfl⟩

end CoroBoundedChannel

namespace CoroUnBoundedChannel

/-- `TryPush` notifies before it takes the lock as well, which can only wake up what then tries
in vain. -/
def monitor (α : Type) : Monitor (ChannelCall α) ChannelCall.Response (CoroUnBoundedChannel α) :=
  ⟨fun s c => (s.exec c).toOption, fun s c => s.notifies s.front c⟩

theorem monitor_announces : (monitor α).Announces :=
  CoroChannel.announces_of_tryPopOnTrue fun _ _ => ⟨_, rfl⟩

end CoroUnBoundedChannel

section

variable {ι σ : Type} [DecidableEq ι]

/-- The operations that held the lock are those of a queue. What is suspended waits for its
condition, unless somebody is going to notify; `Push` and `Pop` do not wait for each other.
Where nothing goes on, every program has ended or waits for its condition. -/
structure Blocks (m : Monitor (ChannelCall α) ChannelCall.Response σ) (toChannel : σ → CoroChannel)
    (capacity : Option ℕ) (s : Monitor.State ι (ChannelCall α) ChannelCall.Response σ) :
    Prop where
  queue : ∃ q, Executes.Run (FifoQueue.exec capacity) .init s.order q ∧
    (toChannel s.world).Represents q
  awaits : ∀ i, s.suspended i = true → ∃ c k, s.program i = .act c k ∧
    ((toChannel s.world).Awaits capacity c ∨ ∃ j, s.notifying j = true)
  apart : (∀ j, s.notifying j = false) → ∀ i j value k k', s.suspended i = true →
    s.suspended j = true → s.program i = .act (.push value) k → s.program j ≠ .act .pop k'
  settled : m.Settled s → ∀ i, (∃ u, s.program i = .pure u) ∨
    ∃ c k, s.program i = .act c k ∧ (toChannel s.world).Awaits capacity c

variable {m : Monitor (ChannelCall α) ChannelCall.Response σ} {capacity : Option ℕ}
  {rel : σ → FifoQueue α → Prop} {toChannel : σ → CoroChannel} {w : σ}
  {program : ι → Coroutine (ChannelCall α) ChannelCall.Response Unit}
  {s : Monitor.State ι (ChannelCall α) ChannelCall.Response σ}

theorem blocks_of_refines (hannounces : m.Announces) (hcapacity : capacity ≠ some 0)
    (hrefines : Executes.Refines m.exec (FifoQueue.exec capacity) rel)
    (hrel : ∀ {o q}, rel o q →
      (toChannel o).Represents q ∧ ∀ n ∈ capacity, q.values.length ≤ n)
    (hstart : rel w .init) (h : m.Reaches (.start w program) s) : Blocks m toChannel capacity s := by
  obtain ⟨q, hrun, hq⟩ := hrefines.run hstart (h.run rfl)
  have hheard := h.heard hannounces
  have hawaits : ∀ {c}, m.exec s.world c = none → (toChannel s.world).Awaits capacity c := by
    intro c hnone
    have hstep := hrefines (c := c) hq
    rw [hnone] at hstep
    cases hmodel : q.exec capacity c with
    | none => exact FifoQueue.awaits_of_exec_eq_none (hrel hq).1 (hrel hq).2 hmodel
    | some rq =>
      rw [hmodel] at hstep
      cases hstep
  have hsuspended : ∀ i, s.suspended i = true → ∃ c k, s.program i = .act c k ∧
      ((toChannel s.world).Awaits capacity c ∨ ∃ j, s.notifying j = true) := by
    intro i hi
    obtain ⟨c, k, hprogram, hblocked⟩ := hheard i hi
    exact ⟨c, k, hprogram, hblocked.imp_left hawaits⟩
  refine ⟨⟨q, hrun, (hrel hq).1⟩, hsuspended, ?_, ?_⟩
  · intro hsilent i j value k k' hi hj hpush hpop
    have hmust : ∀ {i c k}, s.suspended i = true → s.program i = .act c k →
        (toChannel s.world).Awaits capacity c := by
      intro i c k hi hprogram
      obtain ⟨d, k', hnext, hd⟩ := hsuspended i hi
      obtain ⟨rfl, -⟩ := Coroutine.act.inj (hprogram.symm.trans hnext)
      exact hd.resolve_right fun ⟨j, hj⟩ => Bool.false_ne_true ((hsilent j).symm.trans hj)
    obtain ⟨-, -, hfull⟩ := hmust hi hpush
    obtain ⟨-, -, hempty⟩ := hmust hj hpop
    exact hcapacity (hempty ▸ hfull)
  · intro hsettled i
    have hstep := hsettled.atomicStep hheard i
    unfold Monitor.atomicStep Coroutine.step at hstep
    cases hprogram : s.program i with
    | pure u => exact .inl ⟨u, rfl⟩
    | act c k =>
      simp only [hprogram, Option.map_eq_none_iff] at hstep
      exact .inr ⟨c, k, rfl, hawaits hstep⟩

variable [Fintype ι] {slots : ℕ}

/-- Any number of programs that use the channels in any way: taken apart at the lock and the
condition variable, the operations are still those of queues, no wake-up is lost, and between
two operations that return there are only so many moves. -/
theorem blocks_of_moves (hslots : 0 < slots)
    {program₁ program₂ : ι → Coroutine (ChannelCall α) ChannelCall.Response Unit}
    {moves₁ moves₂ : List (Monitor.Move ι)}
    {s₁ : Monitor.State ι (ChannelCall α) ChannelCall.Response (CoroBoundedChannel α slots)}
    {s₂ : Monitor.State ι (ChannelCall α) ChannelCall.Response (CoroUnBoundedChannel α)}
    (h₁ : moves₁.foldlM (CoroBoundedChannel.monitor α slots).step (.start { } program₁) = some s₁)
    (h₂ : moves₂.foldlM (CoroUnBoundedChannel.monitor α).step (.start { } program₂) = some s₂) :
    (Blocks (CoroBoundedChannel.monitor α slots) CoroBoundedChannel.toCoroChannel (some slots) s₁ ∧
      moves₁.length ≤ Fintype.card ι + (Fintype.card ι + 2) * s₁.order.length +
        2 * moves₁.countP Monitor.Move.isWake) ∧
    (Blocks (CoroUnBoundedChannel.monitor α) CoroUnBoundedChannel.toCoroChannel none s₂ ∧
      moves₂.length ≤ Fintype.card ι + (Fintype.card ι + 2) * s₂.order.length +
        2 * moves₂.countP Monitor.Move.isWake) := by
  have hload : ∀ {σ : Type} {w : σ} {program},
      Monitor.load (.start (C := ChannelCall α) (R := ChannelCall.Response) (ι := ι) w program) =
        Fintype.card ι := by
    intro σ w program
    simp [Monitor.load, Monitor.State.start, Monitor.amount_false]
  refine ⟨⟨?_, ?_⟩, ?_, ?_⟩
  · refine blocks_of_refines CoroBoundedChannel.monitor_announces (by simpa using hslots.ne')
      (fun hrel => (hrel.exec _).rel.2) (fun hq => ⟨hq.toRepresents, ?_⟩)
      (CoroBoundedChannel.Represents.init hslots) (Monitor.reaches_of_moves h₁)
    intro n hn
    obtain rfl := Option.some.inj hn
    exact hq.size ▸ hq.room
  · have hlength := Monitor.length_moves h₁
    rw [hload] at hlength
    have hzero : (Monitor.State.start (ι := ι) ({ } : CoroBoundedChannel α slots)
      program₁).order.length = 0 := rfl
    omega
  · exact blocks_of_refines CoroUnBoundedChannel.monitor_announces (by simp)
      (fun hrel => (hrel.exec _).rel.2) (fun hq => ⟨hq.toRepresents, by simp⟩)
      CoroUnBoundedChannel.Represents.init (Monitor.reaches_of_moves h₂)
  · have hlength := Monitor.length_moves h₂
    rw [hload] at hlength
    have hzero : (Monitor.State.start (ι := ι) ({ } : CoroUnBoundedChannel α)
      program₂).order.length = 0 := rfl
    omega

/-- One program pushes two values, and the other one pops them. -/
def twoPushes : Bool → Coroutine (ChannelCall ℕ) ChannelCall.Response Unit
  | true => do
    let _ ← Coroutine.perform (.push 1)
    let _ ← Coroutine.perform (.push 2)
  | false => do
    let _ ← Coroutine.perform .pop
    let _ ← Coroutine.perform .pop

/-- With one slot both programs are suspended once. -/
theorem blocks_of_twoPushes : ∃ s₁ s₂, s₁.order.length = 4 ∧ s₂.order.length = 4 ∧
    Blocks (ι := Bool) (CoroBoundedChannel.monitor ℕ 1) CoroBoundedChannel.toCoroChannel (some 1)
      s₁ ∧
    Blocks (ι := Bool) (CoroUnBoundedChannel.monitor ℕ) CoroUnBoundedChannel.toCoroChannel none
      s₂ := by
  have h₁ : (List.foldlM (CoroBoundedChannel.monitor ℕ 1).step (.start { } twoPushes)
      [.enter false, .enter true, .notify true, .enter true, .enter false, .notify false,
        .enter true, .notify true, .enter false, .notify false]).map (·.order.length) = some 4 := by
    decide
  have h₂ : (List.foldlM (CoroUnBoundedChannel.monitor ℕ).step (.start { } twoPushes)
      [.enter false, .enter true, .notify true, .enter true, .enter false, .notify false,
        .notify true, .enter false, .notify false]).map (·.order.length) = some 4 := by
    decide
  obtain ⟨s₁, hmoves₁, hlength₁⟩ := Option.map_eq_some_iff.mp h₁
  obtain ⟨s₂, hmoves₂, hlength₂⟩ := Option.map_eq_some_iff.mp h₂
  obtain ⟨⟨hbounded, -⟩, hunbounded, -⟩ := blocks_of_moves Nat.one_pos hmoves₁ hmoves₂
  exact ⟨s₁, s₂, hlength₁, hlength₂, hbounded, hunbounded⟩

end

end Columbo
