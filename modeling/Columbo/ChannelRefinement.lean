import Columbo.CoroChannel

/-!
# Channels refine queues

The slots of the ring buffer from the read index on hold the values of a queue with the
capacity of the channel; the list of the other channel is a queue that is never full.
-/
namespace Columbo

/-- An operation waits if the one of the queue does, and otherwise returns the same. -/
inductive Agrees {ρ σ τ : Type} (rel : σ → τ → Prop) :
    Except Stop (ρ × σ) → Option (ρ × τ) → Prop
  | waits : Agrees rel (.error .waits) none
  | returns {s : σ} {q : τ} (r : ρ) (h : rel s q) : Agrees rel (.ok (r, s)) (some (r, q))

/-- An operation that agrees does not fail. -/
theorem Agrees.rel {ρ σ τ : Type} {rel : σ → τ → Prop} {x : Except Stop (ρ × σ)}
    {y : Option (ρ × τ)} (h : Agrees rel x y) :
    x ≠ .error .fails ∧ Option.Rel (fun x y => x.1 = y.1 ∧ rel x.2 y.2) x.toOption y := by
  cases h with
  | waits => exact ⟨by simp, .none⟩
  | returns r h => exact ⟨by simp, .some ⟨rfl, h⟩⟩

theorem Agrees.returned {ρ σ τ : Type} {rel : σ → τ → Prop} {x : Except Stop (ρ × σ)} {y : ρ × τ}
    (h : Agrees rel x (some y)) : ∃ s, x = .ok (y.1, s) := by
  cases h with
  | returns r h => exact ⟨_, rfl⟩

theorem Agrees.waits_iff {ρ σ τ : Type} {rel : σ → τ → Prop} {x : Except Stop (ρ × σ)} :
    Agrees rel x (none : Option (ρ × τ)) ↔ x = .error .waits := by
  constructor
  · intro h
    cases h
    rfl
  · rintro rfl
    exact .waits

theorem Agrees.returns_iff {ρ σ τ : Type} {rel : σ → τ → Prop} {x : Except Stop (ρ × σ)} {r : ρ}
    {q : τ} : Agrees rel x (some (r, q)) ↔ ∃ s, x = .ok (r, s) ∧ rel s q := by
  constructor
  · intro h
    cases h with
    | returns r h => exact ⟨_, rfl, h⟩
  · rintro ⟨s, rfl, h⟩
    exact .returns r h

/-- The common fields are those of the queue. -/
structure CoroChannel.Represents (s : CoroChannel) {α : Type} (q : FifoQueue α) : Prop where
  size : s.size = q.values.length
  closed : s.closed = q.closed
  poisened : s.poisened = q.poisened

namespace CoroChannel.Represents

variable {s : CoroChannel} {α : Type} {q : FifoQueue α}

theorem ended (h : s.Represents q) : (s.closed || s.poisened) = (q.closed || q.poisened) := by
  rw [h.closed, h.poisened]

theorem isEmpty (h : s.Represents q) : decide (s.size = 0) = q.values.isEmpty := by
  rw [h.size]
  cases q.values <;> rfl

theorem mustWait (h : s.Represents q) : (!(s.poisened || s.closed || decide (s.size > 0))) =
    (!q.poisened && !q.closed && q.values.isEmpty) := by
  have hsize : decide (s.size > 0) = !q.values.isEmpty := by
    rw [h.size]
    cases q.values <;> rfl
  rw [h.closed, h.poisened, hsize]
  simp

end CoroChannel.Represents

namespace CoroUnBoundedChannel

variable {α : Type}

structure Represents (s : CoroUnBoundedChannel α) (q : FifoQueue α) : Prop extends
    s.toCoroChannel.Represents q where
  buffer : s.buffer = q.values

namespace Represents

variable {s : CoroUnBoundedChannel α} {q : FifoQueue α}

theorem init : Represents ({ } : CoroUnBoundedChannel α) FifoQueue.init :=
  ⟨⟨rfl, rfl, rfl⟩, rfl⟩

theorem push (h : Represents s q) (value : α) :
    Agrees Represents (s.push value) (q.push none value) := by
  unfold CoroUnBoundedChannel.push FifoQueue.push
  rw [h.ended]
  split
  · exact .returns _ h
  · refine .returns _ ⟨⟨?_, h.closed, h.poisened⟩, ?_⟩
    · simp [FifoQueue.enqueue, h.size]
    · simp [FifoQueue.enqueue, h.buffer]

theorem tryPush (h : Represents s q) (value : α) :
    Agrees Represents (s.tryPush value) (some (q.tryPush none value)) := by
  have hnever : q.push none value = some (q.tryPush none value) := by
    unfold FifoQueue.push FifoQueue.tryPush FifoQueue.isFull
    by_cases hended : q.closed || q.poisened <;> simp [hended]
  rw [← hnever]
  exact h.push value

theorem tryPopOnTrue (h : Represents s q) (predicate : α → Bool) :
    Agrees Represents (s.tryPopOnTrue predicate) (some (q.tryPopOnTrue predicate)) := by
  unfold CoroUnBoundedChannel.tryPopOnTrue FifoQueue.tryPopOnTrue front
  rw [h.poisened, h.isEmpty, h.buffer]
  cases hpoisened : q.poisened with
  | true => exact .returns _ h
  | false =>
    cases hvalues : q.values with
    | nil => exact .returns _ h
    | cons value rest =>
      cases hpredicate : predicate value with
      | false => simpa [bind, Except.bind, hpredicate] using Agrees.returns none h
      | true =>
        have hrest : Represents s.popFront ⟨rest, q.closed, false⟩ := by
          refine ⟨⟨?_, h.closed, h.poisened.trans hpoisened⟩, ?_⟩
          · simp [popFront, h.size, hvalues]
          · simp [popFront, h.buffer, hvalues]
        simpa [bind, Except.bind, hpredicate] using Agrees.returns (some value) hrest

theorem tryPop (h : Represents s q) : Agrees Represents s.tryPop (some q.tryPop) :=
  h.tryPopOnTrue fun _ => true

theorem pop (h : Represents s q) : Agrees Represents s.pop q.pop := by
  have hpop : s.pop = if !(s.poisened || s.closed || s.size > 0) then .error .waits
      else s.tryPop := by
    unfold CoroUnBoundedChannel.pop CoroUnBoundedChannel.tryPop
    cases s.poisened <;> simp
  rw [hpop, h.mustWait]
  unfold FifoQueue.pop
  split
  · exact .waits
  · exact h.tryPop

/-- The channel is a queue without a capacity. -/
theorem exec (h : Represents s q) (c : ChannelCall α) :
    Agrees Represents (s.exec c) (q.exec none c) := by
  cases c with
  | push value => exact h.push value
  | tryPush value => exact h.tryPush value
  | pop => exact h.pop
  | tryPop => exact h.tryPop
  | tryPopOnTrue predicate => exact h.tryPopOnTrue predicate
  | closeChannel => exact .returns _ ⟨⟨h.size, rfl, h.poisened⟩, h.buffer⟩
  | poisenChannel => exact .returns _ ⟨⟨h.size, h.closed, rfl⟩, h.buffer⟩

end Represents

end CoroUnBoundedChannel

namespace CoroBoundedChannel

variable {α : Type} {capacity : Nat}

/-- Different offsets are different slots. -/
theorem slot_injective {start i j : Nat} (hi : i < capacity) (hj : j < capacity)
    (h : (start + i) % capacity = (start + j) % capacity) : i = j := by
  have hmod : i ≡ j [MOD capacity] := Nat.ModEq.add_left_cancel' start h
  unfold Nat.ModEq at hmod
  rwa [Nat.mod_eq_of_lt hi, Nat.mod_eq_of_lt hj] at hmod

/-- The slots from the read index on hold the values of the queue. -/
structure Represents (s : CoroBoundedChannel α capacity) (q : FifoQueue α) : Prop extends
    s.toCoroChannel.Represents q where
  room : s.size ≤ capacity
  readIndex : s.readIndex < capacity
  writeIndex : s.writeIndex = (s.readIndex + s.size) % capacity
  slots : ∀ i (hi : i < q.values.length),
    s.buffer[(s.readIndex + i) % capacity]? = some (some q.values[i])

namespace Represents

variable {s : CoroBoundedChannel α capacity} {q : FifoQueue α}

theorem init (hcapacity : 0 < capacity) :
    Represents ({ } : CoroBoundedChannel α capacity) FifoQueue.init := by
  refine ⟨⟨rfl, rfl, rfl⟩, Nat.zero_le _, hcapacity, ?_, fun i hi => ?_⟩
  · simp
  · cases hi

theorem performWrite (h : Represents s q) (hroom : s.size < capacity) (value : α) :
    ∃ s', s.performWrite value = .ok s' ∧ Represents s' (q.enqueue value) := by
  have hpos : 0 < capacity := by omega
  have hwrite : s.writeIndex < capacity := h.writeIndex ▸ Nat.mod_lt _ hpos
  refine ⟨_, dif_pos ⟨hroom, hwrite⟩, ⟨?_, h.closed, h.poisened⟩, hroom, h.readIndex, ?_, ?_⟩
  · simp [FifoQueue.enqueue, h.size]
  · simp [h.writeIndex, Nat.add_assoc]
  · intro i hi
    have hi : i < q.values.length + 1 := by simpa [FifoQueue.enqueue] using hi
    have hsize := h.size
    by_cases hlast : i = q.values.length
    · subst hlast
      have hslot : (s.readIndex + q.values.length) % capacity = s.writeIndex := by
        rw [h.writeIndex, h.size]
      simp [FifoQueue.enqueue, hslot, hwrite]
    · have hold : i < q.values.length := by omega
      have hne : s.writeIndex ≠ (s.readIndex + i) % capacity := by
        intro heq
        have hsame := slot_injective (by omega) hroom (heq.symm.trans h.writeIndex)
        omega
      have hkept := h.slots i hold
      simp [FifoQueue.enqueue, List.getElem_append_left hold, hne]
      simpa using hkept

theorem front (h : Represents s q) {value : α} {rest : List α} (hvalues : q.values = value :: rest) :
    s.front = .ok value := by
  have hfirst := h.slots 0 (by simp [hvalues])
  have hread : (s.readIndex + 0) % capacity = s.readIndex := Nat.mod_eq_of_lt h.readIndex
  rw [hread] at hfirst
  unfold CoroBoundedChannel.front
  simp [hfirst, hvalues]

theorem performRead (h : Represents s q) {value : α} {rest : List α}
    (hvalues : q.values = value :: rest) :
    ∃ s', s.performRead = .ok (value, s') ∧ Represents s' { q with values := rest } := by
  have hsize : s.size = rest.length + 1 := by simp [h.size, hvalues]
  have hroom := h.room
  have hpos : 0 < s.size := by omega
  refine ⟨{ s with
      buffer := s.buffer.setIfInBounds s.readIndex none
      readIndex := (s.readIndex + 1) % capacity
      size := s.size - 1 }, ?_, ⟨?_, h.closed, h.poisened⟩, ?_, ?_, ?_, ?_⟩
  · unfold CoroBoundedChannel.performRead
    rw [if_pos hpos, h.front hvalues]
    rfl
  · simp [hsize]
  · dsimp only
    omega
  · exact Nat.mod_lt _ (by omega)
  · have hnext : s.readIndex + 1 + (s.size - 1) = s.readIndex + s.size := by omega
    simp [h.writeIndex, hnext]
  · intro i hi
    have hi : i < rest.length := hi
    have hslot : ((s.readIndex + 1) % capacity + i) % capacity =
        (s.readIndex + (i + 1)) % capacity := by
      rw [Nat.mod_add_mod]
      congr 1
      omega
    have hne : s.readIndex ≠ (s.readIndex + (i + 1)) % capacity := by
      intro heq
      have hread : s.readIndex = (s.readIndex + 0) % capacity :=
        (Nat.mod_eq_of_lt h.readIndex).symm
      have hsame := slot_injective (by omega) (by omega) (hread.symm.trans heq)
      omega
    have hkept := h.slots (i + 1) (by simp [hvalues, hi])
    dsimp only
    rw [hslot]
    simp [hne]
    simpa [hvalues] using hkept

theorem push (h : Represents s q) (value : α) :
    Agrees Represents (s.push value) (q.push (some capacity) value) := by
  have hfull : q.isFull (some capacity) = decide (capacity ≤ s.size) := by
    simp [FifoQueue.isFull, h.size]
  unfold CoroBoundedChannel.push FifoQueue.push
  rw [← h.ended, hfull]
  by_cases hended : s.closed || s.poisened
  · simpa [hended] using Agrees.returns false h
  · by_cases hroom : s.size < capacity
    · obtain ⟨s', hwrite, hs'⟩ := h.performWrite hroom value
      simpa [hended, hroom, hroom.not_ge, hwrite, bind, Except.bind] using Agrees.returns true hs'
    · have hle : capacity ≤ s.size := by omega
      simpa [hended, hroom, hle] using Agrees.waits

theorem tryPush (h : Represents s q) (value : α) :
    Agrees Represents (s.tryPush value) (some (q.tryPush (some capacity) value)) := by
  have hfull : q.isFull (some capacity) = decide (capacity ≤ s.size) := by
    simp [FifoQueue.isFull, h.size]
  unfold CoroBoundedChannel.tryPush FifoQueue.tryPush
  rw [← h.ended, hfull]
  by_cases hended : (s.closed || s.poisened || decide (s.size ≥ capacity)) = true
  · rw [if_pos hended, if_pos hended]
    exact .returns _ h
  · have hroom : s.size < capacity := by
      simp at hended
      exact hended.2
    obtain ⟨s', hwrite, hs'⟩ := h.performWrite hroom value
    rw [if_neg hended, if_neg hended, hwrite]
    exact .returns _ hs'

theorem tryPopOnTrue (h : Represents s q) (predicate : α → Bool) :
    Agrees Represents (s.tryPopOnTrue predicate) (some (q.tryPopOnTrue predicate)) := by
  unfold CoroBoundedChannel.tryPopOnTrue FifoQueue.tryPopOnTrue
  rw [h.poisened, h.isEmpty]
  cases hpoisened : q.poisened with
  | true => exact .returns _ h
  | false =>
    cases hvalues : q.values with
    | nil => exact .returns _ h
    | cons value rest =>
      rw [h.front hvalues]
      cases hpredicate : predicate value with
      | false => simpa [bind, Except.bind, hpredicate] using Agrees.returns none h
      | true =>
        obtain ⟨s', hread, hs'⟩ := h.performRead hvalues
        rw [hpoisened] at hs'
        simpa [bind, Except.bind, hpredicate, hread] using Agrees.returns (some value) hs'

theorem tryPop (h : Represents s q) : Agrees Represents s.tryPop (some q.tryPop) := by
  have htry : s.tryPop = s.tryPopOnTrue fun _ => true := by
    unfold CoroBoundedChannel.tryPop CoroBoundedChannel.tryPopOnTrue
    by_cases hpoisened : s.poisened
    · simp [hpoisened]
    · by_cases hsize : s.size = 0
      · simp [hsize]
      · cases hvalues : q.values with
        | nil => exact absurd (by simp [h.size, hvalues]) hsize
        | cons value rest => simp [hpoisened, hsize, h.front hvalues, bind, Except.bind]
  rw [htry]
  exact h.tryPopOnTrue fun _ => true

theorem pop (h : Represents s q) : Agrees Represents s.pop q.pop := by
  have hpop : s.pop = if !(s.poisened || s.closed || s.size > 0) then .error .waits
      else s.tryPop := rfl
  rw [hpop, h.mustWait]
  unfold FifoQueue.pop
  split
  · exact .waits
  · exact h.tryPop

/-- The channel is a queue with its capacity. -/
theorem exec (h : Represents s q) (c : ChannelCall α) :
    Agrees Represents (s.exec c) (q.exec (some capacity) c) := by
  cases c with
  | push value => exact h.push value
  | tryPush value => exact h.tryPush value
  | pop => exact h.pop
  | tryPop => exact h.tryPop
  | tryPopOnTrue predicate => exact h.tryPopOnTrue predicate
  | closeChannel =>
    exact .returns _ ⟨⟨h.size, rfl, h.poisened⟩, h.room, h.readIndex, h.writeIndex, h.slots⟩
  | poisenChannel =>
    exact .returns _ ⟨⟨h.size, h.closed, rfl⟩, h.room, h.readIndex, h.writeIndex, h.slots⟩

end Represents

end CoroBoundedChannel

section

variable {α σ : Type} {s : σ} {q : FifoQueue α} {h : ChannelHistory α} {size : Nat}
  {exec : (c : ChannelCall α) → Except Stop (c.Response × σ)} {rel : σ → FifoQueue α → Prop}
  {capacity : Option Nat}

theorem CoroUnBoundedChannel.tryPopOnTrue_none {s s' : CoroUnBoundedChannel α}
    {predicate : α → Bool} (h : s.tryPopOnTrue predicate = .ok (none, s')) : s' = s := by
  unfold tryPopOnTrue at h
  split_ifs at h
  · cases h
    rfl
  · cases hfront : s.front with
    | error e => simp [hfront, bind, Except.bind] at h
    | ok value =>
      simp only [hfront, bind, Except.bind] at h
      split_ifs at h
      · cases h
        rfl
      · cases h

theorem CoroBoundedChannel.tryPopOnTrue_none {slots : Nat} {s s' : CoroBoundedChannel α slots}
    {predicate : α → Bool} (h : s.tryPopOnTrue predicate = .ok (none, s')) : s' = s := by
  unfold tryPopOnTrue at h
  split_ifs at h
  · cases h
    rfl
  · cases hfront : s.front with
    | error e => simp [hfront, bind, Except.bind] at h
    | ok value =>
      simp only [hfront, bind, Except.bind] at h
      split_ifs at h
      · cases h
        rfl
      · cases hread : s.performRead with
        | error e => simp [hread] at h
        | ok result => simp [hread] at h

end

end Columbo
