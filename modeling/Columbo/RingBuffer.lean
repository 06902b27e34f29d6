import Columbo.CoroChannel

/-!
# The slots of the ring buffers

The bounded channels keep their values in a `std::vector` that is indexed
modulo the capacity. Their constructors only reserve memory, which adds no
elements. The indices stay below the capacity in every run, so a vector with as
many elements would be enough; the vector of a new channel has none, and the
first value that is written to it is written behind its end.
-/
namespace Columbo

/-- `std::vector`: the elements, and for how many of them there is memory. -/
structure StdVector (α : Type) where
  elements : List α := []
  allocated : ℕ := 0

namespace StdVector

variable {α : Type}

def size (v : StdVector α) : ℕ := v.elements.length

def reserve (v : StdVector α) (n : ℕ) : StdVector α := { v with allocated := max v.allocated n }

def set (v : StdVector α) (i : ℕ) (a : α) : StdVector α :=
  { v with elements := v.elements.set i a }

@[simp] theorem size_reserve (v : StdVector α) (n : ℕ) : (v.reserve n).size = v.size := rfl

@[simp] theorem size_set (v : StdVector α) (i : ℕ) (a : α) : (v.set i a).size = v.size :=
  List.length_set

end StdVector

/-- How an operation ends when it does not return. -/
inductive Halt
  | waits
  | assertion
  | outOfRange
  deriving DecidableEq

/-- The state of a `CoroBoundedChannel` or `NonCoroBufferedChannel`. -/
structure RingBuffer (α : Type) extends CoroChannel where
  capacity : ℕ
  buffer : StdVector α
  readIndex : ℕ := 0
  writeIndex : ℕ := 0

namespace RingBuffer

variable {α : Type}

def coroBoundedChannel (α : Type) (capacity : ℕ) : RingBuffer α :=
  { capacity := capacity, buffer := StdVector.reserve { } capacity }

def nonCoroBufferedChannel (α : Type) (capacity : ℕ) : RingBuffer α :=
  { capacity := capacity, buffer := StdVector.reserve { } capacity }

def performWrite (s : RingBuffer α) (value : α) : Except Halt (RingBuffer α) :=
  if ¬(s.size < s.capacity ∧ s.writeIndex < s.capacity) then .error .assertion
  else if s.buffer.size ≤ s.writeIndex then .error .outOfRange
  else .ok { s with
    buffer := s.buffer.set s.writeIndex value
    writeIndex := (s.writeIndex + 1) % s.capacity
    size := s.size + 1 }

/-- `buffer_[read_index_]`. -/
def front (s : RingBuffer α) : Except Halt α :=
  if ¬s.readIndex < s.capacity then .error .assertion
  else match s.buffer.elements[s.readIndex]? with
    | none => .error .outOfRange
    | some value => .ok value

/-- What is left of a value that was moved out stays in the vector. -/
def performRead (s : RingBuffer α) : Except Halt (α × RingBuffer α) :=
  if ¬0 < s.size then .error .assertion
  else do
    let result ← s.front
    .ok (result, { s with readIndex := (s.readIndex + 1) % s.capacity, size := s.size - 1 })

def push (s : RingBuffer α) (value : α) : Except Halt (Bool × RingBuffer α) :=
  if !(s.closed || s.poisened || s.size < s.capacity) then .error .waits
  else if s.closed || s.poisened then .ok (false, s)
  else do
    let s ← s.performWrite value
    .ok (true, s)

def tryPush (s : RingBuffer α) (value : α) : Except Halt (Bool × RingBuffer α) :=
  if s.closed || s.poisened || s.size ≥ s.capacity then .ok (false, s)
  else do
    let s ← s.performWrite value
    .ok (true, s)

def pop (s : RingBuffer α) : Except Halt (Option α × RingBuffer α) :=
  if !(s.poisened || s.closed || s.size > 0) then .error .waits
  else if s.poisened || s.size = 0 then .ok (none, s)
  else do
    let (result, s) ← s.performRead
    .ok (some result, s)

def tryPop (s : RingBuffer α) : Except Halt (Option α × RingBuffer α) :=
  if s.poisened || s.size = 0 then .ok (none, s)
  else do
    let (result, s) ← s.performRead
    .ok (some result, s)

def tryPopOnTrue (s : RingBuffer α) (predicate : α → Bool) :
    Except Halt (Option α × RingBuffer α) :=
  if s.poisened || s.size = 0 then .ok (none, s)
  else do
    let value ← s.front
    if !predicate value then .ok (none, s)
    else do
      let (result, s) ← s.performRead
      .ok (some result, s)

/-- One operation. -/
def exec (s : RingBuffer α) : (c : ChannelCall α) → Except Halt (c.Response × RingBuffer α)
  | .push value => s.push value
  | .tryPush value => s.tryPush value
  | .pop => s.pop
  | .tryPop => s.tryPop
  | .tryPopOnTrue predicate => s.tryPopOnTrue predicate
  | .closeChannel => .ok ((), { s with closed := true })
  | .poisenChannel => .ok ((), { s with poisened := true })

/-- Operations in the order in which they get the lock. One that has to wait
gives the lock back and leaves the channel as it is. -/
def run (s : RingBuffer α) : List (ChannelCall α) → Except Halt (RingBuffer α)
  | [] => .ok s
  | c :: calls =>
    match s.exec c with
    | .ok (_, s) => s.run calls
    | .error .waits => s.run calls
    | .error halt => .error halt

section Sized

variable {s : RingBuffer α}

/-- The indices are below the capacity and the vector has an element for each of them. -/
structure Sized (s : RingBuffer α) : Prop where
  read_lt : s.readIndex < s.capacity
  write_lt : s.writeIndex < s.capacity
  capacity_le : s.capacity ≤ s.buffer.size

theorem performWrite_sized (h : Sized s) (hroom : s.size < s.capacity) (value : α) :
    ∃ s', s.performWrite value = .ok s' ∧ Sized s' := by
  have hslot : s.writeIndex < s.buffer.size := h.write_lt.trans_le h.capacity_le
  have hpos : 0 < s.capacity := (Nat.zero_le _).trans_lt h.write_lt
  let s' : RingBuffer α :=
    { s with
      buffer := s.buffer.set s.writeIndex value
      writeIndex := (s.writeIndex + 1) % s.capacity
      size := s.size + 1 }
  refine ⟨s', ?_, h.read_lt, Nat.mod_lt _ hpos, ?_⟩
  · rw [performWrite, if_neg (not_not.mpr ⟨hroom, h.write_lt⟩), if_neg (not_le.mpr hslot)]
  · simpa [s'] using h.capacity_le

theorem front_sized (h : Sized s) : ∃ value, s.front = .ok value := by
  have hslot : s.readIndex < s.buffer.elements.length := h.read_lt.trans_le h.capacity_le
  refine ⟨s.buffer.elements[s.readIndex], ?_⟩
  rw [front, if_neg (not_not.mpr h.read_lt), List.getElem?_eq_getElem hslot]

theorem performRead_sized (h : Sized s) (hvalue : 0 < s.size) :
    ∃ value s', s.performRead = .ok (value, s') ∧ Sized s' := by
  obtain ⟨value, hfront⟩ := front_sized h
  have hpos : 0 < s.capacity := (Nat.zero_le _).trans_lt h.read_lt
  let s' : RingBuffer α :=
    { s with readIndex := (s.readIndex + 1) % s.capacity, size := s.size - 1 }
  refine ⟨value, s', ?_, Nat.mod_lt _ hpos, h.write_lt, h.capacity_le⟩
  rw [performRead, if_neg (not_not.mpr hvalue), hfront]
  rfl

/-- An operation returns or waits. -/
theorem exec_sized (h : Sized s) (c : ChannelCall α) :
    s.exec c = .error .waits ∨ ∃ r s', s.exec c = .ok (r, s') ∧ Sized s' := by
  have hread : ∀ hempty : ¬(s.poisened || decide (s.size = 0)) = true,
      ∃ value s', s.performRead = .ok (value, s') ∧ Sized s' := fun hempty =>
    performRead_sized h (Nat.pos_of_ne_zero fun hzero => hempty (by simp [hzero]))
  cases c with
  | push value =>
    simp only [exec, push]
    split_ifs with hwaits hended
    · exact .inl rfl
    · exact .inr ⟨false, s, rfl, h⟩
    · have hroom : s.size < s.capacity := by simp_all
      obtain ⟨s', hs', h'⟩ := performWrite_sized h hroom value
      exact .inr ⟨true, s', by rw [hs']; rfl, h'⟩
  | tryPush value =>
    simp only [exec, tryPush]
    split_ifs with hfull
    · exact .inr ⟨false, s, rfl, h⟩
    · have hroom : s.size < s.capacity := by simp_all
      obtain ⟨s', hs', h'⟩ := performWrite_sized h hroom value
      exact .inr ⟨true, s', by rw [hs']; rfl, h'⟩
  | pop =>
    simp only [exec, pop]
    split_ifs with hwaits hempty
    · exact .inl rfl
    · exact .inr ⟨none, s, rfl, h⟩
    · obtain ⟨value, s', hs', h'⟩ := hread hempty
      exact .inr ⟨some value, s', by rw [hs']; rfl, h'⟩
  | tryPop =>
    simp only [exec, tryPop]
    split_ifs with hempty
    · exact .inr ⟨none, s, rfl, h⟩
    · obtain ⟨value, s', hs', h'⟩ := hread hempty
      exact .inr ⟨some value, s', by rw [hs']; rfl, h'⟩
  | tryPopOnTrue predicate =>
    simp only [exec, tryPopOnTrue]
    split_ifs with hempty
    · exact .inr ⟨none, s, rfl, h⟩
    · obtain ⟨front, hfront⟩ := front_sized h
      obtain ⟨value, s', hs', h'⟩ := hread hempty
      rw [hfront]
      cases hpredicate : predicate front with
      | false => exact .inr ⟨none, s, by simp [bind, Except.bind, hpredicate]; rfl, h⟩
      | true =>
        exact .inr ⟨some value, s', by simp [bind, Except.bind, hpredicate, hs']; rfl, h'⟩
  | closeChannel => exact .inr ⟨(), _, rfl, h.read_lt, h.write_lt, h.capacity_le⟩
  | poisenChannel => exact .inr ⟨(), _, rfl, h.read_lt, h.write_lt, h.capacity_le⟩

/-- With an element for every index no run leaves the vector. -/
theorem run_sized (h : Sized s) (calls : List (ChannelCall α)) :
    ∃ s', s.run calls = .ok s' ∧ Sized s' := by
  induction calls generalizing s with
  | nil => exact ⟨s, rfl, h⟩
  | cons c calls ih =>
    rcases exec_sized h c with hwaits | ⟨r, s', hs', h'⟩
    · simpa only [run, hwaits] using ih h
    · simpa only [run, hs'] using ih h'

end Sized

section Reserved

variable {s : RingBuffer α}

/-- Nothing was written to the channel, and the vector has no elements. -/
structure Reserved (s : RingBuffer α) : Prop where
  size_eq : s.size = 0
  write_lt : s.writeIndex < s.capacity
  buffer_eq : s.buffer.size = 0

theorem reserved_coroBoundedChannel {capacity : ℕ} (h : 1 ≤ capacity) :
    Reserved (coroBoundedChannel α capacity) := ⟨rfl, h, rfl⟩

theorem reserved_nonCoroBufferedChannel {capacity : ℕ} (h : 1 ≤ capacity) :
    Reserved (nonCoroBufferedChannel α capacity) := ⟨rfl, h, rfl⟩

/-- Whether the operation writes a value when there is room for it. -/
def pushes : ChannelCall α → Bool
  | .push _ | .tryPush _ => true
  | _ => false

/-- Whether nothing is written after the operation. -/
def ends : ChannelCall α → Bool
  | .closeChannel | .poisenChannel => true
  | _ => false

theorem performWrite_reserved (h : Reserved s) (value : α) :
    s.performWrite value = .error .outOfRange := by
  have hroom : s.size < s.capacity := by
    rw [h.size_eq]
    exact (Nat.zero_le _).trans_lt h.write_lt
  rw [performWrite, if_neg (not_not.mpr ⟨hroom, h.write_lt⟩), if_pos (by rw [h.buffer_eq]; omega)]

/-- An open channel is written to outside the vector. -/
theorem exec_pushes (h : Reserved s) (hopen : (s.closed || s.poisened) = false)
    {c : ChannelCall α} (hc : pushes c = true) : s.exec c = .error .outOfRange := by
  have hpos : 0 < s.capacity := (Nat.zero_le _).trans_lt h.write_lt
  obtain ⟨hclosed, hpoisened⟩ := Bool.or_eq_false_iff.mp hopen
  cases c with
  | push value =>
    have hpush : s.push value = .error .outOfRange := by
      simp [push, hclosed, hpoisened, h.size_eq, hpos, performWrite_reserved h, bind, Except.bind]
    exact hpush
  | tryPush value =>
    have hpush : s.tryPush value = .error .outOfRange := by
      simp [tryPush, hclosed, hpoisened, h.size_eq, hpos.ne', performWrite_reserved h, bind,
        Except.bind]
    exact hpush
  | _ => cases hc

/-- Every other operation leaves the vector alone. -/
theorem exec_of_quiet (h : Reserved s) {c : ChannelCall α}
    (hc : (s.closed || s.poisened) = true ∨ pushes c = false) :
    s.exec c = .error .waits ∧ ends c = false ∨
      ∃ r s', s.exec c = .ok (r, s') ∧ Reserved s' ∧
        (s'.closed || s'.poisened) = (s.closed || s.poisened || ends c) := by
  have hempty : (s.poisened || decide (s.size = 0)) = true := by simp [h.size_eq]
  cases c with
  | push value =>
    have hended := hc.resolve_right (by simp [pushes])
    have hpush : s.push value = .ok (false, s) := by simp [push, hended]
    exact .inr ⟨false, s, hpush, h, by simp [ends]⟩
  | tryPush value =>
    have hended := hc.resolve_right (by simp [pushes])
    have hpush : s.tryPush value = .ok (false, s) := by simp [tryPush, hended]
    exact .inr ⟨false, s, hpush, h, by simp [ends]⟩
  | pop =>
    simp only [exec, pop, if_pos hempty]
    split_ifs
    · exact .inl ⟨rfl, rfl⟩
    · exact .inr ⟨none, s, rfl, h, by simp [ends]⟩
  | tryPop => exact .inr ⟨none, s, if_pos hempty, h, by simp [ends]⟩
  | tryPopOnTrue predicate => exact .inr ⟨none, s, if_pos hempty, h, by simp [ends]⟩
  | closeChannel =>
    exact .inr ⟨(), _, rfl, ⟨h.size_eq, h.write_lt, h.buffer_eq⟩, by simp [ends]⟩
  | poisenChannel =>
    exact .inr ⟨(), _, rfl, ⟨h.size_eq, h.write_lt, h.buffer_eq⟩, by simp [ends]⟩

/-- No operation writes a value: none comes before the channel has been closed or poisoned. -/
def WritesNothing (calls : List (ChannelCall α)) : Prop :=
  ∀ c ∈ calls.takeWhile fun c => !ends c, pushes c = false

theorem writesNothing_cons {c : ChannelCall α} {calls : List (ChannelCall α)} :
    WritesNothing (c :: calls) ↔
      ends c = true ∨ pushes c = false ∧ WritesNothing calls := by
  cases hc : ends c with
  | true => simp [WritesNothing, hc]
  | false => simp [WritesNothing, hc]

theorem run_reserved_iff (h : Reserved s) (calls : List (ChannelCall α)) :
    s.run calls ≠ .error .outOfRange ↔
      (s.closed || s.poisened) = true ∨ WritesNothing calls := by
  induction calls generalizing s with
  | nil => simp [run, WritesNothing]
  | cons c calls ih =>
    rw [writesNothing_cons]
    by_cases hc : (s.closed || s.poisened) = true ∨ pushes c = false
    · rcases exec_of_quiet h hc with ⟨hwaits, hends⟩ | ⟨r, s', hs', h', hended⟩
      · rw [run, hwaits]
        refine (ih h).trans ⟨?_, ?_⟩
        · rintro (hended | hquiet)
          · exact .inl hended
          · exact hc.imp_right fun hpushes => .inr ⟨hpushes, hquiet⟩
        · rintro (hended | hend | ⟨-, hquiet⟩)
          · exact .inl hended
          · rw [hends] at hend
            cases hend
          · exact .inr hquiet
      · rw [run, hs']
        refine (ih h').trans ?_
        rw [hended, Bool.or_eq_true, or_assoc]
        refine or_congr_right' fun hopen => or_congr_right ?_
        exact (and_iff_right (hc.resolve_left hopen)).symm
    · obtain ⟨hopen, hpushes⟩ := not_or.mp hc
      have hends : ends c = false := by cases c <;> simp_all [pushes, ends]
      rw [run, exec_pushes h (by simpa using hopen) (by simpa using hpushes)]
      simp [hopen, hpushes, hends]

/-- For the slots that a new channel accesses to exist, nothing may be written to it. -/
theorem run_new_iff {capacity : ℕ} (hcapacity : 1 ≤ capacity) (calls : List (ChannelCall α)) :
    ((coroBoundedChannel α capacity).run calls ≠ .error .outOfRange ↔ WritesNothing calls) ∧
      ((nonCoroBufferedChannel α capacity).run calls ≠ .error .outOfRange ↔
        WritesNothing calls) := by
  constructor
  · rw [run_reserved_iff (reserved_coroBoundedChannel hcapacity)]
    exact or_iff_right Bool.false_ne_true
  · rw [run_reserved_iff (reserved_nonCoroBufferedChannel hcapacity)]
    exact or_iff_right Bool.false_ne_true

/-- One value for a channel with room for 1000. -/
theorem run_new_push :
    (coroBoundedChannel ℕ 1000).run [.push 7] = .error .outOfRange ∧
      (nonCoroBufferedChannel ℕ 1000).run [.push 7] = .error .outOfRange :=
  ⟨rfl, rfl⟩

theorem run_new_iff_push :
    1 ≤ 1000 ∧
      ((coroBoundedChannel ℕ 1000).run [.closeChannel, .push 7] ≠ .error .outOfRange ↔
        WritesNothing [.closeChannel, .push 7]) ∧
      ((nonCoroBufferedChannel ℕ 1000).run [.closeChannel, .push 7] ≠ .error .outOfRange ↔
        WritesNothing [.closeChannel, .push 7]) :=
  ⟨by decide, run_new_iff (by decide) _⟩

end Reserved

end RingBuffer

end Columbo
