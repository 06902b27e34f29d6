import Columbo.FifoQueue
import Mathlib.Data.Nat.ModEq

/-!
# Channels

Both channels keep their size and whether they were closed or poisoned; the bounded one
has a ring buffer, the other one a list. An operation holds the lock of the channel all
the time, apart from waiting for its condition.
-/
namespace Columbo

/-- Why an operation does not return: it waits, or an assertion or access fails. -/
inductive Stop
  | waits
  | fails
  deriving DecidableEq

/-- What the channels share. -/
structure CoroChannel where
  size : Nat := 0
  closed : Bool := false
  poisened : Bool := false

/-- The slots of the buffer; a slot is empty before a value is written to it, and after
its value was moved out of it. -/
structure CoroBoundedChannel (α : Type) (capacity : Nat) extends CoroChannel where
  buffer : Vector (Option α) capacity := Vector.replicate capacity none
  readIndex : Nat := 0
  writeIndex : Nat := 0

namespace CoroBoundedChannel

variable {α : Type} {capacity : Nat}

def performWrite (s : CoroBoundedChannel α capacity) (value : α) :
    Except Stop (CoroBoundedChannel α capacity) :=
  if h : s.size < capacity ∧ s.writeIndex < capacity then
    .ok { s with
      buffer := s.buffer.set s.writeIndex (some value) h.2
      writeIndex := (s.writeIndex + 1) % capacity
      size := s.size + 1 }
  else .error .fails

/-- The value at the read index. -/
def front (s : CoroBoundedChannel α capacity) : Except Stop α :=
  match s.buffer[s.readIndex]? with
  | some (some value) => .ok value
  | _ => .error .fails

def performRead (s : CoroBoundedChannel α capacity) :
    Except Stop (α × CoroBoundedChannel α capacity) :=
  if 0 < s.size then do
    let result ← s.front
    .ok (result, { s with
      buffer := s.buffer.setIfInBounds s.readIndex none
      readIndex := (s.readIndex + 1) % capacity
      size := s.size - 1 })
  else .error .fails

def push (s : CoroBoundedChannel α capacity) (value : α) :
    Except Stop (Bool × CoroBoundedChannel α capacity) :=
  if !(s.closed || s.poisened || s.size < capacity) then .error .waits
  else if s.closed || s.poisened then .ok (false, s)
  else do
    let s ← s.performWrite value
    .ok (true, s)

def tryPush (s : CoroBoundedChannel α capacity) (value : α) :
    Except Stop (Bool × CoroBoundedChannel α capacity) :=
  if s.closed || s.poisened || s.size ≥ capacity then .ok (false, s)
  else do
    let s ← s.performWrite value
    .ok (true, s)

def pop (s : CoroBoundedChannel α capacity) :
    Except Stop (Option α × CoroBoundedChannel α capacity) :=
  if !(s.poisened || s.closed || s.size > 0) then .error .waits
  else if s.poisened then .ok (none, s)
  else if s.size = 0 then .ok (none, s)
  else do
    let (result, s) ← s.performRead
    .ok (some result, s)

def tryPop (s : CoroBoundedChannel α capacity) :
    Except Stop (Option α × CoroBoundedChannel α capacity) :=
  if s.poisened then .ok (none, s)
  else if s.size = 0 then .ok (none, s)
  else do
    let (result, s) ← s.performRead
    .ok (some result, s)

def tryPopOnTrue (s : CoroBoundedChannel α capacity) (predicate : α → Bool) :
    Except Stop (Option α × CoroBoundedChannel α capacity) :=
  if s.poisened || s.size = 0 then .ok (none, s)
  else do
    let value ← s.front
    if !predicate value then .ok (none, s)
    else do
      let (result, s) ← s.performRead
      .ok (some result, s)

/-- One operation. -/
def exec (s : CoroBoundedChannel α capacity) :
    (c : ChannelCall α) → Except Stop (c.Response × CoroBoundedChannel α capacity)
  | .push value => s.push value
  | .tryPush value => s.tryPush value
  | .pop => s.pop
  | .tryPop => s.tryPop
  | .tryPopOnTrue predicate => s.tryPopOnTrue predicate
  | .closeChannel => .ok ((), { s with closed := true })
  | .poisenChannel => .ok ((), { s with poisened := true })

end CoroBoundedChannel

structure CoroUnBoundedChannel (α : Type) extends CoroChannel where
  buffer : List α := []

namespace CoroUnBoundedChannel

variable {α : Type}

def push (s : CoroUnBoundedChannel α) (value : α) : Except Stop (Bool × CoroUnBoundedChannel α) :=
  if s.closed || s.poisened then .ok (false, s)
  else .ok (true, { s with buffer := s.buffer ++ [value], size := s.size + 1 })

def tryPush (s : CoroUnBoundedChannel α) (value : α) :
    Except Stop (Bool × CoroUnBoundedChannel α) := s.push value

/-- `buffer_.front()`. -/
def front (s : CoroUnBoundedChannel α) : Except Stop α :=
  match s.buffer with
  | [] => .error .fails
  | value :: _ => .ok value

/-- `buffer_.pop_front()`, and one value less. -/
def popFront (s : CoroUnBoundedChannel α) : CoroUnBoundedChannel α :=
  { s with buffer := s.buffer.tail, size := s.size - 1 }

def pop (s : CoroUnBoundedChannel α) : Except Stop (Option α × CoroUnBoundedChannel α) :=
  if !(s.poisened || s.closed || s.size > 0) then .error .waits
  else if s.poisened then .ok (none, s)
  else if s.size = 0 then .ok (none, s)
  else do
    let result ← s.front
    .ok (some result, s.popFront)

def tryPop (s : CoroUnBoundedChannel α) : Except Stop (Option α × CoroUnBoundedChannel α) :=
  if s.poisened || s.size = 0 then .ok (none, s)
  else do
    let result ← s.front
    .ok (some result, s.popFront)

def tryPopOnTrue (s : CoroUnBoundedChannel α) (predicate : α → Bool) :
    Except Stop (Option α × CoroUnBoundedChannel α) :=
  if s.poisened || s.size = 0 then .ok (none, s)
  else do
    let result ← s.front
    if !predicate result then .ok (none, s)
    else .ok (some result, s.popFront)

/-- One operation. -/
def exec (s : CoroUnBoundedChannel α) :
    (c : ChannelCall α) → Except Stop (c.Response × CoroUnBoundedChannel α)
  | .push value => s.push value
  | .tryPush value => s.tryPush value
  | .pop => s.pop
  | .tryPop => s.tryPop
  | .tryPopOnTrue predicate => s.tryPopOnTrue predicate
  | .closeChannel => .ok ((), { s with closed := true })
  | .poisenChannel => .ok ((), { s with poisened := true })

end CoroUnBoundedChannel

end Columbo
