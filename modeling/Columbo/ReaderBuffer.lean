import Columbo.LineHandler
import Mathlib.Data.Vector.Basic

/-!
# The reader buffer

`ReaderBuffer<BlockSize>` over a file that is read with `read(2)`. The file
decides how many bytes each call returns. Operations that would index outside
the buffer, let a `size_t` underflow or fail an assertion have no result. The
file stays openable and no call fails, and the end-of-file flag of the stream
stays clear because no bytes are read through the stream.
-/
namespace Columbo

/-- What is left of a file, and how many bytes the next calls of `read` would like to return. -/
structure File where
  unread : Bytes
  chunks : ℕ → ℕ

/-- `read(2)`: at least one byte and at most `amount` while there are bytes left. -/
def File.read (file : File) (amount : ℕ) : Bytes × File :=
  let actuallyRead := min (max (file.chunks 0) 1) (min amount file.unread.length)
  (file.unread.take actuallyRead, ⟨file.unread.drop actuallyRead, fun i => file.chunks (i + 1)⟩)

/-- `std::feof`. -/
def feof : Bool := false

structure ReaderBuffer (BlockSize : ℕ) where
  buffer : List.Vector UInt8 BlockSize
  curReadingPos : ℕ
  size : ℕ
  nextLineEnd : ℕ
  reachedEof : ℕ
  file : File

namespace ReaderBuffer

variable {B : ℕ}

/-- The buffer after `OpenFile`. -/
def openFile (B : ℕ) (content : Bytes) (chunks : ℕ → ℕ) : ReaderBuffer B :=
  ⟨List.Vector.replicate B 0, 0, 0, 0, 0, ⟨content, chunks⟩⟩

/-- `memmove(buffer, buffer + src, len)`. -/
def memmove (buffer : List.Vector UInt8 B) (src len : ℕ) : Option (List.Vector UInt8 B) :=
  if h : src + len ≤ B then
    some ⟨(buffer.toList.drop src).take len ++ buffer.toList.drop len, by
      simp only [List.length_append, List.length_take, List.length_drop, List.Vector.toList_length]
      omega⟩
  else none

/-- Bytes written behind the first `off` bytes of the buffer. -/
def fill (buffer : List.Vector UInt8 B) (off : ℕ) (data : Bytes) : Option (List.Vector UInt8 B) :=
  if h : off + data.length ≤ B then
    some ⟨buffer.toList.take off ++ data ++ buffer.toList.drop (off + data.length), by
      simp only [List.length_append, List.length_take, List.length_drop, List.Vector.toList_length]
      omega⟩
  else none

/-- The loop of `FindLineEnd` over the next `left` bytes. It returns where the
line ends and moves the reading position over the newlines it stands at. -/
def findLoop (buffer : Bytes) : (left start cur : ℕ) → Option (ℤ × ℕ)
  | 0, _, cur => some (-1, cur)
  | left + 1, start, cur =>
    match buffer[start]? with
    | none => none
    | some c =>
      if c = kLineEnd then
        if start = cur then findLoop buffer left (start + 1) (cur + 1) else some (start, cur)
      else findLoop buffer left (start + 1) cur

def findLineEnd (start stop : ℕ) (s : ReaderBuffer B) : Option (ℤ × ReaderBuffer B) := do
  let (pos, cur) ← findLoop s.buffer.toList (stop - start) start s.curReadingPos
  pure (pos, { s with curReadingPos := cur })

/-- The `do` loop of `NextBlock`. Every further round has read a byte, so one
more round than the amount to read is enough fuel. -/
def readLoop : (fuel amountToRead : ℕ) → ReaderBuffer B → Option (ReaderBuffer B)
  | 0, _, _ => none
  | fuel + 1, amountToRead, s => do
    let (data, file) := s.file.read amountToRead
    let buffer ← fill s.buffer s.size data
    let s : ReaderBuffer B :=
      { s with buffer := buffer, file := file, size := s.size + data.length
               curReadingPos := 0, nextLineEnd := 0 }
    let (pos, s) ← findLineEnd 0 s.size s
    if pos < 0 ∧ 0 < amountToRead - data.length ∧ 0 < data.length then
      readLoop fuel (amountToRead - data.length) s
    else pure s

/-- The bytes from the reading position on, moved to the front of the buffer. -/
def moveRest (s : ReaderBuffer B) : Option (List.Vector UInt8 B) :=
  if s.curReadingPos ≠ s.size then memmove s.buffer s.curReadingPos (s.size - s.curReadingPos)
  else some s.buffer

def nextBlock (s : ReaderBuffer B) : Option (ReaderBuffer B) :=
  if 2 ≤ s.reachedEof then some s
  else if s.size < s.curReadingPos then none
  else do
    let buffer ← moveRest s
    let size := s.size - s.curReadingPos
    if B < size then none
    else do
      let amountToRead := B - size
      let s ← readLoop (amountToRead + 1) amountToRead { s with buffer := buffer, size := size }
      if s.size ≤ B then some { s with curReadingPos := 0, nextLineEnd := 0 } else none

def calculateNextLineEnd (s : ReaderBuffer B) : Option (ReaderBuffer B) :=
  if 0 < s.nextLineEnd then some s
  else do
    let (tmp, s) ← findLineEnd s.curReadingPos s.size s
    if 0 < tmp then pure { s with nextLineEnd := tmp.toNat }
    else if feof then pure { s with nextLineEnd := s.size, reachedEof := s.reachedEof + 1 }
    else pure { s with nextLineEnd := 0 }

def hasStillLineEnd (s : ReaderBuffer B) : Option (Bool × ReaderBuffer B) := do
  let s ← calculateNextLineEnd s
  pure (s.reachedEof < 2 && 0 < s.size && s.curReadingPos < s.size && 0 < s.nextLineEnd &&
    s.curReadingPos < s.nextLineEnd, s)

/-- The loop of `HasStillLine` over the newlines at the reading position. It
moves the reading position in every round. -/
def skipLoop : (fuel : ℕ) → ReaderBuffer B → Option (Bool × ReaderBuffer B)
  | 0, _ => none
  | fuel + 1, s =>
    if s.curReadingPos < s.size then
      match s.buffer.toList[s.curReadingPos]? with
      | none => none
      | some c =>
        if c = kLineEnd then do
          let (found, s) ← hasStillLineEnd { s with curReadingPos := s.curReadingPos + 1 }
          if found then pure (true, s) else skipLoop fuel s
        else some (false, s)
    else some (false, s)

def hasStillLine (s : ReaderBuffer B) : Option (Bool × ReaderBuffer B) := do
  let (found, s) ← skipLoop (s.size - s.curReadingPos + 1) s
  if found then pure (true, s)
  else do
    let (found, s) ← hasStillLineEnd s
    if found then pure (true, s)
    else do
      let s ← nextBlock s
      hasStillLineEnd s

/-- The line handler that `NextHandler` resets to a line in the buffer, with
the part of the buffer from the line on. -/
def nextHandler (s : ReaderBuffer B) : Option (Option LineHandler × ReaderBuffer B) := do
  let (found, s) ← hasStillLine s
  if found then
    if h : s.curReadingPos ≤ s.nextLineEnd ∧ s.nextLineEnd ≤ B then
      let handler : LineHandler :=
        { buf := s.buffer.toList.drop s.curReadingPos
          size := s.nextLineEnd - s.curReadingPos
          curReadingPos := 0
          size_le := by simp only [List.length_drop, List.Vector.toList_length]; omega }
      pure (some handler, { s with curReadingPos := s.nextLineEnd + 1, nextLineEnd := 0 })
    else none
  else pure (none, s)

/-- The lines that a reader gets until the first call without one. -/
def readAll : (fuel : ℕ) → ReaderBuffer B → Option (List Bytes)
  | 0, _ => none
  | fuel + 1, s => do
    let (handler, s) ← nextHandler s
    match handler with
    | none => pure []
    | some handler => do
      let others ← readAll fuel s
      pure (handler.getRawLine :: others)

/-- All lines of a file; every line takes at least two bytes of the content. -/
def deliver (B : ℕ) (content : Bytes) (chunks : ℕ → ℕ) : Option (List Bytes) :=
  readAll (content.length + 1) (openFile B content chunks)

end ReaderBuffer

end Columbo
