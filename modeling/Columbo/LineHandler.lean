import Columbo.Bytes
import Columbo.Scan

/-!
# The cursor over one line

A line handler sees one line of a larger buffer. The bytes of the line are the
first `size` bytes of `buf`; what lies behind them in memory stays visible,
because the number parsers scan until a byte ends the number and not until the
line ends. All operations move only the reading position.
-/
namespace Columbo

structure LineHandler where
  buf : Bytes
  size : ℕ
  curReadingPos : ℕ
  size_le : size ≤ buf.length

namespace LineHandler

/-- `LineHandler{buf, size}`, for a line that `mem` follows in memory. -/
def ofLine (line mem : Bytes) : LineHandler := ⟨line ++ mem, line.length, 0, by simp⟩

def getRawLine (h : LineHandler) : Bytes := h.buf.take h.size

def resetPos (h : LineHandler) : LineHandler := { h with curReadingPos := 0 }

def curLength (h : LineHandler) : ℕ := h.size - h.curReadingPos

def isEmpty (h : LineHandler) : Bool := h.curLength ≤ 0

/-- Memory from the reading position on: the rest of the line and what follows it. -/
def cursor (h : LineHandler) : Bytes := h.buf.drop h.curReadingPos

/-- The rest of the line. -/
def rest (h : LineHandler) : Bytes := h.cursor.take h.curLength

def advance (h : LineHandler) (steps : ℕ) : LineHandler :=
  { h with curReadingPos := h.curReadingPos + steps }

end LineHandler

abbrev LineScan := Scan LineHandler

open LineHandler

def moveForward (steps : ℕ) : LineScan Unit := fun h =>
  if h.isEmpty || h.curLength < steps then (none, h) else (some (), h.advance steps)

def trimL : LineScan Unit := fun h => (some (), h.advance (h.rest.takeWhile isSpace).length)

def trimTillWhitespace : LineScan Unit := fun h =>
  (some (), h.advance (h.rest.takeWhile fun c => !isSpace c).length)

def extractAndSubstrUntil (predicate : UInt8 → Bool) : LineScan Bytes := fun h =>
  let extracted := h.rest.takeWhile predicate
  (some extracted, h.advance extracted.length)

def extractAndSubstrUntilInto (predicate : UInt8 → Bool) : LineScan Bytes := do
  let target ← extractAndSubstrUntil predicate
  if target.isEmpty then Scan.fail else pure target

def skipTill (predicate : UInt8 → Bool) : LineScan Unit := fun h =>
  let read := (h.rest.takeWhile fun c => !predicate c).length
  if h.isEmpty then (none, h)
  else if h.curReadingPos + read < h.size then (some (), h.advance read)
  else (none, h)

/-- How many bytes agree until the pattern or the text ends or two bytes differ. -/
def matched : Bytes → Bytes → ℕ
  | t :: ts, c :: cs => if t = c then matched ts cs + 1 else 0
  | _, _ => 0

/-- The search loop. After a failed attempt it resumes behind the bytes that
matched, without going back to the byte after the start of the attempt. Every
attempt consumes a byte, so the length of the text is enough fuel. -/
def searchLoop (toConsume : Bytes) : ℕ → Bytes → ℕ → Option ℕ
  | 0, _, _ => none
  | fuel + 1, text, consumed =>
    match toConsume with
    | [] => none
    | t :: _ =>
      let skipped := (text.takeWhile (· ≠ t)).length
      let sub := text.drop skipped
      let m := matched toConsume sub
      if sub = [] then none
      else if m = toConsume.length then some (consumed + skipped + m)
      else if m = sub.length then none
      else searchLoop toConsume fuel (sub.drop m) (consumed + skipped + m)

def consumeAndTrimTillString (toConsume : Bytes) : LineScan Unit := fun h =>
  if h.isEmpty || h.curLength < toConsume.length then (none, h)
  else
    match searchLoop toConsume h.rest.length h.rest 0 with
    | some consumed => (some (), h.advance consumed)
    | none => (none, h)

def consumeAndTrimString (toConsume : Bytes) : LineScan Unit := fun h =>
  if h.isEmpty || h.curLength < toConsume.length then (none, h)
  else if toConsume.isPrefixOf h.rest then (some (), h.advance toConsume.length)
  else (none, h)

def consumeAndTrimChar (toConsume : UInt8) : LineScan Unit := fun h =>
  if h.isEmpty then (none, h)
  else if h.cursor.head? = some toConsume then (some (), h.advance 1)
  else (none, h)

/-- The digit run is looked for in memory, not only in the line. -/
def parseUintTrim (base : ℕ) : LineScan UInt64 := fun h =>
  if h.isEmpty || (base ≠ 10 && base ≠ 16) then (none, h)
  else
    let pred := if base = 10 then isNum else isAlnum
    let length := (h.cursor.takeWhile pred).length
    let num := strtoul base h.cursor
    if length = 0 || h.curReadingPos + length > h.size then (none, h)
    else if num = ULONG_MAX then (none, h)
    else (some num.toUInt64, h.advance length)

def parseInt : LineScan Int32 := fun h =>
  let length := (h.cursor.takeWhile isNum).length
  if h.isEmpty then (none, h)
  else if length = 0 || h.curReadingPos + length > h.size then (none, h)
  else (some (Int32.ofNat (strtol h.cursor)), h.advance length)

def parseBoolFromUint (base : ℕ) : LineScan Bool := do
  let internalTarget ← parseUintTrim base
  pure (internalTarget != 0)

def parseBoolFromStringRepr : LineScan Bool :=
  (do consumeAndTrimString (bytes "true"); pure true).orElse
    (do consumeAndTrimString (bytes "false"); pure false)

def parseBoolFromInt : LineScan Bool := do
  let value ← parseInt
  pure (value != 0)

end Columbo
