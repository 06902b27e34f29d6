import Columbo.ReaderBuffer
import Columbo.SortedMap

/-!
# Symbol tables

`SymsFilter` reads the symbols of an image from a dump and answers for an
address which symbol is there, or which one is the nearest below. A symbol is
the interned text of its name. The addresses are computed in 64 bits.
-/
namespace Columbo

structure SymsFilter where
  symbolFilter : Finset Bytes
  symbolTable : SortedMap ℕ Bytes

namespace SymsFilter

def parseAddress : LineScan UInt64 := do
  trimL
  parseUintTrim 16

def parseName : LineScan Bytes := do
  trimL
  let name ← extractAndSubstrUntil isAlnumDotBar
  if name.isEmpty then Scan.fail else pure name

def addToSymTable (s : SymsFilter) (address : UInt64) (name : Bytes) (addressOffset : UInt64) :
    Bool × SymsFilter :=
  if s.symbolFilter ≠ ∅ ∧ name ∉ s.symbolFilter then (false, s)
  else
    let key := (addressOffset + address).toNat
    ((s.symbolTable.find? key).isNone, { s with symbolTable := s.symbolTable.insert key name })

def filter (s : SymsFilter) (address : UInt64) : Option Bytes := s.symbolTable.find? address.toNat

/-- The result, or none where an iterator is read that stands at the end of the table. -/
def filterNearestAddressUpper (s : SymsFilter) (address : UInt64) : Option (Option Bytes) :=
  let symbolIter := s.symbolTable.upperBound address.toNat
  if symbolIter = 0 then some none
  else (s.symbolTable.deref (symbolIter - 1)).map fun symbol => some symbol.2

/-- The result, or none where an iterator is read that stands at the end of the table. -/
def filterNearestAddressLower (s : SymsFilter) (address : UInt64) : Option (Option Bytes) := do
  let symbolIter := s.symbolTable.lowerBound address.toNat
  let symbol ← s.symbolTable.deref symbolIter
  if symbol.1 = address.toNat then pure (some symbol.2)
  else if address.toNat < symbol.1 then
    if symbolIter = 0 then pure none
    else do
      let symbol ← s.symbolTable.deref (symbolIter - 1)
      pure (some symbol.2)
  else pure none

def skipSymsFlags : LineScan Unit := do
  trimL
  fun h => if h.curLength < 8 then (none, h) else moveForward 7 h

def skipSymsSection : LineScan Unit := do
  trimL
  trimTillWhitespace

def skipSymsAlignment : LineScan Unit := do
  trimL
  trimTillWhitespace

/-- What `LoadSyms` reads from a line, the address and the name of a symbol. -/
def symbolOfLine : LineScan (UInt64 × Bytes) := do
  trimL
  let address ← parseAddress
  skipSymsFlags
  skipSymsSection
  skipSymsAlignment
  let name ← parseName
  pure (address, name)

/-- One round of the loop of `LoadSyms`. A line without a symbol is skipped. -/
def loadLine (s : SymsFilter) (addressOffset : UInt64) (line : LineHandler) : SymsFilter :=
  match (symbolOfLine line).1 with
  | some (address, name) => (s.addToSymTable address name addressOffset).2
  | none => s

/-- The loop of `LoadSyms`. Every round takes a line from the file, so the
length of the file is enough fuel. -/
def loadLoop {B : ℕ} (addressOffset : UInt64) :
    (fuel : ℕ) → SymsFilter → ReaderBuffer B → Option SymsFilter
  | 0, _, _ => none
  | fuel + 1, s, reader => do
    let (still, reader) ← reader.hasStillLine
    if still then
      let (handler, reader) ← reader.nextHandler
      match handler with
      | some line => loadLoop addressOffset fuel (s.loadLine addressOffset line) reader
      | none => pure s
    else pure s

/-- `MultiplePagesBytes(4)`. -/
def blockSize : ℕ := 4 * 4096

def loadSyms (s : SymsFilter) (content : Bytes) (chunks : ℕ → ℕ) (addressOffset : UInt64) :
    Option SymsFilter :=
  loadLoop addressOffset (content.length + 1) s (ReaderBuffer.openFile blockSize content chunks)

end SymsFilter

end Columbo
