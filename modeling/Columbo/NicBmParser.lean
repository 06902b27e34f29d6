import Columbo.LogParser

/-!
# The parser of nicbm logs

A line is recognized by a chain of searches for the words of a kind of line, each
of which goes through the whole rest of the line.
-/
namespace Columbo

open LogParser

namespace NicBmParser

def parseOffLenValComma : LineScan (UInt64 × UInt64 × UInt64) := do
  consumeAndTrimTillString (bytes "off=0x")
  let off ← parseAddress
  consumeAndTrimTillString (bytes "len=")
  let len ← parseUintTrim 10
  consumeAndTrimTillString (bytes "val=0x")
  let val ← parseAddress
  pure (off, len, val)

def parseOpAddrLen : LineScan (UInt64 × UInt64 × UInt64) := do
  consumeAndTrimTillString (bytes "op 0x")
  let op ← parseAddress
  consumeAndTrimTillString (bytes "addr ")
  let addr ← parseAddress
  consumeAndTrimTillString (bytes "len ")
  let len ← parseUintTrim 10
  pure (op, addr, len)

/-- The number of pending operations is parsed and not used. -/
def parseOpAddrLenPending (withPending : Bool) : LineScan (UInt64 × UInt64 × UInt64) := do
  let (op, addr, len) ← parseOpAddrLen
  if withPending then
    consumeAndTrimTillString (bytes "pending ")
    let _ ← parseUintTrim 10
    pure (op, addr, len)
  else pure (op, addr, len)

def parseRead : LineScan EventKind := do
  let (off, len, val) ← parseOffLenValComma
  pure (.nicMmioR off len val)

def parseWrite : LineScan EventKind := do
  let (off, len, val) ← parseOffLenValComma
  consumeAndTrimTillString (bytes "posted=")
  let posted ← parseBoolFromUint 10
  pure (.nicMmioW off len val posted)

def parseDma (mk : UInt64 → UInt64 → UInt64 → EventKind) (withPending : Bool) :
    LineScan EventKind := do
  let (op, addr, len) ← parseOpAddrLenPending withPending
  pure (mk op addr len)

def parseCompleted : LineScan EventKind :=
  .branch (consumeAndTrimTillString (bytes "read")) (parseDma .nicDmaCR false) <|
  .branch (consumeAndTrimTillString (bytes "write")) (parseDma .nicDmaCW false)
  Scan.fail

/-- The vector is parsed as a number of 64 bits; the event keeps 16 of them. -/
def parseVec (isX : Bool) : LineScan EventKind := do
  let vec ← parseUintTrim 10
  pure (.nicMsix vec.toUInt16 isX)

def parseMsi : LineScan EventKind :=
  .branch (consumeAndTrimTillString (bytes "-X interrupt vec ")) (parseVec true) <|
  .branch (consumeAndTrimTillString (bytes "interrupt vec ")) (parseVec false)
  Scan.fail

def parseTx : LineScan EventKind := do
  let len ← parseUintTrim 10
  pure (.nicTx len)

def parseRx : LineScan EventKind := do
  let port ← parseInt
  consumeAndTrimTillString (bytes "len ")
  let len ← parseUintTrim 10
  pure (.nicRx port len)

def parseEth : LineScan EventKind :=
  .branch (consumeAndTrimTillString (bytes "tx: len ")) parseTx <|
  .branch (consumeAndTrimTillString (bytes "rx: port ")) parseRx
  Scan.fail

def parseSetIX : LineScan EventKind := do
  let addr ← parseAddress
  pure (.setIX addr)

/-- The cascade behind the name of the simulator. Data that a DMA operation writes
is ignored. -/
def parseKind : LineScan EventKind :=
  .branch (consumeAndTrimTillString (bytes "sending sync message")) (pure .simSendSync) <|
  .branch (consumeAndTrimTillString (bytes "read(")) parseRead <|
  .branch (consumeAndTrimTillString (bytes "write(")) parseWrite <|
  .branch (consumeAndTrimTillString (bytes "issuing dma")) (parseDma .nicDmaI true) <|
  .branch (consumeAndTrimTillString (bytes "executing dma")) (parseDma .nicDmaEx true) <|
  .branch (consumeAndTrimTillString (bytes "enqueuing dma")) (parseDma .nicDmaEn true) <|
  .branch (consumeAndTrimTillString (bytes "completed dma")) parseCompleted <|
  .branch (consumeAndTrimTillString (bytes "issue MSI")) parseMsi <|
  .branch (consumeAndTrimTillString (bytes "eth")) parseEth <|
  .branch (consumeAndTrimTillString (bytes "set intx interrupt")) parseSetIX <|
  .branch (consumeAndTrimTillString (bytes "dma write data")) Scan.fail
  Scan.fail

/-- `ParseEvent`. -/
def parseEvent (parser : LogParser) : LineScan Event := fun h =>
  if h.isEmpty then (none, h)
  else
    (do
      trimL
      consumeAndTrimTillString (bytes "main_time")
      consumeAndTrimString (bytes " = ")
      let timestamp ← parseTimestamp
      consumeAndTrimTillString (bytes "nicbm")
      let kind ← parseKind
      pure (parser.event timestamp kind) : LineScan Event) h

end NicBmParser

end Columbo
