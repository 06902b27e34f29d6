import Columbo.LogParser
import Columbo.SymsFilter

/-!
# The parser of gem5 logs

A line is taken apart behind the name of its component. The cascades of the
parser consume what they recognize, so that a failed alternative is followed by
the next one where it stopped, and not where it began.
-/
namespace Columbo

open LogParser

/-- `ComponentFilter::filter`. Without components every one passes. -/
def ComponentFilter.filter (componentTable : Finset Bytes) (comp : Bytes) : Bool :=
  componentTable = ∅ ∨ comp ∈ componentTable

/-- `TraceEnvironment::SymtableFilter`: the symbol at an address and the component of
the first table that has one. -/
def TraceEnvironment.symtableFilter (symbolTables : List (SymsFilter × Bytes)) (address : UInt64) :
    Option (Bytes × Bytes) :=
  symbolTables.findSome? fun symt => (symt.1.filter address).map fun symbol => (symbol, symt.2)

structure Gem5Parser extends LogParser where
  componentTable : Finset Bytes
  symbolTables : List (SymsFilter × Bytes)

namespace Gem5Parser

/-- The second operand of a condition, a component that passes the filter. -/
def filtered (parser : Gem5Parser) (comp : String) : LineScan Unit :=
  if ComponentFilter.filter parser.componentTable (bytes comp) then pure () else Scan.fail

def parseGlobalEvent : LineScan EventKind := do
  consumeAndTrimTillString (bytes "simbricks:")
  trimL
  .branch (consumeAndTrimString (bytes "processInEvent")) (pure .simProcInEvent) <|
    .branch (consumeAndTrimString (bytes "sending sync message")) (pure .simSendSync)
    Scan.fail

/-- An instruction, or a call where there is a symbol at the address. -/
def parseInstruction (parser : Gem5Parser) (addr : UInt64) : LineScan EventKind :=
  .branch (consumeAndTrimChar (byte '.')) (pure (.hostInstr addr)) <|
    match TraceEnvironment.symtableFilter parser.symbolTables addr with
    | some (symS, comp) => pure (.hostCall addr (some symS) (some comp))
    | none => Scan.fail

def parseSystemSwitchCpus (parser : Gem5Parser) : LineScan EventKind := do
  consumeAndTrimTillString (bytes "0x")
  let addr ← parseUintTrim 16
  trimL
  .branch (consumeAndTrimChar (byte ':'))
    (do
      trimL
      .branch (consumeAndTrimString (bytes "NOP")) Scan.fail <|
        .branch (consumeAndTrimString (bytes "MFENCE")) Scan.fail <|
        .branch (consumeAndTrimString (bytes "LFENCE")) Scan.fail
        (parser.parseInstruction addr))
    (parser.parseInstruction addr)

def parsePciRW (isRead : Bool) : LineScan EventKind := do
  let offset ← parseUintTrim 16
  consumeAndTrimString (bytes ", size=0x")
  let size ← parseUintTrim 16
  pure (.hostPciRW offset size isRead)

def parseSystemPcPciHost : LineScan EventKind :=
  .branch (consumeAndTrimTillString (bytes "read: offset=0x")) (parsePciRW true) <|
  .branch (consumeAndTrimTillString (bytes "write: offset=0x")) (parsePciRW false)
  Scan.fail

def parseSystemPcPciHostInterface : LineScan EventKind := do
  skipTill isSpace
  trimL
  .branch (consumeAndTrimString (bytes "clearInt")) (pure .hostClearInt) <|
    .branch (consumeAndTrimString (bytes "postInt")) (pure .hostPostInt)
    Scan.fail

/-- The data of a configuration access, in base sixteen or a single zero. -/
def parseConfData : LineScan UInt64 :=
  (do
    consumeAndTrimString (bytes "0x")
    parseUintTrim 16 : LineScan UInt64).orElse
  (do
    consumeAndTrimChar (byte '0')
    pure 0)

def parseConf (isReadConf : Bool) : LineScan EventKind := do
  trimL
  consumeAndTrimString (bytes "dev ")
  let dev ← parseUintTrim 10
  consumeAndTrimString (bytes " func ")
  let func ← parseUintTrim 10
  consumeAndTrimString (bytes " reg 0x")
  let reg ← parseUintTrim 16
  consumeAndTrimChar (byte ' ')
  let numBytes ← parseUintTrim 10
  consumeAndTrimString (bytes " bytes: data = ")
  let data ← parseConfData
  pure (.hostConf dev func reg numBytes data isReadConf)

def parseCompletion (word : String) (mk : UInt64 → EventKind) : LineScan EventKind := do
  consumeAndTrimString (bytes word)
  consumeAndTrimString (bytes "completion id ")
  let id ← parseUintTrim 10
  pure (mk id)

def parseDma (word : String) (mk : UInt64 → UInt64 → UInt64 → EventKind) : LineScan EventKind := do
  consumeAndTrimString (bytes word)
  let id ← parseUintTrim 10
  consumeAndTrimString (bytes " addr ")
  let addr ← parseUintTrim 16
  consumeAndTrimString (bytes " size ")
  let size ← parseUintTrim 10
  pure (mk id addr size)

def parseMsiX : LineScan EventKind := do
  consumeAndTrimTillString (bytes "MSI-X intr vec ")
  let vec ← parseUintTrim 10
  pure (.hostMsiX vec)

def parseReceived : LineScan EventKind :=
  (parseCompletion "write " .hostMmioCW).orElse <|
  (parseCompletion "read " .hostMmioCR).orElse <|
  .branch (consumeAndTrimString (bytes "DMA "))
    ((parseDma "write id " .hostDmaW).orElse (parseDma "read id " .hostDmaR))
  parseMsiX

def parseMmio (isRead : Bool) : LineScan EventKind := do
  let addr ← parseUintTrim 16
  consumeAndTrimString (bytes " size ")
  let size ← parseUintTrim 10
  consumeAndTrimString (bytes " id ")
  let id ← parseUintTrim 10
  consumeAndTrimString (bytes " bar ")
  let bar ← parseInt
  consumeAndTrimString (bytes " offs ")
  let offset ← parseUintTrim 16
  if isRead then pure (.hostMmioR id addr size bar offset)
  else
    consumeAndTrimString (bytes " posted ")
    let posted ← parseBoolFromInt
    pure (.hostMmioW id addr size bar offset posted)

def parseSending : LineScan EventKind :=
  .branch (consumeAndTrimString (bytes "read addr ")) (parseMmio true) <|
  .branch (consumeAndTrimString (bytes "write addr ")) (parseMmio false) <|
  .branch (consumeAndTrimString (bytes "immediate response for posted write"))
    (pure .hostMmioImRespPoW)
  Scan.fail

def parseCompletedDma : LineScan EventKind := do
  consumeAndTrimString (bytes "completed DMA id ")
  let id ← parseUintTrim 10
  pure (.hostDmaC id)

def parseSimbricksPci : LineScan EventKind := do
  trimL
  .branch (consumeAndTrimString (bytes "received ")) parseReceived <|
    .branch (consumeAndTrimString (bytes "sending ")) parseSending
    parseCompletedDma

def parseSystemPcSimbricks : LineScan EventKind := do
  skipTill isSpace
  trimL
  .branch (consumeAndTrimString (bytes "readConfig:")) (parseConf true) <|
    .branch (consumeAndTrimString (bytes "writeConfig:")) (parseConf false) <|
    .branch (consumeAndTrimString (bytes "simbricks-pci:")) parseSimbricksPci
    Scan.fail

def parseSystemPc (parser : Gem5Parser) : LineScan EventKind :=
  .branch (consumeAndTrimString (bytes ".pci_host"))
    (.branch
      (do
        consumeAndTrimString (bytes ".interface")
        parser.filtered "system.pc.pci_host.interface")
      parseSystemPcPciHostInterface
      (do
        parser.filtered "system.pc.pci_host"
        parseSystemPcPciHost)) <|
  .branch
    (do
      consumeAndTrimString (bytes ".simbricks")
      parser.filtered "system.pc.simbricks")
    parseSystemPcSimbricks
    Scan.fail

/-- The choice by the component. -/
def parseKind (parser : Gem5Parser) : LineScan EventKind :=
  .branch
    (do
      consumeAndTrimString (bytes "global:")
      parser.filtered "global")
    parseGlobalEvent <|
  .branch
    (do
      consumeAndTrimString (bytes "system.switch_cpus:")
      parser.filtered "system.switch_cpus")
    parser.parseSystemSwitchCpus <|
  .branch (consumeAndTrimString (bytes "system.pc")) parser.parseSystemPc
  Scan.fail

/-- `ParseEvent`. -/
def parseEvent (parser : Gem5Parser) : LineScan Event := fun h =>
  if h.isEmpty then (none, h)
  else
    (do
      let timestamp ← parseTimestamp
      consumeAndTrimChar (byte ':')
      trimL
      let kind ← parser.parseKind
      pure (parser.event timestamp kind) : LineScan Event) h

end Gem5Parser

end Columbo
