import Columbo.Events
import Columbo.LineHandler

/-!
# The event stream parser

`EventStreamParser::ParseEvent` and the parsers it uses for addresses and
headers. A step that returns `nullptr` is a failed scan. Interning a string
keeps its content, so interned strings are their content here.
-/
namespace Columbo

/-- `ConsumeAndTrimString` and `ParseUintTrim`, in sequence. -/
def uintField (name : String) (base : ℕ) : LineScan UInt64 := do
  consumeAndTrimString (bytes name)
  parseUintTrim base

/-- `ConsumeAndTrimString` and `ParseInt`, in sequence. -/
def intField (name : String) : LineScan Int32 := do
  consumeAndTrimString (bytes name)
  parseInt

/-- `ConsumeAndTrimString` and `ParseBoolFromStringRepr`, in sequence. -/
def boolField (name : String) : LineScan Bool := do
  consumeAndTrimString (bytes name)
  parseBoolFromStringRepr

/-- `ConsumeAndTrimString` and `ExtractAndSubstrUntilInto`, in sequence. -/
def textField (name : String) (predicate : UInt8 → Bool) : LineScan Bytes := do
  consumeAndTrimString (bytes name)
  extractAndSubstrUntilInto predicate

/-- The bytes of a MAC address that are left to parse: a colon follows each of
them but the last. -/
def parseMacBytes : (left : ℕ) → LineScan (List.Vector UInt8 left)
  | 0 => pure .nil
  | left + 1 => do
    let byteBuf ← parseUintTrim 16
    if left ≠ 0 then consumeAndTrimChar (byte ':')
    let others ← parseMacBytes left
    pure (byteBuf.toUInt8 ::ᵥ others)

def parseMacAddress : LineScan MacAddress := do
  trimL
  parseMacBytes kMacSize

def parseOctet : LineScan UInt64 := do
  let octet ← parseUintTrim 10
  if octet > 255 then Scan.fail else pure octet

def parseIpAddress : LineScan Ipv4 := do
  let octet0 ← parseOctet
  consumeAndTrimChar (byte '.')
  let octet1 ← parseOctet
  consumeAndTrimChar (byte '.')
  let octet2 ← parseOctet
  consumeAndTrimChar (byte '.')
  let octet3 ← parseOctet
  pure ⟨((octet0 <<< 24) + (octet1 <<< 16) + (octet2 <<< 8) + octet3).toUInt32⟩

def parseEthernetHeader : LineScan EthernetHeader := do
  consumeAndTrimTillString (bytes "EthernetHeader")
  consumeAndTrimTillString (bytes "length/type=0x")
  let lengthType ← parseUintTrim 16
  consumeAndTrimTillString (bytes "source=")
  let srcMac ← parseMacAddress
  consumeAndTrimTillString (bytes "destination=")
  let dstMac ← parseMacAddress
  pure ⟨lengthType, srcMac, dstMac⟩

def parseArpHeader : LineScan ArpHeader := do
  consumeAndTrimTillString (bytes "ns3::ArpHeader")
  let isRequest ← (do consumeAndTrimTillString (bytes "request"); pure true : LineScan Bool).orElse
    (do consumeAndTrimTillString (bytes "reply"); pure false)
  consumeAndTrimTillString (bytes " source ipv4: ")
  let srcIp ← parseIpAddress
  consumeAndTrimTillString (bytes " dest ipv4: ")
  let dstIp ← parseIpAddress
  pure ⟨srcIp, dstIp, isRequest⟩

def parseIpHeader : LineScan Ipv4Header := do
  consumeAndTrimTillString (bytes "Ipv4Header")
  consumeAndTrimTillString (bytes "length: ")
  let length ← parseUintTrim 10
  trimL
  let srcIp ← parseIpAddress
  trimL
  consumeAndTrimChar (byte '>')
  trimL
  let dstIp ← parseIpAddress
  pure ⟨length, srcIp, dstIp⟩

/-- The three `TryParse` functions trim, and return no header when a step of
theirs fails; the cursor stays where that step left it. -/
def tryParseHeader {α : Type} (parse : LineScan α) : LineScan (Option α) := do
  trimL
  parse.optional

def tryParseEthernetHeader : LineScan (Option EthernetHeader) := tryParseHeader parseEthernetHeader

def tryParseArpHeader : LineScan (Option ArpHeader) := tryParseHeader parseArpHeader

def tryParseIpHeader : LineScan (Option Ipv4Header) := tryParseHeader parseIpHeader

def deviceTypeOf (deviceName : Bytes) : LineScan NetworkDeviceType :=
  if deviceName = bytes "ns3::CosimNetDevice" then pure .kCosimNetDevice
  else if deviceName = bytes "ns3::SimpleNetDevice" then pure .kSimpleNetDevice
  else Scan.fail

def boundaryTypeOf (boundaryTypeStr : Bytes) : LineScan EventBoundaryType :=
  if boundaryTypeStr = bytes "kToAdapter" then pure .kToAdapter
  else if boundaryTypeStr = bytes "kFromAdapter" then pure .kFromAdapter
  else if boundaryTypeStr = bytes "kWithinSimulator" then pure .kWithinSimulator
  else Scan.fail

def isDeviceName (c : UInt8) : Bool := isAlnum c || c == byte ':'

/-- The end of `ParseNetworkEvent`: the headers, each of which may be missing. -/
def parseHeaders : LineScan (Option EthernetHeader × Option ArpHeader × Option Ipv4Header) := do
  trimL
  let ethH ← tryParseEthernetHeader
  trimL
  let arpH ← tryParseArpHeader
  trimL
  let ipH ← tryParseIpHeader
  pure (ethH, arpH, ipH)

/-- `ParseNetworkEvent` up to the choice of the class by the event type. -/
def parseNetworkEvent : LineScan NetworkEvent := do
  let node ← intField ", node="
  let device ← intField ", device="
  let deviceName ← textField ", device_name=" isDeviceName
  consumeAndTrimTillString (bytes "packet-uid=")
  let packetUid ← parseUintTrim 10
  consumeAndTrimTillString (bytes "interesting=")
  let interesting ← parseBoolFromStringRepr
  let payloadSize ← uintField ", payload_size=" 10
  let boundaryTypeStr ← textField ", boundary_type=" isAlnum
  let deviceType ← deviceTypeOf deviceName
  let boundaryType ← boundaryTypeOf boundaryTypeStr
  let (ethH, arpH, ipH) ← parseHeaders
  pure ⟨node, device, deviceType, packetUid, interesting, payloadSize, boundaryType, ethH, arpH, ipH⟩

def isSourceName (c : UInt8) : Bool := isAlnum c || c == byte '-'

def parseIdentNameTs : LineScan (UInt64 × Bytes × UInt64) := do
  let parserIdent ← uintField ": source_id=" 10
  let parserName ← textField ", source_name=" isSourceName
  let ts ← uintField ", timestamp=" 10
  pure (parserIdent, parserName, ts)

def parseHostInstr : LineScan EventKind := do
  let pc ← uintField ", pc=" 16
  pure (.hostInstr pc)

def parseHostCall : LineScan EventKind := do
  let pc ← uintField ", pc=" 16
  let function ← textField ", func=" isAlnumDotBar
  let component ← textField ", comp=" isAlnumDotBar
  pure (.hostCall pc (some function) (some component))

/-- `HostMmioCR`, `HostMmioCW` and `HostDmaC` have an identifier only. -/
def parseHostIdOp (mk : UInt64 → EventKind) : LineScan EventKind := do
  let id ← uintField ", id=" 10
  pure (mk id)

def parseHostAddrSizeOp : LineScan (UInt64 × UInt64 × UInt64) := do
  let id ← uintField ", id=" 10
  let addr ← uintField ", addr=" 16
  let size ← uintField ", size=" 16
  pure (id, addr, size)

def parseHostDma (mk : UInt64 → UInt64 → UInt64 → EventKind) : LineScan EventKind := do
  let (id, addr, size) ← parseHostAddrSizeOp
  pure (mk id addr size)

def parseHostMmioR : LineScan EventKind := do
  let (id, addr, size) ← parseHostAddrSizeOp
  let bar ← intField ", bar="
  let offset ← uintField ", offset=" 16
  pure (.hostMmioR id addr size bar offset)

def parseHostMmioW : LineScan EventKind := do
  let (id, addr, size) ← parseHostAddrSizeOp
  let bar ← intField ", bar="
  let offset ← uintField ", offset=" 16
  let posted ← boolField ", posted="
  pure (.hostMmioW id addr size bar offset posted)

def parseHostMsiX : LineScan EventKind := do
  let vec ← uintField ", vec=" 10
  pure (.hostMsiX vec)

def parseHostConf (isRead : Bool) : LineScan EventKind := do
  let dev ← uintField ", dev=" 16
  let func ← uintField ", func=" 16
  let reg ← uintField ", reg=" 16
  let bytes ← uintField ", bytes=" 10
  let data ← uintField ", data=" 16
  pure (.hostConf dev func reg bytes data isRead)

def parseHostPciRW (isRead : Bool) : LineScan EventKind := do
  let offset ← uintField ", offset=" 16
  let size ← uintField ", size=" 10
  pure (.hostPciRW offset size isRead)

def parseNicMsix (isX : Bool) : LineScan EventKind := do
  let vec ← uintField ", vec=" 10
  pure (.nicMsix vec.toUInt16 isX)

def parseSetIX : LineScan EventKind := do
  let intr ← uintField ", interrupt=" 16
  pure (.setIX intr)

def parseNicDma (mk : UInt64 → UInt64 → UInt64 → EventKind) : LineScan EventKind := do
  let id ← uintField ", id=" 10
  let addr ← uintField ", addr=" 16
  let len ← uintField ", size=" 16
  pure (mk id addr len)

def parseNicMmio : LineScan (UInt64 × UInt64 × UInt64) := do
  let offset ← uintField ", off=" 16
  let len ← uintField ", len=" 16
  let val ← uintField ", val=" 16
  pure (offset, len, val)

def parseNicMmioR : LineScan EventKind := do
  let (offset, len, val) ← parseNicMmio
  pure (.nicMmioR offset len val)

def parseNicMmioW : LineScan EventKind := do
  let (offset, len, val) ← parseNicMmio
  let posted ← boolField ", posted="
  pure (.nicMmioW offset len val posted)

def parseNicTx : LineScan EventKind := do
  let len ← uintField ", len=" 16
  pure (.nicTx len)

/-- `NicRx` takes a port and a length and is given the length and an address
that stays zero; the parsed port is not used. -/
def parseNicRx : LineScan EventKind := do
  let len ← uintField ", len=" 16
  consumeAndTrimString (bytes ", is_read=true")
  let _ ← intField ", port="
  let addr : UInt64 := 0
  pure (.nicRx len.toUInt32.toInt32 addr)

/-- The dispatch of `ParseEvent` on the name of the event. -/
def parseKind (eventName : Bytes) : LineScan EventKind :=
  if eventName = bytes "SimSendSyncSimSendSync" then pure .simSendSync
  else if eventName = bytes "SimProcInEvent" then pure .simProcInEvent
  else if eventName = bytes "HostInstr" then parseHostInstr
  else if eventName = bytes "HostCall" then parseHostCall
  else if eventName = bytes "HostMmioImRespPoW" then pure .hostMmioImRespPoW
  else if eventName = bytes "HostMmioCR" then parseHostIdOp .hostMmioCR
  else if eventName = bytes "HostMmioCW" then parseHostIdOp .hostMmioCW
  else if eventName = bytes "HostDmaC" then parseHostIdOp .hostDmaC
  else if eventName = bytes "HostMmioR" then parseHostMmioR
  else if eventName = bytes "HostMmioW" then parseHostMmioW
  else if eventName = bytes "HostDmaR" then parseHostDma .hostDmaR
  else if eventName = bytes "HostDmaW" then parseHostDma .hostDmaW
  else if eventName = bytes "HostMsiX" then parseHostMsiX
  else if eventName = bytes "HostConfRead" then parseHostConf true
  else if eventName = bytes "HostConfWrite" then parseHostConf false
  else if eventName = bytes "HostClearInt" then pure .hostClearInt
  else if eventName = bytes "HostPostInt" then pure .hostPostInt
  else if eventName = bytes "HostPciR" then parseHostPciRW true
  else if eventName = bytes "HostPciW" then parseHostPciRW false
  else if eventName = bytes "NicMsix" then parseNicMsix true
  else if eventName = bytes "NicMsi" then parseNicMsix false
  else if eventName = bytes "SetIX" then parseSetIX
  else if eventName = bytes "NicDmaI" then parseNicDma .nicDmaI
  else if eventName = bytes "NicDmaEx" then parseNicDma .nicDmaEx
  else if eventName = bytes "NicDmaEn" then parseNicDma .nicDmaEn
  else if eventName = bytes "NicDmaCW" then parseNicDma .nicDmaCW
  else if eventName = bytes "NicDmaCR" then parseNicDma .nicDmaCR
  else if eventName = bytes "NicMmioR" then parseNicMmioR
  else if eventName = bytes "NicMmioW" then parseNicMmioW
  else if eventName = bytes "NicTx" then parseNicTx
  else if eventName = bytes "NicRx" then parseNicRx
  else if eventName = bytes "NetworkEnqueue" then do return .networkEnqueue (← parseNetworkEvent)
  else if eventName = bytes "NetworkDequeue" then do return .networkDequeue (← parseNetworkEvent)
  else if eventName = bytes "NetworkDrop" then do return .networkDrop (← parseNetworkEvent)
  else Scan.fail

def parseEvent : LineScan Event := do
  trimL
  let eventName ← extractAndSubstrUntilInto fun c => c != byte ':'
  let (parserIdent, parserName, ts) ← parseIdentNameTs
  let kind ← parseKind eventName
  pure ⟨ts, parserIdent, parserName, kind⟩

end Columbo
