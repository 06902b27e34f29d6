import Columbo.EventStreamParser
import Columbo.LogParser

/-!
# The parser of ns-3 logs

The path of a device is searched for its parts. The headers of the packet, each of
which may be missing, are tried one after the other.
-/
namespace Columbo

open LogParser

namespace NS3Parser

def parseBoundaryType : LineScan EventBoundaryType :=
  .branch (consumeAndTrimTillString (bytes "RxPacketFromAdapter")) (pure .kFromAdapter) <|
  .branch (consumeAndTrimTillString (bytes "TxPacketToAdapter")) (pure .kToAdapter)
  (pure .kWithinSimulator)

/-- A line without a payload has one of size zero. -/
def parsePayloadSize : LineScan UInt64 :=
  .branch (consumeAndTrimTillString (bytes "Payload (size=")) (parseUintTrim 10) (pure 0)

/-- The event of the type. Other types than these three have none. -/
def networkEvent (type : EventType) (net : NetworkEvent) : LineScan EventKind :=
  match type with
  | .kNetworkEnqueueT => pure (.networkEnqueue net)
  | .kNetworkDequeueT => pure (.networkDequeue net)
  | .kNetworkDropT => pure (.networkDrop net)
  | _ => Scan.fail

def parseNetDevice (type : EventType) (node device : Int32) (deviceType : NetworkDeviceType) :
    LineScan EventKind := do
  trimL
  let boundaryType ← parseBoundaryType
  consumeAndTrimTillString (bytes "Packet-Uid=")
  let packetUid ← parseUintTrim 10
  consumeAndTrimTillString (bytes "Intersting=")
  let interesting ← parseBoolFromStringRepr
  let ethHeader ← tryParseEthernetHeader
  let arpHeader ← tryParseArpHeader
  let ipHeader ← tryParseIpHeader
  let payloadSize ← parsePayloadSize
  networkEvent type ⟨node, device, deviceType, packetUid, interesting, payloadSize, boundaryType,
    ethHeader, arpHeader, ipHeader⟩

def parseType : LineScan EventType :=
  .branch (consumeAndTrimChar (byte '+')) (pure .kNetworkEnqueueT) <|
  .branch (consumeAndTrimChar (byte '-')) (pure .kNetworkDequeueT) <|
  .branch (consumeAndTrimChar (byte 'd')) (pure .kNetworkDropT)
  Scan.fail

def parseDeviceType : LineScan NetworkDeviceType :=
  .branch (consumeAndTrimTillString (bytes "ns3::SimpleNetDevice")) (pure .kSimpleNetDevice) <|
  .branch (consumeAndTrimTillString (bytes "ns3::CosimNetDevice")) (pure .kCosimNetDevice)
  Scan.fail

/-- `ParseEvent`. -/
def parseEvent (parser : LogParser) : LineScan Event := fun h =>
  if h.isEmpty then (none, h)
  else
    (do
      let type ← parseType
      trimL
      let timestamp ← parseTimestamp
      consumeAndTrimTillString (bytes "NodeList/")
      let node ← parseInt
      consumeAndTrimTillString (bytes "DeviceList/")
      let device ← parseInt
      let deviceType ← parseDeviceType
      let kind ← parseNetDevice type node device deviceType
      pure (parser.event timestamp kind) : LineScan Event) h

end NS3Parser

end Columbo
