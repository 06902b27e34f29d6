import Columbo.OStream
import Mathlib.Data.Vector.Basic

/-!
# Events and their printed form

The events of the simulators with all the fields their classes store, and the
`Display` functions that write them to an output stream. A class hierarchy
becomes one enumeration of classes with their own fields, next to the fields
that every event has; the intermediate classes keep their `Display` functions.
-/
namespace Columbo

inductive EventType
  | kSimSendSyncT
  | kSimProcInEventT
  | kHostInstrT
  | kHostCallT
  | kHostMmioImRespPoWT
  | kHostMmioCRT
  | kHostMmioCWT
  | kHostMmioRT
  | kHostMmioWT
  | kHostDmaCT
  | kHostDmaRT
  | kHostDmaWT
  | kHostMsiXT
  | kHostConfT
  | kHostClearIntT
  | kHostPostIntT
  | kHostPciRWT
  | kNicMsixT
  | kSetIXT
  | kNicDmaIT
  | kNicDmaExT
  | kNicDmaEnT
  | kNicDmaCRT
  | kNicDmaCWT
  | kNicMmioRT
  | kNicMmioWT
  | kNicTxT
  | kNicRxT
  | kNetworkEnqueueT
  | kNetworkDequeueT
  | kNetworkDropT
  deriving DecidableEq, Repr

def kMacSize : ℕ := 6

abbrev MacAddress := List.Vector UInt8 kMacSize

structure Ipv4 where
  ip : UInt32
  deriving DecidableEq

structure EthernetHeader where
  lengthType : UInt64
  srcMac : MacAddress
  dstMac : MacAddress
  deriving DecidableEq

structure ArpHeader where
  srcIp : Ipv4
  dstIp : Ipv4
  isRequest : Bool
  deriving DecidableEq

structure Ipv4Header where
  length : UInt64
  srcIp : Ipv4
  dstIp : Ipv4
  deriving DecidableEq

inductive NetworkDeviceType
  | kCosimNetDevice
  | kSimpleNetDevice
  deriving DecidableEq, Repr

inductive EventBoundaryType
  | kWithinSimulator
  | kFromAdapter
  | kToAdapter
  deriving DecidableEq, Repr

/-- The fields of `NetworkEvent`, shared by its three classes. -/
structure NetworkEvent where
  node : Int32
  device : Int32
  deviceType : NetworkDeviceType
  packetUid : UInt64
  interestingFlag : Bool
  payloadSize : UInt64
  boundaryType : EventBoundaryType
  ethernetHeader : Option EthernetHeader
  arpHeader : Option ArpHeader
  ipHeader : Option Ipv4Header
  deriving DecidableEq

/-- The classes of events with the fields of their own. The names of a call are
pointers in the source and may be null. -/
inductive EventKind
  | simSendSync
  | simProcInEvent
  | hostInstr (pc : UInt64)
  | hostCall (pc : UInt64) (func comp : Option Bytes)
  | hostMmioImRespPoW
  | hostMmioCR (id : UInt64)
  | hostMmioCW (id : UInt64)
  | hostMmioR (id addr size : UInt64) (bar : Int32) (offset : UInt64)
  | hostMmioW (id addr size : UInt64) (bar : Int32) (offset : UInt64) (posted : Bool)
  | hostDmaC (id : UInt64)
  | hostDmaR (id addr size : UInt64)
  | hostDmaW (id addr size : UInt64)
  | hostMsiX (vec : UInt64)
  | hostConf (dev func reg bytes data : UInt64) (isRead : Bool)
  | hostClearInt
  | hostPostInt
  | hostPciRW (offset size : UInt64) (isRead : Bool)
  | nicMsix (vec : UInt16) (isX : Bool)
  | setIX (intr : UInt64)
  | nicDmaI (id addr len : UInt64)
  | nicDmaEx (id addr len : UInt64)
  | nicDmaEn (id addr len : UInt64)
  | nicDmaCR (id addr len : UInt64)
  | nicDmaCW (id addr len : UInt64)
  | nicMmioR (off len val : UInt64)
  | nicMmioW (off len val : UInt64) (posted : Bool)
  | nicTx (len : UInt64)
  | nicRx (port : Int32) (len : UInt64)
  | networkEnqueue (net : NetworkEvent)
  | networkDequeue (net : NetworkEvent)
  | networkDrop (net : NetworkEvent)
  deriving DecidableEq

structure Event where
  timestamp : UInt64
  parserIdentifier : UInt64
  parserName : Bytes
  kind : EventKind
  deriving DecidableEq

namespace EventKind

def getType : EventKind → EventType
  | simSendSync => .kSimSendSyncT
  | simProcInEvent => .kSimProcInEventT
  | hostInstr .. => .kHostInstrT
  | hostCall .. => .kHostCallT
  | hostMmioImRespPoW => .kHostMmioImRespPoWT
  | hostMmioCR .. => .kHostMmioCRT
  | hostMmioCW .. => .kHostMmioCWT
  | hostMmioR .. => .kHostMmioRT
  | hostMmioW .. => .kHostMmioWT
  | hostDmaC .. => .kHostDmaCT
  | hostDmaR .. => .kHostDmaRT
  | hostDmaW .. => .kHostDmaWT
  | hostMsiX .. => .kHostMsiXT
  | hostConf .. => .kHostConfT
  | hostClearInt => .kHostClearIntT
  | hostPostInt => .kHostPostIntT
  | hostPciRW .. => .kHostPciRWT
  | nicMsix .. => .kNicMsixT
  | setIX .. => .kSetIXT
  | nicDmaI .. => .kNicDmaIT
  | nicDmaEx .. => .kNicDmaExT
  | nicDmaEn .. => .kNicDmaEnT
  | nicDmaCR .. => .kNicDmaCRT
  | nicDmaCW .. => .kNicDmaCWT
  | nicMmioR .. => .kNicMmioRT
  | nicMmioW .. => .kNicMmioWT
  | nicTx .. => .kNicTxT
  | nicRx .. => .kNicRxT
  | networkEnqueue .. => .kNetworkEnqueueT
  | networkDequeue .. => .kNetworkDequeueT
  | networkDrop .. => .kNetworkDropT

def getName : EventKind → Bytes
  | simSendSync => Columbo.bytes "SimSendSyncSimSendSync"
  | simProcInEvent => Columbo.bytes "SimProcInEvent"
  | hostInstr .. => Columbo.bytes "HostInstr"
  | hostCall .. => Columbo.bytes "HostCall"
  | hostMmioImRespPoW => Columbo.bytes "HostMmioImRespPoW"
  | hostMmioCR .. => Columbo.bytes "HostMmioCR"
  | hostMmioCW .. => Columbo.bytes "HostMmioCW"
  | hostMmioR .. => Columbo.bytes "HostMmioR"
  | hostMmioW .. => Columbo.bytes "HostMmioW"
  | hostDmaC .. => Columbo.bytes "HostDmaC"
  | hostDmaR .. => Columbo.bytes "HostDmaR"
  | hostDmaW .. => Columbo.bytes "HostDmaW"
  | hostMsiX .. => Columbo.bytes "HostMsiX"
  | hostConf _ _ _ _ _ isRead =>
    if isRead then Columbo.bytes "HostConfRead" else Columbo.bytes "HostConfWrite"
  | hostClearInt => Columbo.bytes "HostClearInt"
  | hostPostInt => Columbo.bytes "HostPostInt"
  | hostPciRW _ _ isRead => if isRead then Columbo.bytes "HostPciR" else Columbo.bytes "HostPciW"
  | nicMsix _ isX => if isX then Columbo.bytes "NicMsix" else Columbo.bytes "NicMsi"
  | setIX .. => Columbo.bytes "SetIX"
  | nicDmaI .. => Columbo.bytes "NicDmaI"
  | nicDmaEx .. => Columbo.bytes "NicDmaEx"
  | nicDmaEn .. => Columbo.bytes "NicDmaEn"
  | nicDmaCR .. => Columbo.bytes "NicDmaCR"
  | nicDmaCW .. => Columbo.bytes "NicDmaCW"
  | nicMmioR .. => Columbo.bytes "NicMmioR"
  | nicMmioW .. => Columbo.bytes "NicMmioW"
  | nicTx .. => Columbo.bytes "NicTx"
  | nicRx .. => Columbo.bytes "NicRx"
  | networkEnqueue .. => Columbo.bytes "NetworkEnqueue"
  | networkDequeue .. => Columbo.bytes "NetworkDequeue"
  | networkDrop .. => Columbo.bytes "NetworkDrop"

/-- Whether the class is one of the subclasses of `NetworkEvent`. -/
def isNetwork : EventKind → Bool
  | networkEnqueue _ | networkDequeue _ | networkDrop _ => true
  | _ => false

end EventKind

section Display

/-- `Event::Display`. -/
def Event.displayEvent (e : Event) (out : OStream) : OStream :=
  let out := out.put e.kind.getName
  let out := (out.str ": source_id=").uint e.parserIdentifier.toNat
  let out := (out.str ", source_name=").put e.parserName
  (out.str ", timestamp=").put (toString10 e.timestamp.toNat)

def displayHostInstr (pc : UInt64) (out : OStream) : OStream :=
  (out.str ", pc=").hex.uint pc.toNat

def displayHostCall (pc : UInt64) (func comp : Option Bytes) (out : OStream) : OStream :=
  let out := displayHostInstr pc out
  let out := (out.str ", func=").put (func.getD (bytes "null"))
  (out.str ", comp=").put (comp.getD (bytes "null"))

def displayHostIdOp (id : UInt64) (out : OStream) : OStream :=
  (out.str ", id=").put (toString10 id.toNat)

def displayHostAddrSizeOp (id addr size : UInt64) (out : OStream) : OStream :=
  let out := displayHostIdOp id out
  let out := (out.str ", addr=").hex.uint addr.toNat
  (out.str ", size=").uint size.toNat

def displayHostMmioOp (id addr size : UInt64) (bar : Int32) (offset : UInt64) (out : OStream) :
    OStream :=
  let out := displayHostAddrSizeOp id addr size out
  let out := (out.str ", bar=").int bar
  (out.str ", offset=").hex.uint offset.toNat

def displayHostMmioW (id addr size : UInt64) (bar : Int32) (offset : UInt64) (posted : Bool)
    (out : OStream) : OStream :=
  let out := displayHostMmioOp id addr size bar offset out
  (out.str ", posted=").put (boolToString posted)

def displayHostMsiX (vec : UInt64) (out : OStream) : OStream :=
  (out.str ", vec=").put (toString10 vec.toNat)

def displayHostConf (dev func reg bytes data : UInt64) (out : OStream) : OStream :=
  let out := (out.str ", dev=").hex.uint dev.toNat
  let out := (out.str ", func=").hex.uint func.toNat
  let out := (out.str ", reg=").hex.uint reg.toNat
  let out := (out.str ", bytes=").uint bytes.toNat
  (out.str ", data=").hex.uint data.toNat

def displayHostPciRW (offset size : UInt64) (out : OStream) : OStream :=
  let out := (out.str ", offset=").hex.uint offset.toNat
  (out.str ", size=").uint size.toNat

def displayNicMsix (vec : UInt16) (out : OStream) : OStream :=
  (out.str ", vec=").put (toString10 vec.toNat)

def displayNicDma (id addr len : UInt64) (out : OStream) : OStream :=
  let out := (out.str ", id=").put (toString10 id.toNat)
  let out := (out.str ", addr=").hex.uint addr.toNat
  (out.str ", size=").uint len.toNat

def displaySetIX (intr : UInt64) (out : OStream) : OStream :=
  (out.str ", interrupt=").hex.uint intr.toNat

def displayNicMmio (off len val : UInt64) (out : OStream) : OStream :=
  let out := (out.str ", off=").hex.uint off.toNat
  let out := (out.str ", len=").uint len.toNat
  (out.str ", val=").hex.uint val.toNat

def displayNicMmioW (off len val : UInt64) (posted : Bool) (out : OStream) : OStream :=
  let out := displayNicMmio off len val out
  (out.str ", posted=").put (boolToString posted)

def displayNicTrx (len : UInt64) (isRead : Bool) (out : OStream) : OStream :=
  let out := (out.str ", len=").uint len.toNat
  (out.str ", is_read=").put (if isRead then bytes "true" else bytes "false")

def displayNicRx (port : Int32) (len : UInt64) (out : OStream) : OStream :=
  let out := displayNicTrx len true out
  (out.str ", port=").put (toStringInt port)

/-- One byte of a MAC address. -/
def displayMacByte (b : UInt8) (out : OStream) : OStream :=
  ((out.setfill (byte '0')).setw 2).hex.uint b.toNat

def MacAddress.display (mac : MacAddress) (out : OStream) : OStream :=
  let out := displayMacByte (List.Vector.head mac) out
  let out := (List.Vector.tail mac).toList.foldl (fun out b => displayMacByte b (out.str ":")) out
  (out.setfill (byte ' ')).dec

def Ipv4.display (a : Ipv4) (out : OStream) : OStream :=
  let out := out.put (toString10 ((0xff000000 &&& a.ip) >>> 24).toNat)
  let out := (out.str ".").put (toString10 ((0x00ff0000 &&& a.ip) >>> 16).toNat)
  let out := (out.str ".").put (toString10 ((0x0000ff00 &&& a.ip) >>> 8).toNat)
  (out.str ".").put (toString10 (0x000000ff &&& a.ip).toNat)

def EthernetHeader.display (header : EthernetHeader) (out : OStream) : OStream :=
  let out := out.str "EthernetHeader("
  let out := (out.str "length/type=0x").hex.uint header.lengthType.toNat
  let out := header.srcMac.display (out.str ", source=")
  let out := header.dstMac.display (out.str ", destination=")
  out.str ")"

def Ipv4Header.display (header : Ipv4Header) (out : OStream) : OStream :=
  let out := out.str "Ipv4Header("
  let out := (out.str "length: ").uint header.length.toNat
  let out := header.srcIp.display (out.str " ")
  let out := header.dstIp.display (out.str " > ")
  out.str ")"

def ArpHeader.display (header : ArpHeader) (out : OStream) : OStream :=
  let out := out.str "ns3::ArpHeader("
  let out := out.put (if header.isRequest then bytes "request" else bytes "reply")
  let out := header.srcIp.display (out.str " source ipv4: ")
  let out := header.dstIp.display (out.str " dest ipv4: ")
  out.str ")"

def NetworkDeviceType.text : NetworkDeviceType → Bytes
  | kCosimNetDevice => bytes "ns3::CosimNetDevice"
  | kSimpleNetDevice => bytes "ns3::SimpleNetDevice"

def EventBoundaryType.text : EventBoundaryType → Bytes
  | kWithinSimulator => bytes "kWithinSimulator"
  | kFromAdapter => bytes "kFromAdapter"
  | kToAdapter => bytes "kToAdapter"

/-- A header is written only where it is present. -/
def displayHeader {α : Type} (display : α → OStream → OStream) (header : Option α)
    (out : OStream) : OStream :=
  match header with
  | some x => display x (out.str ", ")
  | none => out

def NetworkEvent.display (net : NetworkEvent) (out : OStream) : OStream :=
  let out := (out.str ", node=").put (toStringInt net.node)
  let out := (out.str ", device=").put (toStringInt net.device)
  let out := (out.str ", device_name=").put net.deviceType.text
  let out := (out.str ", packet-uid=").put (toString10 net.packetUid.toNat)
  let out := (out.str ", interesting=").put (boolToString net.interestingFlag)
  let out := (out.str ", payload_size=").put (toString10 net.payloadSize.toNat)
  let out := (out.str ", boundary_type=").put net.boundaryType.text
  let out := displayHeader EthernetHeader.display net.ethernetHeader out
  let out := displayHeader ArpHeader.display net.arpHeader out
  displayHeader Ipv4Header.display net.ipHeader out

/-- What the class of an event writes behind the fields that all events share. -/
def EventKind.display : EventKind → OStream → OStream
  | simSendSync | simProcInEvent | hostMmioImRespPoW | hostClearInt | hostPostInt => id
  | hostInstr pc => displayHostInstr pc
  | hostCall pc func comp => displayHostCall pc func comp
  | hostMmioCR ident | hostMmioCW ident | hostDmaC ident => displayHostIdOp ident
  | hostMmioR ident addr size bar offset => displayHostMmioOp ident addr size bar offset
  | hostMmioW ident addr size bar offset posted =>
    displayHostMmioW ident addr size bar offset posted
  | hostDmaR ident addr size | hostDmaW ident addr size => displayHostAddrSizeOp ident addr size
  | hostMsiX vec => displayHostMsiX vec
  | hostConf dev func reg bytes data _ => displayHostConf dev func reg bytes data
  | hostPciRW offset size _ => displayHostPciRW offset size
  | nicMsix vec _ => displayNicMsix vec
  | setIX intr => displaySetIX intr
  | nicDmaI ident addr len | nicDmaEx ident addr len | nicDmaEn ident addr len
  | nicDmaCR ident addr len | nicDmaCW ident addr len => displayNicDma ident addr len
  | nicMmioR off len val => displayNicMmio off len val
  | nicMmioW off len val posted => displayNicMmioW off len val posted
  | nicTx len => displayNicTrx len false
  | nicRx port len => displayNicRx port len
  | networkEnqueue net | networkDequeue net | networkDrop net => net.display

def Event.display (e : Event) (out : OStream) : OStream := e.kind.display (e.displayEvent out)

/-- `EventPrinter::print`. -/
def Event.print (e : Event) (out : OStream) : OStream := (e.display out).put [kLineEnd]

/-- One `EventPrinter` that is handed a list of events. -/
def printAll (es : List Event) (out : OStream) : OStream := es.foldl (fun out e => e.print out) out

/-- The line that `Display` writes to a fresh stream. -/
def Event.line (e : Event) : Bytes := (e.display .fresh).text

end Display

end Columbo
