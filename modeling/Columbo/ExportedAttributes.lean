import Columbo.Events
import Columbo.SortedMap
import Mathlib.Data.String.Basic

/-!
# Exported attributes

The exporter turns the fields of an event into the attributes of a span event:
`add_Events` selects by the type of the event, and the functions of a class
insert what their base class inserts and then fields of their own. An insertion
does not replace an attribute that is there.
-/
namespace Columbo

def EventType.text : EventType → Bytes
  | kSimSendSyncT => bytes "kSimSendSyncT"
  | kSimProcInEventT => bytes "kSimProcInEventT"
  | kHostInstrT => bytes "kHostInstrT"
  | kHostCallT => bytes "kHostCallT"
  | kHostMmioImRespPoWT => bytes "kHostMmioImRespPoWT"
  | kHostMmioCRT => bytes "kHostMmioCRT"
  | kHostMmioCWT => bytes "kHostMmioCWT"
  | kHostMmioRT => bytes "kHostMmioRT"
  | kHostMmioWT => bytes "kHostMmioWT"
  | kHostDmaCT => bytes "kHostDmaCT"
  | kHostDmaRT => bytes "kHostDmaRT"
  | kHostDmaWT => bytes "kHostDmaWT"
  | kHostMsiXT => bytes "kHostMsiXT"
  | kHostConfT => bytes "kHostConfT"
  | kHostClearIntT => bytes "kHostClearIntT"
  | kHostPostIntT => bytes "kHostPostIntT"
  | kHostPciRWT => bytes "kHostPciRWT"
  | kNicMsixT => bytes "kNicMsixT"
  | kSetIXT => bytes "kSetIXT"
  | kNicDmaIT => bytes "kNicDmaIT"
  | kNicDmaExT => bytes "kNicDmaExT"
  | kNicDmaEnT => bytes "kNicDmaEnT"
  | kNicDmaCRT => bytes "kNicDmaCRT"
  | kNicDmaCWT => bytes "kNicDmaCWT"
  | kNicMmioRT => bytes "kNicMmioRT"
  | kNicMmioWT => bytes "kNicMmioWT"
  | kNicTxT => bytes "kNicTxT"
  | kNicRxT => bytes "kNicRxT"
  | kNetworkEnqueueT => bytes "kNetworkEnqueueT"
  | kNetworkDequeueT => bytes "kNetworkDequeueT"
  | kNetworkDropT => bytes "kNetworkDropT"

/-- The attributes of a span event, `std::map<std::string, std::string>`. -/
abbrev Attributes := SortedMap String Bytes

/-- `std::to_string` of an unsigned field. -/
def toStringUint (n : UInt64) : Bytes := toString10 n.toNat

/-- `ValueToString`: what is written to a fresh stream. -/
def valueToString (print : OStream → OStream) : Bytes := (print .fresh).text

namespace OtlpSpanExporter

def addEvent (attributes : Attributes) (event : Event) : Attributes :=
  attributes.insertAll
    [("timestamp", toStringUint event.timestamp),
     ("parser_ident", toStringUint event.parserIdentifier),
     ("parser name", event.parserName),
     ("type", event.kind.getType.text)]

def addHostInstr (attributes : Attributes) (event : Event) (pc : UInt64) : Attributes :=
  (addEvent attributes event).insertAll [("pc", toStringUint pc)]

/-- The pointers to the names are dereferenced, so there must be names. -/
def addHostCall (attributes : Attributes) (event : Event) (pc : UInt64)
    (func comp : Option Bytes) : Option Attributes := do
  let attributes := addHostInstr attributes event pc
  let func ← func
  let attributes := attributes.insertAll [("func", func)]
  let comp ← comp
  pure (attributes.insertAll [("comp", comp)])

def addHostMmioImRespPoW (attributes : Attributes) (event : Event) : Attributes :=
  addEvent attributes event

def addHostIdOp (attributes : Attributes) (event : Event) (id : UInt64) : Attributes :=
  (addEvent attributes event).insertAll [("id", toStringUint id)]

def addHostMmioCR (attributes : Attributes) (event : Event) (id : UInt64) : Attributes :=
  addHostIdOp attributes event id

def addHostMmioCW (attributes : Attributes) (event : Event) (id : UInt64) : Attributes :=
  addHostIdOp attributes event id

def addHostAddrSizeOp (attributes : Attributes) (event : Event) (id addr size : UInt64) :
    Attributes :=
  (addHostIdOp attributes event id).insertAll
    [("addr", toStringUint addr),
     ("size", toStringUint size)]

def addHostMmioOp (attributes : Attributes) (event : Event) (id addr size : UInt64) (bar : Int32)
    (offset : UInt64) : Attributes :=
  (addHostAddrSizeOp attributes event id addr size).insertAll
    [("bar", toStringInt bar),
     ("offset", toStringUint offset)]

def addHostMmioR (attributes : Attributes) (event : Event) (id addr size : UInt64) (bar : Int32)
    (offset : UInt64) : Attributes :=
  addHostMmioOp attributes event id addr size bar offset

def addHostMmioW (attributes : Attributes) (event : Event) (id addr size : UInt64) (bar : Int32)
    (offset : UInt64) : Attributes :=
  addHostMmioOp attributes event id addr size bar offset

def addHostDmaC (attributes : Attributes) (event : Event) (id : UInt64) : Attributes :=
  addHostIdOp attributes event id

def addHostDmaR (attributes : Attributes) (event : Event) (id addr size : UInt64) : Attributes :=
  addHostAddrSizeOp attributes event id addr size

def addHostDmaW (attributes : Attributes) (event : Event) (id addr size : UInt64) : Attributes :=
  addHostAddrSizeOp attributes event id addr size

def addHostMsiX (attributes : Attributes) (event : Event) (vec : UInt64) : Attributes :=
  (addEvent attributes event).insertAll [("vec", toStringUint vec)]

/-- The data is not looked at: `GetBytes` is called twice. -/
def addHostConf (attributes : Attributes) (event : Event) (dev func reg bytes : UInt64)
    (isRead : Bool) : Attributes :=
  (addEvent attributes event).insertAll
    [("dev", toStringUint dev),
     ("func", toStringUint func),
     ("reg", toStringUint reg),
     ("bytes", toStringUint bytes),
     ("data", toStringUint bytes),
     ("is_read", if isRead then Columbo.bytes "true" else Columbo.bytes "false")]

def addHostClearInt (attributes : Attributes) (event : Event) : Attributes :=
  addEvent attributes event

def addHostPostInt (attributes : Attributes) (event : Event) : Attributes :=
  addEvent attributes event

def addHostPciRW (attributes : Attributes) (event : Event) (offset size : UInt64)
    (isRead : Bool) : Attributes :=
  (addEvent attributes event).insertAll
    [("offset", toStringUint offset),
     ("size", toStringUint size),
     ("is_read", if isRead then bytes "true" else bytes "false")]

def addNicMsix (attributes : Attributes) (event : Event) (vec : UInt16) (isX : Bool) :
    Attributes :=
  (addEvent attributes event).insertAll
    [("vec", toString10 vec.toNat),
     ("isX", boolToString isX)]

/-- The address is not looked at: `GetId` is called twice. -/
def addNicDma (attributes : Attributes) (event : Event) (id len : UInt64) : Attributes :=
  (addEvent attributes event).insertAll
    [("id", toStringUint id),
     ("addr", toStringUint id),
     ("len", toStringUint len)]

def addNicDmaI (attributes : Attributes) (event : Event) (id len : UInt64) : Attributes :=
  addNicDma attributes event id len

def addNicDmaEx (attributes : Attributes) (event : Event) (id len : UInt64) : Attributes :=
  addNicDma attributes event id len

def addNicDmaCR (attributes : Attributes) (event : Event) (id len : UInt64) : Attributes :=
  addNicDma attributes event id len

def addNicDmaCW (attributes : Attributes) (event : Event) (id len : UInt64) : Attributes :=
  addNicDma attributes event id len

def addNicMmio (attributes : Attributes) (event : Event) (off len val : UInt64) : Attributes :=
  (addEvent attributes event).insertAll
    [("off", toStringUint off),
     ("len", toStringUint len),
     ("val", toStringUint val)]

def addNicMmioR (attributes : Attributes) (event : Event) (off len val : UInt64) : Attributes :=
  addNicMmio attributes event off len val

def addNicMmioW (attributes : Attributes) (event : Event) (off len val : UInt64)
    (posted : Bool) : Attributes :=
  (addNicMmio attributes event off len val).insertAll [("posted", boolToString posted)]

def addNicTrx (attributes : Attributes) (event : Event) (len : UInt64) : Attributes :=
  (addEvent attributes event).insertAll [("len", toStringUint len)]

def addNicTx (attributes : Attributes) (event : Event) (len : UInt64) : Attributes :=
  addNicTrx attributes event len

def addNicRx (attributes : Attributes) (event : Event) (port : Int32) (len : UInt64) :
    Attributes :=
  (addNicTrx attributes event len).insertAll [("port", toStringInt port)]

def addNetworkEvent (attributes : Attributes) (event : Event) (net : NetworkEvent) :
    Attributes :=
  let attributes := (addEvent attributes event).insertAll
    [("node", toStringInt net.node),
     ("device", toStringInt net.device),
     ("device-type", net.deviceType.text),
     ("payload-size", toStringUint net.payloadSize),
     ("boundary-type", net.boundaryType.text),
     ("device-tpe", net.deviceType.text)]
  let attributes := match net.ethernetHeader with
    | some header => attributes.insertAll
        [("src-mac", valueToString header.srcMac.display),
         ("dst-mac", valueToString header.dstMac.display),
         ("length-type", bytes "0x" ++ numText 16 header.lengthType.toNat)]
    | none => attributes
  let attributes := match net.arpHeader with
    | some header => attributes.insertAll
        [("request", boolToString header.isRequest),
         ("src-ip", valueToString header.srcIp.display),
         ("dst-ip", valueToString header.dstIp.display)]
    | none => attributes
  match net.ipHeader with
  | some header => attributes.insertAll
      [("length", toStringUint header.length),
       ("src-ip", valueToString header.srcIp.display),
       ("dst-ip", valueToString header.dstIp.display)]
  | none => attributes

/-- The attributes that `add_Events` makes of one event. There are none where it
throws, on a class that it does not expect, and where a name of a call is missing. -/
def attributesOf (event : Event) : Option Attributes :=
  let attributes : Attributes := .empty
  match event.kind with
  | .hostCall pc func comp => addHostCall attributes event pc func comp
  | .hostMsiX vec => some (addHostMsiX attributes event vec)
  | .hostMmioW id addr size bar offset _ =>
    some (addHostMmioW attributes event id addr size bar offset)
  | .hostMmioR id addr size bar offset =>
    some (addHostMmioR attributes event id addr size bar offset)
  | .hostMmioImRespPoW => some (addHostMmioImRespPoW attributes event)
  | .hostMmioCW id => some (addHostMmioCW attributes event id)
  | .hostMmioCR id => some (addHostMmioCR attributes event id)
  | .hostPciRW offset size isRead => some (addHostPciRW attributes event offset size isRead)
  | .hostConf dev func reg bytes _ isRead =>
    some (addHostConf attributes event dev func reg bytes isRead)
  | .hostDmaW id addr size => some (addHostDmaW attributes event id addr size)
  | .hostDmaR id addr size => some (addHostDmaR attributes event id addr size)
  | .hostDmaC id => some (addHostDmaC attributes event id)
  | .hostPostInt => some (addHostPostInt attributes event)
  | .hostClearInt => some (addHostClearInt attributes event)
  | .nicDmaI id _ len => some (addNicDmaI attributes event id len)
  | .nicDmaEx id _ len => some (addNicDmaEx attributes event id len)
  | .nicDmaCW id _ len => some (addNicDmaCW attributes event id len)
  | .nicDmaCR id _ len => some (addNicDmaCR attributes event id len)
  | .nicMmioR off len val => some (addNicMmioR attributes event off len val)
  | .nicMmioW off len val posted => some (addNicMmioW attributes event off len val posted)
  | .nicRx port len => some (addNicRx attributes event port len)
  | .nicTx len => some (addNicTx attributes event len)
  | .nicMsix vec isX => some (addNicMsix attributes event vec isX)
  | .networkEnqueue net | .networkDequeue net | .networkDrop net =>
    some (addNetworkEvent attributes event net)
  | _ => none

end OtlpSpanExporter

end Columbo
