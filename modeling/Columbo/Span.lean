import Columbo.Events
import Mathlib.Data.Finset.Insert

/-!
# The span classes

Every class collects the events of one transaction: `AddToSpan` takes an event when it
continues the transaction, and the span is pending until the last one came. The
pointers of a class to single events are optional events. What the classes share is
in `EventSpan`; the identifier and the trace context of a span live on the heap.
-/
namespace Columbo

inductive SpanType
  | kHostCall
  | kHostMsix
  | kHostMmio
  | kHostDma
  | kHostInt
  | kHostPci
  | kNicDma
  | kNicMmio
  | kNicEth
  | kNicMsix
  | kNetDeviceSpan
  | kGenericSingle
  deriving DecidableEq, Repr

namespace Event

def getType (e : Event) : EventType := e.kind.getType

def getTs (e : Event) : Nat := e.timestamp.toNat

/-- `HostIdOp::GetId` and `NicDma::GetId`. -/
def getId (e : Event) : UInt64 :=
  match e.kind with
  | .hostMmioCR id | .hostMmioCW id | .hostDmaC id => id
  | .hostMmioR id _ _ _ _ | .hostMmioW id _ _ _ _ _ => id
  | .hostDmaR id _ _ | .hostDmaW id _ _ => id
  | .nicDmaI id _ _ | .nicDmaEx id _ _ | .nicDmaEn id _ _ => id
  | .nicDmaCR id _ _ | .nicDmaCW id _ _ => id
  | _ => 0

/-- `NicDma::GetAddr`. -/
def getAddr (e : Event) : UInt64 :=
  match e.kind with
  | .nicDmaI _ addr _ | .nicDmaEx _ addr _ | .nicDmaEn _ addr _ => addr
  | .nicDmaCR _ addr _ | .nicDmaCW _ addr _ => addr
  | _ => 0

/-- `HostMmioOp::GetBar`. -/
def getBar (e : Event) : Int32 :=
  match e.kind with
  | .hostMmioR _ _ _ bar _ | .hostMmioW _ _ _ bar _ _ => bar
  | _ => 0

/-- `HostMmioW::IsPosted`. -/
def isPosted (e : Event) : Bool :=
  match e.kind with
  | .hostMmioW _ _ _ _ _ posted => posted
  | _ => false

/-- The fields of a `NetworkEvent`. -/
def network (e : Event) : Option NetworkEvent :=
  match e.kind with
  | .networkEnqueue net | .networkDequeue net | .networkDrop net => some net
  | _ => none

/-- `HostPciRW::IsRead` and `HostConf::IsRead`. -/
def isRead (e : Event) : Bool :=
  match e.kind with
  | .hostPciRW _ _ isRead | .hostConf _ _ _ _ _ isRead => isRead
  | _ => false

end Event

/-- The function names of the configuration that decide about call events. -/
structure TraceEnvironment where
  kernelTxIndicator : List Bytes
  kernelRxIndicator : List Bytes
  pciWriteIndicators : List Bytes
  driverTxIndicator : List Bytes
  driverRxIndicator : List Bytes
  sysEntry : List Bytes

/-- An environment whose lists are empty. -/
def noNames : TraceEnvironment := ⟨[], [], [], [], [], []⟩

namespace TraceEnvironment

def getCallFunc (ev : Event) : Option Bytes :=
  match ev.kind with
  | .hostCall _ func _ => func
  | _ => none

/-- Whether the event is a call of one of the given functions. -/
def calls (names : List Bytes) (ev : Event) : Bool :=
  match getCallFunc ev with
  | none => false
  | some func => func ∈ names

variable (env : TraceEnvironment)

def isDriverTx (ev : Event) : Bool := calls env.driverTxIndicator ev

def isDriverRx (ev : Event) : Bool := calls env.driverRxIndicator ev

def isPciWrite (ev : Event) : Bool := calls env.pciWriteIndicators ev

def isKernelTx (ev : Event) : Bool := calls env.kernelTxIndicator ev

def isKernelRx (ev : Event) : Bool := calls env.kernelRxIndicator ev

def isSysEntry (ev : Event) : Bool := calls env.sysEntry ev

def isMsixNotToDeviceBarNumber (bar : Int32) : Bool := bar ≠ 0

def isToDeviceBarNumber (bar : Int32) : Bool := bar = 0

end TraceEnvironment

/-- `EventSpan`; `original` is the span that a copy was made of. -/
structure EventSpan where
  events : List Event := []
  isPending : Bool := true
  original : Option Nat := none
  deriving DecidableEq

namespace EventSpan

def getStartingTs (s : EventSpan) : Nat :=
  match s.events with
  | [] => 0xFFFFFFFFFFFFFFFF
  | first :: _ => first.getTs

def isComplete (s : EventSpan) : Bool := !s.isPending

def isPotentialAdd (s : EventSpan) (ev : Event) : Bool :=
  !s.isComplete && match s.events with
    | [] => true
    | first :: _ => first.parserIdentifier = ev.parserIdentifier

end EventSpan

structure HostCallSpan extends EventSpan where
  callSpanEntry : Option Event := none
  syscallReturn : Option Event := none
  kernelTransmit : Bool := false
  driverTransmit : Bool := false
  kernelReceive : Bool := false
  driverReceive : Bool := false
  isFragmented : Bool
  deriving DecidableEq

namespace HostCallSpan

/-- The flags that a call which is no syscall entry sets. -/
def setFlags (env : TraceEnvironment) (s : HostCallSpan) (ev : Event) : HostCallSpan :=
  if env.isKernelTx ev then { s with kernelTransmit := true }
  else if env.isDriverTx ev then { s with driverTransmit := true }
  else if env.isKernelRx ev then { s with kernelReceive := true }
  else if env.isDriverRx ev then { s with driverReceive := true }
  else s

def addToSpan (env : TraceEnvironment) (s : HostCallSpan) (ev : Event) : Bool × HostCallSpan :=
  if !s.isPotentialAdd ev then (false, s)
  else if ev.getType ≠ .kHostCallT then (false, s)
  else if env.isSysEntry ev then
    if s.isFragmented || s.callSpanEntry.isSome then
      (false, { s with
        isPending := false, syscallReturn := s.events.getLast?, isFragmented := false })
    else
      (true, { s with isPending := true, callSpanEntry := some ev, events := s.events ++ [ev] })
  else
    let s := s.setFlags env ev
    (true, { s with events := s.events ++ [ev] })

end HostCallSpan

structure HostIntSpan extends EventSpan where
  hostPostInt : Option Event := none
  hostClearInt : Option Event := none
  deriving DecidableEq

namespace HostIntSpan

def addToSpan (s : HostIntSpan) (ev : Event) : Bool × HostIntSpan :=
  if !s.isPotentialAdd ev then (false, s)
  else match ev.getType with
    | .kHostPostIntT =>
      if s.hostPostInt.isSome then (false, s)
      else (true, { s with hostPostInt := some ev, events := s.events ++ [ev] })
    | .kHostClearIntT =>
      if s.hostPostInt.isNone || s.hostClearInt.isSome then (false, s)
      else (true, { s with
        hostClearInt := some ev, isPending := false, events := s.events ++ [ev] })
    | _ => (false, s)

end HostIntSpan

structure HostDmaSpan extends EventSpan where
  hostDmaExecution : Option Event := none
  isRead : Bool := true
  hostDmaCompletion : Option Event := none
  deriving DecidableEq

namespace HostDmaSpan

def addToSpan (s : HostDmaSpan) (ev : Event) : Bool × HostDmaSpan :=
  if !s.isPotentialAdd ev then (false, s)
  else match ev.getType with
    | .kHostDmaWT | .kHostDmaRT =>
      if s.hostDmaExecution.isSome then (false, s)
      else (true, { s with
        isRead := ev.getType = .kHostDmaRT
        hostDmaExecution := some ev
        events := s.events ++ [ev] })
    | .kHostDmaCT =>
      match s.hostDmaExecution with
      | none => (false, s)
      | some exec =>
        if s.hostDmaCompletion.isSome then (false, s)
        else if exec.getId ≠ ev.getId then (false, s)
        else (true, { s with
          hostDmaCompletion := some ev, isPending := false, events := s.events ++ [ev] })
    | _ => (false, s)

end HostDmaSpan

structure HostMmioSpan extends EventSpan where
  hostMmioIssue : Option Event := none
  isRead : Bool := false
  isPosted : Bool := false
  barNumber : Int32
  imMmioResp : Option Event := none
  completion : Option Event := none
  deriving DecidableEq

namespace HostMmioSpan

def addToSpan (s : HostMmioSpan) (ev : Event) : Bool × HostMmioSpan :=
  if !s.isPotentialAdd ev then (false, s)
  else match ev.getType with
    | .kHostMmioWT | .kHostMmioRT =>
      if s.hostMmioIssue.isSome then (false, s)
      else
        let isRead := decide (ev.getType = .kHostMmioRT)
        (true, { s with
          isRead := isRead
          isPosted := if isRead then s.isPosted else ev.isPosted
          barNumber := ev.getBar
          hostMmioIssue := some ev
          isPending := if isRead && TraceEnvironment.isMsixNotToDeviceBarNumber ev.getBar
            then false else s.isPending
          events := s.events ++ [ev] })
    | .kHostMmioImRespPoWT =>
      match s.hostMmioIssue with
      | none => (false, s)
      | some issue =>
        if s.isRead || s.imMmioResp.isSome || !s.isPosted then (false, s)
        else if issue.getTs ≠ ev.getTs then (false, s)
        else (true, { s with
          imMmioResp := some ev
          isPending := if s.isPosted ||
              TraceEnvironment.isMsixNotToDeviceBarNumber s.barNumber then false else s.isPending
          events := s.events ++ [ev] })
    | .kHostMmioCWT | .kHostMmioCRT =>
      if TraceEnvironment.isMsixNotToDeviceBarNumber s.barNumber then (false, s)
      else match s.hostMmioIssue with
        | none => (false, s)
        | some issue =>
          if ev.getType = .kHostMmioCWT && (s.isRead || s.imMmioResp.isSome) then (false, s)
          else if ev.getType ≠ .kHostMmioCWT && !s.isRead then (false, s)
          else if issue.getId ≠ ev.getId then (false, s)
          else (true, { s with
            completion := some ev, isPending := false, events := s.events ++ [ev] })
    | _ => (false, s)

end HostMmioSpan

structure HostMsixSpan extends EventSpan where
  hostMsix : Option Event := none
  hostDmaC : Option Event := none
  deriving DecidableEq

namespace HostMsixSpan

def addToSpan (s : HostMsixSpan) (ev : Event) : Bool × HostMsixSpan :=
  if !s.isPotentialAdd ev then (false, s)
  else match ev.getType with
    | .kHostMsiXT =>
      if s.hostMsix.isSome then (false, s)
      else (true, { s with hostMsix := some ev, isPending := true, events := s.events ++ [ev] })
    | .kHostDmaCT =>
      if s.hostMsix.isNone || s.hostDmaC.isSome then (false, s)
      else if ev.getId ≠ 0 then (false, s)
      else (true, { s with hostDmaC := some ev, isPending := false, events := s.events ++ [ev] })
    | _ => (false, s)

end HostMsixSpan

structure HostPciSpan extends EventSpan where
  hostPciRw : Option Event := none
  hostConfRw : Option Event := none
  isRead : Bool := false
  deriving DecidableEq

namespace HostPciSpan

def addToSpan (s : HostPciSpan) (ev : Event) : Bool × HostPciSpan :=
  if !s.isPotentialAdd ev then (false, s)
  else match ev.getType with
    | .kHostPciRWT =>
      if s.hostPciRw.isSome then (false, s)
      else (true, { s with
        hostPciRw := some ev, isPending := true, isRead := ev.isRead, events := s.events ++ [ev] })
    | .kHostConfT =>
      if s.hostPciRw.isNone || s.hostConfRw.isSome then (false, s)
      else if ev.isRead ≠ s.isRead then (false, s)
      else (true, { s with hostConfRw := some ev, isPending := false, events := s.events ++ [ev] })
    | _ => (false, s)

/-- `EventSpan::MarkAsDone`. -/
def markAsDone (s : HostPciSpan) : HostPciSpan := { s with isPending := false }

end HostPciSpan

structure NicMsixSpan extends EventSpan where
  nicMsix : Option Event := none
  deriving DecidableEq

namespace NicMsixSpan

def addToSpan (s : NicMsixSpan) (ev : Event) : Bool × NicMsixSpan :=
  if !s.isPotentialAdd ev then (false, s)
  else if ev.getType ≠ .kNicMsixT then (false, s)
  else if s.nicMsix.isSome then (false, s)
  else (true, { s with nicMsix := some ev, events := s.events ++ [ev], isPending := false })

end NicMsixSpan

structure NicMmioSpan extends EventSpan where
  action : Option Event := none
  isRead : Bool := false
  deriving DecidableEq

namespace NicMmioSpan

def isWrite (s : NicMmioSpan) : Bool := !s.isRead

def addToSpan (s : NicMmioSpan) (ev : Event) : Bool × NicMmioSpan :=
  if !s.isPotentialAdd ev || s.action.isSome then (false, s)
  else match ev.getType with
    | .kNicMmioRT | .kNicMmioWT => (true, { s with
        isRead := ev.getType = .kNicMmioRT
        isPending := false
        action := some ev
        events := s.events ++ [ev] })
    | _ => (false, s)

end NicMmioSpan

structure NicDmaSpan extends EventSpan where
  dmaIssue : Option Event := none
  nicDmaExecution : Option Event := none
  nicDmaCompletion : Option Event := none
  isRead : Bool := true
  deriving DecidableEq

namespace NicDmaSpan

/-- An execution or completion belongs to the issue with its identifier and address. -/
def belongsTo (issue ev : Event) : Bool :=
  issue.getId = ev.getId && issue.getAddr = ev.getAddr

def addToSpan (s : NicDmaSpan) (ev : Event) : Bool × NicDmaSpan :=
  if !s.isPotentialAdd ev then (false, s)
  else match ev.getType with
    | .kNicDmaIT =>
      if s.dmaIssue.isSome then (false, s)
      else (true, { s with dmaIssue := some ev, events := s.events ++ [ev] })
    | .kNicDmaExT =>
      match s.dmaIssue with
      | none => (false, s)
      | some issue =>
        if s.nicDmaExecution.isSome then (false, s)
        else if !belongsTo issue ev then (false, s)
        else (true, { s with nicDmaExecution := some ev, events := s.events ++ [ev] })
    | .kNicDmaCWT | .kNicDmaCRT =>
      match s.dmaIssue with
      | none => (false, s)
      | some issue =>
        if s.nicDmaExecution.isNone || s.nicDmaCompletion.isSome then (false, s)
        else
          -- the flag is set before the event is checked
          let s := { s with isRead := ev.getType = .kNicDmaCRT }
          if !belongsTo issue ev then (false, s)
          else (true, { s with
            nicDmaCompletion := some ev, isPending := false, events := s.events ++ [ev] })
    | _ => (false, s)

end NicDmaSpan

structure NicEthSpan extends EventSpan where
  txRx : Option Event := none
  isSend : Bool := false
  deriving DecidableEq

namespace NicEthSpan

def addToSpan (s : NicEthSpan) (ev : Event) : Bool × NicEthSpan :=
  if !s.isPotentialAdd ev || s.txRx.isSome then (false, s)
  else match ev.getType with
    | .kNicTxT | .kNicRxT => (true, { s with
        isSend := ev.getType = .kNicTxT
        isPending := false
        txRx := some ev
        events := s.events ++ [ev] })
    | _ => (false, s)

end NicEthSpan

/-- What a packet does in a network device; the pointers are to network events. -/
structure NetDeviceSpan extends EventSpan where
  devEnq : Option NetworkEvent := none
  devDeq : Option NetworkEvent := none
  drop : Option NetworkEvent := none
  deviceType : Option NetworkDeviceType := none
  src : Ipv4 := ⟨0⟩
  dst : Ipv4 := ⟨0⟩
  ipsSet : Bool := false
  isArp : Bool := false
  boundaryTypes : Finset EventBoundaryType := ∅
  interestingFlag : Bool := false
  node : Int32 := -1
  device : Int32 := -1
  deriving DecidableEq

namespace NetDeviceSpan

def isDrop (s : NetDeviceSpan) : Bool := s.drop.isSome

def isConsistent (a b : NetworkEvent) : Bool :=
  if a.arpHeader.isSome && b.arpHeader.isSome && a.arpHeader ≠ b.arpHeader then false
  else if a.ipHeader.isSome && b.ipHeader.isNone || a.ipHeader.isNone && b.ipHeader.isSome then false
  else if a.ipHeader.isSome && a.ipHeader ≠ b.ipHeader then false
  else a.node = b.node && a.device = b.device && a.deviceType = b.deviceType &&
    a.packetUid = b.packetUid && a.interestingFlag = b.interestingFlag &&
    a.payloadSize = b.payloadSize

def setAndCheckPotentialArp (s : NetDeviceSpan) (net : NetworkEvent) : Bool × NetDeviceSpan :=
  match net.arpHeader with
  | none => (true, s)
  | some header =>
    if !s.ipsSet then
      (true, { s with src := header.srcIp, dst := header.dstIp, ipsSet := true, isArp := true })
    else (s.src = header.srcIp && s.dst = header.dstIp, s)

def setAndCheckPotentialIp (s : NetDeviceSpan) (net : NetworkEvent) : Bool × NetDeviceSpan :=
  match net.ipHeader with
  | none => (true, s)
  | some header =>
    if !s.ipsSet then (true, { s with src := header.srcIp, dst := header.dstIp, ipsSet := true })
    else (s.src = header.srcIp && s.dst = header.dstIp, s)

/-- Both checks, the second one only after the first one succeeded. -/
def setAndCheckPotential (s : NetDeviceSpan) (net : NetworkEvent) : Bool × NetDeviceSpan :=
  match s.setAndCheckPotentialIp net with
  | (false, s) => (false, s)
  | (true, s) => s.setAndCheckPotentialArp net

def handelEnqueue (s : NetDeviceSpan) (ev : Event) (net : NetworkEvent) : Bool × NetDeviceSpan :=
  if s.devEnq.isSome then (false, s)
  else match s.setAndCheckPotential net with
    | (false, s) => (false, s)
    | (true, s) => (true, { s with
        devEnq := some net
        deviceType := some net.deviceType
        boundaryTypes := insert net.boundaryType s.boundaryTypes
        interestingFlag := net.interestingFlag
        node := net.node
        device := net.device
        events := s.events ++ [ev] })

/-- `HandelDequeue` and `HandelDrop`, which differ in the pointer that they set. -/
def handelEnd (finish : NetDeviceSpan → NetDeviceSpan) (s : NetDeviceSpan) (ev : Event)
    (net : NetworkEvent) : Bool × NetDeviceSpan :=
  match s.devEnq with
  | none => (false, s)
  | some enq =>
    if s.drop.isSome || s.devDeq.isSome then (false, s)
    else if !isConsistent enq net then (false, s)
    else match s.setAndCheckPotential net with
      | (false, s) => (false, s)
      | (true, s) => (true, { finish s with
          isPending := false
          boundaryTypes := insert net.boundaryType s.boundaryTypes
          events := s.events ++ [ev] })

def handelDequeue (s : NetDeviceSpan) (ev : Event) (net : NetworkEvent) : Bool × NetDeviceSpan :=
  handelEnd (fun s => { s with devDeq := some net }) s ev net

def handelDrop (s : NetDeviceSpan) (ev : Event) (net : NetworkEvent) : Bool × NetDeviceSpan :=
  handelEnd (fun s => { s with drop := some net }) s ev net

def addToSpan (s : NetDeviceSpan) (ev : Event) : Bool × NetDeviceSpan :=
  if !s.isPotentialAdd ev then (false, s)
  else match ev.kind with
    | .networkEnqueue net => s.handelEnqueue ev net
    | .networkDequeue net => s.handelDequeue ev net
    | .networkDrop net => s.handelDrop ev net
    | _ => (false, s)

end NetDeviceSpan

/-- A span of one of the classes. -/
inductive SpanObject
  | hostCall (s : HostCallSpan)
  | hostInt (s : HostIntSpan)
  | hostDma (s : HostDmaSpan)
  | hostMmio (s : HostMmioSpan)
  | hostMsix (s : HostMsixSpan)
  | hostPci (s : HostPciSpan)
  | nicMsix (s : NicMsixSpan)
  | nicMmio (s : NicMmioSpan)
  | nicDma (s : NicDmaSpan)
  | nicEth (s : NicEthSpan)
  | netDevice (s : NetDeviceSpan)
  deriving DecidableEq

def SpanObject.toEventSpan : SpanObject → EventSpan
  | hostCall s => s.toEventSpan
  | hostInt s => s.toEventSpan
  | hostDma s => s.toEventSpan
  | hostMmio s => s.toEventSpan
  | hostMsix s => s.toEventSpan
  | hostPci s => s.toEventSpan
  | nicMsix s => s.toEventSpan
  | nicMmio s => s.toEventSpan
  | nicDma s => s.toEventSpan
  | nicEth s => s.toEventSpan
  | netDevice s => s.toEventSpan

/-- A class of spans; `AddToSpan` tells whether the event was added. -/
class SpanClass (St : Type) where
  type : SpanType
  toObject : St → SpanObject
  addToSpan : TraceEnvironment → St → Event → Bool × St

namespace SpanClass

instance : SpanClass HostCallSpan := ⟨.kHostCall, .hostCall, HostCallSpan.addToSpan⟩
instance : SpanClass HostIntSpan := ⟨.kHostInt, .hostInt, fun _ => HostIntSpan.addToSpan⟩
instance : SpanClass HostDmaSpan := ⟨.kHostDma, .hostDma, fun _ => HostDmaSpan.addToSpan⟩
instance : SpanClass HostMmioSpan := ⟨.kHostMmio, .hostMmio, fun _ => HostMmioSpan.addToSpan⟩
instance : SpanClass HostMsixSpan := ⟨.kHostMsix, .hostMsix, fun _ => HostMsixSpan.addToSpan⟩
instance : SpanClass HostPciSpan := ⟨.kHostPci, .hostPci, fun _ => HostPciSpan.addToSpan⟩
instance : SpanClass NicMsixSpan := ⟨.kNicMsix, .nicMsix, fun _ => NicMsixSpan.addToSpan⟩
instance : SpanClass NicMmioSpan := ⟨.kNicMmio, .nicMmio, fun _ => NicMmioSpan.addToSpan⟩
instance : SpanClass NicDmaSpan := ⟨.kNicDma, .nicDma, fun _ => NicDmaSpan.addToSpan⟩
instance : SpanClass NicEthSpan := ⟨.kNicEth, .nicEth, fun _ => NicEthSpan.addToSpan⟩
instance : SpanClass NetDeviceSpan :=
  ⟨.kNetDeviceSpan, .netDevice, fun _ => NetDeviceSpan.addToSpan⟩

/-- `IsComplete`. -/
def isComplete {St : Type} [SpanClass St] (s : St) : Bool := (toObject s).toEventSpan.isComplete

@[simp] theorem isComplete_hostCall (s : HostCallSpan) : isComplete s = !s.isPending := rfl
@[simp] theorem isComplete_hostInt (s : HostIntSpan) : isComplete s = !s.isPending := rfl
@[simp] theorem isComplete_hostDma (s : HostDmaSpan) : isComplete s = !s.isPending := rfl
@[simp] theorem isComplete_hostMmio (s : HostMmioSpan) : isComplete s = !s.isPending := rfl
@[simp] theorem isComplete_hostMsix (s : HostMsixSpan) : isComplete s = !s.isPending := rfl
@[simp] theorem isComplete_hostPci (s : HostPciSpan) : isComplete s = !s.isPending := rfl
@[simp] theorem isComplete_nicMsix (s : NicMsixSpan) : isComplete s = !s.isPending := rfl
@[simp] theorem isComplete_nicMmio (s : NicMmioSpan) : isComplete s = !s.isPending := rfl
@[simp] theorem isComplete_nicDma (s : NicDmaSpan) : isComplete s = !s.isPending := rfl
@[simp] theorem isComplete_nicEth (s : NicEthSpan) : isComplete s = !s.isPending := rfl
@[simp] theorem isComplete_netDevice (s : NetDeviceSpan) : isComplete s = !s.isPending := rfl

end SpanClass

end Columbo
