import Columbo.Spanner

/-!
# The spanner of the network

Every device of the network has a span for a packet, from its arrival to its departure.
Packets that come from a NIC bring a context along, and contexts go to the NIC with
packets that leave the network.
-/
namespace Columbo

/-- `NodeDeviceFilter`. -/
structure NodeDeviceFilter where
  interestingNodeDevicePairs : List (Int32 × Int32)

namespace NodeDeviceFilter

def isInterestingNodeDevice (filter : NodeDeviceFilter) (net : NetworkEvent) : Bool :=
  (net.node, net.device) ∈ filter.interestingNodeDevicePairs

def isNotInterestingNodeDevice (filter : NodeDeviceFilter) (net : NetworkEvent) : Bool :=
  !filter.isInterestingNodeDevice net

end NodeDeviceFilter

/-- `NodeDeviceToChannelMap`. -/
abbrev NodeDeviceToChannelMap := Int32 → Int32 → Option Channel

/-- The channels of the spanner of the network. -/
structure NetworkQueues where
  fromHost : NodeDeviceToChannelMap
  toHost : NodeDeviceToChannelMap

structure NetworkSpanner where
  lastFinishedDeviceSpan : Option (Allocated NetDeviceSpan) := none
  currentActiveDeviceSpans : List (Allocated NetDeviceSpan) := []

namespace NetworkSpanner

open Spanner

variable (env : TraceEnvironment) (queues : NetworkQueues) (filter : NodeDeviceFilter)

/-- The connection to the receiving NIC, at the end of the last device. -/
def connectToAdapter (s : Allocated NetDeviceSpan) : Spanning Unit :=
  if .kToAdapter ∈ s.span.boundaryTypes ∧ !s.span.isDrop then do
    whenever (!s.span.ipsSet) throw
    let toHost ← throwIfEmpty (queues.toHost s.span.node s.span.device)
    pushPropagateContext .kRx toHost s.id
  else return ()

/-- `HandelNetworkEvent` of an event that an active span took. -/
def finishDeviceSpan (st : NetworkSpanner) (s : Allocated NetDeviceSpan) :
    Spanning (Bool × NetworkSpanner) := do
  whenever (!isComplete s) throw
  connectToAdapter queues s
  markSpanAsDone s
  return (true, { st with lastFinishedDeviceSpan := some s })

/-- The parent of a span that starts with an interesting event. -/
def contextToConnectWith (st : NetworkSpanner) (net : NetworkEvent) : Spanning Context :=
  if net.boundaryType = .kFromAdapter then do
    whenever (net.deviceType ≠ .kCosimNetDevice) throw
    let fromHost ← throwIfEmpty (queues.fromHost net.node net.device)
    let context ← popPropagateContext fromHost (some .kRx)
    whenever (context.expectation ≠ .kRx) throw
    return context
  else do
    let last ← throwIfEmpty st.lastFinishedDeviceSpan
    perform (.createPassOnContext .kRx last.id)

/-- `HandelNetworkEvent` of an event that no active span took. -/
def startDeviceSpan (st : NetworkSpanner) (ev : Event) (net : NetworkEvent) :
    Spanning (Bool × NetworkSpanner) :=
  if ev.getType ≠ .kNetworkEnqueueT then return (false, st)
  else if !net.interestingFlag then
    if filter.isInterestingNodeDevice net && net.deviceType = .kCosimNetDevice then do
      let s ← startSpan env ({ } : NetDeviceSpan) ev
      return (true, { st with
        currentActiveDeviceSpans := st.currentActiveDeviceSpans ++ [s] })
    else return (true, st)
  else do
    let context ← contextToConnectWith queues st net
    let s ← startSpanByParentPassOnContext env ({ } : NetDeviceSpan) context ev
    return (true, { st with
      currentActiveDeviceSpans := st.currentActiveDeviceSpans ++ [s] })

def handelNetworkEvent (st : NetworkSpanner) (ev : Event) : Spanning (Bool × NetworkSpanner) :=
  match ev.network with
  | none => return (false, st)
  | some net =>
    if net.interestingFlag && filter.isNotInterestingNodeDevice net then return (true, st)
    else do
      let (found, active) ← iterateAddErase env st.currentActiveDeviceSpans ev
      let st := { st with currentActiveDeviceSpans := active }
      match found with
      | some s => finishDeviceSpan queues st s
      | none => startDeviceSpan env queues filter st ev net

/-- `consume` with the handler that the constructor registers. -/
def consume (st : NetworkSpanner) (ev : Event) : Spanning (Bool × NetworkSpanner) :=
  match ev.getType with
  | .kNetworkEnqueueT | .kNetworkDequeueT | .kNetworkDropT =>
    handelNetworkEvent env queues filter st ev
  | _ => return (false, st)

/-- A fresh spanner handles the events in their order. -/
def consumeAll (evs : List Event) : Spanning NetworkSpanner :=
  evs.foldlM (fun st ev => return (← consume env queues filter st ev).2) { }

end NetworkSpanner

end Columbo
