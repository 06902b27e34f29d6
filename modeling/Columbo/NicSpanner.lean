import Columbo.Spanner

/-!
# The spanner of a NIC

Register accesses and received packets come with a context from the host or from the
network. What the NIC does next is attributed to the last of these, and contexts for it
go to the host and to the network.
-/
namespace Columbo

/-- The channels of the spanner of a NIC. -/
structure NicQueues where
  toNetwork : Channel
  fromNetwork : Channel
  toHost : Channel
  fromHost : Channel
  toHostReceives : Channel

/-- `lastCausing` is the identifier of the span; nothing else of it is used. -/
structure NicSpanner where
  lastCausing : Option Nat := none
  pendingNicDmaSpans : List (Allocated NicDmaSpan) := []

namespace NicSpanner

open Spanner

variable (env : TraceEnvironment) (queues : NicQueues)

def handelMmio (st : NicSpanner) (ev : Event) : Spanning (Bool × NicSpanner) := do
  let con ← popPropagateContext queues.fromHost (some .kMmio)
  if con.expectation ≠ .kMmio then return (false, st)
  let mmio ← startSpanByParentPassOnContext env ({ } : NicMmioSpan) con ev
  markSpanAsDone mmio
  return (true, if mmio.span.isWrite then { st with lastCausing := some mmio.id } else st)

/-- A span that an event was added to is finished, or the host expects the operation. -/
def announceDma (dma : Allocated NicDmaSpan) (ev : Event) : Spanning Unit :=
  if isComplete dma then markSpanAsDone dma
  else whenever (ev.getType = .kNicDmaExT) (pushPropagateContext .kDma queues.toHost dma.id)

def handelDma (st : NicSpanner) (ev : Event) : Spanning (Bool × NicSpanner) := do
  let (found, pending) ← iterateAddErase env st.pendingNicDmaSpans ev
  let st := { st with pendingNicDmaSpans := pending }
  match found with
  | some dma =>
    announceDma queues dma ev
    return (true, st)
  | none =>
    if ev.getType ≠ .kNicDmaIT then return (false, st)
    let parent ← throwIfEmpty st.lastCausing
    let dma ← startSpanByParent env ({ } : NicDmaSpan) parent ev
    return (true, { st with pendingNicDmaSpans := st.pendingNicDmaSpans ++ [dma] })

def handelTx (st : NicSpanner) (ev : Event) : Spanning (Bool × NicSpanner) := do
  let parent ← throwIfEmpty st.lastCausing
  let eth ← startSpanByParent env ({ } : NicEthSpan) parent ev
  pushPropagateContext .kRx queues.toNetwork eth.id
  markSpanAsDone eth
  return (true, st)

def handelRx (st : NicSpanner) (ev : Event) : Spanning (Bool × NicSpanner) := do
  let con ← popPropagateContext queues.fromNetwork (some .kRx)
  whenever (con.expectation ≠ .kRx) throw
  let eth ← startSpanByParentPassOnContext env ({ } : NicEthSpan) con ev
  pushPropagateContext .kRx queues.toHostReceives eth.id
  markSpanAsDone eth
  return (true, { st with lastCausing := some eth.id })

/-- `HandelTxrx`. -/
def handelTxrx (st : NicSpanner) (ev : Event) : Spanning (Bool × NicSpanner) :=
  if ev.getType = .kNicTxT then handelTx env queues st ev
  else if ev.getType = .kNicRxT then handelRx env queues st ev
  else return (false, st)

def handelMsix (st : NicSpanner) (ev : Event) : Spanning (Bool × NicSpanner) := do
  let parent ← throwIfEmpty st.lastCausing
  let msix ← startSpanByParent env ({ } : NicMsixSpan) parent ev
  markSpanAsDone msix
  pushPropagateContext .kMsix queues.toHost msix.id
  return (true, st)

/-- `consume` with the handlers that the constructor registers. -/
def consume (st : NicSpanner) (ev : Event) : Spanning (Bool × NicSpanner) :=
  match ev.getType with
  | .kNicMmioWT | .kNicMmioRT => handelMmio env queues st ev
  | .kNicDmaIT | .kNicDmaExT | .kNicDmaCWT | .kNicDmaCRT => handelDma env queues st ev
  | .kNicTxT | .kNicRxT => handelTxrx env queues st ev
  | .kNicMsixT => handelMsix env queues st ev
  | _ => return (false, st)

/-- A fresh spanner handles the events in their order. -/
def consumeAll (evs : List Event) : Spanning NicSpanner :=
  evs.foldlM (fun st ev => return (← consume env queues st ev).2) { }

end NicSpanner

end Columbo
