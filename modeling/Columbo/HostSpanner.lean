import Columbo.Spanner

/-!
# The spanner of a host

Calls of the kernel start traces; the memory accesses, interrupts and configuration
accesses of the host belong to the pending call. Contexts go to the NIC for accesses to
its registers, and come from it for DMA, interrupts and received packets.
-/
namespace Columbo

/-- The channels of the spanner of a host. -/
structure HostQueues where
  toNic : Channel
  fromNic : Channel
  fromNicReceives : Channel

structure HostSpanner where
  pciWriteBefore : Bool := false
  pendingHostCallSpan : Option (Allocated HostCallSpan) := none
  pendingHostIntSpan : Option (Allocated HostIntSpan) := none
  pendingHostMsixSpan : Option (Allocated HostMsixSpan) := none
  pendingHostDmaSpans : List (Allocated HostDmaSpan) := []
  pendingHostMmioSpans : List (Allocated HostMmioSpan) := []
  pendingPciSpan : Option (Allocated HostPciSpan) := none

namespace HostSpanner

open Spanner

variable (env : TraceEnvironment) (queues : HostQueues) (rounds : Nat)

/-- The loop of `FinishPendingSpan`: a copy of the call span for every further context
that arrived before the call. The source does not bound the number of rounds. -/
def copyForReceives (call : Allocated HostCallSpan) : Nat → Spanning Unit
  | 0 => throw
  | rounds + 1 => do
    let next ← perform (.tryPopOnTrue queues.fromNicReceives call.span.getStartingTs)
    match (next : Option Context) with
    | none => return ()
    | some context =>
      let copy ← perform (.cloneShared call.id)
      let copySpan : Allocated HostCallSpan :=
        ⟨copy, { call.span with original := some call.id }⟩
      perform (.startSpanSetParentContext copySpan.id context)
      markSpanAsDone copySpan
      copyForReceives call rounds

def finishPendingSpan (st : HostSpanner) : Spanning Unit :=
  match st.pendingHostCallSpan with
  | none => return ()
  | some call =>
    if !call.span.kernelReceive then markSpanAsDone call
    else do
      let context ← popPropagateContext queues.fromNicReceives none
      perform (.addParentLazily call.id context)
      copyForReceives queues call rounds
      markSpanAsDone call

def createTraceStartingSpan (st : HostSpanner) (startingEvent : Event) (fragmented : Bool) :
    Spanning HostSpanner := do
  finishPendingSpan queues rounds st
  let call ← startSpan env ({ isFragmented := fragmented } : HostCallSpan) startingEvent
  return { st with pendingHostCallSpan := some call, pciWriteBefore := false }

/-- The first step of `HandelCall`. -/
def ensureCallSpan (st : HostSpanner) (ev : Event) : Spanning HostSpanner :=
  if st.pendingHostCallSpan.isNone then createTraceStartingSpan env queues rounds st ev false
  else pure st

/-- `HandelCall` when there is a call span. -/
def addCall (st : HostSpanner) (ev : Event) : Spanning (Bool × HostSpanner) := do
  let call ← throwIfEmpty st.pendingHostCallSpan
  let (added, call) ← addToSpan env call ev
  let st := { st with pendingHostCallSpan := some call }
  if added then
    return (true, { st with pciWriteBefore := env.isPciWrite ev })
  else if isComplete call then
    let st ← createTraceStartingSpan env queues rounds st ev false
    return (true, st)
  else
    return (false, st)

def handelCall (st : HostSpanner) (ev : Event) : Spanning (Bool × HostSpanner) := do
  let st ← ensureCallSpan env queues rounds st ev
  addCall env queues rounds st ev

def handelMmio (st : HostSpanner) (ev : Event) : Spanning (Bool × HostSpanner) := do
  let (found, pending) ← iterateAddErase env st.pendingHostMmioSpans ev
  let st := { st with pendingHostMmioSpans := pending }
  match found with
  | some mmio =>
    whenever (isComplete mmio) (markSpanAsDone mmio)
    return (true, st)
  | none =>
    let call ← throwIfEmpty st.pendingHostCallSpan
    let mmio ← startSpanByParent env ({ barNumber := ev.getBar } : HostMmioSpan) call.id ev
    whenever (!st.pciWriteBefore && TraceEnvironment.isToDeviceBarNumber mmio.span.barNumber)
      (pushPropagateContext .kMmio queues.toNic mmio.id)
    whenever (TraceEnvironment.isMsixNotToDeviceBarNumber mmio.span.barNumber && isComplete mmio)
      (markSpanAsDone mmio)
    return (true, { st with pendingHostMmioSpans := st.pendingHostMmioSpans ++ [mmio] })

/-- The pending span, which got no configuration event. -/
def finishPciSpan (st : HostSpanner) : Spanning Unit :=
  match st.pendingPciSpan with
  | none => return ()
  | some pci =>
    if pci.span.events.isEmpty then throw
    else markSpanAsDone { pci with span := pci.span.markAsDone }

/-- `HandelPci` of an event that starts a span. -/
def handelPciStart (st : HostSpanner) (ev : Event) : Spanning (Bool × HostSpanner) := do
  finishPciSpan st
  let call ← throwIfEmpty st.pendingHostCallSpan
  let pci ← startSpanByParent env ({ } : HostPciSpan) call.id ev
  return (true, { st with pendingPciSpan := some pci })

def handelPci (st : HostSpanner) (ev : Event) : Spanning (Bool × HostSpanner) :=
  match st.pendingPciSpan with
  | some pci =>
    if ev.getType = .kHostConfT then do
      let (couldBeAdded, pci) ← addToSpan env pci ev
      whenever (!couldBeAdded) throw
      markSpanAsDone pci
      return (true, { st with pendingPciSpan := none })
    else handelPciStart env st ev
  | none => handelPciStart env st ev

/-- `HandelDma` of an event that does not belong to the pending interrupt. -/
def handelDmaSpans (st : HostSpanner) (ev : Event) : Spanning (Bool × HostSpanner) := do
  let (found, pending) ← iterateAddErase env st.pendingHostDmaSpans ev
  let st := { st with pendingHostDmaSpans := pending }
  match found with
  | some dma =>
    whenever (isComplete dma) (markSpanAsDone dma)
    return (true, st)
  | none =>
    let con ← popPropagateContext queues.fromNic (some .kDma)
    if con.expectation ≠ .kDma then return (false, st)
    if ev.getType = .kHostDmaCT then return (false, st)
    let dma ← startSpanByParentPassOnContext env ({ } : HostDmaSpan) con ev
    return (true, { st with pendingHostDmaSpans := st.pendingHostDmaSpans ++ [dma] })

def handelDma (st : HostSpanner) (ev : Event) : Spanning (Bool × HostSpanner) :=
  match st.pendingHostMsixSpan with
  | none => handelDmaSpans env queues st ev
  | some msix => do
    let (added, msix) ← addToSpan env msix ev
    if added then
      markSpanAsDone msix
      return (true, { st with pendingHostMsixSpan := none })
    else handelDmaSpans env queues { st with pendingHostMsixSpan := some msix } ev

def handelMsix (st : HostSpanner) (ev : Event) : Spanning (Bool × HostSpanner) := do
  let con ← popPropagateContext queues.fromNic (some .kMsix)
  if con.expectation ≠ .kMsix then return (false, st)
  let msix ← startSpanByParentPassOnContext env ({ } : HostMsixSpan) con ev
  return (true, { st with pendingHostMsixSpan := some msix })

def handelInt (st : HostSpanner) (ev : Event) : Spanning (Bool × HostSpanner) :=
  match st.pendingHostIntSpan with
  | none => do
    let call ← throwIfEmpty st.pendingHostCallSpan
    let int ← startSpanByParent env ({ } : HostIntSpan) call.id ev
    return (true, { st with pendingHostIntSpan := some int })
  | some int => do
    let (added, int) ← addToSpan env int ev
    let st := { st with pendingHostIntSpan := some int }
    if !added then return (false, st)
    if !isComplete int then return (false, st)
    markSpanAsDone int
    return (true, { st with pendingHostIntSpan := none })

/-- `consume` with the handlers that the constructor registers. -/
def consume (st : HostSpanner) (ev : Event) : Spanning (Bool × HostSpanner) :=
  match ev.getType with
  | .kHostCallT => handelCall env queues rounds st ev
  | .kHostMmioWT | .kHostMmioRT | .kHostMmioImRespPoWT | .kHostMmioCWT | .kHostMmioCRT =>
    handelMmio env queues st ev
  | .kHostPciRWT | .kHostConfT => handelPci env st ev
  | .kHostDmaWT | .kHostDmaRT | .kHostDmaCT => handelDma env queues st ev
  | .kHostMsiXT => handelMsix env queues st ev
  | .kHostPostIntT | .kHostClearIntT => handelInt env st ev
  | _ => return (false, st)

/-- A fresh spanner handles the events in their order. -/
def consumeAll (evs : List Event) : Spanning HostSpanner :=
  evs.foldlM (fun st ev => return (← consume env queues rounds st ev).2) { }

end HostSpanner

end Columbo
