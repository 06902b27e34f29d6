import Mathlib.Data.Finset.Basic
import Mathlib.Logic.Function.Basic

/-!
# The tracer

Spans refer to trace contexts, which they may share with their clones, and traces
register spans. The tracer exports a finished span as soon as its parent was
exported; until then the span waits in the bucket of its parent. A call returns
`none` where the source terminates the program.
-/
namespace Columbo

/-- The span that another one names as its parent. Identifiers start at one. -/
structure Parent where
  id : Nat
  startTs : Nat
  valid : id ≠ 0
  deriving DecidableEq

/-- `TraceContext`; without a parent it belongs to a span that starts a trace. -/
structure TraceContext where
  traceId : Nat
  parent : Option Parent
  deriving DecidableEq

/-- A trace and a span in it, from which a child of that span can be started. -/
structure ParentRef where
  traceId : Nat
  parent : Parent
  valid : traceId ≠ 0
  deriving DecidableEq

/-- The reference to a span with so many traces and spans before it. -/
def ParentRef.nth (traces spans startTs : Nat) : ParentRef :=
  ⟨traces + 1, ⟨spans + 1, startTs, Nat.succ_ne_zero spans⟩, Nat.succ_ne_zero traces⟩

inductive Expectation
  | kTx
  | kRx
  | kDma
  | kMsix
  | kMmio
  deriving DecidableEq, Repr

/-- `Context`: what one spanner passes on to another one. It holds a copy of the
parent's identifiers, not a reference to the parent. -/
structure Context extends ParentRef where
  expectation : Expectation
  deriving DecidableEq

/-- What the tracer reads of a span: the trace context that it refers to, and
`GetStartingTs`. -/
structure TracedSpan where
  context : Nat
  startingTs : Nat
  deriving DecidableEq

/-- The first event of a new span: its timestamp, and whether `AddToSpan` of the
span's class takes it. -/
structure StartingEvent where
  ts : Nat
  accepted : Bool
  deriving DecidableEq

/-- `OtlpSpanExporter`, with the keys of its two maps. The spans handed to
`ExportSpan` are recorded in their order. -/
structure OtlpSpanExporter where
  contextMap : Finset Nat
  spanMap : Finset Nat
  exported : List Nat

namespace OtlpSpanExporter

def insertNewContext (e : OtlpSpanExporter) (spanId : Nat) : Option OtlpSpanExporter :=
  if spanId ≠ 0 ∧ spanId ∉ e.contextMap then
    some { e with contextMap := insert spanId e.contextMap }
  else none

/-- `GetContext` fails on a span that was not exported. -/
def getContext (e : OtlpSpanExporter) (spanId : Nat) : Option OtlpSpanExporter :=
  if spanId ≠ 0 ∧ spanId ∈ e.contextMap then some e else none

def insertNewSpan (e : OtlpSpanExporter) (spanId : Nat) : Option OtlpSpanExporter :=
  if spanId ∉ e.spanMap then some { e with spanMap := insert spanId e.spanMap } else none

def removeSpan (e : OtlpSpanExporter) (spanId : Nat) : Option OtlpSpanExporter :=
  if spanId ∈ e.spanMap then some { e with spanMap := e.spanMap.erase spanId } else none

def getSpanStartOpts (e : OtlpSpanExporter) : Option Nat → Option OtlpSpanExporter
  | none => some e
  | some parentId => e.getContext parentId

def startSpan (e : OtlpSpanExporter) (spanId : Nat) (parentId : Option Nat) :
    Option OtlpSpanExporter := do
  let e ← e.getSpanStartOpts parentId
  let e ← e.insertNewSpan spanId
  e.insertNewContext spanId

def endSpan (e : OtlpSpanExporter) (spanId : Nat) : Option OtlpSpanExporter :=
  e.removeSpan spanId

def exportSpan (e : OtlpSpanExporter) (spanId : Nat) (parentId : Option Nat) :
    Option OtlpSpanExporter := do
  let e ← e.startSpan spanId parentId
  let e ← e.endSpan spanId
  some { e with exported := e.exported ++ [spanId] }

end OtlpSpanExporter

/-- The tracer together with the spans and contexts that live on the heap. -/
@[ext] structure Tracer where
  spans : Nat → TracedSpan
  contexts : Nat → TraceContext
  traces : Nat → Option (List Nat)
  exportedSpans : Finset Nat
  waitingList : Nat → Option (List Nat)
  exporter : OtlpSpanExporter
  nextSpanId : Nat
  nextTraceId : Nat
  nextContextId : Nat

namespace Tracer

/-- A new tracer; the counters of the environment start at one. -/
def init : Tracer where
  spans := fun _ => ⟨0, 0⟩
  contexts := fun _ => ⟨0, none⟩
  traces := fun _ => none
  exportedSpans := ∅
  waitingList := fun _ => none
  exporter := ⟨∅, ∅, []⟩
  nextSpanId := 1
  nextTraceId := 1
  nextContextId := 1

/-- The identifiers of spans that were constructed. -/
def IsSpan (t : Tracer) (span : Nat) : Prop := 0 < span ∧ span < t.nextSpanId

instance (t : Tracer) (span : Nat) : Decidable (t.IsSpan span) :=
  inferInstanceAs (Decidable (_ ∧ _))

/-- `EventSpan::GetContext`. -/
def contextOf (t : Tracer) (span : Nat) : TraceContext := t.contexts (t.spans span).context

/-- `EventSpan::GetTraceId`. -/
def traceIdOf (t : Tracer) (span : Nat) : Nat := (t.contextOf span).traceId

/-- `EventSpan::HasParent` and `EventSpan::GetParentId`. -/
def parentOf (t : Tracer) (span : Nat) : Option Nat := (t.contextOf span).parent.map Parent.id

/-- `GetValidTraceId`, `GetValidId` and `GetStartingTs` of a span. -/
def parentRef (t : Tracer) (span : Nat) : Option ParentRef :=
  if hspan : span ≠ 0 then
    if htrace : t.traceIdOf span ≠ 0 then
      some ⟨t.traceIdOf span, ⟨span, (t.spans span).startingTs, hspan⟩, htrace⟩
    else none
  else none

/-- `Context::CreatePassOnContext`. -/
def createPassOnContext (t : Tracer) (exp : Expectation) (span : Nat) : Option Context :=
  (t.parentRef span).map fun ref => ⟨ref, exp⟩

def insertTrace (t : Tracer) (traceId : Nat) (span : Nat) : Option Tracer :=
  if (t.traces traceId).isNone then
    some { t with traces := Function.update t.traces traceId (some [span]) }
  else none

def removeTrace (t : Tracer) (traceId : Nat) : Option Tracer :=
  if (t.traces traceId).isSome then
    some { t with traces := Function.update t.traces traceId none }
  else none

/-- `AddSpanToTraceIfTraceExists`; `Trace::AddSpan` fails on a span that is already
registered. -/
def addSpanToTraceIfTraceExists (t : Tracer) (traceId span : Nat) : Option Tracer :=
  match t.traces traceId with
  | none => some t
  | some ids =>
    if span ∉ ids then
      some { t with traces := Function.update t.traces traceId (some (ids ++ [span])) }
    else none

/-- `Trace::GetSpansAndRemoveSpans` of an existing trace. -/
def getSpansAndRemoveSpans (t : Tracer) (traceId : Nat) : List Nat × Tracer :=
  ((t.traces traceId).getD [], { t with traces := Function.update t.traces traceId (some []) })

def safeToDeleteTrace (t : Tracer) (traceId : Nat) : Bool :=
  match t.traces traceId with
  | none => false
  | some ids => ids.all (· ∈ t.exportedSpans)

/-- A new `TraceContext` object. -/
def newContext (t : Tracer) (c : TraceContext) : Nat × Tracer :=
  (t.nextContextId, { t with
    contexts := Function.update t.contexts t.nextContextId c
    nextContextId := t.nextContextId + 1 })

/-- `RegisterCreateContextParent`. -/
def registerCreateContextParent (t : Tracer) (ref : ParentRef) : Nat × Tracer :=
  t.newContext ⟨ref.traceId, some ref.parent⟩

/-- `RegisterCreateContext`. -/
def registerCreateContext (t : Tracer) (traceId : Nat) : Nat × Tracer :=
  t.newContext ⟨traceId, none⟩

/-- The constructor of `EventSpan`. -/
def newSpan (t : Tracer) (context : Nat) (ts : Nat) : Nat × Tracer :=
  (t.nextSpanId, { t with
    spans := Function.update t.spans t.nextSpanId ⟨context, ts⟩
    nextSpanId := t.nextSpanId + 1 })

/-- A change of the `TraceContext` object that a span refers to. -/
def modifyContext (t : Tracer) (span : Nat) (f : TraceContext → TraceContext) : Tracer :=
  { t with
    contexts := Function.update t.contexts (t.spans span).context (f (t.contextOf span)) }

/-- `TraceContext::SetTraceId`. -/
def setTraceId (t : Tracer) (span traceId : Nat) : Tracer :=
  t.modifyContext span fun c => { c with traceId := traceId }

/-- `TraceContext::SetParentIdAndTs`. -/
def setParentIdAndTs (t : Tracer) (span : Nat) (p : Parent) : Tracer :=
  t.modifyContext span fun c => { c with parent := some p }

/-- `StartSpanByParentInternal`. -/
def startSpanByParentInternal (t : Tracer) (ref : ParentRef) (ev : StartingEvent) :
    Option Tracer :=
  let (context, t) := t.registerCreateContextParent ref
  let (span, t) := t.newSpan context ev.ts
  if ev.accepted then t.addSpanToTraceIfTraceExists ref.traceId span else none

/-- `StartSpanInternal`. -/
def startSpanInternal (t : Tracer) (ev : StartingEvent) : Option Tracer :=
  let traceId := t.nextTraceId
  let t := { t with nextTraceId := traceId + 1 }
  let (context, t) := t.registerCreateContext traceId
  let (span, t) := t.newSpan context ev.ts
  if ev.accepted then t.insertTrace traceId span else none

def insertExportedSpan (t : Tracer) (span : Nat) : Option Tracer :=
  if span ≠ 0 ∧ span ∉ t.exportedSpans then
    some { t with exportedSpans := insert span t.exportedSpans }
  else none

def wasParentExported (t : Tracer) (child : Nat) : Bool :=
  match t.parentOf child with
  | none => true
  | some parentId => parentId ∈ t.exportedSpans

def markSpanAsExported (t : Tracer) (span : Nat) : Option Tracer := t.insertExportedSpan span

def exportSpan (t : Tracer) (span : Nat) : Option Tracer :=
  (t.exporter.exportSpan span (t.parentOf span)).map fun e => { t with exporter := e }

def markSpanAsWaitingForParent (t : Tracer) (span : Nat) : Tracer :=
  match t.parentOf span with
  | none => t
  | some parentId =>
    match t.waitingList parentId with
    | some waitVec => { t with
        waitingList := Function.update t.waitingList parentId (some (waitVec ++ [span])) }
    | none => { t with waitingList := Function.update t.waitingList parentId (some [span]) }

/-- The body of the loop of `ExportWaitingForParentVec`, with the recursive call. -/
def exportWaiter (recurse : Tracer → Nat → Option Tracer) (t : Tracer) (waiter : Nat) :
    Option Tracer := do
  let parentId ← t.parentOf waiter
  if parentId ∈ t.exportedSpans then
    let t ← t.markSpanAsExported waiter
    let t ← t.exportSpan waiter
    recurse t waiter
  else none

/-- `ExportWaitingForParentVec`: the copy of the bucket is exported, each waiter with
the spans that wait for it, before the bucket is erased. Every level of the recursion
exports a span, so the number of spans is enough fuel. -/
def exportWaitingForParentVec : Nat → Tracer → Nat → Option Tracer
  | 0, _, _ => none
  | fuel + 1, t, parent =>
    match t.waitingList parent with
    | none => some t
    | some waiters => do
      let t ← waiters.foldlM (exportWaiter (exportWaitingForParentVec fuel)) t
      some { t with waitingList := Function.update t.waitingList parent none }

/-- `StartSpan`. -/
def startSpan (t : Tracer) (ev : StartingEvent) : Option Tracer := t.startSpanInternal ev

/-- `StartSpanByParent` and `StartSpanByParentPassOnContext`, once they hold the lock. -/
def startSpanByParent (t : Tracer) (ref : ParentRef) (ev : StartingEvent) : Option Tracer :=
  t.startSpanByParentInternal ref ev

/-- `StartOrphanSpan`: the context has no valid trace and no trace registers the span. -/
def startOrphanSpan (t : Tracer) (ev : StartingEvent) : Option Tracer :=
  let (context, t) := t.newContext ⟨0, none⟩
  let (_, t) := t.newSpan context ev.ts
  if ev.accepted then some t else none

/-- `CloneShared`: the copy gets an identifier of its own, and shares the context. -/
def cloneShared (t : Tracer) (other : Nat) : Tracer :=
  (t.newSpan (t.spans other).context (t.spans other).startingTs).2

/-- `EventSpan::SetContext` with a context that has a parent, overriding. -/
def setContext (t : Tracer) (span context : Nat) (p : Parent) : Option Tracer :=
  if p.startTs > (t.spans span).startingTs then none
  else some { t with
    spans := Function.update t.spans span { t.spans span with context := context } }

/-- `StartSpanSetParentContext`. -/
def startSpanSetParentContext (t : Tracer) (span : Nat) (ref : ParentRef) : Option Tracer := do
  let (context, t) := t.registerCreateContextParent ref
  let t ← t.setContext span context ref.parent
  t.addSpanToTraceIfTraceExists ref.traceId span

/-- The body of the loop of `AddParentLazily`, which skips the span itself. -/
def moveChild (span newTraceId : Nat) (t : Tracer) (child : Nat) : Option Tracer :=
  if child = span then some t
  else (t.setTraceId child newTraceId).addSpanToTraceIfTraceExists newTraceId child

/-- `AddParentLazily`: the spans of the old trace move to the trace of the context. -/
def addParentLazily (t : Tracer) (span : Nat) (c : ParentRef) : Option Tracer := do
  let oldTraceId := t.traceIdOf span
  if (t.traces oldTraceId).isSome then
    let t := t.setTraceId span c.traceId
    let t := t.setParentIdAndTs span c.parent
    let t ← t.addSpanToTraceIfTraceExists c.traceId span
    let (children, t) := t.getSpansAndRemoveSpans oldTraceId
    let t ← children.foldlM (moveChild span c.traceId) t
    t.removeTrace oldTraceId
  else none

/-- `MarkSpanAsDone`. -/
def markSpanAsDone (t : Tracer) (span : Nat) : Option Tracer :=
  let traceId := t.traceIdOf span
  if t.wasParentExported span then do
    let t ← t.markSpanAsExported span
    let t ← t.exportSpan span
    let t ← exportWaitingForParentVec t.nextSpanId t span
    if t.safeToDeleteTrace traceId then t.removeTrace traceId else some t
  else some (t.markSpanAsWaitingForParent span)

end Tracer

/-- A call of one of the spanners. `StartSpanByParent` reads its parent before it
takes the lock, so it is two calls: other calls can come between them. -/
inductive TracerCall
  | startSpan (ev : StartingEvent)
  | readParent (span : Nat)
  | startSpanByParent (ref : ParentRef) (ev : StartingEvent)
  | createPassOnContext (exp : Expectation) (span : Nat)
  | startSpanByParentPassOnContext (c : Context) (ev : StartingEvent)
  | startOrphanSpan (ev : StartingEvent)
  | cloneShared (span : Nat)
  | startSpanSetParentContext (span : Nat) (c : Context)
  | addParentLazily (span : Nat) (c : Context)
  | markSpanAsDone (span : Nat)

/-- The tracer, what its callers hold (parents read for `StartSpanByParent`, contexts
that travel through channels), the spans created by `StartSpan` and the spans passed
to `MarkSpanAsDone`. -/
structure Session where
  tracer : Tracer
  refs : List ParentRef
  contexts : List Context
  started : List Nat
  done : Finset Nat

namespace Session

def init : Session := ⟨Tracer.init, [], [], [], ∅⟩

def withTracer (st : Session) (t : Tracer) : Session := { st with tracer := t }

/-- One call, as an atomic step. -/
def call (st : Session) : TracerCall → Option Session
  | .startSpan ev => (st.tracer.startSpan ev).map fun t =>
      { st with tracer := t, started := st.tracer.nextSpanId :: st.started }
  | .readParent span => (st.tracer.parentRef span).map fun ref =>
      { st with refs := ref :: st.refs }
  | .startSpanByParent ref ev => (st.tracer.startSpanByParent ref ev).map st.withTracer
  | .createPassOnContext exp span => (st.tracer.createPassOnContext exp span).map fun c =>
      { st with contexts := c :: st.contexts }
  | .startSpanByParentPassOnContext c ev =>
      (st.tracer.startSpanByParent c.toParentRef ev).map st.withTracer
  | .startOrphanSpan ev => (st.tracer.startOrphanSpan ev).map st.withTracer
  | .cloneShared span => some (st.withTracer (st.tracer.cloneShared span))
  | .startSpanSetParentContext span c =>
      (st.tracer.startSpanSetParentContext span c.toParentRef).map st.withTracer
  | .addParentLazily span c =>
      (st.tracer.addParentLazily span c.toParentRef).map st.withTracer
  | .markSpanAsDone span => (st.tracer.markSpanAsDone span).map fun t =>
      { st with tracer := t, done := insert span st.done }

/-- The spans and contexts of a call come from the run. -/
def Available (st : Session) : TracerCall → Prop
  | .startSpan _ => True
  | .readParent span => st.tracer.IsSpan span
  | .startSpanByParent ref _ => ref ∈ st.refs
  | .createPassOnContext _ span => st.tracer.IsSpan span
  | .startSpanByParentPassOnContext c _ => c ∈ st.contexts
  | .startOrphanSpan _ => True
  | .cloneShared span => st.tracer.IsSpan span
  | .startSpanSetParentContext span c => st.tracer.IsSpan span ∧ c ∈ st.contexts
  | .addParentLazily span c => st.tracer.IsSpan span ∧ c ∈ st.contexts
  | .markSpanAsDone span => st.tracer.IsSpan span

instance (st : Session) (call : TracerCall) : Decidable (st.Available call) := by
  refine call.casesOn ?_ ?_ ?_ ?_ ?_ ?_ ?_ ?_ ?_ ?_ <;> intros <;> unfold Available <;> infer_instance

end Session

end Columbo
