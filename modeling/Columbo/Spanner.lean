import Columbo.Coroutine
import Columbo.Span
import Columbo.Tracer

/-!
# Spanners

A spanner handles the events of one simulator. It holds the spans that are not finished
yet; what it shares with the others are the tracer and the channels on which contexts
are passed on. Handlers are coroutines over the operations on what is shared: an
operation is atomic, and between two of them the other spanners may run.
-/
namespace Columbo

/-- A channel of contexts, which several spanners may refer to. -/
abbrev Channel := Nat

/-- The operations of a spanner. `addEvent` is the `push_back` of `AddToSpan` to the
events of a span that exists; `pop` names the expectation that the caller checks. -/
inductive Command
  | startSpan (type : SpanType) (ev : Event) (accepted : Bool)
  | readParent (span : Nat)
  | startSpanByParent (type : SpanType) (ref : ParentRef) (ev : Event) (accepted : Bool)
  | startSpanByParentPassOnContext (type : SpanType) (c : Context) (ev : Event) (accepted : Bool)
  | cloneShared (span : Nat)
  | startSpanSetParentContext (span : Nat) (c : Context)
  | addParentLazily (span : Nat) (c : Context)
  | markSpanAsDone (span : Nat) (content : SpanObject)
  | addEvent (span : Nat) (ev : Event)
  | createPassOnContext (exp : Expectation) (span : Nat)
  | push (dest : Channel) (c : Context)
  | pop (source : Channel) (expected : Option Expectation)
  | tryPopOnTrue (source : Channel) (syscallStart : Nat)
  | terminate

/-- What an operation returns; a new span is known by its identifier. -/
def Command.Response : Command → Type
  | .startSpan .. | .startSpanByParent .. | .startSpanByParentPassOnContext .. => Nat
  | .cloneShared _ => Nat
  | .readParent _ => ParentRef
  | .createPassOnContext .. | .pop .. => Context
  | .tryPopOnTrue .. => Option Context
  | .startSpanSetParentContext .. | .addParentLazily .. | .markSpanAsDone .. => Unit
  | .addEvent .. | .push .. => Unit
  | .terminate => Empty

abbrev Spanning := Coroutine Command Command.Response

/-- A span object on the heap, with its identifier. -/
structure Allocated (St : Type) where
  id : Nat
  span : St

namespace Spanner

def perform (c : Command) : Spanning c.Response := Coroutine.perform c

variable {St α : Type} [SpanClass St]

/-- An exception. -/
def throw : Spanning α := do
  let e : Empty ← perform .terminate
  nomatch e

/-- `throw_if_empty`. -/
def throwIfEmpty : Option α → Spanning α
  | some a => pure a
  | none => throw

def whenever (c : Bool) (x : Spanning Unit) : Spanning Unit := if c then x else pure ()

/-- `AddToSpan` on a span that exists. -/
def addToSpan (env : TraceEnvironment) (s : Allocated St) (ev : Event) :
    Spanning (Bool × Allocated St) := do
  let (added, span) := SpanClass.addToSpan env s.span ev
  whenever added (perform (.addEvent s.id ev))
  return (added, { s with span })

/-- The search of `iterate_add_erase`: the first pending span that takes the event, and
the list without it if that completes it. -/
def findAddErase (env : TraceEnvironment) :
    List (Allocated St) → Event → Option (Allocated St) × List (Allocated St)
  | [], _ => (none, [])
  | p :: pending, ev =>
    let (added, span) := SpanClass.addToSpan env p.span ev
    let p := { p with span }
    if added then
      (some p, if SpanClass.isComplete span then pending else p :: pending)
    else
      let (found, pending) := findAddErase env pending ev
      (found, p :: pending)

def iterateAddErase (env : TraceEnvironment) (pending : List (Allocated St)) (ev : Event) :
    Spanning (Option (Allocated St) × List (Allocated St)) :=
  match findAddErase env pending ev with
  | (none, pending) => return (none, pending)
  | (some p, pending) => do
    perform (.addEvent p.id ev)
    return (some p, pending)

def popPropagateContext (source : Channel) (expected : Option Expectation) : Spanning Context :=
  perform (.pop source expected)

def pushPropagateContext (exp : Expectation) (dest : Channel) (parent : Nat) : Spanning Unit := do
  let context ← perform (.createPassOnContext exp parent)
  perform (.push dest context)

def startSpan (env : TraceEnvironment) (new : St) (ev : Event) : Spanning (Allocated St) := do
  let (accepted, span) := SpanClass.addToSpan env new ev
  let id ← perform (.startSpan (SpanClass.type St) ev accepted)
  return ⟨id, span⟩

def startSpanByParent (env : TraceEnvironment) (new : St) (parent : Nat) (ev : Event) :
    Spanning (Allocated St) := do
  let (accepted, span) := SpanClass.addToSpan env new ev
  let ref ← perform (.readParent parent)
  let id ← perform (.startSpanByParent (SpanClass.type St) ref ev accepted)
  return ⟨id, span⟩

def startSpanByParentPassOnContext (env : TraceEnvironment) (new : St) (context : Context)
    (ev : Event) : Spanning (Allocated St) := do
  let (accepted, span) := SpanClass.addToSpan env new ev
  let id ← perform (.startSpanByParentPassOnContext (SpanClass.type St) context ev accepted)
  return ⟨id, span⟩

def isComplete (s : Allocated St) : Bool := SpanClass.isComplete s.span

@[simp] theorem isComplete_eq (s : Allocated St) : isComplete s = SpanClass.isComplete s.span :=
  rfl

def markSpanAsDone (s : Allocated St) : Spanning Unit :=
  perform (.markSpanAsDone s.id (SpanClass.toObject s.span))

end Spanner

/-- The tracer and the contents of the channels, oldest first. -/
structure World where
  tracer : Tracer
  channels : Channel → List Context

namespace World

/-- A new tracer and empty channels. -/
def init : World := ⟨Tracer.init, fun _ => []⟩

/-- The new span gets the next identifier. -/
def create (w : World) (t : Option Tracer) : Option (Nat × World) :=
  t.map fun t => (w.tracer.nextSpanId, { w with tracer := t })

def change (w : World) (t : Option Tracer) : Option (Unit × World) :=
  t.map fun t => ((), { w with tracer := t })

def push (w : World) (dest : Channel) (c : Context) : World :=
  { w with channels := Function.update w.channels dest (w.channels dest ++ [c]) }

def setChannel (w : World) (q : Channel) (cs : List Context) : World :=
  { w with channels := Function.update w.channels q cs }

/-- One operation. It is not possible while a `Pop` has to wait, nor if it throws. -/
def exec (w : World) : (c : Command) → Option (c.Response × World)
  | .startSpan _ ev accepted => w.create (w.tracer.startSpan ⟨ev.getTs, accepted⟩)
  | .readParent span => (w.tracer.parentRef span).map fun ref => (ref, w)
  | .startSpanByParent _ ref ev accepted =>
    w.create (w.tracer.startSpanByParent ref ⟨ev.getTs, accepted⟩)
  | .startSpanByParentPassOnContext _ c ev accepted =>
    w.create (w.tracer.startSpanByParent c.toParentRef ⟨ev.getTs, accepted⟩)
  | .cloneShared span => w.create (some (w.tracer.cloneShared span))
  | .startSpanSetParentContext span c =>
    w.change (w.tracer.startSpanSetParentContext span c.toParentRef)
  | .addParentLazily span c => w.change (w.tracer.addParentLazily span c.toParentRef)
  | .markSpanAsDone span _ => w.change (w.tracer.markSpanAsDone span)
  | .addEvent _ _ => some ((), w)
  | .createPassOnContext exp span =>
    (w.tracer.createPassOnContext exp span).map fun c => (c, w)
  | .push dest c => some ((), w.push dest c)
  | .pop source _ => match w.channels source with
    | [] => none
    | c :: cs => some (c, w.setChannel source cs)
  | .tryPopOnTrue source syscallStart => match w.channels source with
    | [] => some (none, w)
    | c :: cs =>
      if syscallStart > c.parent.startTs then some (some c, w.setChannel source cs)
      else some (none, w)
  | .terminate => none

end World

end Columbo
