import Columbo.ExportedAttributes
import Columbo.Span
import Columbo.Forest

/-!
# The exported spans

To the tracer the exporter is two sets of keys. Here it is with all that it keeps and writes: it
starts a span of the SDK in the context of its parent, sets the attributes of the class, adds the
events and ends the span. The SDK itself is a parameter, with what its documentation says of it.
-/
namespace Columbo

def SpanType.text : SpanType → Bytes
  | kHostCall => bytes "kHostCall"
  | kHostMsix => bytes "kHostMsix"
  | kHostMmio => bytes "kHostMmio"
  | kHostDma => bytes "kHostDma"
  | kHostInt => bytes "kHostInt"
  | kHostPci => bytes "kHostPci"
  | kNicDma => bytes "kNicDma"
  | kNicMmio => bytes "kNicMmio"
  | kNicEth => bytes "kNicEth"
  | kNicMsix => bytes "kNicMsix"
  | kGenericSingle => bytes "kGenericSingle"
  | kNetDeviceSpan => bytes "kNetDeviceSpan"

def SpanObject.getType : SpanObject → SpanType
  | hostCall _ => .kHostCall
  | hostInt _ => .kHostInt
  | hostDma _ => .kHostDma
  | hostMmio _ => .kHostMmio
  | hostMsix _ => .kHostMsix
  | hostPci _ => .kHostPci
  | nicMsix _ => .kNicMsix
  | nicMmio _ => .kNicMmio
  | nicDma _ => .kNicDma
  | nicEth _ => .kNicEth
  | netDevice _ => .kNetDeviceSpan

def EventSpan.getCompletionTs (s : EventSpan) : Nat :=
  match s.events.getLast? with
  | none => 0xFFFFFFFFFFFFFFFF
  | some last => if s.isPending then 0xFFFFFFFFFFFFFFFF else last.getTs

/-- `opentelemetry::trace::SpanContext`. -/
structure SpanContext where
  traceId : Nat
  spanId : Nat
  deriving DecidableEq

def SpanContext.IsValid (context : SpanContext) : Prop := context.traceId ≠ 0 ∧ context.spanId ≠ 0

/-- `opentelemetry::trace::StartSpanOptions`. -/
structure StartSpanOptions where
  parent : Option SpanContext
  startSystemTime : Int64
  startSteadyTime : Int64

/-- What the exporter gets from the SDK: whether a tracer is made for one more service name, and
the context of the span that a tracer starts, if it starts one. Both may depend on what was made
and started before. -/
structure OtlpSdk where
  createTracer (tracers : List Bytes) (serviceName : Bytes) : Bool
  startSpan (started : List SpanContext) (serviceName name : Bytes) (options : StartSpanOptions) :
    Option SpanContext

/-- What is documented: no factory returns null, `StartSpan` returns a span with a valid context,
and a span with a valid parent is in the trace of the parent. -/
structure OtlpSdk.Documented (sdk : OtlpSdk) : Prop where
  createTracer : ∀ tracers serviceName, sdk.createTracer tracers serviceName = true
  startSpan : ∀ started serviceName name options, ∃ context,
    sdk.startSpan started serviceName name options = some context ∧ context.IsValid
  parent : ∀ started serviceName name options context parent,
    sdk.startSpan started serviceName name options = some context →
      options.parent = some parent → parent.IsValid → context.traceId = parent.traceId

inductive AttributeValue
  | text (value : Bytes)
  | number (value : Nat)
  deriving DecidableEq

/-- What `AddEvent` gets. -/
structure OtlpEvent where
  name : Bytes
  timestamp : Int64
  attributes : Attributes

/-- What the SDK was told about a span. The tracer stands for the service name of a resource. -/
structure OtlpSpan where
  tracer : Nat
  name : Bytes
  context : SpanContext
  parent : Option SpanContext
  startSystemTime : Int64
  startSteadyTime : Int64
  attributes : List (String × AttributeValue)
  events : List OtlpEvent
  endSteadyTime : Option Int64

/-- What the exporter reads of a span and of the trace context that it refers to. -/
structure ExportedSpan where
  id : Nat
  sourceId : UInt64
  serviceName : Bytes
  traceId : Nat
  parentId : Option Nat
  object : SpanObject

namespace ExportedSpan

variable (s : ExportedSpan)

def setEventSpanAttr : List (String × AttributeValue) :=
  [("id", .text (toString10 s.id)),
   ("source id", .text (toStringUint s.sourceId)),
   ("type", .text s.object.getType.text),
   ("pending", .text (boolToString s.object.toEventSpan.isPending)),
   ("trace id", .text (toString10 s.traceId))] ++
  (match s.parentId with
    | some parentId => [("parent_id", .number parentId)]
    | none => []) ++
  [("start-ts", .text (toString10 s.object.toEventSpan.getStartingTs)),
   ("end-ts", .text (toString10 s.object.toEventSpan.getCompletionTs))]

def setHostCallSpanAttr (call : HostCallSpan) : List (String × AttributeValue) :=
  s.setEventSpanAttr ++
  [("kernel-transmit", .text (boolToString call.kernelTransmit)),
   ("driver-transmit", .text (boolToString call.driverTransmit)),
   ("kernel-receive", .text (boolToString call.kernelReceive)),
   ("driver-receive", .text (boolToString call.driverReceive)),
   ("overall-transmit", .text (boolToString (call.kernelTransmit && call.driverTransmit))),
   ("overall-receive", .text (boolToString (call.kernelReceive && call.driverReceive))),
   ("fragmented", .text (boolToString call.isFragmented)),
   ("is-copy", .text (boolToString call.original.isSome))] ++
  (match call.original with
    | some originalId => [("original-id", .text (toString10 originalId))]
    | none => [])

def setHostMmioSpanAttr (mmio : HostMmioSpan) : List (String × AttributeValue) :=
  s.setEventSpanAttr ++
  [("is-read", .text (boolToString mmio.isRead)),
   ("BAR-number", .text (toStringInt mmio.barNumber)),
   ("is-going-to-device",
     .text (boolToString (TraceEnvironment.isToDeviceBarNumber mmio.barNumber)))]

/-- `set_HostDmaSpanAttr`, `set_HostPciSpanAttr`, `set_NicMmioSpanAttr` and
`set_NicDmaSpanAttr`. -/
def setReadAttr (isRead : Bool) : List (String × AttributeValue) :=
  s.setEventSpanAttr ++ [("is-read", .text (boolToString isRead))]

def setNicEthSpanAttr (eth : NicEthSpan) : List (String × AttributeValue) :=
  s.setEventSpanAttr ++ [("is-transmit", .text (boolToString eth.isSend))]

/-- The boundary types are written in the order of the enumeration. -/
def boundaryTypes (types : Finset EventBoundaryType) : Bytes :=
  ([EventBoundaryType.kWithinSimulator, .kFromAdapter, .kToAdapter].filter (· ∈ types)).flatMap
    fun type => type.text ++ bytes ","

def setNetDeviceSpanAttr (device : NetDeviceSpan) : List (String × AttributeValue) :=
  s.setEventSpanAttr ++
  [("is-arp", .text (boolToString device.isArp)),
   ("is-drop", .text (boolToString device.isDrop))] ++
  (if device.ipsSet then
    [("src-ip", .text (valueToString device.src.display)),
     ("dst-ip", .text (valueToString device.dst.display))]
   else []) ++
  [("boundary-types", .text (boundaryTypes device.boundaryTypes)),
   ("is-interesting", .text (boolToString device.interestingFlag)),
   ("node", .text (toStringInt device.node)),
   ("device", .text (toStringInt device.device))]

def setAttr : List (String × AttributeValue) :=
  match s.object with
  | .hostCall call => s.setHostCallSpanAttr call
  | .hostMmio mmio => s.setHostMmioSpanAttr mmio
  | .hostPci pci => s.setReadAttr pci.isRead
  | .hostDma dma => s.setReadAttr dma.isRead
  | .nicDma dma => s.setReadAttr dma.isRead
  | .nicMmio mmio => s.setReadAttr mmio.isRead
  | .nicEth eth => s.setNicEthSpanAttr eth
  | .netDevice device => s.setNetDeviceSpanAttr device
  | .nicMsix _ | .hostInt _ | .hostMsix _ => s.setEventSpanAttr

end ExportedSpan

/-- `OtlpSpanExporter`, and the spans of the SDK: the contexts of those that were started, and
those that have ended. -/
structure OtlpExporter where
  timeOffsetNanosec : Int64
  contextMap : Nat → Option SpanContext
  spanMap : Nat → Option OtlpSpan
  tracerMap : List Bytes
  started : List SpanContext
  ended : List OtlpSpan

namespace OtlpExporter

def new (timeOffsetNanosec : Int64) : OtlpExporter :=
  ⟨timeOffsetNanosec, fun _ => none, fun _ => none, [], [], []⟩

/-- `ToSystemNanoseconds` and `ToSteadyNanoseconds`: the sum is one of unsigned numbers. -/
def toNanoseconds (timeOffsetNanosec : Int64) (timestampPico : Nat) : Int64 :=
  (timeOffsetNanosec.toUInt64 + UInt64.ofNat timestampPico / 1000).toInt64

variable (sdk : OtlpSdk) (e : OtlpExporter) (s : ExportedSpan)

def insertNewContext (spanId : Nat) (context : SpanContext) : Option OtlpExporter :=
  if spanId ≠ 0 ∧ e.contextMap spanId = none then
    some { e with contextMap := Function.update e.contextMap spanId (some context) }
  else none

def getContext (spanId : Nat) : Option SpanContext :=
  if spanId ≠ 0 then e.contextMap spanId else none

def insertNewSpan (spanId : Nat) (span : OtlpSpan) : Option OtlpExporter :=
  if (e.spanMap spanId).isNone then
    some { e with spanMap := Function.update e.spanMap spanId (some span) }
  else none

def removeSpan (spanId : Nat) : Option OtlpExporter :=
  if (e.spanMap spanId).isSome then
    some { e with spanMap := Function.update e.spanMap spanId none }
  else none

/-- The tracers are counted: the number is the `service-instance` of a resource. -/
def getTracerLazy (serviceName : Bytes) : Option (Nat × OtlpExporter) :=
  match e.tracerMap.idxOf? serviceName with
  | some tracer => some (tracer, e)
  | none =>
    if sdk.createTracer e.tracerMap serviceName then
      some (e.tracerMap.length, { e with tracerMap := e.tracerMap ++ [serviceName] })
    else none

/-- The parent of the new span, if there is one. -/
def openContext : Option (Option SpanContext) :=
  match s.parentId with
  | none => some none
  | some parentId => (e.getContext parentId).map some

def startSpanOptions (timeOffsetNanosec : Int64) (parent : Option SpanContext) :
    StartSpanOptions :=
  let start := toNanoseconds timeOffsetNanosec s.object.toEventSpan.getStartingTs
  ⟨parent, start, start⟩

def getSpanStartOpts : Option StartSpanOptions :=
  (e.openContext s).map (startSpanOptions s e.timeOffsetNanosec)

def startSpan : Option OtlpExporter := do
  let options ← e.getSpanStartOpts s
  let name := s.object.getType.text
  let (tracer, e) ← e.getTracerLazy sdk s.serviceName
  let context ← sdk.startSpan e.started s.serviceName name options
  let e := { e with started := e.started ++ [context] }
  let e ← e.insertNewSpan s.id ⟨tracer, name, context, options.parent, options.startSystemTime,
    options.startSteadyTime, [], [], none⟩
  e.insertNewContext s.id context

/-- The event as the SDK gets it, unless it is of a class that is not expected. -/
def addEvent (timeOffsetNanosec : Int64) (event : Event) : Option OtlpEvent :=
  (OtlpSpanExporter.attributesOf event).map fun attributes =>
    ⟨event.getType.text, toNanoseconds timeOffsetNanosec event.getTs, attributes⟩

def addEvents (timeOffsetNanosec : Int64) (events : List Event) : Option (List OtlpEvent) :=
  events.mapM (addEvent timeOffsetNanosec)

def endSpan : Option OtlpExporter := do
  let span ← e.spanMap s.id
  let events ← addEvents e.timeOffsetNanosec s.object.toEventSpan.events
  let span := { span with
    attributes := span.attributes ++ s.setAttr
    events := span.events ++ events
    endSteadyTime :=
      some (toNanoseconds e.timeOffsetNanosec s.object.toEventSpan.getCompletionTs) }
  let e ← e.removeSpan s.id
  some { e with ended := e.ended ++ [span] }

def exportSpan : Option OtlpExporter := do
  let e ← e.startSpan sdk s
  e.endSpan s

end OtlpExporter
end Columbo
