import Columbo.EventFilters
import Columbo.EventProvider
import Columbo.SpannerSystem

/-!
# The program

`RunPipelines` runs pipelines side by side. Each of them has a provider that reads a file, filters,
and a spanner as its consumer; the spanners share a tracer and the channels between them. A step
is one coroutine going on: a task of a pipeline, the task of a provider, or a spanner that is
called with an event and performs its next operation.
-/
namespace Columbo

/-- The class of a spanner, and what its constructor is given. -/
inductive SpannerClass
  | host (queues : HostQueues)
  | nic (queues : NicQueues)
  | network (queues : NetworkQueues) (filter : NodeDeviceFilter)

/-- A spanner. -/
inductive SpannerObject
  | host (queues : HostQueues) (st : HostSpanner)
  | nic (queues : NicQueues) (st : NicSpanner)
  | network (queues : NetworkQueues) (filter : NodeDeviceFilter) (st : NetworkSpanner)

namespace SpannerClass

def new : SpannerClass → SpannerObject
  | host queues => .host queues { }
  | nic queues => .nic queues { }
  | network queues filter => .network queues filter { }

/-- A spanner of the class that handles the events. -/
def handling (events : List Event) : SpannerClass → Setup
  | host queues => .host queues events
  | nic queues => .nic queues events
  | network queues filter => .network queues filter events

end SpannerClass

/-- `Consumer::consume`. The pipeline does not look at the result, only the spanner is kept. -/
def SpannerObject.consume (env : TraceEnvironment) (rounds : ℕ) :
    SpannerObject → Event → Spanning SpannerObject
  | .host queues st, ev => do
    let (_, st) ← HostSpanner.consume env queues rounds st ev
    return .host queues st
  | .nic queues st, ev => do
    let (_, st) ← NicSpanner.consume env queues st ev
    return .nic queues st
  | .network queues filter st, ev => do
    let (_, st) ← NetworkSpanner.consume env queues filter st ev
    return .network queues filter st

/-- A pipeline as the program sets it up. -/
structure TracePipeline where
  logParser : Parser
  /-- the file, and the sizes of the reads -/
  content : Bytes
  chunks : ℕ → ℕ
  handlers : List (Handler Event)
  consumer : SpannerClass

/-- The pipelines, the spanners and what they share. -/
structure TraceProgram (ι : Type) (B eventBufferSize capacity : ℕ) where
  world : World
  pipelines : ι → ProvidedPipeline B eventBufferSize capacity
  /-- the rest of the call of `consume`, or the spanner between two calls -/
  consumers : ι → Spanning SpannerObject

namespace TraceProgram

variable {ι : Type} [DecidableEq ι] {B eventBufferSize capacity : ℕ}

/-- The consumer is called with the value that its task has received. -/
def called (env : TraceEnvironment) (rounds : ℕ) (spanner : SpannerObject) :
    Frame Event → Spanning SpannerObject
  | .working ev => spanner.consume env rounds ev
  | _ => pure spanner

/-- `ConsumeTask` goes on once the call of `consume` has returned. -/
def consume (env : TraceEnvironment) (rounds : ℕ) (s : TraceProgram ι B eventBufferSize capacity)
    (i : ι) : Option (TraceProgram ι B eventBufferSize capacity) :=
  match s.consumers i with
  | .act _ _ => none
  | .pure spanner =>
    ((s.pipelines i).step .byValue (.pipeline .consume)).map fun p => { s with
      pipelines := Function.update s.pipelines i p
      consumers := Function.update s.consumers i
        (called env rounds spanner (p.pipeline.tasks p.pipeline.amountChannels)) }

/-- The spanner performs its next operation. -/
def act (s : TraceProgram ι B eventBufferSize capacity) (i : ι) :
    Option (TraceProgram ι B eventBufferSize capacity) :=
  match s.consumers i with
  | .pure _ => none
  | .act c k => (s.world.exec c).map fun (r, w) => { s with
      world := w
      consumers := Function.update s.consumers i (k r) }

/-- The coroutine that goes on. -/
inductive Move (ι : Type)
  | pipeline (i : ι) (actor : ProvidedPipeline.Actor)
  | spanner (i : ι)

def step (env : TraceEnvironment) (rounds : ℕ) (s : TraceProgram ι B eventBufferSize capacity) :
    Move ι → Option (TraceProgram ι B eventBufferSize capacity)
  | .pipeline i (.pipeline .consume) => s.consume env rounds i
  | .pipeline i actor => ((s.pipelines i).step .byValue actor).map fun p =>
      { s with pipelines := Function.update s.pipelines i p }
  | .spanner i => s.act i

/-- The tracer is new, and the channels between the spanners are empty. -/
def start (setup : ι → TracePipeline) : TraceProgram ι B eventBufferSize capacity where
  world := World.init
  pipelines i := .start (setup i).logParser (setup i).content (setup i).chunks (setup i).handlers
  consumers i := pure (setup i).consumer.new

/-- The states that are reached in some order of steps. -/
abbrev Reaches (env : TraceEnvironment) (rounds : ℕ) (setup : ι → TracePipeline)
    (s : TraceProgram ι B eventBufferSize capacity) : Prop :=
  Transition.Reachable (step env rounds) (fun _ _ => True) (start setup) s

end TraceProgram

namespace Main

/-- The five pipelines. -/
inductive Pipe
  | hostClient
  | hostServer
  | nicClient
  | nicServer
  | ns3
  deriving DecidableEq

def serverHn : Channel := 0
def serverNh : Channel := 1
def clientHn : Channel := 2
def clientNh : Channel := 3
def nicCToNetwork : Channel := 4
def nicSToNetwork : Channel := 5
def nicSFromNetwork : Channel := 6
def nicCFromNetwork : Channel := 7
def serverNHReceive : Channel := 8
def clientNHReceive : Channel := 9
/-- A sink takes what is pushed and a pop from it throws, so that it is two channels here: nothing
is popped from the one, and nothing is pushed into the other, so that no pop from it is possible. -/
def sinkPushed : Channel := 10
def sinkPopped : Channel := 11

/-- The mapping of `AddMapping` with two NICs and two sinks. -/
def channelMap (server client sink : Channel) : NodeDeviceToChannelMap := fun node device =>
  if device = 2 then if node = 0 then some server else if node = 1 then some client else none
  else if device = 3 then if node = 0 ∨ node = 1 then some sink else none
  else none

def toHostMap : NodeDeviceToChannelMap := channelMap nicSFromNetwork nicCFromNetwork sinkPushed

def fromHostMap : NodeDeviceToChannelMap := channelMap nicSToNetwork nicCToNetwork sinkPopped

def nodeDeviceFilter : NodeDeviceFilter := ⟨[(0, 2), (1, 2), (0, 1), (1, 1)]⟩

def spanner : Pipe → SpannerClass
  | .hostClient => .host ⟨clientHn, clientNh, clientNHReceive⟩
  | .hostServer => .host ⟨serverHn, serverNh, serverNHReceive⟩
  | .nicClient => .nic ⟨nicCToNetwork, nicCFromNetwork, clientNh, clientHn, clientNHReceive⟩
  | .nicServer => .nic ⟨nicSToNetwork, nicSFromNetwork, serverNh, serverHn, serverNHReceive⟩
  | .ns3 => .network ⟨fromHostMap, toHostMap⟩ nodeDeviceFilter

/-- What a run of the program is given: the files, the options and the environment. -/
structure Arguments where
  content : Pipe → Bytes
  chunks : Pipe → ℕ → ℕ
  typesToFilter : List EventType
  blacklistFunctions : List Bytes
  symbolTables : List (SymsFilter × Bytes)
  tsLowerBound : Option Bytes
  tsUpperBound : Option Bytes

variable (args : Arguments)

/-- The parsers of raw logs, numbered in the order of their construction. -/
def logParser : Pipe → Parser
  | .hostServer => .gem5 ⟨⟨bytes "Gem5ServerParser", 1⟩, ∅, args.symbolTables⟩
  | .hostClient => .gem5 ⟨⟨bytes "Gem5ClientParser", 2⟩, ∅, args.symbolTables⟩
  | .nicServer => .nicBm ⟨bytes "NicbmServerParser", 3⟩
  | .nicClient => .nicBm ⟨bytes "NicbmClientParser", 4⟩
  | .ns3 => .ns3 ⟨bytes "NS3Parser", 5⟩

/-- The filters in front of the spanners when raw logs are read. -/
def logFilters : Pipe → List (Event → Bool)
  | .hostClient | .hostServer =>
    [EventTypeFilter.handel args.typesToFilter true,
      HostCallFuncFilter.handel args.blacklistFunctions true]
  | .nicClient | .nicServer => [EventTypeFilter.handel args.typesToFilter true]
  | .ns3 =>
    [EventTypeFilter.handel args.typesToFilter true, NS3EventFilter.handel ⟨nodeDeviceFilter⟩]

/-- The pipelines over raw logs. -/
def logPipelines (p : Pipe) : TracePipeline where
  logParser := logParser args p
  content := args.content p
  chunks := args.chunks p
  handlers := (logFilters args p).map Handler.ofFilter
  consumer := spanner p

/-- The pipelines over event streams. That of ns-3 shares the filter of the client's host, which
has no state. -/
def eventStreamPipelines (p : Pipe) : TracePipeline where
  logParser := .eventStream
  content := args.content p
  chunks := args.chunks p
  handlers := [Handler.ofFilter fun ev => EventTimestampFilter.handel
    [timestampBounds (SimStringUtils.parseUintTrimCopy 10) args.tsLowerBound args.tsUpperBound]
    ev.timestamp]
  consumer := spanner p

end Main

end Columbo
