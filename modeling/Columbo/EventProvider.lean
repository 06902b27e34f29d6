import Columbo.ParserLocality
import Columbo.Pipeline
import Columbo.ReaderBuffer

/-!
# The provider of the events of a file

A task on a thread of its own reads a file line by line and pushes the events that the parser
finds into a bounded channel. The producer of a pipeline pops them from there, and starts the task
when it is called for the first time.
-/
namespace Columbo

/-- The provider and the task that fills its channel. Like a task of a pipeline, the task receives
the next line, pushes an event or closes its channel. -/
structure BufferedEventProvider (B eventBufferSize : ℕ) where
  logParser : Parser
  startedFillTask : Bool := false
  fillBufferTask : Frame Event := .receiving
  /-- the buffer of the task -/
  lineHandlerBuffer : ReaderBuffer B
  eventBufferChannel : CoroBoundedChannel Event eventBufferSize := { }

namespace BufferedEventProvider

variable {B eventBufferSize : ℕ}

/-- The next line of the file, and its event where the parser finds one. -/
def readLine (s : BufferedEventProvider B eventBufferSize) :
    BufferedEventProvider B eventBufferSize :=
  match s.lineHandlerBuffer.nextHandler with
  | none => { s with fillBufferTask := .failed }
  | some (none, buffer) => { s with lineHandlerBuffer := buffer, fillBufferTask := .closing }
  | some (some lineHandler, buffer) =>
    match (s.logParser.parseEvent lineHandler).1 with
    | none => { s with lineHandlerBuffer := buffer }
    | some event => { s with lineHandlerBuffer := buffer, fillBufferTask := .pushing event }

/-- The task awaits an operation of the channel; none if it has to wait. -/
def await (s : BufferedEventProvider B eventBufferSize) (c : ChannelCall Event)
    (resume : c.Response → Frame Event) : Option (BufferedEventProvider B eventBufferSize) :=
  match s.eventBufferChannel.exec c with
  | .error .waits => none
  | .error .fails => some { s with fillBufferTask := .failed }
  | .ok (response, channel) =>
    some { s with eventBufferChannel := channel, fillBufferTask := resume response }

/-- `ResetFillBufferTask`, which does not look at what `Push` returns. -/
def resetFillBufferTask (s : BufferedEventProvider B eventBufferSize) :
    Option (BufferedEventProvider B eventBufferSize) :=
  if s.startedFillTask then
    match s.fillBufferTask with
    | .receiving => some s.readLine
    | .pushing event => s.await (.push event) fun _ => .receiving
    | .closing => s.await .closeChannel fun _ => .finished
    | _ => none
  else none

end BufferedEventProvider

/-- The pipeline of events that has such a provider as its producer. -/
structure ProvidedPipeline (B eventBufferSize capacity : ℕ) where
  provider : BufferedEventProvider B eventBufferSize
  pipeline : RunPipelineImpl Event capacity

namespace ProvidedPipeline

variable {B eventBufferSize capacity : ℕ}

/-- `ProduceTask` awaits `produce` of the provider. -/
def produce (s : ProvidedPipeline B eventBufferSize capacity) :
    Option (ProvidedPipeline B eventBufferSize capacity) :=
  match s.pipeline.tasks 0 with
  | .receiving =>
    if s.provider.startedFillTask then
      match s.provider.eventBufferChannel.exec .pop with
      | .error .waits => none
      | .error .fails => some { s with pipeline := s.pipeline.setTask 0 .failed }
      | .ok (event, channel) => some {
          provider := { s.provider with eventBufferChannel := channel }
          pipeline := s.pipeline.setTask 0 ((event : Option Event).elim .closing .pushing) }
    else some { s with provider := { s.provider with startedFillTask := true } }
  | _ => s.pipeline.produce.map fun pipeline => { s with pipeline := pipeline }

/-- The coroutine that goes on. -/
inductive Actor
  | fill
  | pipeline (actor : RunPipelineImpl.Actor)

def step (passing : Passing) (s : ProvidedPipeline B eventBufferSize capacity) :
    Actor → Option (ProvidedPipeline B eventBufferSize capacity)
  | .fill => s.provider.resetFillBufferTask.map fun provider => { s with provider := provider }
  | .pipeline .produce => s.produce
  | .pipeline actor => (s.pipeline.step passing actor).map fun pipeline =>
      { s with pipeline := pipeline }

/-- The file is opened, and the tasks of the pipeline wait for their first value. -/
def start (parser : Parser) (content : Bytes) (chunks : ℕ → ℕ) (handlers : List (Handler Event)) :
    ProvidedPipeline B eventBufferSize capacity where
  provider := { logParser := parser, lineHandlerBuffer := .openFile B content chunks }
  pipeline := .start handlers []

/-- The states that are reached in some order of steps. -/
abbrev Reaches (passing : Passing) (parser : Parser) (content : Bytes) (chunks : ℕ → ℕ)
    (handlers : List (Handler Event)) (s : ProvidedPipeline B eventBufferSize capacity) : Prop :=
  Transition.Reachable (step passing) (fun _ _ => True) (start parser content chunks handlers) s

end ProvidedPipeline

end Columbo
