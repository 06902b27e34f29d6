import Columbo.CoroChannel
import Columbo.Transition

/-!
# Pipelines

A producer, handlers and a consumer are coroutines that pass values on through bounded
channels; one more coroutine starts them, waits for them in order and closes the channels.
A step of the pipeline is one coroutine going on to its next `co_await`. The pipeline of
events is the same, except that `HandelTask` takes its value by value.
-/
namespace Columbo

/-- A handler decides whether a value passes, and may overwrite it. -/
structure Handler (α : Type) where
  State : Type
  state : State
  handel : State → α → Bool × α × State

/-- The type of the value parameter of `HandelTask`. -/
inductive Passing
  | byReference
  | byValue

namespace Handler

variable {α : Type}

/-- Whether the value passes, the value after the call, and the handler after the call. -/
def call (handler : Handler α) (value : α) : Bool × α × Handler α :=
  let (passOn, value, state) := handler.handel handler.state value
  (passOn, value, { handler with state := state })

/-- `HandelTask`: the handler overwrites the value of the caller, or a copy of it. -/
def handelTask (passing : Passing) (handler : Handler α) (value : α) : Bool × α × Handler α :=
  let (passOn, replaced, handler) := handler.call value
  match passing with
  | .byReference => (passOn, replaced, handler)
  | .byValue => (passOn, value, handler)

/-- The values that pass, and the handler after all values. -/
def run (passing : Passing) (handler : Handler α) : List α → List α × Handler α
  | [] => ([], handler)
  | value :: rest =>
    let (passOn, value, handler) := handler.handelTask passing value
    let (passed, handler) := handler.run passing rest
    (if passOn then value :: passed else passed, handler)

/-- What the handlers let through, each seeing what the one before let through. -/
def runAll (passing : Passing) (handlers : List (Handler α)) (values : List α) : List α :=
  handlers.foldl (fun values handler => (handler.run passing values).1) values

end Handler

/-- What a task of the pipeline awaits: a value, the work on a value, `Push`,
`CloseChannel`. A task that throws has failed. -/
inductive Frame (α : Type)
  | receiving
  | working (value : α)
  | pushing (value : α)
  | closing
  | finished
  | failed

/-- What the coroutine that started the tasks awaits. -/
inductive MainFrame
  | task (index : Nat)
  | close (index : Nat)
  | finished
  | failed

/-- The state of `RunPipelineImpl`; every task reads from the channel before it. -/
structure RunPipelineImpl (α : Type) (capacity : Nat) where
  /-- what the producer still returns -/
  produced : List α
  handlers : List (Handler α)
  /-- what the consumer was called with -/
  consumed : List α := []
  channels : Nat → CoroBoundedChannel α capacity := fun _ => { }
  tasks : Nat → Frame α := fun _ => .receiving
  main : MainFrame := .task 0

namespace RunPipelineImpl

variable {α : Type} {capacity : Nat}

def amountChannels (s : RunPipelineImpl α capacity) : Nat := s.handlers.length + 1

def setTask (s : RunPipelineImpl α capacity) (index : Nat) (frame : Frame α) :
    RunPipelineImpl α capacity :=
  { s with tasks := fun i => if i = index then frame else s.tasks i }

def setChannel (s : RunPipelineImpl α capacity) (index : Nat)
    (channel : CoroBoundedChannel α capacity) : RunPipelineImpl α capacity :=
  { s with channels := fun i => if i = index then channel else s.channels i }

/-- A task awaits an operation of a channel; none if it has to wait. -/
def await (s : RunPipelineImpl α capacity) (task index : Nat) (c : ChannelCall α)
    (resume : c.Response → Frame α) : Option (RunPipelineImpl α capacity) :=
  match (s.channels index).exec c with
  | .error .waits => none
  | .error .fails => some (s.setTask task .failed)
  | .ok (response, channel) => some ((s.setChannel index channel).setTask task (resume response))

/-- `throw_on(not could_push, ..)`. -/
def afterPush (couldPush : Bool) : Frame α := if couldPush then .receiving else .failed

def produce (s : RunPipelineImpl α capacity) : Option (RunPipelineImpl α capacity) :=
  match s.tasks 0 with
  | .receiving =>
    match s.produced with
    | [] => some (s.setTask 0 .closing)
    | value :: rest => some ({ s with produced := rest }.setTask 0 (.pushing value))
  | .pushing value => s.await 0 0 (.push value) afterPush
  | .closing => s.await 0 0 .closeChannel fun _ => .finished
  | _ => none

def handel (passing : Passing) (s : RunPipelineImpl α capacity) (index : Nat) :
    Option (RunPipelineImpl α capacity) :=
  match s.handlers[index]? with
  | none => none
  | some handler =>
    match s.tasks (index + 1) with
    | .receiving => s.await (index + 1) index .pop fun value => value.elim .closing .working
    | .working value =>
      let (passOn, value, handler) := handler.handelTask passing value
      some ({ s with handlers := s.handlers.set index handler }.setTask (index + 1)
        (if passOn then .pushing value else .receiving))
    | .pushing value => s.await (index + 1) (index + 1) (.push value) afterPush
    | .closing => s.await (index + 1) (index + 1) .closeChannel fun _ => .finished
    | _ => none

def consume (s : RunPipelineImpl α capacity) : Option (RunPipelineImpl α capacity) :=
  match s.tasks s.amountChannels with
  | .receiving =>
    s.await s.amountChannels s.handlers.length .pop fun value => value.elim .finished .working
  | .working value =>
    some ({ s with consumed := s.consumed ++ [value] }.setTask s.amountChannels .receiving)
  | _ => none

/-- The tasks are awaited in order, and the channel after a task is closed once more. -/
def awaitTasks (s : RunPipelineImpl α capacity) : Option (RunPipelineImpl α capacity) :=
  match s.main with
  | .task index =>
    match s.tasks index with
    | .finished =>
      some { s with main := if index < s.amountChannels then .close index else .finished }
    | .failed => some { s with main := .failed }
    | _ => none
  | .close index =>
    match (s.channels index).exec .closeChannel with
    | .error _ => none
    | .ok (_, channel) => some { s.setChannel index channel with main := .task (index + 1) }
  | _ => none

/-- The coroutine that goes on. -/
inductive Actor
  | produce
  | handel (index : Nat)
  | consume
  | main

def step (passing : Passing) (s : RunPipelineImpl α capacity) :
    Actor → Option (RunPipelineImpl α capacity)
  | .produce => s.produce
  | .handel index => s.handel passing index
  | .consume => s.consume
  | .main => s.awaitTasks

/-- All tasks are started, and wait for their first value. -/
def start (handlers : List (Handler α)) (values : List α) : RunPipelineImpl α capacity :=
  { produced := values, handlers := handlers }

/-- The states that the pipeline reaches in some order of steps. -/
abbrev Reaches (passing : Passing) (handlers : List (Handler α)) (values : List α)
    (s : RunPipelineImpl α capacity) : Prop :=
  Transition.Reachable (step passing) (fun _ _ => True) (start handlers values) s

end RunPipelineImpl

end Columbo
