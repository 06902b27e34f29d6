import Columbo.EventFilter
import Columbo.PipelineRuns
import Columbo.TimestampBounds

/-!
# The filters of a pipeline

An actor of an event stream decides whether an event passes, and leaves the event and itself as
they are. What a list of filters lets through does not depend on the order in which the
coroutines go on, nor on how the events are handed over.
-/
namespace Columbo

namespace Handler

variable {α : Type} {passing : Passing} {values : List α}

/-- `GenericEventFilter`. -/
def ofFilter (toFilter : α → Bool) : Handler α where
  State := Unit
  state := ()
  handel _ value := (toFilter value, value, ())

theorem run_ofFilter (toFilter : α → Bool) :
    (ofFilter toFilter).run passing values = (values.filter toFilter, ofFilter toFilter) := by
  induction values with
  | nil => rfl
  | cons value rest ih =>
    have hcall : (ofFilter toFilter).handelTask passing value =
        (toFilter value, value, ofFilter toFilter) := by
      cases passing with
      | byReference => rfl
      | byValue => rfl
    rw [run, hcall]
    dsimp only
    rw [ih]
    by_cases hpass : toFilter value = true
    · simp [hpass]
    · simp [hpass]

/-- What all filters let through. -/
theorem runAll_ofFilter (filters : List (α → Bool)) :
    runAll passing (filters.map ofFilter) values =
      values.filter fun value => filters.all fun toFilter => toFilter value := by
  induction filters generalizing values with
  | nil => simp [runAll]
  | cons toFilter filters ih =>
    have hfirst : runAll passing ((toFilter :: filters).map ofFilter) values =
        runAll passing (filters.map ofFilter) ((ofFilter toFilter).run passing values).1 := rfl
    rw [hfirst, run_ofFilter, ih, List.filter_filter]
    refine List.filter_congr fun value _ => ?_
    rw [List.all_cons, Bool.and_comm]

/-- A handler that is given copies lets some of the values through as they are. -/
theorem run_byValue_sublist (handler : Handler α) (values : List α) :
    ((handler.run .byValue values).1).Sublist values := by
  induction values generalizing handler with
  | nil => exact .slnil
  | cons value rest ih =>
    have hrest := ih (handler.handelTask .byValue value).2.2
    unfold run
    dsimp only
    split_ifs
    · exact hrest.cons_cons value
    · exact hrest.cons value

theorem runAll_byValue_sublist (handlers : List (Handler α)) (values : List α) :
    (runAll .byValue handlers values).Sublist values := by
  induction handlers generalizing values with
  | nil => exact .refl values
  | cons handler handlers ih =>
    exact (ih (handler.run .byValue values).1).trans (handler.run_byValue_sublist values)

end Handler

/-- `EventTypeFilter::handel`. -/
def EventTypeFilter.handel (typesToFilter : List EventType) (inverted : Bool) (ev : Event) :
    Bool :=
  if inverted then ev.getType ∉ typesToFilter else ev.getType ∈ typesToFilter

/-- `HostCallFuncFilter::handel`. No function in the list is the null pointer. -/
def HostCallFuncFilter.handel (list : List Bytes) (blacklist : Bool) (ev : Event) : Bool :=
  if ev.getType ≠ .kHostCallT then true
  else
    let contains := TraceEnvironment.calls list ev
    if blacklist && contains then false
    else if !blacklist && !contains then false
    else true

end Columbo
