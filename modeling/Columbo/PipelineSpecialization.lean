import Columbo.Events
import Columbo.PipelineTermination

/-!
# The pipeline of events

The pipeline of events hands its handlers copies of the pointers. It lets the same events
through as the template as long as no handler replaces an event that it passes on.
-/
namespace Columbo

namespace Handler

variable {α : Type} {handler : Handler α} {handlers : List (Handler α)} {values rest : List α}

/-- What the handler passes on is what it was given. -/
def Keeps (handler : Handler α) : List α → Prop
  | [] => True
  | value :: rest =>
    ((handler.call value).1 = true → (handler.call value).2.1 = value) ∧
      (handler.call value).2.2.Keeps rest

/-- No handler replaces an event that it passes on, if each gets what the one before passes on. -/
def KeepAll : List (Handler α) → List α → Prop
  | [], _ => True
  | handler :: handlers, values =>
    handler.Keeps values ∧ KeepAll handlers (handler.run .byReference values).1

theorem run_fst_eq_iff (handler : Handler α) (values : List α) :
    (handler.run .byValue values).1 = (handler.run .byReference values).1 ↔
      handler.Keeps values := by
  induction values generalizing handler with
  | nil => exact iff_of_true rfl trivial
  | cons value rest ih =>
    simp only [run, handelTask, Keeps]
    rw [← ih]
    by_cases hpass : (handler.call value).1 = true
    · simp [hpass, eq_comm]
    · simp [hpass]

theorem runAll_eq_iff (handlers : List (Handler α)) (values : List α) :
    (∀ k, runAll .byValue (handlers.take k) values = runAll .byReference (handlers.take k) values) ↔
      KeepAll handlers values := by
  induction handlers generalizing values with
  | nil => simp [KeepAll, runAll]
  | cons handler handlers ih =>
    rw [KeepAll, ← run_fst_eq_iff, ← ih]
    constructor
    · intro h
      have hfirst : (handler.run .byValue values).1 = (handler.run .byReference values).1 := h 1
      refine ⟨hfirst, fun k => ?_⟩
      have hnext := h (k + 1)
      rw [List.take_succ_cons] at hnext
      change runAll .byValue (handlers.take k) (handler.run .byValue values).1 = _ at hnext
      rwa [hfirst] at hnext
    · rintro ⟨hfirst, hrest⟩ k
      cases k with
      | zero => rfl
      | succ k =>
        rw [List.take_succ_cons]
        change runAll .byValue (handlers.take k) (handler.run .byValue values).1 = _
        rw [hfirst]
        exact hrest k

end Handler

namespace RunPipelineImpl

variable {α : Type} {handlers : List (Handler α)} {values : List α}

/-- The consumers of both pipelines get the same when they have finished. -/
def Agree (handlers : List (Handler α)) (values : List α) : Prop :=
  ∀ (capacity : Nat) (s s' : RunPipelineImpl α capacity), 0 < capacity →
    Reaches .byValue handlers values s → s.main = .finished →
      Reaches .byReference handlers values s' → s'.main = .finished → s.consumed = s'.consumed

theorem agree_iff_runAll : Agree handlers values ↔
    Handler.runAll .byValue handlers values = Handler.runAll .byReference handlers values := by
  constructor
  · intro h
    have hpos : 0 < 1 := Nat.one_pos
    have hvalue : Reaches .byValue handlers values
        (start handlers values : RunPipelineImpl α 1) := .refl
    have hreference : Reaches .byReference handlers values
        (start handlers values : RunPipelineImpl α 1) := .refl
    obtain ⟨s, hs, hfinished⟩ := hvalue.exists_finished hpos
    obtain ⟨s', hs', hfinished'⟩ := hreference.exists_finished hpos
    rw [← hs.consumed_eq hpos hfinished, ← hs'.consumed_eq hpos hfinished']
    exact h 1 s s' hpos hs hfinished hs' hfinished'
  · intro heq capacity s s' hcapacity hs hfinished hs' hfinished'
    rw [hs.consumed_eq hcapacity hfinished, hs'.consumed_eq hcapacity hfinished', heq]

/-- However many of the handlers run, both pipelines agree exactly if no handler replaces an
event that it passes on. -/
theorem specialized_agree_iff (handlers : List (Handler Event)) (values : List Event) :
    (∀ k, Agree (handlers.take k) values) ↔ Handler.KeepAll handlers values := by
  rw [← Handler.runAll_eq_iff]
  exact forall_congr' fun _ => agree_iff_runAll

def syncAt (timestamp : UInt64) : Event := ⟨timestamp, 0, [], .simSendSync⟩

/-- A handler that puts another event in the place of each. -/
def replaceAll : Handler Event where
  State := Unit
  state := ()
  handel _ _ := (true, syncAt 2, ())

/-- The consumer of the pipeline of events gets the event that was replaced. -/
theorem specialized_not_agree :
    ¬∀ (handlers : List (Handler Event)) (values : List Event), Agree handlers values := by
  intro h
  have heq : Handler.runAll .byValue [replaceAll] [syncAt 1] =
      Handler.runAll .byReference [replaceAll] [syncAt 1] :=
    agree_iff_runAll.mp (h [replaceAll] [syncAt 1])
  have hevent : syncAt 1 = syncAt 2 := List.head_eq_of_cons_eq heq
  exact absurd hevent (by decide)

end RunPipelineImpl

end Columbo
