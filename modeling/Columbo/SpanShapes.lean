import Columbo.NetDeviceRuns

/-!
# The classes of spans with a fixed shape

The ten classes whose transactions have at most three events, with their words, and one
theorem about the runs of all of them. `Disturbs` says which refused events change a span.
-/
namespace Columbo

open Acceptor

namespace SpanObject

variable {St : Type} [SpanClass St]

def add (env : TraceEnvironment) (s : St) (ev : Event) : Bool × SpanObject :=
  ((SpanClass.addToSpan env s ev).1, SpanClass.toObject (SpanClass.addToSpan env s ev).2)

/-- `AddToSpan` of the class of the object. -/
def addToSpan (env : TraceEnvironment) : SpanObject → Event → Bool × SpanObject
  | hostCall s => add env s
  | hostInt s => add env s
  | hostDma s => add env s
  | hostMmio s => add env s
  | hostMsix s => add env s
  | hostPci s => add env s
  | nicMsix s => add env s
  | nicMmio s => add env s
  | nicDma s => add env s
  | nicEth s => add env s
  | netDevice s => add env s

def isComplete (s : SpanObject) : Bool := s.toEventSpan.isComplete

/-- Nothing is added to a complete span. -/
theorem addToSpan_complete (env : TraceEnvironment) (s : SpanObject) (ev : Event)
    (hcomplete : s.isComplete = true) : (s.addToSpan env ev).1 = false := by
  have hpending : s.toEventSpan.isPending = false := by
    simpa [isComplete, EventSpan.isComplete] using hcomplete
  have hpotential := EventSpan.isPotentialAdd_complete hpending ev
  cases s with
  | hostCall s => simp_all [addToSpan, add, SpanClass.addToSpan, toEventSpan, HostCallSpan.addToSpan]
  | hostInt s => simp_all [addToSpan, add, SpanClass.addToSpan, toEventSpan, HostIntSpan.addToSpan]
  | hostDma s => simp_all [addToSpan, add, SpanClass.addToSpan, toEventSpan, HostDmaSpan.addToSpan]
  | hostMmio s => simp_all [addToSpan, add, SpanClass.addToSpan, toEventSpan, HostMmioSpan.addToSpan]
  | hostMsix s => simp_all [addToSpan, add, SpanClass.addToSpan, toEventSpan, HostMsixSpan.addToSpan]
  | hostPci s => simp_all [addToSpan, add, SpanClass.addToSpan, toEventSpan, HostPciSpan.addToSpan]
  | nicMsix s => simp_all [addToSpan, add, SpanClass.addToSpan, toEventSpan, NicMsixSpan.addToSpan]
  | nicMmio s => simp_all [addToSpan, add, SpanClass.addToSpan, toEventSpan, NicMmioSpan.addToSpan]
  | nicDma s => simp_all [addToSpan, add, SpanClass.addToSpan, toEventSpan, NicDmaSpan.addToSpan]
  | nicEth s => simp_all [addToSpan, add, SpanClass.addToSpan, toEventSpan, NicEthSpan.addToSpan]
  | netDevice s => simp_all [addToSpan, add, SpanClass.addToSpan, toEventSpan, NetDeviceSpan.addToSpan]

end SpanObject

/-- The class of a span; a span of a register access has the register's BAR. -/
inductive SpanShape
  | hostInt
  | hostDma
  | hostMmio (barNumber : Int32)
  | hostMsix
  | hostPci
  | nicMsix
  | nicMmio
  | nicDma
  | nicEth
  | netDevice
  deriving DecidableEq

namespace SpanShape

variable {shape : SpanShape} {s : SpanObject} {past : List Event} {env : TraceEnvironment}

/-- A new span. -/
def fresh : SpanShape → SpanObject
  | hostInt => .hostInt { }
  | hostDma => .hostDma { }
  | hostMmio bar => .hostMmio { barNumber := bar }
  | hostMsix => .hostMsix { }
  | hostPci => .hostPci { }
  | nicMsix => .nicMsix { }
  | nicMmio => .nicMmio { }
  | nicDma => .nicDma { }
  | nicEth => .nicEth { }
  | netDevice => .netDevice { }

/-- The transactions of the class. -/
def Word : SpanShape → List Event → Prop
  | hostInt => HostIntSpan.Word
  | hostDma => HostDmaSpan.Word
  | hostMmio _ => HostMmioSpan.Word
  | hostMsix => HostMsixSpan.Word
  | hostPci => HostPciSpan.Word
  | nicMsix => NicMsixSpan.Word
  | nicMmio => NicMmioSpan.Word
  | nicDma => NicDmaSpan.Word
  | nicEth => NicEthSpan.Word
  | netDevice => NetDeviceSpan.Word

/-- The event is taken though no transaction begins with it. -/
def Stuck : SpanShape → Event → Prop
  | hostMmio _ => HostMmioSpan.Stuck
  | _ => fun _ => False

/-- What a span of the class takes. -/
def Starts (shape : SpanShape) (past : List Event) : Prop :=
  Begins shape.Word past ∨ single shape.Stuck past

/-- The states of a span with the events that it took. -/
def Reaches : SpanShape → SpanObject → List Event → Prop
  | hostInt => image .hostInt HostIntSpan.Reached
  | hostDma => image .hostDma HostDmaSpan.Reached
  | hostMmio _ => image .hostMmio HostMmioSpan.Reached
  | hostMsix => image .hostMsix HostMsixSpan.Reached
  | hostPci => image .hostPci HostPciSpan.Reached
  | nicMsix => image .nicMsix NicMsixSpan.Reached
  | nicMmio => image .nicMmio NicMmioSpan.Reached
  | nicDma => image .nicDma NicDmaSpan.Reached
  | nicEth => image .nicEth NicEthSpan.Reached
  | netDevice => image .netDevice fun s past => ∃ offered, s.Reached offered past

theorem reaches_fresh (shape : SpanShape) : shape.Reaches shape.fresh [] := by
  cases shape with
  | hostInt => exact ⟨{ }, rfl, .fresh⟩
  | hostDma => exact ⟨{ }, rfl, .fresh⟩
  | hostMmio bar => exact ⟨{ barNumber := bar }, rfl, .fresh bar⟩
  | hostMsix => exact ⟨{ }, rfl, .fresh⟩
  | hostPci => exact ⟨{ }, rfl, .fresh⟩
  | nicMsix => exact ⟨{ }, rfl, .fresh⟩
  | nicMmio => exact ⟨{ }, rfl, .fresh⟩
  | nicDma => exact ⟨{ }, rfl, .fresh⟩
  | nicEth => exact ⟨{ }, rfl, .fresh⟩
  | netDevice => exact ⟨{ }, rfl, [], NetDeviceSpan.reached_new⟩

theorem starts_eq (hshape : ∀ ev, ¬ shape.Stuck ev) : shape.Starts = Begins shape.Word := by
  funext past
  apply propext
  constructor
  · rintro (hbegins | ⟨ev, -, hstuck⟩)
    · exact hbegins
    · exact absurd hstuck (hshape ev)
  · exact Or.inl

theorem exact (env : TraceEnvironment) (hshape : shape ≠ netDevice) :
    Exact (SpanObject.addToSpan env) shape.Starts shape.Reaches := by
  cases shape with
  | hostInt =>
    rw [starts_eq fun _ => id]
    exact HostIntSpan.exact.image fun _ _ => rfl
  | hostDma =>
    rw [starts_eq fun _ => id]
    exact HostDmaSpan.exact.image fun _ _ => rfl
  | hostMmio bar => exact HostMmioSpan.exact.image fun _ _ => rfl
  | hostMsix =>
    rw [starts_eq fun _ => id]
    exact HostMsixSpan.exact.image fun _ _ => rfl
  | hostPci =>
    rw [starts_eq fun _ => id]
    exact HostPciSpan.exact.image fun _ _ => rfl
  | nicMsix =>
    rw [starts_eq fun _ => id]
    exact NicMsixSpan.exact.image fun _ _ => rfl
  | nicMmio =>
    rw [starts_eq fun _ => id]
    exact NicMmioSpan.exact.image fun _ _ => rfl
  | nicDma =>
    rw [starts_eq fun _ => id]
    exact NicDmaSpan.exact.image fun _ _ => rfl
  | nicEth =>
    rw [starts_eq fun _ => id]
    exact NicEthSpan.exact.image fun _ _ => rfl
  | netDevice => exact absurd rfl hshape

theorem tracks (env : TraceEnvironment) (shape : SpanShape) :
    Tracks (SpanObject.addToSpan env) shape.Starts shape.Reaches := by
  by_cases hshape : shape = netDevice
  · rw [hshape, starts_eq fun _ => id]
    exact NetDeviceSpan.tracks.image fun _ _ => rfl
  · exact (exact env hshape).tracks

theorem Reaches.complete_iff (h : shape.Reaches s past) : s.isComplete = true ↔ shape.Word past := by
  cases shape with
  | hostInt =>
    obtain ⟨s, rfl, hs⟩ := h
    exact hs.complete_iff
  | hostDma =>
    obtain ⟨s, rfl, hs⟩ := h
    exact hs.complete_iff
  | hostMmio bar =>
    obtain ⟨s, rfl, hs⟩ := h
    exact hs.complete_iff
  | hostMsix =>
    obtain ⟨s, rfl, hs⟩ := h
    exact hs.complete_iff
  | hostPci =>
    obtain ⟨s, rfl, hs⟩ := h
    exact hs.complete_iff
  | nicMsix =>
    obtain ⟨s, rfl, hs⟩ := h
    exact hs.complete_iff
  | nicMmio =>
    obtain ⟨s, rfl, hs⟩ := h
    exact hs.complete_iff
  | nicDma =>
    obtain ⟨s, rfl, hs⟩ := h
    exact hs.complete_iff
  | nicEth =>
    obtain ⟨s, rfl, hs⟩ := h
    exact hs.complete_iff
  | netDevice =>
    obtain ⟨s, rfl, offered, hs⟩ := h
    exact hs.complete_iff

/-- Every class has a transaction. -/
theorem begins_nil (shape : SpanShape) : Begins shape.Word [] := by
  have hfirst : ∃ kind, Begins shape.Word [⟨0, 0, [], kind⟩] := by
    cases shape with
    | hostInt => exact ⟨.hostPostInt, HostIntSpan.begins_singleton.mpr rfl⟩
    | hostDma => exact ⟨.hostDmaR 0 0 0, HostDmaSpan.begins_singleton.mpr (.inl rfl)⟩
    | hostMmio bar =>
      exact ⟨.hostMmioR 0 0 0 1 0, .of_word (.inl (single_singleton.mpr ⟨rfl, rfl⟩))⟩
    | hostMsix => exact ⟨.hostMsiX 0, HostMsixSpan.begins_singleton.mpr rfl⟩
    | hostPci => exact ⟨.hostPciRW 0 0 true, HostPciSpan.begins_singleton.mpr rfl⟩
    | nicMsix => exact ⟨.nicMsix 0 true, .of_word (single_singleton.mpr rfl)⟩
    | nicMmio => exact ⟨.nicMmioR 0 0 0, .of_word (single_singleton.mpr (.inl rfl))⟩
    | nicDma => exact ⟨.nicDmaI 0 0 0, NicDmaSpan.begins_singleton.mpr rfl⟩
    | nicEth => exact ⟨.nicTx 0, .of_word (single_singleton.mpr (.inl rfl))⟩
    | netDevice =>
      exact ⟨.networkEnqueue ⟨0, 0, .kCosimNetDevice, 0, true, 0, .kWithinSimulator, none, none,
        none⟩, NetDeviceSpan.begins_singleton rfl⟩
  obtain ⟨kind, rest, hword⟩ := hfirst
  exact ⟨_, hword⟩

theorem sameParser_equivalence : Equivalence Event.SameParser :=
  ⟨fun _ => rfl, fun h => Eq.symm h, fun h h' => Eq.trans h h'⟩

theorem Word.allRelated (h : shape.Word past) : AllRelated Event.SameParser past := by
  have hrel := sameParser_equivalence
  cases shape with
  | hostInt => exact pair_allRelated hrel (fun _ _ h => h.2) h
  | hostDma => exact pair_allRelated hrel (fun _ _ h => h.2.2) h
  | hostMmio bar =>
    rcases h with h | h | h | h
    · exact single_allRelated hrel h
    · exact pair_allRelated hrel (fun _ _ h => h.2.2) h
    · exact pair_allRelated hrel (fun _ _ h => h.2.2) h
    · exact pair_allRelated hrel (fun _ _ h => h.2.2) h
  | hostMsix => exact pair_allRelated hrel (fun _ _ h => h.2.2) h
  | hostPci => exact pair_allRelated hrel (fun _ _ h => h.2.2) h
  | nicMsix => exact single_allRelated hrel h
  | nicMmio => exact single_allRelated hrel h
  | nicDma => exact triple_allRelated hrel (fun _ _ h => h.2.2.2) (fun _ _ h => h.2.2.2) h
  | nicEth => exact single_allRelated hrel h
  | netDevice =>
    exact pair_allRelated hrel (fun _ _ ⟨_, _, _, hends⟩ => hends.2.2) h

theorem Starts.allRelated (h : shape.Starts past) : AllRelated Event.SameParser past := by
  rcases h with hbegins | hstuck
  · exact hbegins.allRelated fun _ hword => Word.allRelated hword
  · exact single_allRelated sameParser_equivalence hstuck

/-- The events that a new span takes of those that it is offered. -/
def accepted (env : TraceEnvironment) (shape : SpanShape) (evs : List Event) : List Event :=
  (run (SpanObject.addToSpan env) shape.fresh evs).1

/-- The span after it was offered the events. -/
def offered (env : TraceEnvironment) (shape : SpanShape) (evs : List Event) : SpanObject :=
  (run (SpanObject.addToSpan env) shape.fresh evs).2

theorem reaches_offered (env : TraceEnvironment) (shape : SpanShape) (evs : List Event) :
    shape.Reaches (shape.offered env evs) (shape.accepted env evs) :=
  (tracks env shape).run shape.reaches_fresh

/-- A write that nothing answers is the last event that its span takes. -/
theorem stuck_last (env : TraceEnvironment) (evs : List Event) (ev : Event)
    (hstuck : single shape.Stuck (shape.accepted env evs)) :
    (shape.offered env evs).isComplete = false ∧
      ((shape.offered env evs).addToSpan env ev).1 = false := by
  have hreaches := reaches_offered env shape evs
  obtain ⟨write, haccepted, hwrite⟩ := hstuck
  rw [haccepted] at hreaches
  cases shape with
  | hostMmio bar =>
    constructor
    · rw [Bool.eq_false_iff, ne_eq, hreaches.complete_iff]
      exact HostMmioSpan.Stuck.not_word hwrite
    · rw [Bool.eq_false_iff, ne_eq, (exact env SpanShape.noConfusion).taken_iff hreaches ev]
      exact HostMmioSpan.Stuck.not_starts hwrite
  | _ => exact absurd hwrite id

/-- The spans recognise their transactions. They also take a write that nothing answers,
and a span of a network device refuses events with contradicting addresses. -/
theorem recognises (env : TraceEnvironment) (shape : SpanShape) (evs : List Event) (ev : Event) :
    (Begins shape.Word (shape.accepted env evs) ∨ single shape.Stuck (shape.accepted env evs)) ∧
    AllRelated Event.SameParser (shape.accepted env evs) ∧
    ((shape.offered env evs).isComplete = true ↔ shape.Word (shape.accepted env evs)) ∧
    ((shape.offered env evs).isComplete = true →
      ((shape.offered env evs).addToSpan env ev).1 = false) ∧
    (((shape.offered env evs).addToSpan env ev).1 = true →
      shape.Starts (shape.accepted env evs ++ [ev])) ∧
    (shape ≠ netDevice → (((shape.offered env evs).addToSpan env ev).1 = true ↔
      shape.Starts (shape.accepted env evs ++ [ev]))) ∧
    (single shape.Stuck (shape.accepted env evs) →
      (shape.offered env evs).isComplete = false ∧
        ((shape.offered env evs).addToSpan env ev).1 = false) := by
  have hreaches := reaches_offered env shape evs
  have hstarts : shape.Starts (shape.accepted env evs) :=
    (tracks env shape).starts_run shape.reaches_fresh (.inl shape.begins_nil)
  refine ⟨hstarts, hstarts.allRelated, hreaches.complete_iff, ?_, ?_, ?_, stuck_last env evs ev⟩
  · exact SpanObject.addToSpan_complete env _ ev
  · exact (tracks env shape).starts_of_taken hreaches
  · intro hshape
    exact (exact env hshape).taken_iff hreaches ev

/-- A write that is not posted, to a register that is not the device's, begins no transaction. -/
theorem not_recognises : ¬ ∀ (env : TraceEnvironment) (shape : SpanShape) (evs : List Event),
    Begins shape.Word (shape.accepted env evs) := by
  intro h
  have hbegins := h noNames (.hostMmio 0) [⟨10, 0, [], .hostMmioW 1 0 0 1 0 false⟩]
  exact HostMmioSpan.Stuck.not_begins ⟨rfl, rfl, rfl⟩ hbegins

end SpanShape

end Columbo
