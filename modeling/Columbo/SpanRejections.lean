import Columbo.SpanShapes

/-!
# Refused events

An event that a span refuses leaves the span as it was, but for two places where a field is
set before the last check: the direction of a DMA operation of the NIC, and the addresses of
a network span.
-/
namespace Columbo

open Acceptor

/-- A span refuses the event and keeps its fields, or takes it. -/
def Unchanged {σ : Type} (step : σ → Event → Bool × σ) (s : σ) (ev : Event) : Prop :=
  (step s ev).1 = false → (step s ev).2 = s

namespace NicDmaSpan

/-- A completion that is not the one of the operation that the span waits for. -/
def RefusesCompletion (s : NicDmaSpan) (ev : Event) : Prop :=
  s.isPotentialAdd ev = true ∧ (ev.getType = .kNicDmaCRT ∨ ev.getType = .kNicDmaCWT) ∧
    s.nicDmaExecution.isSome = true ∧ s.nicDmaCompletion = none ∧
    ∃ issue, s.dmaIssue = some issue ∧ belongsTo issue ev = false

/-- Such a completion is in the direction that the span does not have. -/
def Disturbs (s : NicDmaSpan) (ev : Event) : Prop :=
  s.RefusesCompletion ev ∧ s.isRead ≠ decide (ev.getType = .kNicDmaCRT)

theorem addToSpan_of_refusesCompletion {s : NicDmaSpan} {ev : Event} (h : s.RefusesCompletion ev) :
    s.addToSpan ev = (false, { s with isRead := ev.getType = .kNicDmaCRT }) := by
  obtain ⟨hpotential, htype, hexec, hnone, issue, hissue, hbelongs⟩ := h
  rcases htype with hread | hwrite
  · simp [addToSpan, hpotential, hread, hnone, hissue, hbelongs, Option.isNone_iff_eq_none,
      Option.isSome_iff_ne_none.mp hexec]
  · simp [addToSpan, hpotential, hwrite, hnone, hissue, hbelongs, Option.isNone_iff_eq_none,
      Option.isSome_iff_ne_none.mp hexec]

theorem refusesCompletion_of {s : NicDmaSpan} {ev issue : Event}
    (hpotential : ¬ (!s.isPotentialAdd ev) = true)
    (htype : ev.getType = .kNicDmaCRT ∨ ev.getType = .kNicDmaCWT) (hissue : s.dmaIssue = some issue)
    (hslots : ¬ (s.nicDmaExecution.isNone || s.nicDmaCompletion.isSome) = true)
    (hbelongs : (!belongsTo issue ev) = true) : s.RefusesCompletion ev := by
  rw [Bool.or_eq_true, not_or] at hslots
  refine ⟨by simpa using hpotential, htype, ?_, ?_, issue, hissue, by simpa using hbelongs⟩
  · simpa [Option.isSome_iff_ne_none] using hslots.1
  · simpa using hslots.2

theorem unchanged_of_not_refusesCompletion {s : NicDmaSpan} {ev : Event}
    (h : ¬ s.RefusesCompletion ev) : Unchanged addToSpan s ev := by
  unfold Unchanged
  fun_cases addToSpan s ev
  case case10 hpotential hwrite issue hissue hslots _ hbelongs =>
    exact absurd (refusesCompletion_of hpotential (.inr hwrite) hissue hslots hbelongs) h
  case case14 hpotential hread issue hissue hslots _ hbelongs =>
    exact absurd (refusesCompletion_of hpotential (.inl hread) hissue hslots hbelongs) h
  all_goals
    intro hrefused
    first
      | rfl
      | cases hrefused

theorem unchanged_iff (s : NicDmaSpan) (ev : Event) :
    Unchanged addToSpan s ev ↔ ¬ s.Disturbs ev := by
  by_cases hrefuses : s.RefusesCompletion ev
  · rw [Unchanged, addToSpan_of_refusesCompletion hrefuses, Disturbs]
    simp only [forall_const, hrefuses, true_and, not_not]
    constructor
    · intro heq
      exact (congrArg NicDmaSpan.isRead heq).symm
    · intro heq
      rw [← heq]
  · exact iff_of_true (unchanged_of_not_refusesCompletion hrefuses) fun h => hrefuses h.1

end NicDmaSpan

section Unchanged

variable (ev : Event)

theorem HostIntSpan.unchanged (s : HostIntSpan) : Unchanged addToSpan s ev := by
  unfold Unchanged
  fun_cases addToSpan s ev <;> intro hrefused <;> first | rfl | cases hrefused

theorem HostDmaSpan.unchanged (s : HostDmaSpan) : Unchanged addToSpan s ev := by
  unfold Unchanged
  fun_cases addToSpan s ev <;> intro hrefused <;> first | rfl | cases hrefused

theorem HostMmioSpan.unchanged (s : HostMmioSpan) : Unchanged addToSpan s ev := by
  unfold Unchanged
  fun_cases addToSpan s ev <;> intro hrefused <;> first | rfl | cases hrefused

theorem HostMsixSpan.unchanged (s : HostMsixSpan) : Unchanged addToSpan s ev := by
  unfold Unchanged
  fun_cases addToSpan s ev <;> intro hrefused <;> first | rfl | cases hrefused

theorem HostPciSpan.unchanged (s : HostPciSpan) : Unchanged addToSpan s ev := by
  unfold Unchanged
  fun_cases addToSpan s ev <;> intro hrefused <;> first | rfl | cases hrefused

theorem NicMsixSpan.unchanged (s : NicMsixSpan) : Unchanged addToSpan s ev := by
  unfold Unchanged
  fun_cases addToSpan s ev <;> intro hrefused <;> first | rfl | cases hrefused

theorem NicMmioSpan.unchanged (s : NicMmioSpan) : Unchanged addToSpan s ev := by
  unfold Unchanged
  fun_cases addToSpan s ev <;> intro hrefused <;> first | rfl | cases hrefused

theorem NicEthSpan.unchanged (s : NicEthSpan) : Unchanged addToSpan s ev := by
  unfold Unchanged
  fun_cases addToSpan s ev <;> intro hrefused <;> first | rfl | cases hrefused

end Unchanged

theorem NetDeviceSpan.Reached.unchanged_iff {s : NetDeviceSpan} {offered past : List Event}
    (h : s.Reached offered past) (ev : Event) : Unchanged addToSpan s ev ↔ ¬ s.Latches ev := by
  unfold Unchanged
  rcases h.step ev with ⟨s', htaken, -, -, hlatches⟩ | ⟨s', hrefused, -, heq⟩
  · rw [htaken]
    exact iff_of_true (fun hfalse => Bool.noConfusion hfalse) hlatches
  · rw [hrefused, ← heq]
    exact ⟨fun h => h rfl, fun h _ => h⟩

namespace SpanObject

/-- The event is refused and changes a field of the span. -/
def Disturbs : SpanObject → Event → Prop
  | nicDma s => s.Disturbs
  | netDevice s => s.Latches
  | _ => fun _ => False

theorem unchanged_iff_of_class {St : Type} {f : St → SpanObject} {step : St → Event → Bool × St}
    {env : TraceEnvironment} {s : St} {ev : Event} (hf : Function.Injective f)
    (hstep : addToSpan env (f s) ev = ((step s ev).1, f (step s ev).2)) :
    Unchanged (addToSpan env) (f s) ev ↔ Unchanged step s ev := by
  unfold Unchanged
  rw [hstep]
  exact imp_congr_right fun _ => hf.eq_iff

end SpanObject

namespace SpanShape

open SpanObject

theorem Reaches.unchanged_iff {shape : SpanShape} {s : SpanObject} {past : List Event}
    (h : shape.Reaches s past) (env : TraceEnvironment) (ev : Event) :
    Unchanged (SpanObject.addToSpan env) s ev ↔ ¬ s.Disturbs ev := by
  cases shape with
  | hostInt =>
    obtain ⟨s, rfl, -⟩ := h
    rw [unchanged_iff_of_class (fun _ _ => SpanObject.hostInt.inj) rfl]
    exact iff_of_true (s.unchanged ev) id
  | hostDma =>
    obtain ⟨s, rfl, -⟩ := h
    rw [unchanged_iff_of_class (fun _ _ => SpanObject.hostDma.inj) rfl]
    exact iff_of_true (s.unchanged ev) id
  | hostMmio bar =>
    obtain ⟨s, rfl, -⟩ := h
    rw [unchanged_iff_of_class (fun _ _ => SpanObject.hostMmio.inj) rfl]
    exact iff_of_true (s.unchanged ev) id
  | hostMsix =>
    obtain ⟨s, rfl, -⟩ := h
    rw [unchanged_iff_of_class (fun _ _ => SpanObject.hostMsix.inj) rfl]
    exact iff_of_true (s.unchanged ev) id
  | hostPci =>
    obtain ⟨s, rfl, -⟩ := h
    rw [unchanged_iff_of_class (fun _ _ => SpanObject.hostPci.inj) rfl]
    exact iff_of_true (s.unchanged ev) id
  | nicMsix =>
    obtain ⟨s, rfl, -⟩ := h
    rw [unchanged_iff_of_class (fun _ _ => SpanObject.nicMsix.inj) rfl]
    exact iff_of_true (s.unchanged ev) id
  | nicMmio =>
    obtain ⟨s, rfl, -⟩ := h
    rw [unchanged_iff_of_class (fun _ _ => SpanObject.nicMmio.inj) rfl]
    exact iff_of_true (s.unchanged ev) id
  | nicDma =>
    obtain ⟨s, rfl, -⟩ := h
    rw [unchanged_iff_of_class (fun _ _ => SpanObject.nicDma.inj) rfl]
    exact s.unchanged_iff ev
  | nicEth =>
    obtain ⟨s, rfl, -⟩ := h
    rw [unchanged_iff_of_class (fun _ _ => SpanObject.nicEth.inj) rfl]
    exact iff_of_true (s.unchanged ev) id
  | netDevice =>
    obtain ⟨s, rfl, offered, hs⟩ := h
    rw [unchanged_iff_of_class (fun _ _ => SpanObject.netDevice.inj) rfl]
    exact hs.unchanged_iff ev

/-- Whatever a span was offered, the next event is taken or leaves it as it was, unless it
disturbs the span. -/
theorem unchanged_iff_not_disturbs (env : TraceEnvironment) (shape : SpanShape)
    (evs : List Event) (ev : Event) :
    Unchanged (SpanObject.addToSpan env) (shape.offered env evs) ev ↔
      ¬ (shape.offered env evs).Disturbs ev :=
  (reaches_offered env shape evs).unchanged_iff env ev

/-- A completion of another DMA operation is refused and changes the direction. -/
theorem not_unchanged : ¬ ∀ (env : TraceEnvironment) (shape : SpanShape) (evs : List Event)
    (ev : Event), Unchanged (SpanObject.addToSpan env) (shape.offered env evs) ev := by
  intro h
  have heq := h noNames .nicDma [⟨10, 0, [], .nicDmaI 1 64 4⟩, ⟨20, 0, [], .nicDmaEx 1 64 4⟩]
    ⟨30, 0, [], .nicDmaCW 2 128 4⟩ (by decide)
  revert heq
  decide

end SpanShape

end Columbo
