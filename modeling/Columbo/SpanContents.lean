import Columbo.ExportedAttributes
import Columbo.SpanShapes

/-!
# What a span object holds

The events that an object took are the ones in its list, whatever it was offered besides. A
complete object holds a transaction of its class: a word of the fixed shape, or the calls of
one system call. Every event of a transaction has attributes that can be exported.
-/
namespace Columbo

open Acceptor

namespace HostCallSpan

/-- The calls of one system call. -/
structure Word (env : TraceEnvironment) (w : List Event) : Prop where
  calls : ∀ ev ∈ w, ev.getType = .kHostCallT
  sameParser : AllRelated Event.SameParser w
  entry : (w.filter env.isSysEntry).length = 1

/-- The states of a span that is no fragment, with the calls that it took. -/
structure Gathered (env : TraceEnvironment) (s : HostCallSpan) (past : List Event) : Prop where
  events : s.events = past
  calls : ∀ ev ∈ past, ev.getType = .kHostCallT
  sameParser : AllRelated Event.SameParser past
  entries : (past.filter env.isSysEntry).length = if s.callSpanEntry.isSome then 1 else 0
  whole : s.isPending = true → s.isFragmented = false
  entered : s.isPending = false → s.callSpanEntry.isSome = true

variable {env : TraceEnvironment} {s : HostCallSpan} {past : List Event} {ev : Event}

theorem gathered_new : Gathered env { isFragmented := false } [] where
  events := rfl
  calls := by simp
  sameParser := by simp [AllRelated]
  entries := rfl
  whole _ := rfl
  entered h := by cases h

theorem setFlags_eq (env : TraceEnvironment) (s : HostCallSpan) (ev : Event) :
    (s.setFlags env ev).toEventSpan = s.toEventSpan ∧
      (s.setFlags env ev).callSpanEntry = s.callSpanEntry ∧
      (s.setFlags env ev).isFragmented = s.isFragmented := by
  unfold setFlags
  split_ifs <;> exact ⟨rfl, rfl, rfl⟩

theorem Gathered.sameParser_concat (h : s.Gathered env past)
    (hadd : s.isPotentialAdd ev = true) : AllRelated Event.SameParser (past ++ [ev]) := by
  have hlast : ∀ a ∈ past, a.SameParser ev := by
    intro a ha
    cases hevents : past with
    | nil => simp [hevents] at ha
    | cons first rest =>
      have hfirst : first.parserIdentifier = ev.parserIdentifier := by
        simp only [EventSpan.isPotentialAdd, h.events, hevents, Bool.and_eq_true,
          decide_eq_true_eq] at hadd
        exact hadd.2
      exact (h.sameParser a ha first (by simp [hevents])).trans hfirst
  intro a ha b hb
  rcases List.mem_append.mp ha with ha | ha <;> rcases List.mem_append.mp hb with hb | hb
  · exact h.sameParser a ha b hb
  · exact List.mem_singleton.mp hb ▸ hlast a ha
  · exact List.mem_singleton.mp ha ▸ (hlast b hb).symm
  · rw [List.mem_singleton.mp ha, List.mem_singleton.mp hb]
    rfl

/-- A span takes calls of its parser, one of which may be an entry; a second entry ends it. -/
theorem tracks (env : TraceEnvironment) :
    Tracks (addToSpan env) (fun _ => True) (Gathered env) := by
  intro s past ev h
  by_cases hadd : s.isPotentialAdd ev = true
  · by_cases hcall : ev.getType = .kHostCallT
    · have hpending : s.isPending = true := by
        simp only [EventSpan.isPotentialAdd, EventSpan.isComplete, Bool.and_eq_true] at hadd
        simpa using hadd.1
      have hwhole := h.whole hpending
      have hcalls : ∀ a ∈ past ++ [ev], a.getType = .kHostCallT := by
        simpa [or_imp, forall_and, hcall] using h.calls
      by_cases hentry : env.isSysEntry ev = true
      · by_cases hentered : s.callSpanEntry.isSome = true
        · refine .inr ⟨{ s with
            isPending := false, syscallReturn := s.events.getLast?, isFragmented := false },
            by simp [addToSpan, hadd, hcall, hentry, hentered], ?_⟩
          exact ⟨h.events, h.calls, h.sameParser, h.entries, fun _ => rfl, fun _ => hentered⟩
        · refine .inl ⟨trivial, { s with
            isPending := true, callSpanEntry := some ev, events := s.events ++ [ev] },
            by simp [addToSpan, hadd, hcall, hentry, hentered, hwhole], ?_⟩
          refine ⟨congrArg (· ++ [ev]) h.events, hcalls, h.sameParser_concat hadd, ?_,
            fun _ => hwhole, fun hdone => by cases hdone⟩
          have hentries := h.entries
          rw [if_neg hentered] at hentries
          simp [List.filter_append, hentry, hentries]
      · obtain ⟨hsame, hkept, hfragmented⟩ := s.setFlags_eq env ev
        refine .inl ⟨trivial, { s.setFlags env ev with
          events := (s.setFlags env ev).events ++ [ev] },
          by simp [addToSpan, hadd, hcall, hentry], ?_⟩
        refine ⟨?_, hcalls, h.sameParser_concat hadd, ?_, fun _ => ?_, fun hdone => ?_⟩
        · change (s.setFlags env ev).toEventSpan.events ++ [ev] = past ++ [ev]
          rw [hsame, h.events]
        · change _ = if (s.setFlags env ev).callSpanEntry.isSome then 1 else 0
          rw [hkept, ← h.entries]
          simp [List.filter_append, hentry]
        · exact hfragmented.trans hwhole
        · change (s.setFlags env ev).toEventSpan.isPending = false at hdone
          rw [hsame, hpending] at hdone
          cases hdone
    · exact .inr ⟨s, by simp [addToSpan, hadd, hcall], h⟩
  · exact .inr ⟨s, by simp [addToSpan, hadd], h⟩

theorem Gathered.word (h : s.Gathered env past) (hdone : s.isPending = false) :
    Word env past :=
  ⟨h.calls, h.sameParser, h.entries.trans (if_pos (h.entered hdone))⟩

end HostCallSpan

/-- The types that `add_Events` does not expect. -/
def unexpected : List EventType :=
  [.kSimSendSyncT, .kSimProcInEventT, .kHostInstrT, .kNicDmaEnT, .kSetIXT]

/-- Every other event has attributes, if it is not a call without names. -/
theorem isSome_attributesOf {ev : Event} (htype : ev.getType ∉ unexpected)
    (hnamed : ∀ pc func comp, ev.kind = .hostCall pc func comp → func.isSome ∧ comp.isSome) :
    (OtlpSpanExporter.attributesOf ev).isSome = true := by
  unfold Event.getType at htype
  unfold OtlpSpanExporter.attributesOf
  cases hkind : ev.kind with
  | hostCall pc func comp =>
    obtain ⟨hfunc, hcomp⟩ := hnamed pc func comp hkind
    obtain ⟨f, rfl⟩ := Option.isSome_iff_exists.mp hfunc
    obtain ⟨c, rfl⟩ := Option.isSome_iff_exists.mp hcomp
    rfl
  | simSendSync | simProcInEvent | hostInstr | nicDmaEn | setIX =>
    rw [hkind] at htype
    exact absurd (by simp [unexpected, EventKind.getType]) htype
  | _ => rfl

theorem NetDeviceSpan.original_setAndCheckPotential (s : NetDeviceSpan) (net : NetworkEvent) :
    (s.setAndCheckPotential net).2.original = s.original := by
  unfold setAndCheckPotential setAndCheckPotentialIp setAndCheckPotentialArp
  grind

theorem NetDeviceSpan.original_addToSpan (s : NetDeviceSpan) (ev : Event) :
    (s.addToSpan ev).2.original = s.original := by
  have hcheck := s.original_setAndCheckPotential
  unfold addToSpan handelEnqueue handelDequeue handelDrop handelEnd
  grind

theorem SpanShape.Reaches.events {shape : SpanShape} {o : SpanObject} {past : List Event}
    (h : shape.Reaches o past) : o.toEventSpan.events = past := by
  cases shape with
  | netDevice =>
    obtain ⟨s, rfl, offered, hs⟩ := h
    cases hs with
    | waiting hs => exact hs.events
    | enqueued hs => exact hs.events
    | ended hs => exact hs.events
  | _ =>
    obtain ⟨s, rfl, hs⟩ := h
    cases hs <;> rfl

namespace SpanObject

/-- The states of an object with the events that it took. -/
def Took (env : TraceEnvironment) (o : SpanObject) (past : List Event) : Prop :=
  (∃ shape, SpanShape.Reaches shape o past) ∨
    ∃ s, o = .hostCall s ∧ HostCallSpan.Gathered env s past

/-- A finished transaction of the class. A configuration access may end without the event of
the device. -/
def Word (env : TraceEnvironment) : SpanObject → List Event → Prop
  | hostCall _ => HostCallSpan.Word env
  | hostInt _ => HostIntSpan.Word
  | hostDma _ => HostDmaSpan.Word
  | hostMmio _ => HostMmioSpan.Word
  | hostMsix _ => HostMsixSpan.Word
  | hostPci _ => fun w => HostPciSpan.Word w ∨ single (fun rw => rw.getType = .kHostPciRWT) w
  | nicMsix _ => NicMsixSpan.Word
  | nicMmio _ => NicMmioSpan.Word
  | nicDma _ => NicDmaSpan.Word
  | nicEth _ => NicEthSpan.Word
  | netDevice _ => NetDeviceSpan.Word

/-- The span whose events an object has: the one that it is a copy of, or itself. -/
def source (o : SpanObject) (id : Nat) : Nat := o.toEventSpan.original.getD id

variable {env : TraceEnvironment} {o o' : SpanObject} {past : List Event} {ev : Event}

theorem Took.fresh (shape : SpanShape) : Took env shape.fresh [] :=
  .inl ⟨shape, shape.reaches_fresh⟩

theorem Took.call : Took env (.hostCall { isFragmented := false }) [] :=
  .inr ⟨_, rfl, HostCallSpan.gathered_new⟩

theorem Took.events (h : o.Took env past) : o.toEventSpan.events = past := by
  obtain ⟨shape, hshape⟩ | ⟨s, rfl, hs⟩ := h
  · exact hshape.events
  · exact hs.events

/-- An event that is offered is appended to the list, or the list stays. -/
theorem tracks_took (env : TraceEnvironment) :
    Tracks (SpanObject.addToSpan env) (fun _ => True) (Took env) := by
  rintro o past ev (⟨shape, hshape⟩ | ⟨s, rfl, hs⟩)
  · obtain ⟨-, o', hadd, ho'⟩ | ⟨o', hadd, ho'⟩ := shape.tracks env o past ev hshape
    · exact .inl ⟨trivial, o', hadd, .inl ⟨shape, ho'⟩⟩
    · exact .inr ⟨o', hadd, .inl ⟨shape, ho'⟩⟩
  · have himage : SpanObject.addToSpan env (.hostCall s) ev =
        ((s.addToSpan env ev).1, .hostCall (s.addToSpan env ev).2) := rfl
    obtain ⟨-, s', hadd, hs'⟩ | ⟨s', hadd, hs'⟩ := HostCallSpan.tracks env s past ev hs
    · exact .inl ⟨trivial, .hostCall s', by rw [himage, hadd], .inr ⟨s', rfl, hs'⟩⟩
    · exact .inr ⟨.hostCall s', by rw [himage, hadd], .inr ⟨s', rfl, hs'⟩⟩

theorem Took.added (h : o.Took env past) (hadd : o.addToSpan env ev = (true, o')) :
    o'.Took env (past ++ [ev]) := by
  obtain ⟨-, o'', hadd', ho''⟩ | ⟨o'', hadd', -⟩ := tracks_took env o past ev h
  · cases hadd.symm.trans hadd'
    exact ho''
  · cases hadd.symm.trans hadd'

theorem Took.refused (h : o.Took env past) (hadd : o.addToSpan env ev = (false, o')) :
    o'.Took env past := by
  obtain ⟨-, o'', hadd', -⟩ | ⟨o'', hadd', ho''⟩ := tracks_took env o past ev h
  · cases hadd.symm.trans hadd'
  · cases hadd.symm.trans hadd'
    exact ho''

theorem addToSpan_of_complete (hdone : o.toEventSpan.isPending = false) :
    o.addToSpan env ev = (false, o) := by
  have hpotential := EventSpan.isPotentialAdd_complete hdone ev
  cases o with
  | hostCall s => simp_all [addToSpan, add, SpanClass.addToSpan, SpanClass.toObject, toEventSpan,
      HostCallSpan.addToSpan]
  | hostInt s => simp_all [addToSpan, add, SpanClass.addToSpan, SpanClass.toObject, toEventSpan,
      HostIntSpan.addToSpan]
  | hostDma s => simp_all [addToSpan, add, SpanClass.addToSpan, SpanClass.toObject, toEventSpan,
      HostDmaSpan.addToSpan]
  | hostMmio s => simp_all [addToSpan, add, SpanClass.addToSpan, SpanClass.toObject, toEventSpan,
      HostMmioSpan.addToSpan]
  | hostMsix s => simp_all [addToSpan, add, SpanClass.addToSpan, SpanClass.toObject, toEventSpan,
      HostMsixSpan.addToSpan]
  | hostPci s => simp_all [addToSpan, add, SpanClass.addToSpan, SpanClass.toObject, toEventSpan,
      HostPciSpan.addToSpan]
  | nicMsix s => simp_all [addToSpan, add, SpanClass.addToSpan, SpanClass.toObject, toEventSpan,
      NicMsixSpan.addToSpan]
  | nicMmio s => simp_all [addToSpan, add, SpanClass.addToSpan, SpanClass.toObject, toEventSpan,
      NicMmioSpan.addToSpan]
  | nicDma s => simp_all [addToSpan, add, SpanClass.addToSpan, SpanClass.toObject, toEventSpan,
      NicDmaSpan.addToSpan]
  | nicEth s => simp_all [addToSpan, add, SpanClass.addToSpan, SpanClass.toObject, toEventSpan,
      NicEthSpan.addToSpan]
  | netDevice s => simp_all [addToSpan, add, SpanClass.addToSpan, SpanClass.toObject, toEventSpan,
      NetDeviceSpan.addToSpan]

/-- `AddToSpan` does not make a span the copy of another one. -/
theorem original_addToSpan (env : TraceEnvironment) (o : SpanObject) (ev : Event) :
    (o.addToSpan env ev).2.toEventSpan.original = o.toEventSpan.original := by
  cases o with
  | hostCall s =>
    change (s.addToSpan env ev).2.original = s.original
    unfold HostCallSpan.addToSpan HostCallSpan.setFlags
    grind
  | hostInt s =>
    change (s.addToSpan ev).2.original = s.original
    unfold HostIntSpan.addToSpan
    grind
  | hostDma s =>
    change (s.addToSpan ev).2.original = s.original
    unfold HostDmaSpan.addToSpan
    grind
  | hostMmio s =>
    change (s.addToSpan ev).2.original = s.original
    unfold HostMmioSpan.addToSpan
    grind
  | hostMsix s =>
    change (s.addToSpan ev).2.original = s.original
    unfold HostMsixSpan.addToSpan
    grind
  | hostPci s =>
    change (s.addToSpan ev).2.original = s.original
    unfold HostPciSpan.addToSpan
    grind
  | nicMsix s =>
    change (s.addToSpan ev).2.original = s.original
    unfold NicMsixSpan.addToSpan
    grind
  | nicMmio s =>
    change (s.addToSpan ev).2.original = s.original
    unfold NicMmioSpan.addToSpan
    grind
  | nicDma s =>
    change (s.addToSpan ev).2.original = s.original
    unfold NicDmaSpan.addToSpan
    grind
  | nicEth s =>
    change (s.addToSpan ev).2.original = s.original
    unfold NicEthSpan.addToSpan
    grind
  | netDevice s => exact s.original_addToSpan ev

/-- A complete object holds a transaction. -/
theorem Took.word (h : o.Took env past) (hdone : o.toEventSpan.isPending = false) :
    o.Word env past := by
  obtain ⟨shape, hshape⟩ | ⟨s, rfl, hs⟩ := h
  · have hword := hshape.complete_iff.mp (by simp [isComplete, EventSpan.isComplete, hdone])
    cases shape with
    | hostPci =>
      obtain ⟨s, rfl, -⟩ := hshape
      exact .inl hword
    | _ =>
      obtain ⟨s, rfl, -⟩ := hshape
      exact hword
  · exact hs.word hdone

/-- The event of a configuration access without the event of the device. -/
theorem Took.markAsDone {s : HostPciSpan} (h : (SpanObject.hostPci s).Took env past)
    (hevents : past ≠ []) : (SpanObject.hostPci s.markAsDone).Word env past := by
  obtain ⟨shape, hshape⟩ | ⟨s, hobject, -⟩ := h
  · cases shape with
    | hostPci =>
      obtain ⟨s, heq, hs⟩ := hshape
      cases hs with
      | fresh => exact absurd rfl hevents
      | accessed hrw => exact .inr (single_singleton.mpr hrw)
      | configured hword => exact .inl hword
    | netDevice =>
      obtain ⟨s, heq, -⟩ := hshape
      cases heq
    | _ =>
      obtain ⟨s, heq, -⟩ := hshape
      cases heq
  · cases hobject

theorem Word.not_unexpected {w : List Event} (h : o.Word env w) (hev : ev ∈ w) :
    ev.getType ∉ unexpected := by
  have hsingle : ∀ {p : Event → Prop}, (∀ a, p a → a.getType ∉ unexpected) → single p w →
      ev.getType ∉ unexpected := by
    rintro p hp ⟨a, rfl, ha⟩
    exact List.mem_singleton.mp hev ▸ hp a ha
  have htriple : ∀ {p : Event → Prop} {q r : Event → Event → Prop},
      (∀ a, p a → a.getType ∉ unexpected) → (∀ a b, q a b → b.getType ∉ unexpected) →
      (∀ a b, r a b → b.getType ∉ unexpected) → triple p q r w → ev.getType ∉ unexpected := by
    rintro p q r hp hq hr ⟨a, b, c, rfl, ha, hb, hc⟩
    simp only [List.mem_cons, List.not_mem_nil, or_false] at hev
    obtain rfl | rfl | rfl := hev
    · exact hp _ ha
    · exact hq _ _ hb
    · exact hr _ _ hc
  have hpair : ∀ {p : Event → Prop} {q : Event → Event → Prop},
      (∀ a, p a → a.getType ∉ unexpected) → (∀ a b, q a b → b.getType ∉ unexpected) →
      pair p q w → ev.getType ∉ unexpected := by
    rintro p q hp hq ⟨a, b, rfl, ha, hb⟩
    simp only [List.mem_cons, List.not_mem_nil, or_false] at hev
    obtain rfl | rfl := hev
    · exact hp _ ha
    · exact hq _ _ hb
  cases o with
  | hostCall =>
    rw [h.calls ev hev]
    decide
  | hostInt =>
    refine hpair (fun a ha => ?_) (fun a b hb => ?_) h
    · simp [unexpected, ha]
    · simp [unexpected, hb.1]
  | hostDma =>
    refine hpair (fun a ha => ?_) (fun a b hb => ?_) h
    · rcases ha with ha | ha <;> simp [unexpected, ha]
    · simp [unexpected, hb.1]
  | hostMmio =>
    rcases h with h | h | h | h
    · exact hsingle (fun a ha => by simp [unexpected, ha.1]) h
    · exact hpair (fun a ha => by simp [unexpected, ha.1])
        (fun a b hb => by simp [unexpected, hb.1]) h
    · exact hpair (fun a ha => by simp [unexpected, ha.1])
        (fun a b hb => by simp [unexpected, hb.1]) h
    · exact hpair (fun a ha => by simp [unexpected, ha.1])
        (fun a b hb => by simp [unexpected, hb.1]) h
  | hostMsix =>
    refine hpair (fun a ha => ?_) (fun a b hb => ?_) h
    · simp [unexpected, ha]
    · simp [unexpected, hb.1]
  | hostPci =>
    rcases h with h | h
    · refine hpair (fun a ha => ?_) (fun a b hb => ?_) h
      · simp [unexpected, ha]
      · simp [unexpected, hb.1]
    · exact hsingle (fun a ha => by simp [unexpected, ha]) h
  | nicMsix => exact hsingle (fun a ha => by simp [unexpected, ha]) h
  | nicMmio =>
    refine hsingle (fun a ha => ?_) h
    rcases ha with ha | ha <;> simp [unexpected, ha]
  | nicDma =>
    refine htriple (fun a ha => ?_) (fun a b hb => ?_) (fun a b hb => ?_) h
    · simp [unexpected, ha]
    · simp [unexpected, hb.1]
    · rcases hb.1 with hb | hb <;> simp [unexpected, hb]
  | nicEth =>
    refine hsingle (fun a ha => ?_) h
    rcases ha with ha | ha <;> simp [unexpected, ha]
  | netDevice =>
    refine hpair (fun a ha => ?_) (fun a b hb => ?_) h
    · obtain ⟨enq, henq⟩ := ha
      simp [unexpected, Event.getType, EventKind.getType, henq]
    · obtain ⟨enq, fin, -, hfin | hfin, -⟩ := hb
      · simp [unexpected, Event.getType, EventKind.getType, hfin]
      · simp [unexpected, Event.getType, EventKind.getType, hfin]

end SpanObject

end Columbo
