import Columbo.HostSpanner
import Columbo.NetworkSpanner
import Columbo.NicSpanner
import Columbo.SpannerSteps
import Columbo.TracerSteps

/-!
# Systems of spanners

Any number of spanners share a tracer and channels, next to an environment that performs
operations of its own. What every operation keeps of the tracer is stated here: new
spans have new identifiers, and the parent of a span whose context no other one shares
changes only by an operation on that span.
-/
namespace Columbo

namespace Tracer

/-- No other span refers to the context of the span, and this is its parent. -/
structure OwnParent (t : Tracer) (span : Nat) (parent : Option Nat) : Prop where
  created : span < t.nextSpanId
  parentOf : t.parentOf span = parent
  unshared : ∀ s, s ≠ span → (t.spans s).context ≠ (t.spans span).context

/-- The tracers differ in traces, in the exporter, and in what one context says. -/
structure DifferAt (context : Nat) (t t' : Tracer) : Prop where
  spans : t'.spans = t.spans
  nextSpanId : t'.nextSpanId = t.nextSpanId
  nextContextId : t'.nextContextId = t.nextContextId
  parents : ∀ x, x ≠ context → (t'.contexts x).parent = (t.contexts x).parent

variable {t t₁ t' : Tracer} {context span s : Nat} {parent : Option Nat}

theorem DifferAt.trans (h : DifferAt context t t₁) (h' : DifferAt context t₁ t') :
    DifferAt context t t' :=
  ⟨h'.spans.trans h.spans, h'.nextSpanId.trans h.nextSpanId,
    h'.nextContextId.trans h.nextContextId,
    fun x hx => (h'.parents x hx).trans (h.parents x hx)⟩

theorem differAt_modifyContext (f : TraceContext → TraceContext)
    (h : (t.spans s).context ≠ context → ∀ c, (f c).parent = c.parent) :
    DifferAt context t (t.modifyContext s f) := by
  refine ⟨rfl, rfl, rfl, fun x hx => ?_⟩
  by_cases hsame : x = (t.spans s).context
  · subst hsame
    have hparent := h hx (t.contextOf s)
    simpa [modifyContext, contextOf] using hparent
  · simp [modifyContext, hsame]

theorem differAt_traces (traces : Nat → Option (List Nat)) :
    DifferAt context t { t with traces := traces } :=
  ⟨rfl, rfl, rfl, fun _ _ => rfl⟩

theorem differAt_addSpanToTrace {traceId : Nat}
    (h : t.addSpanToTraceIfTraceExists traceId s = some t') : DifferAt context t t' := by
  obtain ⟨_, rfl⟩ := addSpanToTraceIfTraceExists_eq_some.mp h
  exact differAt_traces _

theorem differAt_moveChild {traceId child : Nat} (h : moveChild s traceId t child = some t') :
    DifferAt context t t' := by
  unfold moveChild at h
  split_ifs at h
  · obtain rfl := Option.some.inj h
    exact differAt_traces t.traces
  · have htrace : DifferAt context t (t.setTraceId child traceId) :=
      differAt_modifyContext _ fun _ _ => rfl
    exact htrace.trans (differAt_addSpanToTrace h)

theorem differAt_addParentLazily {c : ParentRef} (h : t.addParentLazily span c = some t') :
    DifferAt (t.spans span).context t t' := by
  unfold addParentLazily at h
  dsimp only at h
  split_ifs at h
  obtain ⟨t₁, hadd, h⟩ := Option.bind_eq_some_iff.mp h
  obtain ⟨t₂, hloop, hremove⟩ := Option.bind_eq_some_iff.mp h
  obtain rfl := removeTrace_eq_some hremove
  have htrace : DifferAt (t.spans span).context t (t.setTraceId span c.traceId) :=
    differAt_modifyContext _ fun _ _ => rfl
  have hparent : DifferAt (t.spans span).context (t.setTraceId span c.traceId)
      ((t.setTraceId span c.traceId).setParentIdAndTs span c.parent) :=
    differAt_modifyContext _ fun hne => absurd rfl hne
  have hmoved := Transition.foldlM_partial
    (fun _ t₃ => DifferAt (t.spans span).context t t₃)
    (fun hinv hmove => hinv.trans (differAt_moveChild hmove))
    (((htrace.trans hparent).trans (differAt_addSpanToTrace hadd)).trans (differAt_traces _)) hloop
  exact hmoved.trans (differAt_traces _)

/-- The parent of the span is that of the context afterwards. -/
theorem parent_addParentLazily {c : ParentRef} (h : t.addParentLazily span c = some t') :
    (t'.contextOf span).parent = some c.parent := by
  unfold addParentLazily at h
  dsimp only at h
  split_ifs at h
  obtain ⟨t₁, hadd, h⟩ := Option.bind_eq_some_iff.mp h
  obtain ⟨t₂, hloop, hremove⟩ := Option.bind_eq_some_iff.mp h
  obtain rfl := removeTrace_eq_some hremove
  have hne : (t.spans span).context ≠ (t.spans span).context + 1 := (Nat.lt_succ_self _).ne
  have hmoved := Transition.foldlM_partial
    (fun _ t₃ => t₃.spans = t.spans ∧
      (t₃.contexts (t.spans span).context).parent = some c.parent)
    (fun hinv hmove => by
      have hdiffer : DifferAt ((t.spans span).context + 1) _ _ := differAt_moveChild hmove
      exact ⟨hdiffer.spans.trans hinv.1, (hdiffer.parents _ hne).trans hinv.2⟩)
    (by
      obtain ⟨_, rfl⟩ := addSpanToTraceIfTraceExists_eq_some.mp hadd
      exact ⟨rfl, by simp [getSpansAndRemoveSpans, register, setParentIdAndTs, modifyContext,
        setTraceId]⟩) hloop
  unfold contextOf
  rw [hmoved.1]
  exact hmoved.2

theorem differAt_markSpanAsDone (h : t.markSpanAsDone s = some t') : DifferAt context t t' := by
  obtain ⟨t₁, hsame, rfl | rfl⟩ := markSpanAsDone_heap h
  · exact ⟨hsame.spans, hsame.nextSpanId, hsame.nextContextId, fun _ _ => by rw [hsame.contexts]⟩
  · exact ⟨hsame.spans, hsame.nextSpanId, hsame.nextContextId, fun _ _ => by rw [hsame.contexts]⟩

theorem DifferAt.contextsCreated (h : DifferAt context t t') (ht : t.ContextsCreated) :
    t'.ContextsCreated := by
  intro s
  rw [h.spans, h.nextContextId]
  exact ht s

namespace OwnParent

theorem differAt (h : t.OwnParent span parent) (hdiffer : DifferAt context t t')
    (hne : (t.spans span).context ≠ context) : t'.OwnParent span parent := by
  refine ⟨?_, ?_, ?_⟩
  · rw [hdiffer.nextSpanId]
    exact h.created
  · unfold Tracer.parentOf contextOf
    rw [hdiffer.spans, hdiffer.parents _ hne]
    exact h.parentOf
  · rw [hdiffer.spans]
    exact h.unshared

theorem allocate (h : t.OwnParent span parent) (ht : t.ContextsCreated) (c : TraceContext)
    (ts : Nat) : (t.allocate c ts).OwnParent span parent := by
  have hne : span ≠ t.nextSpanId := h.created.ne
  refine ⟨Nat.lt_succ_of_lt h.created, ?_, fun s hs => ?_⟩
  · rw [parentOf_allocate ht, if_neg hne]
    exact h.parentOf
  · by_cases hnew : s = t.nextSpanId
    · subst hnew
      simpa [Tracer.allocate, hne] using (ht span).ne'
    · simpa [Tracer.allocate, hne, hnew] using h.unshared s hs

theorem cloneShared {other : Nat} (h : t.OwnParent span parent) (hother : other ≠ span) :
    (t.cloneShared other).OwnParent span parent := by
  have hne : span ≠ t.nextSpanId := h.created.ne
  refine ⟨Nat.lt_succ_of_lt h.created, ?_, fun s hs => ?_⟩
  · rw [parentOf_cloneShared, if_neg hne]
    exact h.parentOf
  · by_cases hnew : s = t.nextSpanId
    · subst hnew
      simpa [Tracer.cloneShared, newSpan, hne] using h.unshared other hother
    · simpa [Tracer.cloneShared, newSpan, hne, hnew] using h.unshared s hs

theorem renewContext {other : Nat} (h : t.OwnParent span parent) (ht : t.ContextsCreated)
    (hother : other ≠ span) (c : TraceContext) : (t.renewContext other c).OwnParent span parent := by
  refine ⟨h.created, ?_, fun s hs => ?_⟩
  · rw [parentOf_renewContext ht, if_neg hother.symm]
    exact h.parentOf
  · by_cases hnew : s = other
    · subst hnew
      simpa [Tracer.renewContext, hother.symm] using (ht span).ne'
    · simpa [Tracer.renewContext, hother.symm, hnew] using h.unshared s hs

/-- A new span has a context of its own. -/
theorem new (ht : t.ContextsCreated) (c : TraceContext) (ts : Nat) :
    (t.allocate c ts).OwnParent t.nextSpanId (c.parent.map Parent.id) := by
  refine ⟨Nat.lt_succ_self _, ?_, fun s hs => ?_⟩
  · rw [parentOf_allocate ht, if_pos rfl]
  · simpa [Tracer.allocate, hs] using (ht s).ne

end OwnParent

theorem ContextsCreated.allocate (ht : t.ContextsCreated) (c : TraceContext) (ts : Nat) :
    (t.allocate c ts).ContextsCreated := by
  intro s
  by_cases hs : s = t.nextSpanId
  · simp [Tracer.allocate, hs]
  · have hlt := ht s
    simp only [Tracer.allocate, Function.update_of_ne hs]
    omega

theorem ContextsCreated.renewContext (ht : t.ContextsCreated) (other : Nat) (c : TraceContext) :
    (t.renewContext other c).ContextsCreated := by
  intro s
  by_cases hs : s = other
  · simp [Tracer.renewContext, hs]
  · have hlt := ht s
    simp only [Tracer.renewContext, Function.update_of_ne hs]
    omega

theorem ContextsCreated.cloneShared (ht : t.ContextsCreated) (other : Nat) :
    (t.cloneShared other).ContextsCreated := by
  intro s
  by_cases hs : s = t.nextSpanId
  · simpa [Tracer.cloneShared, newSpan, hs] using ht other
  · simpa [Tracer.cloneShared, newSpan, hs] using ht s

end Tracer

/-- The span whose context an operation shares or changes. -/
def Command.target : Command → Option Nat
  | .cloneShared span | .startSpanSetParentContext span _ | .addParentLazily span _ => some span
  | _ => none

/-- The channel that an operation takes a context from. -/
def Command.source : Command → Option Channel
  | .pop source _ | .tryPopOnTrue source _ => some source
  | _ => none

/-- The channel that an operation puts a context into. -/
def Command.dest : Command → Option Channel
  | .push dest _ => some dest
  | _ => none

/-- Whether the class takes the event with which an operation starts a span. -/
def Command.accepted : Command → Bool
  | .startSpan _ _ accepted | .startSpanByParent _ _ _ accepted => accepted
  | .startSpanByParentPassOnContext _ _ _ accepted => accepted
  | _ => true

/-- The identifier of the span that an operation created. -/
def Command.created : (c : Command) → c.Response → Option Nat
  | .startSpan .., id | .startSpanByParent .., id => some id
  | .startSpanByParentPassOnContext .., id | .cloneShared _, id => some id
  | _, _ => none

namespace World

open Tracer

variable {w w' : World} {c : Command} {r : c.Response}

theorem create_eq_some {t : Option Tracer} {id : Nat} (h : w.create t = some (id, w')) :
    id = w.tracer.nextSpanId ∧ ∃ t', t = some t' ∧ w' = { w with tracer := t' } := by
  obtain ⟨t', ht, heq⟩ := Option.map_eq_some_iff.mp h
  obtain ⟨rfl, rfl⟩ := Prod.mk.inj heq
  exact ⟨rfl, t', ht, rfl⟩

theorem change_eq_some {t : Option Tracer} {u : Unit} (h : w.change t = some (u, w')) :
    ∃ t', t = some t' ∧ w' = { w with tracer := t' } := by
  obtain ⟨t', ht, heq⟩ := Option.map_eq_some_iff.mp h
  exact ⟨t', ht, (Prod.mk.inj heq).2.symm⟩

end World

/-- What an operation does to spans and contexts, given the span that it creates and the
one whose context it shares or changes. -/
inductive TracerStep (t : Tracer) : Option Nat → Option Nat → Tracer → Prop
  | differ {t' : Tracer} (h : ∀ context, Tracer.DifferAt context t t') : TracerStep t none none t'
  | reparent {t' : Tracer} (span : Nat) (h : Tracer.DifferAt (t.spans span).context t t') :
    TracerStep t none (some span) t'
  | renew (span : Nat) (c : TraceContext) (traces : Nat → Option (List Nat)) :
    TracerStep t none (some span) { t.renewContext span c with traces := traces }
  | clone (other : Nat) : TracerStep t (some t.nextSpanId) (some other) (t.cloneShared other)
  | allocate (c : TraceContext) (ts nextTraceId : Nat) (traces : Nat → Option (List Nat)) :
    TracerStep t (some t.nextSpanId) none
      { t.allocate c ts with traces := traces, nextTraceId := nextTraceId }

namespace TracerStep

open Tracer

variable {t t' : Tracer} {created target : Option Nat}

theorem contextsCreated (h : TracerStep t created target t') (ht : t.ContextsCreated) :
    t'.ContextsCreated := by
  cases h with
  | differ hdiffer => exact (hdiffer 0).contextsCreated ht
  | reparent span hdiffer => exact hdiffer.contextsCreated ht
  | renew span c traces => exact ht.renewContext span c
  | clone other => exact ht.cloneShared other
  | allocate c ts nextTraceId traces => exact ht.allocate c ts

theorem nextSpanId (h : TracerStep t created target t') :
    t'.nextSpanId = t.nextSpanId + created.toList.length := by
  cases h with
  | differ hdiffer => exact (hdiffer 0).nextSpanId
  | reparent span hdiffer => exact hdiffer.nextSpanId
  | renew span c traces => rfl
  | clone other => rfl
  | allocate c ts nextTraceId traces => rfl

theorem created_eq (h : TracerStep t created target t') {id : Nat} (hid : created = some id) :
    id = t.nextSpanId := by
  cases h with
  | clone other => exact (Option.some.inj hid).symm
  | allocate c ts nextTraceId traces => exact (Option.some.inj hid).symm
  | _ => cases hid

theorem ownParent (h : TracerStep t created target t') (ht : t.ContextsCreated) {span : Nat}
    {parent : Option Nat} (hown : t.OwnParent span parent) (htarget : target ≠ some span) :
    t'.OwnParent span parent := by
  cases h with
  | differ hdiffer =>
    -- contexts are numbered by the tracer, so there is one that the span does not have
    exact hown.differAt (hdiffer ((t.spans span).context + 1)) (Nat.lt_succ_self _).ne
  | reparent other hdiffer =>
    have hother : other ≠ span := fun heq => htarget (congrArg some heq)
    exact hown.differAt hdiffer (hown.unshared other hother).symm
  | renew other c traces =>
    have hother : other ≠ span := fun heq => htarget (congrArg some heq)
    have hrenewed := hown.renewContext ht hother c
    exact ⟨hrenewed.created, hrenewed.parentOf, hrenewed.unshared⟩
  | clone other =>
    have hother : other ≠ span := fun heq => htarget (congrArg some heq)
    exact hown.cloneShared hother
  | allocate c ts nextTraceId traces =>
    have hallocated := hown.allocate ht c ts
    exact ⟨hallocated.created, hallocated.parentOf, hallocated.unshared⟩

end TracerStep

namespace World

variable {w w' : World} {c : Command} {r : c.Response}

theorem exec_tracerStep (h : w.exec c = some (r, w')) :
    TracerStep w.tracer (c.created r) c.target w'.tracer := by
  have hsame : ∀ context, Tracer.DifferAt context w.tracer w.tracer :=
    fun _ => ⟨rfl, rfl, rfl, fun _ _ => rfl⟩
  cases c with
  | startSpan type ev accepted =>
    obtain ⟨rfl, t', ht, rfl⟩ := create_eq_some h
    obtain rfl := Tracer.startSpan_eq_some ht
    exact .allocate _ _ _ _
  | readParent span =>
    obtain ⟨ref, -, heq⟩ := Option.map_eq_some_iff.mp h
    obtain ⟨-, rfl⟩ := Prod.mk.inj heq
    exact .differ hsame
  | startSpanByParent type ref ev accepted =>
    obtain ⟨rfl, t', ht, rfl⟩ := create_eq_some h
    obtain ⟨-, rfl⟩ := Tracer.startSpanByParent_eq_some ht
    exact .allocate _ _ _ _
  | startSpanByParentPassOnContext type context ev accepted =>
    obtain ⟨rfl, t', ht, rfl⟩ := create_eq_some h
    obtain ⟨-, rfl⟩ := Tracer.startSpanByParent_eq_some ht
    exact .allocate _ _ _ _
  | cloneShared span =>
    obtain ⟨rfl, t', ht, rfl⟩ := create_eq_some h
    obtain rfl := Option.some.inj ht
    exact .clone span
  | startSpanSetParentContext span context =>
    obtain ⟨t', ht, rfl⟩ := change_eq_some h
    obtain ⟨-, rfl⟩ := Tracer.startSpanSetParentContext_eq_some ht
    exact .renew span _ _
  | addParentLazily span context =>
    obtain ⟨t', ht, rfl⟩ := change_eq_some h
    exact .reparent span (Tracer.differAt_addParentLazily ht)
  | markSpanAsDone span content =>
    obtain ⟨t', ht, rfl⟩ := change_eq_some h
    exact .differ fun _ => Tracer.differAt_markSpanAsDone ht
  | addEvent span ev =>
    obtain ⟨-, rfl⟩ := Prod.mk.inj (Option.some.inj h)
    exact .differ hsame
  | createPassOnContext exp span =>
    obtain ⟨context, -, heq⟩ := Option.map_eq_some_iff.mp h
    obtain ⟨-, rfl⟩ := Prod.mk.inj heq
    exact .differ hsame
  | push dest context =>
    obtain ⟨-, rfl⟩ := Prod.mk.inj (Option.some.inj h)
    exact .differ hsame
  | pop source expected =>
    unfold exec at h
    dsimp only at h
    split at h
    · cases h
    · obtain ⟨-, rfl⟩ := Prod.mk.inj (Option.some.inj h)
      exact .differ hsame
  | tryPopOnTrue source syscallStart =>
    unfold exec at h
    dsimp only at h
    split at h
    · obtain ⟨-, rfl⟩ := Prod.mk.inj (Option.some.inj h)
      exact .differ hsame
    · split at h
      · obtain ⟨-, rfl⟩ := Prod.mk.inj (Option.some.inj h)
        exact .differ hsame
      · obtain ⟨-, rfl⟩ := Prod.mk.inj (Option.some.inj h)
        exact .differ hsame
  | terminate => cases h

/-- What was in a queue, and what is put into it, was taken or is still in the queue. -/
theorem exec_queue {q : Channel} (h : w.exec c = some (r, w')) :
    w.channels q ++ Log.pushed q [⟨c, r⟩] = Log.popped q [⟨c, r⟩] ++ w'.channels q := by
  have hsame : Log.pushed q [⟨c, r⟩] = [] → Log.popped q [⟨c, r⟩] = [] →
      w'.channels = w.channels →
      w.channels q ++ Log.pushed q [⟨c, r⟩] = Log.popped q [⟨c, r⟩] ++ w'.channels q := by
    intro hpushed hpopped hchannels
    rw [hpushed, hpopped, hchannels, List.append_nil]
    rfl
  have htake : ∀ {source : Channel} {context : Context} {rest : List Context},
      w.channels source = context :: rest →
      w.channels q ++ [] = (if source = q then [context] else []) ++
        (w.setChannel source rest).channels q := by
    intro source context rest hchannel
    by_cases hq : source = q
    · subst hq
      simp [setChannel, hchannel]
    · simp [setChannel, hq, Ne.symm hq]
  cases c with
  | startSpan | startSpanByParent | startSpanByParentPassOnContext | cloneShared =>
    obtain ⟨-, t', -, rfl⟩ := create_eq_some h
    exact hsame rfl rfl rfl
  | startSpanSetParentContext | addParentLazily | markSpanAsDone =>
    obtain ⟨t', -, rfl⟩ := change_eq_some h
    exact hsame rfl rfl rfl
  | readParent span =>
    obtain ⟨ref, -, heq⟩ := Option.map_eq_some_iff.mp h
    obtain ⟨-, rfl⟩ := Prod.mk.inj heq
    exact hsame rfl rfl rfl
  | addEvent span ev =>
    obtain ⟨-, rfl⟩ := Prod.mk.inj (Option.some.inj h)
    exact hsame rfl rfl rfl
  | createPassOnContext exp span =>
    obtain ⟨context, -, heq⟩ := Option.map_eq_some_iff.mp h
    obtain ⟨-, rfl⟩ := Prod.mk.inj heq
    exact hsame rfl rfl rfl
  | push dest context =>
    obtain ⟨-, rfl⟩ := Prod.mk.inj (Option.some.inj h)
    by_cases hq : dest = q
    · subst hq
      simp [Log.pushed, Log.popped, push]
    · simp [Log.pushed, Log.popped, push, hq, Ne.symm hq]
  | pop source expected =>
    unfold exec at h
    dsimp only at h
    split at h
    · cases h
    · next context rest hchannel =>
      obtain ⟨rfl, rfl⟩ := Prod.mk.inj (Option.some.inj h)
      refine (htake hchannel).trans ?_
      by_cases hq : source = q <;> simp [Log.popped, hq]
  | tryPopOnTrue source syscallStart =>
    unfold exec at h
    dsimp only at h
    split at h
    · obtain ⟨rfl, rfl⟩ := Prod.mk.inj (Option.some.inj h)
      exact hsame rfl (by simp [Log.popped]) rfl
    · next context rest hchannel =>
      split at h
      · obtain ⟨rfl, rfl⟩ := Prod.mk.inj (Option.some.inj h)
        refine (htake hchannel).trans ?_
        by_cases hq : source = q <;> simp [Log.popped, hq]
      · obtain ⟨rfl, rfl⟩ := Prod.mk.inj (Option.some.inj h)
        exact hsame rfl (by simp [Log.popped]) rfl
  | terminate => cases h

/-- A span started with a context that was passed on has the parent of the context. -/
theorem exec_passOn {type : SpanType} {context : Context} {ev : Event} {accepted : Bool} {id : Nat}
    (ht : w.tracer.ContextsCreated)
    (h : w.exec (.startSpanByParentPassOnContext type context ev accepted) = some (id, w')) :
    w'.tracer.OwnParent id (some context.parent.id) := by
  obtain ⟨rfl, t', ht', rfl⟩ := create_eq_some h
  obtain ⟨-, rfl⟩ := Tracer.startSpanByParent_eq_some ht'
  have hnew := Tracer.OwnParent.new ht ⟨context.traceId, some context.parent⟩ ev.getTs
  exact ⟨hnew.created, hnew.parentOf, hnew.unshared⟩

/-- A span is only started with an event that its class takes. -/
theorem exec_accepted (h : w.exec c = some (r, w')) : c.accepted = true := by
  have hstart : ∀ {t : Option Tracer} {id : Nat}, w.create t = some (id, w') → ∃ t', t = some t' :=
    fun hcreate => ⟨_, (create_eq_some hcreate).2.choose_spec.1⟩
  cases c with
  | startSpan type ev accepted =>
    obtain ⟨t', ht⟩ := hstart h
    unfold Tracer.startSpan Tracer.startSpanInternal at ht
    dsimp only at ht
    split_ifs at ht with haccepted
    exact haccepted
  | startSpanByParent type ref ev accepted =>
    obtain ⟨t', ht⟩ := hstart h
    unfold Tracer.startSpanByParent Tracer.startSpanByParentInternal at ht
    dsimp only at ht
    split_ifs at ht with haccepted
    exact haccepted
  | startSpanByParentPassOnContext type context ev accepted =>
    obtain ⟨t', ht⟩ := hstart h
    unfold Tracer.startSpanByParent Tracer.startSpanByParentInternal at ht
    dsimp only at ht
    split_ifs at ht with haccepted
    exact haccepted
  | _ => rfl

theorem accepted_of_possible (h : Coroutine.Possible exec c r) : c.accepted = true := by
  obtain ⟨w, w', hexec⟩ := h
  exact exec_accepted hexec

/-- A new context names its span, and says what is expected of it. -/
theorem passOn_of_possible {exp : Expectation} {span : Nat} {context : Context}
    (h : Coroutine.Possible exec (.createPassOnContext exp span) context) :
    context.expectation = exp ∧ context.parent.id = span := by
  obtain ⟨w, w', hexec⟩ := h
  obtain ⟨c, hc, heq⟩ := Option.map_eq_some_iff.mp hexec
  obtain ⟨rfl, -⟩ := Prod.mk.inj heq
  obtain ⟨ref, href, rfl⟩ := Option.map_eq_some_iff.mp hc
  unfold Tracer.parentRef at href
  split_ifs at href
  obtain rfl := Option.some.inj href
  exact ⟨rfl, rfl⟩

/-- The parent of a span that starts with a context is that of the context. -/
theorem exec_passOn_parentOf {type : SpanType} {context : Context} {ev : Event} {accepted : Bool}
    {id : Nat} (h : w.exec (.startSpanByParentPassOnContext type context ev accepted) = some (id, w')) :
    w'.tracer.parentOf id = some context.parent.id := by
  obtain ⟨rfl, t', ht', rfl⟩ := create_eq_some h
  obtain ⟨-, rfl⟩ := Tracer.startSpanByParent_eq_some ht'
  simp [Tracer.parentOf, Tracer.contextOf, Tracer.allocate, Tracer.register]

end World

/-- A spanner with its channels and the events of its simulator. -/
inductive Setup
  | host (queues : HostQueues) (evs : List Event)
  | nic (queues : NicQueues) (evs : List Event)
  | network (queues : NetworkQueues) (filter : NodeDeviceFilter) (evs : List Event)

/-- The spanner handles its events. -/
def Setup.program (env : TraceEnvironment) (rounds : Nat) : Setup → Spanning Unit
  | .host queues evs => do let _ ← HostSpanner.consumeAll env queues rounds evs
  | .nic queues evs => do let _ ← NicSpanner.consumeAll env queues evs
  | .network queues filter evs => do let _ ← NetworkSpanner.consumeAll env queues filter evs

/-- Every channel holds one context of this kind. -/
def oneContext (exp : Expectation) : World :=
  ⟨Tracer.init, fun _ => [⟨.nth 0 0 5, exp⟩]⟩

/-- One span was started. -/
def oneSpan : World := ⟨(Tracer.init.startSpan ⟨5, true⟩).get rfl, fun _ => []⟩

/-- The environment performs any operation. -/
def World.outside (w : World) (c : Command) : Option World := (w.exec c).map Prod.snd

abbrev SystemState (ι : Type) := Coroutine.Config ι Command Command.Response World

/-- A spanner performs its next operation, or the environment performs one. -/
def SystemState.step {ι : Type} [DecidableEq ι] :
    SystemState ι → Coroutine.Move ι Command → Option (SystemState ι) :=
  Coroutine.step World.exec World.outside

def SystemState.start {ι : Type} (env : TraceEnvironment) (rounds : Nat) (setup : ι → Setup)
    (w : World) : SystemState ι :=
  ⟨w, fun i => (setup i).program env rounds, fun _ => []⟩

end Columbo
