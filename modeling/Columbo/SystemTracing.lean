import Columbo.SpannerUses
import Columbo.TracerTraces

/-!
# What a system of spanners does to the tracer

Spanners that start with a new tracer and empty channels, and nobody else, use the tracer as
it has to be used: what they do is a run of calls that finish every span once and change
parents only of spans that are not finished. So everything that holds in these runs holds of
every system, and the tracer terminates it for two reasons only.
-/
namespace Columbo

open Coroutine

/-- The call of the tracer that an operation is. -/
def Command.call : Command → Option TracerCall
  | .startSpan _ ev accepted => some (.startSpan ⟨ev.getTs, accepted⟩)
  | .readParent span => some (.readParent span)
  | .startSpanByParent _ ref ev accepted => some (.startSpanByParent ref ⟨ev.getTs, accepted⟩)
  | .startSpanByParentPassOnContext _ c ev accepted =>
    some (.startSpanByParentPassOnContext c ⟨ev.getTs, accepted⟩)
  | .cloneShared span => some (.cloneShared span)
  | .startSpanSetParentContext span c => some (.startSpanSetParentContext span c)
  | .addParentLazily span c => some (.addParentLazily span c)
  | .markSpanAsDone span _ => some (.markSpanAsDone span)
  | .createPassOnContext exp span => some (.createPassOnContext exp span)
  | .addEvent .. | .push .. | .pop .. | .tryPopOnTrue .. | .terminate => none

/-- The session after an operation that returned. -/
structure Called (w : World) (st : Session) (c : Command) (r : c.Response) (w' : World)
    (st' : Session) : Prop where
  call : c.call = none ∧ st' = st ∨ ∃ call, c.call = some call ∧ st.call call = some st'
  tracer : st'.tracer = w'.tracer
  refs : st'.refs = Log.refs [⟨c, r⟩] ++ st.refs
  kept : ∀ x ∈ st.contexts, x ∈ st'.contexts
  contexts : ∀ x ∈ Log.contexts [⟨c, r⟩], x ∈ st'.contexts ∨ ∃ q, x ∈ w.channels q
  channels : ∀ q, ∀ x ∈ w'.channels q, x ∈ w.channels q ∨ c = .push q x
  started : st'.started = Log.roots [⟨c, r⟩] ++ st.started
  done : ∀ s, s ∈ st'.done ↔ s ∈ st.done ∨ s ∈ (Log.marked [⟨c, r⟩]).map Prod.fst

/-- Every span names a trace. -/
def Tracer.Named (t : Tracer) : Prop := ∀ s, t.IsSpan s → t.traceIdOf s ≠ 0

theorem Tracer.Named.parentRef {t : Tracer} (h : t.Named) {span : Nat} (hspan : t.IsSpan span) :
    ∃ ref, t.parentRef span = some ref := by
  unfold Tracer.parentRef
  rw [dif_pos hspan.1.ne', dif_pos (h span hspan)]
  exact ⟨_, rfl⟩

/-- A span keeps its first timestamp. -/
theorem TracerStep.startingTs {t t' : Tracer} {created target : Option Nat}
    (h : TracerStep t created target t') {s : Nat} (hs : s < t.nextSpanId) :
    (t'.spans s).startingTs = (t.spans s).startingTs := by
  have hne : s ≠ t.nextSpanId := hs.ne
  cases h with
  | differ hdiffer => rw [(hdiffer 0).spans]
  | reparent span hdiffer => rw [hdiffer.spans]
  | renew span context traces =>
    by_cases hspan : s = span <;> simp [Tracer.renewContext, hspan]
  | clone other => simp [Tracer.cloneShared, Tracer.newSpan, hne]
  | allocate context ts nextTraceId traces => simp [Tracer.allocate, hne]

namespace World

open Tracer

variable {w w' : World} {c : Command} {r : c.Response} {st : Session}

theorem exec_called (hst : st.tracer = w.tracer) (h : w.exec c = some (r, w')) :
    ∃ st', Called w st c r w' st' := by
  have hunmarked : ∀ s, s ∈ st.done ↔ s ∈ st.done ∨ s ∈ ([] : List Nat) := by simp
  have hkept : ∀ x ∈ st.contexts, x ∈ st.contexts := fun _ hx => hx
  have hnothing : ∀ {P : Context → Prop}, ∀ x ∈ ([] : List Context), P x := fun _ hx => by cases hx
  have hchannels : ∀ {c : Command} (q : Channel), ∀ x ∈ w.channels q,
      x ∈ w.channels q ∨ c = .push q x := fun _ _ hx => .inl hx
  have htaken : ∀ {source : Channel} {context : Context} {rest : List Context},
      w.channels source = context :: rest → ∀ {c : Command} (q : Channel),
      ∀ x ∈ (w.setChannel source rest).channels q, x ∈ w.channels q ∨ c = .push q x := by
    intro source context rest hchannel c q x hx
    by_cases hq : q = source
    · subst hq
      rw [hchannel]
      exact .inl (List.mem_cons_of_mem _ (by simpa [setChannel] using hx))
    · exact .inl (by simpa [setChannel, hq] using hx)
  have hfirst : ∀ {source : Channel} {context : Context} {rest : List Context},
      w.channels source = context :: rest → ∀ x ∈ [context], x ∈ st.contexts ∨
        ∃ q, x ∈ w.channels q := by
    intro source context rest hchannel x hx
    obtain rfl := List.mem_singleton.mp hx
    exact .inr ⟨source, hchannel ▸ List.mem_cons_self⟩
  cases c with
  | startSpan type ev accepted =>
    obtain ⟨rfl, t', ht, rfl⟩ := create_eq_some h
    refine ⟨{ st with tracer := t', started := st.tracer.nextSpanId :: st.started },
      .inr ⟨_, rfl, ?_⟩, rfl, rfl, hkept, hnothing, hchannels, ?_, hunmarked⟩
    · simp [Session.call, hst, ht]
    · rw [hst]
      rfl
  | readParent span =>
    obtain ⟨ref, href, heq⟩ := Option.map_eq_some_iff.mp h
    obtain ⟨rfl, rfl⟩ := Prod.mk.inj heq
    have hread : st.tracer.parentRef span = some ref := hst ▸ href
    exact ⟨{ st with refs := ref :: st.refs },
      .inr ⟨_, rfl, Option.map_eq_some_iff.mpr ⟨ref, hread, rfl⟩⟩, hst, rfl, hkept, hnothing,
      hchannels, rfl, hunmarked⟩
  | startSpanByParent type ref ev accepted =>
    obtain ⟨rfl, t', ht, rfl⟩ := create_eq_some h
    refine ⟨st.withTracer t', .inr ⟨_, rfl, ?_⟩, rfl, rfl, hkept, hnothing, hchannels, rfl,
      hunmarked⟩
    simp [Session.call, hst, ht]
  | startSpanByParentPassOnContext type context ev accepted =>
    obtain ⟨rfl, t', ht, rfl⟩ := create_eq_some h
    refine ⟨st.withTracer t', .inr ⟨_, rfl, ?_⟩, rfl, rfl, hkept, hnothing, hchannels, rfl,
      hunmarked⟩
    simp [Session.call, hst, ht]
  | cloneShared span =>
    obtain ⟨rfl, t', ht, rfl⟩ := create_eq_some h
    obtain rfl := Option.some.inj ht
    refine ⟨st.withTracer (w.tracer.cloneShared span), .inr ⟨_, rfl, ?_⟩, rfl, rfl, hkept,
      hnothing, hchannels, rfl, hunmarked⟩
    simp [Session.call, hst]
  | startSpanSetParentContext span context =>
    obtain ⟨t', ht, rfl⟩ := change_eq_some h
    refine ⟨st.withTracer t', .inr ⟨_, rfl, ?_⟩, rfl, rfl, hkept, hnothing, hchannels, rfl,
      hunmarked⟩
    simp [Session.call, hst, ht]
  | addParentLazily span context =>
    obtain ⟨t', ht, rfl⟩ := change_eq_some h
    refine ⟨st.withTracer t', .inr ⟨_, rfl, ?_⟩, rfl, rfl, hkept, hnothing, hchannels, rfl,
      hunmarked⟩
    simp [Session.call, hst, ht]
  | markSpanAsDone span content =>
    obtain ⟨t', ht, rfl⟩ := change_eq_some h
    refine ⟨{ st with tracer := t', done := insert span st.done }, .inr ⟨_, rfl, ?_⟩, rfl, rfl,
      hkept, hnothing, hchannels, rfl, fun s => ?_⟩
    · simp [Session.call, hst, ht]
    · simp [Log.marked, or_comm]
  | createPassOnContext exp span =>
    obtain ⟨context, hcontext, heq⟩ := Option.map_eq_some_iff.mp h
    obtain ⟨rfl, rfl⟩ := Prod.mk.inj heq
    have hcreate : st.tracer.createPassOnContext exp span = some context := hst ▸ hcontext
    refine ⟨{ st with contexts := context :: st.contexts },
      .inr ⟨_, rfl, Option.map_eq_some_iff.mpr ⟨context, hcreate, rfl⟩⟩, hst, rfl,
      fun _ hx => List.mem_cons_of_mem _ hx, fun x hx => .inl ?_, hchannels, rfl, hunmarked⟩
    exact List.mem_singleton.mp hx ▸ List.mem_cons_self
  | addEvent span ev =>
    obtain ⟨-, rfl⟩ := Prod.mk.inj (Option.some.inj h)
    exact ⟨st, .inl ⟨rfl, rfl⟩, hst, rfl, hkept, hnothing, hchannels, rfl, hunmarked⟩
  | push dest context =>
    obtain ⟨-, rfl⟩ := Prod.mk.inj (Option.some.inj h)
    refine ⟨st, .inl ⟨rfl, rfl⟩, hst, rfl, hkept, hnothing, fun q x hx => ?_, rfl, hunmarked⟩
    by_cases hq : q = dest
    · subst hq
      have hmem : x ∈ w.channels q ++ [context] := by simpa [push] using hx
      exact (List.mem_append.mp hmem).imp_right fun hnew =>
        congrArg (Command.push q) (List.mem_singleton.mp hnew).symm
    · exact .inl (by simpa [push, hq] using hx)
  | pop source expected =>
    unfold exec at h
    dsimp only at h
    split at h
    · cases h
    · next context rest hchannel =>
      obtain ⟨rfl, rfl⟩ := Prod.mk.inj (Option.some.inj h)
      exact ⟨st, .inl ⟨rfl, rfl⟩, hst, rfl, hkept, hfirst hchannel, htaken hchannel, rfl,
        hunmarked⟩
  | tryPopOnTrue source syscallStart =>
    unfold exec at h
    dsimp only at h
    split at h
    · obtain ⟨rfl, rfl⟩ := Prod.mk.inj (Option.some.inj h)
      exact ⟨st, .inl ⟨rfl, rfl⟩, hst, rfl, hkept, hnothing, hchannels, rfl, hunmarked⟩
    · next context rest hchannel =>
      split at h
      · obtain ⟨rfl, rfl⟩ := Prod.mk.inj (Option.some.inj h)
        exact ⟨st, .inl ⟨rfl, rfl⟩, hst, rfl, hkept, hfirst hchannel, htaken hchannel, rfl,
          hunmarked⟩
      · obtain ⟨rfl, rfl⟩ := Prod.mk.inj (Option.some.inj h)
        exact ⟨st, .inl ⟨rfl, rfl⟩, hst, rfl, hkept, hnothing, hchannels, rfl, hunmarked⟩
  | terminate => cases h

theorem exec_startingTs (h : w.exec c = some (r, w')) {s : Nat} (hs : s < w.tracer.nextSpanId) :
    (w'.tracer.spans s).startingTs = (w.tracer.spans s).startingTs :=
  (exec_tracerStep h).startingTs hs

theorem exec_clone {span id : Nat} (h : w.exec (.cloneShared span) = some (id, w'))
    (hspan : span < w.tracer.nextSpanId) :
    (w'.tracer.spans id).startingTs = (w'.tracer.spans span).startingTs := by
  obtain ⟨rfl, t', ht, rfl⟩ := create_eq_some h
  obtain rfl := Option.some.inj ht
  simp [Tracer.cloneShared, newSpan, hspan.ne]

theorem exec_root {type : SpanType} {ev : Event} {accepted : Bool} {id : Nat}
    (ht : w.tracer.ContextsCreated)
    (h : w.exec (.startSpan type ev accepted) = some (id, w')) :
    (w'.tracer.spans id).startingTs = ev.getTs ∧ w'.tracer.OwnParent id none := by
  obtain ⟨rfl, t', ht', rfl⟩ := create_eq_some h
  obtain rfl := Tracer.startSpan_eq_some ht'
  have hnew := Tracer.OwnParent.new ht ⟨w.tracer.nextTraceId, none⟩ ev.getTs
  exact ⟨by simp [Tracer.allocate], hnew.created, hnew.parentOf, hnew.unshared⟩

theorem mem_register {t : Tracer} {T traceId : Nat} {ids new : List Nat} {s : Nat}
    (hT : (t.register traceId ids).traces T = some new) (hs : s ∈ new) :
    (∃ old, t.traces T = some old ∧ s ∈ old) ∨ s ∈ ids := by
  by_cases heq : T = traceId
  · subst heq
    obtain ⟨old, hold, rfl⟩ := Option.map_eq_some_iff.mp
      ((Function.update_self T _ t.traces).symm.trans hT)
    exact (List.mem_append.mp hs).imp_left fun hmem => ⟨old, hold, hmem⟩
  · exact .inl ⟨new, (Function.update_of_ne heq _ t.traces).symm.trans hT, hs⟩

/-- Traces get nothing but the span that an operation starts, or whose context it changes. -/
theorem exec_registered (hsound : w.tracer.Sound) (h : w.exec c = some (r, w')) {T s : Nat}
    {ids : List Nat} (hT : w'.tracer.traces T = some ids) (hs : s ∈ ids) :
    (∃ old T', w.tracer.traces T' = some old ∧ s ∈ old) ∨ c.created r = some s ∧
      c.target = none ∨ c.target = some s ∧ c.created r = none := by
  have hsame : w'.tracer.traces = w.tracer.traces →
      (∃ old T', w.tracer.traces T' = some old ∧ s ∈ old) ∨ c.created r = some s ∧
        c.target = none ∨ c.target = some s ∧ c.created r = none :=
    fun heq => .inl ⟨ids, T, heq ▸ hT, hs⟩
  cases c with
  | startSpan type ev accepted =>
    obtain ⟨rfl, t', ht, rfl⟩ := create_eq_some h
    obtain rfl := Tracer.startSpan_eq_some ht
    by_cases heq : T = w.tracer.nextTraceId
    · subst heq
      obtain rfl := Option.some.inj ((Function.update_self _ _ w.tracer.traces).symm.trans hT)
      obtain rfl := List.mem_singleton.mp hs
      exact .inr (.inl ⟨rfl, rfl⟩)
    · exact .inl ⟨ids, T, (Function.update_of_ne heq _ w.tracer.traces).symm.trans hT, hs⟩
  | startSpanByParent type ref ev accepted =>
    obtain ⟨rfl, t', ht, rfl⟩ := create_eq_some h
    obtain ⟨-, rfl⟩ := Tracer.startSpanByParent_eq_some ht
    obtain ⟨old, hold⟩ | hnew := mem_register hT hs
    · exact .inl ⟨old, T, hold⟩
    · exact .inr (.inl ⟨congrArg some (List.mem_singleton.mp hnew).symm, rfl⟩)
  | startSpanByParentPassOnContext type context ev accepted =>
    obtain ⟨rfl, t', ht, rfl⟩ := create_eq_some h
    obtain ⟨-, rfl⟩ := Tracer.startSpanByParent_eq_some ht
    obtain ⟨old, hold⟩ | hnew := mem_register hT hs
    · exact .inl ⟨old, T, hold⟩
    · exact .inr (.inl ⟨congrArg some (List.mem_singleton.mp hnew).symm, rfl⟩)
  | cloneShared span =>
    obtain ⟨rfl, t', ht, rfl⟩ := create_eq_some h
    obtain rfl := Option.some.inj ht
    exact hsame rfl
  | startSpanSetParentContext span context =>
    obtain ⟨t', ht, rfl⟩ := change_eq_some h
    obtain ⟨-, rfl⟩ := Tracer.startSpanSetParentContext_eq_some ht
    obtain ⟨old, hold⟩ | hnew := mem_register hT hs
    · exact .inl ⟨old, T, hold⟩
    · exact .inr (.inr ⟨congrArg some (List.mem_singleton.mp hnew).symm, rfl⟩)
  | addParentLazily span context =>
    obtain ⟨t', ht, rfl⟩ := change_eq_some h
    obtain ⟨moved, hmoved, -, rfl⟩ := (Tracer.addParentLazily_eq_some (hsound.nodup _)).mp ht
    have hne : T ≠ w.tracer.traceIdOf span := by
      rintro rfl
      cases (Function.update_self _ _ _).symm.trans hT
    obtain ⟨old, hold⟩ | hnew := mem_register ((Function.update_of_ne hne _ _).symm.trans hT) hs
    · exact .inl ⟨old, T, hold⟩
    · rcases List.mem_cons.mp hnew with rfl | hmem
      · exact .inr (.inr ⟨rfl, rfl⟩)
      · exact .inl ⟨moved, _, hmoved, List.mem_of_mem_filter hmem⟩
  | markSpanAsDone span content =>
    obtain ⟨t', ht, rfl⟩ := change_eq_some h
    obtain heq | ⟨-, -, -, heq⟩ := (finishes_markSpanAsDone ht).traces
    · exact hsame heq
    · have hne : T ≠ w.tracer.traceIdOf span := by
        rintro rfl
        rw [heq, Function.update_self] at hT
        cases hT
      rw [heq, Function.update_of_ne hne] at hT
      exact .inl ⟨ids, T, hT, hs⟩
  | readParent | createPassOnContext =>
    obtain ⟨_, -, heq⟩ := Option.map_eq_some_iff.mp h
    obtain ⟨-, rfl⟩ := Prod.mk.inj heq
    exact hsame rfl
  | addEvent | push =>
    obtain ⟨-, rfl⟩ := Prod.mk.inj (Option.some.inj h)
    exact hsame rfl
  | pop | tryPopOnTrue =>
    let session : Session := ⟨w.tracer, [], [], [], ∅⟩
    have hsession : session.tracer = w.tracer := rfl
    obtain ⟨st', hcalled⟩ := exec_called hsession h
    obtain ⟨-, rfl⟩ | ⟨call, hcall, -⟩ := hcalled.call
    · exact hsame (congrArg Tracer.traces hcalled.tracer.symm)
    · cases hcall
  | terminate => cases h

theorem exec_named (hsound : w.tracer.Sound) (hnamed : w.tracer.Named)
    (hclone : ∀ span, c = .cloneShared span → w.tracer.IsSpan span)
    (h : w.exec c = some (r, w')) : w'.tracer.Named := by
  have hallocate : ∀ (context : TraceContext) {ts : Nat}, context.traceId ≠ 0 →
      ∀ s, (w.tracer.allocate context ts).IsSpan s →
        (w.tracer.allocate context ts).traceIdOf s ≠ 0 := by
    intro context ts hcontext s hs
    rw [traceIdOf_allocate hsound.contexts]
    obtain rfl | hs := isSpan_allocate context ts hs
    · rw [if_pos rfl]
      exact hcontext
    · rw [if_neg hs.2.ne]
      exact hnamed s hs
  cases c with
  | startSpan type ev accepted =>
    obtain ⟨rfl, t', ht, rfl⟩ := create_eq_some h
    obtain rfl := Tracer.startSpan_eq_some ht
    exact hallocate ⟨w.tracer.nextTraceId, none⟩ hsound.traceId_pos.ne'
  | startSpanByParent type ref ev accepted =>
    obtain ⟨rfl, t', ht, rfl⟩ := create_eq_some h
    obtain ⟨-, rfl⟩ := Tracer.startSpanByParent_eq_some ht
    exact hallocate ⟨ref.traceId, some ref.parent⟩ ref.valid
  | startSpanByParentPassOnContext type context ev accepted =>
    obtain ⟨rfl, t', ht, rfl⟩ := create_eq_some h
    obtain ⟨-, rfl⟩ := Tracer.startSpanByParent_eq_some ht
    exact hallocate ⟨context.traceId, some context.parent⟩ context.valid
  | cloneShared span =>
    obtain ⟨rfl, t', ht, rfl⟩ := create_eq_some h
    obtain rfl := Option.some.inj ht
    intro s hs
    obtain ⟨s₀, hs₀, -, htrace, -⟩ := isSpan_cloneShared (hclone span rfl) hs
    exact htrace ▸ hnamed s₀ hs₀
  | startSpanSetParentContext span context =>
    obtain ⟨t', ht, rfl⟩ := change_eq_some h
    obtain ⟨-, rfl⟩ := Tracer.startSpanSetParentContext_eq_some ht
    intro s hs
    have htrace := traceIdOf_renewContext hsound.contexts span
      ⟨context.traceId, some context.parent⟩ s
    change (w.tracer.renewContext span _).traceIdOf s ≠ 0
    rw [htrace]
    split_ifs
    · exact context.valid
    · exact hnamed s hs
  | addParentLazily span context =>
    obtain ⟨t', ht, rfl⟩ := change_eq_some h
    obtain ⟨ids, -, -, rfl⟩ := (Tracer.addParentLazily_eq_some (hsound.nodup _)).mp ht
    intro s hs
    change (w.tracer.reparent span context.toParentRef ids).traceIdOf s ≠ 0
    rw [traceIdOf_reparent]
    split_ifs
    · exact context.valid
    · exact context.valid
    · exact hnamed s hs
  | markSpanAsDone span content =>
    obtain ⟨t', ht, rfl⟩ := change_eq_some h
    obtain ⟨t₁, hheap, heq⟩ := (finishes_markSpanAsDone ht).heap
    intro s hs
    rw [heq] at hs ⊢
    have hspan : w.tracer.IsSpan s := ⟨hs.1, hheap.nextSpanId ▸ hs.2⟩
    have htrace : t₁.traceIdOf s ≠ 0 := hheap.traceIdOf ▸ hnamed s hspan
    exact htrace
  | readParent | createPassOnContext =>
    obtain ⟨_, -, heq⟩ := Option.map_eq_some_iff.mp h
    obtain ⟨-, rfl⟩ := Prod.mk.inj heq
    exact hnamed
  | addEvent | push =>
    obtain ⟨-, rfl⟩ := Prod.mk.inj (Option.some.inj h)
    exact hnamed
  | pop | tryPopOnTrue =>
    let session : Session := ⟨w.tracer, [], [], [], ∅⟩
    have hsession : session.tracer = w.tracer := rfl
    obtain ⟨st', hcalled⟩ := exec_called hsession h
    obtain ⟨-, rfl⟩ | ⟨call, hcall, -⟩ := hcalled.call
    · exact hcalled.tracer ▸ hnamed
    · cases hcall
  | terminate => cases h

end World

section

variable {ι : Type} {w w' : World} {h : ι → Log} {c : Command} {r : c.Response} {st : Session}

/-- The calls that respect all of the discipline. -/
def Session.Allowed (st : Session) (call : TracerCall) : Prop :=
  st.Available call ∧ st.DoneOnce call ∧ st.Disciplined call

/-- The session that a system stands for. Whatever spanners and channels hold is known to it,
and it knows the roots and what was handed over. -/
structure Stands (w : World) (h : ι → Log) (st : Session) : Prop where
  reachable : Transition.Reachable Session.call Session.Allowed .init st
  tracer : st.tracer = w.tracer
  refs : ∀ i, ∀ ref ∈ (h i).refs, ref ∈ st.refs
  contexts : ∀ i, ∀ x ∈ (h i).contexts, x ∈ st.contexts
  channels : ∀ q, ∀ x ∈ w.channels q, x ∈ st.contexts
  started : ∀ s, s ∈ st.started ↔ ∃ i, s ∈ (h i).roots
  done : ∀ s, s ∈ st.done ↔ ∃ i, s ∈ (h i).marked.map Prod.fst

theorem Stands.rooting (hst : Stands w h st) : st.Rooting :=
  hst.reachable.invariant Session.rooting_init Session.rooting_call

theorem Stands.sound (hst : Stands w h st) : w.tracer.Sound :=
  hst.tracer ▸ hst.rooting.ledger.valid.tracer

/-- What holds of the spans of a system. Roots whose contexts were not touched have their own
ones, and copies that got no parent yet are in no trace. -/
structure Spanned (w : World) (h : ι → Log) : Prop where
  separate : Separate w h
  followed : ∀ i, Log.Followed safe (h i)
  isSpan : ∀ i, ∀ id ∈ (h i).created, w.tracer.IsSpan id
  named : w.tracer.Named
  own : ∀ i, ∀ id ∈ (h i).roots, id ∉ (h i).targets → w.tracer.OwnParent id none
  unregistered : ∀ i call id, ⟨.cloneShared call, id⟩ ∈ h i → id ∉ (h i).targets →
    ∀ T ids, w.tracer.traces T = some ids → id ∉ ids
  rootTs : ∀ i type ev accepted id, ⟨.startSpan type ev accepted, id⟩ ∈ h i →
    (w.tracer.spans id).startingTs = ev.getTs
  copyTs : ∀ i call id, ⟨.cloneShared call, id⟩ ∈ h i →
    (w.tracer.spans id).startingTs = (w.tracer.spans call).startingTs

/-- An operation changes contexts of spans of its spanner only. -/
theorem created_of_target {h : Log} (hsafe : safe h c) {id : Nat} (hid : c.target = some id) :
    id ∈ h.created := by
  obtain ⟨-, huses⟩ := hsafe
  cases c with
  | cloneShared span => exact Option.some.inj hid ▸ huses
  | startSpanSetParentContext span context =>
    obtain ⟨-, -, -, call, type, ev, accepted, hclone, -⟩ := huses
    exact Option.some.inj hid ▸ Log.created_of_mem hclone rfl
  | addParentLazily span context =>
    obtain ⟨-, -, -, hroot⟩ := huses
    exact Option.some.inj hid ▸ Log.created_of_roots hroot
  | _ => cases hid

theorem Spanned.marked_created (hsp : Spanned w h) {i : ι} {id : Nat}
    (hid : id ∈ (h i).marked.map Prod.fst) : id ∈ (h i).created :=
  (marked_of_followed fun h₁ e h₂ heq => (hsp.followed i h₁ e h₂ heq).1).2.2 id hid

/-- What a spanner did not hand over is not done. -/
theorem Stands.not_done (hst : Stands w h st) (hsp : Spanned w h) {i : ι} {id : Nat}
    (hid : id ∈ (h i).created) (hmarked : id ∉ (h i).marked.map Prod.fst) : id ∉ st.done := by
  intro hdone
  obtain ⟨j, hj⟩ := (hst.done id).mp hdone
  by_cases hij : i = j
  · exact hmarked (hij ▸ hj)
  · exact hsp.separate.disjoint i j hij hid (hsp.marked_created hj)

/-- The calls of a spanner respect the discipline. -/
theorem Stands.allowed (hst : Stands w h st) (hsp : Spanned w h) {i : ι} (hsafe : safe (h i) c)
    {call : TracerCall} (hcall : c.call = some call) : st.Allowed call := by
  obtain ⟨hfinishes, huses⟩ := hsafe
  have hspan : ∀ {id}, id ∈ (h i).created → st.tracer.IsSpan id :=
    fun hid => hst.tracer ▸ hsp.isSpan i _ hid
  cases c with
  | startSpan type ev accepted =>
    obtain rfl := Option.some.inj hcall
    exact ⟨trivial, trivial, trivial⟩
  | readParent span =>
    obtain rfl := Option.some.inj hcall
    exact ⟨hspan huses, trivial, trivial⟩
  | startSpanByParent type ref ev accepted =>
    obtain rfl := Option.some.inj hcall
    exact ⟨hst.refs i ref huses, trivial, trivial⟩
  | startSpanByParentPassOnContext type context ev accepted =>
    obtain rfl := Option.some.inj hcall
    exact ⟨hst.contexts i context huses, trivial, trivial⟩
  | cloneShared span =>
    obtain rfl := Option.some.inj hcall
    exact ⟨hspan huses, trivial, trivial⟩
  | startSpanSetParentContext span context =>
    obtain rfl := Option.some.inj hcall
    obtain ⟨hcontext, huntouched, hmarked, call, type, ev, accepted, hclone, -⟩ := huses
    have hcreated : span ∈ (h i).created := Log.created_of_mem hclone rfl
    refine ⟨⟨hspan hcreated, hst.contexts i context hcontext⟩,
      hst.not_done hsp hcreated hmarked, ?_⟩
    intro hregistered
    obtain ⟨T, ids, hT, hmem⟩ := (hst.rooting.ledger.valid.tracer.registered_iff).mp hregistered
    exact hsp.unregistered i call span hclone huntouched T ids (hst.tracer ▸ hT) hmem
  | addParentLazily span context =>
    obtain rfl := Option.some.inj hcall
    obtain ⟨hcontext, huntouched, hmarked, hroot⟩ := huses
    have hcreated := Log.created_of_roots hroot
    have hown : st.tracer.OwnParent span none := hst.tracer ▸ hsp.own i span hroot huntouched
    have hnew := hst.not_done hsp hcreated hmarked
    refine ⟨⟨hspan hcreated, hst.contexts i context hcontext⟩, fun s hs => ?_, ?_, hown.parentOf⟩
    · exact hown.unshared s fun heq => hnew (heq ▸ hs)
    · obtain ⟨ids, hids, hmem⟩ :=
        hst.rooting.registered span ((hst.started span).mpr ⟨i, hroot⟩) hnew hown.parentOf
      exact (hst.rooting.ledger.valid.tracer.registered_iff).mpr ⟨_, ids, hids, hmem⟩
  | markSpanAsDone span content =>
    obtain rfl := Option.some.inj hcall
    exact ⟨hspan hfinishes.2.1, hst.not_done hsp hfinishes.2.1 hfinishes.2.2, trivial⟩
  | createPassOnContext exp span =>
    obtain rfl := Option.some.inj hcall
    exact ⟨hspan huses, trivial, trivial⟩
  | _ => cases hcall

/-- The exporter gets complete spans, each of them once and after its parent; what was handed
over and not exported waits for its parent, once. A root that was not handed over and has no
parent yet is in its trace. -/
structure Exports (s : SystemState ι) : Prop where
  nodup : s.world.tracer.exporter.exported.Nodup
  parentFirst : Forest.ParentFirst s.world.tracer.parentOf s.world.tracer.exporter.exported
  handedOver : ∀ span, (∃ i content, (span, content) ∈ Log.marked (s.history i)) ↔
    span ∈ s.world.tracer.exporter.exported ∨
      ∃ p l, s.world.tracer.waitingList p = some l ∧ span ∈ l
  waiting : ∀ p l, s.world.tracer.waitingList p = some l →
    p ∉ s.world.tracer.exporter.exported ∧ l.Nodup ∧
      ∀ span ∈ l, span ∉ s.world.tracer.exporter.exported ∧
        s.world.tracer.parentOf span = some p
  complete : ∀ span ∈ s.world.tracer.exporter.exported, ∃ i content,
    (span, content) ∈ Log.marked (s.history i) ∧ content.toEventSpan.isPending = false
  roots : ∀ i, ∀ root ∈ Log.roots (s.history i), root ∉ (Log.marked (s.history i)).map Prod.fst →
    s.world.tracer.parentOf root = none → ∃ ids,
      s.world.tracer.traces (s.world.tracer.traceIdOf root) = some ids ∧ root ∈ ids

theorem Stands.exports {s : SystemState ι} (hst : Stands s.world s.history st)
    (hsp : Spanned s.world s.history) : Exports s := by
  have hledger := hst.rooting.ledger
  have hlog := hledger.log
  have hbuckets := hledger.buckets
  rw [hst.tracer] at hlog hbuckets
  have hmarked : ∀ span,
      (∃ i content, (span, content) ∈ Log.marked (s.history i)) ↔ span ∈ st.done := by
    intro span
    rw [hst.done]
    simp only [List.mem_map, Prod.exists, exists_and_right, exists_eq_right]
  refine ⟨hlog.nodup, hlog.parentFirst, fun span => ?_, fun p l hl => ?_, fun span hspan => ?_, ?_⟩
  · rw [hmarked, hledger.done_iff, hst.tracer, hlog.mem_iff]
  · refine ⟨fun hp => hbuckets.key hl (Set.notMem_empty _) ((hlog.mem_iff p).mpr hp),
      hbuckets.nodup hl, fun span hspan => ⟨fun hmem => ?_, hbuckets.parent hl span hspan⟩⟩
    exact hbuckets.waiting hl (Set.notMem_empty _) span hspan ((hlog.mem_iff span).mpr hmem)
  · have hdone : span ∈ st.done := by
      rw [hledger.done_iff, hst.tracer, hlog.mem_iff]
      exact .inl hspan
    obtain ⟨i, content, hmem⟩ := (hmarked span).mpr hdone
    have hcomplete := (marked_of_followed fun h₁ e h₂ heq => (hsp.followed i h₁ e h₂ heq).1).1
    exact ⟨i, content, hmem, hcomplete _ hmem⟩
  · intro i root hroot hnot hparent
    have hnew := hst.not_done hsp (Log.created_of_roots hroot) hnot
    have hregistered := hst.rooting.registered root ((hst.started root).mpr ⟨i, hroot⟩) hnew
    rw [hst.tracer] at hregistered
    exact hregistered hparent

/-- The exceptions of the tracer that its callers do not exclude. -/
def Refused (w : World) : Command → Prop
  | .terminate => True
  | .startSpan _ _ accepted | .startSpanByParent _ _ _ accepted => accepted = false
  | .startSpanByParentPassOnContext _ _ _ accepted => accepted = false
  | .pop source _ => w.channels source = []
  | .addParentLazily span c => w.tracer.traceIdOf span = c.traceId
  | _ => False

theorem startSpan_total {t : Tracer} (hsound : t.Sound) (ts : Nat) :
    ∃ t', t.startSpan ⟨ts, true⟩ = some t' := by
  have hnew : t.traces t.nextTraceId = none := by
    cases htrace : t.traces t.nextTraceId with
    | none => rfl
    | some ids => exact absurd (hsound.existing _ ids htrace).2 (lt_irrefl _)
  unfold Tracer.startSpan Tracer.startSpanInternal Tracer.insertTrace
  simp [Tracer.registerCreateContext, Tracer.newContext, Tracer.newSpan, hnew]

theorem startSpanByParent_total {t : Tracer} (hsound : t.Sound) (ref : ParentRef) (ts : Nat) :
    ∃ t', t.startSpanByParent ref ⟨ts, true⟩ = some t' := by
  refine ⟨_, Tracer.addSpanToTraceIfTraceExists_eq_some.mpr ⟨fun ids hids hmem => ?_, rfl⟩⟩
  exact lt_irrefl _ (hsound.registered _ ids hids _ hmem).2

theorem startSpanSetParentContext_total {t : Tracer} {span : Nat} {ref : ParentRef}
    (hstart : ref.parent.startTs ≤ (t.spans span).startingTs)
    (hnew : ∀ ids, t.traces ref.traceId = some ids → span ∉ ids) :
    ∃ t', t.startSpanSetParentContext span ref = some t' := by
  unfold Tracer.startSpanSetParentContext Tracer.setContext
  dsimp only [Tracer.registerCreateContextParent, Tracer.newContext]
  rw [if_neg hstart.not_gt]
  exact ⟨_, Tracer.addSpanToTraceIfTraceExists_eq_some.mpr ⟨hnew, rfl⟩⟩

/-- An operation is impossible for one of these reasons, and for no other one. -/
theorem Stands.exec_eq_none_iff (hst : Stands w h st) (hsp : Spanned w h) {i : ι}
    (hsafe : safe (h i) c) : w.exec c = none ↔ Refused w c := by
  have hsound := hst.sound
  have hspan : ∀ {id}, id ∈ (h i).created → w.tracer.IsSpan id := fun hid => hsp.isSpan i _ hid
  have hcreate : ∀ {t : Option Tracer}, (∃ t', t = some t') → w.create t ≠ none := by
    rintro t ⟨t', rfl⟩ hnone
    cases hnone
  have hchange : ∀ {t : Option Tracer}, (∃ t', t = some t') → w.change t ≠ none := by
    rintro t ⟨t', rfl⟩ hnone
    cases hnone
  have hrejected : c.accepted = false → w.exec c = none := by
    intro hfalse
    cases hexec : w.exec c with
    | none => rfl
    | some rw' => cases hfalse.symm.trans (World.exec_accepted hexec)
  obtain ⟨hfinishes, huses⟩ := hsafe
  cases c with
  | terminate => exact iff_of_true rfl trivial
  | startSpan type ev accepted =>
    refine ⟨fun hnone => ?_, fun hfalse => hrejected hfalse⟩
    cases accepted with
    | false => rfl
    | true => exact absurd hnone (hcreate (startSpan_total hsound _))
  | startSpanByParent type ref ev accepted =>
    refine ⟨fun hnone => ?_, fun hfalse => hrejected hfalse⟩
    cases accepted with
    | false => rfl
    | true => exact absurd hnone (hcreate (startSpanByParent_total hsound _ _))
  | startSpanByParentPassOnContext type context ev accepted =>
    refine ⟨fun hnone => ?_, fun hfalse => hrejected hfalse⟩
    cases accepted with
    | false => rfl
    | true => exact absurd hnone (hcreate (startSpanByParent_total hsound _ _))
  | readParent span =>
    obtain ⟨ref, href⟩ := hsp.named.parentRef (hspan huses)
    refine iff_of_false (fun hnone => ?_) id
    change (w.tracer.parentRef span).map _ = none at hnone
    rw [href] at hnone
    cases hnone
  | createPassOnContext exp span =>
    obtain ⟨ref, href⟩ := hsp.named.parentRef (hspan huses)
    refine iff_of_false (fun hnone => ?_) id
    change ((w.tracer.parentRef span).map _).map _ = none at hnone
    rw [href] at hnone
    cases hnone
  | cloneShared span => exact iff_of_false (hcreate ⟨_, rfl⟩) id
  | startSpanSetParentContext span context =>
    obtain ⟨-, huntouched, -, call, type, ev, accepted, hclone, hroot, hbefore⟩ := huses
    have hstart : (w.tracer.spans span).startingTs = ev.getTs :=
      (hsp.copyTs i call span hclone).trans (hsp.rootTs i type ev accepted call hroot)
    exact iff_of_false (hchange (startSpanSetParentContext_total (hstart ▸ hbefore.le)
      (hsp.unregistered i call span hclone huntouched _))) id
  | addParentLazily span context =>
    obtain ⟨hcontext, huntouched, hmarked, hroot⟩ := huses
    have hcreated := Log.created_of_roots hroot
    obtain ⟨ids, hids, hmem⟩ := hst.rooting.registered span ((hst.started span).mpr ⟨i, hroot⟩)
      (hst.not_done hsp hcreated hmarked) (hst.tracer ▸ (hsp.own i span hroot huntouched).parentOf)
    rw [hst.tracer] at hids
    have hplaced : w.tracer.Placed := hst.tracer ▸ hst.rooting.placed
    have hiff : ∀ t', w.tracer.addParentLazily span context.toParentRef = some t' ↔ _ :=
      fun t' => Tracer.addParentLazily_eq_some (hsound.nodup (w.tracer.traceIdOf span))
    constructor
    · intro hnone
      by_contra hother
      refine hchange ⟨_, (hiff _).mpr ⟨ids, hids, fun new hnew => ⟨fun hspan => ?_, ?_⟩, rfl⟩⟩ hnone
      · exact hother (hplaced.member _ new hnew span hspan)
      · intro hne s hs hs'
        exact hne ((hplaced.member _ new hnew s hs').symm.trans (hplaced.member _ ids hids s hs))
    · intro hsame
      cases hexec : w.exec (.addParentLazily span context) with
      | none => rfl
      | some rw' =>
        obtain ⟨t', ht, -⟩ := World.change_eq_some hexec
        obtain ⟨ids', -, hnew, -⟩ := (hiff _).mp ht
        have htrace : w.tracer.traceIdOf span = context.traceId := hsame
        exact absurd hmem (hnew ids (htrace ▸ hids)).1
  | markSpanAsDone span content =>
    refine iff_of_false (hchange ?_) id
    obtain ⟨st', hcall, -⟩ := hst.rooting.ledger.markSpanAsDone
      (hst.tracer ▸ hspan hfinishes.2.1) (hst.not_done hsp hfinishes.2.1 hfinishes.2.2)
    obtain ⟨t', ht, -⟩ := Option.map_eq_some_iff.mp hcall
    exact ⟨t', hst.tracer ▸ ht⟩
  | addEvent span ev => exact iff_of_false (fun hnone => by cases hnone) id
  | push dest context => exact iff_of_false (fun hnone => by cases hnone) id
  | pop source expected =>
    cases hchannel : w.channels source <;> simp [World.exec, Refused, hchannel]
  | tryPopOnTrue source syscallStart =>
    refine iff_of_false (fun hnone => ?_) id
    unfold World.exec at hnone
    cases hchannel : w.channels source with
    | nil => simp [hchannel] at hnone
    | cons context rest =>
      simp only [hchannel] at hnone
      split at hnone <;> cases hnone

variable [DecidableEq ι] {i : ι}

/-- The session after an operation of a spanner. -/
theorem Stands.exec (hst : Stands w h st) (hsp : Spanned w h) (hsafe : safe (h i) c)
    (hexec : w.exec c = some (r, w')) :
    ∃ st', Stands w' (Function.update h i (h i ++ [⟨c, r⟩])) st' := by
  obtain ⟨st', hcalled⟩ := World.exec_called hst.tracer hexec
  have hupdate : ∀ {β : Type} (f : Log → List β) (x : β),
      (∀ l l', f (l ++ l') = f l ++ f l') →
      ((∃ j, x ∈ f (Function.update h i (h i ++ [⟨c, r⟩]) j)) ↔
        (∃ j, x ∈ f (h j)) ∨ x ∈ f [⟨c, r⟩]) := by
    intro β f x happend
    constructor
    · rintro ⟨j, hj⟩
      by_cases hji : j = i
      · subst hji
        rw [Function.update_self, happend] at hj
        exact (List.mem_append.mp hj).imp_left fun hold => ⟨j, hold⟩
      · exact .inl ⟨j, by simpa [hji] using hj⟩
    · rintro (⟨j, hj⟩ | hnew)
      · refine ⟨j, ?_⟩
        by_cases hji : j = i
        · subst hji
          rw [Function.update_self, happend]
          exact List.mem_append_left _ hj
        · simpa [hji] using hj
      · refine ⟨i, ?_⟩
        rw [Function.update_self, happend]
        exact List.mem_append_right _ hnew
  refine ⟨st', ?_, hcalled.tracer, fun j ref href => ?_, fun j x hx => ?_, fun q x hx => ?_,
    fun s => ?_, fun s => ?_⟩
  · obtain ⟨-, rfl⟩ | ⟨call, hcall, hsession⟩ := hcalled.call
    · exact hst.reachable
    · exact hst.reachable.tail (hst.allowed hsp hsafe hcall) hsession
  · rw [hcalled.refs]
    obtain ⟨k, hk⟩ | hnew := (hupdate Log.refs ref Log.refs_append).mp ⟨j, href⟩
    · exact List.mem_append_right _ (hst.refs k ref hk)
    · exact List.mem_append_left _ hnew
  · obtain ⟨k, hk⟩ | hnew := (hupdate Log.contexts x Log.contexts_append).mp ⟨j, hx⟩
    · exact hcalled.kept x (hst.contexts k x hk)
    · obtain hmade | ⟨q, hq⟩ := hcalled.contexts x hnew
      · exact hmade
      · exact hcalled.kept x (hst.channels q x hq)
  · obtain hold | rfl := hcalled.channels q x hx
    · exact hcalled.kept x (hst.channels q x hold)
    · exact hcalled.kept x (hst.contexts i x hsafe.2)
  · rw [hcalled.started, hupdate Log.roots s Log.roots_append, List.mem_append, hst.started,
      or_comm]
  · have hmarked := hupdate (fun l => (Log.marked l).map Prod.fst) s fun l l' => by simp
    rw [hcalled.done, hmarked, hst.done]

theorem mem_update {j : ι} {e : (c : Command) × c.Response}
    (he : e ∈ Function.update h i (h i ++ [⟨c, r⟩]) j) : e ∈ h j ∨ j = i ∧ e = ⟨c, r⟩ := by
  by_cases hji : j = i
  · subst hji
    rw [Function.update_self] at he
    exact (List.mem_append.mp he).imp_right fun hnew => ⟨rfl, List.mem_singleton.mp hnew⟩
  · exact .inl (by simpa [hji] using he)

/-- The operations of a spanner keep what holds of the spans of all of them. -/
theorem Spanned.exec (hsp : Spanned w h) (hsound : w.tracer.Sound) (hsafe : safe (h i) c)
    (hexec : w.exec c = some (r, w')) :
    freshRely (h i) c r ∧ Spanned w' (Function.update h i (h i ++ [⟨c, r⟩])) := by
  obtain ⟨hfresh, hsep⟩ := hsp.separate.exec (i := i) hexec
  obtain ⟨hnext, hid⟩ := World.exec_created hexec
  have hstep := World.exec_tracerStep hexec
  have hold : ∀ {j id}, id ∈ (h j).created → id < w.tracer.nextSpanId :=
    fun hmem => hsp.separate.created _ _ hmem
  -- the span is not the one that the operation changes
  have htarget : ∀ {j id}, id ∈ (h j).created →
      id ∉ (Function.update h i (h i ++ [⟨c, r⟩]) j).targets → c.target ≠ some id := by
    intro j id hmem huntouched heq
    by_cases hji : j = i
    · subst hji
      rw [Function.update_self, Log.targets_append] at huntouched
      exact huntouched
        (List.mem_append_right _ (List.mem_filterMap.mpr ⟨_, List.mem_cons_self, heq⟩))
    · exact hsp.separate.disjoint j i hji hmem (created_of_target hsafe heq)
  have huntouched : ∀ {j id}, id ∉ (Function.update h i (h i ++ [⟨c, r⟩]) j).targets →
      id ∉ (h j).targets := by
    intro j id hnot hmem
    by_cases hji : j = i
    · subst hji
      rw [Function.update_self, Log.targets_append] at hnot
      exact hnot (List.mem_append_left _ hmem)
    · exact hnot (by simpa [hji] using hmem)
  refine ⟨hfresh, hsep, fun j => ?_, fun j id hmem => ⟨?_, hsep.created j id hmem⟩, ?_, ?_, ?_, ?_,
    ?_⟩
  · by_cases hji : j = i
    · subst hji
      simpa using (hsp.followed j).concat hsafe r
    · simpa [hji] using hsp.followed j
  · obtain ⟨e, he, hcreated⟩ := List.mem_filterMap.mp hmem
    obtain hmem | ⟨-, rfl⟩ := mem_update he
    · exact (hsp.isSpan j id (List.mem_filterMap.mpr ⟨e, hmem, hcreated⟩)).1
    · rw [hid id hcreated]
      exact hsound.spanId_pos
  · refine World.exec_named hsound hsp.named (fun span heq => ?_) hexec
    subst heq
    exact hsp.isSpan i span hsafe.2
  · intro j id hroot hnot
    obtain ⟨type, ev, accepted, he⟩ := Log.mem_roots.mp hroot
    obtain hmem | ⟨-, heq⟩ := mem_update he
    · have hroot := Log.mem_roots.mpr ⟨type, ev, accepted, hmem⟩
      exact hstep.ownParent hsound.contexts (hsp.own j id hroot (huntouched hnot))
        (htarget (Log.created_of_roots hroot) hnot)
    · cases heq
      exact (World.exec_root hsound.contexts hexec).2
  · intro j call id he hnot T ids hT hmem
    obtain ⟨old, T', hold', hmem'⟩ | ⟨hcreated, hnone⟩ | ⟨htarget', hnone⟩ :=
      World.exec_registered hsound hexec hT hmem
    · obtain he | ⟨-, heq⟩ := mem_update he
      · exact hsp.unregistered j call id he (huntouched hnot) T' old hold' hmem'
      · cases heq
        exact (hsound.registered T' old hold' _ hmem').2.ne (hid _ rfl)
    · obtain he | ⟨-, heq⟩ := mem_update he
      · exact (hold (Log.created_of_mem he rfl)).ne (hid id hcreated)
      · cases heq
        cases hnone
    · obtain he | ⟨-, heq⟩ := mem_update he
      · exact htarget (Log.created_of_mem he rfl) hnot htarget'
      · cases heq
        cases hnone
  · intro j type ev accepted id he
    obtain he | ⟨-, heq⟩ := mem_update he
    · exact (World.exec_startingTs hexec (hold (Log.created_of_mem he rfl))).trans
        (hsp.rootTs j type ev accepted id he)
    · cases heq
      exact (World.exec_root hsound.contexts hexec).1
  · intro j call id he
    obtain he | ⟨-, heq⟩ := mem_update he
    · obtain ⟨h₁, h₂, hsplit⟩ := List.append_of_mem he
      have hcall : call ∈ Log.created h₁ :=
        created_of_target (hsp.followed j h₁ _ h₂ hsplit) rfl
      have hknown : call ∈ (h j).created := by
        rw [hsplit, Log.created_append]
        exact List.mem_append_left _ hcall
      rw [World.exec_startingTs hexec (hold (Log.created_of_mem he rfl)),
        World.exec_startingTs hexec (hold hknown)]
      exact hsp.copyTs j call id he
    · cases heq
      exact World.exec_clone hexec (hold hsafe.2)

/-- What a system did up to some point was a run of calls that respect the discipline, and what
is left of its spanners keeps it so. -/
theorem SystemState.stands {env : TraceEnvironment} {rounds : Nat} {setup : ι → Setup}
    {s : SystemState ι}
    (hs : Transition.Reachable SystemState.step (fun _ move => ∃ i, move = .act i)
      (SystemState.start env rounds setup World.init) s) :
    ∃ st, Stands s.world s.history st ∧ Spanned s.world s.history ∧
      ∀ i, Keeps safe freshRely (fun _ _ => True) (s.program i) (s.history i) := by
  have hguarded : Guarded (fun _ => safe) (fun _ => freshRely) (fun _ _ _ => True)
      (fun w h => (∃ st, Stands w h st) ∧ Spanned w h) s := by
    refine Guarded.reachable ?_ ?_ ⟨⟨⟨.init, ?_⟩, ?_⟩, fun i => keeps_safe env rounds (setup i)⟩ hs
    · rintro w h i c r w' ⟨⟨st, hst⟩, hsp⟩ hsafe hexec
      obtain ⟨hfresh, hsp'⟩ := hsp.exec hst.sound hsafe hexec
      exact ⟨hfresh, hst.exec hsp hsafe hexec, hsp'⟩
    · rintro s e w' ⟨i, hi⟩
      cases hi
    · have hnone : ∀ {α : Type} (x : α), x ∈ ([] : List α) ↔ ∃ _ : ι, x ∈ ([] : List α) := by simp
      exact ⟨.refl, rfl, fun i ref href => (by cases href), fun i x hx => (by cases hx),
        fun q x hx => (by cases hx), hnone,
        fun x => by simp [Session.init, SystemState.start, Log.marked]⟩
    · exact ⟨⟨fun i id hid => (by cases hid), fun i => .nil, fun i j _ id hid => by cases hid⟩,
        fun i => .nil, fun i id hid => (by cases hid), fun span hspan => absurd hspan.2 (by
          have hpos := hspan.1
          change ¬ span < 1
          omega),
        fun i id hid => (by cases hid), fun i call id he => (by cases he),
        fun i type ev accepted id he => (by cases he), fun i call id he => by cases he⟩
  obtain ⟨⟨⟨st, hst⟩, hsp⟩, hkeeps⟩ := hguarded
  exact ⟨st, hst, hsp, hkeeps⟩

/-- What a system of spanners exports, in whatever order they run and whatever events they
handle. -/
theorem exports_of_reachable {env : TraceEnvironment} {rounds : Nat} {setup : ι → Setup}
    {s : SystemState ι}
    (hs : Transition.Reachable SystemState.step (fun _ move => ∃ i, move = .act i)
      (SystemState.start env rounds setup World.init) s) : Exports s := by
  obtain ⟨st, hst, hsp, -⟩ := SystemState.stands hs
  exact hst.exports hsp

/-- A call of the host accesses a register of the NIC. -/
def callWithAccess (host : Bool) : Setup :=
  if host then .host ⟨0, 1, 2⟩
    [⟨1, 0, [], .hostCall 64 none none⟩, ⟨2, 0, [], .hostMmioW 7 4096 4 0 0 false⟩]
  else .nic ⟨3, 4, 1, 0, 2⟩ [⟨10, 1, [], .nicMmioW 0 4 1 false⟩]

/-- The span of the NIC waits for the one of the access. -/
theorem exports_of_callWithAccess : ∃ s : SystemState Bool,
    s.world.tracer.waitingList 2 = some [3] ∧ Exports s := by
  have hstart : Transition.Reachable SystemState.step (fun _ move => ∃ i, move = .act i)
      (SystemState.start noNames 0 callWithAccess World.init)
      (SystemState.start noNames 0 callWithAccess World.init) := .refl
  have hhost := reachable_of_run (i := true) (fun _ => ⟨true, rfl⟩) rfl hstart
  exact ⟨_, rfl, exports_of_reachable
    (reachable_of_run (i := false) (fun _ => ⟨false, rfl⟩) rfl hhost)⟩

/-- A spanner stops where it has ended or its next operation is refused. -/
theorem Stands.step_eq_none_iff {s : SystemState ι} {st : Session}
    (hst : Stands s.world s.history st) (hsp : Spanned s.world s.history) {i : ι}
    (hkeeps : Keeps safe freshRely (fun _ _ => True) (s.program i) (s.history i)) :
    s.step (.act i) = none ↔ (∃ u, s.program i = .pure u) ∨
      ∃ c k, s.program i = .act c k ∧ Refused s.world c := by
  unfold SystemState.step Coroutine.step
  cases hprogram : s.program i with
  | pure u => simp [hprogram]
  | act c k =>
    rw [hprogram] at hkeeps
    have hiff := hst.exec_eq_none_iff hsp hkeeps.1
    simp only [hprogram, Option.map_eq_none_iff, hiff, reduceCtorEq, exists_false, false_or]
    constructor
    · exact fun hrefused => ⟨c, k, rfl, hrefused⟩
    · rintro ⟨c', k', heq, hrefused⟩
      obtain ⟨rfl, -⟩ := Coroutine.act.inj heq
      exact hrefused

/-- The next operation of a spanner is impossible exactly if it throws itself, waits for a
context, starts a span with an event that the span does not take, or would give a call a parent
in its own trace. -/
theorem impossible_iff {env : TraceEnvironment} {rounds : Nat} {setup : ι → Setup}
    {s : SystemState ι}
    (hs : Transition.Reachable SystemState.step (fun _ move => ∃ i, move = .act i)
      (SystemState.start env rounds setup World.init) s) {i : ι} :
    SystemState.step s (.act i) = none ↔ (∃ u, s.program i = .pure u) ∨
      ∃ c k, s.program i = .act c k ∧ Refused s.world c := by
  obtain ⟨st, hst, hsp, hkeeps⟩ := SystemState.stands hs
  exact hst.step_eq_none_iff hsp (hkeeps i)

/-- At the start the NIC waits for the host. -/
theorem impossible_callWithAccess :
    (∃ u, (SystemState.start noNames 0 callWithAccess World.init).program false = .pure u) ∨
      ∃ c k, (SystemState.start noNames 0 callWithAccess World.init).program false = .act c k ∧
        Refused World.init c :=
  (impossible_iff .refl).mp rfl

end

end Columbo
