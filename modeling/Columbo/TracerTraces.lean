import Columbo.TracerCoherence
import Columbo.TracerExport

/-!
# Traces do not outlive their spans

A trace is removed by the call that finishes its last span, and only by a call on a span
of this trace. The spans that such a call exports are in the trace of the span that it is
about, because parents are in the trace of their children. A copy of a span may leave its
trace, which is why nothing in another trace may refer to the copy then.
-/
namespace Columbo
namespace Tracer

variable {t t' : Tracer} {span : Nat}

/-- Some trace has the span. -/
def Registered (t : Tracer) (span : Nat) : Prop :=
  ∃ T, T < t.nextTraceId ∧ span ∈ (t.traces T).getD []

instance (t : Tracer) (span : Nat) : Decidable (t.Registered span) :=
  inferInstanceAs (Decidable (∃ T, T < t.nextTraceId ∧ span ∈ (t.traces T).getD []))

theorem Sound.registered_iff (h : t.Sound) :
    t.Registered span ↔ ∃ T ids, t.traces T = some ids ∧ span ∈ ids := by
  constructor
  · rintro ⟨T, -, hmem⟩
    cases hT : t.traces T with
    | none => simp [hT] at hmem
    | some ids => exact ⟨T, ids, hT, by simpa [hT] using hmem⟩
  · rintro ⟨T, ids, hT, hmem⟩
    exact ⟨T, (h.existing T ids hT).2, by simpa [hT] using hmem⟩

/-- What `MarkSpanAsDone` does to the traces. Either the span waits, or the trace that it
names is removed if all spans in it were exported. -/
structure Finishes (t : Tracer) (span : Nat) (t' : Tracer) : Prop where
  heap : ∃ t₁, SameHeap t t₁ ∧ t' = { t₁ with traces := t'.traces }
  traces : t'.traces = t.traces ∨ ∃ ids, t.traces (t.traceIdOf span) = some ids ∧
    (∀ s ∈ ids, s ∈ t'.exportedSpans) ∧ t'.traces = Function.update t.traces (t.traceIdOf span) none
  unfinished : t'.exportedSpans = t.exportedSpans ∨
    ∀ ids, t'.traces (t.traceIdOf span) = some ids → ∃ s ∈ ids, s ∉ t'.exportedSpans

theorem finishes_markSpanAsDone (h : t.markSpanAsDone span = some t') : Finishes t span t' := by
  unfold markSpanAsDone at h
  dsimp only at h
  split_ifs at h
  · obtain ⟨t₁, hmark, h⟩ := Option.bind_eq_some_iff.mp h
    obtain ⟨t₂, hexport, h⟩ := Option.bind_eq_some_iff.mp h
    obtain ⟨t₃, hwaiting, h⟩ := Option.bind_eq_some_iff.mp h
    have hsame : SameHeap t t₃ :=
      (sameHeap_export hmark hexport).trans (exportWaitingForParentVec_sameHeap hwaiting)
    split_ifs at h with hsafe
    · obtain rfl := removeTrace_eq_some h
      unfold safeToDeleteTrace at hsafe
      cases hids : t₃.traces (t.traceIdOf span) with
      | none => simp [hids] at hsafe
      | some ids =>
        have hall : ∀ s ∈ ids, s ∈ t₃.exportedSpans := by simpa [hids] using hsafe
        refine ⟨⟨t₃, hsame, rfl⟩, .inr ⟨ids, hsame.traces ▸ hids, hall, ?_⟩, .inr ?_⟩
        · rw [← hsame.traces]
        · intro ids' hids'
          simp at hids'
    · obtain rfl := Option.some.inj h
      refine ⟨⟨t₃, hsame, rfl⟩, .inl hsame.traces, .inr fun ids hids => ?_⟩
      by_contra hnone
      push Not at hnone
      exact hsafe (by simpa [safeToDeleteTrace, hids] using hnone)
  · obtain rfl := Option.some.inj h
    have hsame := markSpanAsWaitingForParent_sameHeap t span
    refine ⟨⟨_, hsame, rfl⟩, .inl hsame.traces, .inl ?_⟩
    unfold markSpanAsWaitingForParent
    repeat' split
    all_goals rfl

/-- The spans without parent of an existing trace share one context. -/
def OneRoot (t : Tracer) : Prop :=
  ∀ p q ids, t.IsSpan p → t.IsSpan q → t.parentOf p = none → t.parentOf q = none →
    t.traces (t.traceIdOf p) = some ids → t.traceIdOf q = t.traceIdOf p →
      (t.spans q).context = (t.spans p).context

theorem oneRoot_init : Tracer.init.OneRoot := by
  intro p q ids _ _ _ _ hids
  cases hids

namespace OneRoot

theorem sameHeap (h : t.OneRoot) (hsame : SameHeap t t') : t'.OneRoot := by
  unfold OneRoot IsSpan
  rw [hsame.parentOf, hsame.traceIdOf, hsame.spans, hsame.traces, hsame.nextSpanId]
  exact h

theorem markSpanAsDone (h : t.OneRoot) (hdone : Finishes t span t') : t'.OneRoot := by
  obtain ⟨⟨t₁, hsame, heq⟩, htraces, -⟩ := hdone
  have hold : ∀ T ids, t'.traces T = some ids → t₁.traces T = some ids := by
    intro T ids hids
    rw [hsame.traces]
    rcases htraces with htraces | ⟨_, -, -, htraces⟩
    · rw [← htraces]
      exact hids
    · rw [htraces] at hids
      by_cases hT : T = t.traceIdOf span
      · simp [hT] at hids
      · simpa [hT] using hids
  rw [heq]
  intro p q ids hp hq hpn hqn hids
  exact h.sameHeap hsame p q ids hp hq hpn hqn (hold _ ids hids)

theorem allocate (h : t.OneRoot) (hsound : t.Sound) {c : TraceContext} {ts : Nat}
    {traces : Nat → Option (List Nat)} (hjoins : t.Joins c.traceId traces)
    (hroot : c.parent = none → ∀ ids, traces c.traceId = some ids → t.nextTraceId ≤ c.traceId) :
    OneRoot { t.allocate c ts with traces := traces } := by
  have hlabel := traceIdOf_allocate hsound.contexts c ts
  have hpar := parentOf_allocate hsound.contexts c ts
  have hne : ∀ {s}, t.IsSpan s → s ≠ t.nextSpanId := fun hs => Nat.ne_of_lt hs.2
  have hcontext : ∀ {s}, t.IsSpan s → ((t.allocate c ts).spans s).context = (t.spans s).context := by
    intro s hs
    simp [Tracer.allocate, hne hs]
  intro p q ids hp hq hpn hqn hids hsame
  have hpn : (t.allocate c ts).parentOf p = none := hpn
  have hqn : (t.allocate c ts).parentOf q = none := hqn
  have hids : traces ((t.allocate c ts).traceIdOf p) = some ids := hids
  have hsame : (t.allocate c ts).traceIdOf q = (t.allocate c ts).traceIdOf p := hsame
  change ((t.allocate c ts).spans q).context = ((t.allocate c ts).spans p).context
  rw [hlabel] at hids
  rw [hlabel, hlabel] at hsame
  rw [hpar] at hpn hqn
  rcases isSpan_allocate c ts hp with rfl | hp <;>
    rcases isSpan_allocate c ts hq with rfl | hq
  · rfl
  · rw [if_pos rfl] at hpn hids hsame
    rw [if_neg (hne hq)] at hsame
    have hnew := hroot (Option.map_eq_none_iff.mp hpn) ids hids
    exact absurd (hsame ▸ hsound.traceIdOf_lt q) (Nat.not_lt.mpr hnew)
  · rw [if_neg (hne hp)] at hids hsame
    rw [if_pos rfl] at hqn hsame
    have hnew := hroot (Option.map_eq_none_iff.mp hqn) ids (hsame ▸ hids)
    exact absurd (hsame ▸ hsound.traceIdOf_lt p) (Nat.not_lt.mpr hnew)
  · rw [if_neg (hne hp)] at hids hsame hpn
    rw [if_neg (hne hq)] at hsame hqn
    obtain ⟨old, hold, -⟩ := hjoins.exists_old (hsound.traceIdOf_lt p) hids
    rw [hcontext hp, hcontext hq]
    exact h p q old hp hq hpn hqn hold hsame

theorem cloneShared (h : t.OneRoot) {other : Nat} (hother : t.IsSpan other) :
    (t.cloneShared other).OneRoot := by
  intro p q ids hp hq hpn hqn hids hsame
  obtain ⟨p₀, hp₀, hpc, hpl, hpp⟩ := isSpan_cloneShared hother hp
  obtain ⟨q₀, hq₀, hqc, hql, hqp⟩ := isSpan_cloneShared hother hq
  rw [hpl] at hids
  rw [hpl, hql] at hsame
  rw [hpc, hqc]
  exact h p₀ q₀ ids hp₀ hq₀ (hpp ▸ hpn) (hqp ▸ hqn) hids hsame

theorem startSpanSetParentContext (h : t.OneRoot) (hsound : t.Sound) {ref : ParentRef}
    (hcall : t.startSpanSetParentContext span ref = some t') : t'.OneRoot := by
  obtain ⟨-, rfl⟩ := startSpanSetParentContext_eq_some hcall
  set u := t.renewContext span ⟨ref.traceId, some ref.parent⟩
  have hlabel : ∀ s, u.traceIdOf s = if s = span then ref.traceId else t.traceIdOf s :=
    traceIdOf_renewContext hsound.contexts span ⟨ref.traceId, some ref.parent⟩
  have hpar : ∀ s, u.parentOf s = if s = span then some ref.parent.id else t.parentOf s :=
    parentOf_renewContext hsound.contexts span ⟨ref.traceId, some ref.parent⟩
  have hroot : ∀ {s}, u.parentOf s = none → s ≠ span ∧ t.parentOf s = none ∧
      u.traceIdOf s = t.traceIdOf s ∧ (u.spans s).context = (t.spans s).context := by
    intro s hs
    rw [hpar] at hs
    split_ifs at hs with hspan
    refine ⟨hspan, hs, ?_, ?_⟩
    · rw [hlabel, if_neg hspan]
    · simp [u, renewContext, hspan]
  intro p q ids hp hq hpn hqn hids hsame
  obtain ⟨-, hpn, hpl, hpc⟩ := hroot hpn
  obtain ⟨-, hqn, hql, hqc⟩ := hroot hqn
  obtain ⟨old, hold, -⟩ := traces_register hids
  have hold : t.traces (u.traceIdOf p) = some old := hold
  have hsame : u.traceIdOf q = u.traceIdOf p := hsame
  rw [hpl] at hold
  rw [hpl, hql] at hsame
  exact hqc.trans ((h p q old hp hq hpn hqn hold hsame).trans hpc.symm)

/-- When the root of a trace gets a parent, no other root moves with it. -/
theorem addParentLazily (h : t.OneRoot) (hsound : t.Sound) (hplaced : t.Placed) {c : ParentRef}
    (hspan : t.IsSpan span) (hroot : t.parentOf span = none)
    (hcall : t.addParentLazily span c = some t') : t'.OneRoot := by
  obtain ⟨ids₀, hids₀, -, rfl⟩ := (addParentLazily_eq_some (hsound.nodup _)).mp hcall
  have hpar := parentOf_reparent t span c ids₀
  have hstays : ∀ {s}, t.IsSpan s → (t.reparent span c ids₀).parentOf s = none →
      t.parentOf s = none ∧ (t.reparent span c ids₀).traceIdOf s = t.traceIdOf s := by
    intro s hs hnone
    rw [hpar] at hnone
    split_ifs at hnone with hshare
    refine ⟨hnone, ?_⟩
    rw [hplaced.traceIdOf_reparent hids₀ hs, if_neg]
    exact fun hsame => hshare (h span s ids₀ hspan hs hroot hnone hids₀ hsame)
  intro p q ids hp hq hpn hqn hids hsame
  obtain ⟨hpn, hpl⟩ := hstays hp hpn
  obtain ⟨hqn, hql⟩ := hstays hq hqn
  obtain ⟨-, old, hold, -⟩ := traces_reparent hids
  rw [hpl] at hold
  rw [hpl, hql] at hsame
  exact h p q old hp hq hpn hqn hold hsame

end OneRoot

end Tracer

namespace Session

open Tracer

/-- The copies of spans that get a parent are in no trace, and a span that gets one lazily
is a root in a trace. -/
def Disciplined (st : Session) : TracerCall → Prop
  | .startSpanSetParentContext span _ => ¬ st.tracer.Registered span
  | .addParentLazily span _ => st.tracer.Registered span ∧ st.tracer.parentOf span = none
  | _ => True

instance (st : Session) (call : TracerCall) : Decidable (st.Disciplined call) := by
  refine call.casesOn ?_ ?_ ?_ ?_ ?_ ?_ ?_ ?_ ?_ ?_ <;> intros <;> unfold Disciplined <;> infer_instance

/-- A root that is not finished is in the trace that it names. -/
def RootsRegistered (st : Session) : Prop :=
  ∀ r ∈ st.started, r ∉ st.done → st.tracer.parentOf r = none →
    ∃ ids, st.tracer.traces (st.tracer.traceIdOf r) = some ids ∧ r ∈ ids

/-- The invariant of the roots. -/
structure Rooting (st : Session) : Prop where
  ledger : st.Ledger
  placed : st.tracer.Placed
  root : st.tracer.OneRoot
  registered : st.RootsRegistered

theorem rooting_init : init.Rooting :=
  ⟨ledger_init, ⟨labelled_init.parents, labelled_init.member, labelled_init.owner⟩, oneRoot_init,
    fun _ hr => nomatch hr⟩

section

variable {st st' : Session}

/-- A span of its own kind is added, and no other span is touched. -/
theorem RootsRegistered.allocate (h : st.RootsRegistered) (hv : st.Valid) (c : TraceContext)
    (ts : Nat) {traces : Nat → Option (List Nat)} (hjoins : st.tracer.Joins c.traceId traces)
    (hdone : st'.done = st.done) (htraces : st'.tracer.traces = traces)
    (hlabel : st'.tracer.traceIdOf = (st.tracer.allocate c ts).traceIdOf)
    (hpar : st'.tracer.parentOf = (st.tracer.allocate c ts).parentOf)
    (hstarted : ∀ r ∈ st'.started, r ∈ st.started ∨
      r = st.tracer.nextSpanId ∧ ∃ ids, traces c.traceId = some ids ∧ r ∈ ids) :
    st'.RootsRegistered := by
  intro r hr hnot hnone
  rw [hpar, parentOf_allocate hv.tracer.contexts] at hnone
  rw [hlabel, traceIdOf_allocate hv.tracer.contexts, htraces]
  rw [hdone] at hnot
  rcases hstarted r hr with hold | ⟨rfl, hnew⟩
  · have hne : r ≠ st.tracer.nextSpanId := Nat.ne_of_lt (hv.started r hold).2
    rw [if_neg hne] at hnone ⊢
    obtain ⟨ids, hids, hmem⟩ := h r hold hnot hnone
    by_cases hsame : st.tracer.traceIdOf r = c.traceId
    · rw [hsame] at hids ⊢
      exact ⟨_, hjoins.kept ids hids, List.mem_append_left _ hmem⟩
    · exact ⟨ids, (hjoins.other _ hsame).trans hids, hmem⟩
  · rw [if_pos rfl]
    exact hnew

/-- A root that is not finished keeps its trace, because the trace is not safe to delete. -/
theorem RootsRegistered.markSpanAsDone (h : st.RootsRegistered) {span : Nat} {t : Tracer}
    (hcall : st.tracer.markSpanAsDone span = some t)
    (hledger : Ledger { st with tracer := t, done := insert span st.done }) :
    RootsRegistered { st with tracer := t, done := insert span st.done } := by
  obtain ⟨⟨t₁, hsame, heq⟩, htraces, -⟩ := finishes_markSpanAsDone hcall
  have hlabel : t.traceIdOf = st.tracer.traceIdOf := by
    rw [heq]
    exact hsame.traceIdOf
  have hpar : t.parentOf = st.tracer.parentOf := by
    rw [heq]
    exact hsame.parentOf
  intro r hr hnot hnone
  have hnot : r ∉ insert span st.done := hnot
  have hnone : t.parentOf r = none := hnone
  change ∃ ids, t.traces (t.traceIdOf r) = some ids ∧ r ∈ ids
  rw [hpar] at hnone
  rw [hlabel]
  obtain ⟨ids, hids, hmem⟩ := h r hr (fun hdone => hnot (Finset.mem_insert_of_mem hdone)) hnone
  rcases htraces with htraces | ⟨all, hall, hexported, htraces⟩
  · exact ⟨ids, htraces ▸ hids, hmem⟩
  · by_cases hT : st.tracer.traceIdOf r = st.tracer.traceIdOf span
    · rw [hT, hall] at hids
      obtain rfl := Option.some.inj hids
      exact absurd ((hledger.done_iff r).mpr (.inl (hexported r hmem))) hnot
    · exact ⟨ids, by rw [htraces, Function.update_of_ne hT]; exact hids, hmem⟩

theorem RootsRegistered.startSpanSetParentContext (h : st.RootsRegistered) (hsound : st.tracer.Sound)
    {span : Nat} {ref : ParentRef} {t : Tracer}
    (hcall : st.tracer.startSpanSetParentContext span ref = some t) :
    RootsRegistered (st.withTracer t) := by
  obtain ⟨-, rfl⟩ := startSpanSetParentContext_eq_some hcall
  set u := st.tracer.renewContext span ⟨ref.traceId, some ref.parent⟩
  intro r hr hnot hnone
  have hnone : u.parentOf r = none := hnone
  have hpar := parentOf_renewContext hsound.contexts span ⟨ref.traceId, some ref.parent⟩ r
  have hspan : r ≠ span := by
    rintro rfl
    rw [if_pos rfl] at hpar
    cases hpar.symm.trans hnone
  rw [if_neg hspan] at hpar
  obtain ⟨ids, hids, hmem⟩ := h r hr hnot (hpar.symm.trans hnone)
  change ∃ ids, (u.register ref.traceId [span]).traces (u.traceIdOf r) = some ids ∧ r ∈ ids
  rw [traceIdOf_renewContext hsound.contexts, if_neg hspan]
  have hids : u.traces (st.tracer.traceIdOf r) = some ids := hids
  by_cases hsame : st.tracer.traceIdOf r = ref.traceId
  · exact ⟨ids ++ [span], by simp [register, ← hsame, hids], List.mem_append_left _ hmem⟩
  · exact ⟨ids, by simp [register, hsame, hids], hmem⟩

/-- The roots of other traces stay where they are. -/
theorem RootsRegistered.addParentLazily (h : st.RootsRegistered) (hv : st.Valid)
    (hplaced : st.tracer.Placed) (hone : st.tracer.OneRoot) {span : Nat} {c : ParentRef} {t : Tracer}
    (hspan : st.tracer.IsSpan span) (hroot : st.tracer.parentOf span = none)
    (hcall : st.tracer.addParentLazily span c = some t) : RootsRegistered (st.withTracer t) := by
  obtain ⟨ids₀, hids₀, -, rfl⟩ := (addParentLazily_eq_some (hv.tracer.nodup _)).mp hcall
  intro r hr hnot hnone
  have hnone : (st.tracer.reparent span c ids₀).parentOf r = none := hnone
  rw [parentOf_reparent] at hnone
  split_ifs at hnone with hshare
  obtain ⟨ids, hids, hmem⟩ := h r hr hnot hnone
  have hother : st.tracer.traceIdOf r ≠ st.tracer.traceIdOf span :=
    fun hsame => hshare (hone span r ids₀ hspan (hv.started r hr) hroot hnone hids₀ hsame)
  change ∃ ids, (st.tracer.reparent span c ids₀).traces
    ((st.tracer.reparent span c ids₀).traceIdOf r) = some ids ∧ r ∈ ids
  rw [hplaced.traceIdOf_reparent hids₀ (hv.started r hr), if_neg hother]
  unfold reparent
  dsimp only
  rw [Function.update_of_ne hother]
  by_cases hsame : st.tracer.traceIdOf r = c.traceId
  · refine ⟨ids ++ span :: ids₀.filter (· ≠ span), ?_, List.mem_append_left _ hmem⟩
    simp [register, ← hsame, hids]
  · exact ⟨ids, by simp [register, hsame, hids], hmem⟩

theorem rooting_call {call : TracerCall} (h : st.Rooting)
    (hallowed : st.Available call ∧ st.DoneOnce call ∧ st.Disciplined call)
    (hcall : st.call call = some st') : st'.Rooting := by
  obtain ⟨havailable, honce, hdisciplined⟩ := hallowed
  have hledger := h.ledger.call ⟨havailable, honce⟩ hcall
  have hv := h.ledger.valid
  have hsound := hv.tracer
  cases call with
  | startSpan ev =>
    obtain ⟨t, ht, rfl⟩ := Option.map_eq_some_iff.mp hcall
    obtain rfl := startSpan_eq_some ht
    have hjoins := joins_startSpan hsound
    set traces := Function.update st.tracer.traces st.tracer.nextTraceId (some [st.tracer.nextSpanId])
    have hplaced : Placed { st.tracer.allocate ⟨st.tracer.nextTraceId, none⟩ ev.ts with
        traces := traces } := h.placed.allocate hsound (fun p hp => by cases hp) hjoins
    have hroot : OneRoot { st.tracer.allocate ⟨st.tracer.nextTraceId, none⟩ ev.ts with
        traces := traces } := h.root.allocate hsound hjoins fun _ _ _ => le_rfl
    refine ⟨hledger, ⟨hplaced.parents, hplaced.member, hplaced.owner⟩, hroot, ?_⟩
    refine h.registered.allocate hv ⟨st.tracer.nextTraceId, none⟩ ev.ts hjoins rfl rfl
      rfl rfl fun r hr => ?_
    rcases List.mem_cons.mp hr with rfl | hr
    · exact .inr ⟨rfl, _, Function.update_self _ _ _, List.mem_singleton_self _⟩
    · exact .inl hr
  | readParent span =>
    obtain ⟨ref, _, rfl⟩ := Option.map_eq_some_iff.mp hcall
    exact ⟨hledger, h.placed, h.root, h.registered⟩
  | startSpanByParent ref ev =>
    obtain ⟨t, ht, rfl⟩ := Option.map_eq_some_iff.mp hcall
    obtain ⟨_, rfl⟩ := startSpanByParent_eq_some ht
    have hjoins := st.tracer.joins_register ref.traceId
    refine ⟨hledger, ?_, ?_, ?_⟩
    · refine h.placed.allocate hsound (fun p hp => ?_) hjoins
      obtain rfl := Option.some.inj hp
      exact (hv.refs ref havailable).2
    · exact h.root.allocate hsound hjoins fun hp => by cases hp
    · exact h.registered.allocate hv ⟨ref.traceId, some ref.parent⟩ ev.ts hjoins rfl rfl
        rfl rfl fun r hr => .inl hr
  | createPassOnContext exp span =>
    obtain ⟨c, _, rfl⟩ := Option.map_eq_some_iff.mp hcall
    exact ⟨hledger, h.placed, h.root, h.registered⟩
  | startSpanByParentPassOnContext c ev =>
    obtain ⟨t, ht, rfl⟩ := Option.map_eq_some_iff.mp hcall
    obtain ⟨_, rfl⟩ := startSpanByParent_eq_some ht
    have hjoins := st.tracer.joins_register c.traceId
    refine ⟨hledger, ?_, ?_, ?_⟩
    · refine h.placed.allocate hsound (fun p hp => ?_) hjoins
      obtain rfl := Option.some.inj hp
      exact (hv.contexts c havailable).2
    · exact h.root.allocate hsound hjoins fun hp => by cases hp
    · exact h.registered.allocate hv ⟨c.traceId, some c.parent⟩ ev.ts hjoins rfl rfl
        rfl rfl fun r hr => .inl hr
  | startOrphanSpan ev =>
    obtain ⟨t, ht, rfl⟩ := Option.map_eq_some_iff.mp hcall
    obtain rfl := startOrphanSpan_eq_some ht
    have hjoins := joins_orphan hsound
    refine ⟨hledger, ?_, ?_, ?_⟩
    · exact h.placed.allocate hsound (fun p hp => by cases hp) hjoins
    · exact h.root.allocate hsound hjoins fun _ ids hids =>
        absurd rfl (Nat.ne_of_gt (hsound.existing 0 ids hids).1)
    · exact h.registered.allocate hv ⟨0, none⟩ ev.ts hjoins rfl rfl rfl rfl
        fun r hr => .inl hr
  | cloneShared other =>
    obtain rfl := Option.some.inj hcall
    refine ⟨hledger, h.placed.cloneShared hsound havailable, h.root.cloneShared havailable, ?_⟩
    intro r hr hnot hnone
    have hne : r ≠ st.tracer.nextSpanId := Nat.ne_of_lt (hv.started r hr).2
    have hnone : (st.tracer.cloneShared other).parentOf r = none := hnone
    rw [parentOf_cloneShared, if_neg hne] at hnone
    change ∃ ids, st.tracer.traces ((st.tracer.cloneShared other).traceIdOf r) = some ids ∧ r ∈ ids
    rw [traceIdOf_cloneShared, if_neg hne]
    exact h.registered r hr hnot hnone
  | startSpanSetParentContext span c =>
    obtain ⟨t, ht, rfl⟩ := Option.map_eq_some_iff.mp hcall
    have hfree : ∀ {T ids}, st.tracer.traces T = some ids → span ∉ ids :=
      fun hT hmem => hdisciplined (hsound.registered_iff.mpr ⟨_, _, hT, hmem⟩)
    refine ⟨hledger, h.placed.startSpanSetParentContext hsound (hv.contexts c havailable.2).2 hfree ht,
      h.root.startSpanSetParentContext hsound ht, h.registered.startSpanSetParentContext hsound ht⟩
  | addParentLazily span c =>
    obtain ⟨t, ht, rfl⟩ := Option.map_eq_some_iff.mp hcall
    refine ⟨hledger, h.placed.addParentLazily hsound havailable.1 (hv.contexts c havailable.2).2 ht,
      h.root.addParentLazily hsound h.placed havailable.1 hdisciplined.2 ht,
      h.registered.addParentLazily hv h.placed h.root havailable.1 hdisciplined.2 ht⟩
  | markSpanAsDone span =>
    obtain ⟨t, ht, rfl⟩ := Option.map_eq_some_iff.mp hcall
    exact ⟨hledger, h.placed.markSpanAsDone ht, h.root.markSpanAsDone (finishes_markSpanAsDone ht),
      h.registered.markSpanAsDone ht hledger⟩

end

end Session

namespace Tracer

variable {t t' : Tracer} {span T p : Nat}

/-- Whatever names the span as its parent, and this trace: if the trace exists, the span is
in it. -/
def Follows (t : Tracer) (T p : Nat) : Prop := (t.traces T).isSome → t.traceIdOf p = T

/-- Every existing trace has a span that was not exported. -/
def Unfinished (t : Tracer) : Prop :=
  ∀ T ids, t.traces T = some ids → ∃ s ∈ ids, s ∉ t.exportedSpans

theorem follows_parentRef {ref : ParentRef} (h : t.parentRef span = some ref) :
    t.Follows ref.traceId ref.parent.id := by
  unfold parentRef at h
  split_ifs at h
  obtain rfl := Option.some.inj h
  exact fun _ => rfl

namespace Follows

theorem allocate (h : t.Follows T p) (hsound : t.Sound) (hp : t.IsSpan p) (hT : T < t.nextTraceId)
    {c : TraceContext} {ts : Nat} {traces : Nat → Option (List Nat)}
    (hjoins : t.Joins c.traceId traces) : Follows { t.allocate c ts with traces := traces } T p := by
  intro hsome
  obtain ⟨ids, hids⟩ := Option.isSome_iff_exists.mp hsome
  obtain ⟨old, hold, -⟩ := hjoins.exists_old hT hids
  change (t.allocate c ts).traceIdOf p = T
  rw [traceIdOf_allocate hsound.contexts, if_neg (Nat.ne_of_lt hp.2)]
  exact h (by simp [hold])

theorem cloneShared (h : t.Follows T p) (hp : t.IsSpan p) (other : Nat) :
    (t.cloneShared other).Follows T p := by
  intro hsome
  rw [(cloneShared_of_lt hp.2).1]
  exact h hsome

theorem startSpanSetParentContext (h : t.Follows T p) (hsound : t.Sound) {ref : ParentRef}
    (hnamed : p = span → (t.traces T).isSome → T = ref.traceId)
    (hcall : t.startSpanSetParentContext span ref = some t') : t'.Follows T p := by
  obtain ⟨-, rfl⟩ := startSpanSetParentContext_eq_some hcall
  intro hsome
  obtain ⟨ids, hids⟩ := Option.isSome_iff_exists.mp hsome
  obtain ⟨old, hold, -⟩ := traces_register hids
  have hold : (t.traces T).isSome := Option.isSome_iff_exists.mpr ⟨old, hold⟩
  change (t.renewContext span ⟨ref.traceId, some ref.parent⟩).traceIdOf p = T
  rw [traceIdOf_renewContext hsound.contexts]
  split_ifs with hspan
  · exact (hnamed hspan hold).symm
  · exact h hold

theorem reparent (h : t.Follows T p) (hplaced : t.Placed) (hp : t.IsSpan p) {c : ParentRef}
    {ids : List Nat} (hids : t.traces (t.traceIdOf span) = some ids) :
    (t.reparent span c ids).Follows T p := by
  intro hsome
  obtain ⟨new, hnew⟩ := Option.isSome_iff_exists.mp hsome
  obtain ⟨hT, old, hold, -⟩ := traces_reparent hnew
  have hlabel := h (Option.isSome_iff_exists.mpr ⟨old, hold⟩)
  rw [hplaced.traceIdOf_reparent hids hp, hlabel, if_neg hT]

theorem markSpanAsDone (h : t.Follows T p) (hdone : Finishes t span t') : t'.Follows T p := by
  obtain ⟨⟨t₁, hsame, heq⟩, htraces, -⟩ := hdone
  intro hsome
  have hlabel : t'.traceIdOf = t.traceIdOf := by
    rw [heq]
    exact hsame.traceIdOf
  rw [hlabel]
  refine h ?_
  rcases htraces with htraces | ⟨_, -, -, htraces⟩
  · rw [← htraces]
    exact hsome
  · rw [htraces] at hsome
    by_cases hT : T = t.traceIdOf span
    · simp [hT] at hsome
    · simpa [hT] using hsome

end Follows

end Tracer

namespace Session

open Tracer

/-- As far as the span is the parent of something in an existing trace, it is this one. -/
def NamedIn (st : Session) (span T : Nat) : Prop :=
  (∀ s, s < st.tracer.nextSpanId → s ≠ span → st.tracer.parentOf s = some span →
    (st.tracer.traces (st.tracer.traceIdOf s)).isSome → st.tracer.traceIdOf s = T) ∧
  (∀ ref ∈ st.refs, ref.parent.id = span → (st.tracer.traces ref.traceId).isSome →
    ref.traceId = T) ∧
  ∀ c ∈ st.contexts, c.parent.id = span → (st.tracer.traces c.traceId).isSome → c.traceId = T

instance (st : Session) (span T : Nat) : Decidable (st.NamedIn span T) := by
  unfold NamedIn
  infer_instance

/-- A copy that gets a parent leaves nothing behind in its old trace. -/
def Detached (st : Session) : TracerCall → Prop
  | .startSpanSetParentContext span c => st.NamedIn span c.traceId
  | _ => True

instance (st : Session) (call : TracerCall) : Decidable (st.Detached call) := by
  refine call.casesOn ?_ ?_ ?_ ?_ ?_ ?_ ?_ ?_ ?_ ?_ <;> intros <;> unfold Detached <;> infer_instance

/-- The parents of spans, and those that the callers hold, are in the traces that go with
them. -/
structure Inheriting (st : Session) : Prop where
  parents : ∀ s p, st.tracer.IsSpan s → st.tracer.parentOf s = some p →
    st.tracer.Follows (st.tracer.traceIdOf s) p
  refs : ∀ ref ∈ st.refs, st.tracer.Follows ref.traceId ref.parent.id
  contexts : ∀ c ∈ st.contexts, st.tracer.Follows c.traceId c.parent.id

theorem inheriting_init : init.Inheriting :=
  ⟨fun _ _ _ hp => (nomatch hp), fun _ href => (nomatch href), fun _ hc => nomatch hc⟩

section

variable {st st' : Session}

/-- A call that no parent is changed by keeps what the callers hold. -/
theorem Inheriting.withTracer (h : st.Inheriting) (hv : st.Valid) {t : Tracer}
    (hkept : ∀ ref : ParentRef, ValidRef st.tracer ref →
      st.tracer.Follows ref.traceId ref.parent.id → t.Follows ref.traceId ref.parent.id)
    (hparents : ∀ s p, t.IsSpan s → t.parentOf s = some p → t.Follows (t.traceIdOf s) p) :
    (st.withTracer t).Inheriting :=
  ⟨hparents, fun ref href => hkept ref (hv.refs ref href) (h.refs ref href),
    fun c hc => hkept c.toParentRef (hv.contexts c hc) (h.contexts c hc)⟩

/-- A new span inherits from its parent. -/
theorem Inheriting.allocate (h : st.Inheriting) (hv : st.Valid) (hplaced : st.tracer.Placed)
    {c : TraceContext} {ts : Nat} {traces : Nat → Option (List Nat)}
    (hjoins : st.tracer.Joins c.traceId traces)
    (hparent : ∀ p, c.parent = some p → c.traceId < st.tracer.nextTraceId ∧
      st.tracer.IsSpan p.id ∧ st.tracer.Follows c.traceId p.id) :
    (st.withTracer { st.tracer.allocate c ts with traces := traces }).Inheriting := by
  have hsound := hv.tracer
  refine h.withTracer hv (fun ref hvalid hfollows =>
    hfollows.allocate hsound hvalid.2 hvalid.1 hjoins) fun s p hs hp => ?_
  have hp : (st.tracer.allocate c ts).parentOf s = some p := hp
  change Follows { st.tracer.allocate c ts with traces := traces }
    ((st.tracer.allocate c ts).traceIdOf s) p
  rw [parentOf_allocate hsound.contexts] at hp
  rw [traceIdOf_allocate hsound.contexts]
  rcases isSpan_allocate c ts hs with rfl | hs
  · rw [if_pos rfl] at hp ⊢
    obtain ⟨q, hq, rfl⟩ := Option.map_eq_some_iff.mp hp
    obtain ⟨hT, hspan, hfollows⟩ := hparent q hq
    exact hfollows.allocate hsound hspan hT hjoins
  · rw [if_neg (Nat.ne_of_lt hs.2)] at hp ⊢
    exact (h.parents s p hs hp).allocate hsound (hplaced.parents s p hs hp) (hsound.traceIdOf_lt s)
      hjoins

theorem Inheriting.cloneShared (h : st.Inheriting) (hv : st.Valid) (hplaced : st.tracer.Placed)
    {other : Nat} (hother : st.tracer.IsSpan other) :
    (st.withTracer (st.tracer.cloneShared other)).Inheriting := by
  refine h.withTracer hv (fun ref hvalid hfollows => hfollows.cloneShared hvalid.2 other)
    fun s p hs hp => ?_
  obtain ⟨s₀, hs₀, -, hlabel, hpar⟩ := isSpan_cloneShared hother hs
  rw [hpar] at hp
  rw [hlabel]
  exact (h.parents s₀ p hs₀ hp).cloneShared (hplaced.parents s₀ p hs₀ hp) other

theorem Inheriting.startSpanSetParentContext (h : st.Inheriting) (hv : st.Valid) {span : Nat}
    {c : Context} (hc : c ∈ st.contexts) (hnamed : st.NamedIn span c.traceId) {t : Tracer}
    (hcall : st.tracer.startSpanSetParentContext span c.toParentRef = some t) :
    (st.withTracer t).Inheriting := by
  obtain ⟨hnamedSpans, hnamedRefs, hnamedContexts⟩ := hnamed
  have hsound := hv.tracer
  have hlabel := traceIdOf_renewContext hsound.contexts span ⟨c.traceId, some c.parent⟩
  have hpar := parentOf_renewContext hsound.contexts span ⟨c.traceId, some c.parent⟩
  refine ⟨fun s p hs hp => ?_, fun ref href => ?_, fun c' hc' => ?_⟩
  · by_cases hspan : s = span
    · have hself : t.traceIdOf s = c.traceId ∧ p = c.parent.id := by
        obtain ⟨-, rfl⟩ := startSpanSetParentContext_eq_some hcall
        refine ⟨(hlabel s).trans (if_pos hspan), ?_⟩
        have hparent := (hpar s).trans (if_pos hspan)
        exact Option.some.inj (hp.symm.trans hparent)
      change t.Follows (t.traceIdOf s) p
      rw [hself.1, hself.2]
      exact (h.contexts c hc).startSpanSetParentContext hsound (fun _ _ => rfl) hcall
    · have hold : t.traceIdOf s = st.tracer.traceIdOf s ∧ st.tracer.parentOf s = some p ∧
          st.tracer.IsSpan s := by
        obtain ⟨-, rfl⟩ := startSpanSetParentContext_eq_some hcall
        exact ⟨(hlabel s).trans (if_neg hspan), ((hpar s).trans (if_neg hspan)).symm.trans hp, hs⟩
      obtain ⟨hsame, hparent, hs⟩ := hold
      change t.Follows (t.traceIdOf s) p
      rw [hsame]
      refine (h.parents s p hs hparent).startSpanSetParentContext hsound (fun heq hlive => ?_) hcall
      exact hnamedSpans s hs.2 hspan (heq ▸ hparent) hlive
  · exact (h.refs ref href).startSpanSetParentContext hsound (hnamedRefs ref href) hcall
  · exact (h.contexts c' hc').startSpanSetParentContext hsound (hnamedContexts c' hc') hcall

/-- The spans of the old trace and their parents move together. -/
theorem Inheriting.addParentLazily (h : st.Inheriting) (hv : st.Valid) (hplaced : st.tracer.Placed)
    {span : Nat} {c : Context} (hc : c ∈ st.contexts) {t : Tracer}
    (hcall : st.tracer.addParentLazily span c.toParentRef = some t) :
    (st.withTracer t).Inheriting := by
  have hsound := hv.tracer
  obtain ⟨ids, hids, -, rfl⟩ := (addParentLazily_eq_some (hsound.nodup _)).mp hcall
  have hcontext := (h.contexts c hc).reparent (c := c.toParentRef) hplaced (hv.contexts c hc).2 hids
  refine h.withTracer hv (fun ref hvalid hfollows => hfollows.reparent hplaced hvalid.2 hids)
    fun s p hs hp => ?_
  have hs : st.tracer.IsSpan s := hs
  rw [parentOf_reparent] at hp
  rw [hplaced.traceIdOf_reparent hids hs]
  by_cases hshare : (st.tracer.spans s).context = (st.tracer.spans span).context
  · rw [if_pos hshare] at hp
    rw [if_pos (traceIdOf_eq_of_context hshare)]
    exact Option.some.inj hp ▸ hcontext
  · rw [if_neg hshare] at hp
    have hpspan := hplaced.parents s p hs hp
    have hfollows := h.parents s p hs hp
    split_ifs with hmoved
    · -- the parent was in the old trace, too
      intro hlive
      have hold := hfollows (by simp [hmoved, hids])
      rw [hplaced.traceIdOf_reparent hids hpspan, hold, if_pos hmoved]
    · exact hfollows.reparent hplaced hpspan hids

theorem Inheriting.markSpanAsDone (h : st.Inheriting) {span : Nat} {t : Tracer}
    (hcall : st.tracer.markSpanAsDone span = some t) :
    Inheriting { st with tracer := t, done := insert span st.done } := by
  have hdone := finishes_markSpanAsDone hcall
  have hsame : t.parentOf = st.tracer.parentOf ∧ t.traceIdOf = st.tracer.traceIdOf ∧
      t.nextSpanId = st.tracer.nextSpanId := by
    obtain ⟨t₁, hheap, heq⟩ := hdone.heap
    rw [heq]
    exact ⟨hheap.parentOf, hheap.traceIdOf, hheap.nextSpanId⟩
  refine ⟨fun s p hs hp => ?_, fun ref href => (h.refs ref href).markSpanAsDone hdone,
    fun c hc => (h.contexts c hc).markSpanAsDone hdone⟩
  have hs : t.IsSpan s := hs
  have hp : t.parentOf s = some p := hp
  unfold IsSpan at hs
  rw [hsame.2.2] at hs
  rw [hsame.1] at hp
  change t.Follows (t.traceIdOf s) p
  rw [hsame.2.1]
  exact (h.parents s p hs hp).markSpanAsDone hdone

/-- What `MarkSpanAsDone` exports is in the trace of the span. -/
theorem exported_elsewhere (h : st.Inheriting) (hledger : st.Ledger) {span : Nat} {t : Tracer}
    (hcall : st.tracer.markSpanAsDone span = some t)
    (hledger' : Ledger { st with tracer := t, done := insert span st.done }) {T : Nat}
    (hlive : (st.tracer.traces T).isSome) (hother : st.tracer.traceIdOf span ≠ T) {s : Nat}
    (hs : st.tracer.traceIdOf s = T) (hexported : s ∈ t.exportedSpans) :
    s ∈ st.tracer.exportedSpans := by
  have hpar : t.parentOf = st.tracer.parentOf := by
    obtain ⟨t₁, hheap, heq⟩ := (finishes_markSpanAsDone hcall).heap
    rw [heq]
    exact hheap.parentOf
  have hreleased : Forest.Released st.tracer.parentOf ↑(insert span st.done) s := by
    have hfirst := hledger'.log.parentFirst
    have hmem : s ∈ t.exporter.exported := (hledger'.log.mem_iff s).mp hexported
    rw [← hpar]
    exact hfirst.released (fun x hx => Finset.mem_coe.mpr
      ((hledger'.done_iff x).mpr (.inl ((hledger'.log.mem_iff x).mpr hx)))) hmem
  have holder : ∀ x, x ∈ insert span st.done → st.tracer.traceIdOf x = T → x ∈ st.done := by
    intro x hx hT
    rcases Finset.mem_insert.mp hx with rfl | hx
    · exact absurd hT hother
    · exact hx
  have hkept : s ∈ {x | st.tracer.traceIdOf x = T → x ∈ st.tracer.exportedSpans} := by
    refine hreleased.mem ?_ ?_
    · intro x hx hroot hT
      rcases (hledger.done_iff x).mp (holder x (Finset.mem_coe.mp hx) hT) with hold | ⟨k, l, hkl, hxl⟩
      · exact hold
      · cases hroot.symm.trans (hledger.buckets.parent hkl x hxl)
    · intro x hx p hp hparent hT
      have hxdone := holder x (Finset.mem_coe.mp hx) hT
      have hpT : st.tracer.traceIdOf p = T := by
        have hfollows := h.parents x p (hledger.isSpan hxdone) hparent
        rw [hT] at hfollows
        exact hfollows hlive
      rcases (hledger.done_iff x).mp hxdone with hold | ⟨k, l, hkl, hxl⟩
      · exact hold
      · obtain rfl := Option.some.inj (hparent.symm.trans (hledger.buckets.parent hkl x hxl))
        exact absurd (hp hpT) (hledger.buckets.key hkl (Set.notMem_empty _))
  exact hkept hs

end

end Session

namespace Tracer.Unfinished

variable {t t' : Tracer} {span : Nat}

theorem allocate (h : t.Unfinished) {c : TraceContext} {ts : Nat}
    {traces : Nat → Option (List Nat)} (hjoins : t.Joins c.traceId traces)
    (hnew : t.nextSpanId ∉ t.exportedSpans) :
    Unfinished { t.allocate c ts with traces := traces } := by
  intro T ids hids
  by_cases hsame : T = c.traceId
  · subst hsame
    obtain ⟨old, rfl, -⟩ := hjoins.own ids hids
    exact ⟨t.nextSpanId, by simp, hnew⟩
  · exact h T ids ((hjoins.other T hsame).symm.trans hids)

theorem startSpanSetParentContext (h : t.Unfinished) {ref : ParentRef}
    (hcall : t.startSpanSetParentContext span ref = some t') : t'.Unfinished := by
  obtain ⟨-, rfl⟩ := startSpanSetParentContext_eq_some hcall
  intro T ids hids
  obtain ⟨old, hold, hcase⟩ := traces_register hids
  obtain ⟨s, hs, hnot⟩ := h T old hold
  rcases hcase with ⟨-, rfl⟩ | ⟨-, rfl⟩
  · exact ⟨s, hs, hnot⟩
  · exact ⟨s, List.mem_append_left _ hs, hnot⟩

theorem addParentLazily (h : t.Unfinished) (hsound : t.Sound) {c : ParentRef}
    (hcall : t.addParentLazily span c = some t') : t'.Unfinished := by
  obtain ⟨ids₀, -, -, rfl⟩ := (addParentLazily_eq_some (hsound.nodup _)).mp hcall
  intro T ids hids
  obtain ⟨-, old, hold, hcase⟩ := traces_reparent hids
  obtain ⟨s, hs, hnot⟩ := h T old hold
  rcases hcase with ⟨-, rfl⟩ | ⟨-, rfl⟩
  · exact ⟨s, hs, hnot⟩
  · exact ⟨s, List.mem_append_left _ hs, hnot⟩

end Tracer.Unfinished

namespace Session

open Tracer

variable {st st' : Session}

/-- The trace of the span is removed with its last span, and the others are not touched. -/
theorem unfinished_markSpanAsDone (h : st.tracer.Unfinished) (hrooting : st.Rooting)
    (hinheriting : st.Inheriting) {span : Nat} {t : Tracer}
    (hcall : st.tracer.markSpanAsDone span = some t)
    (hledger' : Ledger { st with tracer := t, done := insert span st.done }) : t.Unfinished := by
  have hdone := finishes_markSpanAsDone hcall
  intro T ids hids
  have hold : st.tracer.traces T = some ids := by
    rcases hdone.traces with htraces | ⟨_, -, -, htraces⟩
    · exact htraces ▸ hids
    · rw [htraces] at hids
      by_cases hT : T = st.tracer.traceIdOf span
      · simp [hT] at hids
      · simpa [hT] using hids
  obtain ⟨s, hs, hnot⟩ := h T ids hold
  by_cases hT : st.tracer.traceIdOf span = T
  · rcases hdone.unfinished with hsame | hunfinished
    · exact ⟨s, hs, hsame ▸ hnot⟩
    · exact hunfinished ids (hT ▸ hids)
  · refine ⟨s, hs, fun hexported => hnot ?_⟩
    exact exported_elsewhere hinheriting hrooting.ledger hcall hledger'
      (Option.isSome_iff_exists.mpr ⟨ids, hold⟩) hT (hrooting.placed.member T ids hold s hs) hexported

/-- The invariant of the traces. -/
structure Tracing (st : Session) : Prop where
  rooting : st.Rooting
  inheriting : st.Inheriting
  unfinished : st.tracer.Unfinished

theorem tracing_call {call : TracerCall} (h : st.Tracing)
    (hallowed : st.Available call ∧ st.DoneOnce call ∧ st.Disciplined call ∧ st.Detached call)
    (hcall : st.call call = some st') : st'.Tracing := by
  obtain ⟨havailable, honce, hdisciplined, hdetached⟩ := hallowed
  obtain ⟨hrooting, hinheriting, hunfinished⟩ := h
  have hrooting' := rooting_call hrooting ⟨havailable, honce, hdisciplined⟩ hcall
  have hv := hrooting.ledger.valid
  have hsound := hv.tracer
  have hplaced := hrooting.placed
  have hnew : st.tracer.nextSpanId ∉ st.tracer.exportedSpans :=
    fun hmem => lt_irrefl _ (hrooting.ledger.log.isSpan _ hmem).2
  have hvalid : ∀ {ref : ParentRef}, ValidRef st.tracer ref →
      st.tracer.Follows ref.traceId ref.parent.id → ∀ p, some ref.parent = some p →
      ref.traceId < st.tracer.nextTraceId ∧ st.tracer.IsSpan p.id ∧
        st.tracer.Follows ref.traceId p.id := by
    intro ref hvalid hfollows p hp
    obtain rfl := Option.some.inj hp
    exact ⟨hvalid.1, hvalid.2, hfollows⟩
  suffices hrest : st'.Inheriting ∧ st'.tracer.Unfinished from ⟨hrooting', hrest.1, hrest.2⟩
  cases call with
  | startSpan ev =>
    obtain ⟨t, ht, rfl⟩ := Option.map_eq_some_iff.mp hcall
    obtain rfl := startSpan_eq_some ht
    have hjoins := joins_startSpan hsound
    set traces := Function.update st.tracer.traces st.tracer.nextTraceId (some [st.tracer.nextSpanId])
    have hkept : (st.withTracer { st.tracer.allocate ⟨st.tracer.nextTraceId, none⟩ ev.ts with
        traces := traces }).Inheriting :=
      hinheriting.allocate hv hplaced hjoins fun p hp => by cases hp
    have hlive : Unfinished { st.tracer.allocate ⟨st.tracer.nextTraceId, none⟩ ev.ts with
        traces := traces } := hunfinished.allocate hjoins hnew
    exact ⟨⟨hkept.parents, hkept.refs, hkept.contexts⟩, hlive⟩
  | readParent span =>
    obtain ⟨ref, href, rfl⟩ := Option.map_eq_some_iff.mp hcall
    refine ⟨⟨hinheriting.parents, fun ref' href' => ?_, hinheriting.contexts⟩, hunfinished⟩
    rcases List.mem_cons.mp href' with rfl | href'
    · exact follows_parentRef href
    · exact hinheriting.refs ref' href'
  | startSpanByParent ref ev =>
    obtain ⟨t, ht, rfl⟩ := Option.map_eq_some_iff.mp hcall
    obtain ⟨_, rfl⟩ := startSpanByParent_eq_some ht
    have hjoins := st.tracer.joins_register ref.traceId
    exact ⟨hinheriting.allocate hv hplaced hjoins
      (hvalid (hv.refs ref havailable) (hinheriting.refs ref havailable)),
      hunfinished.allocate hjoins hnew⟩
  | createPassOnContext exp span =>
    obtain ⟨c, hc, rfl⟩ := Option.map_eq_some_iff.mp hcall
    refine ⟨⟨hinheriting.parents, hinheriting.refs, fun c' hc' => ?_⟩, hunfinished⟩
    rcases List.mem_cons.mp hc' with rfl | hc'
    · obtain ⟨ref, href, rfl⟩ := Option.map_eq_some_iff.mp hc
      exact follows_parentRef href
    · exact hinheriting.contexts c' hc'
  | startSpanByParentPassOnContext c ev =>
    obtain ⟨t, ht, rfl⟩ := Option.map_eq_some_iff.mp hcall
    obtain ⟨_, rfl⟩ := startSpanByParent_eq_some ht
    have hjoins := st.tracer.joins_register c.traceId
    exact ⟨hinheriting.allocate hv hplaced hjoins
      (hvalid (hv.contexts c havailable) (hinheriting.contexts c havailable)),
      hunfinished.allocate hjoins hnew⟩
  | startOrphanSpan ev =>
    obtain ⟨t, ht, rfl⟩ := Option.map_eq_some_iff.mp hcall
    obtain rfl := startOrphanSpan_eq_some ht
    have hjoins := joins_orphan hsound
    exact ⟨hinheriting.allocate hv hplaced hjoins (fun p hp => by cases hp),
      hunfinished.allocate hjoins hnew⟩
  | cloneShared other =>
    obtain rfl := Option.some.inj hcall
    exact ⟨hinheriting.cloneShared hv hplaced havailable, hunfinished⟩
  | startSpanSetParentContext span c =>
    obtain ⟨t, ht, rfl⟩ := Option.map_eq_some_iff.mp hcall
    exact ⟨hinheriting.startSpanSetParentContext hv havailable.2 hdetached ht,
      hunfinished.startSpanSetParentContext ht⟩
  | addParentLazily span c =>
    obtain ⟨t, ht, rfl⟩ := Option.map_eq_some_iff.mp hcall
    exact ⟨hinheriting.addParentLazily hv hplaced havailable.2 ht,
      hunfinished.addParentLazily hsound ht⟩
  | markSpanAsDone span =>
    obtain ⟨t, ht, rfl⟩ := Option.map_eq_some_iff.mp hcall
    exact ⟨hinheriting.markSpanAsDone ht,
      unfinished_markSpanAsDone hunfinished hrooting hinheriting ht hrooting'.ledger⟩

/-- A root that is not finished is always in its trace, so that a parent can be added; and if
copies leave nothing behind, every trace has a span that was not exported. -/
theorem registered_and_unfinished (st : Session) :
    (Transition.Reachable Session.call
        (fun st call => st.Available call ∧ st.DoneOnce call ∧ st.Disciplined call) init st →
      st.RootsRegistered) ∧
    (Transition.Reachable Session.call
        (fun st call => st.Available call ∧ st.DoneOnce call ∧ st.Disciplined call ∧
          st.Detached call) init st → st.tracer.Unfinished) := by
  constructor
  · intro hreachable
    exact (hreachable.invariant rooting_init rooting_call).registered
  · intro hreachable
    have hinit : init.Tracing := ⟨rooting_init, inheriting_init, fun _ _ hids => nomatch hids⟩
    exact (hreachable.invariant hinit tracing_call).unfinished

/-- A copy of a call that goes to the trace of another call, before anything else. -/
def movedCopy : List TracerCall :=
  [.startSpan ⟨10, true⟩, .cloneShared 1, .startSpan ⟨5, true⟩, .createPassOnContext .kRx 3,
    .startSpanSetParentContext 2 ⟨.nth 1 2 5, .kRx⟩, .markSpanAsDone 1]

theorem unfinished_movedCopy : ∃ st : Session, st.tracer.traces 2 = some [3, 2] ∧
    st.RootsRegistered ∧ st.tracer.Unfinished := by
  have hrun : ∃ st, Transition.follow Session.call
      (fun st call => st.Available call ∧ st.DoneOnce call ∧ st.Disciplined call ∧
        st.Detached call) init movedCopy = some st ∧ st.tracer.traces 2 = some [3, 2] :=
    ⟨(Transition.follow _ _ init movedCopy).get (by decide), (Option.some_get _).symm, by decide⟩
  obtain ⟨st, hst, htrace⟩ := hrun
  have hreachable := Transition.Reachable.refl.follow hst
  have hdisciplined : Transition.Reachable Session.call
      (fun st call => st.Available call ∧ st.DoneOnce call ∧ st.Disciplined call) init st :=
    hreachable.mono fun _ _ h => ⟨h.1, h.2.1, h.2.2.1⟩
  obtain ⟨hregistered, hunfinished⟩ := registered_and_unfinished st
  exact ⟨st, htrace, hregistered hdisciplined, hunfinished hreachable⟩

/-- A child of the copy is started first. It stays in the old trace, and the call that
finishes the copy exports it. Nobody removes the trace. -/
def movedParent : List TracerCall :=
  [.startSpan ⟨10, true⟩, .cloneShared 1, .createPassOnContext .kMmio 2,
    .startSpanByParentPassOnContext ⟨.nth 0 1 10, .kMmio⟩ ⟨20, true⟩,
    .startSpan ⟨5, true⟩, .createPassOnContext .kRx 4,
    .startSpanSetParentContext 2 ⟨.nth 1 3 5, .kRx⟩,
    .markSpanAsDone 3, .markSpanAsDone 1, .markSpanAsDone 4, .markSpanAsDone 2]

theorem not_unfinished_movedParent : ¬ ∀ st, Transition.Reachable Session.call
    (fun st call => st.Available call ∧ st.DoneOnce call ∧ st.Disciplined call) init st →
      st.tracer.Unfinished ∧ st.RootsRegistered := by
  intro hall
  have hrun : ∃ st, Transition.follow Session.call
      (fun st call => st.Available call ∧ st.DoneOnce call ∧ st.Disciplined call) init
      movedParent = some st ∧ st.tracer.traces 1 = some [1, 3] ∧ 1 ∈ st.tracer.exportedSpans ∧
      3 ∈ st.tracer.exportedSpans :=
    ⟨(Transition.follow _ _ init movedParent).get (by decide), (Option.some_get _).symm, by decide⟩
  obtain ⟨st, hst, htrace, hfirst, hchild⟩ := hrun
  obtain ⟨s, hs, hnot⟩ := (hall st (Transition.Reachable.refl.follow hst)).1 1 [1, 3] htrace
  simp only [List.mem_cons, List.not_mem_nil, or_false] at hs
  rcases hs with rfl | rfl
  · exact hnot hfirst
  · exact hnot hchild

end Session
end Columbo
