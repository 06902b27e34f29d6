import Columbo.TracerSteps
import Columbo.Forest

/-!
# When a root can get a parent

A span that `StartSpan` created and that has no parent yet is registered in its own
trace only, and no registered span shares its context. So `AddParentLazily` fails
exactly if its trace is gone or shares a span with the trace of the context, and it
closes a cycle exactly if the context leads back to the span.
-/
namespace Columbo
namespace Tracer

open Forest Relation

/-- The span is registered in the trace that its context names, and nowhere else, and
no other registered span has the same context. -/
structure Rooted (t : Tracer) (r : Nat) : Prop where
  only : ∀ T ids, t.traces T = some ids → r ∈ ids → T = t.traceIdOf r
  own : ∀ ids, t.traces (t.traceIdOf r) = some ids → r ∈ ids
  alone : ∀ s, s ≠ r → (t.spans s).context = (t.spans r).context →
    ∀ T ids, t.traces T = some ids → s ∉ ids

/-- A root keeps its place if the spans that become registered have other contexts
and its own trace loses no span. -/
theorem Rooted.grow {t t' : Tracer} {r : Nat} (h : t.Rooted r)
    (hlabel : t'.traceIdOf r = t.traceIdOf r)
    (hin : ∀ T ids s, t'.traces T = some ids → s ∈ ids →
      (t'.spans s).context = (t'.spans r).context →
      ∃ old, t.traces T = some old ∧ s ∈ old ∧ (t.spans s).context = (t.spans r).context)
    (hkeep : ∀ ids, t'.traces (t.traceIdOf r) = some ids →
      ∃ old, t.traces (t.traceIdOf r) = some old ∧ ∀ s ∈ old, s ∈ ids) : t'.Rooted r := by
  refine ⟨?_, ?_, ?_⟩
  · intro T ids hT hr
    obtain ⟨old, hold, hmem, _⟩ := hin T ids r hT hr rfl
    rw [hlabel]
    exact h.only T old hold hmem
  · intro ids hids
    rw [hlabel] at hids
    obtain ⟨old, hold, hsub⟩ := hkeep ids hids
    exact hsub r (h.own old hold)
  · intro s hsr hshare T ids hT hs
    obtain ⟨old, hold, hmem, hshare'⟩ := hin T ids s hT hs hshare
    exact h.alone s hsr hshare' T old hold hmem

theorem Rooted.register {t : Tracer} {r traceId : Nat} {ids : List Nat} (h : t.Rooted r)
    (hother : ∀ s ∈ ids, (t.spans s).context ≠ (t.spans r).context) :
    (t.register traceId ids).Rooted r := by
  refine h.grow rfl ?_ ?_
  · intro T new s hT hs hshare
    obtain ⟨old, hold, ⟨_, rfl⟩ | ⟨_, rfl⟩⟩ := traces_register hT
    · exact ⟨new, hold, hs, hshare⟩
    · rcases List.mem_append.mp hs with hs | hs
      · exact ⟨old, hold, hs, hshare⟩
      · exact absurd hshare (hother s hs)
  · intro new hnew
    obtain ⟨old, hold, ⟨_, rfl⟩ | ⟨_, rfl⟩⟩ := traces_register hnew
    · exact ⟨new, hold, fun s hs => hs⟩
    · exact ⟨old, hold, fun s hs => List.mem_append_left _ hs⟩

theorem Rooted.removeTrace {t : Tracer} {r : Nat} (h : t.Rooted r) (traceId : Nat) :
    Rooted { t with traces := Function.update t.traces traceId none } r := by
  have htraces : ∀ {T ids}, Function.update t.traces traceId none T = some ids →
      t.traces T = some ids := by
    intro T ids hT
    by_cases hsame : T = traceId
    · simp [hsame] at hT
    · simpa [hsame] using hT
  refine h.grow rfl ?_ ?_
  · intro T ids s hT hs hshare
    exact ⟨ids, htraces hT, hs, hshare⟩
  · intro ids hids
    exact ⟨ids, htraces hids, fun s hs => hs⟩

theorem Rooted.sameHeap {t t' : Tracer} {r : Nat} (h : t.Rooted r) (hsame : SameHeap t t') :
    t'.Rooted r := by
  refine h.grow ?_ ?_ ?_
  · rw [hsame.traceIdOf]
  · rw [hsame.traces, hsame.spans]
    exact fun T ids s hT hs hshare => ⟨ids, hT, hs, hshare⟩
  · rw [hsame.traces]
    exact fun ids hids => ⟨ids, hids, fun s hs => hs⟩

theorem Rooted.allocate {t : Tracer} {r : Nat} (h : t.Rooted r) (hsound : t.Sound)
    (hr : t.IsSpan r) (c : TraceContext) (ts : Nat) : (t.allocate c ts).Rooted r := by
  have hctx : ∀ {s}, t.IsSpan s → ((t.allocate c ts).spans s).context = (t.spans s).context := by
    intro s hs
    simp [Tracer.allocate, Nat.ne_of_lt hs.2]
  refine h.grow ?_ ?_ ?_
  · rw [traceIdOf_allocate hsound.contexts, if_neg (Nat.ne_of_lt hr.2)]
  · intro T ids s hT hs hshare
    have hspan := hsound.registered T ids hT s hs
    rw [hctx hspan, hctx hr] at hshare
    exact ⟨ids, hT, hs, hshare⟩
  · exact fun ids hids => ⟨ids, hids, fun s hs => hs⟩

theorem Rooted.cloneShared {t : Tracer} {r : Nat} (h : t.Rooted r) (hsound : t.Sound)
    (hr : t.IsSpan r) (other : Nat) : (t.cloneShared other).Rooted r := by
  have hctx : ∀ {s}, t.IsSpan s →
      ((t.cloneShared other).spans s).context = (t.spans s).context := by
    intro s hs
    simp [Tracer.cloneShared, newSpan, Nat.ne_of_lt hs.2]
  refine h.grow ?_ ?_ ?_
  · rw [traceIdOf_cloneShared, if_neg (Nat.ne_of_lt hr.2)]
  · intro T ids s hT hs hshare
    have hspan := hsound.registered T ids hT s hs
    rw [hctx hspan, hctx hr] at hshare
    exact ⟨ids, hT, hs, hshare⟩
  · exact fun ids hids => ⟨ids, hids, fun s hs => hs⟩

theorem Rooted.renewContext {t : Tracer} {r : Nat} (h : t.Rooted r) (hsound : t.Sound)
    {span : Nat} (hne : r ≠ span) (c : TraceContext) : (t.renewContext span c).Rooted r := by
  have hr : ((t.renewContext span c).spans r).context = (t.spans r).context := by
    simp [Tracer.renewContext, hne]
  refine h.grow ?_ ?_ ?_
  · rw [traceIdOf_renewContext hsound.contexts, if_neg hne]
  · intro T ids s hT hs hshare
    rw [hr] at hshare
    have hss : s ≠ span := by
      rintro rfl
      have hlt := hsound.contexts r
      simp [Tracer.renewContext] at hshare
      omega
    have hs' : ((t.renewContext span c).spans s).context = (t.spans s).context := by
      simp [Tracer.renewContext, hss]
    exact ⟨ids, hT, hs, hs'.symm.trans hshare⟩
  · exact fun ids hids => ⟨ids, hids, fun s hs => hs⟩

/-- The root of a new trace. -/
theorem rooted_startSpan {t t' : Tracer} {ev : StartingEvent} (hsound : t.Sound)
    (hcall : t.startSpan ev = some t') : t'.Rooted t.nextSpanId := by
  obtain rfl := startSpan_eq_some hcall
  have hlabel : (t.allocate ⟨t.nextTraceId, none⟩ ev.ts).traceIdOf t.nextSpanId = t.nextTraceId := by
    rw [traceIdOf_allocate hsound.contexts, if_pos rfl]
  have htraces : ∀ {T ids}, Function.update t.traces t.nextTraceId (some [t.nextSpanId]) T = some ids →
      T = t.nextTraceId ∧ ids = [t.nextSpanId] ∨ t.traces T = some ids := by
    intro T ids hT
    by_cases hsame : T = t.nextTraceId
    · subst hsame
      rw [Function.update_self] at hT
      exact .inl ⟨rfl, (Option.some.inj hT).symm⟩
    · rw [Function.update_of_ne hsame] at hT
      exact .inr hT
  refine ⟨?_, ?_, ?_⟩
  · intro T ids hT hmem
    refine Eq.trans ?_ hlabel.symm
    rcases htraces hT with ⟨hT, _⟩ | hT
    · exact hT
    · exact absurd (hsound.registered T ids hT _ hmem).2 (Nat.lt_irrefl _)
  · intro ids hids
    have hids : Function.update t.traces t.nextTraceId (some [t.nextSpanId])
        ((t.allocate ⟨t.nextTraceId, none⟩ ev.ts).traceIdOf t.nextSpanId) = some ids := hids
    rw [hlabel, Function.update_self] at hids
    obtain rfl := Option.some.inj hids
    exact List.mem_singleton_self _
  · intro s hs hshare
    have hlt := hsound.contexts s
    simp [Tracer.allocate, hs] at hshare
    omega

theorem Rooted.startSpan {t t' : Tracer} {r : Nat} (h : t.Rooted r) (hsound : t.Sound)
    (hr : t.IsSpan r) {ev : StartingEvent} (hcall : t.startSpan ev = some t') : t'.Rooted r := by
  obtain rfl := startSpan_eq_some hcall
  have hgrown := h.allocate hsound hr ⟨t.nextTraceId, none⟩ ev.ts
  have hold : t.traceIdOf r ≠ t.nextTraceId := Nat.ne_of_lt (hsound.traceIdOf_lt r)
  have hlabel : (t.allocate ⟨t.nextTraceId, none⟩ ev.ts).traceIdOf r = t.traceIdOf r := by
    rw [traceIdOf_allocate hsound.contexts, if_neg (Nat.ne_of_lt hr.2)]
  refine hgrown.grow rfl ?_ ?_
  · intro T ids s hT hs hshare
    by_cases hsame : T = t.nextTraceId
    · subst hsame
      have hids : Function.update t.traces t.nextTraceId (some [t.nextSpanId]) t.nextTraceId =
          some ids := hT
      rw [Function.update_self] at hids
      obtain rfl := Option.some.inj hids
      obtain rfl := List.mem_singleton.mp hs
      have hlt := hsound.contexts r
      simp [Tracer.allocate, Nat.ne_of_lt hr.2] at hshare
      omega
    · have hids : t.traces T = some ids := (Function.update_of_ne hsame _ _).symm.trans hT
      exact ⟨ids, hids, hs, hshare⟩
  · intro ids hids
    rw [hlabel] at hids ⊢
    have hids' : t.traces (t.traceIdOf r) = some ids :=
      (Function.update_of_ne hold _ _).symm.trans hids
    exact ⟨ids, hids', fun s hs => hs⟩

/-- Another span gets a parent: a root in the same trace moves with it. -/
theorem Rooted.reparent {t : Tracer} {r span : Nat} {c : ParentRef} {ids : List Nat}
    (h : t.Rooted r) (hids : t.traces (t.traceIdOf span) = some ids)
    (hother : (t.spans r).context ≠ (t.spans span).context) : (t.reparent span c ids).Rooted r := by
  have hrs : r ≠ span := fun heq => hother (heq ▸ rfl)
  by_cases hr : r ∈ ids
  · have hlabel : (t.reparent span c ids).traceIdOf r = c.traceId := by
      rw [traceIdOf_reparent, if_neg hother, if_pos (List.mem_map.mpr ⟨r, hr, rfl⟩)]
    refine ⟨?_, ?_, ?_⟩
    · intro T new hT hmem
      rw [hlabel]
      obtain ⟨hT', old, hold, ⟨_, rfl⟩ | ⟨hsame, _⟩⟩ := traces_reparent hT
      · exact absurd ((h.only T new hold hmem).trans (h.only _ ids hids hr).symm) hT'
      · exact hsame
    · intro new hnew
      rw [hlabel] at hnew
      obtain ⟨_, old, _, ⟨hne, _⟩ | ⟨_, rfl⟩⟩ := traces_reparent hnew
      · exact absurd rfl hne
      · simp [hr, hrs]
    · intro s hsr hshare T new hT hmem
      have halone := h.alone s hsr hshare
      obtain ⟨_, old, hold, ⟨_, rfl⟩ | ⟨_, rfl⟩⟩ := traces_reparent hT
      · exact halone T new hold hmem
      · rcases List.mem_append.mp hmem with hmem | hmem
        · exact halone T old hold hmem
        · rcases List.mem_cons.mp hmem with rfl | hmem
          · exact hother hshare.symm
          · exact halone _ ids hids (List.mem_of_mem_filter hmem)
  · have hout : (t.spans r).context ∉ ids.map fun s => (t.spans s).context := by
      intro hmem
      obtain ⟨s, hs, hshare⟩ := List.mem_map.mp hmem
      have hsr : s ≠ r := fun heq => hr (heq ▸ hs)
      exact h.alone s hsr hshare _ ids hids hs
    refine h.grow ?_ ?_ ?_
    · rw [traceIdOf_reparent, if_neg hother, if_neg hout]
    · intro T new s hT hs hshare
      obtain ⟨_, old, hold, ⟨_, rfl⟩ | ⟨_, rfl⟩⟩ := traces_reparent hT
      · exact ⟨new, hold, hs, hshare⟩
      · rcases List.mem_append.mp hs with hs | hs
        · exact ⟨old, hold, hs, hshare⟩
        · rcases List.mem_cons.mp hs with rfl | hs
          · exact absurd hshare.symm hother
          · exact absurd (List.mem_map.mpr ⟨s, List.mem_of_mem_filter hs, hshare⟩) hout
    · intro new hnew
      obtain ⟨_, old, hold, ⟨_, rfl⟩ | ⟨_, rfl⟩⟩ := traces_reparent hnew
      · exact ⟨new, hold, fun s hs => hs⟩
      · exact ⟨old, hold, fun s hs => List.mem_append_left _ hs⟩

end Tracer

namespace Session

open Tracer Forest Relation

/-- Every span created by `StartSpan` that has no parent is rooted. -/
def Roots (st : Session) : Prop :=
  ∀ r ∈ st.started, st.tracer.parentOf r = none → st.tracer.Rooted r

theorem roots_startSpanByParent {st : Session} (hv : st.Valid) (hroots : st.Roots)
    {ref : ParentRef} {ev : StartingEvent} {t : Tracer}
    (ht : st.tracer.startSpanByParent ref ev = some t) : (st.withTracer t).Roots := by
  obtain ⟨_, rfl⟩ := startSpanByParent_eq_some ht
  intro r hr hparent
  have hlt := (hv.started r hr).2
  have hp := parentOf_allocate hv.tracer.contexts ⟨ref.traceId, some ref.parent⟩ ev.ts r
  rw [if_neg (Nat.ne_of_lt hlt)] at hp
  refine ((hroots r hr (hp.symm.trans hparent)).allocate hv.tracer (hv.started r hr) _ _).register ?_
  intro s hs
  obtain rfl := List.mem_singleton.mp hs
  have hcontext := hv.tracer.contexts r
  simp [Tracer.allocate, Nat.ne_of_lt hlt]
  omega

theorem roots_call {st st' : Session} {call : TracerCall} (h : st.Valid ∧ st.Roots)
    (havailable : st.Available call) (hcall : st.call call = some st') :
    st'.Valid ∧ st'.Roots := by
  obtain ⟨hv, hroots⟩ := h
  have hsound := hv.tracer
  have hold : ∀ r ∈ st.started, r ≠ st.tracer.nextSpanId :=
    fun r hr => Nat.ne_of_lt (hv.started r hr).2
  refine ⟨hv.call havailable hcall, ?_⟩
  cases call with
  | startSpan ev =>
    obtain ⟨t, ht, rfl⟩ := Option.map_eq_some_iff.mp hcall
    intro r hr hparent
    rcases List.mem_cons.mp hr with rfl | hr
    · exact rooted_startSpan hsound ht
    · have hne := hold r hr
      have hnone : st.tracer.parentOf r = none := by
        obtain rfl := startSpan_eq_some ht
        have hp := parentOf_allocate hsound.contexts ⟨st.tracer.nextTraceId, none⟩ ev.ts r
        rw [if_neg hne] at hp
        exact hp.symm.trans hparent
      exact (hroots r hr hnone).startSpan hsound (hv.started r hr) ht
  | readParent span =>
    obtain ⟨ref, _, rfl⟩ := Option.map_eq_some_iff.mp hcall
    exact hroots
  | startSpanByParent ref ev =>
    obtain ⟨t, ht, rfl⟩ := Option.map_eq_some_iff.mp hcall
    exact roots_startSpanByParent hv hroots ht
  | createPassOnContext exp span =>
    obtain ⟨c, _, rfl⟩ := Option.map_eq_some_iff.mp hcall
    exact hroots
  | startSpanByParentPassOnContext c ev =>
    obtain ⟨t, ht, rfl⟩ := Option.map_eq_some_iff.mp hcall
    exact roots_startSpanByParent hv hroots ht
  | startOrphanSpan ev =>
    obtain ⟨t, ht, rfl⟩ := Option.map_eq_some_iff.mp hcall
    obtain rfl := startOrphanSpan_eq_some ht
    intro r hr hparent
    have hp := parentOf_allocate hsound.contexts ⟨0, none⟩ ev.ts r
    rw [if_neg (hold r hr)] at hp
    exact (hroots r hr (hp.symm.trans hparent)).allocate hsound (hv.started r hr) _ _
  | cloneShared span =>
    obtain rfl := Option.some.inj hcall
    intro r hr hparent
    have hp := parentOf_cloneShared st.tracer span r
    rw [if_neg (hold r hr)] at hp
    exact (hroots r hr (hp.symm.trans hparent)).cloneShared hsound (hv.started r hr) span
  | startSpanSetParentContext span c =>
    obtain ⟨t, ht, rfl⟩ := Option.map_eq_some_iff.mp hcall
    obtain ⟨_, rfl⟩ := startSpanSetParentContext_eq_some ht
    intro r hr hparent
    have hp := parentOf_renewContext hsound.contexts span ⟨c.traceId, some c.parent⟩ r
    have hne : r ≠ span := by
      intro heq
      rw [if_pos heq] at hp
      have hcontra := hp.symm.trans hparent
      cases hcontra
    rw [if_neg hne] at hp
    refine ((hroots r hr (hp.symm.trans hparent)).renewContext hsound hne _).register ?_
    intro s hs
    obtain rfl := List.mem_singleton.mp hs
    have hlt := hsound.contexts r
    simp [Tracer.renewContext, hne]
    omega
  | addParentLazily span c =>
    obtain ⟨t, ht, rfl⟩ := Option.map_eq_some_iff.mp hcall
    obtain ⟨ids, hids, _, rfl⟩ := (addParentLazily_eq_some (hsound.nodup _)).mp ht
    intro r hr hparent
    have hp := parentOf_reparent st.tracer span c.toParentRef ids r
    have hother : (st.tracer.spans r).context ≠ (st.tracer.spans span).context := by
      intro heq
      rw [if_pos heq] at hp
      have hcontra := hp.symm.trans hparent
      cases hcontra
    rw [if_neg hother] at hp
    exact (hroots r hr (hp.symm.trans hparent)).reparent hids hother
  | markSpanAsDone span =>
    obtain ⟨t, ht, rfl⟩ := Option.map_eq_some_iff.mp hcall
    intro r hr hparent
    obtain ⟨t₁, hsame, rfl | rfl⟩ := markSpanAsDone_heap ht
    · exact (hroots r hr (hsame.parentOf ▸ hparent)).sameHeap hsame
    · have hparent₁ : t₁.parentOf r = none := hparent
      exact ((hroots r hr (hsame.parentOf ▸ hparent₁)).sameHeap hsame).removeTrace _

/-- `AddParentLazily` of a root of a trace succeeds and keeps the parents acyclic
exactly if they were acyclic before, the trace of the root exists and shares no span
with the trace of the context, and neither the root nor a clone of it is the parent
that the context names or an ancestor of that one. -/
theorem addParentLazily_acyclic_iff {st : Session}
    (h : Transition.Reachable Session.call Available init st) {r : Nat} (hr : r ∈ st.started)
    (hroot : st.tracer.parentOf r = none) (c : Context) :
    (∃ t', st.tracer.addParentLazily r c.toParentRef = some t' ∧ Acyclic t'.parentOf) ↔
      Acyclic st.tracer.parentOf ∧
      (∃ ids, st.tracer.traces (st.tracer.traceIdOf r) = some ids ∧
        ∀ new, st.tracer.traces c.traceId = some new → ∀ s ∈ ids, s ∉ new) ∧
      ∀ s, (st.tracer.spans s).context = (st.tracer.spans r).context →
        ¬ ReflTransGen (Up st.tracer.parentOf) c.parent.id s := by
  have hinv : st.Valid ∧ st.Roots :=
    h.invariant ⟨valid_init, fun _ hmem => by cases hmem⟩ roots_call
  have hrooted : st.tracer.Rooted r := hinv.2 r hr hroot
  have hcall : ∀ t', st.tracer.addParentLazily r c.toParentRef = some t' ↔ _ := fun t' =>
    addParentLazily_eq_some (hinv.1.tracer.nodup _)
  -- the spans that share the context of the root get the parent with it
  have hshared : ∀ s ∈ {s | (st.tracer.spans s).context = (st.tracer.spans r).context},
      st.tracer.parentOf s = none := by
    intro s hs
    have hsame : st.tracer.parentOf s = st.tracer.parentOf r := by
      unfold parentOf contextOf
      rw [hs]
    exact hsame.trans hroot
  have hacyclic : ∀ ids, Acyclic (st.tracer.reparent r c.toParentRef ids).parentOf ↔
      Acyclic st.tracer.parentOf ∧
        ∀ s ∈ {s | (st.tracer.spans s).context = (st.tracer.spans r).context},
          ¬ ReflTransGen (Up st.tracer.parentOf) c.parent.id s := by
    intro ids
    refine acyclic_reparent_iff hshared ?_ ?_
    · intro s hs
      exact (parentOf_reparent st.tracer r c.toParentRef ids s).trans (if_pos hs)
    · intro s hs
      exact (parentOf_reparent st.tracer r c.toParentRef ids s).trans (if_neg hs)
  constructor
  · rintro ⟨t', ht', hcycle⟩
    obtain ⟨ids, hids, hnew, rfl⟩ := (hcall t').mp ht'
    obtain ⟨hbefore, hup⟩ := (hacyclic ids).mp hcycle
    refine ⟨hbefore, ⟨ids, hids, ?_⟩, hup⟩
    intro new hnewtrace s hs
    by_cases hsame : c.traceId = st.tracer.traceIdOf r
    · have hown : r ∈ new := hrooted.own new (hsame ▸ hnewtrace)
      exact absurd hown (hnew new hnewtrace).1
    · exact (hnew new hnewtrace).2 hsame s hs
  · rintro ⟨hbefore, ⟨ids, hids, hnew⟩, hup⟩
    refine ⟨_, (hcall _).mpr ⟨ids, hids, ?_, rfl⟩, (hacyclic ids).mpr ⟨hbefore, hup⟩⟩
    intro new hnewtrace
    exact ⟨hnew new hnewtrace r (hrooted.own ids hids), fun _ => hnew new hnewtrace⟩

/-- A host call transmits: its span is the parent of the one of the network device,
which passes a context on that comes back to the same host call. -/
def loopback : List TracerCall :=
  [.startSpan ⟨10, true⟩, .createPassOnContext .kTx 1,
    .startSpanByParentPassOnContext ⟨.nth 0 0 10, .kTx⟩ ⟨20, true⟩,
    .createPassOnContext .kRx 2]

/-- The context of another root, which the first one gets as its parent. -/
def twoRoots : List TracerCall :=
  [.startSpan ⟨10, true⟩, .startSpan ⟨20, true⟩, .createPassOnContext .kRx 1]

theorem addParentLazily_twoRoots : ∃ (st : Session) (c : Context), c ∈ st.contexts ∧
    2 ∈ st.started ∧ ((∃ t', st.tracer.addParentLazily 2 c.toParentRef = some t' ∧
      Acyclic t'.parentOf) ↔
    Acyclic st.tracer.parentOf ∧
      (∃ ids, st.tracer.traces (st.tracer.traceIdOf 2) = some ids ∧
        ∀ new, st.tracer.traces c.traceId = some new → ∀ s ∈ ids, s ∉ new) ∧
      ∀ s, (st.tracer.spans s).context = (st.tracer.spans 2).context →
        ¬ ReflTransGen (Up st.tracer.parentOf) c.parent.id s) :=
  have hrun : ∃ st, Transition.follow Session.call Available init twoRoots = some st ∧
      ⟨⟨1, ⟨1, 10, by decide⟩, by decide⟩, .kRx⟩ ∈ st.contexts ∧ 2 ∈ st.started ∧
      st.tracer.parentOf 2 = none :=
    ⟨(Transition.follow _ _ init twoRoots).get (by decide), (Option.some_get _).symm, by decide⟩
  have ⟨st, hst, hc, hstarted, hroot⟩ := hrun
  ⟨st, _, hc, hstarted,
    addParentLazily_acyclic_iff (Transition.Reachable.refl.follow hst) hstarted hroot _⟩

theorem not_addParentLazily_loopback :
    ¬ ∀ st r (c : Context), Transition.Reachable Session.call Available init st → r ∈ st.started →
      st.tracer.parentOf r = none → r ∉ st.done → c ∈ st.contexts →
      ∃ t', st.tracer.addParentLazily r c.toParentRef = some t' ∧ Acyclic t'.parentOf := by
  intro h
  have hrun : ∃ st, Transition.follow Session.call Available init loopback = some st ∧
      1 ∈ st.started ∧ st.tracer.parentOf 1 = none ∧ 1 ∉ st.done ∧
      ⟨⟨1, ⟨2, 20, by decide⟩, by decide⟩, .kRx⟩ ∈ st.contexts ∧
      (st.tracer.addParentLazily 1 ⟨1, ⟨2, 20, by decide⟩, by decide⟩).isNone :=
    ⟨(Transition.follow _ _ init loopback).get (by decide), (Option.some_get _).symm, by decide⟩
  obtain ⟨st, hst, hstarted, hroot, hdone, hc, habort⟩ := hrun
  obtain ⟨t', ht', _⟩ :=
    h st 1 _ (Transition.Reachable.refl.follow hst) hstarted hroot hdone hc
  rw [ht'] at habort
  cases habort

end Session
end Columbo
