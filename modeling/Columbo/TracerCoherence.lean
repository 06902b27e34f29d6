import Columbo.TracerSteps

/-!
# Trace identifiers of parents and children

A context that is passed on holds a copy of the trace identifier of its span. When
`AddParentLazily` moves that span to another trace the copy is out of date, and what
is started from it ends up in another trace than its parent. Without such contexts
every span carries the trace identifier of its parent.
-/
namespace Columbo
namespace Tracer

/-- Every span that has a parent carries the trace identifier of the parent. -/
def Coherent (t : Tracer) : Prop :=
  ∀ s p, t.IsSpan s → t.parentOf s = some p → t.traceIdOf s = t.traceIdOf p

/-- The parents of spans are spans, traces register spans under their trace identifier,
and each context that names an existing trace is the one of a registered span. -/
structure Placed (t : Tracer) : Prop where
  parents : ∀ s p, t.IsSpan s → t.parentOf s = some p → t.IsSpan p
  member : ∀ T ids, t.traces T = some ids → ∀ s ∈ ids, t.traceIdOf s = T
  owner : ∀ s ids, t.IsSpan s → t.traces (t.traceIdOf s) = some ids →
    ∃ s' ∈ ids, (t.spans s').context = (t.spans s).context

/-- A span that was there before, or the new one. -/
theorem isSpan_allocate {t : Tracer} (c : TraceContext) (ts : Nat) {s : Nat}
    (hs : (t.allocate c ts).IsSpan s) : s = t.nextSpanId ∨ t.IsSpan s := by
  have hlt : s < t.nextSpanId + 1 := hs.2
  rcases Nat.lt_succ_iff_lt_or_eq.mp hlt with hlt | heq
  · exact .inr ⟨hs.1, hlt⟩
  · exact .inl heq

/-- What a copy has in common with the span that it was made of. -/
theorem isSpan_cloneShared {t : Tracer} {other s : Nat} (hother : t.IsSpan other)
    (hs : (t.cloneShared other).IsSpan s) :
    ∃ s₀, t.IsSpan s₀ ∧ ((t.cloneShared other).spans s).context = (t.spans s₀).context ∧
      (t.cloneShared other).traceIdOf s = t.traceIdOf s₀ ∧
      (t.cloneShared other).parentOf s = t.parentOf s₀ := by
  have hlt : s < t.nextSpanId + 1 := hs.2
  rw [traceIdOf_cloneShared, parentOf_cloneShared]
  by_cases hnew : s = t.nextSpanId
  · rw [if_pos hnew, if_pos hnew]
    refine ⟨other, hother, ?_, rfl, rfl⟩
    simp [cloneShared, newSpan, hnew]
  · rw [if_neg hnew, if_neg hnew]
    refine ⟨s, ⟨hs.1, by omega⟩, ?_, rfl, rfl⟩
    simp [cloneShared, newSpan, hnew]

theorem cloneShared_of_lt {t : Tracer} {other s : Nat} (hs : s < t.nextSpanId) :
    (t.cloneShared other).traceIdOf s = t.traceIdOf s ∧
      ((t.cloneShared other).spans s).context = (t.spans s).context := by
  rw [traceIdOf_cloneShared, if_neg (Nat.ne_of_lt hs)]
  refine ⟨rfl, ?_⟩
  simp [cloneShared, newSpan, Nat.ne_of_lt hs]

/-- A new span joins the trace that its context names, or has a trace of its own. -/
structure Joins (t : Tracer) (traceId : Nat) (traces : Nat → Option (List Nat)) : Prop where
  other : ∀ T, T ≠ traceId → traces T = t.traces T
  own : ∀ ids, traces traceId = some ids → ∃ old, ids = old ++ [t.nextSpanId] ∧
    (t.traces traceId = some old ∨ old = [] ∧ t.nextTraceId ≤ traceId)
  kept : ∀ old, t.traces traceId = some old → traces traceId = some (old ++ [t.nextSpanId])

theorem joins_startSpan {t : Tracer} (hsound : t.Sound) :
    t.Joins t.nextTraceId (Function.update t.traces t.nextTraceId (some [t.nextSpanId])) := by
  refine ⟨fun T hT => Function.update_of_ne hT _ _, fun ids hids => ?_, fun old hold => ?_⟩
  · refine ⟨[], ?_, .inr ⟨rfl, le_rfl⟩⟩
    rw [Function.update_self] at hids
    exact (Option.some.inj hids).symm
  · exact absurd (hsound.existing _ old hold).2 (lt_irrefl _)

theorem joins_register (t : Tracer) (traceId : Nat) :
    t.Joins traceId (t.register traceId [t.nextSpanId]).traces := by
  refine ⟨fun T hT => Function.update_of_ne hT _ _, fun ids hids => ?_, fun old hold => ?_⟩
  · obtain ⟨old, hold, ⟨hne, _⟩ | ⟨_, rfl⟩⟩ := traces_register hids
    · exact absurd rfl hne
    · exact ⟨old, rfl, .inl hold⟩
  · simp [register, hold]

theorem joins_orphan {t : Tracer} (hsound : t.Sound) : t.Joins 0 t.traces := by
  have hnone : ∀ ids, t.traces 0 ≠ some ids :=
    fun ids hids => absurd rfl (Nat.ne_of_gt (hsound.existing 0 ids hids).1)
  exact ⟨fun _ _ => rfl, fun ids hids => absurd hids (hnone ids),
    fun old hold => absurd hold (hnone old)⟩

/-- A trace with an earlier identifier existed before, and still has its spans. -/
theorem Joins.exists_old {t : Tracer} {traceId T : Nat} {traces : Nat → Option (List Nat)}
    {ids : List Nat} (h : t.Joins traceId traces) (hT : T < t.nextTraceId)
    (hids : traces T = some ids) : ∃ old, t.traces T = some old ∧ ∀ s ∈ old, s ∈ ids := by
  by_cases hsame : T = traceId
  · subst hsame
    obtain ⟨old, rfl, hold | ⟨_, hnew⟩⟩ := h.own ids hids
    · exact ⟨old, hold, fun s hs => List.mem_append_left _ hs⟩
    · exact absurd hT (Nat.not_lt.mpr hnew)
  · exact ⟨ids, (h.other T hsame).symm.trans hids, fun s hs => hs⟩

namespace Placed

variable {t : Tracer}

theorem removeTrace (h : t.Placed) (traceId : Nat) :
    Placed { t with traces := Function.update t.traces traceId none } := by
  have htraces : ∀ {T ids}, Function.update t.traces traceId none T = some ids →
      t.traces T = some ids := by
    intro T ids hT
    by_cases hsame : T = traceId
    · simp [hsame] at hT
    · simpa [hsame] using hT
  exact ⟨h.parents, fun T ids hT => h.member T ids (htraces hT),
    fun s ids hs hT => h.owner s ids hs (htraces hT)⟩

theorem sameHeap (h : t.Placed) {t' : Tracer} (hsame : SameHeap t t') : t'.Placed := by
  refine ⟨?_, ?_, ?_⟩
  · unfold IsSpan
    rw [hsame.parentOf, hsame.nextSpanId]
    exact h.parents
  · rw [hsame.traces, hsame.traceIdOf]
    exact h.member
  · unfold IsSpan
    rw [hsame.traces, hsame.traceIdOf, hsame.spans, hsame.nextSpanId]
    exact h.owner

theorem markSpanAsDone (h : t.Placed) {t' : Tracer} {span : Nat}
    (hcall : t.markSpanAsDone span = some t') : t'.Placed := by
  obtain ⟨t₁, hsame, rfl | rfl⟩ := markSpanAsDone_heap hcall
  · exact h.sameHeap hsame
  · exact (h.sameHeap hsame).removeTrace _

theorem allocate (h : t.Placed) (hsound : t.Sound) {c : TraceContext} {ts : Nat}
    {traces : Nat → Option (List Nat)} (hparent : ∀ p, c.parent = some p → t.IsSpan p.id)
    (hjoins : t.Joins c.traceId traces) : Placed { t.allocate c ts with traces := traces } := by
  have hcontext := traceIdOf_allocate hsound.contexts c ts
  have hpar := parentOf_allocate hsound.contexts c ts
  have hne : ∀ {s}, t.IsSpan s → s ≠ t.nextSpanId := fun hs => Nat.ne_of_lt hs.2
  have hlabel : ∀ {T ids s}, t.traces T = some ids → s ∈ ids →
      (t.allocate c ts).traceIdOf s = T := by
    intro T ids s hT hs
    rw [hcontext, if_neg (Nat.ne_of_lt (hsound.registered T ids hT s hs).2)]
    exact h.member T ids hT s hs
  refine ⟨?_, ?_, ?_⟩
  · intro s p hs hp
    have hp : (t.allocate c ts).parentOf s = some p := hp
    have hold : t.IsSpan p := by
      rw [hpar] at hp
      rcases isSpan_allocate c ts hs with rfl | hs
      · rw [if_pos rfl] at hp
        obtain ⟨q, hq, rfl⟩ := Option.map_eq_some_iff.mp hp
        exact hparent q hq
      · rw [if_neg (hne hs)] at hp
        exact h.parents s p hs hp
    exact ⟨hold.1, Nat.lt_succ_of_lt hold.2⟩
  · intro T ids hT s hs
    by_cases hsame : T = c.traceId
    · subst hsame
      obtain ⟨old, rfl, hold⟩ := hjoins.own ids hT
      rcases List.mem_append.mp hs with hs | hs
      · rcases hold with hold | ⟨rfl, _⟩
        · exact hlabel hold hs
        · cases hs
      · obtain rfl := List.mem_singleton.mp hs
        exact (hcontext _).trans (if_pos rfl)
    · exact hlabel ((hjoins.other T hsame).symm.trans hT) hs
  · intro s ids hs hT
    have hT : traces ((t.allocate c ts).traceIdOf s) = some ids := hT
    rw [hcontext] at hT
    rcases isSpan_allocate c ts hs with rfl | hs
    · rw [if_pos rfl] at hT
      obtain ⟨old, rfl, _⟩ := hjoins.own ids hT
      exact ⟨t.nextSpanId, by simp, rfl⟩
    · rw [if_neg (hne hs)] at hT
      obtain ⟨old, hold, hsub⟩ := hjoins.exists_old (hsound.traceIdOf_lt s) hT
      obtain ⟨s', hs', hshare⟩ := h.owner s old hs hold
      refine ⟨s', hsub s' hs', ?_⟩
      have hs'ne : s' ≠ t.nextSpanId := Nat.ne_of_lt (hsound.registered _ old hold s' hs').2
      simpa [Tracer.allocate, hs'ne, hne hs] using hshare

theorem cloneShared (h : t.Placed) (hsound : t.Sound) {other : Nat} (hother : t.IsSpan other) :
    (t.cloneShared other).Placed := by
  refine ⟨?_, ?_, ?_⟩
  · intro s p hs hp
    obtain ⟨s₀, hs₀, _, _, hq⟩ := isSpan_cloneShared hother hs
    rw [hq] at hp
    have hspan := h.parents s₀ p hs₀ hp
    exact ⟨hspan.1, Nat.lt_succ_of_lt hspan.2⟩
  · intro T ids hT s hs
    rw [(cloneShared_of_lt (hsound.registered T ids hT s hs).2).1]
    exact h.member T ids hT s hs
  · intro s ids hs hT
    obtain ⟨s₀, hs₀, hc, hl, _⟩ := isSpan_cloneShared hother hs
    rw [hl] at hT
    obtain ⟨s', hs', hshare⟩ := h.owner s₀ ids hs₀ hT
    refine ⟨s', hs', ?_⟩
    rw [(cloneShared_of_lt (hsound.registered _ ids hT s' hs').2).2, hc]
    exact hshare

theorem startSpanSetParentContext (h : t.Placed) (hsound : t.Sound) {t' : Tracer} {span : Nat}
    {ref : ParentRef} (hparent : t.IsSpan ref.parent.id)
    (hunregistered : ∀ {T ids}, t.traces T = some ids → span ∉ ids)
    (hcall : t.startSpanSetParentContext span ref = some t') : t'.Placed := by
  obtain ⟨hnew, rfl⟩ := startSpanSetParentContext_eq_some hcall
  set u := t.renewContext span ⟨ref.traceId, some ref.parent⟩
  have hlabel : ∀ s, u.traceIdOf s = if s = span then ref.traceId else t.traceIdOf s :=
    traceIdOf_renewContext hsound.contexts span ⟨ref.traceId, some ref.parent⟩
  have hpar : ∀ s, u.parentOf s = if s = span then some ref.parent.id else t.parentOf s :=
    parentOf_renewContext hsound.contexts span ⟨ref.traceId, some ref.parent⟩
  refine ⟨?_, ?_, ?_⟩
  · intro s q hs hq
    have hq' : u.parentOf s = some q := hq
    rw [hpar] at hq'
    by_cases hss : s = span
    · rw [if_pos hss] at hq'
      exact Option.some.inj hq' ▸ hparent
    · rw [if_neg hss] at hq'
      exact h.parents s q hs hq'
  · intro T ids hT s hs
    show u.traceIdOf s = T
    rw [hlabel]
    obtain ⟨old, hold, hids⟩ := traces_register hT
    have hold : t.traces T = some old := hold
    by_cases hss : s = span
    · subst hss
      rw [if_pos rfl]
      rcases hids with ⟨_, rfl⟩ | ⟨hT, _⟩
      · exact absurd hs (hunregistered hold)
      · exact hT.symm
    · rw [if_neg hss]
      have hmem : s ∈ old := by
        rcases hids with ⟨_, rfl⟩ | ⟨_, rfl⟩
        · exact hs
        · simpa [hss] using hs
      exact h.member T old hold s hmem
  · intro s ids hs hT
    have hT : (u.register ref.traceId [span]).traces (u.traceIdOf s) = some ids := hT
    rw [hlabel] at hT
    obtain ⟨old, hold, hids⟩ := traces_register hT
    have hsub : ∀ x ∈ old, x ∈ ids := by
      rcases hids with ⟨_, rfl⟩ | ⟨_, rfl⟩
      · exact fun x hx => hx
      · exact fun x hx => List.mem_append_left _ hx
    by_cases hss : s = span
    · subst hss
      rw [if_pos rfl] at hids
      rcases hids with ⟨hne, _⟩ | ⟨_, rfl⟩
      · exact absurd rfl hne
      · exact ⟨s, by simp, rfl⟩
    · rw [if_neg hss] at hold
      obtain ⟨s', hs', hshare⟩ := h.owner s old hs hold
      have hs's : s' ≠ span := fun heq => hunregistered hold (heq ▸ hs')
      refine ⟨s', hsub s' hs', ?_⟩
      have hctx : ∀ {x}, x ≠ span → (u.spans x).context = (t.spans x).context := by
        intro x hx
        simp [u, renewContext, hx]
      exact (hctx hs's).trans (hshare.trans (hctx hss).symm)

/-- `AddParentLazily` relabels exactly the spans of the old trace. -/
theorem traceIdOf_reparent (h : t.Placed) {span : Nat} {c : ParentRef} {ids : List Nat}
    (hids : t.traces (t.traceIdOf span) = some ids) {s : Nat} (hs : t.IsSpan s) :
    (t.reparent span c ids).traceIdOf s =
      if t.traceIdOf s = t.traceIdOf span then c.traceId else t.traceIdOf s := by
  rw [Tracer.traceIdOf_reparent]
  by_cases hshare : (t.spans s).context = (t.spans span).context
  · rw [if_pos hshare, if_pos (traceIdOf_eq_of_context hshare)]
  · rw [if_neg hshare]
    by_cases hmem : (t.spans s).context ∈ ids.map fun s => (t.spans s).context
    · obtain ⟨s', hs', hshare'⟩ := List.mem_map.mp hmem
      have hsame : t.traceIdOf s = t.traceIdOf span :=
        (traceIdOf_eq_of_context hshare').symm.trans (h.member _ ids hids s' hs')
      rw [if_pos hmem]
      exact (if_pos hsame).symm
    · have hother : t.traceIdOf s ≠ t.traceIdOf span := by
        intro heq
        obtain ⟨s', hs', hshare'⟩ := h.owner s ids hs (heq ▸ hids)
        exact hmem (List.mem_map.mpr ⟨s', hs', hshare'⟩)
      rw [if_neg hmem]
      exact (if_neg hother).symm

theorem addParentLazily (h : t.Placed) (hsound : t.Sound) {t' : Tracer} {span : Nat}
    {c : ParentRef} (hspan : t.IsSpan span) (hparent : t.IsSpan c.parent.id)
    (hcall : t.addParentLazily span c = some t') : t'.Placed := by
  obtain ⟨ids, hids, _, rfl⟩ := (addParentLazily_eq_some (hsound.nodup _)).mp hcall
  have hlabel : ∀ {s}, t.IsSpan s → (t.reparent span c ids).traceIdOf s =
      if t.traceIdOf s = t.traceIdOf span then c.traceId else t.traceIdOf s :=
    fun hs => h.traceIdOf_reparent hids hs
  have hpar := parentOf_reparent t span c ids
  refine ⟨?_, ?_, ?_⟩
  · intro s q hs hq
    rw [hpar] at hq
    by_cases hshare : (t.spans s).context = (t.spans span).context
    · rw [if_pos hshare] at hq
      exact Option.some.inj hq ▸ hparent
    · rw [if_neg hshare] at hq
      exact h.parents s q hs hq
  · intro T new hT s hs
    obtain ⟨hT', old, hold, hcase⟩ := traces_reparent hT
    have hmoved : ∀ x, x ∈ old → (t.reparent span c ids).traceIdOf x = T := by
      intro x hx
      have hxT : t.traceIdOf x = T := h.member T old hold x hx
      rw [hlabel (hsound.registered T old hold x hx), hxT, if_neg hT']
    rcases hcase with ⟨_, rfl⟩ | ⟨rfl, rfl⟩
    · exact hmoved s hs
    · rcases List.mem_append.mp hs with hs | hs
      · exact hmoved s hs
      · rcases List.mem_cons.mp hs with rfl | hs
        · rw [hlabel hspan, if_pos rfl]
        · have hmem : s ∈ ids := List.mem_of_mem_filter hs
          rw [hlabel (hsound.registered _ ids hids s hmem), if_pos (h.member _ ids hids s hmem)]
  · intro s new hs hT
    rw [hlabel hs] at hT
    obtain ⟨hT', old, hold, hcase⟩ := traces_reparent hT
    by_cases hsame : t.traceIdOf s = t.traceIdOf span
    · obtain ⟨s', hs', hshare⟩ := h.owner s ids hs (hsame ▸ hids)
      rw [if_pos hsame] at hcase
      rcases hcase with ⟨hne, _⟩ | ⟨_, rfl⟩
      · exact absurd rfl hne
      · refine ⟨s', ?_, hshare⟩
        by_cases hs's : s' = span
        · simp [hs's]
        · simp [hs', hs's]
    · rw [if_neg hsame] at hold
      obtain ⟨s', hs', hshare⟩ := h.owner s old hs hold
      refine ⟨s', ?_, hshare⟩
      rcases hcase with ⟨_, rfl⟩ | ⟨_, rfl⟩
      · exact hs'
      · exact List.mem_append_left _ hs'

end Placed

/-- The traces register spans under their trace identifier, and each context that
names an existing trace is the one of a registered span. -/
structure Labelled (t : Tracer) : Prop where
  coherent : t.Coherent
  parents : ∀ s p, t.IsSpan s → t.parentOf s = some p → t.IsSpan p
  member : ∀ T ids, t.traces T = some ids → ∀ s ∈ ids, t.traceIdOf s = T
  owner : ∀ s ids, t.IsSpan s → t.traces (t.traceIdOf s) = some ids →
    ∃ s' ∈ ids, (t.spans s').context = (t.spans s).context

theorem labelled_init : Tracer.init.Labelled := by
  refine ⟨?_, ?_, ?_, ?_⟩
  · intro s p _ hp
    cases hp
  · intro s p _ hp
    cases hp
  · intro T ids hT
    cases hT
  · intro s ids _ hs
    cases hs

namespace Labelled

variable {t : Tracer}

theorem placed (h : t.Labelled) : t.Placed := ⟨h.parents, h.member, h.owner⟩

theorem of_placed (hcoherent : t.Coherent) (h : t.Placed) : t.Labelled :=
  ⟨hcoherent, h.parents, h.member, h.owner⟩

theorem markSpanAsDone (h : t.Labelled) {t' : Tracer} {span : Nat}
    (hcall : t.markSpanAsDone span = some t') : t'.Labelled := by
  refine .of_placed ?_ (h.placed.markSpanAsDone hcall)
  have hcoherent : ∀ {t₁}, SameHeap t t₁ → t₁.Coherent := by
    intro t₁ hsame
    unfold Coherent IsSpan
    rw [hsame.parentOf, hsame.traceIdOf, hsame.nextSpanId]
    exact h.coherent
  obtain ⟨t₁, hsame, rfl | rfl⟩ := markSpanAsDone_heap hcall
  · exact hcoherent hsame
  · exact fun s p hs hp => hcoherent hsame s p hs hp

/-- A new span in the trace of its parent, or in a new trace. If its trace exists, it
registers the span. -/
theorem allocate (h : t.Labelled) (hsound : t.Sound) {c : TraceContext} {ts : Nat}
    {traces : Nat → Option (List Nat)}
    (hparent : ∀ p, c.parent = some p → t.IsSpan p.id ∧ c.traceId = t.traceIdOf p.id)
    (hjoins : t.Joins c.traceId traces) : Labelled { t.allocate c ts with traces := traces } := by
  have hcontext := traceIdOf_allocate hsound.contexts c ts
  have hpar := parentOf_allocate hsound.contexts c ts
  have hne : ∀ {s}, t.IsSpan s → s ≠ t.nextSpanId := fun hs => Nat.ne_of_lt hs.2
  refine .of_placed ?_ (h.placed.allocate hsound (fun p hp => (hparent p hp).1) hjoins)
  intro s p hs hp
  have hp : (t.allocate c ts).parentOf s = some p := hp
  have hcases : t.IsSpan p ∧ (t.allocate c ts).traceIdOf s = t.traceIdOf p := by
    rw [hpar] at hp
    rw [hcontext]
    rcases isSpan_allocate c ts hs with rfl | hs
    · rw [if_pos rfl] at hp ⊢
      obtain ⟨q, hq, rfl⟩ := Option.map_eq_some_iff.mp hp
      exact hparent q hq
    · rw [if_neg (hne hs)] at hp ⊢
      exact ⟨h.parents s p hs hp, h.coherent s p hs hp⟩
  have hplabel := hcontext p
  rw [if_neg (hne hcases.1)] at hplabel
  exact hcases.2.trans hplabel.symm

theorem startSpan (h : t.Labelled) (hsound : t.Sound) {t' : Tracer} {ev : StartingEvent}
    (hcall : t.startSpan ev = some t') : t'.Labelled := by
  obtain rfl := startSpan_eq_some hcall
  have hnew : Labelled { t.allocate ⟨t.nextTraceId, none⟩ ev.ts with
      traces := Function.update t.traces t.nextTraceId (some [t.nextSpanId]) } :=
    h.allocate hsound (fun p hp => by cases hp) (joins_startSpan hsound)
  exact ⟨hnew.coherent, hnew.parents, hnew.member, hnew.owner⟩

theorem startSpanByParent (h : t.Labelled) (hsound : t.Sound) {t' : Tracer} {ref : ParentRef}
    {ev : StartingEvent} (hspan : t.IsSpan ref.parent.id)
    (hcurrent : ref.traceId = t.traceIdOf ref.parent.id)
    (hcall : t.startSpanByParent ref ev = some t') : t'.Labelled := by
  obtain ⟨_, rfl⟩ := startSpanByParent_eq_some hcall
  refine h.allocate hsound ?_ (t.joins_register ref.traceId)
  rintro p ⟨⟩
  exact ⟨hspan, hcurrent⟩

theorem startOrphanSpan (h : t.Labelled) (hsound : t.Sound) {t' : Tracer} {ev : StartingEvent}
    (hcall : t.startOrphanSpan ev = some t') : t'.Labelled := by
  obtain rfl := startOrphanSpan_eq_some hcall
  exact h.allocate hsound (fun p hp => by cases hp) (joins_orphan hsound)

theorem cloneShared (h : t.Labelled) (hsound : t.Sound) {other : Nat} (hother : t.IsSpan other) :
    (t.cloneShared other).Labelled := by
  refine .of_placed ?_ (h.placed.cloneShared hsound hother)
  intro s p hs hp
  -- the clone stands for the span whose context it shares
  obtain ⟨s₀, hs₀, _, hl, hq⟩ := isSpan_cloneShared hother hs
  rw [hq] at hp
  rw [hl, (cloneShared_of_lt (h.parents s₀ p hs₀ hp).2).1]
  exact h.coherent s₀ p hs₀ hp

theorem startSpanSetParentContext (h : t.Labelled) (hsound : t.Sound) {t' : Tracer} {span : Nat}
    {ref : ParentRef} (hparent : t.IsSpan ref.parent.id)
    (hcurrent : ref.traceId = t.traceIdOf ref.parent.id ∨ ref.parent.id = span)
    (hfree : span ∉ (t.traces (t.traceIdOf span)).getD [])
    (hchildren : ∀ s, s < t.nextSpanId → s ≠ span → t.parentOf s = some span →
      t.traceIdOf span = ref.traceId)
    (hcall : t.startSpanSetParentContext span ref = some t') : t'.Labelled := by
  have hunregistered : ∀ {T ids}, t.traces T = some ids → span ∉ ids := by
    intro T ids hT hmem
    rw [h.member T ids hT span hmem, hT] at hfree
    exact hfree hmem
  refine .of_placed ?_
    (h.placed.startSpanSetParentContext hsound hparent hunregistered hcall)
  obtain ⟨hnew, rfl⟩ := startSpanSetParentContext_eq_some hcall
  set u := t.renewContext span ⟨ref.traceId, some ref.parent⟩
  have hlabel : ∀ s, u.traceIdOf s = if s = span then ref.traceId else t.traceIdOf s :=
    traceIdOf_renewContext hsound.contexts span ⟨ref.traceId, some ref.parent⟩
  have hpar : ∀ s, u.parentOf s = if s = span then some ref.parent.id else t.parentOf s :=
    parentOf_renewContext hsound.contexts span ⟨ref.traceId, some ref.parent⟩
  intro s q hs hq
  have hq' : u.parentOf s = some q := hq
  show u.traceIdOf s = u.traceIdOf q
  rw [hpar] at hq'
  rw [hlabel, hlabel]
  by_cases hss : s = span
  · rw [if_pos hss] at hq' ⊢
    obtain rfl := Option.some.inj hq'
    by_cases hself : ref.parent.id = span
    · rw [if_pos hself]
    · rw [if_neg hself]
      exact hcurrent.resolve_right hself
  · rw [if_neg hss] at hq' ⊢
    have hcoherent : t.traceIdOf s = t.traceIdOf q := h.coherent s q hs hq'
    by_cases hqs : q = span
    · rw [if_pos hqs, hcoherent, hqs]
      exact hchildren s hs.2 hss (hqs ▸ hq')
    · rw [if_neg hqs]
      exact hcoherent

theorem addParentLazily (h : t.Labelled) (hsound : t.Sound) {t' : Tracer} {span : Nat}
    {c : ParentRef} (hspan : t.IsSpan span) (hparent : t.IsSpan c.parent.id)
    (hcurrent : c.traceId = t.traceIdOf c.parent.id ∨
      t.traceIdOf c.parent.id = t.traceIdOf span)
    (hcall : t.addParentLazily span c = some t') : t'.Labelled := by
  refine .of_placed ?_ (h.placed.addParentLazily hsound hspan hparent hcall)
  obtain ⟨ids, hids, _, rfl⟩ := (addParentLazily_eq_some (hsound.nodup _)).mp hcall
  have hlabel : ∀ {s}, t.IsSpan s → (t.reparent span c ids).traceIdOf s =
      if t.traceIdOf s = t.traceIdOf span then c.traceId else t.traceIdOf s :=
    fun hs => h.placed.traceIdOf_reparent hids hs
  have hpar := parentOf_reparent t span c ids
  intro s q hs hq
  rw [hpar] at hq
  by_cases hshare : (t.spans s).context = (t.spans span).context
  · rw [if_pos hshare] at hq
    obtain rfl := Option.some.inj hq
    rw [hlabel hs, hlabel hparent, if_pos (traceIdOf_eq_of_context hshare)]
    by_cases hsame : t.traceIdOf c.parent.id = t.traceIdOf span
    · rw [if_pos hsame]
    · rw [if_neg hsame]
      exact hcurrent.resolve_right hsame
  · rw [if_neg hshare] at hq
    rw [hlabel hs, hlabel (h.parents s q hs hq), h.coherent s q hs hq]

end Labelled
end Tracer

namespace Session

open Tracer

/-- The contexts that a call uses name the current trace of their span, and
`StartSpanSetParentContext` gets a span that no trace registers and that has no
children in another trace than the one of the context. -/
def UpToDate (st : Session) : TracerCall → Prop
  | .startSpanByParent ref _ => ref.traceId = st.tracer.traceIdOf ref.parent.id
  | .startSpanByParentPassOnContext c _ => c.traceId = st.tracer.traceIdOf c.parent.id
  | .startSpanSetParentContext span c =>
      (c.traceId = st.tracer.traceIdOf c.parent.id ∨ c.parent.id = span) ∧
      span ∉ (st.tracer.traces (st.tracer.traceIdOf span)).getD [] ∧
      ∀ s, s < st.tracer.nextSpanId → s ≠ span → st.tracer.parentOf s = some span →
        st.tracer.traceIdOf span = c.traceId
  | .addParentLazily span c => c.traceId = st.tracer.traceIdOf c.parent.id ∨
      st.tracer.traceIdOf c.parent.id = st.tracer.traceIdOf span
  | _ => True

theorem labelled_call {st st' : Session} {call : TracerCall}
    (h : st.Valid ∧ st.tracer.Labelled) (hallowed : st.Available call ∧ st.UpToDate call)
    (hcall : st.call call = some st') : st'.Valid ∧ st'.tracer.Labelled := by
  obtain ⟨hv, hl⟩ := h
  obtain ⟨havailable, hcurrent⟩ := hallowed
  refine ⟨hv.call havailable hcall, ?_⟩
  cases call with
  | startSpan ev =>
    obtain ⟨t, ht, rfl⟩ := Option.map_eq_some_iff.mp hcall
    exact hl.startSpan hv.tracer ht
  | readParent span =>
    obtain ⟨ref, _, rfl⟩ := Option.map_eq_some_iff.mp hcall
    exact hl
  | startSpanByParent ref ev =>
    obtain ⟨t, ht, rfl⟩ := Option.map_eq_some_iff.mp hcall
    exact hl.startSpanByParent hv.tracer (hv.refs ref havailable).2 hcurrent ht
  | createPassOnContext exp span =>
    obtain ⟨c, _, rfl⟩ := Option.map_eq_some_iff.mp hcall
    exact hl
  | startSpanByParentPassOnContext c ev =>
    obtain ⟨t, ht, rfl⟩ := Option.map_eq_some_iff.mp hcall
    exact hl.startSpanByParent hv.tracer (hv.contexts c havailable).2 hcurrent ht
  | startOrphanSpan ev =>
    obtain ⟨t, ht, rfl⟩ := Option.map_eq_some_iff.mp hcall
    exact hl.startOrphanSpan hv.tracer ht
  | cloneShared span =>
    obtain rfl := Option.some.inj hcall
    exact hl.cloneShared hv.tracer havailable
  | startSpanSetParentContext span c =>
    obtain ⟨t, ht, rfl⟩ := Option.map_eq_some_iff.mp hcall
    exact hl.startSpanSetParentContext hv.tracer (hv.contexts c havailable.2).2 hcurrent.1
      hcurrent.2.1 hcurrent.2.2 ht
  | addParentLazily span c =>
    obtain ⟨t, ht, rfl⟩ := Option.map_eq_some_iff.mp hcall
    exact hl.addParentLazily hv.tracer havailable.1 (hv.contexts c havailable.2).2 hcurrent ht
  | markSpanAsDone span =>
    obtain ⟨t, ht, rfl⟩ := Option.map_eq_some_iff.mp hcall
    exact hl.markSpanAsDone ht

instance (st : Session) (call : TracerCall) : Decidable (st.UpToDate call) := by
  refine call.casesOn ?_ ?_ ?_ ?_ ?_ ?_ ?_ ?_ ?_ ?_ <;> intros <;> unfold UpToDate <;> infer_instance

/-- In a run in which the contexts are up to date when they are used, every span
carries the trace identifier of its parent in every state. -/
theorem coherent_of_upToDate {st : Session}
    (h : Transition.Reachable Session.call
      (fun st call => st.Available call ∧ st.UpToDate call) init st) : st.tracer.Coherent := by
  have hinv : st.Valid ∧ st.tracer.Labelled :=
    h.invariant ⟨valid_init, labelled_init⟩ labelled_call
  exact hinv.2.coherent

/-- Two roots; the second one gets the first one as its parent, and a child is started
from a context that is passed on after that. -/
def currentContext : List TracerCall :=
  [.startSpan ⟨10, true⟩, .startSpan ⟨20, true⟩, .createPassOnContext .kRx 1,
    .addParentLazily 2 ⟨.nth 0 0 10, .kRx⟩,
    .createPassOnContext .kMmio 2,
    .startSpanByParentPassOnContext ⟨.nth 0 1 20, .kMmio⟩ ⟨30, true⟩]

theorem coherent_currentContext : ∃ st : Session, st.tracer.parentOf 3 = some 2 ∧
    st.tracer.parentOf 2 = some 1 ∧ st.tracer.Coherent :=
  have hrun : ∃ st, Transition.follow Session.call
      (fun st call => st.Available call ∧ st.UpToDate call) init currentContext = some st ∧
      st.tracer.parentOf 3 = some 2 ∧ st.tracer.parentOf 2 = some 1 :=
    ⟨(Transition.follow _ _ init currentContext).get (by decide), (Option.some_get _).symm,
      by decide⟩
  have ⟨st, hst, h3, h2⟩ := hrun
  ⟨st, h3, h2, coherent_of_upToDate (Transition.Reachable.refl.follow hst)⟩

/-- The same calls, but the context of the second root is passed on before that root
gets its parent: it names the trace that `AddParentLazily` removes. -/
def staleContext : List TracerCall :=
  [.startSpan ⟨10, true⟩, .startSpan ⟨20, true⟩, .createPassOnContext .kRx 1,
    .createPassOnContext .kMmio 2,
    .addParentLazily 2 ⟨.nth 0 0 10, .kRx⟩,
    .startSpanByParentPassOnContext ⟨.nth 1 1 20, .kMmio⟩ ⟨30, true⟩]

theorem not_coherent_staleContext :
    ¬ ∀ st, Transition.Reachable Session.call Available init st → st.tracer.Coherent := by
  intro h
  have hrun : ∃ st, Transition.follow Session.call Available init staleContext = some st ∧
      st.tracer.IsSpan 3 ∧ st.tracer.parentOf 3 = some 2 ∧ st.tracer.traceIdOf 3 = 2 ∧
      st.tracer.traceIdOf 2 = 1 :=
    ⟨(Transition.follow _ _ init staleContext).get (by decide), (Option.some_get _).symm,
      by decide⟩
  obtain ⟨st, hst, hspan, hparent, hchild, hlabel⟩ := hrun
  have hsame := h st (Transition.Reachable.refl.follow hst) 3 2 hspan hparent
  rw [hchild, hlabel] at hsame
  cases hsame

end Session
end Columbo
