import Columbo.Tracer
import Columbo.Transition
import Mathlib.Data.List.Nodup

/-!
# What a call does to spans, contexts and traces

Every call that changes the heap is given in closed form. From these the validity of
identifiers is derived for all runs.
-/
namespace Columbo
namespace Tracer

/-- The spans are appended to a trace, if it exists. -/
def register (t : Tracer) (traceId : Nat) (ids : List Nat) : Tracer :=
  { t with traces := Function.update t.traces traceId ((t.traces traceId).map (· ++ ids)) }

/-- A new span with a context of its own. -/
def allocate (t : Tracer) (c : TraceContext) (ts : Nat) : Tracer :=
  { t with
    spans := Function.update t.spans t.nextSpanId ⟨t.nextContextId, ts⟩
    contexts := Function.update t.contexts t.nextContextId c
    nextSpanId := t.nextSpanId + 1
    nextContextId := t.nextContextId + 1 }

/-- A new context for an existing span. -/
def renewContext (t : Tracer) (span : Nat) (c : TraceContext) : Tracer :=
  { t with
    spans := Function.update t.spans span { t.spans span with context := t.nextContextId }
    contexts := Function.update t.contexts t.nextContextId c
    nextContextId := t.nextContextId + 1 }

/-- The contexts of the given spans name another trace. -/
def relabel (t : Tracer) (traceId : Nat) (ids : List Nat) : Tracer :=
  { t with contexts := fun x =>
      if x ∈ ids.map fun s => (t.spans s).context then { t.contexts x with traceId := traceId }
      else t.contexts x }

/-- The effect of `AddParentLazily` on a span whose trace registers `ids`. -/
def reparent (t : Tracer) (span : Nat) (c : ParentRef) (ids : List Nat) : Tracer :=
  { t with
    contexts := fun x =>
      if x = (t.spans span).context then ⟨c.traceId, some c.parent⟩
      else (t.relabel c.traceId ids).contexts x
    traces := Function.update
      (t.register c.traceId (span :: ids.filter (· ≠ span))).traces (t.traceIdOf span) none }

theorem register_none {t : Tracer} {traceId : Nat} (h : t.traces traceId = none)
    (ids : List Nat) : t.register traceId ids = t := by
  have hupdate : Function.update t.traces traceId none = t.traces := by
    rw [← h, Function.update_eq_self]
  simp [register, h, hupdate]

theorem register_register (t : Tracer) (traceId : Nat) (ids ids' : List Nat) :
    (t.register traceId ids).register traceId ids' = t.register traceId (ids ++ ids') := by
  cases h : t.traces traceId <;> simp [register, h]

theorem traces_register {t : Tracer} {traceId T : Nat} {ids new : List Nat}
    (h : (t.register traceId ids).traces T = some new) :
    ∃ old, t.traces T = some old ∧ (T ≠ traceId ∧ new = old ∨ T = traceId ∧ new = old ++ ids) := by
  by_cases hsame : T = traceId
  · subst hsame
    have hmap : (t.traces T).map (· ++ ids) = some new := by simpa [register] using h
    obtain ⟨old, hold, rfl⟩ := Option.map_eq_some_iff.mp hmap
    exact ⟨old, hold, .inr ⟨rfl, rfl⟩⟩
  · have hother : t.traces T = some new := by simpa [register, hsame] using h
    exact ⟨new, hother, .inl ⟨hsame, rfl⟩⟩

/-- The old trace is gone, and the one of the context has what it registered. -/
theorem traces_reparent {t : Tracer} {span T : Nat} {c : ParentRef} {ids new : List Nat}
    (h : (t.reparent span c ids).traces T = some new) :
    T ≠ t.traceIdOf span ∧ ∃ old, t.traces T = some old ∧
      (T ≠ c.traceId ∧ new = old ∨
        T = c.traceId ∧ new = old ++ span :: ids.filter (· ≠ span)) := by
  unfold reparent at h
  dsimp only at h
  by_cases hsame : T = t.traceIdOf span
  · rw [hsame, Function.update_self] at h
    cases h
  · rw [Function.update_of_ne hsame] at h
    exact ⟨hsame, traces_register h⟩

theorem register_nil (t : Tracer) (traceId : Nat) : t.register traceId [] = t := by
  simp [register]

theorem relabel_nil (t : Tracer) (traceId : Nat) : t.relabel traceId [] = t := by
  simp [relabel]

theorem relabel_register (t : Tracer) (traceId : Nat) (ids ids' : List Nat) :
    (t.register traceId ids).relabel traceId ids' =
      (t.relabel traceId ids').register traceId ids := rfl

theorem relabel_setTraceId (t : Tracer) (traceId span : Nat) (ids : List Nat) :
    (t.setTraceId span traceId).relabel traceId ids = t.relabel traceId (span :: ids) := by
  have hcontexts : ((t.setTraceId span traceId).relabel traceId ids).contexts =
      (t.relabel traceId (span :: ids)).contexts := by
    funext x
    by_cases hspan : x = (t.spans span).context
    · subst hspan
      simp [relabel, setTraceId, modifyContext, contextOf]
    · simp [relabel, setTraceId, modifyContext, hspan]
  unfold relabel at hcontexts ⊢
  exact congrArg (fun f => { t with contexts := f }) hcontexts

theorem addSpanToTraceIfTraceExists_eq_some {t t' : Tracer} {traceId span : Nat} :
    t.addSpanToTraceIfTraceExists traceId span = some t' ↔
      (∀ ids, t.traces traceId = some ids → span ∉ ids) ∧ t' = t.register traceId [span] := by
  unfold addSpanToTraceIfTraceExists
  cases htrace : t.traces traceId with
  | none => simp [register_none htrace, eq_comm]
  | some ids =>
    by_cases hspan : span ∈ ids
    · simp [hspan]
    · simp [hspan, register, htrace, eq_comm]

theorem insertTrace_eq_some {t t' : Tracer} {traceId span : Nat}
    (h : t.insertTrace traceId span = some t') :
    t.traces traceId = none ∧
      t' = { t with traces := Function.update t.traces traceId (some [span]) } := by
  unfold insertTrace at h
  split_ifs at h with hnone
  exact ⟨Option.isNone_iff_eq_none.mp hnone, (Option.some.inj h).symm⟩

theorem removeTrace_eq_some {t t' : Tracer} {traceId : Nat}
    (h : t.removeTrace traceId = some t') :
    t' = { t with traces := Function.update t.traces traceId none } := by
  unfold removeTrace at h
  split_ifs at h
  exact (Option.some.inj h).symm

theorem startSpan_eq_some {t t' : Tracer} {ev : StartingEvent} (h : t.startSpan ev = some t') :
    t' = { t.allocate ⟨t.nextTraceId, none⟩ ev.ts with
      traces := Function.update t.traces t.nextTraceId (some [t.nextSpanId])
      nextTraceId := t.nextTraceId + 1 } := by
  unfold startSpan startSpanInternal at h
  dsimp only at h
  split_ifs at h
  obtain ⟨_, rfl⟩ := insertTrace_eq_some h
  rfl

theorem startSpanByParent_eq_some {t t' : Tracer} {ref : ParentRef} {ev : StartingEvent}
    (h : t.startSpanByParent ref ev = some t') :
    (∀ ids, t.traces ref.traceId = some ids → t.nextSpanId ∉ ids) ∧
      t' = (t.allocate ⟨ref.traceId, some ref.parent⟩ ev.ts).register ref.traceId
        [t.nextSpanId] := by
  unfold startSpanByParent startSpanByParentInternal at h
  dsimp only at h
  split_ifs at h
  exact addSpanToTraceIfTraceExists_eq_some.mp h

theorem startOrphanSpan_eq_some {t t' : Tracer} {ev : StartingEvent}
    (h : t.startOrphanSpan ev = some t') : t' = t.allocate ⟨0, none⟩ ev.ts := by
  unfold startOrphanSpan at h
  dsimp only at h
  split_ifs at h
  exact (Option.some.inj h).symm

theorem startSpanSetParentContext_eq_some {t t' : Tracer} {span : Nat} {ref : ParentRef}
    (h : t.startSpanSetParentContext span ref = some t') :
    (∀ ids, t.traces ref.traceId = some ids → span ∉ ids) ∧
      t' = (t.renewContext span ⟨ref.traceId, some ref.parent⟩).register ref.traceId [span] := by
  unfold startSpanSetParentContext at h
  obtain ⟨t₁, hset, hadd⟩ := Option.bind_eq_some_iff.mp h
  unfold setContext at hset
  split_ifs at hset
  cases hset
  exact addSpanToTraceIfTraceExists_eq_some.mp hadd

theorem moveChild_of_ne {span traceId child : Nat} {t t' : Tracer} (h : child ≠ span) :
    moveChild span traceId t child = some t' ↔
      (∀ ids, t.traces traceId = some ids → child ∉ ids) ∧
      t' = (t.setTraceId child traceId).register traceId [child] := by
  unfold moveChild
  rw [if_neg h]
  exact addSpanToTraceIfTraceExists_eq_some

/-- The loop of `AddParentLazily` moves every span but one, unless the new trace has
one of them already. -/
theorem foldlM_moveChild_eq_some {span traceId : Nat} {children : List Nat}
    (hnodup : children.Nodup) {t t' : Tracer} :
    children.foldlM (moveChild span traceId) t = some t' ↔
      (∀ ids, t.traces traceId = some ids → ∀ child ∈ children, child ≠ span → child ∉ ids) ∧
      t' = (t.relabel traceId (children.filter (· ≠ span))).register traceId
        (children.filter (· ≠ span)) := by
  induction children generalizing t with
  | nil =>
    have hlast : t = t' ↔ t' = t := eq_comm
    simpa [relabel_nil, register_nil] using hlast
  | cons child children ih =>
    have hchild : child ∉ children := (List.nodup_cons.mp hnodup).1
    have ih := fun t : Tracer => ih (List.nodup_cons.mp hnodup).2 (t := t)
    rw [List.foldlM_cons]
    by_cases hspan : child = span
    · have hskip : moveChild span traceId t child = some t := if_pos hspan
      rw [hskip]
      refine (ih t).trans ?_
      simp [hspan]
    · have hfilter : (child :: children).filter (· ≠ span) =
          child :: children.filter (· ≠ span) := by simp [hspan]
      have hclosed : ((((t.setTraceId child traceId).register traceId [child]).relabel traceId
            (children.filter (· ≠ span))).register traceId (children.filter (· ≠ span))) =
          (t.relabel traceId ((child :: children).filter (· ≠ span))).register traceId
            ((child :: children).filter (· ≠ span)) := by
        rw [relabel_register, register_register, relabel_setTraceId, hfilter]
        rfl
      have htraces : ∀ ids, t.traces traceId = some ids →
          ((t.setTraceId child traceId).register traceId [child]).traces traceId =
            some (ids ++ [child]) := by
        intro ids hids
        simp [register, setTraceId, modifyContext, hids]
      constructor
      · intro h
        obtain ⟨t₁, hmove, hrest⟩ := Option.bind_eq_some_iff.mp h
        obtain ⟨hnew, rfl⟩ := (moveChild_of_ne hspan).mp hmove
        obtain ⟨hfree, rfl⟩ := (ih _).mp hrest
        refine ⟨?_, hclosed⟩
        intro ids hids c hc hcspan hcids
        rcases List.mem_cons.mp hc with rfl | hc
        · exact hnew ids hids hcids
        · exact hfree _ (htraces ids hids) c hc hcspan (List.mem_append_left _ hcids)
      · rintro ⟨hfree, rfl⟩
        refine Option.bind_eq_some_iff.mpr
          ⟨(t.setTraceId child traceId).register traceId [child], ?_, ?_⟩
        · exact (moveChild_of_ne hspan).mpr
            ⟨fun ids hids => hfree ids hids child (by simp) hspan, rfl⟩
        · refine (ih _).mpr ⟨?_, hclosed.symm⟩
          intro ids hids c hc hcspan
          cases hold : t.traces traceId with
          | none => simp [register, setTraceId, modifyContext, hold] at hids
          | some old =>
            rw [htraces old hold] at hids
            obtain rfl := Option.some.inj hids
            have hcold : c ∉ old := hfree old hold c (by simp [hc]) hcspan
            have hcchild : c ≠ child := fun heq => hchild (heq ▸ hc)
            simp [hcold, hcchild]

/-- The contexts after `AddParentLazily` has handled the span and the children. -/
theorem relabel_contexts_of_reparent {t t₁ : Tracer} {span : Nat} {c : ParentRef}
    {ids children : List Nat} (hspans : t₁.spans = t.spans)
    (hcontexts : t₁.contexts =
      Function.update t.contexts (t.spans span).context ⟨c.traceId, some c.parent⟩)
    (hchildren : ∀ s, s ∈ children ↔ s ∈ ids ∧ s ≠ span) :
    (t₁.relabel c.traceId children).contexts = (t.reparent span c ids).contexts := by
  funext x
  by_cases hx : x = (t.spans span).context
  · subst hx
    simp [relabel, reparent, hcontexts]
  · have hold : t₁.contexts x = t.contexts x := by rw [hcontexts, Function.update_of_ne hx]
    have hmem : x ∈ (children.map fun s => (t₁.spans s).context) ↔
        x ∈ ids.map fun s => (t.spans s).context := by
      rw [hspans]
      simp only [List.mem_map]
      constructor
      · rintro ⟨s, hs, rfl⟩
        exact ⟨s, ((hchildren s).mp hs).1, rfl⟩
      · rintro ⟨s, hs, rfl⟩
        refine ⟨s, (hchildren s).mpr ⟨hs, ?_⟩, rfl⟩
        rintro rfl
        exact hx rfl
    simp only [relabel, reparent, if_neg hx, hmem, hold]

theorem setParentIdAndTs_setTraceId (t : Tracer) (span : Nat) (c : ParentRef) :
    (t.setTraceId span c.traceId).setParentIdAndTs span c.parent =
      t.modifyContext span fun _ => ⟨c.traceId, some c.parent⟩ := by
  simp [setTraceId, setParentIdAndTs, modifyContext, contextOf]

/-- The second half of `AddParentLazily`: the old trace is emptied into the new one
and removed. -/
theorem moveTrace_eq_some {t t' : Tracer} {span traceId oldTraceId : Nat} {ids : List Nat}
    (hnodup : ids.Nodup) :
    (ids.foldlM (moveChild span traceId)
        { t with traces := Function.update t.traces oldTraceId (some []) }).bind
        (fun t => t.removeTrace oldTraceId) = some t' ↔
      (traceId ≠ oldTraceId → ∀ new, t.traces traceId = some new →
        ∀ s ∈ ids, s ≠ span → s ∉ new) ∧
      t' = { t.relabel traceId (ids.filter (· ≠ span)) with
        traces := Function.update
          (t.register traceId (ids.filter (· ≠ span))).traces oldTraceId none } := by
  set emptied : Tracer := { t with traces := Function.update t.traces oldTraceId (some []) }
    with hemptied
  have hremove : ((emptied.relabel traceId (ids.filter (· ≠ span))).register traceId
        (ids.filter (· ≠ span))).removeTrace oldTraceId =
      some { t.relabel traceId (ids.filter (· ≠ span)) with
        traces := Function.update
          (t.register traceId (ids.filter (· ≠ span))).traces oldTraceId none } := by
    have htraces : Function.update (emptied.register traceId (ids.filter (· ≠ span))).traces
          oldTraceId none =
        Function.update (t.register traceId (ids.filter (· ≠ span))).traces oldTraceId none := by
      by_cases hsame : traceId = oldTraceId
      · subst hsame
        simp [register, hemptied]
      · have hne : oldTraceId ≠ traceId := fun h => hsame h.symm
        simp [register, hemptied, hsame, Function.update_comm hne]
    have hexists : ((emptied.register traceId (ids.filter (· ≠ span))).traces
        oldTraceId).isSome = true := by
      by_cases hsame : oldTraceId = traceId
      · subst hsame
        simp [register, hemptied]
      · simp [register, hemptied, hsame]
    rw [← htraces]
    exact if_pos hexists
  have hfree : (∀ new, emptied.traces traceId = some new → ∀ s ∈ ids, s ≠ span → s ∉ new) ↔
      (traceId ≠ oldTraceId → ∀ new, t.traces traceId = some new →
        ∀ s ∈ ids, s ≠ span → s ∉ new) := by
    by_cases hsame : traceId = oldTraceId
    · subst hsame
      simp [hemptied]
    · simp [hemptied, hsame]
  rw [Option.bind_eq_some_iff]
  constructor
  · rintro ⟨t₁, hloop, hend⟩
    obtain ⟨hnew, rfl⟩ := (foldlM_moveChild_eq_some hnodup).mp hloop
    rw [hremove] at hend
    exact ⟨hfree.mp hnew, (Option.some.inj hend).symm⟩
  · rintro ⟨hnew, rfl⟩
    exact ⟨_, (foldlM_moveChild_eq_some hnodup).mpr ⟨hfree.mpr hnew, rfl⟩, hremove⟩

theorem getD_register_filter {t : Tracer} {span traceId oldTraceId : Nat} {ids : List Nat}
    (hids : t.traces oldTraceId = some ids) (hnodup : ids.Nodup)
    (hspan : ∀ new, t.traces traceId = some new → span ∉ new) :
    (((t.register traceId [span]).traces oldTraceId).getD []).Nodup ∧
      (((t.register traceId [span]).traces oldTraceId).getD []).filter (· ≠ span) =
        ids.filter (· ≠ span) := by
  by_cases hsame : oldTraceId = traceId
  · subst hsame
    have hnew : span ∉ ids := hspan ids hids
    constructor
    · simpa [register, hids] using hnodup.concat hnew
    · simp [register, hids]
  · simp [register, hsame, hids, hnodup]

/-- `AddParentLazily` succeeds exactly if the old trace exists and the trace of the
context has none of the spans that move. -/
theorem addParentLazily_eq_some {t t' : Tracer} {span : Nat} {c : ParentRef}
    (hnodup : ∀ ids, t.traces (t.traceIdOf span) = some ids → ids.Nodup) :
    t.addParentLazily span c = some t' ↔
      ∃ ids, t.traces (t.traceIdOf span) = some ids ∧
        (∀ new, t.traces c.traceId = some new → span ∉ new ∧
          (c.traceId ≠ t.traceIdOf span → ∀ s ∈ ids, s ∉ new)) ∧
        t' = t.reparent span c ids := by
  set m := t.modifyContext span fun _ => ⟨c.traceId, some c.parent⟩ with hm
  set t₂ := m.register c.traceId [span] with ht₂
  set children := (t₂.traces (t.traceIdOf span)).getD [] with hchildren
  have hunfold : ∀ ids, t.traces (t.traceIdOf span) = some ids →
      (t.addParentLazily span c = some t' ↔
        (∀ new, t.traces c.traceId = some new → span ∉ new) ∧
          (children.foldlM (moveChild span c.traceId)
            { t₂ with traces := Function.update t₂.traces (t.traceIdOf span) (some []) }).bind
            (fun t₃ => t₃.removeTrace (t.traceIdOf span)) = some t') := by
    intro ids hids
    have hbody : t.addParentLazily span c = (m.addSpanToTraceIfTraceExists c.traceId span).bind
        fun t₂ => (((t₂.traces (t.traceIdOf span)).getD []).foldlM (moveChild span c.traceId)
            { t₂ with traces := Function.update t₂.traces (t.traceIdOf span) (some []) }).bind
            (fun t₃ => t₃.removeTrace (t.traceIdOf span)) := by
      rw [hm, ← setParentIdAndTs_setTraceId]
      unfold addParentLazily
      simp only [hids, Option.isSome_some, if_true]
      rfl
    rw [hbody, Option.bind_eq_some_iff]
    constructor
    · rintro ⟨t₃, hadd, hmove⟩
      obtain ⟨hspan, rfl⟩ := addSpanToTraceIfTraceExists_eq_some.mp hadd
      exact ⟨hspan, hmove⟩
    · rintro ⟨hspan, hmove⟩
      exact ⟨t₂, addSpanToTraceIfTraceExists_eq_some.mpr ⟨hspan, rfl⟩, hmove⟩
  -- the children of the old trace, without the span, are the same as before the call
  have hclosed : ∀ ids, children.filter (· ≠ span) = ids.filter (· ≠ span) →
      { t₂.relabel c.traceId (children.filter (· ≠ span)) with
        traces := Function.update (t₂.register c.traceId (children.filter (· ≠ span))).traces
          (t.traceIdOf span) none } = t.reparent span c ids := by
    intro ids hfilter
    have hcontexts : (t₂.relabel c.traceId (ids.filter (· ≠ span))).contexts =
        (t.reparent span c ids).contexts :=
      relabel_contexts_of_reparent rfl rfl fun s => by simp
    rw [hfilter, ht₂, register_register]
    ext x
    all_goals first | rfl | exact congrFun hcontexts x
  have hfree : ∀ ids, t.traces (t.traceIdOf span) = some ids →
      (∀ new, t.traces c.traceId = some new → span ∉ new) →
      ((c.traceId ≠ t.traceIdOf span → ∀ new, t₂.traces c.traceId = some new →
        ∀ s ∈ children, s ≠ span → s ∉ new) ↔
      (∀ new, t.traces c.traceId = some new → span ∉ new ∧
          (c.traceId ≠ t.traceIdOf span → ∀ s ∈ ids, s ∉ new))) := by
    intro ids hids hspan
    by_cases hsame : c.traceId = t.traceIdOf span
    · constructor
      · intro _ new hnew
        exact ⟨hspan new hnew, fun h => absurd hsame h⟩
      · intro _ h
        exact absurd hsame h
    · have hmoved : children = ids := by
        simp [hchildren, ht₂, register, Ne.symm hsame, hm, modifyContext, hids]
      have hgrown : t₂.traces c.traceId = (t.traces c.traceId).map (· ++ [span]) := by
        simp [ht₂, register, hm, modifyContext]
      rw [hmoved, hgrown]
      constructor
      · intro h new hnew
        refine ⟨hspan new hnew, fun hne s hs hsnew => ?_⟩
        have hsspan : s ≠ span := fun heq => hspan new hnew (heq ▸ hsnew)
        exact h hne (new ++ [span]) (by simp [hnew]) s hs hsspan (List.mem_append_left _ hsnew)
      · intro h hne new hnew s hs hsspan
        obtain ⟨old, hold, rfl⟩ := Option.map_eq_some_iff.mp hnew
        have hsold : s ∉ old := (h old hold).2 hne s hs
        simp [hsold, hsspan]
  constructor
  · intro h
    cases hold : t.traces (t.traceIdOf span) with
    | none => simp [addParentLazily, hold] at h
    | some ids =>
      obtain ⟨hspan, hmove⟩ := (hunfold ids hold).mp h
      obtain ⟨hchild, hfilter⟩ := getD_register_filter (t := m) hold (hnodup ids hold) hspan
      obtain ⟨hnew, rfl⟩ := (moveTrace_eq_some hchild).mp hmove
      exact ⟨ids, rfl, (hfree ids hold hspan).mp hnew, hclosed ids hfilter⟩
  · rintro ⟨ids, hold, hnew, rfl⟩
    have hspan : ∀ new, t.traces c.traceId = some new → span ∉ new :=
      fun new h => (hnew new h).1
    obtain ⟨hchild, hfilter⟩ := getD_register_filter (t := m) hold (hnodup ids hold) hspan
    refine (hunfold ids hold).mpr ⟨hspan, (moveTrace_eq_some hchild).mpr ⟨?_, ?_⟩⟩
    · exact (hfree ids hold hspan).mpr hnew
    · exact (hclosed ids hfilter).symm

/-- Every span refers to a context that was created. -/
def ContextsCreated (t : Tracer) : Prop := ∀ span, (t.spans span).context < t.nextContextId

theorem contextOf_allocate {t : Tracer} (h : t.ContextsCreated) (c : TraceContext) (ts s : Nat) :
    (t.allocate c ts).contextOf s = if s = t.nextSpanId then c else t.contextOf s := by
  unfold contextOf allocate
  by_cases hs : s = t.nextSpanId
  · simp [hs]
  · have hne : (t.spans s).context ≠ t.nextContextId := Nat.ne_of_lt (h s)
    simp [hs, hne]

theorem contextOf_renewContext {t : Tracer} (h : t.ContextsCreated) (span : Nat)
    (c : TraceContext) (s : Nat) :
    (t.renewContext span c).contextOf s = if s = span then c else t.contextOf s := by
  unfold contextOf renewContext
  by_cases hs : s = span
  · simp [hs]
  · have hne : (t.spans s).context ≠ t.nextContextId := Nat.ne_of_lt (h s)
    simp [hs, hne]

theorem contextOf_cloneShared (t : Tracer) (other s : Nat) :
    (t.cloneShared other).contextOf s =
      if s = t.nextSpanId then t.contextOf other else t.contextOf s := by
  unfold contextOf cloneShared newSpan
  by_cases hs : s = t.nextSpanId <;> simp [hs]

theorem contextOf_reparent (t : Tracer) (span : Nat) (c : ParentRef) (ids : List Nat) (s : Nat) :
    (t.reparent span c ids).contextOf s =
      if (t.spans s).context = (t.spans span).context then ⟨c.traceId, some c.parent⟩
      else if (t.spans s).context ∈ ids.map fun s => (t.spans s).context then
        { t.contextOf s with traceId := c.traceId }
      else t.contextOf s := rfl

/-- `AddParentLazily` changes the parent of the spans that share the context. -/
theorem parentOf_reparent (t : Tracer) (span : Nat) (c : ParentRef) (ids : List Nat) (s : Nat) :
    (t.reparent span c ids).parentOf s =
      if (t.spans s).context = (t.spans span).context then some c.parent.id
      else t.parentOf s := by
  unfold parentOf
  rw [contextOf_reparent]
  split_ifs <;> rfl

theorem traceIdOf_reparent (t : Tracer) (span : Nat) (c : ParentRef) (ids : List Nat) (s : Nat) :
    (t.reparent span c ids).traceIdOf s =
      if (t.spans s).context = (t.spans span).context then c.traceId
      else if (t.spans s).context ∈ ids.map fun s => (t.spans s).context then c.traceId
      else t.traceIdOf s := by
  unfold traceIdOf
  rw [contextOf_reparent]
  split_ifs <;> rfl

theorem parentOf_allocate {t : Tracer} (h : t.ContextsCreated) (c : TraceContext) (ts s : Nat) :
    (t.allocate c ts).parentOf s =
      if s = t.nextSpanId then c.parent.map Parent.id else t.parentOf s := by
  unfold parentOf
  rw [contextOf_allocate h]
  split_ifs <;> rfl

theorem parentOf_renewContext {t : Tracer} (h : t.ContextsCreated) (span : Nat)
    (c : TraceContext) (s : Nat) :
    (t.renewContext span c).parentOf s =
      if s = span then c.parent.map Parent.id else t.parentOf s := by
  unfold parentOf
  rw [contextOf_renewContext h]
  split_ifs <;> rfl

theorem parentOf_cloneShared (t : Tracer) (other s : Nat) :
    (t.cloneShared other).parentOf s =
      if s = t.nextSpanId then t.parentOf other else t.parentOf s := by
  unfold parentOf
  rw [contextOf_cloneShared]
  split_ifs <;> rfl

theorem traceIdOf_allocate {t : Tracer} (h : t.ContextsCreated) (c : TraceContext) (ts s : Nat) :
    (t.allocate c ts).traceIdOf s = if s = t.nextSpanId then c.traceId else t.traceIdOf s := by
  unfold traceIdOf
  rw [contextOf_allocate h]
  split_ifs <;> rfl

theorem traceIdOf_renewContext {t : Tracer} (h : t.ContextsCreated) (span : Nat)
    (c : TraceContext) (s : Nat) :
    (t.renewContext span c).traceIdOf s = if s = span then c.traceId else t.traceIdOf s := by
  unfold traceIdOf
  rw [contextOf_renewContext h]
  split_ifs <;> rfl

theorem traceIdOf_cloneShared (t : Tracer) (other s : Nat) :
    (t.cloneShared other).traceIdOf s =
      if s = t.nextSpanId then t.traceIdOf other else t.traceIdOf s := by
  unfold traceIdOf
  rw [contextOf_cloneShared]
  split_ifs <;> rfl

/-- Spans with the same context are in the same trace. -/
theorem traceIdOf_eq_of_context {t : Tracer} {s s' : Nat}
    (h : (t.spans s).context = (t.spans s').context) : t.traceIdOf s = t.traceIdOf s' := by
  unfold traceIdOf contextOf
  rw [h]

/-- The spans, contexts, traces and counters are the same. -/
structure SameHeap (t t' : Tracer) : Prop where
  spans : t'.spans = t.spans
  contexts : t'.contexts = t.contexts
  traces : t'.traces = t.traces
  nextSpanId : t'.nextSpanId = t.nextSpanId
  nextTraceId : t'.nextTraceId = t.nextTraceId
  nextContextId : t'.nextContextId = t.nextContextId

theorem SameHeap.rfl {t : Tracer} : SameHeap t t :=
  ⟨.refl _, .refl _, .refl _, .refl _, .refl _, .refl _⟩

theorem SameHeap.trans {t t₁ t' : Tracer} (h : SameHeap t t₁) (h' : SameHeap t₁ t') :
    SameHeap t t' where
  spans := h'.spans.trans h.spans
  contexts := h'.contexts.trans h.contexts
  traces := h'.traces.trans h.traces
  nextSpanId := h'.nextSpanId.trans h.nextSpanId
  nextTraceId := h'.nextTraceId.trans h.nextTraceId
  nextContextId := h'.nextContextId.trans h.nextContextId

theorem SameHeap.contextOf {t t' : Tracer} (h : SameHeap t t') : t'.contextOf = t.contextOf := by
  funext s
  unfold Tracer.contextOf
  rw [h.spans, h.contexts]

theorem SameHeap.traceIdOf {t t' : Tracer} (h : SameHeap t t') : t'.traceIdOf = t.traceIdOf := by
  funext s
  unfold Tracer.traceIdOf
  rw [h.contextOf]

theorem SameHeap.parentOf {t t' : Tracer} (h : SameHeap t t') : t'.parentOf = t.parentOf := by
  funext s
  unfold Tracer.parentOf
  rw [h.contextOf]

theorem markSpanAsExported_eq_some {t t' : Tracer} {span : Nat}
    (h : t.markSpanAsExported span = some t') :
    t' = { t with exportedSpans := insert span t.exportedSpans } := by
  unfold markSpanAsExported insertExportedSpan at h
  split_ifs at h
  exact (Option.some.inj h).symm

theorem exportSpan_eq_some {t t' : Tracer} {span : Nat} (h : t.exportSpan span = some t') :
    ∃ e, t' = { t with exporter := e } := by
  obtain ⟨e, _, rfl⟩ := Option.map_eq_some_iff.mp h
  exact ⟨e, rfl⟩

/-- Exporting one span: the set of exported spans and the exporter change. -/
theorem sameHeap_export {t t₁ t' : Tracer} {span : Nat} (hmark : t.markSpanAsExported span = some t₁)
    (hexport : t₁.exportSpan span = some t') : SameHeap t t' := by
  obtain rfl := markSpanAsExported_eq_some hmark
  obtain ⟨e, rfl⟩ := exportSpan_eq_some hexport
  exact ⟨rfl, rfl, rfl, rfl, rfl, rfl⟩

theorem exportWaitingForParentVec_sameHeap {fuel : Nat} {t t' : Tracer} {parent : Nat}
    (h : exportWaitingForParentVec fuel t parent = some t') : SameHeap t t' := by
  induction fuel generalizing t t' parent with
  | zero => simp [exportWaitingForParentVec] at h
  | succ fuel ih =>
    unfold exportWaitingForParentVec at h
    cases hbucket : t.waitingList parent with
    | none =>
      rw [hbucket] at h
      obtain rfl := Option.some.inj h
      exact SameHeap.rfl
    | some waiters =>
      rw [hbucket] at h
      obtain ⟨t₁, hloop, herase⟩ := Option.bind_eq_some_iff.mp h
      have hsame : SameHeap t t₁ := by
        refine Transition.foldlM_partial (fun _ u => SameHeap t u) ?_ SameHeap.rfl hloop
        intro waiter rest u u' hu hround
        obtain ⟨parentId, _, hround⟩ := Option.bind_eq_some_iff.mp hround
        split_ifs at hround
        obtain ⟨u₁, hmark, hround⟩ := Option.bind_eq_some_iff.mp hround
        obtain ⟨u₂, hexport, hround⟩ := Option.bind_eq_some_iff.mp hround
        exact (hu.trans (sameHeap_export hmark hexport)).trans (ih hround)
      obtain rfl := Option.some.inj herase
      exact hsame.trans ⟨rfl, rfl, rfl, rfl, rfl, rfl⟩

/-- The span is appended to the bucket of its parent. -/
theorem markSpanAsWaitingForParent_eq {t : Tracer} {span parentId : Nat}
    (h : t.parentOf span = some parentId) :
    t.markSpanAsWaitingForParent span = { t with
      waitingList := Function.update t.waitingList parentId
        (some ((t.waitingList parentId).getD [] ++ [span])) } := by
  unfold markSpanAsWaitingForParent
  rw [h]
  cases hbucket : t.waitingList parentId <;> simp [hbucket]

theorem markSpanAsWaitingForParent_sameHeap (t : Tracer) (span : Nat) :
    SameHeap t (t.markSpanAsWaitingForParent span) := by
  cases hparent : t.parentOf span with
  | none =>
    unfold markSpanAsWaitingForParent
    rw [hparent]
    exact SameHeap.rfl
  | some parentId =>
    rw [markSpanAsWaitingForParent_eq hparent]
    exact ⟨rfl, rfl, rfl, rfl, rfl, rfl⟩

/-- `MarkSpanAsDone` changes no span and no context, and at most removes a trace. -/
theorem markSpanAsDone_heap {t t' : Tracer} {span : Nat} (h : t.markSpanAsDone span = some t') :
    ∃ t₁, SameHeap t t₁ ∧
      (t' = t₁ ∨
        t' = { t₁ with traces := Function.update t₁.traces (t.traceIdOf span) none }) := by
  unfold markSpanAsDone at h
  dsimp only at h
  split_ifs at h
  · obtain ⟨t₁, hmark, h⟩ := Option.bind_eq_some_iff.mp h
    obtain ⟨t₂, hexport, h⟩ := Option.bind_eq_some_iff.mp h
    obtain ⟨t₃, hwaiting, h⟩ := Option.bind_eq_some_iff.mp h
    have hsame : SameHeap t t₃ :=
      (sameHeap_export hmark hexport).trans (exportWaitingForParentVec_sameHeap hwaiting)
    refine ⟨t₃, hsame, ?_⟩
    split_ifs at h
    · exact .inr (removeTrace_eq_some h)
    · exact .inl (Option.some.inj h).symm
  · obtain rfl := Option.some.inj h
    exact ⟨_, markSpanAsWaitingForParent_sameHeap t span, .inl rfl⟩

/-- Contexts, traces and registered spans were created before they are referred to,
and a trace registers a span once. -/
structure Sound (t : Tracer) : Prop where
  contexts : t.ContextsCreated
  nodup : ∀ traceId ids, t.traces traceId = some ids → ids.Nodup
  registered : ∀ traceId ids, t.traces traceId = some ids → ∀ s ∈ ids, t.IsSpan s
  existing : ∀ traceId ids, t.traces traceId = some ids → 0 < traceId ∧ traceId < t.nextTraceId
  named : ∀ x, (t.contexts x).traceId < t.nextTraceId
  spanId_pos : 0 < t.nextSpanId
  traceId_pos : 0 < t.nextTraceId

theorem sound_init : Tracer.init.Sound where
  contexts := fun _ => Nat.one_pos
  nodup := by simp [init]
  registered := by simp [init]
  existing := by simp [init]
  named := fun _ => Nat.one_pos
  spanId_pos := Nat.one_pos
  traceId_pos := Nat.one_pos

namespace Sound

variable {t : Tracer}

theorem traceIdOf_lt (h : t.Sound) (span : Nat) : t.traceIdOf span < t.nextTraceId := h.named _

theorem register (h : t.Sound) {traceId : Nat} {ids : List Nat} (hnodup : ids.Nodup)
    (hspans : ∀ s ∈ ids, t.IsSpan s)
    (hnew : ∀ old, t.traces traceId = some old → ∀ s ∈ ids, s ∉ old) :
    (t.register traceId ids).Sound := by
  refine ⟨h.contexts, ?_, ?_, ?_, h.named, h.spanId_pos, h.traceId_pos⟩
  · intro T new hT
    obtain ⟨old, hold, ⟨_, rfl⟩ | ⟨rfl, rfl⟩⟩ := traces_register hT
    · exact h.nodup T new hold
    · refine List.nodup_append'.mpr ⟨h.nodup T old hold, hnodup, ?_⟩
      intro s hs hsids
      exact hnew old hold s hsids hs
  · intro T new hT s hs
    obtain ⟨old, hold, ⟨_, rfl⟩ | ⟨rfl, rfl⟩⟩ := traces_register hT
    · exact h.registered T new hold s hs
    · rcases List.mem_append.mp hs with hs | hs
      · exact h.registered T old hold s hs
      · exact hspans s hs
  · intro T new hT
    obtain ⟨old, hold, _⟩ := traces_register hT
    exact h.existing T old hold

theorem remove (h : t.Sound) (traceId : Nat) :
    Sound { t with traces := Function.update t.traces traceId none } := by
  have htraces : ∀ T ids, Function.update t.traces traceId none T = some ids →
      t.traces T = some ids := by
    intro T ids hT
    by_cases hsame : T = traceId
    · simp [hsame] at hT
    · simpa [hsame] using hT
  exact ⟨h.contexts, fun T ids hT => h.nodup T ids (htraces T ids hT),
    fun T ids hT => h.registered T ids (htraces T ids hT),
    fun T ids hT => h.existing T ids (htraces T ids hT), h.named, h.spanId_pos, h.traceId_pos⟩

theorem allocate (h : t.Sound) {c : TraceContext} (hc : c.traceId < t.nextTraceId) (ts : Nat) :
    (t.allocate c ts).Sound where
  contexts := by
    intro s
    by_cases hs : s = t.nextSpanId
    · simp [Tracer.allocate, hs]
    · have hlt := h.contexts s
      simp only [Tracer.allocate, Function.update_of_ne hs]
      omega
  nodup := h.nodup
  registered := fun T ids hT s hs =>
    ⟨(h.registered T ids hT s hs).1, Nat.lt_succ_of_lt (h.registered T ids hT s hs).2⟩
  existing := h.existing
  named := by
    intro x
    by_cases hx : x = t.nextContextId
    · simpa [Tracer.allocate, hx] using hc
    · simpa [Tracer.allocate, hx] using h.named x
  spanId_pos := Nat.succ_pos _
  traceId_pos := h.traceId_pos

theorem renewContext (h : t.Sound) {c : TraceContext} (hc : c.traceId < t.nextTraceId)
    (span : Nat) : (t.renewContext span c).Sound where
  contexts := by
    intro s
    by_cases hs : s = span
    · simp [Tracer.renewContext, hs]
    · have hlt := h.contexts s
      simp only [Tracer.renewContext, Function.update_of_ne hs]
      omega
  nodup := h.nodup
  registered := h.registered
  existing := h.existing
  named := by
    intro x
    by_cases hx : x = t.nextContextId
    · simpa [Tracer.renewContext, hx] using hc
    · simpa [Tracer.renewContext, hx] using h.named x
  spanId_pos := h.spanId_pos
  traceId_pos := h.traceId_pos

theorem cloneShared (h : t.Sound) (other : Nat) : (t.cloneShared other).Sound where
  contexts := by
    intro s
    by_cases hs : s = t.nextSpanId
    · simpa [Tracer.cloneShared, newSpan, hs] using h.contexts other
    · simpa [Tracer.cloneShared, newSpan, hs] using h.contexts s
  nodup := h.nodup
  registered := fun T ids hT s hs =>
    ⟨(h.registered T ids hT s hs).1, Nat.lt_succ_of_lt (h.registered T ids hT s hs).2⟩
  existing := h.existing
  named := h.named
  spanId_pos := Nat.succ_pos _
  traceId_pos := h.traceId_pos

theorem startSpan (h : t.Sound) {t' : Tracer} {ev : StartingEvent}
    (hcall : t.startSpan ev = some t') : t'.Sound := by
  obtain rfl := startSpan_eq_some hcall
  have hgrown : Sound { t with nextTraceId := t.nextTraceId + 1 } :=
    ⟨h.contexts, h.nodup, h.registered,
      fun T ids hT => ⟨(h.existing T ids hT).1, Nat.lt_succ_of_lt (h.existing T ids hT).2⟩,
      fun x => Nat.lt_succ_of_lt (h.named x), h.spanId_pos, Nat.succ_pos _⟩
  have hspan := hgrown.allocate (c := ⟨t.nextTraceId, none⟩) (Nat.lt_succ_self _) ev.ts
  have htraces : ∀ T ids, Function.update t.traces t.nextTraceId (some [t.nextSpanId]) T = some ids →
      t.traces T = some ids ∨ T = t.nextTraceId ∧ ids = [t.nextSpanId] := by
    intro T ids hT
    by_cases hsame : T = t.nextTraceId
    · subst hsame
      exact .inr ⟨rfl, by simpa using hT.symm⟩
    · exact .inl (by simpa [hsame] using hT)
  refine ⟨hspan.contexts, ?_, ?_, ?_, hspan.named, hspan.spanId_pos, hspan.traceId_pos⟩
  · intro T ids hT
    rcases htraces T ids hT with hold | ⟨_, rfl⟩
    · exact h.nodup T ids hold
    · exact List.nodup_singleton _
  · intro T ids hT s hs
    rcases htraces T ids hT with hold | ⟨_, rfl⟩
    · exact hspan.registered T ids hold s hs
    · obtain rfl := List.mem_singleton.mp hs
      exact ⟨h.spanId_pos, Nat.lt_succ_self _⟩
  · intro T ids hT
    rcases htraces T ids hT with hold | ⟨rfl, _⟩
    · exact hspan.existing T ids hold
    · exact ⟨h.traceId_pos, Nat.lt_succ_self _⟩

theorem startSpanByParent (h : t.Sound) {t' : Tracer} {ref : ParentRef} {ev : StartingEvent}
    (href : ref.traceId < t.nextTraceId) (hcall : t.startSpanByParent ref ev = some t') :
    t'.Sound := by
  obtain ⟨hnew, rfl⟩ := startSpanByParent_eq_some hcall
  refine (h.allocate href ev.ts).register (List.nodup_singleton _) ?_ ?_
  · intro s hs
    obtain rfl := List.mem_singleton.mp hs
    exact ⟨h.spanId_pos, Nat.lt_succ_self _⟩
  · intro old hold s hs
    obtain rfl := List.mem_singleton.mp hs
    exact hnew old hold

theorem startSpanSetParentContext (h : t.Sound) {t' : Tracer} {span : Nat} {ref : ParentRef}
    (hspan : t.IsSpan span) (href : ref.traceId < t.nextTraceId)
    (hcall : t.startSpanSetParentContext span ref = some t') : t'.Sound := by
  obtain ⟨hnew, rfl⟩ := startSpanSetParentContext_eq_some hcall
  refine (h.renewContext href span).register (List.nodup_singleton _) ?_ ?_
  · intro s hs
    obtain rfl := List.mem_singleton.mp hs
    exact hspan
  · intro old hold s hs
    obtain rfl := List.mem_singleton.mp hs
    exact hnew old hold

theorem addParentLazily (h : t.Sound) {t' : Tracer} {span : Nat} {c : ParentRef}
    (hspan : t.IsSpan span) (hc : c.traceId < t.nextTraceId)
    (hcall : t.addParentLazily span c = some t') : t'.Sound := by
  obtain ⟨ids, hids, hnew, rfl⟩ := (addParentLazily_eq_some (h.nodup _)).mp hcall
  have hmoved : (span :: ids.filter (· ≠ span)).Nodup :=
    List.nodup_cons.mpr ⟨by simp, (h.nodup _ ids hids).filter _⟩
  have hspans : ∀ s ∈ span :: ids.filter (· ≠ span), t.IsSpan s := by
    intro s hs
    rcases List.mem_cons.mp hs with rfl | hs
    · exact hspan
    · exact h.registered _ ids hids s (List.mem_of_mem_filter hs)
  -- if the old trace is the new one, what is registered there is removed again
  have htraces : Sound { t with traces := (t.reparent span c ids).traces } := by
    by_cases hsame : c.traceId = t.traceIdOf span
    · have hremoved : (t.reparent span c ids).traces =
          Function.update t.traces (t.traceIdOf span) none := by
        simp [reparent, Tracer.register, hsame]
      rw [hremoved]
      exact h.remove _
    · refine (h.register hmoved hspans ?_).remove _
      intro old hold s hs
      rcases List.mem_cons.mp hs with rfl | hs
      · exact (hnew old hold).1
      · exact (hnew old hold).2 hsame s (List.mem_of_mem_filter hs)
  refine ⟨h.contexts, htraces.nodup, htraces.registered, htraces.existing, ?_, h.spanId_pos,
    h.traceId_pos⟩
  intro x
  simp only [reparent, relabel]
  split_ifs
  · exact hc
  · exact hc
  · exact h.named x

theorem sameHeap (h : t.Sound) {t' : Tracer} (hsame : SameHeap t t') : t'.Sound := by
  obtain ⟨hspans, hcontexts, htraces, hspan, htrace, hcontext⟩ := hsame
  refine ⟨?_, ?_, ?_, ?_, ?_, ?_, ?_⟩
  · intro s
    rw [hspans, hcontext]
    exact h.contexts s
  · rw [htraces]
    exact h.nodup
  · unfold IsSpan
    rw [htraces, hspan]
    exact h.registered
  · rw [htraces, htrace]
    exact h.existing
  · rw [hcontexts, htrace]
    exact h.named
  · rw [hspan]
    exact h.spanId_pos
  · rw [htrace]
    exact h.traceId_pos

theorem markSpanAsDone (h : t.Sound) {t' : Tracer} {span : Nat}
    (hcall : t.markSpanAsDone span = some t') : t'.Sound := by
  obtain ⟨t₁, hsame, rfl | rfl⟩ := markSpanAsDone_heap hcall
  · exact h.sameHeap hsame
  · exact (h.sameHeap hsame).remove _

end Sound

end Tracer

namespace Session

/-- The trace exists or existed, and the parent is a span. -/
def ValidRef (t : Tracer) (ref : ParentRef) : Prop :=
  ref.traceId < t.nextTraceId ∧ t.IsSpan ref.parent.id

theorem ValidRef.mono {t t' : Tracer} {ref : ParentRef} (h : ValidRef t ref)
    (htrace : t.nextTraceId ≤ t'.nextTraceId) (hspan : t.nextSpanId ≤ t'.nextSpanId) :
    ValidRef t' ref :=
  ⟨h.1.trans_le htrace, h.2.1, h.2.2.trans_le hspan⟩

theorem validRef_parentRef {t : Tracer} (h : t.Sound) {span : Nat} (hspan : t.IsSpan span)
    {ref : ParentRef} (href : t.parentRef span = some ref) : ValidRef t ref := by
  unfold Tracer.parentRef at href
  split_ifs at href
  obtain rfl := Option.some.inj href
  exact ⟨h.traceIdOf_lt span, hspan⟩

/-- The identifiers in the tracer, and those that its callers hold, are valid. -/
structure Valid (st : Session) : Prop where
  tracer : st.tracer.Sound
  refs : ∀ ref ∈ st.refs, ValidRef st.tracer ref
  contexts : ∀ c ∈ st.contexts, ValidRef st.tracer c.toParentRef
  started : ∀ r ∈ st.started, st.tracer.IsSpan r

theorem valid_init : init.Valid :=
  ⟨Tracer.sound_init, by simp [init], by simp [init], by simp [init]⟩

theorem Valid.withTracer {st : Session} (h : st.Valid) {t : Tracer} (ht : t.Sound)
    (htrace : st.tracer.nextTraceId ≤ t.nextTraceId) (hspan : st.tracer.nextSpanId ≤ t.nextSpanId) :
    (st.withTracer t).Valid :=
  ⟨ht, fun ref href => (h.refs ref href).mono htrace hspan,
    fun c hc => (h.contexts c hc).mono htrace hspan,
    fun r hr => ⟨(h.started r hr).1, (h.started r hr).2.trans_le hspan⟩⟩

/-- A call never takes identifiers back. -/
theorem counters_call {st st' : Session} {call : TracerCall} (hv : st.Valid)
    (hcall : st.call call = some st') :
    st.tracer.nextTraceId ≤ st'.tracer.nextTraceId ∧
      st.tracer.nextSpanId ≤ st'.tracer.nextSpanId := by
  cases call with
  | startSpan ev =>
    obtain ⟨t, ht, rfl⟩ := Option.map_eq_some_iff.mp hcall
    obtain rfl := Tracer.startSpan_eq_some ht
    exact ⟨Nat.le_succ _, Nat.le_succ _⟩
  | readParent span =>
    obtain ⟨ref, _, rfl⟩ := Option.map_eq_some_iff.mp hcall
    exact ⟨le_rfl, le_rfl⟩
  | startSpanByParent ref ev =>
    obtain ⟨t, ht, rfl⟩ := Option.map_eq_some_iff.mp hcall
    obtain ⟨_, rfl⟩ := Tracer.startSpanByParent_eq_some ht
    exact ⟨le_rfl, Nat.le_succ _⟩
  | createPassOnContext exp span =>
    obtain ⟨c, _, rfl⟩ := Option.map_eq_some_iff.mp hcall
    exact ⟨le_rfl, le_rfl⟩
  | startSpanByParentPassOnContext c ev =>
    obtain ⟨t, ht, rfl⟩ := Option.map_eq_some_iff.mp hcall
    obtain ⟨_, rfl⟩ := Tracer.startSpanByParent_eq_some ht
    exact ⟨le_rfl, Nat.le_succ _⟩
  | startOrphanSpan ev =>
    obtain ⟨t, ht, rfl⟩ := Option.map_eq_some_iff.mp hcall
    obtain rfl := Tracer.startOrphanSpan_eq_some ht
    exact ⟨le_rfl, Nat.le_succ _⟩
  | cloneShared span =>
    obtain rfl := Option.some.inj hcall
    exact ⟨le_rfl, Nat.le_succ _⟩
  | startSpanSetParentContext span c =>
    obtain ⟨t, ht, rfl⟩ := Option.map_eq_some_iff.mp hcall
    obtain ⟨_, rfl⟩ := Tracer.startSpanSetParentContext_eq_some ht
    exact ⟨le_rfl, le_rfl⟩
  | addParentLazily span c =>
    obtain ⟨t, ht, rfl⟩ := Option.map_eq_some_iff.mp hcall
    obtain ⟨_, _, _, rfl⟩ := (Tracer.addParentLazily_eq_some (hv.tracer.nodup _)).mp ht
    exact ⟨le_rfl, le_rfl⟩
  | markSpanAsDone span =>
    obtain ⟨t, ht, rfl⟩ := Option.map_eq_some_iff.mp hcall
    obtain ⟨t₁, hsame, rfl | rfl⟩ := Tracer.markSpanAsDone_heap ht
    · exact ⟨hsame.nextTraceId.ge, hsame.nextSpanId.ge⟩
    · exact ⟨hsame.nextTraceId.ge, hsame.nextSpanId.ge⟩

theorem Valid.call {st st' : Session} {call : TracerCall} (hv : st.Valid)
    (havailable : st.Available call) (hcall : st.call call = some st') : st'.Valid := by
  obtain ⟨htrace, hspan⟩ := counters_call hv hcall
  cases call with
  | startSpan ev =>
    obtain ⟨t, ht, rfl⟩ := Option.map_eq_some_iff.mp hcall
    have hnew := hv.withTracer (hv.tracer.startSpan ht) htrace hspan
    refine ⟨hnew.tracer, hnew.refs, hnew.contexts, ?_⟩
    intro r hr
    rcases List.mem_cons.mp hr with rfl | hr
    · obtain rfl := Tracer.startSpan_eq_some ht
      exact ⟨hv.tracer.spanId_pos, Nat.lt_succ_self _⟩
    · exact hnew.started r hr
  | readParent span =>
    obtain ⟨ref, href, rfl⟩ := Option.map_eq_some_iff.mp hcall
    refine ⟨hv.tracer, ?_, hv.contexts, hv.started⟩
    exact List.forall_mem_cons.mpr ⟨validRef_parentRef hv.tracer havailable href, hv.refs⟩
  | startSpanByParent ref ev =>
    obtain ⟨t, ht, rfl⟩ := Option.map_eq_some_iff.mp hcall
    have href := hv.refs ref havailable
    exact hv.withTracer (hv.tracer.startSpanByParent href.1 ht) htrace hspan
  | createPassOnContext exp span =>
    obtain ⟨c, hc, rfl⟩ := Option.map_eq_some_iff.mp hcall
    obtain ⟨ref, href, rfl⟩ := Option.map_eq_some_iff.mp hc
    refine ⟨hv.tracer, hv.refs, ?_, hv.started⟩
    exact List.forall_mem_cons.mpr ⟨validRef_parentRef hv.tracer havailable href, hv.contexts⟩
  | startSpanByParentPassOnContext c ev =>
    obtain ⟨t, ht, rfl⟩ := Option.map_eq_some_iff.mp hcall
    have hc := hv.contexts c havailable
    exact hv.withTracer (hv.tracer.startSpanByParent hc.1 ht) htrace hspan
  | startOrphanSpan ev =>
    obtain ⟨t, ht, rfl⟩ := Option.map_eq_some_iff.mp hcall
    obtain rfl := Tracer.startOrphanSpan_eq_some ht
    exact hv.withTracer (hv.tracer.allocate hv.tracer.traceId_pos ev.ts) htrace hspan
  | cloneShared span =>
    obtain rfl := Option.some.inj hcall
    exact hv.withTracer (hv.tracer.cloneShared span) htrace hspan
  | startSpanSetParentContext span c =>
    obtain ⟨t, ht, rfl⟩ := Option.map_eq_some_iff.mp hcall
    have hc := hv.contexts c havailable.2
    exact hv.withTracer (hv.tracer.startSpanSetParentContext havailable.1 hc.1 ht) htrace hspan
  | addParentLazily span c =>
    obtain ⟨t, ht, rfl⟩ := Option.map_eq_some_iff.mp hcall
    have hc := hv.contexts c havailable.2
    exact hv.withTracer (hv.tracer.addParentLazily havailable.1 hc.1 ht) htrace hspan
  | markSpanAsDone span =>
    obtain ⟨t, ht, rfl⟩ := Option.map_eq_some_iff.mp hcall
    have hnew := hv.withTracer (hv.tracer.markSpanAsDone ht) htrace hspan
    exact ⟨hnew.tracer, hnew.refs, hnew.contexts, hnew.started⟩

end Session

end Columbo
