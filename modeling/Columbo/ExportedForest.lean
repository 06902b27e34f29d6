import Columbo.OtlpExport

/-!
# The forest of the exported spans

A sequence of calls of `ExportSpan` goes through if every span comes once and after its parent,
and its events have attributes. What the SDK was told is then a copy of the forest: one span for
each call, in the context of its parent, and a tree stays in one trace.
-/
namespace Columbo

/-- What is written of a span. -/
def ExportedSpan.record (s : ExportedSpan) (timeOffsetNanosec : Int64) (tracer : Nat)
    (context : SpanContext) (parent : Option SpanContext) (events : List OtlpEvent) :
    OtlpSpan where
  tracer := tracer
  name := s.object.getType.text
  context := context
  parent := parent
  startSystemTime :=
    OtlpExporter.toNanoseconds timeOffsetNanosec s.object.toEventSpan.getStartingTs
  startSteadyTime :=
    OtlpExporter.toNanoseconds timeOffsetNanosec s.object.toEventSpan.getStartingTs
  attributes := s.setAttr
  events := events
  endSteadyTime :=
    some (OtlpExporter.toNanoseconds timeOffsetNanosec s.object.toEventSpan.getCompletionTs)

/-- Every event has attributes. -/
def ExportedSpan.Describable (s : ExportedSpan) : Prop :=
  ∀ ev ∈ s.object.toEventSpan.events, (OtlpSpanExporter.attributesOf ev).isSome = true

/-- Every span comes once and after its parent, and can be written. -/
structure Exportable (l : List ExportedSpan) : Prop where
  valid : ∀ s ∈ l, s.id ≠ 0 ∧ s.Describable
  nodup : (l.map ExportedSpan.id).Nodup
  parentFirst : ∀ before s after, l = before ++ s :: after → ∀ p, s.parentId = some p →
    p ∈ before.map ExportedSpan.id

theorem exportable_nil : Exportable [] :=
  ⟨fun _ hs => (by cases hs), List.nodup_nil, fun _ _ _ h => by simp at h⟩

theorem exportable_concat {l : List ExportedSpan} {s : ExportedSpan} :
    Exportable (l ++ [s]) ↔ Exportable l ∧ s.id ≠ 0 ∧ s.Describable ∧
      s.id ∉ l.map ExportedSpan.id ∧ ∀ p, s.parentId = some p → p ∈ l.map ExportedSpan.id := by
  constructor
  · intro h
    have hnodup := h.nodup
    rw [List.map_append, List.map_singleton, ← List.concat_eq_append, List.nodup_concat] at hnodup
    obtain ⟨hid, hdescribable⟩ := h.valid s (by simp)
    refine ⟨⟨fun x hx => h.valid x (by simp [hx]), hnodup.2, fun before x after heq => ?_⟩,
      hid, hdescribable, hnodup.1, h.parentFirst l s [] rfl⟩
    exact h.parentFirst before x (after ++ [s]) (by simp [heq])
  · rintro ⟨h, hid, hdescribable, hnew, hparent⟩
    refine ⟨fun x hx => ?_, ?_, fun before x after heq => ?_⟩
    · rcases List.mem_append.mp hx with hx | hx
      · exact h.valid x hx
      · exact List.mem_singleton.mp hx ▸ ⟨hid, hdescribable⟩
    · rw [List.map_append, List.map_singleton, ← List.concat_eq_append, List.nodup_concat]
      exact ⟨hnew, h.nodup⟩
    · rcases List.eq_nil_or_concat after with rfl | ⟨init, y, rfl⟩
      · obtain ⟨rfl, rfl⟩ : l = before ∧ s = x := by simpa using heq
        exact hparent
      · have hinit : l ++ [s] = (before ++ x :: init) ++ [y] := by simpa using heq
        exact h.parentFirst before x init (List.append_inj' hinit rfl).1

theorem Exportable.parentFirst_ids {l : List ExportedSpan} {parent : Nat → Option Nat}
    (hl : Exportable l)
    (hparent : ∀ s ∈ l, parent s.id = s.parentId) :
    Forest.ParentFirst parent (l.map ExportedSpan.id) := by
  intro before id after heq p hp
  obtain ⟨front, rest, rfl, rfl, hrest⟩ := List.map_eq_append_iff.mp heq
  obtain ⟨s, back, rfl, rfl, rfl⟩ := List.map_eq_cons_iff.mp hrest
  rw [hparent s (by simp)] at hp
  exact hl.parentFirst front s back rfl p hp

namespace OtlpExporter

variable {sdk : OtlpSdk} {e e' : OtlpExporter} {s : ExportedSpan} {l : List ExportedSpan}

/-- The exporter after a call. -/
def exported (e : OtlpExporter) (s : ExportedSpan) (parent : Option SpanContext) (tracer : Nat)
    (tracerMap : List Bytes) (context : SpanContext) (events : List OtlpEvent) : OtlpExporter :=
  { e with
    contextMap := Function.update e.contextMap s.id (some context)
    tracerMap := tracerMap
    started := e.started ++ [context]
    ended := e.ended ++ [s.record e.timeOffsetNanosec tracer context parent events] }

/-- The tracer was there, or it is created. -/
theorem getTracerLazy_cases {serviceName : Bytes} {tracer : Nat}
    (h : e.getTracerLazy sdk serviceName = some (tracer, e')) :
    e.tracerMap.idxOf? serviceName = some tracer ∧ e' = e ∨
      e.tracerMap.idxOf? serviceName = none ∧ tracer = e.tracerMap.length ∧
        e' = { e with tracerMap := e.tracerMap ++ [serviceName] } := by
  unfold getTracerLazy at h
  cases hname : e.tracerMap.idxOf? serviceName with
  | some found =>
    rw [hname] at h
    cases h
    exact .inl ⟨rfl, rfl⟩
  | none =>
    rw [hname] at h
    dsimp only at h
    split_ifs at h
    cases h
    exact .inr ⟨rfl, rfl, rfl⟩

theorem getTracerLazy_eq {serviceName : Bytes} {tracer : Nat}
    (h : e.getTracerLazy sdk serviceName = some (tracer, e')) :
    e' = { e with tracerMap := e'.tracerMap } := by
  obtain ⟨-, rfl⟩ | ⟨-, -, rfl⟩ := getTracerLazy_cases h
  · rfl
  · rfl

/-- A call starts a span, writes it and forgets it. -/
theorem exportSpan_eq (hspan : e.spanMap = fun _ => none) : e.exportSpan sdk s =
    (e.openContext s).bind fun parent =>
      (e.getTracerLazy sdk s.serviceName).bind fun found =>
        (sdk.startSpan e.started s.serviceName s.object.getType.text
            (startSpanOptions s e.timeOffsetNanosec parent)).bind fun context =>
          if s.id ≠ 0 ∧ e.contextMap s.id = none then
            (addEvents e.timeOffsetNanosec s.object.toEventSpan.events).map
              (e.exported s parent found.1 found.2.tracerMap context)
          else none := by
  have hupdate : ∀ span : Option OtlpSpan,
      Function.update (Function.update e.spanMap s.id span) s.id none = e.spanMap := by
    intro span
    rw [Function.update_idem, Function.update_eq_self_iff, hspan]
  have hinsert : (e.spanMap s.id).isNone = true := by rw [hspan]; rfl
  unfold exportSpan startSpan getSpanStartOpts exported
  cases e.openContext s with
  | none => rfl
  | some parent =>
    cases hfound : e.getTracerLazy sdk s.serviceName with
    | none => simp
    | some found =>
      obtain ⟨tracer, e₁⟩ := found
      obtain ⟨tracerMap, rfl⟩ : ∃ tracerMap, e₁ = { e with tracerMap := tracerMap } :=
        ⟨_, getTracerLazy_eq hfound⟩
      simp only [Option.map_some, Option.bind_eq_bind, Option.bind_some]
      cases sdk.startSpan e.started s.serviceName s.object.getType.text
          (startSpanOptions s e.timeOffsetNanosec parent) with
      | none => rfl
      | some context =>
        by_cases hnew : s.id ≠ 0 ∧ e.contextMap s.id = none
        · simp only [Option.bind_some, insertNewSpan, hinsert, insertNewContext, hnew, endSpan,
            Function.update_self, removeSpan, Option.isSome_some, if_true, hupdate, and_self,
            ne_eq, not_false_eq_true, Option.bind_eq_bind]
          cases addEvents e.timeOffsetNanosec s.object.toEventSpan.events with
          | none => rfl
          | some events => rfl
        · simp [insertNewSpan, hinsert, insertNewContext, hnew]

theorem isSome_addEvents {timeOffsetNanosec : Int64} {events : List Event} :
    (addEvents timeOffsetNanosec events).isSome = true ↔
      ∀ ev ∈ events, (OtlpSpanExporter.attributesOf ev).isSome = true := by
  induction events with
  | nil => simp [addEvents]
  | cons ev events ih =>
    have hcons : addEvents timeOffsetNanosec (ev :: events) =
        (addEvent timeOffsetNanosec ev).bind fun first =>
          (addEvents timeOffsetNanosec events).map (first :: ·) := by
      unfold addEvents
      rw [List.mapM_cons]
      cases addEvent timeOffsetNanosec ev with
      | none => rfl
      | some first => cases events.mapM (addEvent timeOffsetNanosec) <;> rfl
    have hfirst : (addEvent timeOffsetNanosec ev).isSome =
        (OtlpSpanExporter.attributesOf ev).isSome := Option.isSome_map
    rw [List.forall_mem_cons, hcons, ← ih, ← hfirst]
    cases addEvent timeOffsetNanosec ev <;> simp

/-- The span of the SDK is in the context of its parent, and in the trace of its parent. -/
def Inherits (e : OtlpExporter) (s : ExportedSpan) (context : SpanContext)
    (parent : Option SpanContext) : Prop :=
  match s.parentId with
  | none => parent = none
  | some p => ∃ c, e.contextMap p = some c ∧ parent = some c ∧ context.traceId = c.traceId

/-- The record of the call with this number. -/
structure Recorded (sdk : OtlpSdk) (e : OtlpExporter) (k : Nat) (s : ExportedSpan)
    (span : OtlpSpan) : Prop where
  context : e.contextMap s.id = some span.context
  returned : sdk.startSpan (e.started.take k) s.serviceName s.object.getType.text
    (startSpanOptions s e.timeOffsetNanosec span.parent) = some span.context
  inherits : e.Inherits s span.context span.parent
  tracer : e.tracerMap[span.tracer]? = some s.serviceName
  written : ∃ events, addEvents e.timeOffsetNanosec s.object.toEventSpan.events = some events ∧
    span = s.record e.timeOffsetNanosec span.tracer span.context span.parent events

/-- What the exporter holds after the calls. -/
structure Wrote (sdk : OtlpSdk) (timeOffsetNanosec : Int64) (l : List ExportedSpan)
    (e : OtlpExporter) : Prop where
  timeOffset : e.timeOffsetNanosec = timeOffsetNanosec
  spanMap : e.spanMap = fun _ => none
  tracers : e.tracerMap.Nodup
  started : e.started = e.ended.map OtlpSpan.context
  length : e.ended.length = l.length
  keys : ∀ id, (e.contextMap id).isSome = true ↔ id ∈ l.map ExportedSpan.id
  valid : ∀ id context, e.contextMap id = some context → context.IsValid
  records : ∀ k s, l[k]? = some s → ∃ span, e.ended[k]? = some span ∧ e.Recorded sdk k s span

theorem wrote_new (sdk : OtlpSdk) (timeOffsetNanosec : Int64) :
    Wrote sdk timeOffsetNanosec [] (.new timeOffsetNanosec) :=
  ⟨rfl, rfl, List.nodup_nil, rfl, rfl, fun _ => by simp [new], fun _ _ h => (by cases h),
    fun k s h => by simp at h⟩

/-- The tracers keep their numbers, and the one of the service has its number. -/
theorem getTracerLazy_spec {serviceName : Bytes} {tracer : Nat}
    (h : e.getTracerLazy sdk serviceName = some (tracer, e')) :
    e.tracerMap <+: e'.tracerMap ∧ e'.tracerMap[tracer]? = some serviceName ∧
      (e.tracerMap.Nodup → e'.tracerMap.Nodup) := by
  obtain ⟨hname, rfl⟩ | ⟨hname, rfl, rfl⟩ := getTracerLazy_cases h
  · obtain ⟨hlt, hat, -⟩ := List.idxOf?_eq_some_iff.mp hname
    refine ⟨List.prefix_rfl, ?_, id⟩
    rw [List.getElem?_eq_getElem hlt, hat]
  · have hnew : serviceName ∉ e.tracerMap := List.idxOf?_eq_none_iff.mp hname
    refine ⟨List.prefix_append _ _, by simp, fun hnodup => ?_⟩
    dsimp only
    rw [← List.concat_eq_append, List.nodup_concat]
    exact ⟨hnew, hnodup⟩

theorem isSome_getTracerLazy (hsdk : sdk.Documented) (e : OtlpExporter) (serviceName : Bytes) :
    (e.getTracerLazy sdk serviceName).isSome = true := by
  unfold getTracerLazy
  rw [hsdk.createTracer]
  split <;> rfl

variable {timeOffsetNanosec : Int64}

theorem Wrote.isSome_openContext (h : Wrote sdk timeOffsetNanosec l e)
    (hids : ∀ x ∈ l, x.id ≠ 0) :
    (e.openContext s).isSome = true ↔ ∀ p, s.parentId = some p → p ∈ l.map ExportedSpan.id := by
  unfold openContext getContext
  cases s.parentId with
  | none => simp
  | some p =>
    have hp : p ∈ l.map ExportedSpan.id → p ≠ 0 := by
      intro hp
      obtain ⟨x, hx, rfl⟩ := List.mem_map.mp hp
      exact hids x hx
    have hkeys := h.keys p
    by_cases hzero : p = 0
    · simpa [hzero] using fun hmem => hp (hzero ▸ hmem) hzero
    · simpa [hzero] using hkeys

/-- The next call goes through if its span is new and comes after its parent. -/
theorem Wrote.isSome_exportSpan (hsdk : sdk.Documented) (h : Wrote sdk timeOffsetNanosec l e)
    (hids : ∀ x ∈ l, x.id ≠ 0) : (e.exportSpan sdk s).isSome = true ↔
      s.id ≠ 0 ∧ s.Describable ∧ s.id ∉ l.map ExportedSpan.id ∧
        ∀ p, s.parentId = some p → p ∈ l.map ExportedSpan.id := by
  have hkey : e.contextMap s.id = none ↔ s.id ∉ l.map ExportedSpan.id := by
    rw [← h.keys s.id, Option.not_isSome_iff_eq_none]
  have hevents : (addEvents e.timeOffsetNanosec s.object.toEventSpan.events).isSome = true ↔
      s.Describable := isSome_addEvents
  obtain ⟨found, hfound⟩ := Option.isSome_iff_exists.mp
    (isSome_getTracerLazy hsdk e s.serviceName)
  rw [exportSpan_eq h.spanMap, ← h.isSome_openContext hids, ← hkey, ← hevents, hfound]
  cases e.openContext s with
  | none => simp
  | some parent =>
    obtain ⟨context, hcontext, -⟩ := hsdk.startSpan e.started s.serviceName
      s.object.getType.text (startSpanOptions s e.timeOffsetNanosec parent)
    simp only [Option.bind_some, hcontext]
    split_ifs with hnew
    · simp [hnew]
    · simp only [Option.isSome_none, Bool.false_eq_true, false_iff]
      exact fun hall => hnew ⟨hall.1, hall.2.2.1⟩

theorem Inherits.mono {context : SpanContext} {parent : Option SpanContext}
    (h : e.Inherits s context parent)
    (hcontexts : ∀ id c, e.contextMap id = some c → e'.contextMap id = some c) :
    e'.Inherits s context parent := by
  unfold Inherits at h ⊢
  cases hparent : s.parentId with
  | none => simpa only [hparent] using h
  | some p =>
    simp only [hparent] at h
    obtain ⟨c, hc, hrest⟩ := h
    exact ⟨c, hcontexts p c hc, hrest⟩

/-- Contexts and tracers that are there stay, so what was recorded stays right. -/
theorem Recorded.mono {k : Nat} {span : OtlpSpan} (h : e.Recorded sdk k s span)
    (hcontexts : ∀ id c, e.contextMap id = some c → e'.contextMap id = some c)
    (htracers : e.tracerMap <+: e'.tracerMap)
    (hstarted : e'.started.take k = e.started.take k)
    (hoffset : e'.timeOffsetNanosec = e.timeOffsetNanosec) : e'.Recorded sdk k s span where
  context := hcontexts _ _ h.context
  returned := by
    rw [hstarted, hoffset]
    exact h.returned
  inherits := h.inherits.mono hcontexts
  tracer := by
    obtain ⟨new, hnew⟩ := htracers
    rw [← hnew, List.getElem?_append_left (List.getElem?_eq_some_iff.mp h.tracer).1]
    exact h.tracer
  written := hoffset ▸ h.written

/-- The new span is in the context that the exporter has for its parent. -/
theorem Wrote.inherits (hsdk : sdk.Documented) (h : Wrote sdk timeOffsetNanosec l e)
    {parent : Option SpanContext} {context : SpanContext}
    (hparent : e.openContext s = some parent)
    (hcontext : sdk.startSpan e.started s.serviceName s.object.getType.text
      (startSpanOptions s e.timeOffsetNanosec parent) = some context) :
    e.Inherits s context parent := by
  unfold openContext at hparent
  unfold Inherits
  cases hp : s.parentId with
  | none =>
    rw [hp] at hparent
    exact (Option.some.inj hparent).symm
  | some p =>
    rw [hp] at hparent
    obtain ⟨c, hc, rfl⟩ := Option.map_eq_some_iff.mp hparent
    unfold getContext at hc
    split_ifs at hc
    exact ⟨c, hc, rfl, hsdk.parent _ _ _ _ _ c hcontext rfl (h.valid p c hc)⟩

theorem Wrote.exportSpan (hsdk : sdk.Documented) (h : Wrote sdk timeOffsetNanosec l e)
    (hexport : e.exportSpan sdk s = some e') : Wrote sdk timeOffsetNanosec (l ++ [s]) e' := by
  rw [exportSpan_eq h.spanMap] at hexport
  obtain ⟨parent, hparent, hexport⟩ := Option.bind_eq_some_iff.mp hexport
  obtain ⟨⟨tracer, found⟩, hfound, hexport⟩ := Option.bind_eq_some_iff.mp hexport
  obtain ⟨context, hcontext, hexport⟩ := Option.bind_eq_some_iff.mp hexport
  split_ifs at hexport with hnew
  obtain ⟨events, hevents, rfl⟩ := Option.map_eq_some_iff.mp hexport
  obtain ⟨hkept, htracer, hnodup⟩ := getTracerLazy_spec hfound
  have hlength : e.started.length = l.length := by
    rw [h.started, List.length_map, h.length]
  have hcontexts : ∀ id c, e.contextMap id = some c →
      (e.exported s parent tracer found.tracerMap context events).contextMap id = some c := by
    intro id c hc
    have hne : id ≠ s.id := by
      rintro rfl
      cases hnew.2.symm.trans hc
    exact (Function.update_of_ne hne _ _).trans hc
  have htake : ∀ k, k ≤ l.length → (e.started ++ [context]).take k = e.started.take k :=
    fun k hk => List.take_append_of_le_length (hlength ▸ hk)
  refine ⟨h.timeOffset, h.spanMap, hnodup h.tracers, ?_, ?_, fun id => ?_, fun id c hc => ?_,
    fun k x hx => ?_⟩
  · simp [exported, h.started, ExportedSpan.record]
  · simp [exported, h.length]
  · have hkeys := h.keys id
    by_cases hid : id = s.id
    · simp [exported, hid]
    · simp [exported, hid, hkeys]
  · by_cases hid : id = s.id
    · subst hid
      obtain ⟨context', hcontext', hvalid⟩ := hsdk.startSpan e.started s.serviceName
        s.object.getType.text (startSpanOptions s e.timeOffsetNanosec parent)
      obtain rfl := Option.some.inj (hcontext.symm.trans hcontext')
      have hself : (Function.update e.contextMap s.id (some context)) s.id = some context :=
        Function.update_self _ _ _
      obtain rfl := Option.some.inj (hself.symm.trans hc)
      exact hvalid
    · exact h.valid id c ((Function.update_of_ne hid _ _).symm.trans hc)
  · rcases Nat.lt_or_ge k l.length with hk | hk
    · rw [List.getElem?_append_left hk] at hx
      obtain ⟨span, hspan, hrecorded⟩ := h.records k x hx
      have hlt : k < e.ended.length := h.length ▸ hk
      refine ⟨span, (List.getElem?_append_left hlt).trans hspan, ?_⟩
      exact hrecorded.mono hcontexts hkept (htake k hk.le) rfl
    · obtain ⟨rfl, rfl⟩ : k = l.length ∧ s = x := by
        rw [List.getElem?_append_right hk] at hx
        obtain ⟨hzero, hs⟩ := List.getElem?_eq_some_iff.mp hx
        rw [List.length_singleton] at hzero
        exact ⟨by omega, by simpa using hs⟩
      have hall : (e.started ++ [context]).take l.length = e.started := by
        rw [htake _ le_rfl, ← hlength, List.take_length]
      refine ⟨s.record e.timeOffsetNanosec tracer context parent events, ?_,
        Function.update_self _ _ _, ?_, ?_, htracer, ⟨events, hevents, rfl⟩⟩
      · rw [← h.length]
        exact List.getElem?_concat_length
      · exact (congrArg (sdk.startSpan · _ _ _) hall).trans hcontext
      · exact (h.inherits hsdk hparent hcontext).mono hcontexts

/-- `ExportSpan` of one span after the other. -/
def exportSpans (sdk : OtlpSdk) (e : OtlpExporter) (l : List ExportedSpan) :
    Option OtlpExporter :=
  l.foldlM (fun e s => e.exportSpan sdk s) e

theorem exportSpans_append (l l' : List ExportedSpan) :
    e.exportSpans sdk (l ++ l') = (e.exportSpans sdk l).bind fun e => e.exportSpans sdk l' :=
  List.foldlM_append

theorem exportSpans_singleton : e.exportSpans sdk [s] = e.exportSpan sdk s := by
  unfold exportSpans
  cases h : e.exportSpan sdk s <;> simp [h]

theorem exportSpans_concat : e.exportSpans sdk (l ++ [s]) =
    (e.exportSpans sdk l).bind fun e => e.exportSpan sdk s := by
  simp only [exportSpans_append, exportSpans_singleton]

/-- The calls go through exactly if the spans are exportable. -/
theorem exportSpans_spec (hsdk : sdk.Documented) (timeOffsetNanosec : Int64)
    (l : List ExportedSpan) :
    (((new timeOffsetNanosec).exportSpans sdk l).isSome = true ↔ Exportable l) ∧
      ∀ e, (new timeOffsetNanosec).exportSpans sdk l = some e →
        Wrote sdk timeOffsetNanosec l e := by
  induction l using List.reverseRecOn with
  | nil =>
    refine ⟨iff_of_true rfl exportable_nil, fun e he => ?_⟩
    obtain rfl := Option.some.inj he
    exact wrote_new sdk timeOffsetNanosec
  | append_singleton l s ih =>
    obtain ⟨hiff, hwrote⟩ := ih
    rw [exportSpans_concat, exportable_concat, ← hiff]
    cases hl : (new timeOffsetNanosec).exportSpans sdk l with
    | none => simp
    | some e₁ =>
      have hw := hwrote e₁ hl
      have hids : ∀ x ∈ l, x.id ≠ 0 := fun x hx =>
        ((hiff.mp (by simp [hl])).valid x hx).1
      refine ⟨?_, fun e he => hw.exportSpan hsdk he⟩
      rw [Option.bind_some, hw.isSome_exportSpan hsdk hids]
      simp

/-- The SDK got a span for each call, in its order: in the context of its parent, and in the same
trace as the other spans of its tree; and none is left open. -/
structure Mirrors (sdk : OtlpSdk) (parent : Nat → Option Nat) (l : List ExportedSpan)
    (e : OtlpExporter) : Prop where
  spanMap : e.spanMap = fun _ => none
  started : e.started = e.ended.map OtlpSpan.context
  length : e.ended.length = l.length
  records : ∀ k s, l[k]? = some s → ∃ span, e.ended[k]? = some span ∧ e.Recorded sdk k s span
  trace : ∀ (k k' : Nat) (s s' : ExportedSpan) (span span' : OtlpSpan) (r : Nat),
    l[k]? = some s → l[k']? = some s' → e.ended[k]? = some span → e.ended[k']? = some span' →
      Forest.RootOf parent s.id r → Forest.RootOf parent s'.id r →
        span.context.traceId = span'.context.traceId

/-- The trace in which a span was started. -/
def traceOf (e : OtlpExporter) (id : Nat) : Option Nat := (e.contextMap id).map SpanContext.traceId

/-- A span is in the trace of its parent. -/
theorem Wrote.traceOf_parent (h : Wrote sdk timeOffsetNanosec l e) (hs : s ∈ l) {p : Nat}
    (hp : s.parentId = some p) : e.traceOf s.id = e.traceOf p := by
  obtain ⟨k, hk⟩ := List.getElem?_of_mem hs
  obtain ⟨span, -, hrecorded⟩ := h.records k s hk
  have hinherits := hrecorded.inherits
  unfold Inherits at hinherits
  rw [hp] at hinherits
  obtain ⟨c, hc, -, htrace⟩ := hinherits
  simp [traceOf, hrecorded.context, hc, htrace]

theorem Wrote.mirrors {parent : Nat → Option Nat} (h : Wrote sdk timeOffsetNanosec l e)
    (hl : Exportable l) (hparent : ∀ s ∈ l, parent s.id = s.parentId) :
    Mirrors sdk parent l e := by
  have hroot : ∀ {k : Nat} {s span r}, l[k]? = some s → e.ended[k]? = some span →
      Forest.RootOf parent s.id r → some span.context.traceId = e.traceOf r := by
    intro k s span r hs hspan hr
    obtain ⟨span', hspan', hrecorded⟩ := h.records k s hs
    obtain rfl := Option.some.inj (hspan.symm.trans hspan')
    have hlabel : e.traceOf s.id = e.traceOf r := by
      refine (hl.parentFirst_ids hparent).label_root (fun id hid p hp => ?_)
        (List.mem_map.mpr ⟨s, List.mem_of_getElem? hs, rfl⟩) hr
      obtain ⟨x, hx, rfl⟩ := List.mem_map.mp hid
      exact h.traceOf_parent hx (hparent x hx ▸ hp)
    rw [← hlabel, traceOf, hrecorded.context, Option.map_some]
  refine ⟨h.spanMap, h.started, h.length, h.records, ?_⟩
  intro k k' s s' span span' r hs hs' hspan hspan' hr hr'
  exact Option.some.inj ((hroot hs hspan hr).trans (hroot hs' hspan' hr').symm)

/-- The parent of a span of the list. -/
def parentIn (l : List ExportedSpan) (id : Nat) : Option Nat :=
  (l.find? fun s => s.id = id).bind ExportedSpan.parentId

theorem parentIn_of_mem (hnodup : (l.map ExportedSpan.id).Nodup) (hs : s ∈ l) :
    parentIn l s.id = s.parentId := by
  unfold parentIn
  cases hfind : l.find? fun x => x.id = s.id with
  | none =>
    have hnone := List.find?_eq_none.mp hfind s hs
    simp at hnone
  | some x =>
    have hid : x.id = s.id := by simpa using List.find?_some hfind
    obtain rfl := List.inj_on_of_nodup_map hnodup (List.mem_of_find?_eq_some hfind) hs hid
    rfl

/-- Any calls of `ExportSpan` go through exactly if every span is new, comes after its parent and
has events that can be described; and then the SDK has a copy of the forest. -/
theorem copies_forest (hsdk : sdk.Documented) (timeOffsetNanosec : Int64)
    (l : List ExportedSpan) :
    (((new timeOffsetNanosec).exportSpans sdk l).isSome = true ↔ Exportable l) ∧
      ∀ e, (new timeOffsetNanosec).exportSpans sdk l = some e →
        e.timeOffsetNanosec = timeOffsetNanosec ∧ Mirrors sdk (parentIn l) l e := by
  obtain ⟨hiff, hwrote⟩ := exportSpans_spec hsdk timeOffsetNanosec l
  refine ⟨hiff, fun e he => ⟨(hwrote e he).timeOffset, ?_⟩⟩
  have hl : Exportable l := hiff.mp (by simp [he])
  exact (hwrote e he).mirrors hl fun s hs => parentIn_of_mem hl.nodup hs

end OtlpExporter

/-- An SDK that counts its spans, and starts a trace for each span without a valid parent. -/
def OtlpSdk.counting : OtlpSdk where
  createTracer _ _ := true
  startSpan started _ _ options :=
    let number := started.length + 1
    match options.parent with
    | some parent => some ⟨if parent.traceId = 0 then number else parent.traceId, number⟩
    | none => some ⟨number, number⟩

theorem OtlpSdk.documented_counting : counting.Documented where
  createTracer _ _ := rfl
  startSpan started serviceName name options := by
    obtain ⟨_ | parent, _, _⟩ := options
    · exact ⟨_, rfl, Nat.succ_ne_zero _, Nat.succ_ne_zero _⟩
    · refine ⟨_, rfl, ?_, Nat.succ_ne_zero _⟩
      dsimp only
      split_ifs with hzero
      · exact Nat.succ_ne_zero _
      · exact hzero
  parent started serviceName name options context parent h hparent hvalid := by
    obtain ⟨_, _, _⟩ := options
    obtain rfl := hparent
    obtain rfl := Option.some.inj h
    exact if_neg hvalid.1

namespace OtlpExporter

/-- A read of the host, and what the NIC does for it. -/
def readOfHost : List ExportedSpan :=
  let issue : Event := ⟨1000, 0, [], .hostMmioR 7 4096 4 0 0⟩
  let read : Event := ⟨2000, 1, [], .nicMmioR 0 4 1⟩
  let completion : Event := ⟨3000, 0, [], .hostMmioCR 7⟩
  [⟨1, 0, bytes "host", 1, none, .hostMmio
      { events := [issue, completion], isPending := false, hostMmioIssue := some issue,
        isRead := true, barNumber := 0, completion := some completion }⟩,
    ⟨2, 1, bytes "nic", 1, some 1, .nicMmio
      { events := [read], isPending := false, action := some read, isRead := true }⟩]

/-- The span of the NIC is in the trace of the one of the host. -/
theorem copies_forest_read :
    (((new 5).exportSpans .counting readOfHost).isSome = true ↔ Exportable readOfHost) ∧
      ∃ e, (new 5).exportSpans .counting readOfHost = some e ∧
        e.ended.map OtlpSpan.context = [⟨1, 1⟩, ⟨1, 2⟩] ∧
        Mirrors .counting (parentIn readOfHost) readOfHost e := by
  have hrun : (((new 5).exportSpans .counting readOfHost).map fun e =>
      e.ended.map OtlpSpan.context) = some [⟨1, 1⟩, ⟨1, 2⟩] := by
    decide +kernel
  obtain ⟨e, he, hended⟩ := Option.map_eq_some_iff.mp hrun
  obtain ⟨hiff, hcopy⟩ := copies_forest OtlpSdk.documented_counting 5 readOfHost
  exact ⟨hiff, e, he, hended, (hcopy e he).2⟩

end OtlpExporter

end Columbo
