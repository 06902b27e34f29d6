import Columbo.ExportedForest
import Columbo.TracedTransactions

/-!
# The exporter of a running system

The tracer calls the exporter while the spanners go on. The spans wait as they were handed over,
and are written as the tracer has them when their parents were exported. No call of the exporter
throws, and what the SDK was told is the forest of the tracer.
-/
namespace Columbo

open Coroutine

namespace Tracer

variable {t t' : Tracer} {span : Nat}

theorem exported_exportSpan (h : t.exportSpan span = some t') :
    t.exporter.exported <+: t'.exporter.exported := by
  obtain ⟨e, he, rfl⟩ := Option.map_eq_some_iff.mp h
  obtain ⟨e₁, hstart, he⟩ := Option.bind_eq_some_iff.mp he
  obtain ⟨e₂, hend, he⟩ := Option.bind_eq_some_iff.mp he
  obtain rfl := Option.some.inj he
  have hopts : ∀ {e₀ p}, t.exporter.getSpanStartOpts p = some e₀ → e₀ = t.exporter := by
    intro e₀ p hp
    cases p with
    | none => exact (Option.some.inj hp).symm
    | some p =>
      unfold OtlpSpanExporter.getSpanStartOpts OtlpSpanExporter.getContext at hp
      dsimp only at hp
      split_ifs at hp
      exact (Option.some.inj hp).symm
  obtain ⟨e₀, hp, hstart⟩ := Option.bind_eq_some_iff.mp hstart
  obtain rfl := hopts hp
  obtain ⟨e₃, hinsert, hcontext⟩ := Option.bind_eq_some_iff.mp hstart
  unfold OtlpSpanExporter.insertNewSpan at hinsert
  unfold OtlpSpanExporter.insertNewContext at hcontext
  unfold OtlpSpanExporter.endSpan OtlpSpanExporter.removeSpan at hend
  split_ifs at hinsert hcontext hend
  cases hinsert
  cases hcontext
  cases hend
  exact List.prefix_append _ _

theorem exported_exportWaitingForParentVec {fuel : Nat}
    (h : exportWaitingForParentVec fuel t span = some t') :
    t.exporter.exported <+: t'.exporter.exported := by
  induction fuel generalizing t t' span with
  | zero => cases h
  | succ fuel ih =>
    unfold exportWaitingForParentVec at h
    cases hbucket : t.waitingList span with
    | none =>
      rw [hbucket] at h
      obtain rfl := Option.some.inj h
      exact List.prefix_rfl
    | some waiters =>
      rw [hbucket] at h
      obtain ⟨t₁, hloop, herase⟩ := Option.bind_eq_some_iff.mp h
      obtain rfl := Option.some.inj herase
      refine Transition.foldlM_partial
        (fun _ u => t.exporter.exported <+: u.exporter.exported) ?_ List.prefix_rfl hloop
      intro waiter rest u u' hu hround
      obtain ⟨parentId, -, hround⟩ := Option.bind_eq_some_iff.mp hround
      split_ifs at hround
      obtain ⟨u₁, hmark, hexports⟩ := Option.bind_eq_some_iff.mp hround
      obtain ⟨u₂, hexport, hrest⟩ := Option.bind_eq_some_iff.mp hexports
      have hone := exported_exportSpan hexport
      rw [markSpanAsExported_eq_some hmark] at hone
      exact (hu.trans hone).trans (ih hrest)

theorem exported_markSpanAsDone (h : t.markSpanAsDone span = some t') :
    t.exporter.exported <+: t'.exporter.exported := by
  unfold markSpanAsDone at h
  dsimp only at h
  split_ifs at h
  · obtain ⟨t₁, hmark, hexports⟩ := Option.bind_eq_some_iff.mp h
    obtain ⟨t₂, hexport, hcascade⟩ := Option.bind_eq_some_iff.mp hexports
    obtain ⟨t₃, hwaiting, hend⟩ := Option.bind_eq_some_iff.mp hcascade
    have hone := exported_exportSpan hexport
    rw [markSpanAsExported_eq_some hmark] at hone
    have hgrown := hone.trans (exported_exportWaitingForParentVec hwaiting)
    split_ifs at hend
    · rw [removeTrace_eq_some hend]
      exact hgrown
    · exact Option.some.inj hend ▸ hgrown
  · obtain rfl := Option.some.inj h
    cases hparent : t.parentOf span with
    | none =>
      unfold markSpanAsWaitingForParent
      rw [hparent]
    | some parentId =>
      rw [markSpanAsWaitingForParent_eq hparent]

end Tracer

/-- More spans are exported, and those that were keep their parents. -/
structure Grows (t t' : Tracer) : Prop where
  exported : t.exporter.exported <+: t'.exporter.exported
  parentOf : ∀ s ∈ t.exporter.exported, t'.parentOf s = t.parentOf s

theorem Session.grows_call {st st' : Session} {call : TracerCall} (h : st.Ledger)
    (hdone : st.DoneOnce call) (hcall : st.call call = some st') :
    Grows st.tracer st'.tracer := by
  by_cases hmark : ∃ span, call = .markSpanAsDone span
  · obtain ⟨span, rfl⟩ := hmark
    obtain ⟨t', ht, rfl⟩ := Option.map_eq_some_iff.mp hcall
    refine ⟨Tracer.exported_markSpanAsDone ht, fun s _ => ?_⟩
    obtain ⟨t₁, hsame, rfl | rfl⟩ := Tracer.markSpanAsDone_heap ht
    · exact congrFun hsame.parentOf s
    · exact congrFun hsame.parentOf s
  · have hsame := sameExports_call h hdone (fun span heq => hmark ⟨span, heq⟩) hcall
    refine ⟨hsame.exporter ▸ List.prefix_rfl, fun s hs => hsame.parentOf s ?_⟩
    exact (h.done_iff s).mpr (.inl ((h.log.mem_iff s).mpr hs))

theorem Stands.grows {ι : Type} {w w' : World} {h : ι → Log} {c : Command} {r : c.Response}
    {st : Session} (hst : Stands w h st) (hsp : Spanned w h) {i : ι} (hsafe : safe (h i) c)
    (hexec : w.exec c = some (r, w')) : Grows w.tracer w'.tracer := by
  obtain ⟨st', hcalled⟩ := World.exec_called hst.tracer hexec
  rw [← hst.tracer, ← hcalled.tracer]
  obtain ⟨-, rfl⟩ | ⟨call, hcall, hsession⟩ := hcalled.call
  · exact ⟨List.prefix_rfl, fun _ _ => rfl⟩
  · exact Session.grows_call hst.rooting.ledger (hst.allowed hsp hsafe hcall).2.1 hsession

/-- Spanners with a tracer and its exporter, and the spans that were handed over: the service
names and the objects. -/
structure ExportingSystem (ι : Type) where
  system : SystemState ι
  handedOver : Nat → Option (Bytes × SpanObject)
  exporter : OtlpExporter

namespace ExportingSystem

variable {ι : Type} [DecidableEq ι]

/-- A span that is handed over is kept as it is. -/
def handOver (serviceName : Bytes) (handedOver : Nat → Option (Bytes × SpanObject)) :
    Command → Nat → Option (Bytes × SpanObject)
  | .markSpanAsDone span object => Function.update handedOver span (some (serviceName, object))
  | _ => handedOver

/-- A spanner starts its spans with the parser of their first event. -/
def sourceId (object : SpanObject) : UInt64 :=
  match object.toEventSpan.events with
  | [] => 0
  | first :: _ => first.parserIdentifier

/-- The span as it is now. -/
def exportedSpan (t : Tracer) (handedOver : Nat → Option (Bytes × SpanObject)) (span : Nat) :
    Option ExportedSpan :=
  (handedOver span).map fun (serviceName, object) =>
    ⟨span, sourceId object, serviceName, t.traceIdOf span, t.parentOf span, object⟩

/-- `ExportSpan` of the spans, one after the other. -/
def exportIds (sdk : OtlpSdk) (t : Tracer) (handedOver : Nat → Option (Bytes × SpanObject))
    (e : OtlpExporter) (ids : List Nat) : Option OtlpExporter :=
  ids.foldlM (fun e id => (exportedSpan t handedOver id).bind (e.exportSpan sdk)) e

/-- A spanner performs its next operation. The tracer does not touch spans and contexts while it
exports, so the exporter gets them as they are afterwards. -/
def step (sdk : OtlpSdk) (serviceName : ι → Bytes) (s : ExportingSystem ι) (i : ι) :
    Option (ExportingSystem ι) :=
  match s.system.program i with
  | .pure _ => none
  | .act c _ => do
    let system ← s.system.step (.act i)
    let handedOver := handOver (serviceName i) s.handedOver c
    let exported := system.world.tracer.exporter.exported
    let new := exported.drop s.system.world.tracer.exporter.exported.length
    let exporter ← exportIds sdk system.world.tracer handedOver s.exporter new
    pure ⟨system, handedOver, exporter⟩

def start (env : TraceEnvironment) (rounds : Nat) (setup : ι → Setup)
    (timeOffsetNanosec : Int64) : ExportingSystem ι :=
  ⟨.start env rounds setup World.init, fun _ => none, .new timeOffsetNanosec⟩

variable {sdk : OtlpSdk} {timeOffsetNanosec : Int64} {serviceName : ι → Bytes}
  {env : TraceEnvironment} {rounds : Nat} {setup : ι → Setup} {s : ExportingSystem ι}
  {t : SystemState ι} {i : ι}

theorem exists_spans {view : Nat → Option ExportedSpan}
    (hid : ∀ {id x}, view id = some x → x.id = id) {ids : List Nat}
    (h : ∀ id ∈ ids, ∃ x, view id = some x) :
    ∃ l : List ExportedSpan, l.map ExportedSpan.id = ids ∧ ∀ x ∈ l, view x.id = some x := by
  induction ids with
  | nil => exact ⟨[], rfl, fun _ hx => by cases hx⟩
  | cons id ids ih =>
    obtain ⟨x, hx⟩ := h id List.mem_cons_self
    obtain ⟨l, rfl, hl⟩ := ih fun id' hid' => h id' (List.mem_cons_of_mem _ hid')
    obtain rfl := hid hx
    exact ⟨x :: l, rfl, List.forall_mem_cons.mpr ⟨hx, hl⟩⟩

theorem exportIds_eq {t : Tracer} {handedOver : Nat → Option (Bytes × SpanObject)}
    {e : OtlpExporter} {l : List ExportedSpan}
    (h : ∀ x ∈ l, exportedSpan t handedOver x.id = some x) :
    exportIds sdk t handedOver e (l.map ExportedSpan.id) = e.exportSpans sdk l := by
  unfold exportIds OtlpExporter.exportSpans
  induction l generalizing e with
  | nil => rfl
  | cons x l ih =>
    obtain ⟨hx, hl⟩ := List.forall_mem_cons.mp h
    rw [List.map_cons, List.foldlM_cons, List.foldlM_cons, hx, Option.bind_some]
    cases e.exportSpan sdk x with
    | none => rfl
    | some e => exact ih hl

/-- What was written is what the spanners handed over, under the parent that the tracer has. -/
structure Shows (s : ExportingSystem ι) (x : ExportedSpan) : Prop where
  handedOver : s.handedOver x.id = some (x.serviceName, x.object)
  parentId : x.parentId = s.system.world.tracer.parentOf x.id
  sourceId : x.sourceId = sourceId x.object

/-- The exporter was called for the exported spans, in their order. -/
structure Attached (sdk : OtlpSdk) (timeOffsetNanosec : Int64) (serviceName : ι → Bytes)
    (s : ExportingSystem ι) : Prop where
  handedOver : ∀ span name object, s.handedOver span = some (name, object) ↔
    ∃ i, name = serviceName i ∧ (span, object) ∈ Log.marked (s.system.history i)
  exports : ∃ l, (OtlpExporter.new timeOffsetNanosec).exportSpans sdk l = some s.exporter ∧
    l.map ExportedSpan.id = s.system.world.tracer.exporter.exported ∧ ∀ x ∈ l, s.Shows x

omit [DecidableEq ι] in
theorem attached_start : Attached sdk timeOffsetNanosec serviceName
    (start env rounds setup timeOffsetNanosec) where
  handedOver span name object :=
    iff_of_false (fun h => by cases h) (by rintro ⟨i, -, h⟩; cases h)
  exports := ⟨[], rfl, rfl, fun _ hx => by cases hx⟩

/-- The states of the spanners that are reached without the outside. -/
abbrev Runs (env : TraceEnvironment) (rounds : Nat) (setup : ι → Setup) (t : SystemState ι) :
    Prop :=
  Transition.Reachable SystemState.step (fun _ move => ∃ i, move = .act i)
    (SystemState.start env rounds setup World.init) t

/-- Every call that is handled has its names. -/
def NamesCalls (setup : ι → Setup) : Prop :=
  ∀ i, ∀ ev ∈ (setup i).offered, ∀ pc func comp,
    ev.kind = .hostCall pc func comp → func.isSome ∧ comp.isSome

/-- What is handed over can be described, if the calls have their names. -/
theorem attributes_of_marked (hnamed : NamesCalls setup)
    (ht : Runs env rounds setup t) {span : Nat} {object : SpanObject}
    (hmarked : (span, object) ∈ Log.marked (t.history i)) :
    ∀ ev ∈ object.toEventSpan.events, (OtlpSpanExporter.attributesOf ev).isSome = true := by
  intro ev hev
  have haccounted := SystemState.accounted ht i
  obtain ⟨-, hevents, hword⟩ := haccounted.handedOver _ hmarked
  have hused : ev ∈ Log.used (t.history i) :=
    (Log.eventsOf_sublist_used _ _).subset (hevents ▸ hev)
  exact isSome_attributesOf (hword.not_unexpected hev) (hnamed i ev (haccounted.used.subset hused))

/-- The operation that a step is, and what it adds to the histories. -/
theorem step_cases {s t : SystemState ι} (ht : s.step (.act i) = some t) : ∃ c k r,
    s.program i = .act c k ∧ s.world.exec c = some (r, t.world) ∧
      ∀ j, Log.marked (t.history j) =
        Log.marked (s.history j) ++ if j = i then Log.marked [⟨c, r⟩] else [] := by
  unfold SystemState.step Coroutine.step at ht
  dsimp only at ht
  cases hprogram : s.program i with
  | pure u => simp [hprogram] at ht
  | act c k =>
    rw [hprogram] at ht
    obtain ⟨⟨r, w⟩, hexec, rfl⟩ := Option.map_eq_some_iff.mp ht
    refine ⟨c, k, r, rfl, hexec, fun j => ?_⟩
    by_cases hj : j = i
    · subst hj
      simp
    · simp [hj]

/-- A span that is handed over is handed over once, so the map has all of them. -/
theorem handOver_iff {c : Command} {r : c.Response} (hreached : Runs env rounds setup t)
    (h : Attached sdk timeOffsetNanosec serviceName s)
    (hlog : ∀ j, Log.marked (t.history j) =
      Log.marked (s.system.history j) ++ if j = i then Log.marked [⟨c, r⟩] else [])
    (span : Nat) (name : Bytes) (object : SpanObject) :
    handOver (serviceName i) s.handedOver c span = some (name, object) ↔
      ∃ j, name = serviceName j ∧ (span, object) ∈ Log.marked (t.history j) := by
  have hother : Log.marked [⟨c, r⟩] = [] → handOver (serviceName i) s.handedOver c = s.handedOver →
      (handOver (serviceName i) s.handedOver c span = some (name, object) ↔
        ∃ j, name = serviceName j ∧ (span, object) ∈ Log.marked (t.history j)) := by
    intro hmark hkept
    rw [hkept, h.handedOver]
    simp only [hlog, hmark, ite_self, List.append_nil]
  cases c with
  | markSpanAsDone done content =>
    have hnew : (done, content) ∈ Log.marked (t.history i) := by
      rw [hlog, if_pos rfl]
      exact List.mem_append_right _ List.mem_cons_self
    change Function.update s.handedOver done (some (serviceName i, content)) span = _ ↔ _
    by_cases hspan : span = done
    · subst hspan
      rw [Function.update_self, Option.some_inj, Prod.mk.injEq]
      constructor
      · rintro ⟨rfl, rfl⟩
        exact ⟨i, rfl, hnew⟩
      · rintro ⟨j, rfl, hj⟩
        obtain ⟨rfl, rfl⟩ := SystemState.marked_unique hreached hnew hj
        exact ⟨rfl, rfl⟩
    · rw [Function.update_of_ne hspan, h.handedOver]
      refine exists_congr fun j => and_congr_right fun _ => ?_
      rw [hlog, List.mem_append]
      refine (or_iff_left ?_).symm
      split_ifs
      · simp [Log.marked, hspan]
      · exact List.not_mem_nil
  | _ => exact hother rfl rfl

theorem step_system {s' : ExportingSystem ι} (h : step sdk serviceName s i = some s') :
    ∃ t, s.system.step (.act i) = some t := by
  unfold ExportingSystem.step at h
  cases hprogram : s.system.program i with
  | pure u => simp [hprogram] at h
  | act c k =>
    rw [hprogram] at h
    obtain ⟨t, ht, -⟩ := Option.bind_eq_some_iff.mp h
    exact ⟨t, ht⟩

/-- The exporter goes along with every operation of a spanner. -/
theorem Attached.step (hsdk : sdk.Documented) (hnamed : NamesCalls setup)
    (hreached : Runs env rounds setup s.system) (h : Attached sdk timeOffsetNanosec serviceName s)
    (ht : s.system.step (.act i) = some t) :
    ∃ s', step sdk serviceName s i = some s' ∧ s'.system = t ∧
      Attached sdk timeOffsetNanosec serviceName s' := by
  have hreached' : Runs env rounds setup t := hreached.tail ⟨i, rfl⟩ ht
  obtain ⟨st, hst, hsp, hkeeps⟩ := SystemState.stands hreached
  obtain ⟨st', hst', hsp', -⟩ := SystemState.stands hreached'
  have hexports := hst'.exports hsp'
  obtain ⟨c, k, r, hprogram, hexec, hmarks⟩ := step_cases ht
  have hgrows : Grows s.system.world.tracer t.world.tracer := by
    have hi := hkeeps i
    rw [hprogram] at hi
    exact hst.grows hsp hi.1 hexec
  obtain ⟨new, hnew⟩ := hgrows.exported
  have hiff := handOver_iff hreached' h hmarks
  have hgiven : ∀ id ∈ t.world.tracer.exporter.exported, ∃ x,
      exportedSpan t.world.tracer (handOver (serviceName i) s.handedOver c) id = some x := by
    intro id hid
    obtain ⟨j, object, hmarked, -⟩ := hexports.complete id hid
    have hgiven := (hiff id (serviceName j) object).mpr ⟨j, rfl, hmarked⟩
    exact ⟨_, congrArg (Option.map _) hgiven⟩
  have hid : ∀ {id x}, exportedSpan t.world.tracer
      (handOver (serviceName i) s.handedOver c) id = some x → x.id = id := by
    intro id x hx
    obtain ⟨given, -, rfl⟩ := Option.map_eq_some_iff.mp hx
    rfl
  obtain ⟨l', hl', hviews⟩ := exists_spans hid fun id hmem =>
    hgiven id (hnew ▸ List.mem_append_right _ hmem)
  obtain ⟨l, hexported, hl, hshows⟩ := h.exports
  have hids : (l ++ l').map ExportedSpan.id = t.world.tracer.exporter.exported := by
    rw [List.map_append, hl, hl', hnew]
  have hshows' : ∀ x ∈ l ++ l', handOver (serviceName i) s.handedOver c x.id =
      some (x.serviceName, x.object) ∧ x.parentId = t.world.tracer.parentOf x.id ∧
        x.sourceId = sourceId x.object := by
    intro x hx
    rcases List.mem_append.mp hx with hx | hx
    · obtain ⟨hgiven, hparent, hsource⟩ := hshows x hx
      refine ⟨?_, ?_, hsource⟩
      · obtain ⟨j, hname, hmarked⟩ := (h.handedOver _ _ _).mp hgiven
        exact (hiff _ _ _).mpr ⟨j, hname, hmarks j ▸ List.mem_append_left _ hmarked⟩
      · rw [hgrows.parentOf x.id (hl ▸ List.mem_map.mpr ⟨x, hx, rfl⟩)]
        exact hparent
    · obtain ⟨⟨name, object⟩, hgiven, heq⟩ := Option.map_eq_some_iff.mp (hviews x hx)
      rw [← heq]
      exact ⟨hgiven, rfl, rfl⟩
  have hlog := hst'.rooting.ledger.log
  rw [hst'.tracer] at hlog
  have hexportable : Exportable (l ++ l') := by
    refine ⟨fun x hx => ⟨?_, ?_⟩, ?_, fun before x after heq p hp => ?_⟩
    · have hmem : x.id ∈ t.world.tracer.exporter.exported := hids ▸ List.mem_map.mpr ⟨x, hx, rfl⟩
      exact (hlog.isSpan _ ((hlog.mem_iff _).mpr hmem)).1.ne'
    · obtain ⟨j, -, hmarked⟩ := (hiff _ _ _).mp (hshows' x hx).1
      exact attributes_of_marked hnamed hreached' hmarked
    · exact hids ▸ hexports.nodup
    · rw [(hshows' x (heq ▸ by simp)).2.1] at hp
      refine hexports.parentFirst (before.map ExportedSpan.id) x.id (after.map ExportedSpan.id)
        ?_ p hp
      rw [← hids, heq, List.map_append, List.map_cons]
  obtain ⟨e, he⟩ := Option.isSome_iff_exists.mp
    ((OtlpExporter.exportSpans_spec hsdk timeOffsetNanosec _).1.mpr hexportable)
  have hrest : s.exporter.exportSpans sdk l' = some e := by
    rw [OtlpExporter.exportSpans_append, hexported] at he
    exact he
  have hdrop : t.world.tracer.exporter.exported.drop
      s.system.world.tracer.exporter.exported.length = l'.map ExportedSpan.id := by
    rw [← hnew, List.drop_left, hl']
  refine ⟨⟨t, handOver (serviceName i) s.handedOver c, e⟩, ?_, rfl, ⟨hiff, l ++ l', he, hids,
    fun x hx => ?_⟩⟩
  · unfold ExportingSystem.step
    rw [hprogram]
    simp only [ht, Option.bind_eq_bind, Option.bind_some]
    rw [hdrop, exportIds_eq hviews, hrest]
    rfl
  · obtain ⟨hgiven, hparent, hsource⟩ := hshows' x hx
    exact ⟨hgiven, hparent, hsource⟩

/-- The exporter does not stop a spanner. -/
theorem Attached.step_eq_none_iff (hsdk : sdk.Documented) (hnamed : NamesCalls setup)
    (hreached : Runs env rounds setup s.system) (h : Attached sdk timeOffsetNanosec serviceName s)
    (i : ι) : ExportingSystem.step sdk serviceName s i = none ↔ s.system.step (.act i) = none := by
  constructor
  · intro hnone
    cases ht : s.system.step (.act i) with
    | none => rfl
    | some t =>
      obtain ⟨s', hs', -⟩ := h.step hsdk hnamed hreached ht
      cases hnone.symm.trans hs'
  · intro hnone
    cases hstep : ExportingSystem.step sdk serviceName s i with
    | none => rfl
    | some s' =>
      obtain ⟨t, ht⟩ := step_system hstep
      cases hnone.symm.trans ht

/-- What holds of the exporter holds in every state that is reached with it. -/
theorem attached_of_reachable (hsdk : sdk.Documented) (hnamed : NamesCalls setup)
    (hs : Transition.Reachable (step sdk serviceName) (fun _ _ => True)
      (start env rounds setup timeOffsetNanosec) s) :
    Runs env rounds setup s.system ∧ Attached sdk timeOffsetNanosec serviceName s := by
  induction hs with
  | refl => exact ⟨.refl, attached_start⟩
  | @tail s s' i _ _ hstep ih =>
    obtain ⟨hreached, h⟩ := ih
    obtain ⟨t, ht⟩ := step_system hstep
    obtain ⟨s'', hstep'', rfl, h''⟩ := h.step hsdk hnamed hreached ht
    obtain rfl := Option.some.inj (hstep.symm.trans hstep'')
    exact ⟨hreached.tail ⟨i, rfl⟩ ht, h''⟩

/-- Every run of the spanners is one with the exporter. -/
theorem exists_of_runs (hsdk : sdk.Documented) (timeOffsetNanosec : Int64)
    (serviceName : ι → Bytes)
    (hnamed : NamesCalls setup)
    (ht : Runs env rounds setup t) : ∃ s, Transition.Reachable (step sdk serviceName)
      (fun _ _ => True) (start env rounds setup timeOffsetNanosec) s ∧ s.system = t := by
  induction ht with
  | refl => exact ⟨_, .refl, rfl⟩
  | @tail t t' move ht hmove hstep ih =>
    obtain ⟨s, hs, rfl⟩ := ih
    obtain ⟨i, rfl⟩ := hmove
    obtain ⟨s', hs', rfl, -⟩ := (attached_of_reachable hsdk hnamed hs).2.step hsdk hnamed ht hstep
    exact ⟨s', hs.tail trivial hs', rfl⟩

end ExportingSystem

namespace TraceProgram

variable {ι : Type} [DecidableEq ι] {B eventBufferSize capacity : ℕ} {env : TraceEnvironment}
  {rounds : ℕ} {setup : ι → TracePipeline} {sdk : OtlpSdk} {timeOffsetNanosec : Int64}
  {serviceName : ι → Bytes}

/-- The events of the file, for the spanner. -/
def spanners (setup : ι → TracePipeline) (B : ℕ) (i : ι) : Setup :=
  (setup i).consumer.handling ((setup i).events B)

omit [DecidableEq ι] in
theorem spanners_named (setup : ι → TracePipeline) (B : ℕ) :
    ExportingSystem.NamesCalls (spanners setup B) :=
  fun _ _ hev => (TracePipeline.accepts_of_mem ((SpannerClass.mem_offered _).mp hev)).isSome

/-- Whatever the files hold, the exporter never throws: an operation is impossible only where the
spanner has ended or the operation is refused, and handing over a span is never refused. -/
theorem exporter_never_throws (hsdk : sdk.Documented) {s : ExportingSystem ι}
    (hs : Transition.Reachable (ExportingSystem.step sdk serviceName) (fun _ _ => True)
      (.start env rounds (spanners setup B) timeOffsetNanosec) s) (i : ι) :
    (ExportingSystem.step sdk serviceName s i = none ↔ (∃ u, s.system.program i = .pure u) ∨
      ∃ c k, s.system.program i = .act c k ∧ Refused s.system.world c) ∧
    ∀ span object k, s.system.program i = .act (.markSpanAsDone span object) k →
      ∃ s', ExportingSystem.step sdk serviceName s i = some s' := by
  obtain ⟨hreached, hattached⟩ :=
    ExportingSystem.attached_of_reachable hsdk (spanners_named setup B) hs
  obtain ⟨st, hst, hsp, hkeeps⟩ := SystemState.stands hreached
  have hstep := hattached.step_eq_none_iff hsdk (spanners_named setup B) hreached i
  have hrefused := hst.step_eq_none_iff hsp (hkeeps i)
  refine ⟨hstep.trans hrefused, fun span object k hprogram => ?_⟩
  rw [← Option.ne_none_iff_exists', Ne, hstep, hrefused, hprogram]
  rintro (⟨u, hu⟩ | ⟨c, k', hc, hrefuses⟩)
  · cases hu
  · obtain ⟨rfl, -⟩ := Coroutine.act.inj hc
    exact hrefuses

/-- The span of a packet is handed over, and the SDK is told about it. -/
theorem exporter_never_throws_packet : ∃ s s' : ExportingSystem Unit,
    Transition.Reachable (ExportingSystem.step .counting fun _ => bytes "ns3") (fun _ _ => True)
      (.start noNames 0 (spanners packetSetup 100) 0) s ∧
    ExportingSystem.step .counting (fun _ => bytes "ns3") s () = some s' ∧
    s.exporter.ended.length = 0 ∧ s'.exporter.ended.map OtlpSpan.context = [⟨1, 1⟩] ∧
    ((ExportingSystem.step .counting (fun _ => bytes "ns3") s () = none ↔
      (∃ u, s.system.program () = .pure u) ∨
        ∃ c k, s.system.program () = .act c k ∧ Refused s.system.world c) ∧
    ∀ span object k, s.system.program () = .act (.markSpanAsDone span object) k →
      ∃ s', ExportingSystem.step .counting (fun _ => bytes "ns3") s () = some s') := by
  have hrun : ((Transition.follow (ExportingSystem.step .counting fun _ => bytes "ns3")
      (fun _ _ => True) (.start noNames 0 (spanners packetSetup 100) 0) [(), ()]).bind fun s =>
        (ExportingSystem.step .counting (fun _ => bytes "ns3") s ()).map fun s' =>
          (s.exporter.ended.length, s'.exporter.ended.map OtlpSpan.context)) =
      some (0, [⟨1, 1⟩]) := by
    decide +kernel
  obtain ⟨s, hs, hstep⟩ := Option.bind_eq_some_iff.mp hrun
  obtain ⟨s', hs', hended⟩ := Option.map_eq_some_iff.mp hstep
  obtain ⟨hbefore, hafter⟩ := Prod.mk.inj hended
  have hreached := Transition.Reachable.refl.follow hs
  exact ⟨s, s', hreached, hs', hbefore, hafter,
    exporter_never_throws OtlpSdk.documented_counting hreached ()⟩

/-- In every state of the program the SDK was told the forest of the exported spans: each of them
with what its spanner handed over, in the context of its parent, and the spans of a tree are in one
trace. -/
theorem exports_forest (hsize : 0 < eventBufferSize) (hcapacity : 0 < capacity)
    {s : TraceProgram ι B eventBufferSize capacity} (h : Reaches env rounds setup s)
    (hsdk : sdk.Documented) (timeOffsetNanosec : Int64) (serviceName : ι → Bytes) :
    ∃ e : ExportingSystem ι, Transition.Reachable (ExportingSystem.step sdk serviceName)
        (fun _ _ => True) (.start env rounds (spanners setup B) timeOffsetNanosec) e ∧
      e.system.world = s.world ∧ ∃ l : List ExportedSpan,
        l.map ExportedSpan.id = s.world.tracer.exporter.exported ∧
        (∀ x ∈ l, x.parentId = s.world.tracer.parentOf x.id ∧
          x.sourceId = ExportingSystem.sourceId x.object ∧ ∃ i, x.serviceName = serviceName i ∧
            (x.id, x.object) ∈ Log.marked (e.system.history i)) ∧
        e.exporter.timeOffsetNanosec = timeOffsetNanosec ∧
        OtlpExporter.Mirrors sdk s.world.tracer.parentOf l e.exporter := by
  obtain ⟨t, ht, hhandles⟩ :=
    Transition.Simulates.reachable (simulates hsize hcapacity) handles_start h
  obtain ⟨e, he, rfl⟩ := ExportingSystem.exists_of_runs hsdk timeOffsetNanosec serviceName
    (spanners_named setup B) ht
  obtain ⟨-, hattached⟩ := ExportingSystem.attached_of_reachable hsdk (spanners_named setup B) he
  obtain ⟨l, hexported, hl, hshows⟩ := hattached.exports
  obtain ⟨hiff, hwrote⟩ := OtlpExporter.exportSpans_spec hsdk timeOffsetNanosec l
  rw [← hhandles.world]
  refine ⟨e, he, rfl, l, hl, fun x hx => ⟨(hshows x hx).parentId, (hshows x hx).sourceId, ?_⟩,
    (hwrote _ hexported).timeOffset, ?_⟩
  · exact (hattached.handedOver _ _ _).mp (hshows x hx).handedOver
  · exact (hwrote _ hexported).mirrors (hiff.mp (by simp [hexported]))
      fun x hx => (hshows x hx).parentId.symm

/-- The span of a packet that was told to the SDK. -/
theorem exports_forest_packet : ∃ (e : ExportingSystem Unit) (parent : Nat → Option Nat)
    (l : List ExportedSpan), l.map ExportedSpan.id = [1] ∧
      Transition.Reachable (ExportingSystem.step .counting fun _ => bytes "ns3") (fun _ _ => True)
        (.start noNames 0 (spanners packetSetup 100) 0) e ∧
      OtlpExporter.Mirrors .counting parent l e.exporter := by
  have hrun : ((Transition.follow (step noNames 0) (fun _ _ => True)
      (start packetSetup : TraceProgram Unit 100 1 1) untilExported).map
        fun s => s.world.tracer.exporter.exported) = some [1] := by
    decide +kernel
  obtain ⟨s, hs, hexported⟩ := Option.map_eq_some_iff.mp hrun
  obtain ⟨e, he, -, l, hl, -, -, hmirrors⟩ := exports_forest Nat.one_pos Nat.one_pos
    (Transition.Reachable.refl.follow hs) OtlpSdk.documented_counting 0 fun _ => bytes "ns3"
  exact ⟨e, _, l, hl.trans hexported, he, hmirrors⟩

end TraceProgram

end Columbo
