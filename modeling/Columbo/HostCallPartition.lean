import Columbo.HostSpanner
import Columbo.SpanSteps
import Columbo.SpannerSteps
import Columbo.TracerSteps

/-!
# Calls and the spans of a host

The calls that a fresh spanner of a host handles, and the event lists of the call spans
that it creates for them. The first call is added to its span twice.
-/
namespace Columbo

namespace Log

/-- The event that an operation adds to a span. -/
def taken (span : Nat) : (c : Command) × c.Response → Option Event
  | ⟨.addEvent s ev, _⟩ => if s = span then some ev else none
  | e => (startedBy e).bind fun s => if s.id = span then some s.event else none

def eventsOf (h : Log) (span : Nat) : List Event := h.filterMap (taken span)

/-- The event lists of the call spans, in creation order. -/
def hostCalls (h : Log) : List (List Event) := (h.started [.kHostCall]).map fun s => h.eventsOf s.id

theorem eventsOf_append (h h' : Log) (span : Nat) :
    (h ++ h').eventsOf span = h.eventsOf span ++ eventsOf h' span := List.filterMap_append

theorem eventsOf_of_started {h : Log} {types : List SpanType} {s : Started}
    (hs : s ∈ h.started types) : h.eventsOf s.id ≠ [] := by
  obtain ⟨e, he, hby⟩ := List.mem_filterMap.mp (List.mem_filter.mp hs).1
  have htaken : taken s.id e = some s.event := by
    unfold taken
    split
    · simp [startedBy] at hby
    · simp [hby]
  exact List.ne_nil_of_mem (List.mem_filterMap.mpr ⟨e, he, htaken⟩)

/-- Nothing happened to call spans, and no span got an event. -/
def SameCalls (h h' : Log) : Prop :=
  h'.started [.kHostCall] = h.started [.kHostCall] ∧ ∀ span, h'.eventsOf span = h.eventsOf span

theorem SameCalls.hostCalls {h h' : Log} (hsame : SameCalls h h') :
    h'.hostCalls = h.hostCalls := by
  unfold Log.hostCalls
  rw [hsame.1]
  exact List.map_congr_left fun s _ => hsame.2 s.id

theorem sameCalls_mark (h : Log) (span : Nat) (content : SpanObject) :
    SameCalls h (h ++ [⟨.markSpanAsDone span content, ()⟩]) := by
  constructor
  · simp [started, startedBy]
  · intro s
    simp [eventsOf, taken, startedBy]

/-- A new call span has its first event. -/
theorem hostCalls_startSpan {h : Log} {ev : Event} {accepted : Bool} {id : Nat}
    (hfresh : h.eventsOf id = []) :
    hostCalls (h ++ [⟨.startSpan .kHostCall ev accepted, id⟩]) = h.hostCalls ++ [[ev]] := by
  have hstarted : started [.kHostCall] (h ++ [⟨.startSpan .kHostCall ev accepted, id⟩]) =
      h.started [.kHostCall] ++ [⟨.kHostCall, id, ev, none⟩] := by
    simp [started, startedBy]
  have hnew : ∀ s, eventsOf (h ++ [⟨.startSpan .kHostCall ev accepted, id⟩]) s =
      h.eventsOf s ++ if id = s then [ev] else [] := by
    intro s
    rw [eventsOf_append]
    by_cases hs : id = s
    · simp [eventsOf, taken, startedBy, hs]
    · simp [eventsOf, taken, startedBy, hs]
  unfold hostCalls
  rw [hstarted, List.map_append]
  congr 1
  · refine List.map_congr_left fun s hs => ?_
    have hne : id ≠ s.id := fun heq => eventsOf_of_started hs (heq ▸ hfresh)
    rw [hnew, if_neg hne, List.append_nil]
  · simp [hnew, hfresh]

/-- An event added to the last call span comes after all the others. -/
theorem hostCalls_addEvent {h : Log} {prev : List Started} {first : Started} {ev : Event} {id : Nat}
    (hlast : h.started [.kHostCall] = prev ++ [first]) (hfirst : first.id = id)
    (hprev : ∀ s ∈ prev, s.id ≠ id) :
    (hostCalls (h ++ [⟨.addEvent id ev, ()⟩])).flatten = h.hostCalls.flatten ++ [ev] := by
  have hstarted : started [.kHostCall] (h ++ [⟨.addEvent id ev, ()⟩]) = prev ++ [first] := by
    rw [← hlast]
    simp [started, startedBy]
  have hnew : ∀ s, eventsOf (h ++ [⟨.addEvent id ev, ()⟩]) s =
      h.eventsOf s ++ if id = s then [ev] else [] := by
    intro s
    rw [eventsOf_append]
    by_cases hs : id = s
    · simp [eventsOf, taken, hs]
    · simp [eventsOf, taken, hs]
  have hkept : (prev.map fun s => eventsOf (h ++ [⟨.addEvent id ev, ()⟩]) s.id) =
      prev.map fun s => h.eventsOf s.id := by
    refine List.map_congr_left fun s hs => ?_
    rw [hnew, if_neg (hprev s hs).symm, List.append_nil]
  unfold hostCalls
  rw [hstarted, hlast, List.map_append, List.map_append, hkept]
  simp [hnew, hfirst]

end Log

namespace HostSpanner

open Coroutine Spanner

/-- The operations of the handler of calls; events are added to spans that have some. -/
def callGuar (queues : HostQueues) (h : Log) : Command → Prop
  | .startSpan .. | .markSpanAsDone .. | .terminate => True
  | .pop source _ => source = queues.fromNicReceives
  | .addEvent span _ => h.eventsOf span ≠ []
  | _ => False

/-- New spans are fresh, and no receive context comes. -/
def callRely (h : Log) : (c : Command) → c.Response → Prop
  | .startSpan .., id => h.eventsOf id = []
  | .pop .., _ => False
  | _, _ => True

/-- The last call span is pending, and the call spans got the events in this order. -/
def Collecting (parser : UInt64) (events : List Event) (h : Log) (st : HostSpanner) : Prop :=
  h.hostCalls.flatten = events ∧
    ∃ call prev first, st.pendingHostCallSpan = some call ∧ call.span.Open parser ∧
      h.started [.kHostCall] = prev ++ [first] ∧ first.id = call.id ∧ ∀ s ∈ prev, s.id ≠ call.id

variable {env : TraceEnvironment} {queues : HostQueues} {rounds : Nat} {parser : UInt64}
  {events : List Event} {h : Log}
  {st : HostSpanner} {ev : Event}

theorem keeps_finishPendingSpan :
    Keeps (callGuar queues) callRely (fun h' _ => h.SameCalls h')
      (finishPendingSpan queues rounds st) h := by
  unfold finishPendingSpan
  cases st.pendingHostCallSpan with
  | none => exact keeps_pure ⟨rfl, fun _ => rfl⟩
  | some call =>
    dsimp only
    split_ifs
    · exact ⟨trivial, fun _ _ => h.sameCalls_mark _ _⟩
    · exact ⟨rfl, fun _ hpop => hpop.elim⟩

theorem keeps_createTraceStartingSpan (hcall : ev.getType = .kHostCallT)
    (hevents : h.hostCalls.flatten = events) :
    Keeps (callGuar queues) callRely (Collecting ev.parserIdentifier (events ++ [ev]))
      (createTraceStartingSpan env queues rounds st ev false) h := by
  unfold createTraceStartingSpan
  refine keeps_finishPendingSpan.bind fun h' _ hsame => ?_
  obtain ⟨span, hadd, hopen⟩ := HostCallSpan.open_new env hcall
  refine keeps_bind (keeps_startSpan hadd trivial fun id hfresh => ?_)
  have hstarted : Log.started [.kHostCall] (h' ++ [⟨.startSpan .kHostCall ev true, id⟩]) =
      Log.started [.kHostCall] h' ++ [⟨.kHostCall, id, ev, none⟩] := by
    simp [Log.started, Log.startedBy]
  have hfresh : Log.eventsOf h' id = [] := hfresh
  refine keeps_pure ⟨?_, ⟨id, span⟩, _, _, rfl, hopen, hstarted, rfl, ?_⟩
  · have hnew : Log.hostCalls (h' ++ [⟨.startSpan .kHostCall ev true, id⟩]) =
        h.hostCalls ++ [[ev]] := by
      rw [Log.hostCalls_startSpan hfresh, hsame.hostCalls]
    exact (congrArg List.flatten hnew).trans (by simp [hevents])
  · intro s hs heq
    have hs' : Log.eventsOf h' s.id ≠ [] := Log.eventsOf_of_started hs
    exact hs' (heq.symm ▸ hfresh)

/-- A call that the handler finds a span for is added once, if it is of the right parser. -/
theorem keeps_addCall (hcall : ev.getType = .kHostCallT)
    (hcollecting : Collecting parser events h st) :
    Keeps (callGuar queues) callRely (fun h' r => Collecting parser
      (events ++ if ev.parserIdentifier = parser then [ev] else []) h' r.2)
      (addCall env queues rounds st ev) h := by
  obtain ⟨hevents, call, prev, first, hpending, hopen, hlast, hfirst, hprev⟩ := hcollecting
  have hmem : first ∈ h.started [.kHostCall] := by simp [hlast]
  have hid : h.eventsOf call.id ≠ [] := hfirst ▸ Log.eventsOf_of_started hmem
  unfold addCall
  rw [hpending]
  refine keeps_bind (keeps_throwIfEmpty (fun _ => trivial) fun call' hcall' => ?_)
  obtain rfl : call = call' := Option.some.inj hcall'
  refine keeps_bind (keeps_addToSpan (fun span hadd => ⟨hid, ?_⟩) fun span hadd => ?_)
  · obtain ⟨-, hfalse⟩ | ⟨hparser, ⟨s', htrue, hopen'⟩ | ⟨s', hfalse, -⟩⟩ :=
      hopen.addToSpan hcall
    · cases hadd.symm.trans hfalse
    · cases hadd.symm.trans htrue
      refine keeps_pure ⟨?_, ⟨call.id, span⟩, prev, first, rfl, hopen', ?_, hfirst, hprev⟩
      · rw [Log.hostCalls_addEvent hlast hfirst hprev, hevents, if_pos hparser]
      · have hsame : Log.started [.kHostCall] (h ++ [⟨.addEvent call.id ev, ()⟩]) =
            h.started [.kHostCall] := by simp [Log.started, Log.startedBy]
        exact hsame.trans hlast
    · cases hadd.symm.trans hfalse
  · obtain ⟨hparser, hfalse⟩ | ⟨hparser, ⟨s', htrue, -⟩ | ⟨s', hfalse, hdone⟩⟩ :=
      hopen.addToSpan hcall
    · cases hadd.symm.trans hfalse
      have hpend : isComplete call = false := by
        simp [hopen.1]
      simp only [hpend, hparser, if_false, List.append_nil, Bool.false_eq_true]
      exact keeps_pure ⟨hevents, call, prev, first, rfl, hopen, hlast, hfirst, hprev⟩
    · cases hadd.symm.trans htrue
    · cases hadd.symm.trans hfalse
      have hcomplete : isComplete (⟨call.id, span⟩ : Allocated HostCallSpan) = true := by
        simp [hdone]
      subst hparser
      simp only [hcomplete, if_true, if_false, Bool.false_eq_true]
      exact keeps_bind ((keeps_createTraceStartingSpan hcall hevents).mono fun _ _ hnew =>
        keeps_pure hnew)

/-- The first call starts a span and is then handled as a further call. -/
theorem keeps_firstCall (hcall : ev.getType = .kHostCallT) (hnone : st.pendingHostCallSpan = none)
    (hempty : h.hostCalls = []) :
    Keeps (callGuar queues) callRely (fun h' r => Collecting ev.parserIdentifier [ev, ev] h' r.2)
      (handelCall env queues rounds st ev) h := by
  unfold handelCall ensureCallSpan
  rw [hnone]
  have hevents : h.hostCalls.flatten = [] := by simp [hempty]
  refine keeps_bind ((keeps_createTraceStartingSpan hcall hevents).mono
    fun h' st' hcollecting => ?_)
  refine (keeps_addCall hcall hcollecting).mono fun h'' r hr => ?_
  simpa using hr

theorem keeps_furtherCall (hcall : ev.getType = .kHostCallT)
    (hcollecting : Collecting parser events h st) :
    Keeps (callGuar queues) callRely (fun h' r => Collecting parser
      (events ++ if ev.parserIdentifier = parser then [ev] else []) h' r.2)
      (handelCall env queues rounds st ev) h := by
  have hpending : st.pendingHostCallSpan.isNone = false := by
    obtain ⟨_, call, _, _, hpending, _⟩ := hcollecting
    rw [hpending]
    rfl
  unfold handelCall ensureCallSpan
  rw [hpending]
  exact keeps_addCall hcall hcollecting

/-- What the call spans of a fresh spanner get: the first call twice, and those of the
other calls that have the same parser. -/
def collected : List Event → List Event
  | [] => []
  | first :: rest =>
    first :: first :: rest.filter fun ev => ev.parserIdentifier = first.parserIdentifier

def CallsHandled (past : List Event) (h : Log) (st : HostSpanner) : Prop :=
  match past with
  | [] => st.pendingHostCallSpan = none ∧ h.hostCalls = []
  | first :: _ => Collecting first.parserIdentifier (collected past) h st

theorem keeps_consumeAll {evs : List Event} (hcalls : ∀ ev ∈ evs, ev.getType = .kHostCallT) :
    Keeps (callGuar queues) callRely (CallsHandled evs) (consumeAll env queues rounds evs) [] := by
  refine Keeps.foldlM CallsHandled ?_ ⟨rfl, rfl⟩
  intro past ev rest h st hevs hpast
  have hcall : ev.getType = .kHostCallT := hcalls ev (by simp [hevs])
  have hconsume : consume env queues rounds st ev = handelCall env queues rounds st ev := by
    unfold consume
    rw [hcall]
  rw [hconsume]
  cases past with
  | nil =>
    refine keeps_bind ((keeps_firstCall hcall hpast.1 hpast.2).mono fun _ _ hfirst => ?_)
    exact keeps_pure hfirst
  | cons first past =>
    refine keeps_bind ((keeps_furtherCall hcall hpast).mono fun _ _ hfurther => keeps_pure ?_)
    have hcollected : collected (first :: past ++ [ev]) = collected (first :: past) ++
        if ev.parserIdentifier = first.parserIdentifier then [ev] else [] := by
      by_cases hparser : ev.parserIdentifier = first.parserIdentifier
      · simp [collected, hparser]
      · simp [collected, hparser]
    have hend : Collecting first.parserIdentifier (collected (first :: past ++ [ev])) _ _ :=
      hcollected ▸ hfurther
    exact hend

/-- No receive context is there, and identifiers that are still to come have no events. -/
def NoReceives (queues : HostQueues) (w : World) (h : Log) : Prop :=
  w.channels queues.fromNicReceives = [] ∧ ∀ id, w.tracer.nextSpanId ≤ id → h.eventsOf id = []

theorem NoReceives.exec {w w' : World} {c : Command} {r : c.Response}
    (hinv : NoReceives queues w h) (hguar : callGuar queues h c)
    (hexec : w.exec c = some (r, w')) :
    callRely h c r ∧ NoReceives queues w' (h ++ [⟨c, r⟩]) := by
  obtain ⟨hempty, hfresh⟩ := hinv
  have hother : ∀ s : Nat, Log.taken s ⟨c, r⟩ = none →
      Log.eventsOf (h ++ [⟨c, r⟩]) s = h.eventsOf s := by
    intro s hs
    rw [Log.eventsOf_append]
    simp [Log.eventsOf, hs]
  cases c with
  | startSpan type ev accepted =>
    obtain ⟨t, ht, heq⟩ := Option.map_eq_some_iff.mp hexec
    obtain ⟨rfl, rfl⟩ := Prod.mk.inj heq
    obtain rfl := Tracer.startSpan_eq_some ht
    refine ⟨hfresh _ le_rfl, hempty, fun id hid => ?_⟩
    have hlt : w.tracer.nextSpanId < id := hid
    rw [hother id (by simp [Log.taken, Log.startedBy, hlt.ne])]
    exact hfresh id hlt.le
  | markSpanAsDone span content =>
    obtain ⟨t, ht, heq⟩ := Option.map_eq_some_iff.mp hexec
    obtain ⟨-, rfl⟩ := Prod.mk.inj heq
    refine ⟨trivial, hempty, fun id hid => ?_⟩
    have hnext : t.nextSpanId = w.tracer.nextSpanId := by
      obtain ⟨t₁, hsame, rfl | rfl⟩ := Tracer.markSpanAsDone_heap ht
      · exact hsame.nextSpanId
      · exact hsame.nextSpanId
    rw [hother id rfl]
    exact hfresh id (hnext ▸ hid)
  | addEvent span ev =>
    obtain ⟨-, rfl⟩ := Prod.mk.inj (Option.some.inj hexec)
    refine ⟨trivial, hempty, fun id hid => ?_⟩
    have hne : span ≠ id := fun heq => hguar (heq ▸ hfresh id hid)
    rw [hother id (by simp [Log.taken, hne])]
    exact hfresh id hid
  | pop source expected =>
    have hsource : source = queues.fromNicReceives := hguar
    simp [World.exec, hsource, hempty] at hexec
  | terminate => cases hexec
  | _ => exact hguar.elim

end HostSpanner

/-- The events of the calls are partitioned into spans in their order, and a syscall
entry comes first in its span. -/
structure Log.Partitioned (env : TraceEnvironment) (evs : List Event) (h : Log) : Prop where
  concat : h.hostCalls.flatten = evs
  entries : ∀ events ∈ h.hostCalls, ∀ ev ∈ events.tail, env.isSysEntry ev = false

namespace HostSpanner

variable {env : TraceEnvironment} {queues : HostQueues} {rounds : Nat} {evs : List Event}
  {w w' : World} {st : HostSpanner} {h : Log}

/-- Every run adds the first call twice, and loses the calls of other parsers. -/
theorem hostCalls_of_run (hcalls : ∀ ev ∈ evs, ev.getType = .kHostCallT)
    (hreceives : w.channels queues.fromNicReceives = [])
    (hrun : (consumeAll env queues rounds evs).run World.exec w = some (st, h, w')) :
    h.hostCalls.flatten = collected evs := by
  have hkept := (keeps_consumeAll hcalls).run
    (NoReceives queues) NoReceives.exec ⟨hreceives, fun _ _ => rfl⟩ hrun
  have hhandled : CallsHandled evs h st := hkept.1
  cases evs with
  | nil => exact congrArg List.flatten hhandled.2
  | cons first rest => exact hhandled.1

/-- The first call would have to be one of the others again, for ever. -/
theorem collected_ne (first : Event) (rest : List Event) :
    collected (first :: rest) ≠ first :: rest := by
  intro heq
  have hrest : first :: rest.filter (fun ev => ev.parserIdentifier = first.parserIdentifier) =
      rest := (List.cons.inj heq).2
  have hfilter := congrArg
    (List.filter fun ev : Event => ev.parserIdentifier = first.parserIdentifier) hrest
  have hlength := congrArg List.length hfilter
  simp at hlength

/-- A fresh spanner partitions no calls but the empty sequence of them. -/
theorem partitioned_iff_nil (hcalls : ∀ ev ∈ evs, ev.getType = .kHostCallT)
    (hreceives : w.channels queues.fromNicReceives = [])
    (hrun : (consumeAll env queues rounds evs).run World.exec w = some (st, h, w')) :
    h.Partitioned env evs ↔ evs = [] := by
  have hcollected := hostCalls_of_run hcalls hreceives hrun
  cases evs with
  | nil =>
    have hall : ∀ events ∈ h.hostCalls, events = [] := List.flatten_eq_nil_iff.mp hcollected
    refine iff_of_true ⟨hcollected, fun events hevents ev hev => ?_⟩ rfl
    rw [hall events hevents] at hev
    cases hev
  | cons first rest =>
    refine iff_of_false (fun hpartitioned => ?_) (List.cons_ne_nil _ _)
    exact collected_ne first rest (hcollected.symm.trans hpartitioned.concat)

/-- A call of a function that no list names. -/
def oneCall : Event := ⟨10, 0, bytes "gem5", .hostCall 0 none none⟩

theorem run_oneCall : ∃ (st : HostSpanner) (h : Log) (w' : World),
    (consumeAll noNames ⟨0, 1, 2⟩ 0 [oneCall]).run World.exec World.init = some (st, h, w') ∧
      h.hostCalls = [[oneCall, oneCall]] :=
  ⟨_, _, _, rfl, rfl⟩

theorem partitioned_iff_nil_oneCall : ∃ (st : HostSpanner) (h : Log) (w' : World),
    (consumeAll noNames ⟨0, 1, 2⟩ 0 [oneCall]).run World.exec World.init = some (st, h, w') ∧
      (h.Partitioned noNames [oneCall] ↔ [oneCall] = []) := by
  obtain ⟨st, h, w', hrun, -⟩ := run_oneCall
  exact ⟨st, h, w', hrun, partitioned_iff_nil (by decide) rfl hrun⟩

/-- The event lists of the spans for one call are not the call. -/
theorem not_partitioned_oneCall : ¬ ∀ (env : TraceEnvironment) (queues : HostQueues)
    (rounds : Nat) (evs : List Event) (w w' : World) (st : HostSpanner) (h : Log),
    (∀ ev ∈ evs, ev.getType = .kHostCallT) → w.channels queues.fromNicReceives = [] →
      (consumeAll env queues rounds evs).run World.exec w = some (st, h, w') →
      h.Partitioned env evs := by
  intro hall
  obtain ⟨st, h, w', hrun, htwice⟩ := run_oneCall
  have hconcat := (hall _ _ _ _ _ _ _ _ (by decide) rfl hrun).concat
  rw [htwice] at hconcat
  cases hconcat

end HostSpanner

end Columbo
