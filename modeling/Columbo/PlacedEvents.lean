import Columbo.FinishedSpans
import Columbo.HostCallPartition
import Columbo.SpanContents

/-!
# Where the events go

A spanner puts every event into at most one span, in the order in which the events come, and the
spans that it hands over hold the transactions that it put into them. The first call of a host is
the exception: it is offered twice.
-/
namespace Columbo

open Coroutine Spanner

namespace Log

/-- The span that an operation puts an event into. -/
def placedBy : (c : Command) × c.Response → Option (Nat × Event)
  | ⟨.addEvent span ev, _⟩ => some (span, ev)
  | e => (startedBy e).map fun s => (s.id, s.event)

def placed (h : Log) : List (Nat × Event) := h.filterMap placedBy

/-- The events that were put into spans. -/
def used (h : Log) : List Event := h.placed.map Prod.snd

/-- The spans that got the events of what was handed over. -/
def sources (h : Log) : List Nat := h.marked.map fun m => m.2.source m.1

variable {h : Log} {e : (c : Command) × c.Response} {id : Nat} {ev : Event}

theorem taken_eq (span : Nat) : taken span e =
    (placedBy e).bind fun p => if p.1 = span then some p.2 else none := by
  obtain ⟨c, r⟩ := e
  cases c <;> rfl

theorem eventsOf_placed (he : placedBy e = some (id, ev)) (span : Nat) :
    eventsOf (h ++ [e]) span = h.eventsOf span ++ if id = span then [ev] else [] := by
  rw [eventsOf_append]
  by_cases hspan : id = span
  · simp [eventsOf, taken_eq, he, hspan]
  · simp [eventsOf, taken_eq, he, hspan]

theorem eventsOf_unplaced (he : placedBy e = none) (span : Nat) :
    eventsOf (h ++ [e]) span = h.eventsOf span := by
  rw [eventsOf_append]
  simp [eventsOf, taken_eq, he]

theorem eventsOf_eq_nil (hid : ∀ p ∈ h.placed, p.1 ≠ id) : h.eventsOf id = [] := by
  refine List.filterMap_eq_nil_iff.mpr fun e he => ?_
  rw [taken_eq]
  cases hplaced : placedBy e with
  | none => rfl
  | some p => simpa using hid p (List.mem_filterMap.mpr ⟨e, he, hplaced⟩)

theorem placed_concat (he : placedBy e = some (id, ev)) :
    placed (h ++ [e]) = h.placed ++ [(id, ev)] := by
  simp [placed, he]

theorem placed_unplaced (he : placedBy e = none) : placed (h ++ [e]) = h.placed := by
  simp [placed, he]

theorem used_concat (he : placedBy e = some (id, ev)) : used (h ++ [e]) = h.used ++ [ev] := by
  simp [used, placed_concat he]

theorem sources_unmarked (he : marked [e] = []) : sources (h ++ [e]) = h.sources := by
  simp [sources, he]

end Log

/-- An event that is used comes next among those that are offered, and is put into a span of this
spanner that was not handed over. What is handed over is a transaction that was put there. -/
def accounts (env : TraceEnvironment) (offered : List Event) (h : Log) : Command → Prop
  | .startSpan _ ev _ | .startSpanByParent _ _ ev _ | .startSpanByParentPassOnContext _ _ ev _ =>
    (h.used ++ [ev]).Sublist offered
  | .addEvent span ev =>
    (h.used ++ [ev]).Sublist offered ∧ span ∈ h.created ∧ span ∉ h.sources
  | .markSpanAsDone span content => content.source span ∈ h.created ∧
    content.toEventSpan.events = h.eventsOf (content.source span) ∧
    content.Word env content.toEventSpan.events
  | _ => True

/-- The spans hold what was put into them, and the events in `room` may still be used. -/
structure Placing (env : TraceEnvironment) (offered : List Event) (h : Log) (room : List Event)
    (spans : Multiset (Nat × SpanObject)) : Prop where
  room : (h.used ++ room).Sublist offered
  nodup : (spans.map Prod.fst).Nodup
  created : ∀ s ∈ spans, s.1 ∈ h.created
  took : ∀ s ∈ spans, s.2.Took env (h.eventsOf s.1)
  original : ∀ s ∈ spans, s.2.toEventSpan.original = none
  pending : ∀ s ∈ spans, s.2.toEventSpan.isPending = true → s.1 ∉ h.sources
  sourcesCreated : ∀ id ∈ h.sources, id ∈ h.created
  placedCreated : ∀ p ∈ h.placed, p.1 ∈ h.created

namespace Placing

variable {env : TraceEnvironment} {offered room room' : List Event} {h : Log} {ev : Event}
  {spans spans' : Multiset (Nat × SpanObject)} {id : Nat} {o o' : SpanObject} {c : Command}
  {r : c.Response}

theorem start (hroom : room.Sublist offered) (hspans : spans = 0) :
    Placing env offered [] room spans where
  room := hroom
  nodup := by simp [hspans]
  created := by simp [hspans]
  took := by simp [hspans]
  original := by simp [hspans]
  pending := by simp [hspans]
  sourcesCreated id hid := by cases hid
  placedCreated p hp := by cases hp

theorem skip (hh : Placing env offered h room spans) (hroom : room'.Sublist room) :
    Placing env offered h room' spans :=
  { hh with room := (hroom.append_left h.used).trans hh.room }

theorem mono (hh : Placing env offered h room spans) (hle : spans' ≤ spans) :
    Placing env offered h room spans' :=
  { hh with
    nodup := Multiset.nodup_of_le (Multiset.map_le_map hle) hh.nodup
    created := fun s hs => hh.created s (Multiset.mem_of_le hle hs)
    took := fun s hs => hh.took s (Multiset.mem_of_le hle hs)
    original := fun s hs => hh.original s (Multiset.mem_of_le hle hs)
    pending := fun s hs => hh.pending s (Multiset.mem_of_le hle hs) }

/-- The next event may be used. -/
theorem next (hh : Placing env offered h (ev :: room) spans) :
    (h.used ++ [ev]).Sublist offered :=
  (List.Sublist.append_left (List.singleton_sublist.mpr List.mem_cons_self) h.used).trans hh.room

theorem drop (hh : Placing env offered h room (spans' + spans)) : Placing env offered h room spans :=
  hh.mono (Multiset.le_add_left _ _)

/-- An operation that neither uses an event nor hands a span over. -/
theorem other (hh : Placing env offered h room spans) (hplaced : Log.placedBy ⟨c, r⟩ = none)
    (hmark : Log.marked [⟨c, r⟩] = []) : Placing env offered (h ++ [⟨c, r⟩]) room spans where
  room := by
    unfold Log.used
    rw [Log.placed_unplaced hplaced]
    exact hh.room
  nodup := hh.nodup
  created s hs := by
    rw [Log.created_append]
    exact List.mem_append_left _ (hh.created s hs)
  took s hs := by
    rw [Log.eventsOf_unplaced hplaced]
    exact hh.took s hs
  original := hh.original
  pending s hs hpending := by
    rw [Log.sources_unmarked hmark]
    exact hh.pending s hs hpending
  sourcesCreated id hid := by
    rw [Log.sources_unmarked hmark] at hid
    rw [Log.created_append]
    exact List.mem_append_left _ (hh.sourcesCreated id hid)
  placedCreated p hp := by
    rw [Log.placed_unplaced hplaced] at hp
    rw [Log.created_append]
    exact List.mem_append_left _ (hh.placedCreated p hp)

/-- The spans refuse an event. -/
theorem refuse (hh : Placing env offered h room (spans' + spans))
    (hrefused : ∀ s ∈ spans', (s.2.addToSpan env ev).1 = false) :
    Placing env offered h room
      (spans'.map (fun s => (s.1, (s.2.addToSpan env ev).2)) + spans) := by
  have hcases : ∀ {P : Nat × SpanObject → Prop}, (∀ s ∈ spans' + spans, P s) →
      (∀ s ∈ spans', P s → P (s.1, (s.2.addToSpan env ev).2)) →
      ∀ s ∈ spans'.map (fun s => (s.1, (s.2.addToSpan env ev).2)) + spans, P s := by
    intro P hall hstep s hs
    rcases Multiset.mem_add.mp hs with hnew | hold
    · obtain ⟨s', hs', rfl⟩ := Multiset.mem_map.mp hnew
      exact hstep s' hs' (hall s' (Multiset.mem_add.mpr (.inl hs')))
    · exact hall s (Multiset.mem_add.mpr (.inr hold))
  refine { hh with nodup := ?_, created := ?_, took := ?_, original := ?_, pending := ?_ }
  · rw [Multiset.map_add, Multiset.map_map]
    have hnodup := hh.nodup
    rwa [Multiset.map_add] at hnodup
  · exact hcases hh.created fun s _ hs => hs
  · exact hcases hh.took fun s hs htook => htook.refused (Prod.ext (hrefused s hs) rfl)
  · exact hcases hh.original fun s _ hs => (SpanObject.original_addToSpan env s.2 ev).trans hs
  · refine hcases hh.pending fun s _ hs hpending => hs ?_
    cases hdone : s.2.toEventSpan.isPending with
    | true => rfl
    | false =>
      rw [SpanObject.addToSpan_of_complete hdone, hdone] at hpending
      cases hpending

/-- An event is put into a span. -/
theorem add (hh : Placing env offered h (ev :: room) ({(id, o)} + spans))
    (hadd : o.addToSpan env ev = (true, o')) :
    accounts env offered h (.addEvent id ev) ∧
      Placing env offered (h ++ [⟨.addEvent id ev, ()⟩]) room ({(id, o')} + spans) := by
  have hid : (id, o) ∈ ({(id, o)} + spans : Multiset (Nat × SpanObject)) := by simp
  have hplaced : Log.placedBy ⟨.addEvent id ev, ()⟩ = some (id, ev) := rfl
  have hcreated : Log.created (h ++ [⟨.addEvent id ev, ()⟩]) = h.created :=
    (Log.created_append h _).trans (List.append_nil _)
  have hsources : Log.sources (h ++ [⟨.addEvent id ev, ()⟩]) = h.sources :=
    Log.sources_unmarked rfl
  have hne : ∀ s ∈ spans, id ≠ s.1 := by
    intro s hs heq
    have hnodup := hh.nodup
    rw [Multiset.map_add, Multiset.map_singleton, Multiset.singleton_add,
      Multiset.nodup_cons] at hnodup
    exact hnodup.1 (Multiset.mem_map.mpr ⟨s, hs, heq.symm⟩)
  have hopen : o.toEventSpan.isPending = true := by
    cases hdone : o.toEventSpan.isPending with
    | true => rfl
    | false =>
      rw [SpanObject.addToSpan_of_complete hdone] at hadd
      cases hadd
  have hunmarked := hh.pending _ hid hopen
  refine ⟨⟨hh.next, hh.created _ hid, hunmarked⟩, ?_⟩
  have hcases : ∀ {P : Nat × SpanObject → Prop}, P (id, o') → (∀ s ∈ spans, P s) →
      ∀ s ∈ ({(id, o')} + spans : Multiset (Nat × SpanObject)), P s := by
    intro P hnew hold s hs
    rcases Multiset.mem_add.mp hs with hmem | hmem
    · exact Multiset.mem_singleton.mp hmem ▸ hnew
    · exact hold s hmem
  have hold : ∀ s ∈ spans, s ∈ ({(id, o)} + spans : Multiset (Nat × SpanObject)) :=
    fun s hs => Multiset.mem_add.mpr (.inr hs)
  refine ⟨?_, ?_, ?_, ?_, ?_, ?_, ?_, ?_⟩
  · rw [Log.used_concat hplaced, List.append_assoc, List.singleton_append]
    exact hh.room
  · have hnodup := hh.nodup
    rw [Multiset.map_add, Multiset.map_singleton] at hnodup ⊢
    exact hnodup
  · rw [hcreated]
    exact hcases (hh.created (id, o) hid) fun s hs => hh.created s (hold s hs)
  · refine hcases ?_ fun s hs => ?_
    · rw [Log.eventsOf_placed hplaced, if_pos rfl]
      exact (hh.took _ hid).added hadd
    · rw [Log.eventsOf_placed hplaced, if_neg (hne s hs), List.append_nil]
      exact hh.took s (hold s hs)
  · refine hcases ?_ fun s hs => hh.original s (hold s hs)
    have hsame := SpanObject.original_addToSpan env o ev
    rw [hadd] at hsame
    exact hsame.trans (hh.original _ hid)
  · rw [hsources]
    exact hcases (fun _ => hunmarked) fun s hs => hh.pending s (hold s hs)
  · rw [hsources, hcreated]
    exact hh.sourcesCreated
  · rw [Log.placed_concat hplaced, hcreated]
    exact List.forall_mem_append.mpr
      ⟨hh.placedCreated, List.forall_mem_singleton.mpr (hh.created _ hid)⟩

/-- A new span takes its first event. -/
theorem create (hh : Placing env offered h (ev :: room) spans)
    (hplaced : Log.placedBy ⟨c, r⟩ = some (id, ev)) (hmark : Log.marked [⟨c, r⟩] = [])
    (hcreated : c.created r = some id) (hfresh : freshRely h c r) (hnew : o.Took env [])
    (horiginal : o.toEventSpan.original = none) (hadd : o.addToSpan env ev = (true, o')) :
    Placing env offered (h ++ [⟨c, r⟩]) room ({(id, o')} + spans) := by
  have hid : id ∉ h.created := hfresh.2 id hcreated
  have hsources : Log.sources (h ++ [⟨c, r⟩]) = h.sources := Log.sources_unmarked hmark
  have hgrown : Log.created (h ++ [⟨c, r⟩]) = h.created ++ [id] := by
    rw [Log.created_append, Log.created_singleton, hcreated]
    rfl
  have hkept : ∀ s ∈ spans, id ≠ s.1 := fun s hs heq => hid (heq ▸ hh.created s hs)
  have hcases : ∀ {P : Nat × SpanObject → Prop}, P (id, o') → (∀ s ∈ spans, P s) →
      ∀ s ∈ ({(id, o')} + spans : Multiset (Nat × SpanObject)), P s := by
    intro P hnew hold s hs
    rcases Multiset.mem_add.mp hs with hmem | hmem
    · exact Multiset.mem_singleton.mp hmem ▸ hnew
    · exact hold s hmem
  refine ⟨?_, ?_, ?_, ?_, ?_, ?_, ?_, ?_⟩
  · rw [Log.used_concat hplaced, List.append_assoc, List.singleton_append]
    exact hh.room
  · rw [Multiset.map_add, Multiset.map_singleton, Multiset.singleton_add, Multiset.nodup_cons]
    refine ⟨fun hmem => ?_, hh.nodup⟩
    obtain ⟨s, hs, heq⟩ := Multiset.mem_map.mp hmem
    exact hkept s hs heq.symm
  · rw [hgrown]
    exact hcases (by simp) fun s hs => List.mem_append_left _ (hh.created s hs)
  · refine hcases ?_ fun s hs => ?_
    · have hnone : h.eventsOf id = [] :=
        Log.eventsOf_eq_nil fun p hp heq => hid (heq.symm ▸ hh.placedCreated p hp)
      rw [Log.eventsOf_placed hplaced, if_pos rfl, hnone]
      exact hnew.added hadd
    · rw [Log.eventsOf_placed hplaced, if_neg (hkept s hs), List.append_nil]
      exact hh.took s hs
  · refine hcases ?_ hh.original
    have hsame := SpanObject.original_addToSpan env o ev
    rw [hadd] at hsame
    exact hsame.trans horiginal
  · rw [hsources]
    exact hcases (fun _ hmem => hid (hh.sourcesCreated id hmem)) hh.pending
  · rw [hsources, hgrown]
    exact fun s hs => List.mem_append_left _ (hh.sourcesCreated s hs)
  · rw [Log.placed_concat hplaced, hgrown]
    refine List.forall_mem_append.mpr ⟨fun p hp => ?_, List.forall_mem_singleton.mpr ?_⟩
    · exact List.mem_append_left _ (hh.placedCreated p hp)
    · simp

/-- The events of a span are handed over. If the span stays, it is complete. -/
theorem mark (hh : Placing env offered h room spans) {content : SpanObject} {span : Nat}
    (hcreated : content.source span ∈ h.created)
    (hdone : ∀ s ∈ spans, s.1 = content.source span → s.2.toEventSpan.isPending = false) :
    Placing env offered (h ++ [⟨.markSpanAsDone span content, ()⟩]) room spans := by
  have hplaced : Log.placedBy ⟨.markSpanAsDone span content, ()⟩ = none := rfl
  have hsources : Log.sources (h ++ [⟨.markSpanAsDone span content, ()⟩]) =
      h.sources ++ [content.source span] := by
    simp [Log.sources, Log.marked]
  have hsame : Log.created (h ++ [⟨.markSpanAsDone span content, ()⟩]) = h.created :=
    (Log.created_append h _).trans (List.append_nil _)
  refine ⟨?_, hh.nodup, ?_, fun s hs => ?_, hh.original, fun s hs hpending => ?_, ?_, ?_⟩
  · unfold Log.used
    rw [Log.placed_unplaced hplaced]
    exact hh.room
  · rw [hsame]
    exact hh.created
  · rw [Log.eventsOf_unplaced hplaced]
    exact hh.took s hs
  · rw [hsources, List.mem_append, List.mem_singleton]
    rintro (hmem | heq)
    · exact hh.pending s hs hpending hmem
    · rw [hdone s hs heq] at hpending
      cases hpending
  · rw [hsources, hsame]
    exact List.forall_mem_append.mpr
      ⟨hh.sourcesCreated, List.forall_mem_singleton.mpr hcreated⟩
  · rw [Log.placed_unplaced hplaced, hsame]
    exact hh.placedCreated

end Placing

/-- `AddToSpan` of a class is that of its objects, and a new object holds nothing. -/
class SpanClass.Lawful (St : Type) [SpanClass St] : Prop where
  addToSpan : ∀ env (s : St) ev,
    (toObject s).addToSpan env ev = SpanObject.add env s ev

namespace SpanClass

instance : Lawful HostCallSpan := ⟨fun _ _ _ => rfl⟩
instance : Lawful HostIntSpan := ⟨fun _ _ _ => rfl⟩
instance : Lawful HostDmaSpan := ⟨fun _ _ _ => rfl⟩
instance : Lawful HostMmioSpan := ⟨fun _ _ _ => rfl⟩
instance : Lawful HostMsixSpan := ⟨fun _ _ _ => rfl⟩
instance : Lawful HostPciSpan := ⟨fun _ _ _ => rfl⟩
instance : Lawful NicMsixSpan := ⟨fun _ _ _ => rfl⟩
instance : Lawful NicMmioSpan := ⟨fun _ _ _ => rfl⟩
instance : Lawful NicDmaSpan := ⟨fun _ _ _ => rfl⟩
instance : Lawful NicEthSpan := ⟨fun _ _ _ => rfl⟩
instance : Lawful NetDeviceSpan := ⟨fun _ _ _ => rfl⟩

end SpanClass

namespace Spanner

variable {St α : Type} [SpanClass St]

/-- A span with its identifier, as an object. -/
def entry (s : Allocated St) : Nat × SpanObject := (s.id, SpanClass.toObject s.span)

/-- The span in a slot. -/
def slotEntry : Option (Allocated St) → Multiset (Nat × SpanObject)
  | none => 0
  | some s => {entry s}

/-- The spans in a list. -/
def entries (spans : List (Allocated St)) : Multiset (Nat × SpanObject) := ↑(spans.map entry)

theorem entries_append (spans spans' : List (Allocated St)) :
    entries (spans ++ spans') = entries spans + entries spans' := by
  simp [entries]

theorem entries_cons (s : Allocated St) (spans : List (Allocated St)) :
    entries (s :: spans) = {entry s} + entries spans := by
  simp [entries]

theorem entries_concat (s : Allocated St) (spans : List (Allocated St)) :
    entries (spans ++ [s]) = {entry s} + entries spans := by
  rw [entries_append, entries_cons, add_comm]
  simp [entries]

variable {env : TraceEnvironment} {offered room : List Event} {h : Log}
  {spans : Multiset (Nat × SpanObject)} {ev : Event}

/-- A new object of the class that holds nothing. -/
def IsNew (env : TraceEnvironment) (new : St) : Prop :=
  (SpanClass.toObject new).Took env [] ∧ (SpanClass.toObject new).toEventSpan.original = none

theorem IsNew.of_shape {new : St} (shape : SpanShape)
    (hnew : SpanClass.toObject new = shape.fresh) : IsNew env new := by
  refine ⟨hnew ▸ .fresh shape, ?_⟩
  rw [hnew]
  cases shape <;> rfl

theorem holds_throw {post : Log → α → Prop} :
    Keeps (accounts env offered) freshRely post throw h :=
  keeps_throw trivial

theorem holds_throwIfEmpty (hh : Placing env offered h room spans) {o : Option α} :
    Keeps (accounts env offered) freshRely
      (fun h' a => Placing env offered h' room spans ∧ o = some a) (throwIfEmpty o) h :=
  keeps_throwIfEmpty (fun _ => trivial) fun _ ha => ⟨hh, ha⟩

theorem holds_whenever (hh : Placing env offered h room spans) {c : Bool} {x : Spanning Unit}
    (hx : c = true → Keeps (accounts env offered) freshRely
      (fun h' _ => Placing env offered h' room spans) x h) :
    Keeps (accounts env offered) freshRely (fun h' _ => Placing env offered h' room spans)
      (whenever c x) h :=
  keeps_whenever hx fun _ => hh

theorem holds_popPropagateContext (hh : Placing env offered h room spans) {source : Channel}
    {expected : Option Expectation} :
    Keeps (accounts env offered) freshRely (fun h' _ => Placing env offered h' room spans)
      (popPropagateContext source expected) h :=
  keeps_perform trivial fun _ _ => hh.other rfl rfl

theorem holds_pushPropagateContext (hh : Placing env offered h room spans) {exp : Expectation}
    {dest : Channel} {parent : Nat} :
    Keeps (accounts env offered) freshRely (fun h' _ => Placing env offered h' room spans)
      (pushPropagateContext exp dest parent) h :=
  keeps_pushPropagateContext trivial fun _ _ => ⟨trivial, (hh.other rfl rfl).other rfl rfl⟩

/-- A complete span is handed over, and may stay where it is. -/
theorem holds_markSpanAsDone {s : Allocated St} (hh : Placing env offered h room spans)
    (hs : entry s ∈ spans) (hcomplete : isComplete s = true) :
    Keeps (accounts env offered) freshRely (fun h' _ => Placing env offered h' room spans)
      (markSpanAsDone s) h := by
  have hdone : (SpanClass.toObject s.span).toEventSpan.isPending = false := by
    simpa [SpanClass.isComplete, EventSpan.isComplete] using hcomplete
  have hsource : (SpanClass.toObject s.span).source s.id = s.id := by
    have horiginal : (SpanClass.toObject s.span).toEventSpan.original = none := hh.original _ hs
    unfold SpanObject.source
    rw [horiginal]
    rfl
  have htook : (SpanClass.toObject s.span).Took env (h.eventsOf s.id) := hh.took _ hs
  have hevents := htook.events
  refine keeps_perform ⟨?_, ?_, ?_⟩ fun _ _ => hh.mark ?_ fun s' hs' heq => ?_
  · rw [hsource]
    exact hh.created _ hs
  · rw [hsource]
    exact hevents
  · rw [hevents]
    exact htook.word hdone
  · rw [hsource]
    exact hh.created _ hs
  · rw [hsource] at heq
    have hsame : s' = entry s := Multiset.inj_on_of_nodup_map hh.nodup _ hs' _ hs heq
    rw [hsame]
    exact hdone

/-- A complete span is handed over, and is gone. -/
theorem holds_markSpanAsDone_gone {s : Allocated St}
    (hh : Placing env offered h room ({entry s} + spans)) (hcomplete : isComplete s = true) :
    Keeps (accounts env offered) freshRely (fun h' _ => Placing env offered h' room spans)
      (markSpanAsDone s) h :=
  (holds_markSpanAsDone hh (by simp) hcomplete).mono fun _ _ hh' => hh'.drop

/-- What is complete is handed over, and the rest stays. -/
theorem holds_markComplete {s : Allocated St}
    (hh : Placing env offered h room (spans + if isComplete s then {entry s} else 0)) :
    Keeps (accounts env offered) freshRely (fun h' _ => Placing env offered h' room spans)
      (whenever (isComplete s) (markSpanAsDone s)) h := by
  by_cases hcomplete : isComplete s = true
  · rw [if_pos hcomplete, add_comm] at hh
    exact keeps_whenever (fun _ => holds_markSpanAsDone_gone hh hcomplete) fun hfalse => by
      cases hcomplete.symm.trans hfalse
  · rw [if_neg hcomplete, add_zero] at hh
    exact keeps_whenever (fun htrue => absurd htrue hcomplete) fun _ => hh

variable [SpanClass.Lawful St]

theorem addToSpan_entry {s span : St} {added : Bool}
    (hadd : SpanClass.addToSpan env s ev = (added, span)) :
    (SpanClass.toObject s).addToSpan env ev = (added, SpanClass.toObject span) := by
  rw [SpanClass.Lawful.addToSpan, SpanObject.add, hadd]

/-- An event is offered to a span. -/
theorem holds_addToSpan {s : Allocated St}
    (hh : Placing env offered h (ev :: room) ({entry s} + spans)) :
    Keeps (accounts env offered) freshRely (fun h' r =>
      Placing env offered h' (if r.1 then room else ev :: room) ({entry r.2} + spans) ∧
        SpanClass.addToSpan env s.span ev = (r.1, r.2.span)) (addToSpan env s ev) h := by
  refine keeps_addToSpan (fun span hadd => ?_) fun span hadd => ⟨?_, hadd⟩
  · obtain ⟨hguar, hh'⟩ := hh.add (addToSpan_entry hadd)
    exact ⟨hguar, hh', hadd⟩
  · have hentry := addToSpan_entry hadd
    have hh' : Placing env offered h (ev :: room)
        (({entry s} : Multiset (Nat × SpanObject)).map
          (fun s => (s.1, (s.2.addToSpan env ev).2)) + spans) :=
      hh.refuse fun s' hs' => by
        rw [Multiset.mem_singleton.mp hs']
        exact congrArg Prod.fst hentry
    rw [Multiset.map_singleton] at hh'
    have hsame : ((entry s).1, ((entry s).2.addToSpan env ev).2) =
        entry (⟨s.id, span⟩ : Allocated St) := by
      unfold entry
      rw [hentry]
    rwa [hsame] at hh'

theorem refuse_entries {pending : List (Allocated St)}
    (hh : Placing env offered h room (entries pending + spans))
    (hrefused : ∀ p ∈ pending, (SpanClass.addToSpan env p.span ev).1 = false) :
    Placing env offered h room (entries (pending.map (offer env ev)) + spans) := by
  have hentry : ∀ p : Allocated St,
      ((entry p).1, ((entry p).2.addToSpan env ev).2) = entry (offer env ev p) := by
    intro p
    unfold entry
    rw [addToSpan_entry rfl]
    rfl
  have hmap : (entries pending).map (fun s => (s.1, (s.2.addToSpan env ev).2)) =
      entries (pending.map (offer env ev)) := by
    unfold entries
    rw [Multiset.map_coe, List.map_map, List.map_map]
    exact congrArg _ (List.map_congr_left fun p _ => hentry p)
  rw [← hmap]
  refine hh.refuse fun s hs => ?_
  obtain ⟨p, hp, rfl⟩ := List.mem_map.mp (Multiset.mem_coe.mp hs)
  exact (congrArg Prod.fst (addToSpan_entry rfl)).trans (hrefused p hp)

/-- The event is put into the first span that takes it, which stays in the list if it is not
complete. -/
theorem holds_iterateAddErase {pending : List (Allocated St)}
    (hh : Placing env offered h (ev :: room) (entries pending + spans)) :
    Keeps (accounts env offered) freshRely (fun h' r =>
      match r.1 with
      | none => Placing env offered h' (ev :: room) (entries r.2 + spans)
      | some p => Placing env offered h' room
          (entries r.2 + spans + if isComplete p then {entry p} else 0))
      (iterateAddErase env pending ev) h := by
  obtain ⟨hnone, hall⟩ | ⟨front, p, back, rfl, hfront, htakes, hsome⟩ :=
    findAddErase_cases env pending ev
  · refine keeps_iterateAddErase (fun rest hfind => ?_) fun p rest hfind => ?_
    · cases hnone.symm.trans hfind
      exact refuse_entries hh hall
    · cases hnone.symm.trans hfind
  · refine keeps_iterateAddErase (fun rest hfind => ?_) fun p' rest hfind => ?_
    · cases hsome.symm.trans hfind
    · cases hsome.symm.trans hfind
      rw [entries_append, entries_cons, add_assoc] at hh
      have hh' := refuse_entries hh hfront
      have hadd : SpanClass.addToSpan env p.span ev = (true, (offer env ev p).span) :=
        Prod.ext htakes rfl
      have horder : entries (front.map (offer env ev)) + ({entry p} + entries back + spans) =
          {entry p} + (entries (front.map (offer env ev)) + entries back + spans) := by
        abel
      rw [horder] at hh'
      obtain ⟨hguar, hh''⟩ := hh'.add (addToSpan_entry hadd)
      refine ⟨hguar, ?_⟩
      have hrest : entries (front.map (offer env ev) ++
            if isComplete (offer env ev p) then back else offer env ev p :: back) + spans +
          (if isComplete (offer env ev p) then {entry (offer env ev p)} else 0) =
          {entry (offer env ev p)} +
            (entries (front.map (offer env ev)) + entries back + spans) := by
        rw [entries_append]
        by_cases hcomplete : isComplete (offer env ev p) = true
        · rw [if_pos hcomplete, if_pos hcomplete]
          abel
        · rw [if_neg hcomplete, if_neg hcomplete, entries_cons]
          abel
      dsimp only
      rw [hrest]
      exact hh''

theorem holds_startSpan (hh : Placing env offered h (ev :: room) spans) {new : St}
    (hnew : IsNew env new) :
    Keeps (accounts env offered) freshRely (fun h' s =>
      Placing env offered h' room ({entry s} + spans) ∧
        SpanClass.addToSpan env new ev = (true, s.span)) (startSpan env new ev) h := by
  cases hadd : SpanClass.addToSpan env new ev with
  | mk accepted span =>
    refine keeps_startSpan hadd (hh.next) fun id hid => ?_
    obtain rfl : accepted = true := World.accepted_of_possible hid.1
    exact ⟨hh.create rfl rfl rfl hid hnew.1 hnew.2 (addToSpan_entry hadd), rfl⟩

theorem holds_startSpanByParent (hh : Placing env offered h (ev :: room) spans) {new : St}
    (hnew : IsNew env new) (parent : Nat) :
    Keeps (accounts env offered) freshRely (fun h' s =>
      Placing env offered h' room ({entry s} + spans) ∧
        SpanClass.addToSpan env new ev = (true, s.span))
      (startSpanByParent env new parent ev) h := by
  cases hadd : SpanClass.addToSpan env new ev with
  | mk accepted span =>
    refine keeps_startSpanByParent hadd trivial fun ref _ => ?_
    have hh₁ := hh.other (c := .readParent parent) (r := ref) rfl rfl
    refine ⟨hh₁.next, fun id hid => ?_⟩
    obtain rfl : accepted = true := World.accepted_of_possible hid.1
    exact ⟨hh₁.create rfl rfl rfl hid hnew.1 hnew.2 (addToSpan_entry hadd), rfl⟩

theorem holds_startSpanByParentPassOnContext (hh : Placing env offered h (ev :: room) spans)
    {new : St} (hnew : IsNew env new) (context : Context) :
    Keeps (accounts env offered) freshRely (fun h' s =>
      Placing env offered h' room ({entry s} + spans) ∧
        SpanClass.addToSpan env new ev = (true, s.span))
      (startSpanByParentPassOnContext env new context ev) h := by
  cases hadd : SpanClass.addToSpan env new ev with
  | mk accepted span =>
    refine keeps_startSpanByParentPassOnContext hadd hh.next fun id hid => ?_
    obtain rfl : accepted = true := World.accepted_of_possible hid.1
    exact ⟨hh.create rfl rfl rfl hid hnew.1 hnew.2 (addToSpan_entry hadd), rfl⟩

end Spanner

end Columbo
