import Columbo.EventAccounts
import Columbo.ParsedEvents

/-!
# The transactions of a trace

A span that the program exports is a finished transaction of the events of one file: the events of
one access, of one packet or of one system call, in the order of the lines. Every one of them has
attributes, so that the export cannot throw.
-/
namespace Columbo

open Coroutine

/-- The events of a span are among those that were used, in their order. -/
theorem Log.eventsOf_sublist_used (h : Log) (id : Nat) : (h.eventsOf id).Sublist h.used := by
  have hused : h.used = h.filterMap fun e => (Log.placedBy e).map Prod.snd := by
    rw [Log.used, Log.placed, List.map_filterMap]
  rw [hused]
  unfold Log.eventsOf
  induction h with
  | nil => exact .slnil
  | cons e h ih =>
    have hrest := ih (by rw [Log.used, Log.placed, List.map_filterMap])
    rw [List.filterMap_cons, List.filterMap_cons, Log.taken_eq]
    cases Log.placedBy e with
    | none => exact hrest
    | some p =>
      by_cases hid : p.1 = id
      · simpa [hid] using hrest
      · simpa [hid] using hrest.cons p.2

theorem HostSpanner.mem_offered {evs : List Event} {ev : Event} :
    ev ∈ offered evs ↔ ev ∈ evs := by
  induction evs with
  | nil => rfl
  | cons first evs ih =>
    unfold offered
    split_ifs
    · simp
    · simp [ih]

theorem SpannerClass.mem_offered (cls : SpannerClass) {evs : List Event} {ev : Event} :
    ev ∈ (cls.handling evs).offered ↔ ev ∈ evs := by
  cases cls with
  | host => exact HostSpanner.mem_offered
  | nic => rfl
  | network => rfl

/-- A call that a parser accepts has both names. -/
theorem Parser.Accepts.isSome {parser : Parser} {ev : Event} (h : parser.Accepts ev) (pc : UInt64)
    (func comp : Option Bytes) (hkind : ev.kind = .hostCall pc func comp) :
    func.isSome ∧ comp.isSome := by
  have hnamed := h.kind.named
  rw [hkind] at hnamed
  obtain ⟨f, c, rfl, rfl, -⟩ := hnamed
  exact ⟨rfl, rfl⟩

/-- The spans of a system are transactions: what a spanner puts into spans are some of the events
that it is offered, in their order, and what is exported was handed over by one spanner, as the
finished transaction that it had put into the span, or into the one that it is a copy of. -/
structure Transactions {ι : Type} (env : TraceEnvironment) (offered : ι → List Event)
    (t : SystemState ι) : Prop where
  used : ∀ i, (Log.used (t.history i)).Sublist (offered i)
  exported : ∀ span ∈ t.world.tracer.exporter.exported, ∃ i content,
    (span, content) ∈ Log.marked (t.history i) ∧
      (∀ j content', (span, content') ∈ Log.marked (t.history j) → j = i ∧ content' = content) ∧
      content.toEventSpan.events = Log.eventsOf (t.history i) (content.source span) ∧
      content.Word env content.toEventSpan.events ∧
      ∀ ev ∈ content.toEventSpan.events, (OtlpSpanExporter.attributesOf ev).isSome = true

variable {ι : Type} [DecidableEq ι]

/-- A span is handed over once. -/
theorem SystemState.marked_unique {env : TraceEnvironment} {rounds : Nat} {setup : ι → Setup}
    {allowed : SystemState ι → Move ι Command → Prop} {w : World} {t : SystemState ι}
    (ht : Transition.Reachable SystemState.step allowed (SystemState.start env rounds setup w) t)
    {i j : ι} {span : Nat} {content content' : SpanObject}
    (hi : (span, content) ∈ Log.marked (t.history i))
    (hj : (span, content') ∈ Log.marked (t.history j)) : j = i ∧ content' = content := by
  obtain ⟨hfollowed, hsep⟩ := SystemState.followed (fun _ => finishes)
    (fun i => keeps_finishes env rounds (setup i)) ht
  have hmarked := fun i => marked_of_followed (hfollowed i)
  have hcreated : ∀ {k content}, (span, content) ∈ Log.marked (t.history k) →
      span ∈ Log.created (t.history k) :=
    fun {k content} hk => (hmarked k).2.2 span (List.mem_map.mpr ⟨_, hk, rfl⟩)
  have hsame : j = i := by
    by_contra hne
    exact hsep.disjoint j i hne (hcreated hj) (hcreated hi)
  subst hsame
  exact ⟨rfl, congrArg Prod.snd (List.inj_on_of_nodup_map (hmarked j).2.1 hj hi rfl)⟩

namespace TraceProgram

variable {B eventBufferSize capacity : ℕ} {env : TraceEnvironment} {rounds : ℕ}
  {setup : ι → TracePipeline} {s : TraceProgram ι B eventBufferSize capacity}

/-- Whatever the files hold, whatever the filters do and in whatever order the coroutines go on:
the exported spans are transactions of the events that reach the spanners. -/
theorem exports_transactions (hsize : 0 < eventBufferSize) (hcapacity : 0 < capacity)
    (h : Reaches env rounds setup s) : ∃ t : SystemState ι,
      Transition.Reachable SystemState.step (fun _ move => ∃ i, move = .act i)
        (SystemState.start env rounds
          (fun i => (setup i).consumer.handling ((setup i).events B)) World.init) t ∧
      t.world = s.world ∧ Transactions env
        (fun i => ((setup i).consumer.handling ((setup i).events B)).offered) t := by
  obtain ⟨t, ht, hhandles⟩ :=
    Transition.Simulates.reachable (simulates hsize hcapacity) handles_start h
  have haccounted := SystemState.accounted ht
  refine ⟨t, ht, hhandles.world, fun i => (haccounted i).used, fun span hspan => ?_⟩
  obtain ⟨st, hst, hsp, -⟩ := SystemState.stands ht
  obtain ⟨i, content, hmarked, -⟩ := (hst.exports hsp).complete span hspan
  obtain ⟨-, hevents, hword⟩ := (haccounted i).handedOver _ hmarked
  refine ⟨i, content, hmarked, fun j content' hj => SystemState.marked_unique ht hmarked hj,
    hevents, hword, fun ev hev => ?_⟩
  have hused : ev ∈ Log.used (t.history i) :=
    (Log.eventsOf_sublist_used _ _).subset (hevents ▸ hev)
  have hreached : ev ∈ (setup i).events B :=
    (SpannerClass.mem_offered _).mp ((haccounted i).used.subset hused)
  exact isSome_attributesOf (hword.not_unexpected hev)
    (TracePipeline.accepts_of_mem hreached).isSome

/-- A packet passes a device of the network. -/
def packetSetup (_ : Unit) : TracePipeline where
  logParser := .ns3 ⟨bytes "ns3", 1⟩
  content :=
    bytes "+1 NodeList/0 DeviceList/2 ns3::CosimNetDevice Packet-Uid=7 Intersting=false\n" ++
    bytes "-2 NodeList/0 DeviceList/2 ns3::CosimNetDevice Packet-Uid=7 Intersting=false\n"
  chunks _ := 100
  handlers := []
  consumer := .network ⟨fun _ _ => none, fun _ _ => none⟩ ⟨[(0, 2)]⟩

/-- The two events come to the spanner, which hands the span over. -/
def untilExported : List (Move Unit) :=
  [.pipeline () (.pipeline .produce), .pipeline () .fill, .pipeline () .fill,
    .pipeline () (.pipeline .produce), .pipeline () (.pipeline .produce),
    .pipeline () (.pipeline .consume), .spanner (), .pipeline () (.pipeline .consume),
    .pipeline () .fill, .pipeline () .fill, .pipeline () (.pipeline .produce),
    .pipeline () (.pipeline .produce), .pipeline () (.pipeline .consume), .spanner (),
    .spanner ()]

/-- The span of the packet is exported. -/
theorem exports_transactions_packet : ∃ t : SystemState Unit,
    t.world.tracer.exporter.exported = [1] ∧ Transactions noNames
      (fun i => ((packetSetup i).consumer.handling ((packetSetup i).events 100)).offered) t := by
  have hrun : ((Transition.follow (step noNames 0) (fun _ _ => True)
      (start packetSetup : TraceProgram Unit 100 1 1) untilExported).map
        fun s => s.world.tracer.exporter.exported) = some [1] := by
    decide +kernel
  obtain ⟨s, hs, hexported⟩ := Option.map_eq_some_iff.mp hrun
  obtain ⟨t, -, hworld, htransactions⟩ := exports_transactions
    Nat.one_pos Nat.one_pos (Transition.Reachable.refl.follow hs)
  exact ⟨t, by rw [hworld, hexported], htransactions⟩

end TraceProgram

end Columbo
