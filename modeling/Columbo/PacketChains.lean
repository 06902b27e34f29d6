import Columbo.FinishedSpans

/-!
# The spans of a packet

A packet inside the network gets the span that was finished last as its predecessor,
whichever packet that belongs to. The history of the spanner tells which span that is.
-/
namespace Columbo

open Coroutine Spanner

namespace Log

/-- The device spans handed over so far, with the packets that they belong to. -/
def finishedDevices (h : Log) : List (Nat × UInt64) :=
  (marked h).filterMap fun
    | (span, .netDevice s) => s.devEnq.map fun enq => (span, enq.packetUid)
    | _ => none

@[simp] theorem finishedDevices_append (h h' : Log) :
    finishedDevices (h ++ h') = finishedDevices h ++ finishedDevices h' := by
  unfold finishedDevices
  rw [marked_append, List.filterMap_append]

/-- After `past`, a span starts for a packet that does not come from an adapter. -/
def Continues (h past : Log) (net : NetworkEvent) (context : Context) : Prop :=
  ∃ (ev : Event) (accepted : Bool) (id : Nat) (rest : Log),
    h = past ++ ⟨.startSpanByParentPassOnContext .kNetDeviceSpan context ev accepted, id⟩ :: rest ∧
      ev.network = some net ∧ net.boundaryType ≠ .kFromAdapter

theorem continues_of_getElem? {h : Log} {n : Nat} {context : Context} {ev : Event}
    {accepted : Bool} {id : Nat} {net : NetworkEvent}
    (hn : h[n]? = some
      ⟨.startSpanByParentPassOnContext .kNetDeviceSpan context ev accepted, id⟩)
    (hnet : ev.network = some net) (hfrom : net.boundaryType ≠ .kFromAdapter) :
    Continues h (h.take n) net context := by
  obtain ⟨hlt, hget⟩ := List.getElem?_eq_some_iff.mp hn
  refine ⟨ev, accepted, id, h.drop (n + 1), ?_, hnet, hfrom⟩
  rw [← hget, ← List.drop_eq_getElem_cons hlt, List.take_append_drop]

/-- A finished span of the packet is the parent, if there is one. -/
def Chained (h : Log) : Prop :=
  ∀ past net context, Continues h past net context →
    net.packetUid ∈ (finishedDevices past).map Prod.snd →
      (context.parent.id, net.packetUid) ∈ finishedDevices past

/-- If a span of the packet is finished, then the span finished last is one. -/
def LastOfPacket (h : Log) : Prop :=
  ∀ past net context, Continues h past net context →
    net.packetUid ∈ (finishedDevices past).map Prod.snd →
      ∃ last, (finishedDevices past).getLast? = some last ∧ last.2 = net.packetUid

/-- A span has one packet. -/
theorem finishedDevices_unique {h : Log} (hnodup : ((marked h).map Prod.fst).Nodup)
    {span : Nat} {uid uid' : UInt64} (hf : (span, uid) ∈ finishedDevices h)
    (hf' : (span, uid') ∈ finishedDevices h) : uid = uid' := by
  have hmarked : ∀ {uid : UInt64}, (span, uid) ∈ finishedDevices h →
      ∃ s : NetDeviceSpan, (span, .netDevice s) ∈ marked h ∧
        s.devEnq.map NetworkEvent.packetUid = some uid := by
    intro uid hmem
    obtain ⟨⟨id, content⟩, hm, heq⟩ := List.mem_filterMap.mp hmem
    cases content with
    | netDevice s =>
      obtain ⟨enq, henq, hpair⟩ := Option.map_eq_some_iff.mp heq
      obtain ⟨rfl, rfl⟩ := Prod.mk.inj hpair
      exact ⟨s, hm, by rw [henq]; rfl⟩
    | _ => cases heq
  obtain ⟨s, hs, huid⟩ := hmarked hf
  obtain ⟨s', hs', huid'⟩ := hmarked hf'
  have hsame := List.inj_on_of_nodup_map hnodup hs hs' rfl
  obtain rfl := SpanObject.netDevice.inj (congrArg Prod.snd hsame)
  exact Option.some.inj (huid.symm.trans huid')

end Log

/-- A span inside the network starts with the span finished last as its parent. -/
def continuesLast (h : Log) : Command → Prop
  | .startSpanByParentPassOnContext _ context ev _ =>
    ∀ net, ev.network = some net → net.boundaryType ≠ .kFromAdapter →
      (Log.finishedDevices h).getLast?.map Prod.fst = some context.parent.id
  | _ => True

namespace NetworkSpanner

variable {env : TraceEnvironment} {queues : NetworkQueues} {filter : NodeDeviceFilter}
  {st : NetworkSpanner} {ev : Event} {net : NetworkEvent} {h : Log}

/-- The spanner knows the span finished last, and the active ones have their first event. -/
structure Tracks (h : Log) (st : NetworkSpanner) : Prop where
  last : (Log.finishedDevices h).getLast?.map Prod.fst =
    st.lastFinishedDeviceSpan.map Allocated.id
  active : ∀ s ∈ st.currentActiveDeviceSpans, s.span.devEnq.isSome

/-- An operation that hands nothing over. -/
theorem Tracks.other {c : Command} {r : c.Response} (hst : Tracks h st)
    (hmark : Log.marked [⟨c, r⟩] = []) : Tracks (h ++ [⟨c, r⟩]) st := by
  have hsame : Log.finishedDevices (h ++ [⟨c, r⟩]) = Log.finishedDevices h := by
    unfold Log.finishedDevices
    rw [Log.marked_append, hmark, List.append_nil]
  exact ⟨by rw [hsame]; exact hst.last, hst.active⟩

theorem Tracks.withActive (hst : Tracks h st) {active : List (Allocated NetDeviceSpan)}
    (hactive : ∀ s ∈ active, s.span.devEnq.isSome) :
    Tracks h { st with currentActiveDeviceSpans := active } :=
  ⟨hst.last, hactive⟩

theorem tracks_throw {α : Type} {post : Log → α → Prop} :
    Keeps continuesLast freshRely post throw h :=
  keeps_throw trivial

theorem tracks_whenever_throw {c : Bool} (hst : Tracks h st) :
    Keeps continuesLast freshRely (fun h' _ => Tracks h' st) (whenever c throw) h :=
  keeps_whenever (fun _ => tracks_throw) fun _ => hst

theorem tracks_connectToAdapter (hst : Tracks h st) (s : Allocated NetDeviceSpan) :
    Keeps continuesLast freshRely (fun h' _ => Tracks h' st) (connectToAdapter queues s) h := by
  unfold connectToAdapter
  split_ifs
  · refine keeps_bind ((tracks_whenever_throw hst).mono fun h₁ _ hst₁ => ?_)
    refine keeps_bind (keeps_throwIfEmpty (fun _ => trivial) fun toHost _ => ?_)
    exact keeps_pushPropagateContext trivial fun _ _ => ⟨trivial, (hst₁.other rfl).other rfl⟩
  · exact keeps_pure hst

theorem tracks_finishDeviceSpan (hst : Tracks h st) {s : Allocated NetDeviceSpan}
    (henq : s.span.devEnq.isSome) :
    Keeps continuesLast freshRely (fun h' r => Tracks h' r.2) (finishDeviceSpan queues st s) h := by
  obtain ⟨enq, henq⟩ := Option.isSome_iff_exists.mp henq
  unfold finishDeviceSpan
  refine keeps_bind ((tracks_whenever_throw hst).mono fun h₁ _ hst₁ => ?_)
  refine keeps_bind ((tracks_connectToAdapter hst₁ s).mono fun h₂ _ hst₂ => ?_)
  refine keeps_bind (keeps_perform trivial fun () _ => keeps_pure ⟨?_, hst₂.active⟩)
  have hnew : Log.finishedDevices
      [⟨.markSpanAsDone s.id (SpanClass.toObject s.span), ()⟩] = [(s.id, enq.packetUid)] := by
    simp [Log.finishedDevices, Log.marked, SpanClass.toObject, henq]
  rw [Log.finishedDevices_append, hnew]
  simp

/-- The parent is the span finished last, unless the packet comes from an adapter. -/
theorem tracks_contextToConnectWith (hst : Tracks h st) :
    Keeps continuesLast freshRely (fun h' context => Tracks h' st ∧
      (net.boundaryType ≠ .kFromAdapter →
        (Log.finishedDevices h').getLast?.map Prod.fst = some context.parent.id))
      (contextToConnectWith queues st net) h := by
  unfold contextToConnectWith
  split_ifs with hfrom
  · have hvoid : ∀ {p : Prop}, net.boundaryType ≠ .kFromAdapter → p := fun hne => absurd hfrom hne
    refine keeps_bind ((tracks_whenever_throw hst).mono fun h₁ _ hst₁ => ?_)
    refine keeps_bind (keeps_throwIfEmpty (fun _ => trivial) fun fromHost _ => ?_)
    refine keeps_bind (keeps_perform trivial fun context _ => ?_)
    refine keeps_bind ((tracks_whenever_throw (hst₁.other rfl)).mono fun h₃ _ hst₃ => ?_)
    exact keeps_pure ⟨hst₃, hvoid⟩
  · refine keeps_bind (keeps_throwIfEmpty (fun _ => trivial) fun last hlast => ?_)
    refine keeps_perform trivial fun (context : Context) hrely => ?_
    have hkept := hst.other (c := .createPassOnContext .kRx last.id) (r := context) rfl
    have hparent : context.parent.id = last.id := (World.passOn_of_possible hrely.1).2
    refine ⟨hkept, fun _ => ?_⟩
    rw [hkept.last, hlast, Option.map_some, hparent]

theorem tracks_startDeviceSpan (hst : Tracks h st) (hnet : ev.network = some net) :
    Keeps continuesLast freshRely (fun h' r => Tracks h' r.2)
      (startDeviceSpan env queues filter st ev net) h := by
  have hconcat : ∀ {h' : Log} {span : NetDeviceSpan} {id : Nat}, Tracks h' st →
      SpanClass.addToSpan env ({ } : NetDeviceSpan) ev = (true, span) →
      Tracks h' { st with
        currentActiveDeviceSpans := st.currentActiveDeviceSpans ++ [⟨id, span⟩] } := by
    intro h' span id hst hadd
    have hnew : span.devEnq.isSome := by
      rw [(NetDeviceSpan.addToSpan_new hadd hnet).1]
      rfl
    exact hst.withActive
      (List.forall_mem_append.mpr ⟨hst.active, List.forall_mem_singleton.mpr hnew⟩)
  unfold startDeviceSpan
  cases hadd : SpanClass.addToSpan env ({ } : NetDeviceSpan) ev with
  | mk accepted span =>
    split_ifs
    · exact keeps_pure hst
    · refine keeps_bind (keeps_startSpan hadd trivial fun id hid => keeps_pure ?_)
      obtain rfl : accepted = true := World.accepted_of_possible hid.1
      exact hconcat (hst.other rfl) hadd
    · exact keeps_pure hst
    · refine keeps_bind ((tracks_contextToConnectWith hst).mono fun h₁ context hcontext => ?_)
      obtain ⟨hst₁, hparent⟩ := hcontext
      refine keeps_bind (keeps_startSpanByParentPassOnContext hadd ?_ fun id hid => keeps_pure ?_)
      · intro net' hnet' hfrom
        obtain rfl : net = net' := Option.some.inj (hnet.symm.trans hnet')
        exact hparent hfrom
      · obtain rfl : accepted = true := World.accepted_of_possible hid.1
        exact hconcat (hst₁.other rfl) hadd

theorem tracks_handelNetworkEvent (hst : Tracks h st) :
    Keeps continuesLast freshRely (fun h' r => Tracks h' r.2)
      (handelNetworkEvent env queues filter st ev) h := by
  unfold handelNetworkEvent
  cases hnet : ev.network with
  | none => exact keeps_pure hst
  | some net =>
    dsimp only
    split_ifs
    · exact keeps_pure hst
    · have hkeeps : ∀ s : NetDeviceSpan, s.devEnq.isSome = true →
          (SpanClass.addToSpan env s ev).2.devEnq.isSome = true := by
        intro s hs
        obtain ⟨enq, henq⟩ := Option.isSome_iff_exists.mp hs
        have hkept : (SpanClass.addToSpan env s ev).2.devEnq = some enq :=
          s.addToSpan_devEnq ev henq
        rw [hkept]
        rfl
      have hactive := findAddErase_forall hkeeps hst.active
      refine keeps_bind (keeps_iterateAddErase (fun rest hfind => ?_) fun s rest hfind => ?_)
      · rw [hfind] at hactive
        exact tracks_startDeviceSpan (hst.withActive hactive.1) hnet
      · rw [hfind] at hactive
        exact ⟨trivial,
          tracks_finishDeviceSpan ((hst.withActive hactive.1).other rfl) (hactive.2 s rfl)⟩

theorem tracks_consumeAll (evs : List Event) :
    Keeps continuesLast freshRely (fun h' st => Tracks h' st)
      (consumeAll env queues filter evs) [] := by
  refine Keeps.foldlM (fun _ h st => Tracks h st) ?_ ⟨rfl, fun s hs => nomatch hs⟩
  intro past ev rest h st _ hst
  have hconsume : Keeps continuesLast freshRely (fun h' r => Tracks h' r.2)
      (consume env queues filter st ev) h := by
    unfold consume
    cases ev.getType with
    | kNetworkEnqueueT | kNetworkDequeueT | kNetworkDropT => exact tracks_handelNetworkEvent hst
    | _ => exact keeps_pure hst
  exact keeps_bind (hconsume.mono fun _ _ hr => keeps_pure hr)

end NetworkSpanner

theorem keeps_continuesLast (env : TraceEnvironment) (rounds : Nat) (queues : NetworkQueues)
    (filter : NodeDeviceFilter) (evs : List Event) :
    Keeps continuesLast freshRely (fun _ _ => True)
      ((Setup.network queues filter evs).program env rounds) [] :=
  keeps_bind ((NetworkSpanner.tracks_consumeAll evs).mono fun _ _ _ => keeps_pure trivial)

theorem Log.chained_iff_lastOfPacket {h : Log} (hh : Log.Followed continuesLast h)
    (hnodup : ((marked h).map Prod.fst).Nodup) : Chained h ↔ LastOfPacket h := by
  have hlast : ∀ past net context, Continues h past net context →
      ∃ uid, (finishedDevices past).getLast? = some (context.parent.id, uid) := by
    rintro past net context ⟨ev, accepted, id, rest, rfl, hnet, hfrom⟩
    have hguar := hh past _ rest rfl net hnet hfrom
    obtain ⟨⟨span, uid⟩, hsome, rfl⟩ := Option.map_eq_some_iff.mp hguar
    exact ⟨uid, hsome⟩
  have hpast : ∀ past net context, Continues h past net context →
      ((marked past).map Prod.fst).Nodup := by
    rintro past net context ⟨ev, accepted, id, rest, rfl, -⟩
    rw [marked_append, List.map_append] at hnodup
    exact hnodup.of_append_left
  constructor
  · intro hchained past net context hcontinues huid
    obtain ⟨uid, hsome⟩ := hlast past net context hcontinues
    have hparent := hchained past net context hcontinues huid
    exact ⟨_, hsome, finishedDevices_unique (hpast past net context hcontinues)
      (List.mem_of_getLast? hsome) hparent⟩
  · intro hof past net context hcontinues huid
    obtain ⟨uid, hsome⟩ := hlast past net context hcontinues
    obtain ⟨last, hlast', hpacket⟩ := hof past net context hcontinues huid
    obtain rfl := Option.some.inj (hsome.symm.trans hlast')
    rw [← hpacket]
    exact List.mem_of_getLast? hsome

/-- In every run, the spans of packets are chained exactly as long as the span finished last
is one of the packet whose next span starts, if any is. The parent that a new span has in
the tracer is the one that the spanner chose. -/
theorem chained_iff {ι : Type} [DecidableEq ι] {env : TraceEnvironment} {rounds : Nat}
    {setup : ι → Setup} {allowed : SystemState ι → Move ι Command → Prop} {w : World}
    {s : SystemState ι} {i : ι} {queues : NetworkQueues} {filter : NodeDeviceFilter}
    {evs : List Event} (hi : setup i = .network queues filter evs)
    (hs : Transition.Reachable SystemState.step allowed (SystemState.start env rounds setup w) s) :
    (Log.Chained (s.history i) ↔ Log.LastOfPacket (s.history i)) ∧
      ∀ (s' : SystemState ι) (context : Context) (ev : Event) (accepted : Bool) (id : Nat),
        s.step (.act i) = some s' →
        s'.history i = s.history i ++
          [⟨.startSpanByParentPassOnContext .kNetDeviceSpan context ev accepted, id⟩] →
        s'.world.tracer.parentOf id = some context.parent.id := by
  refine ⟨?_, ?_⟩
  · obtain ⟨hfollowed, -⟩ := SystemState.followed
      (fun j => if j = i then continuesLast else fun _ _ => True) (fun j => by
        by_cases hj : j = i
        · subst hj
          rw [if_pos rfl, hi]
          exact keeps_continuesLast env rounds queues filter evs
        · rw [if_neg hj]
          exact keeps_true) hs
    have hfollowed_i := hfollowed i
    rw [if_pos rfl] at hfollowed_i
    exact Log.chained_iff_lastOfPacket hfollowed_i ((marked_once hs).2.1 i)
  · intro s' context ev accepted id hstep hhistory
    unfold SystemState.step Coroutine.step at hstep
    cases hprog : s.program i with
    | pure a => simp [hprog] at hstep
    | act c k =>
      simp only [hprog] at hstep
      obtain ⟨⟨r, w'⟩, hexec, rfl⟩ := Option.map_eq_some_iff.mp hstep
      simp only [Function.update_self] at hhistory
      obtain ⟨rfl, hr⟩ := Sigma.mk.inj (List.singleton_inj.mp (List.append_cancel_left hhistory))
      obtain rfl := eq_of_heq hr
      exact World.exec_passOn_parentOf hexec

/-- A packet enters the network at a NIC, and goes on to a device inside of it. -/
def packetAt (uid : UInt64) (node : Int32) (boundaryType : EventBoundaryType) : NetworkEvent :=
  ⟨node, 0, .kCosimNetDevice, uid, true, 64, boundaryType, none, none, some ⟨84, ⟨1⟩, ⟨2⟩⟩⟩

def throughDevice (uid : UInt64) (node : Int32) : List Event :=
  [⟨10, 0, bytes "ns3", .networkEnqueue (packetAt uid node .kFromAdapter)⟩,
    ⟨20, 0, bytes "ns3", .networkDequeue (packetAt uid node .kWithinSimulator)⟩]

/-- The packets pass their first devices, and then packet 1 comes to the next one. -/
def packetsThenNext (others : List UInt64) : Unit → Setup := fun _ =>
  .network ⟨fun node _ => some node.toNatClampNeg, fun _ _ => none⟩ ⟨[(1, 0), (2, 0), (3, 0)]⟩
    (throughDevice 1 1 ++ others.flatMap (throughDevice · 2) ++
      [⟨50, 0, bytes "ns3", .networkEnqueue (packetAt 1 3 .kWithinSimulator)⟩])

theorem chained_iff_onePacket : ∃ s : SystemState Unit,
    (Log.finishedDevices (s.history ())) = [(1, 1)] ∧
      (Log.Chained (s.history ()) ↔ Log.LastOfPacket (s.history ())) := by
  have hstart : Transition.Reachable SystemState.step (fun _ _ => True)
      (SystemState.start noNames 0 (packetsThenNext []) (oneContext .kRx))
      (SystemState.start noNames 0 (packetsThenNext []) (oneContext .kRx)) := .refl
  exact ⟨_, rfl, (chained_iff (i := ()) rfl
    (reachable_of_run (i := ()) (fun _ => trivial) rfl hstart)).1⟩

/-- When another packet passes a device in between, its span becomes the parent. -/
theorem not_chained_twoPackets : ¬ ∀ (setup : Unit → Setup) (w : World) (s : SystemState Unit),
    Transition.Reachable SystemState.step (fun _ _ => True)
      (SystemState.start noNames 0 setup w) s → Log.Chained (s.history ()) := by
  intro hall
  have hstart : Transition.Reachable SystemState.step (fun _ _ => True)
      (SystemState.start noNames 0 (packetsThenNext [2]) (oneContext .kRx))
      (SystemState.start noNames 0 (packetsThenNext [2]) (oneContext .kRx)) := .refl
  have hchained := hall _ _ _ (reachable_of_run (i := ()) (fun _ => trivial) rfl hstart)
  simp only [Function.update_self] at hchained
  have hcontinues := hchained _ (packetAt 1 3 .kWithinSimulator) _
    (Log.continues_of_getElem? (n := 9) rfl rfl (by decide))
  exact absurd (hcontinues (by decide)) (by decide)

end Columbo
