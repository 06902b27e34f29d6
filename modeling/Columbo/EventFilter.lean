import Columbo.SpanSteps
import Columbo.SpannerSystem

/-!
# The filter in front of the spanner of the network

The filter drops events that the spanner would ignore. The spanner offers an event to its
active spans before it looks at the device, so this needs that no active span takes what
the filter drops.
-/
namespace Columbo

/-- `NS3EventFilter`. -/
structure NS3EventFilter where
  nodeDeviceFilter : NodeDeviceFilter

/-- `NS3EventFilter::handel`: whether the event is passed on. The list of the types names
`kNetworkDequeueT` twice and not `kNetworkDropT`. -/
def NS3EventFilter.handel (f : NS3EventFilter) (ev : Event) : Bool :=
  if ev.getType ∉ [.kNetworkEnqueueT, .kNetworkDequeueT, .kNetworkDequeueT] then true
  else match ev.network with
    | none => true
    | some net =>
      if net.interestingFlag && f.nodeDeviceFilter.isNotInterestingNodeDevice net then false
      else if !net.interestingFlag then
        f.nodeDeviceFilter.isInterestingNodeDevice net && net.deviceType = .kCosimNetDevice
      else true

/-- What the filter is meant to say about an event: the pair of node and device has to be
registered, and an event without the flag has to be at a device that is connected to a NIC. -/
def NS3EventFilter.RightVerdict (f : NS3EventFilter) (ev : Event) (net : NetworkEvent) : Prop :=
  (net.interestingFlag = true →
      (f.handel ev = true ↔ f.nodeDeviceFilter.isInterestingNodeDevice net = true)) ∧
    (net.interestingFlag = false →
      (f.handel ev = true ↔ f.nodeDeviceFilter.isInterestingNodeDevice net = true ∧
        net.deviceType = .kCosimNetDevice))

namespace NS3EventFilter

variable {f : NS3EventFilter} {ev : Event} {net : NetworkEvent}

/-- The type list has no drops, so every drop passes. -/
theorem handel_of_drop (hdrop : ev.getType = .kNetworkDropT) : f.handel ev = true := by
  unfold handel
  rw [hdrop, if_pos (by simp)]

theorem getType_of_network (hnet : ev.network = some net) (hdrop : ev.getType ≠ .kNetworkDropT) :
    ev.getType ∈ [EventType.kNetworkEnqueueT, .kNetworkDequeueT, .kNetworkDequeueT] := by
  unfold Event.network at hnet
  unfold Event.getType at hdrop ⊢
  cases hkind : ev.kind <;> simp [hkind, EventKind.getType] at hnet hdrop ⊢

/-- An enqueue or a dequeue gets the verdict it should. -/
theorem rightVerdict_of_not_drop (hnet : ev.network = some net)
    (hdrop : ev.getType ≠ .kNetworkDropT) : f.RightVerdict ev net := by
  have hhandel : f.handel ev =
      if net.interestingFlag && f.nodeDeviceFilter.isNotInterestingNodeDevice net then false
      else if !net.interestingFlag then
        f.nodeDeviceFilter.isInterestingNodeDevice net && net.deviceType = .kCosimNetDevice
      else true := by
    unfold handel
    rw [if_neg (not_not.mpr (getType_of_network hnet hdrop)), hnet]
  constructor
  · intro hflag
    rw [hhandel, hflag]
    cases hregistered : f.nodeDeviceFilter.isInterestingNodeDevice net <;>
      simp [NodeDeviceFilter.isNotInterestingNodeDevice, hregistered]
  · intro hflag
    rw [hhandel, hflag]
    simp

/-- A drop gets the verdict it should where the events at its device pass anyway. -/
theorem rightVerdict_iff_of_drop (hdrop : ev.getType = .kNetworkDropT) :
    f.RightVerdict ev net ↔ f.nodeDeviceFilter.isInterestingNodeDevice net = true ∧
      (net.interestingFlag = true ∨ net.deviceType = .kCosimNetDevice) := by
  have hpass : f.handel ev = true := handel_of_drop hdrop
  unfold RightVerdict
  cases net.interestingFlag <;> simp [hpass]

/-- The verdicts on two network events at one device are the same and right, if and only
if neither event is a drop that the filter should not pass. -/
theorem handel_uniform_iff (f : NS3EventFilter) {ev₁ ev₂ : Event} {net₁ net₂ : NetworkEvent}
    (hnet₁ : ev₁.network = some net₁) (hnet₂ : ev₂.network = some net₂)
    (hflag : net₁.interestingFlag = net₂.interestingFlag) (hnode : net₁.node = net₂.node)
    (hdevice : net₁.device = net₂.device) (htype : net₁.deviceType = net₂.deviceType) :
    (f.handel ev₁ = f.handel ev₂ ∧ f.RightVerdict ev₁ net₁ ∧ f.RightVerdict ev₂ net₂) ↔
      (ev₁.getType = .kNetworkDropT ∨ ev₂.getType = .kNetworkDropT →
        f.nodeDeviceFilter.isInterestingNodeDevice net₁ = true ∧
          (net₁.interestingFlag = true ∨ net₁.deviceType = .kCosimNetDevice)) := by
  have hregistered : f.nodeDeviceFilter.isInterestingNodeDevice net₁ =
      f.nodeDeviceFilter.isInterestingNodeDevice net₂ := by
    unfold NodeDeviceFilter.isInterestingNodeDevice
    rw [hnode, hdevice]
  constructor
  · rintro ⟨-, hright₁, hright₂⟩ hdrop
    rcases hdrop with hdrop | hdrop
    · exact (rightVerdict_iff_of_drop hdrop).mp hright₁
    · rw [hregistered, hflag, htype]
      exact (rightVerdict_iff_of_drop hdrop).mp hright₂
  · intro hmeant
    have hright₁ : f.RightVerdict ev₁ net₁ := by
      by_cases hdrop : ev₁.getType = .kNetworkDropT
      · exact (rightVerdict_iff_of_drop hdrop).mpr (hmeant (.inl hdrop))
      · exact rightVerdict_of_not_drop hnet₁ hdrop
    have hright₂ : f.RightVerdict ev₂ net₂ := by
      by_cases hdrop : ev₂.getType = .kNetworkDropT
      · have hpasses := hmeant (.inr hdrop)
        rw [hregistered, hflag, htype] at hpasses
        exact (rightVerdict_iff_of_drop hdrop).mpr hpasses
      · exact rightVerdict_of_not_drop hnet₂ hdrop
    refine ⟨?_, hright₁, hright₂⟩
    rw [Bool.eq_iff_iff]
    cases hinteresting : net₁.interestingFlag with
    | true => rw [hright₁.1 hinteresting, hright₂.1 (hflag ▸ hinteresting), hregistered]
    | false => rw [hright₁.2 hinteresting, hright₂.2 (hflag ▸ hinteresting), hregistered, htype]

/-- A packet that is seen at a device without the flag. -/
def unregisteredNet : NetworkEvent where
  node := 3
  device := 7
  deviceType := .kSimpleNetDevice
  packetUid := 1
  interestingFlag := false
  payloadSize := 64
  boundaryType := .kWithinSimulator
  ethernetHeader := none
  arpHeader := none
  ipHeader := none

def unregisteredEvent (kind : NetworkEvent → EventKind) : Event :=
  ⟨10, 0, Columbo.bytes "net", kind unregisteredNet⟩

/-- With nothing registered the filter drops the enqueue of the packet and passes its drop,
although the two agree in all fields. -/
theorem not_handel_uniform :
    ¬ ∀ (f : NS3EventFilter) (ev₁ ev₂ : Event) (net₁ net₂ : NetworkEvent),
      ev₁.network = some net₁ → ev₂.network = some net₂ →
      net₁.interestingFlag = net₂.interestingFlag → net₁.node = net₂.node →
      net₁.device = net₂.device → net₁.deviceType = net₂.deviceType →
      f.handel ev₁ = f.handel ev₂ ∧ f.RightVerdict ev₁ net₁ ∧ f.RightVerdict ev₂ net₂ := by
  intro hall
  have huniform := (hall ⟨⟨[]⟩⟩ (unregisteredEvent .networkEnqueue)
    (unregisteredEvent .networkDrop) _ _ rfl rfl rfl rfl rfl rfl).1
  exact absurd huniform (by decide)

theorem handel_uniform_iff_unregistered :
    ((⟨⟨[]⟩⟩ : NS3EventFilter).handel (unregisteredEvent .networkEnqueue) =
        (⟨⟨[]⟩⟩ : NS3EventFilter).handel (unregisteredEvent .networkDrop) ∧
      RightVerdict ⟨⟨[]⟩⟩ (unregisteredEvent .networkEnqueue) unregisteredNet ∧
      RightVerdict ⟨⟨[]⟩⟩ (unregisteredEvent .networkDrop) unregisteredNet) ↔
    ((unregisteredEvent .networkEnqueue).getType = .kNetworkDropT ∨
        (unregisteredEvent .networkDrop).getType = .kNetworkDropT →
      NodeDeviceFilter.isInterestingNodeDevice ⟨[]⟩ unregisteredNet = true ∧
        (unregisteredNet.interestingFlag = true ∨
          unregisteredNet.deviceType = .kCosimNetDevice)) :=
  handel_uniform_iff ⟨⟨[]⟩⟩ rfl rfl rfl rfl rfl rfl

end NS3EventFilter

namespace NetworkSpanner

open Coroutine Spanner

/-- The span has its first event; if that has no flag, it is at an interesting device that
is connected to a NIC. -/
def WellStarted (filter : NodeDeviceFilter) (s : NetDeviceSpan) : Prop :=
  ∃ enq, s.devEnq = some enq ∧ (enq.interestingFlag = false →
    filter.isInterestingNodeDevice enq = true ∧ enq.deviceType = .kCosimNetDevice)

def ActiveStarted (filter : NodeDeviceFilter) (st : NetworkSpanner) : Prop :=
  ∀ s ∈ st.currentActiveDeviceSpans, WellStarted filter s.span

theorem WellStarted.addToSpan {filter : NodeDeviceFilter} {s : NetDeviceSpan}
    (hs : WellStarted filter s) (ev : Event) : WellStarted filter (s.addToSpan ev).2 := by
  obtain ⟨enq, henq, hstarts⟩ := hs
  exact ⟨enq, s.addToSpan_devEnq ev henq, hstarts⟩

variable {env : TraceEnvironment} {queues : NetworkQueues} {filter : NodeDeviceFilter}
  {st : NetworkSpanner} {ev : Event}

/-- No active span takes an event that the filter drops. -/
theorem findAddErase_of_dropped (hst : ActiveStarted filter st)
    (hdropped : ev.getType = .kNetworkEnqueueT ∨ ∀ net, ev.network = some net →
      net.interestingFlag = false ∧
        (filter.isInterestingNodeDevice net && net.deviceType = .kCosimNetDevice) = false) :
    findAddErase env st.currentActiveDeviceSpans ev = (none, st.currentActiveDeviceSpans) := by
  apply findAddErase_none
  intro s hs
  obtain ⟨enq, henq, hstarts⟩ := hst s hs
  apply NetDeviceSpan.addToSpan_refuses henq
  refine hdropped.imp_right fun hall net hnet => ?_
  obtain ⟨hflag, hdevice⟩ := hall net hnet
  by_contra hconsistent
  obtain ⟨hnode, hdev, htype, -, hflags⟩ :=
    NetDeviceSpan.isConsistent_fields (Bool.not_eq_false _ ▸ hconsistent)
  obtain ⟨hinteresting, hcosim⟩ := hstarts (hflags.trans hflag)
  have hsame : filter.isInterestingNodeDevice net = true := by
    unfold NodeDeviceFilter.isInterestingNodeDevice at hinteresting ⊢
    rwa [← hnode, ← hdev]
  rw [hsame, ← htype, hcosim] at hdevice
  simp at hdevice

/-- Network events that the filter drops. -/
theorem handel_eq_false (h : NS3EventFilter.handel ⟨filter⟩ ev = false) :
    (ev.getType = .kNetworkEnqueueT ∨ ev.getType = .kNetworkDequeueT) ∧
      ∃ net, ev.network = some net ∧
        ((net.interestingFlag && filter.isNotInterestingNodeDevice net) = true ∨
          net.interestingFlag = false ∧
            (filter.isInterestingNodeDevice net && net.deviceType = .kCosimNetDevice) = false) := by
  unfold NS3EventFilter.handel at h
  split_ifs at h with htype
  refine ⟨by simpa using htype, ?_⟩
  cases hnet : ev.network with
  | none => simp [hnet] at h
  | some net =>
    refine ⟨net, rfl, ?_⟩
    simp only [hnet] at h
    split_ifs at h with hinteresting hflag
    · exact .inl hinteresting
    · exact .inr ⟨by simpa using hflag, h⟩

/-- The spanner ignores an event that the filter drops. -/
theorem consume_of_dropped (hst : ActiveStarted filter st)
    (hdropped : NS3EventFilter.handel ⟨filter⟩ ev = false) :
    ∃ b, consume env queues filter st ev = Pure.pure (b, st) := by
  obtain ⟨htype, net, hnet, hdropped⟩ := handel_eq_false hdropped
  have hconsume : consume env queues filter st ev =
      handelNetworkEvent env queues filter st ev := by
    unfold consume
    rcases htype with henqueue | hdequeue
    · rw [henqueue]
    · rw [hdequeue]
  rw [hconsume]
  unfold handelNetworkEvent
  rw [hnet]
  dsimp only
  rcases hdropped with hinteresting | ⟨hflag, hdevice⟩
  · rw [if_pos hinteresting]
    exact ⟨true, rfl⟩
  · have hrefused : findAddErase env st.currentActiveDeviceSpans ev =
        (none, st.currentActiveDeviceSpans) := by
      refine findAddErase_of_dropped hst (.inr fun net' hnet' => ?_)
      obtain rfl : net = net' := Option.some.inj (hnet.symm.trans hnet')
      exact ⟨hflag, hdevice⟩
    have hiterate : iterateAddErase env st.currentActiveDeviceSpans ev =
        Pure.pure (none, st.currentActiveDeviceSpans) := by
      unfold iterateAddErase
      rw [hrefused]
    rw [hiterate, if_neg (by simp [hflag])]
    change ∃ b, startDeviceSpan env queues filter st ev net = Pure.pure (b, st)
    unfold startDeviceSpan
    rcases htype with henqueue | hdequeue
    · exact ⟨true, by simp [henqueue, hflag, hdevice]⟩
    · exact ⟨false, by simp [hdequeue]⟩

variable {h : Log} {net : NetworkEvent}

theorem ActiveStarted.concat (hst : ActiveStarted filter st) {s : Allocated NetDeviceSpan}
    (hs : WellStarted filter s.span) : ActiveStarted filter
      { st with currentActiveDeviceSpans := st.currentActiveDeviceSpans ++ [s] } := by
  intro s' hs'
  rcases List.mem_append.mp hs' with hold | hnew
  · exact hst s' hold
  · obtain rfl := List.mem_singleton.mp hnew
    exact hs

theorem keeps_startDeviceSpan (hst : ActiveStarted filter st) (hnet : ev.network = some net) :
    Keeps (fun _ _ => True) (fun _ => Possible World.exec) (fun _ r => ActiveStarted filter r.2)
      (startDeviceSpan env queues filter st ev net) h := by
  unfold startDeviceSpan
  split_ifs with henqueue hflag hdevice
  · exact keeps_pure hst
  · cases hadd : SpanClass.addToSpan env ({ } : NetDeviceSpan) ev with
    | mk accepted span =>
      refine keeps_bind (keeps_startSpan hadd trivial fun id hid => keeps_pure ?_)
      obtain rfl : accepted = true := World.accepted_of_possible hid
      obtain ⟨henq, -⟩ := NetDeviceSpan.addToSpan_new hadd hnet
      exact hst.concat ⟨net, henq, fun _ => by simpa using hdevice⟩
  · exact keeps_pure hst
  · refine keeps_bind_true fun h' context => ?_
    cases hadd : SpanClass.addToSpan env ({ } : NetDeviceSpan) ev with
    | mk accepted span =>
      refine keeps_bind (keeps_startSpanByParentPassOnContext hadd trivial fun id hid =>
        keeps_pure ?_)
      obtain rfl : accepted = true := World.accepted_of_possible hid
      obtain ⟨henq, -⟩ := NetDeviceSpan.addToSpan_new hadd hnet
      exact hst.concat ⟨net, henq, fun hnot => absurd hnot (by simpa using hflag)⟩

theorem keeps_finishDeviceSpan (hst : ActiveStarted filter st) (s : Allocated NetDeviceSpan) :
    Keeps (fun _ _ => True) (fun _ => Possible World.exec) (fun _ r => ActiveStarted filter r.2)
      (finishDeviceSpan queues st s) h := by
  unfold finishDeviceSpan
  refine keeps_bind_true fun _ _ => keeps_bind_true fun _ _ => keeps_bind_true fun _ _ => ?_
  exact keeps_pure hst

theorem keeps_consume (hst : ActiveStarted filter st) :
    Keeps (fun _ _ => True) (fun _ => Possible World.exec) (fun _ r => ActiveStarted filter r.2)
      (consume env queues filter st ev) h := by
  have hhandle : Keeps (fun _ _ => True) (fun _ => Possible World.exec)
      (fun _ r => ActiveStarted filter r.2) (handelNetworkEvent env queues filter st ev) h := by
    unfold handelNetworkEvent
    cases hnet : ev.network with
    | none => exact keeps_pure hst
    | some net =>
      dsimp only
      split_ifs
      · exact keeps_pure hst
      · have hactive : ∀ rest found,
            findAddErase env st.currentActiveDeviceSpans ev = (found, rest) →
            ActiveStarted filter { st with currentActiveDeviceSpans := rest } := by
          intro rest found hfind
          have hrest : ∀ s ∈ (findAddErase env st.currentActiveDeviceSpans ev).2,
              WellStarted filter s.span :=
            (findAddErase_forall (P := WellStarted filter) (fun _ hs => hs.addToSpan ev) hst).1
          rwa [hfind] at hrest
        refine keeps_bind (keeps_iterateAddErase (fun rest hfind => ?_) fun s rest hfind => ?_)
        · exact keeps_startDeviceSpan (hactive rest none hfind) hnet
        · exact ⟨trivial, keeps_finishDeviceSpan (hactive rest (some s) hfind) s⟩
  unfold consume
  split
  · exact hhandle
  · exact hhandle
  · exact hhandle
  · exact keeps_pure hst

/-- With the filter in front of it the spanner performs the same operations, and returns
in the same state. -/
theorem consumeAll_filter (env : TraceEnvironment) (queues : NetworkQueues)
    (filter : NodeDeviceFilter) (evs : List Event) (h : Log) :
    let filtered := consumeAll env queues filter (evs.filter (NS3EventFilter.handel ⟨filter⟩))
    let whole := consumeAll env queues filter evs
    (∀ st, Performs World.exec filtered h (.pure st) ↔ Performs World.exec whole h (.pure st)) ∧
      ∀ c, (∃ k, Performs World.exec filtered h (.act c k)) ↔
        ∃ k, Performs World.exec whole h (.act c k) := by
  apply Same.performs_iff
  refine same_foldlM_filter (ActiveStarted filter) ?_ ?_ ?_
  · intro st ev hst hdropped
    obtain ⟨b, hconsume⟩ := consume_of_dropped hst hdropped
    rw [hconsume]
    rfl
  · intro st ev hst
    exact keeps_bind ((keeps_consume hst).mono fun _ _ hst' => keeps_pure hst')
  · intro s hs
    cases hs

end NetworkSpanner

end Columbo
