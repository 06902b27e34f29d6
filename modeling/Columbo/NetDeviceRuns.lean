import Columbo.SpanWords
import Mathlib.Data.Finset.Insert

/-!
# Runs of the spans of network devices

A span compares the addresses of all headers that it sees, and the first header that it
sees sets them, also in an event that it refuses. `Reached` relates a span to the events
that it took and to the events that it was offered; `Reached.step` says what an offered
event does.
-/
namespace Columbo

open Acceptor

/-- The headers name different addresses. -/
def NetworkEvent.Conflicts (net : NetworkEvent) : Prop :=
  ∃ ip arp, net.ipHeader = some ip ∧ net.arpHeader = some arp ∧
    ¬ (ip.srcIp = arp.srcIp ∧ ip.dstIp = arp.dstIp)

namespace NetDeviceSpan

variable {s s' : NetDeviceSpan} {ev enqueue finish : Event} {net enq fin : NetworkEvent}
  {nets : List NetworkEvent} {offered past : List Event} {conflict : Prop}

/-- The addresses are those of the headers. -/
def Matches (s : NetDeviceSpan) (net : NetworkEvent) : Prop :=
  (∀ ip, net.ipHeader = some ip → s.src = ip.srcIp ∧ s.dst = ip.dstIp) ∧
    ∀ arp, net.arpHeader = some arp → s.src = arp.srcIp ∧ s.dst = arp.dstIp

theorem Matches.not_conflicts (h : s.Matches net) : ¬ net.Conflicts := by
  rintro ⟨ip, arp, hip, harp, hne⟩
  obtain ⟨hsrc, hdst⟩ := h.1 ip hip
  obtain ⟨hsrc', hdst'⟩ := h.2 arp harp
  exact hne ⟨hsrc.symm.trans hsrc', hdst.symm.trans hdst'⟩

/-- The addresses that a span has after the packets that it took, where `conflict` says
that headers of an event that was refused have set them. -/
structure Latched (conflict : Prop) (nets : List NetworkEvent) (s : NetDeviceSpan) : Prop where
  ipsSet : s.ipsSet = true ↔ conflict ∨ ∃ net ∈ nets, net.ipHeader ≠ none ∨ net.arpHeader ≠ none
  isArp : s.isArp = true ↔ ¬ conflict ∧ (∀ net ∈ nets, net.ipHeader = none) ∧
    ∃ net ∈ nets, net.arpHeader ≠ none
  addresses : ∀ net ∈ nets, s.Matches net

/-- The fields other than the addresses. -/
def withAddresses (s : NetDeviceSpan) (src dst : Ipv4) (ipsSet isArp : Bool) : NetDeviceSpan :=
  { s with src := src, dst := dst, ipsSet := ipsSet, isArp := isArp }

theorem check_set (net : NetworkEvent) (hset : s.ipsSet = true) :
    (s.setAndCheckPotential net = (true, s) ∧ s.Matches net) ∨
      s.setAndCheckPotential net = (false, s) := by
  unfold setAndCheckPotential setAndCheckPotentialIp setAndCheckPotentialArp Matches
  cases hip : net.ipHeader with
  | none =>
    cases harp : net.arpHeader with
    | none => simp
    | some arp =>
      by_cases heq : s.src = arp.srcIp ∧ s.dst = arp.dstIp
      · simp [hset, heq]
      · simp [hset, ← Bool.decide_and, heq]
  | some ip =>
    cases harp : net.arpHeader with
    | none =>
      by_cases heq : s.src = ip.srcIp ∧ s.dst = ip.dstIp
      · simp [hset, heq]
      · simp [hset, ← Bool.decide_and, heq]
    | some arp =>
      by_cases heq : s.src = ip.srcIp ∧ s.dst = ip.dstIp
      · by_cases heq' : ip.srcIp = arp.srcIp ∧ ip.dstIp = arp.dstIp
        · simp [hset, heq, heq']
        · simp [hset, heq, ← Bool.decide_and, heq']
      · simp [hset, ← Bool.decide_and, heq]

/-- The first header of a packet sets the addresses, and the ARP header is noted if it is
the first one. -/
theorem check_unset (net : NetworkEvent) (hset : s.ipsSet = false) :
    (net.ipHeader = none ∧ net.arpHeader = none ∧ s.setAndCheckPotential net = (true, s)) ∨
    (∃ src dst isArp,
      s.setAndCheckPotential net = (true, s.withAddresses src dst true isArp) ∧
        (s.withAddresses src dst true isArp).Matches net ∧
        (isArp = if net.ipHeader = none then true else s.isArp) ∧
        (net.ipHeader ≠ none ∨ net.arpHeader ≠ none)) ∨
    ∃ src dst, s.setAndCheckPotential net = (false, s.withAddresses src dst true s.isArp) ∧
      net.Conflicts := by
  unfold setAndCheckPotential setAndCheckPotentialIp setAndCheckPotentialArp
  cases hip : net.ipHeader with
  | none =>
    cases harp : net.arpHeader with
    | none => exact .inl ⟨rfl, rfl, rfl⟩
    | some arp =>
      refine .inr (.inl ⟨arp.srcIp, arp.dstIp, true, ?_, ?_, ?_⟩)
      · simp [hset, withAddresses]
      · simp [Matches, withAddresses, hip, harp]
      · simp
  | some ip =>
    cases harp : net.arpHeader with
    | none =>
      refine .inr (.inl ⟨ip.srcIp, ip.dstIp, s.isArp, ?_, ?_, ?_⟩)
      · simp [hset, withAddresses]
      · simp [Matches, withAddresses, hip, harp]
      · simp
    | some arp =>
      by_cases heq : ip.srcIp = arp.srcIp ∧ ip.dstIp = arp.dstIp
      · refine .inr (.inl ⟨ip.srcIp, ip.dstIp, s.isArp, ?_, ?_, ?_⟩)
        · simp [hset, withAddresses, heq]
        · simp [Matches, withAddresses, hip, harp, heq]
        · simp
      · refine .inr (.inr ⟨ip.srcIp, ip.dstIp, ?_, ip, arp, hip, harp, heq⟩)
        simp [hset, withAddresses, ← Bool.decide_and, heq]

/-- The checks accept a packet, leave the span as it is, or set its addresses because the
headers of the packet contradict each other. -/
theorem Latched.check (h : Latched conflict nets s) (net : NetworkEvent)
    (hip : ∀ other ∈ nets, other.ipHeader = none ↔ net.ipHeader = none) :
    (∃ src dst ipsSet isArp,
      s.setAndCheckPotential net = (true, s.withAddresses src dst ipsSet isArp) ∧
        Latched conflict (nets ++ [net]) (s.withAddresses src dst ipsSet isArp)) ∨
    (s.setAndCheckPotential net = (false, s) ∧ s.ipsSet = true) ∨
    ∃ src dst, s.setAndCheckPotential net = (false, s.withAddresses src dst true s.isArp) ∧
      s.ipsSet = false ∧ net.Conflicts := by
  obtain ⟨hips, harp, haddresses⟩ := h
  cases hset : s.ipsSet with
  | true =>
    rcases check_set net hset with ⟨hcheck, hmatches⟩ | hcheck
    · refine .inl ⟨s.src, s.dst, s.ipsSet, s.isArp, hcheck, ?_, ?_, ?_⟩
      · change s.ipsSet = true ↔ _
        grind
      · change s.isArp = true ↔ _
        grind
      · intro other hother
        change s.Matches other
        grind
    · exact .inr (.inl ⟨hcheck, rfl⟩)
  | false =>
    have hnone : ¬ (conflict ∨ ∃ net ∈ nets, net.ipHeader ≠ none ∨ net.arpHeader ≠ none) := by
      rw [← hips, hset]
      exact Bool.false_ne_true
    rcases check_unset net hset with ⟨hip', harp', hcheck⟩ |
      ⟨src, dst, isArp, hcheck, hmatches, hisArp, hsome⟩ | ⟨src, dst, hcheck, hconflicts⟩
    · refine .inl ⟨s.src, s.dst, s.ipsSet, s.isArp, hcheck, ?_, ?_, ?_⟩
      · change s.ipsSet = true ↔ _
        grind
      · change s.isArp = true ↔ _
        grind
      · intro other hother
        change s.Matches other
        rcases List.mem_append.mp hother with hmem | hmem
        · exact haddresses other hmem
        · obtain rfl := List.mem_singleton.mp hmem
          exact ⟨by simp [hip'], by simp [harp']⟩
    · refine .inl ⟨src, dst, true, isArp, hcheck, ?_, ?_, ?_⟩
      · change true = true ↔ _
        grind
      · change isArp = true ↔ _
        grind
      · intro other hother
        rcases List.mem_append.mp hother with hmem | hmem
        · have hheaders : other.ipHeader = none ∧ other.arpHeader = none := by grind
          exact ⟨by simp [hheaders], by simp [hheaders]⟩
        · obtain rfl := List.mem_singleton.mp hmem
          exact hmatches
    · exact .inr (.inr ⟨src, dst, hcheck, rfl, hconflicts⟩)

def enqueued (ev : Event) : Option NetworkEvent :=
  match ev.kind with
  | .networkEnqueue net => some net
  | _ => none

/-- The first enqueue that a span is offered contradicts itself. -/
def FirstConflicts (offered : List Event) : Prop :=
  ∃ net, offered.findSome? enqueued = some net ∧ net.Conflicts

theorem findSome?_concat (offered : List Event) (ev : Event) : (offered ++ [ev]).findSome? enqueued =
    (offered.findSome? enqueued).or (enqueued ev) := by
  rw [List.findSome?_append, List.findSome?_singleton]

theorem firstConflicts_concat_of_none (hev : enqueued ev = none) :
    FirstConflicts (offered ++ [ev]) ↔ FirstConflicts offered := by
  rw [FirstConflicts, FirstConflicts, findSome?_concat, hev, Option.or_none]

theorem firstConflicts_concat_of_some (hfirst : offered.findSome? enqueued ≠ none) :
    FirstConflicts (offered ++ [ev]) ↔ FirstConflicts offered := by
  obtain ⟨net, hnet⟩ := Option.ne_none_iff_exists'.mp hfirst
  rw [FirstConflicts, FirstConflicts, findSome?_concat, hnet, Option.some_or]

/-- No event was taken. -/
structure Waiting (s : NetDeviceSpan) : Prop where
  events : s.events = []
  isPending : s.isPending = true
  devEnq : s.devEnq = none
  devDeq : s.devDeq = none
  drop : s.drop = none
  boundaryTypes : s.boundaryTypes = ∅

/-- The fields that describe the device. -/
structure Describes (s : NetDeviceSpan) (enq : NetworkEvent) : Prop where
  devEnq : s.devEnq = some enq
  deviceType : s.deviceType = some enq.deviceType
  interestingFlag : s.interestingFlag = enq.interestingFlag
  node : s.node = enq.node
  device : s.device = enq.device

/-- An enqueue was taken. -/
structure Enqueued (s : NetDeviceSpan) (enqueue : Event) (enq : NetworkEvent) : Prop
    extends s.Describes enq where
  kind : enqueue.kind = .networkEnqueue enq
  events : s.events = [enqueue]
  isPending : s.isPending = true
  devDeq : s.devDeq = none
  drop : s.drop = none
  boundaryTypes : s.boundaryTypes = {enq.boundaryType}

/-- What ends an operation that began with an enqueue. -/
def Ends (enqueue finish : Event) (enq fin : NetworkEvent) : Prop :=
  (finish.kind = .networkDequeue fin ∨ finish.kind = .networkDrop fin) ∧
    isConsistent enq fin = true ∧ enqueue.SameParser finish

/-- A dequeue or a drop was taken after the enqueue. -/
structure Ended (s : NetDeviceSpan) (enqueue finish : Event) (enq fin : NetworkEvent) : Prop
    extends s.Describes enq where
  kind : enqueue.kind = .networkEnqueue enq
  ends : Ends enqueue finish enq fin
  events : s.events = [enqueue, finish]
  isPending : s.isPending = false
  isDrop : s.isDrop = true ↔ finish.getType = .kNetworkDropT
  boundaryTypes : s.boundaryTypes = {enq.boundaryType, fin.boundaryType}

/-- A span, the events that it was offered and those of them that it took. -/
inductive Reached (s : NetDeviceSpan) (offered : List Event) : List Event → Prop
  | waiting (hs : s.Waiting) (hlatched : Latched (FirstConflicts offered) [] s)
    (hrefused : ∀ first, offered.findSome? enqueued = some first → first.Conflicts) :
    Reached s offered []
  | enqueued {enqueue : Event} {enq : NetworkEvent} (hs : s.Enqueued enqueue enq)
    (hlatched : Latched (FirstConflicts offered) [enq] s)
    (hoffered : offered.findSome? enqueued ≠ none) : Reached s offered [enqueue]
  | ended {enqueue finish : Event} {enq fin : NetworkEvent} (hs : s.Ended enqueue finish enq fin)
    (hlatched : Latched (FirstConflicts offered) [enq, fin] s)
    (hoffered : offered.findSome? enqueued ≠ none) : Reached s offered [enqueue, finish]

theorem reached_new : Reached { } [] [] := by
  refine .waiting ⟨rfl, rfl, rfl, rfl, rfl, rfl⟩ ⟨?_, ?_, ?_⟩ ?_
  · simp [FirstConflicts]
  · simp
  · simp
  · simp

def Word : List Event → Prop :=
  pair (fun enqueue => ∃ enq, enqueue.kind = .networkEnqueue enq)
    fun enqueue finish => ∃ enq fin, enqueue.kind = .networkEnqueue enq ∧ Ends enqueue finish enq fin

/-- The first enqueue has headers that contradict each other, and sets the addresses though
it is refused. -/
def Latches (s : NetDeviceSpan) (ev : Event) : Prop :=
  s.devEnq = none ∧ s.ipsSet = false ∧ ∃ net, ev.kind = .networkEnqueue net ∧ net.Conflicts

theorem Waiting.withAddresses (h : s.Waiting) (src dst : Ipv4) (ipsSet isArp : Bool) :
    (s.withAddresses src dst ipsSet isArp).Waiting := by
  obtain ⟨hevents, hpending, henq, hdeq, hdrop, htypes⟩ := h
  exact ⟨hevents, hpending, henq, hdeq, hdrop, htypes⟩

theorem Matches.congr (hsrc : s'.src = s.src) (hdst : s'.dst = s.dst) (h : s.Matches net) :
    s'.Matches net := by
  unfold Matches at h ⊢
  rwa [hsrc, hdst]

/-- The addresses decide. -/
theorem Latched.congr (h : Latched conflict nets s) (hsrc : s'.src = s.src)
    (hdst : s'.dst = s.dst) (hset : s'.ipsSet = s.ipsSet) (harp : s'.isArp = s.isArp) :
    Latched conflict nets s' := by
  refine ⟨?_, ?_, fun net hnet => (h.addresses net hnet).congr hsrc hdst⟩
  · rw [hset]
    exact h.ipsSet
  · rw [harp]
    exact h.isArp

theorem addToSpan_enqueue (hs : s.Waiting) (hkind : ev.kind = .networkEnqueue net) :
    s.addToSpan ev = s.handelEnqueue ev net := by
  unfold addToSpan
  rw [EventSpan.isPotentialAdd_nil hs.isPending hs.events]
  simp [hkind]

/-- What happened to the events of a run when one more was offered. -/
def Offered (s : NetDeviceSpan) (offered past : List Event) (ev : Event) : Prop :=
  (∃ s', s.addToSpan ev = (true, s') ∧ Begins Word (past ++ [ev]) ∧
    Reached s' (offered ++ [ev]) (past ++ [ev]) ∧ ¬ s.Latches ev) ∨
  ∃ s', s.addToSpan ev = (false, s') ∧ Reached s' (offered ++ [ev]) past ∧
    (s' = s ↔ ¬ s.Latches ev)

theorem enqueued_eq_some : enqueued ev = some net ↔ ev.kind = .networkEnqueue net := by
  unfold enqueued
  cases ev.kind <;> simp

theorem isConsistent_self (net : NetworkEvent) : isConsistent net net = true := by
  unfold isConsistent
  cases net.ipHeader <;> simp

theorem begins_singleton (hkind : ev.kind = .networkEnqueue net) : Begins Word [ev] := by
  rw [Word, begins_pair_singleton]
  exact ⟨⟨net, hkind⟩, ⟨0, ev.parserIdentifier, [], .networkDequeue net⟩, net, net, hkind,
    .inl rfl, isConsistent_self net, rfl⟩

theorem handelEnqueue_taken (hs : s.Waiting) (hkind : ev.kind = .networkEnqueue net)
    {src dst : Ipv4} {ipsSet isArp : Bool}
    (hcheck : s.setAndCheckPotential net = (true, s.withAddresses src dst ipsSet isArp))
    (hlatched : Latched conflict [net] (s.withAddresses src dst ipsSet isArp)) :
    ∃ s', s.handelEnqueue ev net = (true, s') ∧ s'.Enqueued ev net ∧ Latched conflict [net] s' := by
  refine ⟨{ s.withAddresses src dst ipsSet isArp with
    devEnq := some net
    deviceType := some net.deviceType
    boundaryTypes := insert net.boundaryType s.boundaryTypes
    interestingFlag := net.interestingFlag
    node := net.node
    device := net.device
    events := s.events ++ [ev] }, ?_, ?_, hlatched.congr rfl rfl rfl rfl⟩
  · rw [handelEnqueue, hs.devEnq, hcheck]
    rfl
  constructor
  · exact ⟨rfl, rfl, rfl, rfl, rfl⟩
  · exact hkind
  · change s.events ++ [ev] = [ev]
    rw [hs.events, List.nil_append]
  · exact hs.isPending
  · exact hs.devDeq
  · exact hs.drop
  · change insert net.boundaryType s.boundaryTypes = {net.boundaryType}
    rw [hs.boundaryTypes]
    rfl

/-- A span that took nothing takes an enqueue whose headers agree with each other and with
the addresses, if they are set. -/
theorem Waiting.step (hs : s.Waiting) (hlatched : Latched (FirstConflicts offered) [] s)
    (hrefused : ∀ first, offered.findSome? enqueued = some first → first.Conflicts) (ev : Event) :
    s.Offered offered [] ev := by
  cases hev : enqueued ev with
  | none =>
    have hnot : ¬ s.Latches ev := by
      rintro ⟨-, -, net, hkind, -⟩
      rw [enqueued_eq_some.mpr hkind] at hev
      cases hev
    refine .inr ⟨s, ?_, .waiting hs ?_ ?_, iff_of_true rfl hnot⟩
    · unfold addToSpan handelDequeue handelDrop handelEnd
      unfold enqueued at hev
      cases hkind : ev.kind <;> simp_all [hs.devEnq]
    · rwa [firstConflicts_concat_of_none hev]
    · rwa [findSome?_concat, hev, Option.or_none]
  | some net =>
    have hkind := enqueued_eq_some.mp hev
    have hstep := addToSpan_enqueue hs hkind
    have hconcat := findSome?_concat offered ev
    have hlatches : s.Latches ev ↔ s.ipsSet = false ∧ net.Conflicts := by
      simp [Latches, hs.devEnq, hkind]
    rcases hlatched.check net (by simp) with
      ⟨src, dst, ipsSet, isArp, hcheck, hlatched'⟩ | ⟨hcheck, hset⟩ |
      ⟨src, dst, hcheck, hset, hconflicts⟩
    · have hagrees : ¬ net.Conflicts := (hlatched'.addresses net (by simp)).not_conflicts
      have hfirst : FirstConflicts (offered ++ [ev]) ↔ FirstConflicts offered := by
        cases hold : offered.findSome? enqueued with
        | none => simp [FirstConflicts, hold, hev, hagrees]
        | some first => exact firstConflicts_concat_of_some (by simp [hold])
      obtain ⟨s', htaken, hs', hlatched''⟩ := handelEnqueue_taken hs hkind hcheck hlatched'
      refine .inl ⟨s', hstep.trans htaken, begins_singleton hkind, .enqueued hs' ?_ ?_, ?_⟩
      · rwa [hfirst]
      · rw [hconcat, hev]
        simp
      · rw [hlatches]
        exact fun h => hagrees h.2
    · -- The addresses were set by the first enqueue, which was refused.
      obtain ⟨first, hold, hconflicts⟩ : FirstConflicts offered := by
        simpa using hlatched.ipsSet.mp hset
      refine .inr ⟨s, ?_, .waiting hs ?_ ?_, iff_of_true rfl ?_⟩
      · rw [hstep, handelEnqueue, hs.devEnq, hcheck]
        rfl
      · rwa [firstConflicts_concat_of_some (by simp [hold])]
      · rwa [hconcat, hold, Option.some_or, ← hold]
      · rw [hlatches, hset]
        simp
    · -- Nothing was offered before, since a first enqueue would have set the addresses.
      have hold : offered.findSome? enqueued = none := by
        by_contra hsome
        obtain ⟨first, hfirst⟩ := Option.ne_none_iff_exists'.mp hsome
        have hips := hlatched.ipsSet.mpr (.inl ⟨first, hfirst, hrefused first hfirst⟩)
        rw [hset] at hips
        cases hips
      have hfirst : FirstConflicts (offered ++ [ev]) :=
        ⟨net, by rw [hconcat, hold, hev, Option.none_or], hconflicts⟩
      have hisArp : s.isArp = false := by
        simpa using hlatched.isArp
      refine .inr ⟨s.withAddresses src dst true s.isArp, ?_,
        .waiting (hs.withAddresses src dst true s.isArp) ?_ ?_, iff_of_false ?_ ?_⟩
      · rw [hstep, handelEnqueue, hs.devEnq, hcheck]
        rfl
      · constructor
        · exact iff_of_true rfl (.inl hfirst)
        · change s.isArp = true ↔ _
          simp [hisArp]
        · simp
      · rw [hconcat, hold, hev, Option.none_or]
        rintro first ⟨⟩
        exact hconflicts
      · intro heq
        have hips : true = s.ipsSet := congrArg NetDeviceSpan.ipsSet heq
        rw [hset] at hips
        cases hips
      · rw [hlatches]
        exact not_not.mpr ⟨hset, hconflicts⟩

theorem isConsistent_ipHeader (h : isConsistent enq fin = true) :
    enq.ipHeader = none ↔ fin.ipHeader = none := by
  unfold isConsistent at h
  split_ifs at h with harp hip
  cases henq : enq.ipHeader <;> cases hfin : fin.ipHeader <;> simp_all

theorem Enqueued.not_latches (hs : s.Enqueued enqueue enq) (ev : Event) : ¬ s.Latches ev := by
  rintro ⟨hnone, -⟩
  rw [hs.devEnq] at hnone
  cases hnone

theorem offered_concat (hoffered : offered.findSome? enqueued ≠ none) (ev : Event) :
    (offered ++ [ev]).findSome? enqueued ≠ none := by
  obtain ⟨net, hnet⟩ := Option.ne_none_iff_exists'.mp hoffered
  rw [findSome?_concat, hnet, Option.some_or]
  exact Option.some_ne_none net

theorem Enqueued.refuses (hs : s.Enqueued enqueue enq)
    (hlatched : Latched (FirstConflicts offered) [enq] s)
    (hoffered : offered.findSome? NetDeviceSpan.enqueued ≠ none)
    (hrefused : s.addToSpan ev = (false, s)) :
    s.Offered offered [enqueue] ev := by
  refine .inr ⟨s, hrefused, .enqueued hs ?_ (offered_concat hoffered ev),
    iff_of_true rfl (hs.not_latches ev)⟩
  rwa [firstConflicts_concat_of_some hoffered]

theorem handelEnd_checked {s' : NetDeviceSpan} {ok : Bool} (hs : s.Enqueued enqueue enq)
    (finish : NetDeviceSpan → NetDeviceSpan) (hconsistent : isConsistent enq fin = true)
    (hcheck : s.setAndCheckPotential fin = (ok, s')) :
    handelEnd finish s ev fin = if ok then (true, { finish s' with
        isPending := false
        boundaryTypes := insert fin.boundaryType s'.boundaryTypes
        events := s'.events ++ [ev] }) else (false, s') := by
  unfold handelEnd
  rw [hs.devEnq]
  cases ok <;> simp [hs.drop, hs.devDeq, hconsistent, hcheck]

theorem Enqueued.isPotentialAdd (hs : s.Enqueued enqueue enq) :
    s.isPotentialAdd ev = true ↔ enqueue.SameParser ev := by
  simp [EventSpan.isPotentialAdd, hs.events, hs.isPending, EventSpan.isComplete,
    Event.SameParser]

/-- The pointer that the last event sets. -/
def finished (ev : Event) (fin : NetworkEvent) (s : NetDeviceSpan) : NetDeviceSpan :=
  { s with
    devDeq := if ev.getType = .kNetworkDropT then s.devDeq else some fin
    drop := if ev.getType = .kNetworkDropT then some fin else s.drop }

theorem Ends.addToSpan_eq (hends : Ends enqueue ev enq fin) (hs : s.Enqueued enqueue enq) :
    s.addToSpan ev = handelEnd (finished ev fin) s ev fin := by
  obtain ⟨hkind, -, hparser⟩ := hends
  have hpotential := hs.isPotentialAdd.mpr hparser
  rcases hkind with hdequeue | hdrop
  · have hfinished : finished ev fin = fun s => { s with devDeq := some fin } := by
      funext s
      simp [finished, Event.getType, hdequeue, EventKind.getType]
    simp [addToSpan, hpotential, hdequeue, handelDequeue, hfinished]
  · have hfinished : finished ev fin = fun s => { s with drop := some fin } := by
      funext s
      simp [finished, Event.getType, hdrop, EventKind.getType]
    simp [addToSpan, hpotential, hdrop, handelDrop, hfinished]

theorem Ends.addToSpan_taken (hends : Ends enqueue ev enq fin) (hs : s.Enqueued enqueue enq)
    {src dst : Ipv4} {ipsSet isArp : Bool}
    (hcheck : s.setAndCheckPotential fin = (true, s.withAddresses src dst ipsSet isArp))
    (hlatched : Latched conflict [enq, fin] (s.withAddresses src dst ipsSet isArp)) :
    ∃ s', s.addToSpan ev = (true, s') ∧ s'.Ended enqueue ev enq fin ∧
      Latched conflict [enq, fin] s' := by
  refine ⟨{ finished ev fin (s.withAddresses src dst ipsSet isArp) with
    isPending := false
    boundaryTypes := insert fin.boundaryType s.boundaryTypes
    events := s.events ++ [ev] }, ?_, ?_, hlatched.congr rfl rfl rfl rfl⟩
  · rw [hends.addToSpan_eq hs]
    exact handelEnd_checked hs _ hends.2.1 hcheck
  constructor
  · exact ⟨hs.devEnq, hs.deviceType, hs.interestingFlag, hs.node, hs.device⟩
  · exact hs.kind
  · exact hends
  · change s.events ++ [ev] = [enqueue, ev]
    rw [hs.events]
    rfl
  · rfl
  · change (if ev.getType = .kNetworkDropT then some fin else s.drop).isSome = true ↔ _
    rw [hs.drop]
    split_ifs with hdrop
    · exact iff_of_true rfl hdrop
    · exact iff_of_false Bool.false_ne_true hdrop
  · change insert fin.boundaryType s.boundaryTypes = {enq.boundaryType, fin.boundaryType}
    rw [hs.boundaryTypes]
    exact Finset.pair_comm _ _

theorem Ends.addToSpan_refused (hends : Ends enqueue ev enq fin) (hs : s.Enqueued enqueue enq)
    (hcheck : s.setAndCheckPotential fin = (false, s)) : s.addToSpan ev = (false, s) := by
  rw [hends.addToSpan_eq hs]
  exact handelEnd_checked hs _ hends.2.1 hcheck

theorem Enqueued.addToSpan_of_not_ends (hs : s.Enqueued enqueue enq)
    (hends : ¬ ∃ fin, Ends enqueue ev enq fin) : s.addToSpan ev = (false, s) := by
  by_cases hparser : enqueue.SameParser ev
  · apply addToSpan_refuses hs.devEnq
    obtain ⟨ts, parser, name, kind⟩ := ev
    cases kind with
    | networkEnqueue net => exact .inl rfl
    | networkDequeue net =>
      right
      rintro net' ⟨⟩
      exact Bool.eq_false_iff.mpr fun h => hends ⟨net, .inl rfl, h, hparser⟩
    | networkDrop net =>
      right
      rintro net' ⟨⟩
      exact Bool.eq_false_iff.mpr fun h => hends ⟨net, .inr rfl, h, hparser⟩
    | _ => exact .inr (by rintro net ⟨⟩)
  · unfold addToSpan
    simp [Bool.eq_false_iff.mpr (mt hs.isPotentialAdd.mp hparser)]

theorem Enqueued.step (hs : s.Enqueued enqueue enq)
    (hlatched : Latched (FirstConflicts offered) [enq] s)
    (hoffered : offered.findSome? NetDeviceSpan.enqueued ≠ none) (ev : Event) :
    s.Offered offered [enqueue] ev := by
  by_cases hends : ∃ fin, Ends enqueue ev enq fin
  · obtain ⟨fin, hends⟩ := hends
    have hip : enq.ipHeader = none ↔ fin.ipHeader = none := isConsistent_ipHeader hends.2.1
    rcases hlatched.check fin (by simpa using hip) with
      ⟨src, dst, ipsSet, isArp, hcheck, hlatched'⟩ | ⟨hcheck, -⟩ | ⟨src, dst, -, hset, hconflicts⟩
    · obtain ⟨s', htaken, hs', hlatched''⟩ := hends.addToSpan_taken hs hcheck hlatched'
      refine .inl ⟨s', htaken, .of_word ?_, .ended hs' ?_ (offered_concat hoffered ev),
        hs.not_latches ev⟩
      · exact pair_pair.mpr ⟨⟨enq, hs.kind⟩, enq, fin, hs.kind, hends⟩
      · rwa [firstConflicts_concat_of_some hoffered]
    · exact hs.refuses hlatched hoffered (hends.addToSpan_refused hs hcheck)
    · -- Neither packet has an IP header, so that the ARP header sets the addresses.
      obtain ⟨ip, arp, hipHeader, -⟩ := hconflicts
      have hnone : enq.ipHeader = none := by
        by_contra hsome
        rw [hlatched.ipsSet.mpr (.inr ⟨enq, List.mem_singleton_self enq, .inl hsome⟩)] at hset
        cases hset
      rw [hip.mp hnone] at hipHeader
      cases hipHeader
  · exact hs.refuses hlatched hoffered (hs.addToSpan_of_not_ends hends)

theorem Ended.step (hs : s.Ended enqueue finish enq fin)
    (hlatched : Latched (FirstConflicts offered) [enq, fin] s)
    (hoffered : offered.findSome? enqueued ≠ none) (ev : Event) :
    s.Offered offered [enqueue, finish] ev := by
  refine .inr ⟨s, ?_, .ended hs ?_ (offered_concat hoffered ev), iff_of_true rfl ?_⟩
  · unfold addToSpan
    rw [EventSpan.isPotentialAdd_complete hs.isPending]
    rfl
  · rwa [firstConflicts_concat_of_some hoffered]
  · rintro ⟨hnone, -⟩
    rw [hs.devEnq] at hnone
    cases hnone

/-- What a span does with an event that it is offered. -/
theorem Reached.step (h : s.Reached offered past) (ev : Event) : s.Offered offered past ev := by
  cases h with
  | waiting hs hlatched hrefused => exact hs.step hlatched hrefused ev
  | enqueued hs hlatched hoffered => exact hs.step hlatched hoffered ev
  | ended hs hlatched hoffered => exact hs.step hlatched hoffered ev

/-- The events that a new span is offered, and those that it takes. -/
theorem reached_run (evs : List Event) :
    Reached (run addToSpan { } evs).2 evs (run addToSpan { } evs).1 := by
  have hkeeps : ∀ s past offered ev, Reached s offered past → Reached (addToSpan s ev).2
      (offered ++ [ev]) (if (addToSpan s ev).1 then past ++ [ev] else past) := by
    intro s past offered ev hs
    rcases hs.step ev with ⟨s', hstep, -, hs', -⟩ | ⟨s', hstep, hs', -⟩
    · rwa [hstep]
    · rwa [hstep]
  exact run_induction hkeeps reached_new

theorem tracks : Tracks addToSpan (Begins Word) fun s past => ∃ offered, Reached s offered past := by
  rintro s past ev ⟨offered, hs⟩
  rcases hs.step ev with ⟨s', hstep, hbegins, hs', -⟩ | ⟨s', hstep, hs', -⟩
  · exact .inl ⟨hbegins, s', hstep, _, hs'⟩
  · exact .inr ⟨s', hstep, _, hs'⟩

theorem Reached.complete_iff (h : s.Reached offered past) : s.isComplete = true ↔ Word past := by
  cases h with
  | waiting hs => simp [EventSpan.isComplete, Word, hs.isPending]
  | enqueued hs => simp [EventSpan.isComplete, Word, hs.isPending]
  | ended hs =>
    refine iff_of_true (by simp [EventSpan.isComplete, hs.isPending]) ?_
    exact pair_pair.mpr ⟨⟨_, hs.kind⟩, _, _, hs.kind, hs.ends⟩

end NetDeviceSpan

end Columbo
