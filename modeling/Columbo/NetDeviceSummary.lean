import Columbo.NetDeviceRuns

/-!
# What a finished network span says about its events

The flags, the addresses and the boundary types of a span summarise the two events that it
took. The ARP flag is set only by the first header that a span sees, and an enqueue that is
refused leaves the addresses of its IP header.
-/
namespace Columbo

open Acceptor

namespace Event

def HasIp (ev : Event) : Prop := ∃ net, ev.network = some net ∧ net.ipHeader ≠ none

def HasArp (ev : Event) : Prop := ∃ net, ev.network = some net ∧ net.arpHeader ≠ none

theorem hasIp_iff {ev : Event} {net : NetworkEvent} (hnet : ev.network = some net) :
    ev.HasIp ↔ net.ipHeader ≠ none := by
  simp [HasIp, hnet]

theorem hasArp_iff {ev : Event} {net : NetworkEvent} (hnet : ev.network = some net) :
    ev.HasArp ↔ net.arpHeader ≠ none := by
  simp [HasArp, hnet]

theorem network_of_enqueue {ev : Event} {net : NetworkEvent}
    (hkind : ev.kind = .networkEnqueue net) : ev.network = some net := by
  simp [Event.network, hkind]

end Event

namespace NetDeviceSpan

variable {s : NetDeviceSpan} {enqueue finish : Event} {enq fin : NetworkEvent}

theorem Ends.network (h : Ends enqueue finish enq fin) : finish.network = some fin := by
  rcases h.1 with hkind | hkind
  · simp [Event.network, hkind]
  · simp [Event.network, hkind]

/-- The summary of the events that a span took. -/
structure Summarises (s : NetDeviceSpan) (accepted : List Event) : Prop where
  isArp : s.isArp = true ↔ ∃ ev ∈ accepted, ev.HasArp
  hasIpsSet : s.ipsSet = true ↔ ∃ ev ∈ accepted, ev.HasIp ∨ ev.HasArp
  addresses : s.ipsSet = true → ∀ ev ∈ accepted, ∀ net, ev.network = some net → s.Matches net
  boundaryTypes : ∀ type, type ∈ s.boundaryTypes ↔
    ∃ ev ∈ accepted, ∃ net, ev.network = some net ∧ net.boundaryType = type
  isDrop : s.isDrop = true ↔ ∃ second, accepted[1]? = some second ∧ second.getType = .kNetworkDropT
  device : ∃ enqueue enq, accepted.head? = some enqueue ∧ enqueue.kind = .networkEnqueue enq ∧
    s.node = enq.node ∧ s.device = enq.device ∧ s.deviceType = some enq.deviceType ∧
    s.interestingFlag = enq.interestingFlag

/-- The headers of the events that were taken, and of the first enqueue that was offered,
for which the flags are right. -/
def Summarisable (offered accepted : List Event) : Prop :=
  ((∃ ev ∈ accepted, ev.HasIp) ∧ ∀ ev ∈ accepted, ¬ ev.HasArp) ∨
    (∀ ev ∈ accepted, ¬ ev.HasIp) ∧ ¬ FirstConflicts offered

theorem Ended.summarisable_iff {offered : List Event} (hs : s.Ended enqueue finish enq fin) :
    Summarisable offered [enqueue, finish] ↔
      (enq.ipHeader ≠ none ∧ enq.arpHeader = none ∧ fin.arpHeader = none) ∨
        enq.ipHeader = none ∧ ¬ FirstConflicts offered := by
  have henq := Event.network_of_enqueue hs.kind
  have hfin := hs.ends.network
  have hip : enq.ipHeader = none ↔ fin.ipHeader = none := isConsistent_ipHeader hs.ends.2.1
  simp [Summarisable, Event.hasIp_iff henq, Event.hasIp_iff hfin, Event.hasArp_iff henq,
    Event.hasArp_iff hfin, ← hip]

/-- Only the flags can be wrong. -/
theorem Ended.summarises_iff_summarisable {offered : List Event} (hs : s.Ended enqueue finish enq fin)
    (hlatched : Latched (FirstConflicts offered) [enq, fin] s) :
    s.Summarises [enqueue, finish] ↔ Summarisable offered [enqueue, finish] := by
  have henq := Event.network_of_enqueue hs.kind
  have hfin := hs.ends.network
  have hip : enq.ipHeader = none ↔ fin.ipHeader = none := isConsistent_ipHeader hs.ends.2.1
  have hset : s.ipsSet = true ↔ FirstConflicts offered ∨ enq.ipHeader ≠ none ∨
      enq.arpHeader ≠ none ∨ fin.arpHeader ≠ none := by
    rw [hlatched.ipsSet]
    simp [← hip]
    grind
  have harp : s.isArp = true ↔ ¬ FirstConflicts offered ∧ enq.ipHeader = none ∧
      (enq.arpHeader ≠ none ∨ fin.arpHeader ≠ none) := by
    rw [hlatched.isArp]
    simp [← hip]
  have hevArp : (∃ ev ∈ [enqueue, finish], ev.HasArp) ↔
      enq.arpHeader ≠ none ∨ fin.arpHeader ≠ none := by
    simp [Event.hasArp_iff henq, Event.hasArp_iff hfin]
  have hevIps : (∃ ev ∈ [enqueue, finish], ev.HasIp ∨ ev.HasArp) ↔
      enq.ipHeader ≠ none ∨ enq.arpHeader ≠ none ∨ fin.arpHeader ≠ none := by
    simp [Event.hasIp_iff henq, Event.hasIp_iff hfin, Event.hasArp_iff henq,
      Event.hasArp_iff hfin, ← hip]
    grind
  rw [hs.summarisable_iff]
  constructor
  · intro h
    have hisArp := h.isArp
    have hips := h.hasIpsSet
    rw [hevArp, harp] at hisArp
    rw [hevIps, hset] at hips
    grind
  · intro h
    constructor
    · rw [hevArp, harp]
      grind
    · rw [hevIps, hset]
      grind
    · rintro - ev hev net hnet
      have haddresses := hlatched.addresses
      simp only [List.mem_cons, List.not_mem_nil, or_false] at hev
      rcases hev with rfl | rfl
      · obtain rfl := Option.some.inj (henq.symm.trans hnet)
        exact haddresses _ (by simp)
      · obtain rfl := Option.some.inj (hfin.symm.trans hnet)
        exact haddresses _ (by simp)
    · intro type
      rw [hs.boundaryTypes]
      simp [henq, hfin, eq_comm]
    · rw [hs.isDrop]
      simp
    · exact ⟨enqueue, enq, rfl, hs.kind, hs.node, hs.device, hs.deviceType, hs.interestingFlag⟩

/-- A span that was offered events until it was complete summarises what it took exactly if
its events have no ARP header besides an IP header, and if its addresses were not set by an
enqueue that it refused. -/
theorem summarises_iff (evs : List Event) (hcomplete : (run addToSpan { } evs).2.isComplete = true) :
    (run addToSpan { } evs).2.Summarises (run addToSpan { } evs).1 ↔
      Summarisable evs (run addToSpan { } evs).1 := by
  have hreached := reached_run evs
  generalize (run addToSpan { } evs).2 = s at hreached hcomplete ⊢
  generalize (run addToSpan { } evs).1 = accepted at hreached ⊢
  cases hreached with
  | waiting hs => simp [EventSpan.isComplete, hs.isPending] at hcomplete
  | enqueued hs => simp [EventSpan.isComplete, hs.isPending] at hcomplete
  | ended hs hlatched => exact hs.summarises_iff_summarisable hlatched

/-- A packet with an IP header, and with an ARP header if there is one. -/
def addressed (arpHeader : Option ArpHeader) : NetworkEvent :=
  ⟨1, 3, .kCosimNetDevice, 27, false, 98, .kWithinSimulator, none, arpHeader,
    some ⟨84, ⟨0xc0a84002⟩, ⟨0xc0a84003⟩⟩⟩

def passed (net : NetworkEvent) : List Event :=
  [⟨10, 0, [], .networkEnqueue net⟩, ⟨20, 0, [], .networkDequeue net⟩]

theorem summarises_iff_of_ip :
    (run addToSpan { } (passed (addressed none))).2.Summarises
        (run addToSpan { } (passed (addressed none))).1 ↔
      Summarisable (passed (addressed none)) (run addToSpan { } (passed (addressed none))).1 :=
  summarises_iff (passed (addressed none)) (by decide)

/-- The ARP header of a packet that has an IP header too is not noted. -/
theorem not_summarises : ¬ ∀ evs : List Event, (run addToSpan { } evs).2.isComplete = true →
    (run addToSpan { } evs).2.Summarises (run addToSpan { } evs).1 := by
  intro h
  have hnoted := (h (passed (addressed (some ⟨⟨0xc0a84002⟩, ⟨0xc0a84003⟩, true⟩)))
    (by decide)).isArp.mpr ⟨_, List.mem_cons_self, _, rfl, by decide⟩
  revert hnoted
  decide

end NetDeviceSpan

end Columbo
