import Columbo.SpannerSystem

/-!
# The lists of pending spans

A span leaves its list when an event completes it, so a list shrinks only if no complete
span is put into it. A read of a register that is not of the device is complete at once,
and put into the list of the host all the same.
-/
namespace Columbo

open Coroutine Spanner

/-- A read of a register of another BAR than that of the device. -/
def Event.readsOtherBar (ev : Event) : Bool :=
  ev.getType = .kHostMmioRT && TraceEnvironment.isMsixNotToDeviceBarNumber ev.getBar

/-- The lists hold only pending spans. -/
def HostSpanner.PendingOnly (st : HostSpanner) : Prop :=
  (∀ s ∈ st.pendingHostMmioSpans, isComplete s = false) ∧
    ∀ s ∈ st.pendingHostDmaSpans, isComplete s = false

def NicSpanner.PendingOnly (st : NicSpanner) : Prop :=
  ∀ s ∈ st.pendingNicDmaSpans, isComplete s = false

def NetworkSpanner.PendingOnly (st : NetworkSpanner) : Prop :=
  ∀ s ∈ st.currentActiveDeviceSpans, isComplete s = false

namespace Spanner

variable {St : Type} [SpanClass St] {env : TraceEnvironment} {pending : List (Allocated St)}
  {ev : Event}

/-- A list of pending spans remains one. -/
theorem findAddErase_pending (hsteady : SpanClass.Steady St)
    (h : ∀ s ∈ pending, isComplete s = false) :
    ∀ s ∈ (findAddErase env pending ev).2, isComplete s = false := by
  intro s hs
  by_contra hcomplete
  have hsome : ∃ p ∈ (findAddErase env pending ev).2, isComplete p = true :=
    ⟨s, hs, by simpa using hcomplete⟩
  obtain ⟨p, hp, hdone⟩ := (findAddErase_complete hsteady env pending ev).mp hsome
  cases hdone.symm.trans (h p hp)

end Spanner

namespace HostSpanner

variable {env : TraceEnvironment} {queues : HostQueues} {rounds : Nat} {st : HostSpanner}
  {ev : Event} {past : List Event} {h : Log}

/-- What the lists say about the events handled so far. -/
structure Listed (past : List Event) (st : HostSpanner) : Prop where
  issues : ∀ s ∈ st.pendingHostMmioSpans, s.span.hostMmioIssue.isSome
  complete : (∃ s ∈ st.pendingHostMmioSpans, isComplete s = true) ↔
    ∃ ev ∈ past, ev.readsOtherBar = true
  dmas : ∀ s ∈ st.pendingHostDmaSpans, isComplete s = false

/-- An event that changes neither of the lists. -/
theorem Listed.other (hst : Listed past st) (hev : ev.readsOtherBar = false) {st' : HostSpanner}
    (hmmio : st'.pendingHostMmioSpans = st.pendingHostMmioSpans)
    (hdma : st'.pendingHostDmaSpans = st.pendingHostDmaSpans) : Listed (past ++ [ev]) st' := by
  constructor
  · rw [hmmio]
    exact hst.issues
  · rw [hmmio, hst.complete]
    simp [hev]
  · rw [hdma]
    exact hst.dmas

/-- The handlers of other events keep both lists. -/
def SameLists (st st' : HostSpanner) : Prop :=
  st'.pendingHostMmioSpans = st.pendingHostMmioSpans ∧
    st'.pendingHostDmaSpans = st.pendingHostDmaSpans

theorem sameLists_createTraceStartingSpan :
    Keeps (fun _ _ => True) (fun _ => Possible World.exec) (fun _ st' => SameLists st st')
      (createTraceStartingSpan env queues rounds st ev false) h := by
  unfold createTraceStartingSpan
  exact keeps_bind_true fun _ _ => keeps_bind_true fun _ _ => keeps_pure ⟨rfl, rfl⟩

theorem sameLists_addCall :
    Keeps (fun _ _ => True) (fun _ => Possible World.exec) (fun _ r => SameLists st r.2)
      (addCall env queues rounds st ev) h := by
  unfold addCall
  refine keeps_bind_true fun _ call => keeps_bind_true fun _ r => ?_
  dsimp only
  split_ifs
  · exact keeps_pure ⟨rfl, rfl⟩
  · exact keeps_bind (sameLists_createTraceStartingSpan.mono fun _ _ hsame => keeps_pure hsame)
  · exact keeps_pure ⟨rfl, rfl⟩

theorem sameLists_handelCall :
    Keeps (fun _ _ => True) (fun _ => Possible World.exec) (fun _ r => SameLists st r.2)
      (handelCall env queues rounds st ev) h := by
  unfold handelCall ensureCallSpan
  split_ifs
  · refine keeps_bind (sameLists_createTraceStartingSpan.mono fun _ st' hsame => ?_)
    refine sameLists_addCall.mono fun _ r hsame' => ?_
    exact ⟨hsame'.1.trans hsame.1, hsame'.2.trans hsame.2⟩
  · exact sameLists_addCall

theorem sameLists_handelPci :
    Keeps (fun _ _ => True) (fun _ => Possible World.exec) (fun _ r => SameLists st r.2)
      (handelPci env st ev) h := by
  have hstart : Keeps (fun _ _ => True) (fun _ => Possible World.exec)
      (fun _ r => SameLists st r.2) (handelPciStart env st ev) h := by
    unfold handelPciStart
    exact keeps_bind_true fun _ _ => keeps_bind_true fun _ _ => keeps_bind_true fun _ _ =>
      keeps_pure ⟨rfl, rfl⟩
  unfold handelPci
  split
  · split_ifs
    · exact keeps_bind_true fun _ _ => keeps_bind_true fun _ _ => keeps_bind_true fun _ _ =>
        keeps_pure ⟨rfl, rfl⟩
    · exact hstart
  · exact hstart

theorem sameLists_handelMsix :
    Keeps (fun _ _ => True) (fun _ => Possible World.exec) (fun _ r => SameLists st r.2)
      (handelMsix env queues st ev) h := by
  unfold handelMsix
  refine keeps_bind_true fun _ con => ?_
  split_ifs
  · exact keeps_pure ⟨rfl, rfl⟩
  · exact keeps_bind_true fun _ _ => keeps_pure ⟨rfl, rfl⟩

theorem sameLists_handelInt :
    Keeps (fun _ _ => True) (fun _ => Possible World.exec) (fun _ r => SameLists st r.2)
      (handelInt env st ev) h := by
  unfold handelInt
  split
  · exact keeps_bind_true fun _ _ => keeps_bind_true fun _ _ => keeps_pure ⟨rfl, rfl⟩
  · refine keeps_bind_true fun _ r => ?_
    dsimp only
    split_ifs
    · exact keeps_pure ⟨rfl, rfl⟩
    · exact keeps_pure ⟨rfl, rfl⟩
    · exact keeps_bind_true fun _ _ => keeps_pure ⟨rfl, rfl⟩

/-- A new access is pending, unless it is a read of another BAR than that of the device. -/
theorem mmio_new {span : HostMmioSpan}
    (hadd : HostMmioSpan.addToSpan { barNumber := ev.getBar } ev = (true, span)) :
    span.hostMmioIssue.isSome ∧ span.isPending = !ev.readsOtherBar := by
  by_cases hissue : ev.getType = .kHostMmioWT ∨ ev.getType = .kHostMmioRT
  · obtain ⟨s, hnew, hmmio, -, -, -, -, hpending, -⟩ :=
      HostMmioSpan.addToSpan_new ev.getBar hissue
    obtain rfl := congrArg Prod.snd (hnew.symm.trans hadd)
    exact ⟨by simp [hmmio], hpending⟩
  · have hrefused := HostMmioSpan.addToSpan_new_of_ne ev.getBar
      (fun hwrite => hissue (.inl hwrite)) fun hread => hissue (.inr hread)
    rw [hadd] at hrefused
    cases hrefused

theorem listed_handelMmio (hst : Listed past st) :
    Keeps (fun _ _ => True) (fun _ => Possible World.exec) (fun _ r => Listed (past ++ [ev]) r.2)
      (handelMmio env queues st ev) h := by
  have hissues : ∀ s ∈ (findAddErase env st.pendingHostMmioSpans ev).2,
      s.span.hostMmioIssue.isSome :=
    (findAddErase_forall (P := fun s : HostMmioSpan => s.hostMmioIssue.isSome = true)
      (fun _ hs => HostMmioSpan.addToSpan_keeps_issue hs) hst.issues).1
  have hcomplete := findAddErase_complete SpanClass.steady_hostMmio env st.pendingHostMmioSpans ev
  rw [hst.complete] at hcomplete
  unfold handelMmio
  refine keeps_bind (keeps_iterateAddErase (fun rest hfind => ?_) fun p rest hfind => ?_)
  · rw [hfind] at hissues hcomplete
    refine keeps_bind_true fun _ call => ?_
    cases hadd : SpanClass.addToSpan env ({ barNumber := ev.getBar } : HostMmioSpan) ev with
    | mk accepted span =>
      refine keeps_bind (keeps_startSpanByParent hadd trivial fun ref _ => ⟨trivial, ?_⟩)
      intro id hid
      obtain rfl : accepted = true := World.accepted_of_possible hid
      obtain ⟨hissue, hpending⟩ := mmio_new hadd
      refine keeps_bind_true fun _ _ => keeps_bind_true fun _ _ => keeps_pure ?_
      constructor
      · exact List.forall_mem_append.mpr ⟨hissues, List.forall_mem_singleton.mpr hissue⟩
      · simp only [List.mem_append, or_and_right, exists_or, List.mem_singleton, exists_eq_left]
        rw [hcomplete]
        simp [hpending]
      · exact hst.dmas
  · rw [hfind] at hissues hcomplete
    refine ⟨trivial, keeps_bind_true fun _ _ => keeps_pure ⟨hissues, ?_, hst.dmas⟩⟩
    have htaken : ev.readsOtherBar = false := by
      obtain ⟨q, hq, -, htakes⟩ := findAddErase_found hfind
      by_contra hreads
      have hread : ev.getType = .kHostMmioRT := by
        unfold Event.readsOtherBar at hreads
        simp only [Bool.not_eq_false, Bool.and_eq_true, decide_eq_true_eq] at hreads
        exact hreads.1
      cases htakes.symm.trans (HostMmioSpan.addToSpan_issue (hst.issues q hq) (.inr hread))
    simpa [htaken] using hcomplete

theorem listed_handelDma (hst : Listed past st) (hev : ev.readsOtherBar = false) :
    Keeps (fun _ _ => True) (fun _ => Possible World.exec) (fun _ r => Listed (past ++ [ev]) r.2)
      (handelDma env queues st ev) h := by
  have hspans : ∀ (st : HostSpanner) (h : Log), Listed past st →
      Keeps (fun _ _ => True) (fun _ => Possible World.exec)
        (fun _ r => Listed (past ++ [ev]) r.2) (handelDmaSpans env queues st ev) h := by
    intro st h hst
    have hdmas : ∀ s ∈ (findAddErase env st.pendingHostDmaSpans ev).2, isComplete s = false :=
      findAddErase_pending SpanClass.steady_hostDma hst.dmas
    have hkept : Listed (past ++ [ev]) st := hst.other hev rfl rfl
    unfold handelDmaSpans
    refine keeps_bind (keeps_iterateAddErase (fun rest hfind => ?_) fun p rest hfind => ?_)
    · rw [hfind] at hdmas
      refine keeps_bind_true fun _ con => ?_
      dsimp only
      split_ifs
      · exact keeps_pure ⟨hkept.issues, hkept.complete, hdmas⟩
      · exact keeps_pure ⟨hkept.issues, hkept.complete, hdmas⟩
      · cases hadd : SpanClass.addToSpan env ({ } : HostDmaSpan) ev with
        | mk accepted span =>
          refine keeps_bind (keeps_startSpanByParentPassOnContext hadd trivial fun id _ =>
            keeps_pure ?_)
          have hpending : SpanClass.isComplete span = false := by
            have hnew : (HostDmaSpan.addToSpan { } ev).2.isPending = true :=
              HostDmaSpan.isPending_new ev
            have hspan : HostDmaSpan.addToSpan { } ev = (accepted, span) := hadd
            rw [hspan] at hnew
            simpa using hnew
          exact ⟨hkept.issues, hkept.complete,
            List.forall_mem_append.mpr ⟨hdmas, List.forall_mem_singleton.mpr hpending⟩⟩
    · rw [hfind] at hdmas
      exact ⟨trivial, keeps_bind_true fun _ _ =>
        keeps_pure ⟨hkept.issues, hkept.complete, hdmas⟩⟩
  unfold handelDma
  split
  · exact hspans st h hst
  · refine keeps_bind_true fun h' r => ?_
    dsimp only
    split_ifs
    · exact keeps_bind_true fun _ _ => keeps_pure (hst.other hev rfl rfl)
    · exact hspans _ h' ⟨hst.issues, hst.complete, hst.dmas⟩

theorem listed_consume (hst : Listed past st) :
    Keeps (fun _ _ => True) (fun _ => Possible World.exec) (fun _ r => Listed (past ++ [ev]) r.2)
      (consume env queues rounds st ev) h := by
  have hother : ev.getType ≠ .kHostMmioRT → ev.readsOtherBar = false := by
    intro hne
    simp [Event.readsOtherBar, hne]
  have hsame : ∀ {r : Bool × HostSpanner}, ev.getType ≠ .kHostMmioRT →
      SameLists st r.2 → Listed (past ++ [ev]) r.2 :=
    fun hne hr => hst.other (hother hne) hr.1 hr.2
  unfold consume
  cases htype : ev.getType with
  | kHostCallT => exact sameLists_handelCall.mono fun _ _ => hsame (by simp [htype])
  | kHostMmioWT | kHostMmioRT | kHostMmioImRespPoWT | kHostMmioCWT | kHostMmioCRT =>
    exact listed_handelMmio hst
  | kHostPciRWT | kHostConfT => exact sameLists_handelPci.mono fun _ _ => hsame (by simp [htype])
  | kHostDmaWT | kHostDmaRT | kHostDmaCT => exact listed_handelDma hst (hother (by simp [htype]))
  | kHostMsiXT => exact sameLists_handelMsix.mono fun _ _ => hsame (by simp [htype])
  | kHostPostIntT | kHostClearIntT =>
    exact sameLists_handelInt.mono fun _ _ => hsame (by simp [htype])
  | _ => exact keeps_pure (hst.other (hother (by simp [htype])) rfl rfl)

/-- The lists hold only pending spans as long as no other BAR is read. -/
theorem pendingOnly_iff_of_performs {evs : List Event}
    (hrun : Performs World.exec (consumeAll env queues rounds evs) h (.pure st)) :
    st.PendingOnly ↔ ∀ ev ∈ evs, ev.readsOtherBar = false := by
  have hkeeps : Keeps (fun _ _ => True) (fun _ => Possible World.exec)
      (fun _ st => Listed evs st) (consumeAll env queues rounds evs) [] := by
    refine Keeps.foldlM (fun past _ st => Listed past st) ?_ ⟨by simp, by simp, by simp⟩
    intro past ev rest h st _ hst
    exact keeps_bind ((listed_consume hst).mono fun _ _ hr => keeps_pure hr)
  have hlisted : Listed evs st := hkeeps.performs hrun
  have hmmio : (∀ s ∈ st.pendingHostMmioSpans, isComplete s = false) ↔
      ∀ ev ∈ evs, ev.readsOtherBar = false := by
    have hnot := not_congr hlisted.complete
    simpa using hnot
  exact ⟨fun hst => hmmio.mp hst.1, fun hevs => ⟨hmmio.mpr hevs, hlisted.dmas⟩⟩

end HostSpanner

namespace NicSpanner

variable {env : TraceEnvironment} {queues : NicQueues} {st : NicSpanner} {ev : Event} {h : Log}

theorem pendingOnly_handelDma (hst : st.PendingOnly) :
    Keeps (fun _ _ => True) (fun _ => Possible World.exec) (fun _ r => r.2.PendingOnly)
      (handelDma env queues st ev) h := by
  have hspans : ∀ s ∈ (findAddErase env st.pendingNicDmaSpans ev).2, isComplete s = false :=
    findAddErase_pending SpanClass.steady_nicDma hst
  unfold handelDma
  refine keeps_bind (keeps_iterateAddErase (fun rest hfind => ?_) fun p rest hfind => ?_)
  · rw [hfind] at hspans
    dsimp only
    split_ifs
    · exact keeps_pure hspans
    · refine keeps_bind_true fun _ parent => ?_
      cases hadd : SpanClass.addToSpan env ({ } : NicDmaSpan) ev with
      | mk accepted span =>
        refine keeps_bind (keeps_startSpanByParent hadd trivial fun ref _ => ⟨trivial, ?_⟩)
        intro id _
        have hpending : SpanClass.isComplete span = false := by
          have hnew := NicDmaSpan.isPending_new ev
          have hspan : NicDmaSpan.addToSpan { } ev = (accepted, span) := hadd
          rw [hspan] at hnew
          simpa using hnew
        exact keeps_pure
          (List.forall_mem_append.mpr ⟨hspans, List.forall_mem_singleton.mpr hpending⟩)
  · rw [hfind] at hspans
    exact ⟨trivial, keeps_bind_true fun _ _ => keeps_pure hspans⟩

theorem pendingOnly_consume (hst : st.PendingOnly) :
    Keeps (fun _ _ => True) (fun _ => Possible World.exec) (fun _ r => r.2.PendingOnly)
      (consume env queues st ev) h := by
  have hmmio : Keeps (fun _ _ => True) (fun _ => Possible World.exec)
      (fun _ r => r.2.PendingOnly) (handelMmio env queues st ev) h := by
    unfold handelMmio
    refine keeps_bind_true fun _ con => ?_
    split_ifs
    · exact keeps_pure hst
    · refine keeps_bind_true fun _ mmio => keeps_bind_true fun _ _ => keeps_pure ?_
      split_ifs <;> exact hst
  have heth : Keeps (fun _ _ => True) (fun _ => Possible World.exec)
      (fun _ r => r.2.PendingOnly) (handelTxrx env queues st ev) h := by
    unfold handelTxrx
    split_ifs
    · exact keeps_bind_true fun _ _ => keeps_bind_true fun _ _ => keeps_bind_true fun _ _ =>
        keeps_bind_true fun _ _ => keeps_pure hst
    · exact keeps_bind_true fun _ _ => keeps_bind_true fun _ _ => keeps_bind_true fun _ _ =>
        keeps_bind_true fun _ _ => keeps_bind_true fun _ _ => keeps_pure hst
    · exact keeps_pure hst
  unfold consume
  cases ev.getType with
  | kNicMmioWT | kNicMmioRT => exact hmmio
  | kNicDmaIT | kNicDmaExT | kNicDmaCWT | kNicDmaCRT => exact pendingOnly_handelDma hst
  | kNicTxT | kNicRxT => exact heth
  | kNicMsixT =>
    exact keeps_bind_true fun _ _ => keeps_bind_true fun _ _ => keeps_bind_true fun _ _ =>
      keeps_bind_true fun _ _ => keeps_pure hst
  | _ => exact keeps_pure hst

theorem pendingOnly_of_performs {evs : List Event}
    (hrun : Performs World.exec (consumeAll env queues evs) h (.pure st)) : st.PendingOnly := by
  have hkeeps : Keeps (fun _ _ => True) (fun _ => Possible World.exec)
      (fun _ st => st.PendingOnly) (consumeAll env queues evs) [] := by
    refine Keeps.foldlM (fun _ _ (st : NicSpanner) => st.PendingOnly) ?_ fun s hs => (nomatch hs)
    intro past ev rest h st _ hst
    exact keeps_bind ((pendingOnly_consume hst).mono fun _ _ hr => keeps_pure hr)
  exact hkeeps.performs hrun

end NicSpanner

namespace NetworkSpanner

variable {env : TraceEnvironment} {queues : NetworkQueues} {filter : NodeDeviceFilter}
  {st : NetworkSpanner} {ev : Event} {h : Log}

theorem pendingOnly_startDeviceSpan {net : NetworkEvent} (hst : st.PendingOnly) :
    Keeps (fun _ _ => True) (fun _ => Possible World.exec) (fun _ r => r.2.PendingOnly)
      (startDeviceSpan env queues filter st ev net) h := by
  have hconcat : ∀ {accepted : Bool} {span : NetDeviceSpan} {id : Nat},
      SpanClass.addToSpan env ({ } : NetDeviceSpan) ev = (accepted, span) →
      PendingOnly { st with
        currentActiveDeviceSpans := st.currentActiveDeviceSpans ++ [⟨id, span⟩] } := by
    intro accepted span id hadd
    have hpending : SpanClass.isComplete span = false := by
      have hnew := NetDeviceSpan.isPending_new ev
      have hspan : NetDeviceSpan.addToSpan { } ev = (accepted, span) := hadd
      rw [hspan] at hnew
      simpa using hnew
    exact List.forall_mem_append.mpr ⟨hst, List.forall_mem_singleton.mpr hpending⟩
  unfold startDeviceSpan
  cases hadd : SpanClass.addToSpan env ({ } : NetDeviceSpan) ev with
  | mk accepted span =>
    split_ifs
    · exact keeps_pure hst
    · exact keeps_bind (keeps_startSpan hadd trivial fun _ _ => keeps_pure (hconcat hadd))
    · exact keeps_pure hst
    · refine keeps_bind_true fun _ context => ?_
      exact keeps_bind (keeps_startSpanByParentPassOnContext hadd trivial fun _ _ =>
        keeps_pure (hconcat hadd))

theorem pendingOnly_consume (hst : st.PendingOnly) :
    Keeps (fun _ _ => True) (fun _ => Possible World.exec) (fun _ r => r.2.PendingOnly)
      (consume env queues filter st ev) h := by
  have hhandle : Keeps (fun _ _ => True) (fun _ => Possible World.exec)
      (fun _ r => r.2.PendingOnly) (handelNetworkEvent env queues filter st ev) h := by
    have hspans : ∀ s ∈ (findAddErase env st.currentActiveDeviceSpans ev).2,
        isComplete s = false :=
      findAddErase_pending SpanClass.steady_netDevice hst
    unfold handelNetworkEvent
    cases ev.network with
    | none => exact keeps_pure hst
    | some net =>
      dsimp only
      split_ifs
      · exact keeps_pure hst
      · refine keeps_bind (keeps_iterateAddErase (fun rest hfind => ?_) fun s rest hfind => ?_)
        · rw [hfind] at hspans
          have hrest : PendingOnly { st with currentActiveDeviceSpans := rest } := hspans
          exact pendingOnly_startDeviceSpan hrest
        · rw [hfind] at hspans
          exact ⟨trivial, keeps_bind_true fun _ _ => keeps_bind_true fun _ _ =>
            keeps_bind_true fun _ _ => keeps_pure hspans⟩
  unfold consume
  cases ev.getType with
  | kNetworkEnqueueT | kNetworkDequeueT | kNetworkDropT => exact hhandle
  | _ => exact keeps_pure hst

theorem pendingOnly_of_performs {evs : List Event}
    (hrun : Performs World.exec (consumeAll env queues filter evs) h (.pure st)) :
    st.PendingOnly := by
  have hkeeps : Keeps (fun _ _ => True) (fun _ => Possible World.exec)
      (fun _ st => st.PendingOnly) (consumeAll env queues filter evs) [] := by
    refine Keeps.foldlM (fun _ _ (st : NetworkSpanner) => st.PendingOnly) ?_ fun s hs => (nomatch hs)
    intro past ev rest h st _ hst
    exact keeps_bind ((pendingOnly_consume hst).mono fun _ _ hr => keeps_pure hr)
  exact hkeeps.performs hrun

end NetworkSpanner

/-- After any events the lists of the NIC and of the network hold only pending spans; those
of the host do so exactly as long as no other BAR than that of the device is read. -/
theorem pendingOnly_iff {env : TraceEnvironment} {rounds : Nat} {filter : NodeDeviceFilter}
    {hostQueues : HostQueues} {nicQueues : NicQueues} {networkQueues : NetworkQueues}
    {hostEvs nicEvs networkEvs : List Event} {h₁ h₂ h₃ : Log} {host : HostSpanner}
    {nic : NicSpanner} {network : NetworkSpanner}
    (hhost : Performs World.exec (HostSpanner.consumeAll env hostQueues rounds hostEvs) h₁
      (.pure host))
    (hnic : Performs World.exec (NicSpanner.consumeAll env nicQueues nicEvs) h₂ (.pure nic))
    (hnetwork : Performs World.exec
      (NetworkSpanner.consumeAll env networkQueues filter networkEvs) h₃ (.pure network)) :
    (host.PendingOnly ∧ nic.PendingOnly ∧ network.PendingOnly) ↔
      ∀ ev ∈ hostEvs, ev.readsOtherBar = false := by
  have hnic' := NicSpanner.pendingOnly_of_performs hnic
  have hnetwork' := NetworkSpanner.pendingOnly_of_performs hnetwork
  have hiff := HostSpanner.pendingOnly_iff_of_performs hhost
  constructor
  · rintro ⟨hhost', -, -⟩
    exact hiff.mp hhost'
  · intro hevs
    exact ⟨hiff.mpr hevs, hnic', hnetwork'⟩

/-- A call and a read of a register in the given BAR. -/
def readInBar (bar : Int32) : List Event :=
  [⟨10, 0, bytes "gem5", .hostCall 0 none none⟩,
    ⟨20, 0, bytes "gem5", .hostMmioR 1 0 4 bar 0⟩]

theorem performs_readInBar (bar : Int32) (hbar : bar = 0 ∨ bar = 1) :
    ∃ (h : Log) (st : HostSpanner), Performs World.exec
      (HostSpanner.consumeAll noNames ⟨0, 1, 2⟩ 0 (readInBar bar)) h (.pure st) := by
  rcases hbar with rfl | rfl
  · exact ⟨_, _, performs_of_run (w := World.init) rfl⟩
  · exact ⟨_, _, performs_of_run (w := World.init) rfl⟩

theorem pendingOnly_iff_readInBar : ∃ (host : HostSpanner) (nic : NicSpanner)
    (network : NetworkSpanner), (host.PendingOnly ∧ nic.PendingOnly ∧ network.PendingOnly) ↔
      ∀ ev ∈ readInBar 0, ev.readsOtherBar = false := by
  obtain ⟨h, host, hhost⟩ := performs_readInBar 0 (.inl rfl)
  exact ⟨host, { }, { }, pendingOnly_iff hhost
    (performs_of_run (x := NicSpanner.consumeAll noNames ⟨3, 4, 1, 0, 2⟩ []) (w := World.init) rfl)
    (performs_of_run (x := NetworkSpanner.consumeAll noNames ⟨fun _ _ => none, fun _ _ => none⟩
      ⟨[]⟩ []) (w := World.init) rfl)⟩

/-- A read in another BAR stays in the list as a complete span. -/
theorem not_pendingOnly_readInBar : ¬ ∀ (evs : List Event) (h : Log) (st : HostSpanner),
    Performs World.exec (HostSpanner.consumeAll noNames ⟨0, 1, 2⟩ 0 evs) h (.pure st) →
      st.PendingOnly := by
  intro hall
  obtain ⟨h, st, hrun⟩ := performs_readInBar 1 (.inr rfl)
  have hpending := (HostSpanner.pendingOnly_iff_of_performs hrun).mp (hall _ h st hrun)
  exact absurd hpending (by decide)

end Columbo
