import Columbo.PlacedEvents
import Columbo.TraceProgramRuns

/-!
# The handlers account for their events

Each handler of a spanner uses its event once at most, and the spans that stay in the slots hold
what was put into them. So in every system of spanners the spans that are handed over are
transactions of the events of their spanner.
-/
namespace Columbo

open Coroutine Spanner

/-- What a spanner accounts for with one event, it accounts for with all of them. -/
theorem holds_events {σ : Type} {env : TraceEnvironment} {offers evs : List Event}
    {consume : σ → Event → Spanning (Bool × σ)} {start : σ} (toCome : σ → List Event → List Event)
    (held : σ → Multiset (Nat × SpanObject))
    (hconsume : ∀ st ev room h, Placing env offers h (toCome st (ev :: room)) (held st) →
      Keeps (accounts env offers) freshRely
        (fun h' r => Placing env offers h' (toCome r.2 room) (held r.2)) (consume st ev) h)
    (hstart : Placing env offers [] (toCome start evs) (held start)) :
    Keeps (accounts env offers) freshRely (fun _ _ => True)
      (evs.foldlM (fun st ev => return (← consume st ev).2) start) [] := by
  refine (Keeps.foldlM (fun past h st => ∀ rest, evs = past ++ rest →
    Placing env offers h (toCome st rest) (held st)) ?_ ?_).mono fun _ _ _ => trivial
  · intro past ev rest h st hevs hh
    refine keeps_bind ((hconsume st ev rest h (hh (ev :: rest) hevs)).mono fun h' r hr =>
      keeps_pure fun rest' hrest' => ?_)
    have hsame : rest' = rest := by
      rw [hevs] at hrest'
      simpa using hrest'.symm
    exact hsame ▸ hr
  · intro rest hrest
    obtain rfl : evs = rest := hrest
    exact hstart

namespace HostSpanner

variable {env : TraceEnvironment} {queues : HostQueues} {rounds : Nat} {st : HostSpanner}
  {ev : Event} {h : Log} {room offers : List Event} {spans : Multiset (Nat × SpanObject)}

/-- The events as they are offered to spans: the first call comes twice. -/
def offered : List Event → List Event
  | [] => []
  | ev :: evs => if ev.getType = .kHostCallT then ev :: ev :: evs else ev :: offered evs

/-- The spans in the slots. -/
def held (st : HostSpanner) : Multiset (Nat × SpanObject) :=
  slotEntry st.pendingHostCallSpan + (slotEntry st.pendingHostIntSpan +
    slotEntry st.pendingHostMsixSpan + entries st.pendingHostDmaSpans +
    entries st.pendingHostMmioSpans + slotEntry st.pendingPciSpan)

theorem held_mmios (st : HostSpanner) (pending : List (Allocated HostMmioSpan)) :
    held { st with pendingHostMmioSpans := pending } =
      entries pending + (slotEntry st.pendingHostCallSpan + slotEntry st.pendingHostIntSpan +
        slotEntry st.pendingHostMsixSpan + entries st.pendingHostDmaSpans +
        slotEntry st.pendingPciSpan) := by
  unfold held
  abel

theorem held_pci (st : HostSpanner) (slot : Option (Allocated HostPciSpan)) :
    held { st with pendingPciSpan := slot } =
      slotEntry slot + (slotEntry st.pendingHostCallSpan + slotEntry st.pendingHostIntSpan +
        slotEntry st.pendingHostMsixSpan + entries st.pendingHostDmaSpans +
        entries st.pendingHostMmioSpans) := by
  unfold held
  abel

theorem held_dmas (st : HostSpanner) (pending : List (Allocated HostDmaSpan)) :
    held { st with pendingHostDmaSpans := pending } =
      entries pending + (slotEntry st.pendingHostCallSpan + slotEntry st.pendingHostIntSpan +
        slotEntry st.pendingHostMsixSpan + entries st.pendingHostMmioSpans +
        slotEntry st.pendingPciSpan) := by
  unfold held
  abel

theorem held_msix (st : HostSpanner) (slot : Option (Allocated HostMsixSpan)) :
    held { st with pendingHostMsixSpan := slot } =
      slotEntry slot + (slotEntry st.pendingHostCallSpan + slotEntry st.pendingHostIntSpan +
        entries st.pendingHostDmaSpans + entries st.pendingHostMmioSpans +
        slotEntry st.pendingPciSpan) := by
  unfold held
  abel

theorem held_int (st : HostSpanner) (slot : Option (Allocated HostIntSpan)) :
    held { st with pendingHostIntSpan := slot } =
      slotEntry slot + (slotEntry st.pendingHostCallSpan + slotEntry st.pendingHostMsixSpan +
        entries st.pendingHostDmaSpans + entries st.pendingHostMmioSpans +
        slotEntry st.pendingPciSpan) := by
  unfold held
  abel

/-- The copies of a complete call hold its events. -/
theorem holds_copyForReceives {call : Allocated HostCallSpan} (hcomplete : isComplete call = true)
    (hcall : entry call ∈ spans) (hh : Placing env offers h room spans) :
    Keeps (accounts env offers) freshRely (fun h' _ => Placing env offers h' room spans)
      (copyForReceives queues call rounds) h := by
  have hdone : call.span.isPending = false := by simpa using hcomplete
  induction rounds generalizing h with
  | zero => exact holds_throw
  | succ rounds ih =>
    unfold copyForReceives
    refine keeps_bind ⟨trivial, fun next _ => ?_⟩
    have hh₁ : Placing env offers (h ++ [⟨.tryPopOnTrue _ _, next⟩]) room spans := hh.other rfl rfl
    cases next with
    | none => exact keeps_pure hh₁
    | some context =>
      refine keeps_bind ⟨trivial, fun copy _ => ?_⟩
      have hh₂ := hh₁.other (c := .cloneShared call.id) (r := copy) rfl rfl
      refine keeps_bind ⟨trivial, fun _ _ => ?_⟩
      have hh₃ := hh₂.other (c := .startSpanSetParentContext copy context) (r := ()) rfl rfl
      have htook := hh₃.took _ hcall
      have hevents : call.span.events = _ := htook.events
      refine keeps_bind (keeps_perform ⟨hh₃.created _ hcall, hevents, ?_⟩ fun _ _ => ?_)
      · exact hevents ▸ htook.word hdone
      · refine ih (hh₃.mark (hh₃.created _ hcall) fun s hs heq => ?_)
        have hsame : s = entry call := Multiset.inj_on_of_nodup_map hh₃.nodup _ hs _ hcall heq
        rw [hsame]
        exact hdone

/-- A complete call span is handed over, after its copies. -/
theorem holds_finishPendingSpan
    (hh : Placing env offers h room (slotEntry st.pendingHostCallSpan + spans))
    (hcomplete : ∀ call, st.pendingHostCallSpan = some call → isComplete call = true) :
    Keeps (accounts env offers) freshRely (fun h' _ => Placing env offers h' room spans)
      (finishPendingSpan queues rounds st) h := by
  unfold finishPendingSpan
  cases hcall : st.pendingHostCallSpan with
  | none =>
    rw [hcall] at hh
    exact keeps_pure hh.drop
  | some call =>
    rw [hcall] at hh
    have hdone := hcomplete call hcall
    have hmem : entry call ∈ slotEntry (some call) + spans := by simp [slotEntry]
    dsimp only
    split_ifs
    · exact holds_markSpanAsDone_gone hh hdone
    · refine keeps_bind ⟨trivial, fun _ _ => keeps_bind ⟨trivial, fun _ _ => ?_⟩⟩
      refine keeps_bind ((holds_copyForReceives hdone hmem
        ((hh.other rfl rfl).other rfl rfl)).mono fun h₃ _ hh₃ => ?_)
      exact holds_markSpanAsDone_gone hh₃ hdone

theorem isNew_call : IsNew env ({ isFragmented := false } : HostCallSpan) := ⟨.call, rfl⟩

theorem holds_createTraceStartingSpan (hh : Placing env offers h (ev :: room) st.held)
    (hcomplete : ∀ call, st.pendingHostCallSpan = some call → isComplete call = true) :
    Keeps (accounts env offers) freshRely (fun h' st' => Placing env offers h' room st'.held ∧
      st'.pendingHostCallSpan.isSome = true)
      (createTraceStartingSpan env queues rounds st ev false) h := by
  unfold createTraceStartingSpan
  refine keeps_bind ((holds_finishPendingSpan hh hcomplete).mono fun h₁ _ hh₁ => ?_)
  refine keeps_bind ((holds_startSpan hh₁ isNew_call).mono fun h₂ call hh₂ => ?_)
  exact keeps_pure ⟨hh₂.1, rfl⟩

theorem holds_addCall (hh : Placing env offers h (ev :: room) st.held) :
    Keeps (accounts env offers) freshRely (fun h' r => Placing env offers h' room r.2.held ∧
      r.2.pendingHostCallSpan.isSome = true) (addCall env queues rounds st ev) h := by
  unfold addCall
  refine keeps_bind ((holds_throwIfEmpty hh).mono fun h₁ call hcall => ?_)
  obtain ⟨hh₁, hcall⟩ := hcall
  unfold held at hh₁
  rw [hcall] at hh₁
  refine keeps_bind ((holds_addToSpan hh₁).mono fun h₂ r hr => ?_)
  obtain ⟨added, call'⟩ := r
  obtain ⟨hh₂, -⟩ := hr
  dsimp only
  split_ifs with hadded hdone
  · obtain rfl : added = true := hadded
    exact keeps_pure ⟨hh₂, rfl⟩
  · obtain rfl : added = false := by simpa using hadded
    have hcreate : Keeps (accounts env offers) freshRely _
        (createTraceStartingSpan env queues rounds
          { st with pendingHostCallSpan := some call' } ev false) h₂ :=
      holds_createTraceStartingSpan hh₂ fun c hc => Option.some.inj hc ▸ hdone
    exact keeps_bind (hcreate.mono fun _ _ hh₃ => keeps_pure hh₃)
  · obtain rfl : added = false := by simpa using hadded
    exact keeps_pure ⟨hh₂.skip (List.sublist_cons_self ev room), rfl⟩

/-- The first call is put into a span by both steps. -/
theorem holds_handelCall
    (hh : Placing env offers h
      (if st.pendingHostCallSpan.isSome then ev :: room else ev :: ev :: room) st.held) :
    Keeps (accounts env offers) freshRely (fun h' r => Placing env offers h' room r.2.held ∧
      r.2.pendingHostCallSpan.isSome = true) (handelCall env queues rounds st ev) h := by
  unfold handelCall ensureCallSpan
  cases hslot : st.pendingHostCallSpan with
  | none =>
    rw [hslot] at hh
    rw [if_pos (by rfl)]
    refine keeps_bind ((holds_createTraceStartingSpan hh fun c hc => ?_).mono
      fun h₁ st₁ hh₁ => holds_addCall hh₁.1)
    cases hslot.symm.trans hc
  | some call =>
    rw [hslot] at hh
    rw [if_neg (by simp)]
    exact holds_addCall hh

theorem holds_handelMmio (hh : Placing env offers h (ev :: room) st.held) :
    Keeps (accounts env offers) freshRely (fun h' r => Placing env offers h' room r.2.held ∧
      r.2.pendingHostCallSpan = st.pendingHostCallSpan) (handelMmio env queues st ev) h := by
  have hsplit := held_mmios st
  unfold handelMmio
  refine keeps_bind ((holds_iterateAddErase (hsplit st.pendingHostMmioSpans ▸ hh)).mono
    fun h₁ r hh₁ => ?_)
  obtain ⟨found, pending⟩ := r
  cases found with
  | some mmio =>
    rw [← hsplit pending] at hh₁
    exact keeps_bind ((holds_markComplete hh₁).mono fun _ _ hh₂ => keeps_pure ⟨hh₂, rfl⟩)
  | none =>
    rw [← hsplit pending] at hh₁
    refine keeps_bind ((holds_throwIfEmpty hh₁).mono fun h₂ call hh₂ => ?_)
    refine keeps_bind ((holds_startSpanByParent hh₂.1
      (.of_shape (.hostMmio ev.getBar) rfl) _).mono fun h₃ mmio hmmio => ?_)
    have hlive : held { st with pendingHostMmioSpans := pending ++ [mmio] } =
        {entry mmio} + held { st with pendingHostMmioSpans := pending } := by
      rw [hsplit, hsplit, entries_concat, add_assoc]
    have hh₃ := hmmio.1
    rw [← hlive] at hh₃
    refine keeps_bind ((holds_whenever hh₃ fun _ => holds_pushPropagateContext hh₃).mono
      fun h₄ _ hh₄ => ?_)
    refine keeps_bind ((holds_whenever hh₄ fun hmark => holds_markSpanAsDone hh₄ ?_
      (Bool.and_eq_true_iff.mp hmark).2).mono fun h₅ _ hh₅ => keeps_pure ⟨hh₅, rfl⟩)
    rw [hlive]
    simp

theorem holds_finishPciSpan (hh : Placing env offers h room (slotEntry st.pendingPciSpan + spans)) :
    Keeps (accounts env offers) freshRely (fun h' _ => Placing env offers h' room spans)
      (finishPciSpan st) h := by
  unfold finishPciSpan
  cases hslot : st.pendingPciSpan with
  | none =>
    rw [hslot] at hh
    exact keeps_pure hh.drop
  | some pci =>
    rw [hslot] at hh
    dsimp only
    split_ifs with hempty
    · exact holds_throw
    · have hmem : entry pci ∈ slotEntry (some pci) + spans := by simp [slotEntry]
      have htook : (SpanObject.hostPci pci.span).Took env (h.eventsOf pci.id) := hh.took _ hmem
      have hevents : pci.span.events = h.eventsOf pci.id := htook.events
      have hsource : (SpanObject.hostPci pci.span.markAsDone).source pci.id = pci.id := by
        have horiginal : pci.span.original = none := hh.original _ hmem
        exact congrArg (Option.getD · pci.id) horiginal
      have hsome : h.eventsOf pci.id ≠ [] := by
        intro hnil
        rw [hevents, hnil] at hempty
        exact hempty rfl
      refine keeps_perform ⟨?_, ?_, ?_⟩ fun _ _ => hh.drop.mark ?_ fun s hs heq => ?_
      · exact hsource.symm ▸ hh.created _ hmem
      · exact hevents.trans (congrArg h.eventsOf hsource.symm)
      · have hword := htook.markAsDone hsome
        rwa [← hevents] at hword
      · exact hsource.symm ▸ hh.created _ hmem
      · -- the span is none of the others
        exfalso
        have hnodup := hh.nodup
        have hslotEntry : slotEntry (some pci) = {entry pci} := rfl
        rw [hslotEntry, Multiset.map_add, Multiset.map_singleton, Multiset.singleton_add,
          Multiset.nodup_cons] at hnodup
        exact hnodup.1 (Multiset.mem_map.mpr ⟨s, hs, heq.trans hsource⟩)

/-- The pending span is handed over before the next one starts. -/
theorem holds_handelPci (hh : Placing env offers h (ev :: room) st.held) :
    Keeps (accounts env offers) freshRely (fun h' r => Placing env offers h' room r.2.held ∧
      r.2.pendingHostCallSpan = st.pendingHostCallSpan) (handelPci env st ev) h := by
  have hsplit := held_pci st
  have hh' := hsplit st.pendingPciSpan ▸ hh
  have hstart : Keeps (accounts env offers) freshRely
      (fun h' r => Placing env offers h' room r.2.held ∧
        r.2.pendingHostCallSpan = st.pendingHostCallSpan) (handelPciStart env st ev) h := by
    unfold handelPciStart
    refine keeps_bind ((holds_finishPciSpan hh').mono fun h₁ _ hh₁ => ?_)
    refine keeps_bind ((holds_throwIfEmpty hh₁).mono fun h₂ call hh₂ => ?_)
    refine keeps_bind ((holds_startSpanByParent hh₂.1 (.of_shape .hostPci rfl) _).mono
      fun h₃ pci hpci => keeps_pure ⟨?_, rfl⟩)
    rw [hsplit (some pci)]
    exact hpci.1
  unfold handelPci
  cases hslot : st.pendingPciSpan with
  | none => exact hstart
  | some pci =>
    dsimp only
    split_ifs with hconf
    · rw [hslot] at hh'
      refine keeps_bind ((holds_addToSpan hh').mono fun h₁ r hr => ?_)
      obtain ⟨added, pci'⟩ := r
      obtain ⟨hh₁, hadd⟩ := hr
      refine keeps_bind (keeps_whenever (fun _ => holds_throw) fun hadded => ?_)
      obtain rfl : added = true := by simpa using hadded
      have hpending : pci'.span.isPending = false := HostPciSpan.complete_of_conf hconf hadd
      refine keeps_bind ((holds_markSpanAsDone_gone hh₁ (by simp [hpending])).mono
        fun h₂ _ hh₂ => keeps_pure ⟨?_, rfl⟩)
      rw [hsplit none]
      simpa [slotEntry] using hh₂
    · exact hstart

theorem holds_handelDmaSpans (hh : Placing env offers h (ev :: room) st.held) :
    Keeps (accounts env offers) freshRely (fun h' r => Placing env offers h' room r.2.held ∧
      r.2.pendingHostCallSpan = st.pendingHostCallSpan) (handelDmaSpans env queues st ev) h := by
  have hsplit := held_dmas st
  have hskip := List.sublist_cons_self ev room
  unfold handelDmaSpans
  refine keeps_bind ((holds_iterateAddErase (hsplit st.pendingHostDmaSpans ▸ hh)).mono
    fun h₁ r hh₁ => ?_)
  obtain ⟨found, pending⟩ := r
  cases found with
  | some dma =>
    rw [← hsplit pending] at hh₁
    exact keeps_bind ((holds_markComplete hh₁).mono fun _ _ hh₂ => keeps_pure ⟨hh₂, rfl⟩)
  | none =>
    rw [← hsplit pending] at hh₁
    refine keeps_bind ((holds_popPropagateContext hh₁).mono fun h₂ con hh₂ => ?_)
    split_ifs
    · exact keeps_pure ⟨hh₂.skip hskip, rfl⟩
    · exact keeps_pure ⟨hh₂.skip hskip, rfl⟩
    · refine keeps_bind ((holds_startSpanByParentPassOnContext hh₂ (.of_shape .hostDma rfl)
        con).mono fun h₃ dma hdma => keeps_pure ⟨?_, rfl⟩)
      rw [hsplit, entries_concat, add_assoc, ← hsplit]
      exact hdma.1

theorem holds_handelDma (hh : Placing env offers h (ev :: room) st.held)
    (hev : ev.getType ≠ .kHostMsiXT) :
    Keeps (accounts env offers) freshRely (fun h' r => Placing env offers h' room r.2.held ∧
      r.2.pendingHostCallSpan = st.pendingHostCallSpan) (handelDma env queues st ev) h := by
  have hsplit := held_msix st
  have hh' := hsplit st.pendingHostMsixSpan ▸ hh
  unfold handelDma
  cases hslot : st.pendingHostMsixSpan with
  | none => exact holds_handelDmaSpans hh
  | some msix =>
    rw [hslot] at hh'
    refine keeps_bind ((holds_addToSpan hh').mono fun h₁ r hr => ?_)
    obtain ⟨added, msix'⟩ := r
    obtain ⟨hh₁, hadd⟩ := hr
    dsimp only
    split_ifs with hadded
    · obtain rfl : added = true := hadded
      have hpending : msix'.span.isPending = false := HostMsixSpan.complete_of_ne hev hadd
      refine keeps_bind ((holds_markSpanAsDone_gone hh₁ (by simp [hpending])).mono
        fun h₂ _ hh₂ => keeps_pure ⟨?_, rfl⟩)
      rw [hsplit none]
      simpa [slotEntry] using hh₂
    · obtain rfl : added = false := by simpa using hadded
      have hheld : Placing env offers h₁ (ev :: room)
          { st with pendingHostMsixSpan := some msix' }.held := by
        rw [hsplit (some msix')]
        exact hh₁
      exact holds_handelDmaSpans hheld

theorem holds_handelMsix (hh : Placing env offers h (ev :: room) st.held) :
    Keeps (accounts env offers) freshRely (fun h' r => Placing env offers h' room r.2.held ∧
      r.2.pendingHostCallSpan = st.pendingHostCallSpan) (handelMsix env queues st ev) h := by
  have hsplit := held_msix st
  have hh' := hsplit st.pendingHostMsixSpan ▸ hh
  unfold handelMsix
  refine keeps_bind ((holds_popPropagateContext hh').mono fun h₁ con hh₁ => ?_)
  split_ifs
  · rw [← hsplit st.pendingHostMsixSpan] at hh₁
    exact keeps_pure ⟨hh₁.skip (List.sublist_cons_self ev room), rfl⟩
  · refine keeps_bind ((holds_startSpanByParentPassOnContext hh₁.drop (.of_shape .hostMsix rfl)
      con).mono fun h₂ msix hmsix => keeps_pure ⟨?_, rfl⟩)
    rw [hsplit (some msix)]
    exact hmsix.1

theorem holds_handelInt (hh : Placing env offers h (ev :: room) st.held) :
    Keeps (accounts env offers) freshRely (fun h' r => Placing env offers h' room r.2.held ∧
      r.2.pendingHostCallSpan = st.pendingHostCallSpan) (handelInt env st ev) h := by
  have hsplit := held_int st
  have hh' := hsplit st.pendingHostIntSpan ▸ hh
  unfold handelInt
  cases hslot : st.pendingHostIntSpan with
  | none =>
    refine keeps_bind ((holds_throwIfEmpty hh'.drop).mono fun h₁ call hh₁ => ?_)
    refine keeps_bind ((holds_startSpanByParent hh₁.1 (.of_shape .hostInt rfl) _).mono
      fun h₂ int hint => keeps_pure ⟨?_, rfl⟩)
    rw [hsplit (some int)]
    exact hint.1
  | some int =>
    rw [hslot] at hh'
    refine keeps_bind ((holds_addToSpan hh').mono fun h₁ r hr => ?_)
    obtain ⟨added, int'⟩ := r
    obtain ⟨hh₁, -⟩ := hr
    dsimp only
    split_ifs with hnot hpending
    · obtain rfl : added = false := by simpa using hnot
      refine keeps_pure ⟨Placing.skip ?_ (List.sublist_cons_self ev room), rfl⟩
      rw [hsplit (some int')]
      exact hh₁
    · obtain rfl : added = true := by simpa using hnot
      refine keeps_pure ⟨?_, rfl⟩
      rw [hsplit (some int')]
      exact hh₁
    · obtain rfl : added = true := by simpa using hnot
      have hcomplete : isComplete int' = true := by simpa using hpending
      refine keeps_bind ((holds_markSpanAsDone_gone hh₁ hcomplete).mono
        fun h₂ _ hh₂ => keeps_pure ⟨?_, rfl⟩)
      rw [hsplit none]
      simpa [slotEntry] using hh₂

/-- The events that a spanner may still use: before the first call that one comes twice. -/
def toCome (st : HostSpanner) (evs : List Event) : List Event :=
  if st.pendingHostCallSpan.isSome then evs else offered evs

theorem holds_consume (hh : Placing env offers h (st.toCome (ev :: room)) st.held) :
    Keeps (accounts env offers) freshRely
      (fun h' r => Placing env offers h' (r.2.toCome room) r.2.held)
      (consume env queues rounds st ev) h := by
  have hcall : ev.getType = .kHostCallT → Keeps (accounts env offers) freshRely
      (fun h' r => Placing env offers h' (r.2.toCome room) r.2.held)
      (handelCall env queues rounds st ev) h := by
    intro htype
    unfold toCome offered at hh
    rw [if_pos htype] at hh
    refine (holds_handelCall hh).mono fun h' r hr => ?_
    unfold toCome
    rw [if_pos hr.2]
    exact hr.1
  have hother : ev.getType ≠ .kHostCallT → Placing env offers h (ev :: st.toCome room) st.held := by
    intro htype
    have hsame : st.toCome (ev :: room) = ev :: st.toCome room := by
      unfold toCome
      split_ifs
      · rfl
      · rw [offered, if_neg htype]
    exact hsame ▸ hh
  have hkept : ∀ {x : Spanning (Bool × HostSpanner)}, Keeps (accounts env offers) freshRely
      (fun h' r => Placing env offers h' (st.toCome room) r.2.held ∧
        r.2.pendingHostCallSpan = st.pendingHostCallSpan) x h →
      Keeps (accounts env offers) freshRely
        (fun h' r => Placing env offers h' (r.2.toCome room) r.2.held) x h := by
    intro x hx
    refine hx.mono fun h' r hr => ?_
    have hsame : r.2.toCome room = st.toCome room := by
      unfold toCome
      rw [hr.2]
    exact hsame ▸ hr.1
  unfold consume
  cases htype : ev.getType with
  | kHostCallT => exact hcall htype
  | kHostMmioWT | kHostMmioRT | kHostMmioImRespPoWT | kHostMmioCWT | kHostMmioCRT =>
    exact hkept (holds_handelMmio (hother (by simp [htype])))
  | kHostPciRWT | kHostConfT => exact hkept (holds_handelPci (hother (by simp [htype])))
  | kHostDmaWT | kHostDmaRT | kHostDmaCT =>
    exact hkept (holds_handelDma (hother (by simp [htype])) (by simp [htype]))
  | kHostMsiXT => exact hkept (holds_handelMsix (hother (by simp [htype])))
  | kHostPostIntT | kHostClearIntT => exact hkept (holds_handelInt (hother (by simp [htype])))
  | _ => exact keeps_pure ((hother (by simp [htype])).skip (List.sublist_cons_self ev _))

theorem holds_consumeAll (evs : List Event) :
    Keeps (accounts env (offered evs)) freshRely (fun _ _ => True)
      (consumeAll env queues rounds evs) [] :=
  holds_events toCome held (fun _ _ _ _ hh => holds_consume hh) (.start (.refl _) rfl)

end HostSpanner

namespace NicSpanner

variable {env : TraceEnvironment} {queues : NicQueues} {st : NicSpanner} {ev : Event} {h : Log}
  {room offers : List Event} {spans : Multiset (Nat × SpanObject)}

/-- The spans in the list. -/
def held (st : NicSpanner) : Multiset (Nat × SpanObject) := entries st.pendingNicDmaSpans

theorem holds_handelMmio (hh : Placing env offers h (ev :: room) st.held) :
    Keeps (accounts env offers) freshRely (fun h' r => Placing env offers h' room r.2.held)
      (handelMmio env queues st ev) h := by
  unfold handelMmio
  refine keeps_bind ((holds_popPropagateContext hh).mono fun h₁ con hh₁ => ?_)
  split_ifs
  · exact keeps_pure (hh₁.skip (List.sublist_cons_self ev room))
  · refine keeps_bind ((holds_startSpanByParentPassOnContext hh₁ (.of_shape .nicMmio rfl)
      con).mono fun h₂ mmio hr => ?_)
    obtain ⟨hh₂, hadd⟩ := hr
    have hpending : mmio.span.isPending = false := NicMmioSpan.complete_of_new hadd
    refine keeps_bind ((holds_markSpanAsDone_gone hh₂ (by simp [hpending])).mono
      fun h₃ _ hh₃ => keeps_pure ?_)
    split_ifs <;> exact hh₃

theorem holds_announceDma {dma : Allocated NicDmaSpan}
    (hh : Placing env offers h room (spans + if isComplete dma then {entry dma} else 0)) :
    Keeps (accounts env offers) freshRely (fun h' _ => Placing env offers h' room spans)
      (announceDma queues dma ev) h := by
  unfold announceDma
  split_ifs at hh ⊢ with hcomplete
  · rw [add_comm] at hh
    exact holds_markSpanAsDone_gone hh hcomplete
  · rw [add_zero] at hh
    exact holds_whenever hh fun _ => holds_pushPropagateContext hh

theorem holds_handelDma (hh : Placing env offers h (ev :: room) st.held) :
    Keeps (accounts env offers) freshRely (fun h' r => Placing env offers h' room r.2.held)
      (handelDma env queues st ev) h := by
  have hh' : Placing env offers h (ev :: room) (entries st.pendingNicDmaSpans + 0) := by
    rw [add_zero]
    exact hh
  unfold handelDma
  refine keeps_bind ((holds_iterateAddErase hh').mono fun h₁ r hh₁ => ?_)
  obtain ⟨found, pending⟩ := r
  cases found with
  | some dma =>
    rw [add_zero] at hh₁
    exact keeps_bind ((holds_announceDma hh₁).mono fun _ _ hh₂ => keeps_pure hh₂)
  | none =>
    rw [add_zero] at hh₁
    dsimp only
    split_ifs
    · exact keeps_pure (hh₁.skip (List.sublist_cons_self ev room))
    · refine keeps_bind ((holds_throwIfEmpty hh₁).mono fun h₂ parent hh₂ => ?_)
      refine keeps_bind ((holds_startSpanByParent hh₂.1 (.of_shape .nicDma rfl) parent).mono
        fun h₃ dma hdma => keeps_pure ?_)
      unfold held
      rw [entries_concat]
      exact hdma.1

theorem holds_handelTxrx (hh : Placing env offers h (ev :: room) st.held) :
    Keeps (accounts env offers) freshRely (fun h' r => Placing env offers h' room r.2.held)
      (handelTxrx env queues st ev) h := by
  unfold handelTxrx
  split_ifs
  · unfold handelTx
    refine keeps_bind ((holds_throwIfEmpty hh).mono fun h₁ parent hh₁ => ?_)
    refine keeps_bind ((holds_startSpanByParent hh₁.1 (.of_shape .nicEth rfl) parent).mono
      fun h₂ eth heth => ?_)
    obtain ⟨hh₂, hadd⟩ := heth
    have hpending : eth.span.isPending = false := NicEthSpan.complete_of_new hadd
    refine keeps_bind ((holds_pushPropagateContext hh₂).mono fun h₃ _ hh₃ => ?_)
    exact keeps_bind ((holds_markSpanAsDone_gone hh₃ (by simp [hpending])).mono
      fun _ _ hh₄ => keeps_pure hh₄)
  · unfold handelRx
    refine keeps_bind ((holds_popPropagateContext hh).mono fun h₁ con hh₁ => ?_)
    refine keeps_bind ((holds_whenever hh₁ fun _ => holds_throw).mono fun h₂ _ hh₂ => ?_)
    refine keeps_bind ((holds_startSpanByParentPassOnContext hh₂ (.of_shape .nicEth rfl)
      con).mono fun h₃ eth heth => ?_)
    obtain ⟨hh₃, hadd⟩ := heth
    have hpending : eth.span.isPending = false := NicEthSpan.complete_of_new hadd
    refine keeps_bind ((holds_pushPropagateContext hh₃).mono fun h₄ _ hh₄ => ?_)
    exact keeps_bind ((holds_markSpanAsDone_gone hh₄ (by simp [hpending])).mono
      fun _ _ hh₅ => keeps_pure hh₅)
  · exact keeps_pure (hh.skip (List.sublist_cons_self ev room))

theorem holds_handelMsix (hh : Placing env offers h (ev :: room) st.held) :
    Keeps (accounts env offers) freshRely (fun h' r => Placing env offers h' room r.2.held)
      (handelMsix env queues st ev) h := by
  unfold handelMsix
  refine keeps_bind ((holds_throwIfEmpty hh).mono fun h₁ parent hh₁ => ?_)
  refine keeps_bind ((holds_startSpanByParent hh₁.1 (.of_shape .nicMsix rfl) parent).mono
    fun h₂ msix hmsix => ?_)
  obtain ⟨hh₂, hadd⟩ := hmsix
  have hpending : msix.span.isPending = false := NicMsixSpan.complete_of_new hadd
  refine keeps_bind ((holds_markSpanAsDone_gone hh₂ (by simp [hpending])).mono
    fun h₃ _ hh₃ => ?_)
  exact keeps_bind ((holds_pushPropagateContext hh₃).mono fun _ _ hh₄ => keeps_pure hh₄)

theorem holds_consume (hh : Placing env offers h (ev :: room) st.held) :
    Keeps (accounts env offers) freshRely (fun h' r => Placing env offers h' room r.2.held)
      (consume env queues st ev) h := by
  unfold consume
  cases ev.getType with
  | kNicMmioWT | kNicMmioRT => exact holds_handelMmio hh
  | kNicDmaIT | kNicDmaExT | kNicDmaCWT | kNicDmaCRT => exact holds_handelDma hh
  | kNicTxT | kNicRxT => exact holds_handelTxrx hh
  | kNicMsixT => exact holds_handelMsix hh
  | _ => exact keeps_pure (hh.skip (List.sublist_cons_self ev room))

theorem holds_consumeAll (evs : List Event) :
    Keeps (accounts env evs) freshRely (fun _ _ => True) (consumeAll env queues evs) [] :=
  holds_events (fun _ evs => evs) held (fun _ _ _ _ hh => holds_consume hh) (.start (.refl _) rfl)

end NicSpanner

namespace NetworkSpanner

variable {env : TraceEnvironment} {queues : NetworkQueues} {filter : NodeDeviceFilter}
  {st : NetworkSpanner} {ev : Event} {net : NetworkEvent} {h : Log} {room offers : List Event}
  {spans : Multiset (Nat × SpanObject)}

/-- The spans in the list. -/
def held (st : NetworkSpanner) : Multiset (Nat × SpanObject) := entries st.currentActiveDeviceSpans

theorem holds_connectToAdapter (hh : Placing env offers h room spans)
    (s : Allocated NetDeviceSpan) :
    Keeps (accounts env offers) freshRely (fun h' _ => Placing env offers h' room spans)
      (connectToAdapter queues s) h := by
  unfold connectToAdapter
  split_ifs
  · refine keeps_bind ((holds_whenever hh fun _ => holds_throw).mono fun h₁ _ hh₁ => ?_)
    refine keeps_bind ((holds_throwIfEmpty hh₁).mono fun h₂ toHost hh₂ => ?_)
    exact holds_pushPropagateContext hh₂.1
  · exact keeps_pure hh

theorem holds_contextToConnectWith (hh : Placing env offers h room spans) :
    Keeps (accounts env offers) freshRely (fun h' _ => Placing env offers h' room spans)
      (contextToConnectWith queues st net) h := by
  unfold contextToConnectWith
  split_ifs
  · refine keeps_bind ((holds_whenever hh fun _ => holds_throw).mono fun h₁ _ hh₁ => ?_)
    refine keeps_bind ((holds_throwIfEmpty hh₁).mono fun h₂ fromHost hh₂ => ?_)
    refine keeps_bind ((holds_popPropagateContext hh₂.1).mono fun h₃ context hh₃ => ?_)
    exact keeps_bind ((holds_whenever hh₃ fun _ => holds_throw).mono fun _ _ hh₄ =>
      keeps_pure hh₄)
  · refine keeps_bind ((holds_throwIfEmpty hh).mono fun h₁ last hh₁ => ?_)
    exact keeps_perform trivial fun _ _ => hh₁.1.other rfl rfl

theorem holds_startDeviceSpan (hh : Placing env offers h (ev :: room) st.held) :
    Keeps (accounts env offers) freshRely (fun h' r => Placing env offers h' room r.2.held)
      (startDeviceSpan env queues filter st ev net) h := by
  have hskip := List.sublist_cons_self ev room
  have hconcat : ∀ {h : Log} {s : Allocated NetDeviceSpan},
      Placing env offers h room ({entry s} + st.held) → Placing env offers h room
        (held { st with currentActiveDeviceSpans := st.currentActiveDeviceSpans ++ [s] }) := by
    intro h s hh
    unfold held
    rw [entries_concat]
    exact hh
  unfold startDeviceSpan
  split_ifs
  · exact keeps_pure (hh.skip hskip)
  · exact keeps_bind ((holds_startSpan hh (.of_shape .netDevice rfl)).mono
      fun _ _ hs => keeps_pure (hconcat hs.1))
  · exact keeps_pure (hh.skip hskip)
  · refine keeps_bind ((holds_contextToConnectWith hh).mono fun h₁ context hh₁ => ?_)
    exact keeps_bind ((holds_startSpanByParentPassOnContext hh₁ (.of_shape .netDevice rfl)
      context).mono fun _ _ hs => keeps_pure (hconcat hs.1))

theorem holds_finishDeviceSpan {s : Allocated NetDeviceSpan}
    (hh : Placing env offers h room (st.held + if isComplete s then {entry s} else 0)) :
    Keeps (accounts env offers) freshRely (fun h' r => Placing env offers h' room r.2.held)
      (finishDeviceSpan queues st s) h := by
  unfold finishDeviceSpan
  refine keeps_bind (keeps_whenever (fun _ => holds_throw) fun hdone => ?_)
  have hcomplete : isComplete s = true := by simpa using hdone
  rw [if_pos hcomplete, add_comm] at hh
  refine keeps_bind ((holds_connectToAdapter hh s).mono fun h₁ _ hh₁ => ?_)
  exact keeps_bind ((holds_markSpanAsDone_gone hh₁ hcomplete).mono fun _ _ hh₂ =>
    keeps_pure hh₂)

theorem holds_handelNetworkEvent (hh : Placing env offers h (ev :: room) st.held) :
    Keeps (accounts env offers) freshRely (fun h' r => Placing env offers h' room r.2.held)
      (handelNetworkEvent env queues filter st ev) h := by
  have hskip := List.sublist_cons_self ev room
  have hh' : Placing env offers h (ev :: room) (entries st.currentActiveDeviceSpans + 0) := by
    rw [add_zero]
    exact hh
  unfold handelNetworkEvent
  cases ev.network with
  | none => exact keeps_pure (hh.skip hskip)
  | some net =>
    dsimp only
    split_ifs
    · exact keeps_pure (hh.skip hskip)
    · refine keeps_bind ((holds_iterateAddErase hh').mono fun h₁ r hh₁ => ?_)
      obtain ⟨found, active⟩ := r
      rw [add_zero] at hh₁
      cases found with
      | none => exact holds_startDeviceSpan hh₁
      | some s => exact holds_finishDeviceSpan hh₁

theorem holds_consume (hh : Placing env offers h (ev :: room) st.held) :
    Keeps (accounts env offers) freshRely (fun h' r => Placing env offers h' room r.2.held)
      (consume env queues filter st ev) h := by
  unfold consume
  cases ev.getType with
  | kNetworkEnqueueT | kNetworkDequeueT | kNetworkDropT => exact holds_handelNetworkEvent hh
  | _ => exact keeps_pure (hh.skip (List.sublist_cons_self ev room))

theorem holds_consumeAll (evs : List Event) :
    Keeps (accounts env evs) freshRely (fun _ _ => True)
      (consumeAll env queues filter evs) [] :=
  holds_events (fun _ evs => evs) held (fun _ _ _ _ hh => holds_consume hh) (.start (.refl _) rfl)

end NetworkSpanner

/-- The events of a spanner as they are offered to spans. -/
def Setup.offered : Setup → List Event
  | .host _ evs => HostSpanner.offered evs
  | .nic _ evs => evs
  | .network _ _ evs => evs

theorem keeps_accounts (env : TraceEnvironment) (rounds : Nat) (setup : Setup) :
    Keeps (accounts env setup.offered) freshRely (fun _ _ => True)
      (setup.program env rounds) [] := by
  cases setup with
  | host queues evs =>
    exact keeps_bind ((HostSpanner.holds_consumeAll evs).mono fun _ _ _ => keeps_pure trivial)
  | nic queues evs =>
    exact keeps_bind ((NicSpanner.holds_consumeAll evs).mono fun _ _ _ => keeps_pure trivial)
  | network queues filter evs =>
    exact keeps_bind ((NetworkSpanner.holds_consumeAll evs).mono fun _ _ _ => keeps_pure trivial)

/-- The operations use the events in their order, each once at most, and what was handed over are
transactions: the events that were put into the span, or into the one that it is a copy of. -/
structure Accounted (env : TraceEnvironment) (offered : List Event) (h : Log) : Prop where
  used : h.used.Sublist offered
  created : ∀ p ∈ h.placed, p.1 ∈ h.created
  handedOver : ∀ m ∈ h.marked, m.2.source m.1 ∈ h.created ∧
    m.2.toEventSpan.events = h.eventsOf (m.2.source m.1) ∧ m.2.Word env m.2.toEventSpan.events

/-- A history that follows the guarantee accounts for the events. -/
theorem accounted_of_followed {env : TraceEnvironment} {offered : List Event} {h : Log}
    (hh : Log.Followed (accounts env offered) h) (hnodup : h.created.Nodup) :
    Accounted env offered h := by
  induction h using List.reverseRecOn with
  | nil =>
    exact ⟨List.nil_sublist _, fun p hp => (by cases hp), fun m hm => (by cases hm)⟩
  | append_singleton h e ih =>
    obtain ⟨c, r⟩ := e
    have hc : accounts env offered h c := hh h ⟨c, r⟩ [] rfl
    have hcreated := Log.created_append h [⟨c, r⟩]
    rw [hcreated] at hnodup
    have hbefore := ih (fun h₁ e' h₂ heq => hh h₁ e' (h₂ ++ [⟨c, r⟩]) (by simp [heq]))
      (List.nodup_append.mp hnodup).1
    have hgrown : ∀ id ∈ Log.created h, id ∈ Log.created (h ++ [⟨c, r⟩]) := by
      intro id hid
      rw [hcreated]
      exact List.mem_append_left _ hid
    have hold : Log.placedBy ⟨c, r⟩ = none → ∀ m ∈ Log.marked h,
        m.2.source m.1 ∈ Log.created (h ++ [⟨c, r⟩]) ∧
          m.2.toEventSpan.events = Log.eventsOf (h ++ [⟨c, r⟩]) (m.2.source m.1) ∧
          m.2.Word env m.2.toEventSpan.events := by
      intro hplaced m hm
      obtain ⟨hknown, hevents, hword⟩ := hbefore.handedOver m hm
      exact ⟨hgrown _ hknown, hevents.trans (Log.eventsOf_unplaced hplaced _).symm, hword⟩
    have hunplaced : Log.placedBy ⟨c, r⟩ = none → Log.marked [⟨c, r⟩] = [] →
        Accounted env offered (h ++ [⟨c, r⟩]) := by
      intro hplaced hmark
      refine ⟨?_, ?_, ?_⟩
      · unfold Log.used
        rw [Log.placed_unplaced hplaced]
        exact hbefore.used
      · rw [Log.placed_unplaced hplaced]
        exact fun p hp => hgrown _ (hbefore.created p hp)
      · rw [Log.marked_append, hmark, List.append_nil]
        exact hold hplaced
    -- the event goes to a span whose events were not handed over
    have hadded : ∀ {id : Nat} {ev : Event}, Log.placedBy ⟨c, r⟩ = some (id, ev) →
        Log.marked [⟨c, r⟩] = [] → (Log.used h ++ [ev]).Sublist offered →
        id ∈ Log.created (h ++ [⟨c, r⟩]) → id ∉ Log.sources h →
        Accounted env offered (h ++ [⟨c, r⟩]) := by
      intro id ev hplaced hmark hused hid hsource
      refine ⟨?_, ?_, ?_⟩
      · rw [Log.used_concat hplaced]
        exact hused
      · rw [Log.placed_concat hplaced]
        exact List.forall_mem_append.mpr ⟨fun p hp => hgrown _ (hbefore.created p hp),
          List.forall_mem_singleton.mpr hid⟩
      · rw [Log.marked_append, hmark, List.append_nil]
        intro m hm
        obtain ⟨hknown, hevents, hword⟩ := hbefore.handedOver m hm
        have hne : id ≠ m.2.source m.1 :=
          fun heq => hsource (heq ▸ List.mem_map.mpr ⟨m, hm, rfl⟩)
        rw [Log.eventsOf_placed hplaced, if_neg hne, List.append_nil]
        exact ⟨hgrown _ hknown, hevents, hword⟩
    have hstarted : ∀ {id : Nat} {ev : Event}, Log.placedBy ⟨c, r⟩ = some (id, ev) →
        Log.marked [⟨c, r⟩] = [] → (Log.used h ++ [ev]).Sublist offered →
        c.created r = some id → Accounted env offered (h ++ [⟨c, r⟩]) := by
      intro id ev hplaced hmark hused hnew
      rw [Log.created_singleton, hnew, Option.toList_some] at hnodup
      refine hadded hplaced hmark hused ?_ fun hsource => ?_
      · rw [hcreated, Log.created_singleton, hnew]
        simp
      · obtain ⟨m, hm, heq⟩ := List.mem_map.mp hsource
        have hknown := (hbefore.handedOver m hm).1
        rw [heq] at hknown
        exact (List.nodup_append.mp hnodup).2.2 id hknown id (by simp) rfl
    cases c with
    | startSpan | startSpanByParent | startSpanByParentPassOnContext =>
      exact hstarted rfl rfl hc rfl
    | addEvent span ev => exact hadded rfl rfl hc.1 (hgrown _ hc.2.1) hc.2.2
    | markSpanAsDone span content =>
      obtain ⟨hsource, hevents, hword⟩ := hc
      have hplaced : Log.placedBy ⟨.markSpanAsDone span content, r⟩ = none := rfl
      refine ⟨?_, ?_, ?_⟩
      · unfold Log.used
        rw [Log.placed_unplaced hplaced]
        exact hbefore.used
      · rw [Log.placed_unplaced hplaced]
        exact fun p hp => hgrown _ (hbefore.created p hp)
      · rw [Log.marked_append]
        refine List.forall_mem_append.mpr ⟨hold hplaced, List.forall_mem_singleton.mpr ?_⟩
        exact ⟨hgrown _ hsource, hevents.trans (Log.eventsOf_unplaced hplaced _).symm, hword⟩
    | _ => exact hunplaced rfl rfl

theorem SystemState.accounted {ι : Type} [DecidableEq ι] {env : TraceEnvironment} {rounds : Nat}
    {setup : ι → Setup} {allowed : SystemState ι → Move ι Command → Prop} {w : World}
    {s : SystemState ι}
    (hs : Transition.Reachable SystemState.step allowed (SystemState.start env rounds setup w) s)
    (i : ι) : Accounted env (setup i).offered (s.history i) := by
  obtain ⟨hfollowed, hsep⟩ := SystemState.followed (fun i => accounts env (setup i).offered)
    (fun i => keeps_accounts env rounds (setup i)) hs
  exact accounted_of_followed (hfollowed i) (hsep.nodup i)

end Columbo
