import Columbo.SpannerRuns
import Mathlib.Data.Multiset.Filter
import Mathlib.Tactic.Abel

/-!
# Spans handed to the tracer

A spanner owns the spans in its slots: they are its own, and were not handed to the
tracer. Handing a span over takes it out of its slot.
-/
namespace Columbo

open Coroutine Spanner

namespace Log

/-- The spans passed to `MarkSpanAsDone`, as they were then. -/
def marked (h : Log) : List (Nat × SpanObject) :=
  h.filterMap fun
    | ⟨.markSpanAsDone span content, _⟩ => some (span, content)
    | _ => none

@[simp] theorem marked_append (h h' : Log) : marked (h ++ h') = h.marked ++ marked h' :=
  List.filterMap_append

end Log

/-- A span is handed over complete, by the spanner that created it, and only once. -/
def finishes (h : Log) : Command → Prop
  | .markSpanAsDone span content => content.toEventSpan.isPending = false ∧
      span ∈ h.created ∧ span ∉ h.marked.map Prod.fst
  | _ => True

/-- The spans are different ones of this spanner that were not handed over. -/
structure Owned (h : Log) (ids : Multiset Nat) : Prop where
  nodup : ids.Nodup
  created : ∀ id ∈ ids, id ∈ h.created
  unmarked : ∀ id ∈ ids, id ∉ h.marked.map Prod.fst
  markedCreated : ∀ id ∈ h.marked.map Prod.fst, id ∈ h.created

namespace Owned

variable {h : Log} {ids ids' : Multiset Nat} {id : Nat} {c : Command} {r : c.Response}

theorem mono (hown : Owned h ids) (hle : ids' ≤ ids) : Owned h ids' where
  nodup := Multiset.nodup_of_le hle hown.nodup
  created := fun id hid => hown.created id (Multiset.mem_of_le hle hid)
  unmarked := fun id hid => hown.unmarked id (Multiset.mem_of_le hle hid)
  markedCreated := hown.markedCreated

theorem drop (hown : Owned h (ids' + ids)) : Owned h ids :=
  hown.mono (Multiset.le_add_left _ _)

/-- Nothing was handed over at the start. -/
theorem empty (hids : ids = 0) : Owned [] ids where
  nodup := hids ▸ Multiset.nodup_zero
  created := fun id hid => by simp [hids] at hid
  unmarked := fun id hid => by simp [hids] at hid
  markedCreated := fun id hid => nomatch hid

/-- An operation that hands nothing over, and may create a span. -/
theorem other (hown : Owned h ids) (hmark : Log.marked [⟨c, r⟩] = []) :
    Owned (h ++ [⟨c, r⟩]) ids where
  nodup := hown.nodup
  created := fun id hid => by
    rw [Log.created_append]
    exact List.mem_append_left _ (hown.created id hid)
  unmarked := fun id hid => by
    rw [Log.marked_append, hmark, List.append_nil]
    exact hown.unmarked id hid
  markedCreated := fun id hid => by
    rw [Log.marked_append, hmark, List.append_nil] at hid
    rw [Log.created_append]
    exact List.mem_append_left _ (hown.markedCreated id hid)

theorem create (hown : Owned h ids) (hmark : Log.marked [⟨c, r⟩] = [])
    (hcreated : c.created r = some id) (hfresh : freshRely h c r) :
    Owned (h ++ [⟨c, r⟩]) ({id} + ids) := by
  have hnew : id ∉ h.created := hfresh.2 id hcreated
  have hkept := hown.other (c := c) (r := r) hmark
  refine ⟨?_, fun s hs => ?_, fun s hs => ?_, hkept.markedCreated⟩
  · rw [Multiset.singleton_add]
    exact Multiset.nodup_cons.mpr ⟨fun hmem => hnew (hown.created id hmem), hown.nodup⟩
  · rcases Multiset.mem_add.mp hs with hid | hold
    · obtain rfl := Multiset.mem_singleton.mp hid
      simp [hcreated]
    · exact hkept.created s hold
  · rcases Multiset.mem_add.mp hs with hid | hold
    · obtain rfl := Multiset.mem_singleton.mp hid
      rw [Log.marked_append, hmark, List.append_nil]
      exact fun hmem => hnew (hown.markedCreated s hmem)
    · exact hkept.unmarked s hold

theorem mark (hown : Owned h ({id} + ids)) (content : SpanObject) :
    Owned (h ++ [⟨.markSpanAsDone id content, ()⟩]) ids := by
  have hmarked : Log.marked (h ++ [⟨.markSpanAsDone id content, ()⟩]) =
      h.marked ++ [(id, content)] := by
    simp [Log.marked]
  have hcreated : Log.created (h ++ [⟨.markSpanAsDone id content, ()⟩]) = h.created :=
    (Log.created_append h _).trans (List.append_nil _)
  have hnodup := hown.nodup
  rw [Multiset.singleton_add, Multiset.nodup_cons] at hnodup
  refine ⟨hnodup.2, fun s hs => ?_, fun s hs => ?_, fun s hs => ?_⟩
  · rw [hcreated]
    exact hown.created s (Multiset.mem_add.mpr (.inr hs))
  · have hold := hown.unmarked s (Multiset.mem_add.mpr (.inr hs))
    have hne : s ≠ id := fun heq => hnodup.1 (heq ▸ hs)
    simpa [hmarked, hne] using hold
  · rw [hcreated]
    rw [hmarked, List.map_append] at hs
    rcases List.mem_append.mp hs with hold | hnew
    · exact hown.markedCreated s hold
    · obtain rfl : s = id := by simpa using hnew
      exact hown.created s (by simp)

theorem finishes (hown : Owned h ({id} + ids)) {content : SpanObject}
    (hcomplete : content.toEventSpan.isPending = false) :
    finishes h (.markSpanAsDone id content) :=
  ⟨hcomplete, hown.created id (by simp), hown.unmarked id (by simp)⟩

end Owned

namespace Spanner

variable {St α : Type} [SpanClass St]

/-- The span in a slot. -/
def slotId : Option (Allocated St) → Multiset Nat
  | none => 0
  | some s => {s.id}

/-- The spans in a list that are not complete. -/
def pendingIds (spans : List (Allocated St)) : Multiset Nat :=
  ↑((spans.filter fun s => !isComplete s).map Allocated.id)

theorem pendingIds_append (spans spans' : List (Allocated St)) :
    pendingIds (spans ++ spans') = pendingIds spans + pendingIds spans' := by
  simp [pendingIds]

theorem pendingIds_cons (s : Allocated St) (spans : List (Allocated St)) :
    pendingIds (s :: spans) = (if isComplete s then 0 else {s.id}) + pendingIds spans := by
  unfold pendingIds
  by_cases hcomplete : SpanClass.isComplete s.span
  · simp [hcomplete]
  · simp [hcomplete]

theorem pendingIds_concat (s : Allocated St) (spans : List (Allocated St)) :
    pendingIds (spans ++ [s]) = (if isComplete s then 0 else {s.id}) + pendingIds spans := by
  rw [pendingIds_append, pendingIds_cons, add_comm]
  simp [pendingIds]

variable {env : TraceEnvironment} {h : Log} {ids : Multiset Nat} {ev : Event}

/-- The search takes a span that it completes out of the list. -/
theorem pendingIds_findAddErase (hsteady : SpanClass.Steady St) (env : TraceEnvironment)
    (pending : List (Allocated St)) (ev : Event) :
    pendingIds pending = pendingIds (findAddErase env pending ev).2 +
      match (findAddErase env pending ev).1 with
      | none => 0
      | some p => if isComplete p then {p.id} else 0 := by
  have hoffer : ∀ l : List (Allocated St),
      (∀ p ∈ l, (SpanClass.addToSpan env p.span ev).1 = false) →
      pendingIds (l.map (offer env ev)) = pendingIds l := by
    intro l hl
    induction l with
    | nil => rfl
    | cons p l ih =>
      have hsame : isComplete (offer env ev p) = isComplete p :=
        hsteady.keeps env p.span ev (hl p List.mem_cons_self)
      have hrest := ih fun q hq => hl q (List.mem_cons_of_mem p hq)
      rw [List.map_cons, pendingIds_cons, pendingIds_cons, hsame, hrest]
      rfl
  obtain ⟨hnone, hall⟩ | ⟨front, p, back, rfl, hfront, htakes, hsome⟩ :=
    findAddErase_cases env pending ev
  · rw [hnone]
    simp [hoffer pending hall]
  · have hpending : isComplete p = false := by
      cases hcomplete : isComplete p with
      | false => rfl
      | true => cases htakes.symm.trans (hsteady.refuses env p.span ev hcomplete)
    have hid : (offer env ev p).id = p.id := rfl
    have hp : pendingIds (front ++ p :: back) =
        pendingIds front + ({p.id} + pendingIds back) := by
      rw [pendingIds_append, pendingIds_cons, hpending]
      rfl
    rw [hp, hsome, pendingIds_append, hoffer front hfront]
    dsimp only
    by_cases hcomplete : isComplete (offer env ev p) = true
    · rw [if_pos hcomplete, if_pos hcomplete, hid]
      abel
    · rw [if_neg hcomplete, if_neg hcomplete, pendingIds_cons, if_neg hcomplete, hid]
      abel

theorem owned_throw {post : Log → α → Prop} : Keeps finishes freshRely post throw h :=
  keeps_throw trivial

theorem owned_throwIfEmpty (hown : Owned h ids) {o : Option α} :
    Keeps finishes freshRely (fun h' a => Owned h' ids ∧ o = some a) (throwIfEmpty o) h :=
  keeps_throwIfEmpty (fun _ => trivial) fun _ ha => ⟨hown, ha⟩

theorem owned_whenever (hown : Owned h ids) {c : Bool} {x : Spanning Unit}
    (hx : c = true → Keeps finishes freshRely (fun h' _ => Owned h' ids) x h) :
    Keeps finishes freshRely (fun h' _ => Owned h' ids) (whenever c x) h :=
  keeps_whenever hx fun _ => hown

theorem owned_popPropagateContext (hown : Owned h ids) {source : Channel}
    {expected : Option Expectation} :
    Keeps finishes freshRely (fun h' _ => Owned h' ids) (popPropagateContext source expected) h :=
  keeps_perform trivial fun _ _ => hown.other rfl

theorem owned_pushPropagateContext (hown : Owned h ids) {exp : Expectation} {dest : Channel}
    {parent : Nat} :
    Keeps finishes freshRely (fun h' _ => Owned h' ids) (pushPropagateContext exp dest parent) h :=
  keeps_pushPropagateContext trivial fun _ _ =>
    ⟨trivial, (hown.other rfl).other rfl⟩

theorem owned_markSpanAsDone {s : Allocated St} (hown : Owned h ({s.id} + ids))
    (hcomplete : isComplete s = true) :
    Keeps finishes freshRely (fun h' _ => Owned h' ids) (markSpanAsDone s) h := by
  refine keeps_perform (hown.finishes ?_) fun _ _ => hown.mark _
  simpa [SpanClass.isComplete, EventSpan.isComplete] using hcomplete

/-- What is complete is handed over, and the rest stays. -/
theorem owned_markComplete {s : Allocated St}
    (hown : Owned h (ids + if isComplete s then {s.id} else 0)) :
    Keeps finishes freshRely (fun h' _ => Owned h' ids)
      (whenever (isComplete s) (markSpanAsDone s)) h := by
  by_cases hcomplete : isComplete s = true
  · rw [if_pos hcomplete, add_comm] at hown
    exact keeps_whenever (fun _ => owned_markSpanAsDone hown hcomplete) fun hfalse => by
      cases hcomplete.symm.trans hfalse
  · rw [if_neg hcomplete, add_zero] at hown
    exact keeps_whenever (fun htrue => absurd htrue hcomplete) fun _ => hown

/-- An event is offered to an owned span. -/
theorem owned_addToSpan {s : Allocated St} (hown : Owned h (slotId (some s) + ids)) :
    Keeps finishes freshRely (fun h' r => Owned h' (slotId (some r.2) + ids) ∧
      SpanClass.addToSpan env s.span ev = (r.1, r.2.span)) (addToSpan env s ev) h :=
  keeps_addToSpan (fun _ hadd => ⟨trivial, hown.other rfl, hadd⟩) fun _ hadd => ⟨hown, hadd⟩

theorem owned_iterateAddErase (hsteady : SpanClass.Steady St) {pending : List (Allocated St)}
    (hown : Owned h (pendingIds pending + ids)) :
    Keeps finishes freshRely (fun h' r => Owned h' (pendingIds r.2 + ids +
      match r.1 with
      | none => 0
      | some p => if isComplete p then {p.id} else 0)) (iterateAddErase env pending ev) h := by
  have hids := pendingIds_findAddErase hsteady env pending ev
  refine keeps_iterateAddErase (fun rest hfind => ?_) fun p rest hfind => ⟨trivial, ?_⟩
  · rw [hfind] at hids
    rw [hids] at hown
    simpa using hown
  · rw [hfind] at hids
    rw [hids] at hown
    have hkept := hown.other (c := .addEvent p.id ev) (r := ()) rfl
    rwa [add_right_comm] at hkept

/-- A new span took its first event, and is owned. -/
theorem owned_startSpan (hown : Owned h ids) (new : St) :
    Keeps finishes freshRely (fun h' s => Owned h' ({s.id} + ids) ∧
      SpanClass.addToSpan env new ev = (true, s.span)) (startSpan env new ev) h := by
  cases hadd : SpanClass.addToSpan env new ev with
  | mk accepted span =>
    refine keeps_startSpan hadd trivial fun id hid => ⟨hown.create rfl rfl hid, ?_⟩
    obtain rfl : accepted = true := World.accepted_of_possible hid.1
    rfl

theorem owned_startSpanByParent (hown : Owned h ids) (new : St) (parent : Nat) :
    Keeps finishes freshRely (fun h' s => Owned h' ({s.id} + ids) ∧
      SpanClass.addToSpan env new ev = (true, s.span)) (startSpanByParent env new parent ev) h := by
  cases hadd : SpanClass.addToSpan env new ev with
  | mk accepted span =>
    refine keeps_startSpanByParent hadd trivial fun ref _ => ⟨trivial, fun id hid => ?_⟩
    obtain rfl : accepted = true := World.accepted_of_possible hid.1
    exact ⟨(hown.other rfl).create rfl rfl hid, rfl⟩

theorem owned_startSpanByParentPassOnContext (hown : Owned h ids) (new : St) (context : Context) :
    Keeps finishes freshRely (fun h' s => Owned h' ({s.id} + ids) ∧
      SpanClass.addToSpan env new ev = (true, s.span))
      (startSpanByParentPassOnContext env new context ev) h := by
  cases hadd : SpanClass.addToSpan env new ev with
  | mk accepted span =>
    refine keeps_startSpanByParentPassOnContext hadd trivial fun id hid =>
      ⟨hown.create rfl rfl hid, ?_⟩
    obtain rfl : accepted = true := World.accepted_of_possible hid.1
    rfl

end Spanner

namespace HostSpanner

variable {env : TraceEnvironment} {queues : HostQueues} {rounds : Nat} {st : HostSpanner}
  {ev : Event} {h : Log}

/-- The spans in the slots apart from the one of the call. -/
def besides (st : HostSpanner) : Multiset Nat :=
  slotId st.pendingHostIntSpan + slotId st.pendingHostMsixSpan +
    pendingIds st.pendingHostDmaSpans + pendingIds st.pendingHostMmioSpans +
    slotId st.pendingPciSpan

/-- The spans in the slots. -/
def live (st : HostSpanner) : Multiset Nat := slotId st.pendingHostCallSpan + st.besides

theorem live_mmios (st : HostSpanner) (pending : List (Allocated HostMmioSpan)) :
    live { st with pendingHostMmioSpans := pending } =
      pendingIds pending + (slotId st.pendingHostCallSpan + slotId st.pendingHostIntSpan +
        slotId st.pendingHostMsixSpan + pendingIds st.pendingHostDmaSpans +
        slotId st.pendingPciSpan) := by
  unfold live besides
  abel

theorem live_pci (st : HostSpanner) (slot : Option (Allocated HostPciSpan)) :
    live { st with pendingPciSpan := slot } =
      slotId slot + (slotId st.pendingHostCallSpan + slotId st.pendingHostIntSpan +
        slotId st.pendingHostMsixSpan + pendingIds st.pendingHostDmaSpans +
        pendingIds st.pendingHostMmioSpans) := by
  unfold live besides
  abel

theorem live_dmas (st : HostSpanner) (pending : List (Allocated HostDmaSpan)) :
    live { st with pendingHostDmaSpans := pending } =
      pendingIds pending + (slotId st.pendingHostCallSpan + slotId st.pendingHostIntSpan +
        slotId st.pendingHostMsixSpan + pendingIds st.pendingHostMmioSpans +
        slotId st.pendingPciSpan) := by
  unfold live besides
  abel

theorem live_msix (st : HostSpanner) (slot : Option (Allocated HostMsixSpan)) :
    live { st with pendingHostMsixSpan := slot } =
      slotId slot + (slotId st.pendingHostCallSpan + slotId st.pendingHostIntSpan +
        pendingIds st.pendingHostDmaSpans + pendingIds st.pendingHostMmioSpans +
        slotId st.pendingPciSpan) := by
  unfold live besides
  abel

theorem live_int (st : HostSpanner) (slot : Option (Allocated HostIntSpan)) :
    live { st with pendingHostIntSpan := slot } =
      slotId slot + (slotId st.pendingHostCallSpan + slotId st.pendingHostMsixSpan +
        pendingIds st.pendingHostDmaSpans + pendingIds st.pendingHostMmioSpans +
        slotId st.pendingPciSpan) := by
  unfold live besides
  abel

theorem owned_copyForReceives {call : Allocated HostCallSpan} {ids : Multiset Nat}
    (hcomplete : isComplete call = true) (hown : Owned h ids) :
    Keeps finishes freshRely (fun h' _ => Owned h' ids) (copyForReceives queues call rounds) h := by
  induction rounds generalizing h with
  | zero => exact owned_throw
  | succ rounds ih =>
    unfold copyForReceives
    refine keeps_bind ⟨trivial, fun next _ => ?_⟩
    have hown₁ : Owned (h ++ [⟨.tryPopOnTrue _ _, next⟩]) ids := hown.other rfl
    cases next with
    | none => exact keeps_pure hown₁
    | some context =>
      refine keeps_bind ⟨trivial, fun copy hcopy => ?_⟩
      have hown₂ := hown₁.create rfl rfl hcopy
      refine keeps_bind ⟨trivial, fun _ _ => ?_⟩
      let copied : Allocated HostCallSpan := ⟨copy, { call.span with original := some call.id }⟩
      have hcopied : isComplete copied = true := hcomplete
      refine keeps_bind ((owned_markSpanAsDone (hown₂.other rfl) hcopied).mono fun h₄ _ hown₄ => ?_)
      exact ih hown₄

/-- A complete call span is handed over, after its copies. -/
theorem owned_finishPendingSpan {ids : Multiset Nat}
    (hown : Owned h (slotId st.pendingHostCallSpan + ids))
    (hcomplete : ∀ call, st.pendingHostCallSpan = some call → isComplete call = true) :
    Keeps finishes freshRely (fun h' _ => Owned h' ids) (finishPendingSpan queues rounds st) h := by
  unfold finishPendingSpan
  cases hcall : st.pendingHostCallSpan with
  | none =>
    rw [hcall] at hown
    exact keeps_pure (hown.mono (by simp [slotId]))
  | some call =>
    rw [hcall] at hown
    have hdone := hcomplete call hcall
    dsimp only
    split_ifs
    · exact owned_markSpanAsDone hown hdone
    · refine keeps_bind ⟨trivial, fun _ _ => keeps_bind ⟨trivial, fun _ _ => ?_⟩⟩
      refine keeps_bind ((owned_copyForReceives hdone ((hown.other rfl).other rfl)).mono
        fun h₃ _ hown₃ => ?_)
      exact owned_markSpanAsDone hown₃ hdone

theorem owned_createTraceStartingSpan (hown : Owned h st.live)
    (hcomplete : ∀ call, st.pendingHostCallSpan = some call → isComplete call = true) :
    Keeps finishes freshRely (fun h' st' => Owned h' st'.live)
      (createTraceStartingSpan env queues rounds st ev false) h := by
  unfold createTraceStartingSpan
  refine keeps_bind ((owned_finishPendingSpan hown hcomplete).mono fun h₁ _ hown₁ => ?_)
  refine keeps_bind ((owned_startSpan hown₁ _).mono fun h₂ call hown₂ => ?_)
  exact keeps_pure hown₂.1

theorem owned_handelCall (hown : Owned h st.live) :
    Keeps finishes freshRely (fun h' r => Owned h' r.2.live)
      (handelCall env queues rounds st ev) h := by
  have hadd : ∀ (st : HostSpanner) (h : Log), Owned h st.live →
      Keeps finishes freshRely (fun h' r => Owned h' r.2.live)
        (addCall env queues rounds st ev) h := by
    intro st h hown
    unfold addCall
    refine keeps_bind ((owned_throwIfEmpty hown).mono fun h₁ call hcall => ?_)
    obtain ⟨hown₁, hcall⟩ := hcall
    unfold live at hown₁
    rw [hcall] at hown₁
    refine keeps_bind ((owned_addToSpan hown₁).mono fun h₂ r hr => ?_)
    obtain ⟨added, call'⟩ := r
    have hlive : ∀ st' : HostSpanner, st'.pendingHostCallSpan = some call' →
        st'.besides = st.besides → Owned h₂ st'.live := by
      intro st' hslot hbesides
      unfold live
      rw [hslot, hbesides]
      exact hr.1
    dsimp only
    split_ifs with hadded hdone
    · exact keeps_pure (hlive _ rfl rfl)
    · have hcreate : Keeps finishes freshRely _
          (createTraceStartingSpan env queues rounds _ ev false) _ :=
        owned_createTraceStartingSpan (hlive { st with pendingHostCallSpan := some call' } rfl rfl)
        fun c hc => Option.some.inj hc ▸ hdone
      exact keeps_bind (hcreate.mono fun _ _ hown₃ => keeps_pure hown₃)
    · exact keeps_pure (hlive _ rfl rfl)
  unfold handelCall ensureCallSpan
  split_ifs with hnone
  · have hempty : st.pendingHostCallSpan = none := Option.isNone_iff_eq_none.mp hnone
    refine keeps_bind ((owned_createTraceStartingSpan hown fun c hc => ?_).mono
      fun h₁ st₁ hown₁ => hadd st₁ h₁ hown₁)
    cases hempty.symm.trans hc
  · exact hadd st h hown

theorem owned_handelMmio (hown : Owned h st.live) :
    Keeps finishes freshRely (fun h' r => Owned h' r.2.live) (handelMmio env queues st ev) h := by
  have hsplit := live_mmios st
  unfold handelMmio
  refine keeps_bind ((owned_iterateAddErase SpanClass.steady_hostMmio
    (hsplit st.pendingHostMmioSpans ▸ hown)).mono fun h₁ r hown₁ => ?_)
  obtain ⟨found, pending⟩ := r
  rw [← hsplit pending] at hown₁
  cases found with
  | some mmio =>
    exact keeps_bind ((owned_markComplete hown₁).mono fun _ _ hown₂ => keeps_pure hown₂)
  | none =>
    rw [add_zero] at hown₁
    refine keeps_bind ((owned_throwIfEmpty hown₁).mono fun h₂ call hown₂ => ?_)
    refine keeps_bind ((owned_startSpanByParent hown₂.1 _ _).mono fun h₃ mmio hmmio => ?_)
    obtain ⟨hown₃, hadd⟩ := hmmio
    refine keeps_bind ((owned_whenever hown₃ fun _ => owned_pushPropagateContext hown₃).mono
      fun h₄ _ hown₄ => ?_)
    have hlive : live { st with pendingHostMmioSpans := pending ++ [mmio] } =
        (if isComplete mmio then 0 else {mmio.id}) +
          live { st with pendingHostMmioSpans := pending } := by
      rw [hsplit, hsplit, pendingIds_concat, add_assoc]
    refine keeps_bind (keeps_whenever (fun hmark => ?_) fun _ => keeps_pure ?_)
    · have hcomplete : isComplete mmio = true := (Bool.and_eq_true_iff.mp hmark).2
      refine (owned_markSpanAsDone hown₄ hcomplete).mono fun h₅ _ hown₅ => keeps_pure ?_
      rw [hlive, if_pos hcomplete, zero_add]
      exact hown₅
    · rw [hlive]
      split_ifs
      · rw [zero_add]
        exact hown₄.drop
      · exact hown₄

/-- The pending span is handed over before the next one starts. -/
theorem owned_handelPci (hown : Owned h st.live) :
    Keeps finishes freshRely (fun h' r => Owned h' r.2.live) (handelPci env st ev) h := by
  have hsplit := live_pci st
  have hown' := hsplit st.pendingPciSpan ▸ hown
  have hstart : Keeps finishes freshRely (fun h' r => Owned h' r.2.live)
      (handelPciStart env st ev) h := by
    have hfinish : Keeps finishes freshRely
        (fun h' _ => Owned h' (live { st with pendingPciSpan := none })) (finishPciSpan st) h := by
      unfold finishPciSpan
      rw [hsplit none]
      cases hslot : st.pendingPciSpan with
      | none =>
        rw [hslot] at hown'
        exact keeps_pure hown'
      | some pci =>
        rw [hslot] at hown'
        dsimp only
        split_ifs
        · exact owned_throw
        · have hsame : slotId (none : Option (Allocated HostPciSpan)) = 0 := rfl
          rw [hsame, zero_add]
          exact owned_markSpanAsDone
            (s := { pci with span := pci.span.markAsDone }) hown' rfl
    unfold handelPciStart
    refine keeps_bind (hfinish.mono fun h₁ _ hown₁ => ?_)
    refine keeps_bind ((owned_throwIfEmpty hown₁).mono fun h₂ call hown₂ => ?_)
    refine keeps_bind ((owned_startSpanByParent hown₂.1 _ _).mono fun h₃ pci hpci => ?_)
    refine keeps_pure ?_
    have hown₃ := hpci.1
    rw [hsplit none] at hown₃
    rw [hsplit (some pci)]
    simpa [slotId] using hown₃
  unfold handelPci
  cases hslot : st.pendingPciSpan with
  | none => exact hstart
  | some pci =>
    dsimp only
    split_ifs with hconf
    · rw [hslot] at hown'
      refine keeps_bind ((owned_addToSpan hown').mono fun h₁ r hr => ?_)
      obtain ⟨added, pci'⟩ := r
      obtain ⟨hown₁, hadd⟩ := hr
      refine keeps_bind (keeps_whenever (fun _ => owned_throw) fun hadded => ?_)
      have hcomplete : isComplete pci' = true := by
        obtain rfl : added = true := by simpa using hadded
        have hpending : pci'.span.isPending = false := HostPciSpan.complete_of_conf hconf hadd
        simp [hpending]
      refine keeps_bind ((owned_markSpanAsDone hown₁ hcomplete).mono fun h₂ _ hown₂ => ?_)
      refine keeps_pure ?_
      rw [hsplit none]
      simpa [slotId] using hown₂
    · exact hstart

theorem owned_handelDma (hown : Owned h st.live) (hev : ev.getType ≠ .kHostMsiXT) :
    Keeps finishes freshRely (fun h' r => Owned h' r.2.live) (handelDma env queues st ev) h := by
  have hspans : ∀ (st : HostSpanner) (h : Log), Owned h st.live →
      Keeps finishes freshRely (fun h' r => Owned h' r.2.live)
        (handelDmaSpans env queues st ev) h := by
    intro st h hown
    have hsplit := live_dmas st
    unfold handelDmaSpans
    refine keeps_bind ((owned_iterateAddErase SpanClass.steady_hostDma
      (hsplit st.pendingHostDmaSpans ▸ hown)).mono fun h₁ r hown₁ => ?_)
    obtain ⟨found, pending⟩ := r
    rw [← hsplit pending] at hown₁
    cases found with
    | some dma =>
      exact keeps_bind ((owned_markComplete hown₁).mono fun _ _ hown₂ => keeps_pure hown₂)
    | none =>
      rw [add_zero] at hown₁
      refine keeps_bind ((owned_popPropagateContext hown₁).mono fun h₂ con hown₂ => ?_)
      split_ifs
      · exact keeps_pure hown₂
      · exact keeps_pure hown₂
      · refine keeps_bind ((owned_startSpanByParentPassOnContext hown₂ _ con).mono
          fun h₃ dma hdma => keeps_pure ?_)
        rw [hsplit, pendingIds_concat, add_assoc, ← hsplit]
        split_ifs
        · rw [zero_add]
          exact hdma.1.drop
        · exact hdma.1
  have hsplit := live_msix st
  have hown' := hsplit st.pendingHostMsixSpan ▸ hown
  unfold handelDma
  cases hslot : st.pendingHostMsixSpan with
  | none => exact hspans st h hown
  | some msix =>
    rw [hslot] at hown'
    refine keeps_bind ((owned_addToSpan hown').mono fun h₁ r hr => ?_)
    obtain ⟨added, msix'⟩ := r
    obtain ⟨hown₁, hadd⟩ := hr
    dsimp only
    split_ifs with hadded
    · have hcomplete : isComplete msix' = true := by
        obtain rfl : added = true := hadded
        have hpending : msix'.span.isPending = false := HostMsixSpan.complete_of_ne hev hadd
        simp [hpending]
      refine keeps_bind ((owned_markSpanAsDone hown₁ hcomplete).mono fun h₂ _ hown₂ => ?_)
      refine keeps_pure ?_
      rw [hsplit none]
      simpa [slotId] using hown₂
    · refine hspans _ h₁ ?_
      rw [hsplit (some msix')]
      exact hown₁

theorem owned_handelMsix (hown : Owned h st.live) :
    Keeps finishes freshRely (fun h' r => Owned h' r.2.live) (handelMsix env queues st ev) h := by
  have hsplit := live_msix st
  have hown' := hsplit st.pendingHostMsixSpan ▸ hown
  unfold handelMsix
  refine keeps_bind ((owned_popPropagateContext hown').mono fun h₁ con hown₁ => ?_)
  split_ifs
  · rw [← hsplit st.pendingHostMsixSpan] at hown₁
    exact keeps_pure hown₁
  · refine keeps_bind ((owned_startSpanByParentPassOnContext hown₁.drop _ con).mono
      fun h₂ msix hmsix => keeps_pure ?_)
    rw [hsplit (some msix)]
    exact hmsix.1

theorem owned_handelInt (hown : Owned h st.live) :
    Keeps finishes freshRely (fun h' r => Owned h' r.2.live) (handelInt env st ev) h := by
  have hsplit := live_int st
  have hown' := hsplit st.pendingHostIntSpan ▸ hown
  unfold handelInt
  cases hslot : st.pendingHostIntSpan with
  | none =>
    refine keeps_bind ((owned_throwIfEmpty hown'.drop).mono fun h₁ call hown₁ => ?_)
    refine keeps_bind ((owned_startSpanByParent hown₁.1 _ _).mono fun h₂ int hint => keeps_pure ?_)
    rw [hsplit (some int)]
    exact hint.1
  | some int =>
    rw [hslot] at hown'
    refine keeps_bind ((owned_addToSpan hown').mono fun h₁ r hr => ?_)
    obtain ⟨added, int'⟩ := r
    have hlive : Owned h₁ (live { st with pendingHostIntSpan := some int' }) := by
      rw [hsplit (some int')]
      exact hr.1
    dsimp only
    split_ifs with hnot hpending
    · exact keeps_pure hlive
    · exact keeps_pure hlive
    · have hcomplete : isComplete int' = true := by simpa using hpending
      refine keeps_bind ((owned_markSpanAsDone hr.1 hcomplete).mono fun h₂ _ hown₂ => ?_)
      refine keeps_pure ?_
      rw [hsplit none]
      simpa [slotId] using hown₂

theorem owned_consume (hown : Owned h st.live) :
    Keeps finishes freshRely (fun h' r => Owned h' r.2.live) (consume env queues rounds st ev) h := by
  unfold consume
  cases htype : ev.getType with
  | kHostCallT => exact owned_handelCall hown
  | kHostMmioWT | kHostMmioRT | kHostMmioImRespPoWT | kHostMmioCWT | kHostMmioCRT =>
    exact owned_handelMmio hown
  | kHostPciRWT | kHostConfT => exact owned_handelPci hown
  | kHostDmaWT | kHostDmaRT | kHostDmaCT => exact owned_handelDma hown (by simp [htype])
  | kHostMsiXT => exact owned_handelMsix hown
  | kHostPostIntT | kHostClearIntT => exact owned_handelInt hown
  | _ => exact keeps_pure hown

/-- Nothing is in the slots of a fresh spanner. -/
theorem owned_consumeAll (evs : List Event) :
    Keeps finishes freshRely (fun h' st => Owned h' st.live)
      (consumeAll env queues rounds evs) [] := by
  refine Keeps.foldlM (fun _ h st => Owned h (live st)) ?_ (.empty rfl)
  intro past ev rest h st _ hown
  exact keeps_bind ((owned_consume hown).mono fun _ _ hr => keeps_pure hr)

end HostSpanner

namespace NicSpanner

variable {env : TraceEnvironment} {queues : NicQueues} {st : NicSpanner} {ev : Event} {h : Log}

/-- The spans in the list. -/
def live (st : NicSpanner) : Multiset Nat := pendingIds st.pendingNicDmaSpans

theorem owned_handelMmio (hown : Owned h st.live) :
    Keeps finishes freshRely (fun h' r => Owned h' r.2.live) (handelMmio env queues st ev) h := by
  unfold handelMmio
  refine keeps_bind ((owned_popPropagateContext hown).mono fun h₁ con hown₁ => ?_)
  split_ifs
  · exact keeps_pure hown₁
  · refine keeps_bind ((owned_startSpanByParentPassOnContext hown₁ _ con).mono fun h₂ mmio hr => ?_)
    obtain ⟨hown₂, hadd⟩ := hr
    have hpending : mmio.span.isPending = false := NicMmioSpan.complete_of_new hadd
    refine keeps_bind ((owned_markSpanAsDone hown₂ (by simp [hpending])).mono
      fun h₃ _ hown₃ => keeps_pure ?_)
    split_ifs <;> exact hown₃

theorem owned_handelDma (hown : Owned h st.live) :
    Keeps finishes freshRely (fun h' r => Owned h' r.2.live) (handelDma env queues st ev) h := by
  have hown' : Owned h (pendingIds st.pendingNicDmaSpans + 0) := by
    rw [add_zero]
    exact hown
  unfold handelDma
  refine keeps_bind ((owned_iterateAddErase SpanClass.steady_nicDma hown').mono fun h₁ r hown₁ => ?_)
  obtain ⟨found, pending⟩ := r
  rw [add_zero] at hown₁
  cases found with
  | some dma =>
    unfold announceDma
    dsimp only at hown₁ ⊢
    split_ifs at hown₁ ⊢ with hcomplete
    · rw [add_comm] at hown₁
      exact keeps_bind ((owned_markSpanAsDone hown₁ hcomplete).mono fun _ _ hown₂ =>
        keeps_pure hown₂)
    · rw [add_zero] at hown₁
      exact keeps_bind ((owned_whenever hown₁ fun _ => owned_pushPropagateContext hown₁).mono
        fun _ _ hown₂ => keeps_pure hown₂)
  | none =>
    rw [add_zero] at hown₁
    dsimp only
    split_ifs
    · exact keeps_pure hown₁
    · refine keeps_bind ((owned_throwIfEmpty hown₁).mono fun h₂ parent hown₂ => ?_)
      refine keeps_bind ((owned_startSpanByParent hown₂.1 _ parent).mono fun h₃ dma hdma =>
        keeps_pure ?_)
      unfold live
      rw [pendingIds_concat]
      split_ifs
      · rw [zero_add]
        exact hdma.1.drop
      · exact hdma.1

theorem owned_handelTxrx (hown : Owned h st.live) :
    Keeps finishes freshRely (fun h' r => Owned h' r.2.live) (handelTxrx env queues st ev) h := by
  unfold handelTxrx
  split_ifs
  · unfold handelTx
    refine keeps_bind ((owned_throwIfEmpty hown).mono fun h₁ parent hown₁ => ?_)
    refine keeps_bind ((owned_startSpanByParent hown₁.1 _ parent).mono fun h₂ eth heth => ?_)
    obtain ⟨hown₂, hadd⟩ := heth
    have hpending : eth.span.isPending = false := NicEthSpan.complete_of_new hadd
    refine keeps_bind ((owned_pushPropagateContext hown₂).mono fun h₃ _ hown₃ => ?_)
    exact keeps_bind ((owned_markSpanAsDone hown₃ (by simp [hpending])).mono fun _ _ hown₄ =>
      keeps_pure hown₄)
  · unfold handelRx
    refine keeps_bind ((owned_popPropagateContext hown).mono fun h₁ con hown₁ => ?_)
    refine keeps_bind ((owned_whenever hown₁ fun _ => owned_throw).mono fun h₂ _ hown₂ => ?_)
    refine keeps_bind ((owned_startSpanByParentPassOnContext hown₂ _ con).mono fun h₃ eth heth => ?_)
    obtain ⟨hown₃, hadd⟩ := heth
    have hpending : eth.span.isPending = false := NicEthSpan.complete_of_new hadd
    refine keeps_bind ((owned_pushPropagateContext hown₃).mono fun h₄ _ hown₄ => ?_)
    exact keeps_bind ((owned_markSpanAsDone hown₄ (by simp [hpending])).mono fun _ _ hown₅ =>
      keeps_pure hown₅)
  · exact keeps_pure hown

theorem owned_handelMsix (hown : Owned h st.live) :
    Keeps finishes freshRely (fun h' r => Owned h' r.2.live) (handelMsix env queues st ev) h := by
  unfold handelMsix
  refine keeps_bind ((owned_throwIfEmpty hown).mono fun h₁ parent hown₁ => ?_)
  refine keeps_bind ((owned_startSpanByParent hown₁.1 _ parent).mono fun h₂ msix hmsix => ?_)
  obtain ⟨hown₂, hadd⟩ := hmsix
  have hpending : msix.span.isPending = false := NicMsixSpan.complete_of_new hadd
  refine keeps_bind ((owned_markSpanAsDone hown₂ (by simp [hpending])).mono fun h₃ _ hown₃ => ?_)
  exact keeps_bind ((owned_pushPropagateContext hown₃).mono fun _ _ hown₄ => keeps_pure hown₄)

theorem owned_consume (hown : Owned h st.live) :
    Keeps finishes freshRely (fun h' r => Owned h' r.2.live) (consume env queues st ev) h := by
  unfold consume
  cases ev.getType with
  | kNicMmioWT | kNicMmioRT => exact owned_handelMmio hown
  | kNicDmaIT | kNicDmaExT | kNicDmaCWT | kNicDmaCRT => exact owned_handelDma hown
  | kNicTxT | kNicRxT => exact owned_handelTxrx hown
  | kNicMsixT => exact owned_handelMsix hown
  | _ => exact keeps_pure hown

theorem owned_consumeAll (evs : List Event) :
    Keeps finishes freshRely (fun h' st => Owned h' st.live) (consumeAll env queues evs) [] := by
  refine Keeps.foldlM (fun _ h st => Owned h (live st)) ?_ (.empty rfl)
  intro past ev rest h st _ hown
  exact keeps_bind ((owned_consume hown).mono fun _ _ hr => keeps_pure hr)

end NicSpanner

namespace NetworkSpanner

variable {env : TraceEnvironment} {queues : NetworkQueues} {filter : NodeDeviceFilter}
  {st : NetworkSpanner} {ev : Event} {net : NetworkEvent} {h : Log}

/-- The spans in the list. -/
def live (st : NetworkSpanner) : Multiset Nat := pendingIds st.currentActiveDeviceSpans

theorem owned_connectToAdapter {ids : Multiset Nat} (hown : Owned h ids)
    (s : Allocated NetDeviceSpan) :
    Keeps finishes freshRely (fun h' _ => Owned h' ids) (connectToAdapter queues s) h := by
  unfold connectToAdapter
  split_ifs
  · refine keeps_bind ((owned_whenever hown fun _ => owned_throw).mono fun h₁ _ hown₁ => ?_)
    refine keeps_bind ((owned_throwIfEmpty hown₁).mono fun h₂ toHost hown₂ => ?_)
    exact owned_pushPropagateContext hown₂.1
  · exact keeps_pure hown

theorem owned_contextToConnectWith {ids : Multiset Nat} (hown : Owned h ids) :
    Keeps finishes freshRely (fun h' _ => Owned h' ids) (contextToConnectWith queues st net) h := by
  unfold contextToConnectWith
  split_ifs
  · refine keeps_bind ((owned_whenever hown fun _ => owned_throw).mono fun h₁ _ hown₁ => ?_)
    refine keeps_bind ((owned_throwIfEmpty hown₁).mono fun h₂ fromHost hown₂ => ?_)
    refine keeps_bind ((owned_popPropagateContext hown₂.1).mono fun h₃ context hown₃ => ?_)
    exact keeps_bind ((owned_whenever hown₃ fun _ => owned_throw).mono fun _ _ hown₄ =>
      keeps_pure hown₄)
  · refine keeps_bind ((owned_throwIfEmpty hown).mono fun h₁ last hown₁ => ?_)
    exact keeps_perform trivial fun _ _ => hown₁.1.other rfl

theorem owned_startDeviceSpan (hown : Owned h st.live) :
    Keeps finishes freshRely (fun h' r => Owned h' r.2.live)
      (startDeviceSpan env queues filter st ev net) h := by
  have hconcat : ∀ {h : Log} {s : Allocated NetDeviceSpan}, Owned h ({s.id} + st.live) →
      Owned h (live { st with
        currentActiveDeviceSpans := st.currentActiveDeviceSpans ++ [s] }) := by
    intro h s hown
    unfold live
    rw [pendingIds_concat]
    split_ifs
    · rw [zero_add]
      exact hown.drop
    · exact hown
  unfold startDeviceSpan
  split_ifs
  · exact keeps_pure hown
  · exact keeps_bind ((owned_startSpan hown _).mono fun _ _ hs => keeps_pure (hconcat hs.1))
  · exact keeps_pure hown
  · refine keeps_bind ((owned_contextToConnectWith hown).mono fun h₁ context hown₁ => ?_)
    exact keeps_bind ((owned_startSpanByParentPassOnContext hown₁ _ context).mono
      fun _ _ hs => keeps_pure (hconcat hs.1))

theorem owned_handelNetworkEvent (hown : Owned h st.live) :
    Keeps finishes freshRely (fun h' r => Owned h' r.2.live)
      (handelNetworkEvent env queues filter st ev) h := by
  have hown' : Owned h (pendingIds st.currentActiveDeviceSpans + 0) := by
    rw [add_zero]
    exact hown
  unfold handelNetworkEvent
  cases ev.network with
  | none => exact keeps_pure hown
  | some net =>
    dsimp only
    split_ifs
    · exact keeps_pure hown
    · refine keeps_bind ((owned_iterateAddErase SpanClass.steady_netDevice hown').mono
        fun h₁ r hown₁ => ?_)
      obtain ⟨found, active⟩ := r
      rw [add_zero] at hown₁
      cases found with
      | none =>
        rw [add_zero] at hown₁
        exact owned_startDeviceSpan hown₁
      | some s =>
        unfold finishDeviceSpan
        dsimp only at hown₁ ⊢
        refine keeps_bind (keeps_whenever (fun _ => owned_throw) fun hdone => ?_)
        have hcomplete : isComplete s = true := by simpa using hdone
        rw [if_pos hcomplete, add_comm] at hown₁
        refine keeps_bind ((owned_connectToAdapter hown₁ s).mono fun h₂ _ hown₂ => ?_)
        exact keeps_bind ((owned_markSpanAsDone hown₂ hcomplete).mono fun _ _ hown₃ =>
          keeps_pure hown₃)

theorem owned_consume (hown : Owned h st.live) :
    Keeps finishes freshRely (fun h' r => Owned h' r.2.live)
      (consume env queues filter st ev) h := by
  unfold consume
  cases ev.getType with
  | kNetworkEnqueueT | kNetworkDequeueT | kNetworkDropT => exact owned_handelNetworkEvent hown
  | _ => exact keeps_pure hown

theorem owned_consumeAll (evs : List Event) :
    Keeps finishes freshRely (fun h' st => Owned h' st.live)
      (consumeAll env queues filter evs) [] := by
  refine Keeps.foldlM (fun _ h st => Owned h (live st)) ?_ (.empty rfl)
  intro past ev rest h st _ hown
  exact keeps_bind ((owned_consume hown).mono fun _ _ hr => keeps_pure hr)

end NetworkSpanner

theorem keeps_finishes (env : TraceEnvironment) (rounds : Nat) (setup : Setup) :
    Keeps finishes freshRely (fun _ _ => True) (setup.program env rounds) [] := by
  cases setup with
  | host queues evs =>
    exact keeps_bind ((HostSpanner.owned_consumeAll evs).mono fun _ _ _ => keeps_pure trivial)
  | nic queues evs =>
    exact keeps_bind ((NicSpanner.owned_consumeAll evs).mono fun _ _ _ => keeps_pure trivial)
  | network queues filter evs =>
    exact keeps_bind ((NetworkSpanner.owned_consumeAll evs).mono fun _ _ _ => keeps_pure trivial)

/-- A history that follows the guarantee hands over complete spans, each once. -/
theorem marked_of_followed {h : Log} (hh : Log.Followed finishes h) :
    (∀ m ∈ Log.marked h, m.2.toEventSpan.isPending = false) ∧ ((Log.marked h).map Prod.fst).Nodup ∧
      ∀ id ∈ (Log.marked h).map Prod.fst, id ∈ Log.created h := by
  induction h using List.reverseRecOn with
  | nil => exact ⟨fun m hm => (nomatch hm), .nil, fun id hid => nomatch hid⟩
  | append_singleton h e ih =>
    have hprefix : Log.Followed finishes h := by
      intro h₁ e' h₂ heq
      exact hh h₁ e' (h₂ ++ [e]) (by simp [heq])
    have he : finishes h e.1 := hh h e [] rfl
    obtain ⟨hcomplete, hnodup, hcreated⟩ := ih hprefix
    obtain ⟨c, r⟩ := e
    have hother : Log.marked [⟨c, r⟩] = [] →
        (∀ m ∈ Log.marked (h ++ [⟨c, r⟩]), m.2.toEventSpan.isPending = false) ∧
          ((Log.marked (h ++ [⟨c, r⟩])).map Prod.fst).Nodup ∧
          ∀ id ∈ (Log.marked (h ++ [⟨c, r⟩])).map Prod.fst, id ∈ Log.created (h ++ [⟨c, r⟩]) := by
      intro hmark
      rw [Log.marked_append, hmark, List.append_nil, Log.created_append]
      exact ⟨hcomplete, hnodup, fun id hid => List.mem_append_left _ (hcreated id hid)⟩
    cases c with
    | markSpanAsDone span content =>
      obtain ⟨hdone, hspan, hnew⟩ := he
      have hmarked : Log.marked (h ++ [⟨.markSpanAsDone span content, r⟩]) =
          Log.marked h ++ [(span, content)] :=
        Log.marked_append h _
      rw [hmarked, Log.created_append, List.map_append]
      refine ⟨?_, ?_, ?_⟩
      · exact List.forall_mem_append.mpr ⟨hcomplete, List.forall_mem_singleton.mpr hdone⟩
      · exact hnodup.append (List.nodup_singleton span) (by simpa using hnew)
      · refine List.forall_mem_append.mpr ⟨fun id hid => ?_, List.forall_mem_singleton.mpr ?_⟩
        · exact List.mem_append_left _ (hcreated id hid)
        · exact List.mem_append_left _ hspan
    | _ => exact hother rfl

/-- Whatever events the spanners handle, and whatever arrives on the channels, the spans
that they hand to the tracer are complete, and none of them is handed over twice. -/
theorem marked_once {ι : Type} [DecidableEq ι] {env : TraceEnvironment} {rounds : Nat}
    {setup : ι → Setup} {allowed : SystemState ι → Move ι Command → Prop} {w : World}
    {s : SystemState ι}
    (hs : Transition.Reachable SystemState.step allowed (SystemState.start env rounds setup w) s) :
    (∀ i, ∀ m ∈ Log.marked (s.history i), m.2.toEventSpan.isPending = false) ∧
      (∀ i, ((Log.marked (s.history i)).map Prod.fst).Nodup) ∧
      ∀ i j, i ≠ j →
        ((Log.marked (s.history i)).map Prod.fst).Disjoint
          ((Log.marked (s.history j)).map Prod.fst) := by
  obtain ⟨hfollowed, hsep⟩ :=
    SystemState.followed (fun _ => finishes) (fun i => keeps_finishes env rounds (setup i)) hs
  refine ⟨fun i => (marked_of_followed (hfollowed i)).1,
    fun i => (marked_of_followed (hfollowed i)).2.1, fun i j hne id hi hj => ?_⟩
  have hcreated := fun i => (marked_of_followed (hfollowed i)).2.2
  exact hsep.disjoint i j hne (hcreated i id hi) (hcreated j id hj)

/-- A NIC handles a register access, with a context of the host. -/
def registerAccess : Unit → Setup := fun _ =>
  .nic ⟨3, 4, 1, 0, 2⟩ [⟨20, 0, bytes "nic", .nicMmioR 0 4 0⟩]

theorem marked_once_registerAccess : ∃ s : SystemState Unit,
    (Log.marked (s.history ())).map Prod.fst = [1] ∧
      (∀ i, ∀ m ∈ Log.marked (s.history i), m.2.toEventSpan.isPending = false) ∧
      (∀ i, ((Log.marked (s.history i)).map Prod.fst).Nodup) ∧
      ∀ i j, i ≠ j → ((Log.marked (s.history i)).map Prod.fst).Disjoint
        ((Log.marked (s.history j)).map Prod.fst) := by
  have hstart : Transition.Reachable SystemState.step (fun _ _ => True)
      (SystemState.start noNames 0 registerAccess (oneContext .kMmio))
      (SystemState.start noNames 0 registerAccess (oneContext .kMmio)) := .refl
  exact ⟨_, rfl, marked_once (reachable_of_run (i := ()) (fun _ => trivial) rfl hstart)⟩

end Columbo
