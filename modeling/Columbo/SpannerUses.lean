import Columbo.FinishedSpans
import Columbo.ReceiveContexts

/-!
# What operations name

The spans, references and contexts that an operation names were given to the spanner by its
earlier operations. A span whose context is changed was not handed over and is touched for
the first time: the root of a trace that gets a parent was not copied before, and a copy that
gets another one is new.
-/
namespace Columbo

open Coroutine Spanner

namespace Log

/-- The contexts that operations returned. -/
def contexts (h : Log) : List Context :=
  h.filterMap fun
    | ⟨.createPassOnContext .., c⟩ => some c
    | ⟨.pop .., c⟩ => some c
    | ⟨.tryPopOnTrue .., c⟩ => c
    | _ => none

/-- The parents that were read. -/
def refs (h : Log) : List ParentRef :=
  h.filterMap fun
    | ⟨.readParent _, ref⟩ => some ref
    | _ => none

/-- The spans that started traces. -/
def roots (h : Log) : List Nat :=
  h.filterMap fun
    | ⟨.startSpan .., id⟩ => some id
    | _ => none

/-- The spans whose contexts were shared or changed. -/
def targets (h : Log) : List Nat := h.filterMap fun e => e.1.target

@[simp] theorem contexts_append (h h' : Log) : contexts (h ++ h') = h.contexts ++ contexts h' :=
  List.filterMap_append

@[simp] theorem refs_append (h h' : Log) : refs (h ++ h') = h.refs ++ refs h' :=
  List.filterMap_append

@[simp] theorem roots_append (h h' : Log) : roots (h ++ h') = h.roots ++ roots h' :=
  List.filterMap_append

@[simp] theorem targets_append (h h' : Log) : targets (h ++ h') = h.targets ++ targets h' :=
  List.filterMap_append

theorem mem_contexts_concat {h h' : Log} {c : Context} (hc : c ∈ contexts h') :
    c ∈ contexts (h ++ h') := by
  rw [contexts_append]
  exact List.mem_append_right _ hc

theorem mem_roots {h : Log} {id : Nat} :
    id ∈ h.roots ↔ ∃ type ev accepted, ⟨.startSpan type ev accepted, id⟩ ∈ h := by
  constructor
  · intro hid
    obtain ⟨⟨c, r⟩, he, hroot⟩ := List.mem_filterMap.mp hid
    cases c with
    | startSpan type ev accepted =>
      obtain rfl := Option.some.inj hroot
      exact ⟨type, ev, accepted, he⟩
    | _ => cases hroot
  · rintro ⟨type, ev, accepted, he⟩
    exact List.mem_filterMap.mpr ⟨_, he, rfl⟩

theorem created_of_mem {h : Log} {c : Command} {r : c.Response} {id : Nat} (he : ⟨c, r⟩ ∈ h)
    (hid : c.created r = some id) : id ∈ h.created :=
  List.mem_filterMap.mpr ⟨_, he, hid⟩

theorem created_of_roots {h : Log} {id : Nat} (hid : id ∈ h.roots) : id ∈ h.created := by
  obtain ⟨type, ev, accepted, he⟩ := mem_roots.mp hid
  exact created_of_mem he rfl

end Log

/-- The span is a copy of a root, and starts after the parent of the context. -/
def CopiedFor (h : Log) (span : Nat) (c : Context) : Prop :=
  ∃ call type ev accepted, ⟨.cloneShared call, span⟩ ∈ h ∧
    ⟨.startSpan type ev accepted, call⟩ ∈ h ∧ c.parent.startTs < ev.getTs

/-- What an operation names is known, and what it changes is untouched. -/
def uses (h : Log) : Command → Prop
  | .readParent span | .createPassOnContext _ span | .cloneShared span => span ∈ h.created
  | .startSpanByParent _ ref _ _ => ref ∈ h.refs
  | .startSpanByParentPassOnContext _ c _ _ | .push _ c => c ∈ h.contexts
  | .startSpanSetParentContext span c => c ∈ h.contexts ∧ span ∉ h.targets ∧
      span ∉ h.marked.map Prod.fst ∧ CopiedFor h span c
  | .addParentLazily span c => c ∈ h.contexts ∧ span ∉ h.targets ∧
      span ∉ h.marked.map Prod.fst ∧ span ∈ h.roots
  | _ => True

/-- What a spanner guarantees of its operations. -/
def safe (h : Log) (c : Command) : Prop := finishes h c ∧ uses h c

/-- Operations that came later, and do not change contexts. -/
structure Onward (h h' : Log) : Prop where
  extends_ : h <+: h'
  targets : h'.targets = h.targets

namespace Onward

variable {h h₁ h₂ : Log} {c : Command} {r : c.Response} {id : Nat}

theorem refl (h : Log) : Onward h h := ⟨List.prefix_rfl, rfl⟩

theorem trans (h₁₂ : Onward h h₁) (h₂₃ : Onward h₁ h₂) : Onward h h₂ :=
  ⟨h₁₂.extends_.trans h₂₃.extends_, h₂₃.targets.trans h₁₂.targets⟩

theorem concat (hon : Onward h h₁) (htarget : c.target = none) :
    Onward h (h₁ ++ [⟨c, r⟩]) := by
  refine ⟨hon.extends_.trans (List.prefix_append _ _), ?_⟩
  rw [Log.targets_append, hon.targets]
  simp [Log.targets, htarget]

theorem created (hon : Onward h h₁) (hid : id ∈ h.created) : id ∈ Log.created h₁ := by
  obtain ⟨rest, rfl⟩ := hon.extends_
  rw [Log.created_append]
  exact List.mem_append_left _ hid

end Onward

namespace Spanner

variable {St α : Type} [SpanClass St] {env : TraceEnvironment} {h h₀ : Log} {ev : Event}

theorem uses_throw {post : Log → α → Prop} : Keeps uses freshRely post throw h :=
  keeps_throw trivial

theorem uses_throwIfEmpty (hon : Onward h₀ h) {o : Option α} :
    Keeps uses freshRely (fun h' a => Onward h₀ h' ∧ o = some a) (throwIfEmpty o) h :=
  keeps_throwIfEmpty (fun _ => trivial) fun _ ha => ⟨hon, ha⟩

theorem uses_whenever (hon : Onward h₀ h) {c : Bool} {x : Spanning Unit}
    (hx : c = true → Keeps uses freshRely (fun h' _ => Onward h₀ h') x h) :
    Keeps uses freshRely (fun h' _ => Onward h₀ h') (whenever c x) h :=
  keeps_whenever hx fun _ => hon

theorem uses_markSpanAsDone (hon : Onward h₀ h) (s : Allocated St) :
    Keeps uses freshRely (fun h' _ => Onward h₀ h') (markSpanAsDone s) h :=
  keeps_perform trivial fun _ _ => hon.concat rfl

theorem uses_addToSpan (hon : Onward h₀ h) (s : Allocated St) :
    Keeps uses freshRely (fun h' r => Onward h₀ h' ∧ r.2.id = s.id ∧
      SpanClass.addToSpan env s.span ev = (r.1, r.2.span)) (addToSpan env s ev) h :=
  keeps_addToSpan (fun _ hadd => ⟨trivial, hon.concat rfl, rfl, hadd⟩)
    fun _ hadd => ⟨hon, rfl, hadd⟩

/-- What holds of the spans of the list holds of the one that takes the event as well. -/
theorem uses_iterateAddErase (hon : Onward h₀ h) (pending : List (Allocated St)) :
    Keeps uses freshRely (fun h' r => Onward h₀ h' ∧ ∀ P : Nat → Prop,
      (∀ p ∈ pending, P p.id) → (∀ p ∈ r.1, P p.id) ∧ ∀ p ∈ r.2, P p.id)
      (iterateAddErase env pending ev) h := by
  have hoffer : ∀ {P : Nat → Prop} {l : List (Allocated St)}, (∀ p ∈ l, P p.id) →
      ∀ p ∈ l.map (offer env ev), P p.id := by
    intro P l hl p hp
    obtain ⟨q, hq, rfl⟩ := List.mem_map.mp hp
    exact hl q hq
  refine keeps_iterateAddErase (fun rest hfind => ⟨hon, fun P hpending => ?_⟩)
    fun p rest hfind => ⟨trivial, hon.concat rfl, fun P hpending => ?_⟩
  · obtain ⟨hnone, -⟩ | ⟨front, q, back, -, -, -, hsome⟩ := findAddErase_cases env pending ev
    · obtain ⟨-, rfl⟩ := Prod.mk.inj (hnone.symm.trans hfind)
      exact ⟨fun p hp => (by cases hp), hoffer hpending⟩
    · cases hsome.symm.trans hfind
  · obtain ⟨hnone, -⟩ | ⟨front, q, back, rfl, -, -, hsome⟩ := findAddErase_cases env pending ev
    · cases hnone.symm.trans hfind
    · obtain ⟨hp, rfl⟩ := Prod.mk.inj (hsome.symm.trans hfind)
      obtain rfl := Option.some.inj hp
      have hq : P (offer env ev q).id := hpending q (by simp)
      have hback : ∀ p ∈ back, P p.id := fun p hp => hpending p (by simp [hp])
      have hfront : ∀ p ∈ front, P p.id := fun p hp => hpending p (by simp [hp])
      refine ⟨fun p' hp' => Option.some.inj hp' ▸ hq,
        List.forall_mem_append.mpr ⟨hoffer hfront, ?_⟩⟩
      split_ifs
      · exact hback
      · exact List.forall_mem_cons.mpr ⟨hq, hback⟩

theorem uses_startSpan (hon : Onward h₀ h) (new : St) :
    Keeps uses freshRely (fun h' s => Onward h₀ h' ∧ s.id ∈ Log.created h')
      (startSpan env new ev) h := by
  cases hadd : SpanClass.addToSpan env new ev with
  | mk accepted span =>
    exact keeps_startSpan hadd trivial fun id _ =>
      ⟨hon.concat rfl, Log.created_of_mem (List.mem_append_right _ List.mem_cons_self) rfl⟩

theorem uses_startSpanByParent (hon : Onward h₀ h) (new : St) {parent : Nat}
    (hparent : parent ∈ h.created) :
    Keeps uses freshRely (fun h' s => Onward h₀ h' ∧ s.id ∈ Log.created h')
      (startSpanByParent env new parent ev) h := by
  cases hadd : SpanClass.addToSpan env new ev with
  | mk accepted span =>
    refine keeps_startSpanByParent hadd hparent fun ref _ => ⟨?_, fun id _ => ?_⟩
    · change ref ∈ Log.refs (h ++ [⟨.readParent parent, ref⟩])
      rw [Log.refs_append]
      exact List.mem_append_right _ List.mem_cons_self
    · exact ⟨(hon.concat rfl).concat rfl,
        Log.created_of_mem (List.mem_append_right _ List.mem_cons_self) rfl⟩

theorem uses_startSpanByParentPassOnContext (hon : Onward h₀ h) (new : St) {context : Context}
    (hcontext : context ∈ h.contexts) :
    Keeps uses freshRely (fun h' s => Onward h₀ h' ∧ s.id ∈ Log.created h')
      (startSpanByParentPassOnContext env new context ev) h := by
  cases hadd : SpanClass.addToSpan env new ev with
  | mk accepted span =>
    exact keeps_startSpanByParentPassOnContext hadd hcontext fun id _ =>
      ⟨hon.concat rfl, Log.created_of_mem (List.mem_append_right _ List.mem_cons_self) rfl⟩

theorem uses_popPropagateContext (hon : Onward h₀ h) {source : Channel}
    {expected : Option Expectation} :
    Keeps uses freshRely (fun h' c => Onward h₀ h' ∧ c ∈ Log.contexts h')
      (popPropagateContext source expected) h := by
  exact keeps_perform trivial fun c _ =>
    ⟨hon.concat rfl, Log.mem_contexts_concat List.mem_cons_self⟩

theorem uses_createPassOnContext (hon : Onward h₀ h) {exp : Expectation} {span : Nat}
    (hspan : span ∈ h.created) :
    Keeps uses freshRely (fun h' c => Onward h₀ h' ∧ c ∈ Log.contexts h')
      (perform (.createPassOnContext exp span)) h := by
  exact keeps_perform hspan fun c _ =>
    ⟨hon.concat rfl, Log.mem_contexts_concat List.mem_cons_self⟩

theorem uses_pushPropagateContext (hon : Onward h₀ h) {exp : Expectation} {dest : Channel}
    {parent : Nat} (hparent : parent ∈ h.created) :
    Keeps uses freshRely (fun h' _ => Onward h₀ h') (pushPropagateContext exp dest parent) h := by
  exact keeps_pushPropagateContext hparent fun c _ =>
    ⟨Log.mem_contexts_concat List.mem_cons_self, (hon.concat rfl).concat rfl⟩

end Spanner

namespace NicSpanner

variable {env : TraceEnvironment} {queues : NicQueues} {st : NicSpanner} {ev : Event} {h h' : Log}

/-- The spans that the spanner holds are its own. -/
structure Knows (h : Log) (st : NicSpanner) : Prop where
  lastCausing : ∀ id ∈ st.lastCausing, id ∈ h.created
  dmas : ∀ p ∈ st.pendingNicDmaSpans, p.id ∈ h.created

theorem Knows.onward (hst : Knows h st) (hon : Onward h h') : Knows h' st :=
  ⟨fun id hid => hon.created (hst.lastCausing id hid), fun p hp => hon.created (hst.dmas p hp)⟩

theorem uses_handelMmio (hst : Knows h st) :
    Keeps uses freshRely (fun h' r => Knows h' r.2) (handelMmio env queues st ev) h := by
  unfold handelMmio
  refine keeps_bind ((uses_popPropagateContext (.refl h)).mono fun h₁ con hcon => ?_)
  split_ifs
  · exact keeps_pure (hst.onward hcon.1)
  refine keeps_bind ((uses_startSpanByParentPassOnContext hcon.1 _ hcon.2).mono
    fun h₂ mmio hmmio => ?_)
  refine keeps_bind ((uses_markSpanAsDone (.refl h₂) mmio).mono fun h₃ _ hon => keeps_pure ?_)
  have hst₃ := hst.onward (hmmio.1.trans hon)
  dsimp only
  split_ifs
  · exact ⟨fun id hid => Option.some.inj hid ▸ hon.created hmmio.2, hst₃.dmas⟩
  · exact hst₃

theorem uses_announceDma (hon : Onward h h') {dma : Allocated NicDmaSpan}
    (hdma : dma.id ∈ h'.created) :
    Keeps uses freshRely (fun h'' _ => Onward h h'') (announceDma queues dma ev) h' := by
  unfold announceDma
  split_ifs
  · exact uses_markSpanAsDone hon dma
  · exact uses_whenever hon fun _ => uses_pushPropagateContext hon hdma

theorem uses_handelDma (hst : Knows h st) :
    Keeps uses freshRely (fun h' r => Knows h' r.2) (handelDma env queues st ev) h := by
  unfold handelDma
  refine keeps_bind ((uses_iterateAddErase (.refl h) _).mono fun h₁ r hr => ?_)
  obtain ⟨found, pending⟩ := r
  obtain ⟨hon, hids⟩ := hr
  obtain ⟨hfound, hpending⟩ := hids (· ∈ h.created) hst.dmas
  have hst₁ : Knows h₁ { st with pendingNicDmaSpans := pending } :=
    ⟨fun id hid => hon.created (hst.lastCausing id hid), fun p hp => hon.created (hpending p hp)⟩
  cases found with
  | some dma =>
    have hdma : dma.id ∈ Log.created h₁ := hon.created (hfound dma rfl)
    exact keeps_bind ((uses_announceDma (.refl h₁) hdma).mono fun _ _ hon' =>
      keeps_pure (hst₁.onward hon'))
  | none =>
    dsimp only
    split_ifs
    · exact keeps_pure hst₁
    refine keeps_bind ((uses_throwIfEmpty (.refl h₁)).mono fun h₂ parent hparent => ?_)
    have hknown : parent ∈ Log.created h₂ := hparent.1.created (hst₁.lastCausing parent hparent.2)
    refine keeps_bind ((uses_startSpanByParent hparent.1 _ hknown).mono fun h₃ dma hdma => ?_)
    have hst₃ := hst₁.onward hdma.1
    refine keeps_pure ⟨hst₃.lastCausing, ?_⟩
    exact List.forall_mem_append.mpr ⟨hst₃.dmas, List.forall_mem_singleton.mpr hdma.2⟩

theorem uses_handelTxrx (hst : Knows h st) :
    Keeps uses freshRely (fun h' r => Knows h' r.2) (handelTxrx env queues st ev) h := by
  unfold handelTxrx handelTx handelRx
  split_ifs
  · refine keeps_bind ((uses_throwIfEmpty (.refl h)).mono fun h₁ parent hparent => ?_)
    have hknown : parent ∈ Log.created h₁ := hparent.1.created (hst.lastCausing parent hparent.2)
    refine keeps_bind ((uses_startSpanByParent hparent.1 _ hknown).mono fun h₂ eth heth => ?_)
    refine keeps_bind ((uses_pushPropagateContext heth.1 heth.2).mono fun h₃ _ hon => ?_)
    exact keeps_bind ((uses_markSpanAsDone hon eth).mono fun _ _ hon' =>
      keeps_pure (hst.onward hon'))
  · refine keeps_bind ((uses_popPropagateContext (.refl h)).mono fun h₁ con hcon => ?_)
    refine keeps_bind ((uses_whenever (.refl h₁) fun _ => uses_throw).mono fun h₂ _ hon₂ => ?_)
    have hcontext : con ∈ Log.contexts h₂ := by
      obtain ⟨rest, rfl⟩ := hon₂.extends_
      rw [Log.contexts_append]
      exact List.mem_append_left _ hcon.2
    refine keeps_bind ((uses_startSpanByParentPassOnContext (hcon.1.trans hon₂) _ hcontext).mono
      fun h₃ eth heth => ?_)
    refine keeps_bind ((uses_pushPropagateContext (.refl h₃) heth.2).mono fun h₄ _ hon₄ => ?_)
    refine keeps_bind ((uses_markSpanAsDone hon₄ eth).mono fun h₅ _ hon₅ => keeps_pure ?_)
    have hst₅ := hst.onward (heth.1.trans hon₅)
    exact ⟨fun id hid => Option.some.inj hid ▸ hon₅.created heth.2, hst₅.dmas⟩
  · exact keeps_pure hst

theorem uses_handelMsix (hst : Knows h st) :
    Keeps uses freshRely (fun h' r => Knows h' r.2) (handelMsix env queues st ev) h := by
  unfold handelMsix
  refine keeps_bind ((uses_throwIfEmpty (.refl h)).mono fun h₁ parent hparent => ?_)
  have hknown : parent ∈ Log.created h₁ := hparent.1.created (hst.lastCausing parent hparent.2)
  refine keeps_bind ((uses_startSpanByParent hparent.1 _ hknown).mono fun h₂ msix hmsix => ?_)
  refine keeps_bind ((uses_markSpanAsDone (.refl h₂) msix).mono fun h₃ _ hon => ?_)
  refine keeps_bind ((uses_pushPropagateContext hon (hon.created hmsix.2)).mono fun h₄ _ hon' => ?_)
  exact keeps_pure (hst.onward (hmsix.1.trans hon'))

theorem uses_consume (hst : Knows h st) :
    Keeps uses freshRely (fun h' r => Knows h' r.2) (consume env queues st ev) h := by
  unfold consume
  cases ev.getType with
  | kNicMmioWT | kNicMmioRT => exact uses_handelMmio hst
  | kNicDmaIT | kNicDmaExT | kNicDmaCWT | kNicDmaCRT => exact uses_handelDma hst
  | kNicTxT | kNicRxT => exact uses_handelTxrx hst
  | kNicMsixT => exact uses_handelMsix hst
  | _ => exact keeps_pure hst

theorem uses_consumeAll (evs : List Event) :
    Keeps uses freshRely (fun h' st => Knows h' st) (consumeAll env queues evs) [] := by
  refine Keeps.foldlM (fun _ h st => Knows h st) ?_ ⟨fun _ hid => (by cases hid), fun _ hp =>
    by cases hp⟩
  intro past ev rest h st _ hst
  exact keeps_bind ((uses_consume hst).mono fun _ _ hr => keeps_pure hr)

end NicSpanner

namespace NetworkSpanner

variable {env : TraceEnvironment} {queues : NetworkQueues} {filter : NodeDeviceFilter}
  {st : NetworkSpanner} {ev : Event} {h h' : Log}

structure Knows (h : Log) (st : NetworkSpanner) : Prop where
  last : ∀ s ∈ st.lastFinishedDeviceSpan, s.id ∈ h.created
  active : ∀ s ∈ st.currentActiveDeviceSpans, s.id ∈ h.created

theorem Knows.onward (hst : Knows h st) (hon : Onward h h') : Knows h' st :=
  ⟨fun s hs => hon.created (hst.last s hs), fun s hs => hon.created (hst.active s hs)⟩

theorem uses_finishDeviceSpan (hst : Knows h st) {s : Allocated NetDeviceSpan}
    (hs : s.id ∈ h.created) :
    Keeps uses freshRely (fun h' r => Knows h' r.2) (finishDeviceSpan queues st s) h := by
  have hconnect : ∀ {h₁}, Onward h h₁ →
      Keeps uses freshRely (fun h' _ => Onward h h') (connectToAdapter queues s) h₁ := by
    intro h₁ hon₁
    unfold connectToAdapter
    split_ifs
    · refine keeps_bind ((uses_whenever hon₁ fun _ => uses_throw).mono fun h₂ _ hon₂ => ?_)
      refine keeps_bind ((uses_throwIfEmpty hon₂).mono fun h₃ dest hdest => ?_)
      exact uses_pushPropagateContext hdest.1 (hdest.1.created hs)
    · exact keeps_pure hon₁
  unfold finishDeviceSpan
  refine keeps_bind ((uses_whenever (.refl h) fun _ => uses_throw).mono fun h₁ _ hon₁ => ?_)
  refine keeps_bind ((hconnect hon₁).mono fun h₂ _ hon₂ => ?_)
  refine keeps_bind ((uses_markSpanAsDone hon₂ s).mono fun h₃ _ hon₃ => keeps_pure ?_)
  exact ⟨fun s' hs' => Option.some.inj hs' ▸ hon₃.created hs, (hst.onward hon₃).active⟩

theorem uses_contextToConnectWith (hst : Knows h st) (net : NetworkEvent) :
    Keeps uses freshRely (fun h' c => Onward h h' ∧ c ∈ Log.contexts h')
      (contextToConnectWith queues st net) h := by
  unfold contextToConnectWith
  split_ifs
  · refine keeps_bind ((uses_whenever (.refl h) fun _ => uses_throw).mono fun h₁ _ hon₁ => ?_)
    refine keeps_bind ((uses_throwIfEmpty hon₁).mono fun h₂ source hsource => ?_)
    refine keeps_bind ((uses_popPropagateContext hsource.1).mono fun h₃ con hcon => ?_)
    exact keeps_bind (keeps_whenever (fun _ => uses_throw) fun _ => keeps_pure hcon)
  · refine keeps_bind ((uses_throwIfEmpty (.refl h)).mono fun h₁ last hlast => ?_)
    exact uses_createPassOnContext hlast.1 (hlast.1.created (hst.last last hlast.2))

theorem uses_startDeviceSpan (hst : Knows h st) (net : NetworkEvent) :
    Keeps uses freshRely (fun h' r => Knows h' r.2)
      (startDeviceSpan env queues filter st ev net) h := by
  have hconcat : ∀ {h' : Log} {s : Allocated NetDeviceSpan}, Onward h h' → s.id ∈ h'.created →
      Knows h' { st with currentActiveDeviceSpans := st.currentActiveDeviceSpans ++ [s] } := by
    intro h' s hon hs
    have hst' := hst.onward hon
    exact ⟨hst'.last, List.forall_mem_append.mpr ⟨hst'.active, List.forall_mem_singleton.mpr hs⟩⟩
  unfold startDeviceSpan
  split_ifs
  · exact keeps_pure hst
  · exact keeps_bind ((uses_startSpan (.refl h) _).mono fun _ _ hs =>
      keeps_pure (hconcat hs.1 hs.2))
  · exact keeps_pure hst
  · refine keeps_bind ((uses_contextToConnectWith hst net).mono fun h₁ con hcon => ?_)
    exact keeps_bind ((uses_startSpanByParentPassOnContext hcon.1 _ hcon.2).mono fun _ _ hs =>
      keeps_pure (hconcat hs.1 hs.2))

theorem uses_consume (hst : Knows h st) :
    Keeps uses freshRely (fun h' r => Knows h' r.2) (consume env queues filter st ev) h := by
  have hnetwork : Keeps uses freshRely (fun h' r => Knows h' r.2)
      (handelNetworkEvent env queues filter st ev) h := by
    unfold handelNetworkEvent
    cases ev.network with
    | none => exact keeps_pure hst
    | some net =>
      dsimp only
      split_ifs
      · exact keeps_pure hst
      refine keeps_bind ((uses_iterateAddErase (.refl h) _).mono fun h₁ r hr => ?_)
      obtain ⟨found, active⟩ := r
      obtain ⟨hon, hids⟩ := hr
      obtain ⟨hfound, hactive⟩ := hids (· ∈ h.created) hst.active
      have hst₁ : Knows h₁ { st with currentActiveDeviceSpans := active } :=
        ⟨fun s hs => hon.created (hst.last s hs), fun s hs => hon.created (hactive s hs)⟩
      cases found with
      | none => exact uses_startDeviceSpan hst₁ net
      | some s => exact uses_finishDeviceSpan hst₁ (hon.created (hfound s rfl))
  unfold consume
  cases ev.getType with
  | kNetworkEnqueueT | kNetworkDequeueT | kNetworkDropT => exact hnetwork
  | _ => exact keeps_pure hst

theorem uses_consumeAll (evs : List Event) :
    Keeps uses freshRely (fun h' st => Knows h' st) (consumeAll env queues filter evs) [] := by
  refine Keeps.foldlM (fun _ h st => Knows h st) ?_ ⟨fun _ hs => (by cases hs), fun _ hs =>
    by cases hs⟩
  intro past ev rest h st _ hst
  exact keeps_bind ((uses_consume hst).mono fun _ _ hr => keeps_pure hr)

end NetworkSpanner

/-- A call keeps the event that it started with. -/
theorem HostCallSpan.addToSpan_first (env : TraceEnvironment) {s : HostCallSpan} (ev : Event)
    {first : Event} {rest : List Event} (hevents : s.events = first :: rest) :
    ∃ rest', (s.addToSpan env ev).2.events = first :: rest' := by
  have hflags : (s.setFlags env ev).events = s.events := by
    unfold setFlags
    split_ifs <;> rfl
  unfold addToSpan
  split_ifs <;> simp [hevents, hflags]

theorem HostCallSpan.addToSpan_start {env : TraceEnvironment} {s : HostCallSpan} {ev : Event}
    (h : HostCallSpan.addToSpan env { isFragmented := false } ev = (true, s)) :
    s.events = [ev] := by
  have hflags : (HostCallSpan.setFlags env { isFragmented := false } ev).events = [] := by
    unfold setFlags
    split_ifs <;> rfl
  unfold addToSpan at h
  split_ifs at h
  · exact absurd (Prod.mk.inj h).1 Bool.false_ne_true
  · exact absurd (Prod.mk.inj h).1 Bool.false_ne_true
  · exact absurd (Prod.mk.inj h).1 Bool.false_ne_true
  · exact (Prod.mk.inj h).2 ▸ rfl
  · dsimp only at h
    rw [← (Prod.mk.inj h).2]
    simp [hflags]

namespace HostSpanner

variable {env : TraceEnvironment} {queues : HostQueues} {rounds : Nat} {st st' : HostSpanner}
  {ev : Event} {h h' : Log} {call : Allocated HostCallSpan}

/-- The span started a trace, with its first event. -/
def Begun (h : Log) (call : Allocated HostCallSpan) : Prop :=
  ∃ type ev accepted rest, ⟨.startSpan type ev accepted, call.id⟩ ∈ h ∧
    call.span.events = ev :: rest

theorem Begun.mem_roots (hcall : Begun h call) : call.id ∈ h.roots := by
  obtain ⟨type, ev, accepted, rest, he, -⟩ := hcall
  exact Log.mem_roots.mpr ⟨type, ev, accepted, he⟩

theorem Begun.append (hcall : Begun h call) (new : Log) : Begun (h ++ new) call := by
  obtain ⟨type, ev, accepted, rest, he, hevents⟩ := hcall
  exact ⟨type, ev, accepted, rest, List.mem_append_left _ he, hevents⟩

/-- Contexts are changed only of spans of the spanner, and not yet of the pending call. -/
structure Tracked (h : Log) (st : HostSpanner) : Prop where
  targets : ∀ id ∈ h.targets, id ∈ h.created
  untouched : ∀ call ∈ st.pendingHostCallSpan, call.id ∉ h.targets
  begun : ∀ call ∈ st.pendingHostCallSpan, Begun h call

theorem Tracked.created (hst : Tracked h st) (hcall : st.pendingHostCallSpan = some call) :
    call.id ∈ h.created :=
  Log.created_of_roots (hst.begun call hcall).mem_roots

theorem Tracked.onward (hst : Tracked h st) (hon : Onward h h')
    (hslot : st'.pendingHostCallSpan = st.pendingHostCallSpan) : Tracked h' st' := by
  refine ⟨?_, ?_, ?_⟩
  · rw [hon.targets]
    exact fun id hid => hon.created (hst.targets id hid)
  · rw [hon.targets, hslot]
    exact hst.untouched
  · rw [hslot]
    obtain ⟨rest, rfl⟩ := hon.extends_
    exact fun call hcall => (hst.begun call hcall).append rest

/-- The call that a span belongs to. -/
theorem uses_pendingCall (hst : Tracked h st) {h₁ : Log} (hon : Onward h h₁) :
    Keeps uses freshRely (fun h' call => Onward h h' ∧ call.id ∈ Log.created h')
      (throwIfEmpty st.pendingHostCallSpan) h₁ :=
  (uses_throwIfEmpty hon).mono fun _ _ hcall => ⟨hcall.1, hcall.1.created (hst.created hcall.2)⟩

theorem uses_handelMmio (hst : Tracked h st) :
    Keeps uses freshRely (fun h' r => Onward h h' ∧
      r.2.pendingHostCallSpan = st.pendingHostCallSpan) (handelMmio env queues st ev) h := by
  unfold handelMmio
  refine keeps_bind ((uses_iterateAddErase (.refl h) _).mono fun h₁ r hr => ?_)
  obtain ⟨found, pending⟩ := r
  cases found with
  | some mmio =>
    exact keeps_bind ((uses_whenever hr.1 fun _ => uses_markSpanAsDone hr.1 mmio).mono
      fun _ _ hon => keeps_pure ⟨hon, rfl⟩)
  | none =>
    refine keeps_bind ((uses_pendingCall hst hr.1).mono fun h₂ call hcall => ?_)
    refine keeps_bind ((uses_startSpanByParent hcall.1 _ hcall.2).mono fun h₃ mmio hmmio => ?_)
    refine keeps_bind ((uses_whenever hmmio.1 fun _ =>
      uses_pushPropagateContext hmmio.1 hmmio.2).mono fun h₄ _ hon₄ => ?_)
    exact keeps_bind ((uses_whenever hon₄ fun _ => uses_markSpanAsDone hon₄ mmio).mono
      fun _ _ hon => keeps_pure ⟨hon, rfl⟩)

theorem uses_handelPci (hst : Tracked h st) :
    Keeps uses freshRely (fun h' r => Onward h h' ∧
      r.2.pendingHostCallSpan = st.pendingHostCallSpan) (handelPci env st ev) h := by
  have hstart : Keeps uses freshRely (fun h' r => Onward h h' ∧
      r.2.pendingHostCallSpan = st.pendingHostCallSpan) (handelPciStart env st ev) h := by
    have hfinish : Keeps uses freshRely (fun h' _ => Onward h h') (finishPciSpan st) h := by
      unfold finishPciSpan
      split
      · exact keeps_pure (.refl h)
      · split_ifs
        · exact uses_throw
        · exact uses_markSpanAsDone (.refl h) _
    unfold handelPciStart
    refine keeps_bind (hfinish.mono fun h₁ _ hon₁ => ?_)
    refine keeps_bind ((uses_pendingCall hst hon₁).mono fun h₂ call hcall => ?_)
    exact keeps_bind ((uses_startSpanByParent hcall.1 _ hcall.2).mono fun _ _ hpci =>
      keeps_pure ⟨hpci.1, rfl⟩)
  unfold handelPci
  split
  · next pci _ =>
    split_ifs
    · refine keeps_bind ((uses_addToSpan (.refl h) pci).mono fun h₁ r hr => ?_)
      refine keeps_bind ((uses_whenever hr.1 fun _ => uses_throw).mono fun h₂ _ hon₂ => ?_)
      exact keeps_bind ((uses_markSpanAsDone hon₂ _).mono fun _ _ hon => keeps_pure ⟨hon, rfl⟩)
    · exact hstart
  · exact hstart

theorem uses_handelDma (ev : Event) :
    Keeps uses freshRely (fun h' r => Onward h h' ∧
      r.2.pendingHostCallSpan = st.pendingHostCallSpan) (handelDma env queues st ev) h := by
  have hspans : ∀ (st' : HostSpanner) (h₁ : Log), Onward h h₁ →
      Keeps uses freshRely (fun h' r => Onward h h' ∧
        r.2.pendingHostCallSpan = st'.pendingHostCallSpan)
      (handelDmaSpans env queues st' ev) h₁ := by
    intro st' h₁ hon₁
    unfold handelDmaSpans
    refine keeps_bind ((uses_iterateAddErase hon₁ _).mono fun h₂ r hr => ?_)
    obtain ⟨found, pending⟩ := r
    cases found with
    | some dma =>
      exact keeps_bind ((uses_whenever hr.1 fun _ => uses_markSpanAsDone hr.1 dma).mono
        fun _ _ hon => keeps_pure ⟨hon, rfl⟩)
    | none =>
      refine keeps_bind ((uses_popPropagateContext hr.1).mono fun h₃ con hcon => ?_)
      split_ifs
      · exact keeps_pure ⟨hcon.1, rfl⟩
      · exact keeps_pure ⟨hcon.1, rfl⟩
      · exact keeps_bind ((uses_startSpanByParentPassOnContext hcon.1 _ hcon.2).mono
          fun _ _ hdma => keeps_pure ⟨hdma.1, rfl⟩)
  unfold handelDma
  split
  · exact hspans st h (.refl h)
  · next msix _ =>
    refine keeps_bind ((uses_addToSpan (.refl h) msix).mono fun h₁ r hr => ?_)
    dsimp only
    split_ifs
    · exact keeps_bind ((uses_markSpanAsDone hr.1 _).mono fun _ _ hon => keeps_pure ⟨hon, rfl⟩)
    · exact hspans { st with pendingHostMsixSpan := some r.2 } h₁ hr.1

theorem uses_handelMsix (ev : Event) :
    Keeps uses freshRely (fun h' r => Onward h h' ∧
      r.2.pendingHostCallSpan = st.pendingHostCallSpan) (handelMsix env queues st ev) h := by
  unfold handelMsix
  refine keeps_bind ((uses_popPropagateContext (.refl h)).mono fun h₁ con hcon => ?_)
  split_ifs
  · exact keeps_pure ⟨hcon.1, rfl⟩
  · exact keeps_bind ((uses_startSpanByParentPassOnContext hcon.1 _ hcon.2).mono fun _ _ hmsix =>
      keeps_pure ⟨hmsix.1, rfl⟩)

theorem uses_handelInt (hst : Tracked h st) :
    Keeps uses freshRely (fun h' r => Onward h h' ∧
      r.2.pendingHostCallSpan = st.pendingHostCallSpan) (handelInt env st ev) h := by
  unfold handelInt
  split
  · refine keeps_bind ((uses_pendingCall hst (.refl h)).mono fun h₁ call hcall => ?_)
    exact keeps_bind ((uses_startSpanByParent hcall.1 _ hcall.2).mono fun _ _ hint =>
      keeps_pure ⟨hint.1, rfl⟩)
  · next int _ =>
    refine keeps_bind ((uses_addToSpan (.refl h) int).mono fun h₁ r hr => ?_)
    dsimp only
    split_ifs
    · exact keeps_pure ⟨hr.1, rfl⟩
    · exact keeps_pure ⟨hr.1, rfl⟩
    · exact keeps_bind ((uses_markSpanAsDone hr.1 _).mono fun _ _ hon => keeps_pure ⟨hon, rfl⟩)

/-- Only spans of the spanner were handed over, and only their contexts changed. -/
structure Tidy (h : Log) : Prop where
  targets : ∀ id ∈ h.targets, id ∈ h.created
  marked : ∀ id ∈ h.marked.map Prod.fst, id ∈ h.created

theorem Tidy.concat (hh : Tidy h) {c : Command} {r : c.Response}
    (htarget : ∀ id ∈ c.target, id ∈ h.created)
    (hmark : ∀ id content, c = .markSpanAsDone id content → id ∈ h.created) :
    Tidy (h ++ [⟨c, r⟩]) := by
  have hold : ∀ {id}, id ∈ h.created → id ∈ Log.created (h ++ [⟨c, r⟩]) := by
    intro id hid
    rw [Log.created_append]
    exact List.mem_append_left _ hid
  constructor
  · intro id hid
    rw [Log.targets_append] at hid
    rcases List.mem_append.mp hid with hid | hid
    · exact hold (hh.targets id hid)
    · obtain ⟨e, he, hid⟩ := List.mem_filterMap.mp hid
      obtain rfl := List.mem_singleton.mp he
      exact hold (htarget id hid)
  · intro id hid
    rw [Log.marked_append, List.map_append] at hid
    rcases List.mem_append.mp hid with hid | hid
    · exact hold (hh.marked id hid)
    · cases c with
      | markSpanAsDone span content =>
        obtain rfl : id = span := by simpa [Log.marked] using hid
        exact hold (hmark id content rfl)
      | _ => cases hid

/-- Every copy is new, and starts after what its context says. -/
theorem uses_copyForReceives (hh : Tidy h) (hcall : Begun h call) :
    Keeps uses freshRely (fun h' _ => Tidy h') (copyForReceives queues call rounds) h := by
  induction rounds generalizing h with
  | zero => exact uses_throw
  | succ rounds ih =>
    unfold copyForReceives
    refine keeps_bind ⟨trivial, fun next hnext => ?_⟩
    have hh₁ : Tidy (h ++ [⟨.tryPopOnTrue queues.fromNicReceives call.span.getStartingTs, next⟩]) :=
      hh.concat (fun _ hid => by cases hid) fun _ _ heq => by cases heq
    cases next with
    | none => exact keeps_pure hh₁
    | some context =>
      have hcall₁ := hcall.append
        [⟨.tryPopOnTrue queues.fromNicReceives call.span.getStartingTs, some context⟩]
      have hcontext : context ∈ Log.contexts
          (h ++ [⟨.tryPopOnTrue queues.fromNicReceives call.span.getStartingTs, some context⟩]) :=
        Log.mem_contexts_concat List.mem_cons_self
      generalize h ++ [⟨Command.tryPopOnTrue queues.fromNicReceives call.span.getStartingTs,
        some context⟩] = h₁ at hh₁ hcall₁ hcontext ⊢
      have hknown := Log.created_of_roots hcall₁.mem_roots
      refine keeps_bind ⟨hknown, fun (copy : ℕ) hcopy => ?_⟩
      have hnew : copy ∉ Log.created h₁ := hcopy.2 copy rfl
      have hh₂ : Tidy (h₁ ++ [⟨.cloneShared call.id, copy⟩]) :=
        hh₁.concat (fun id hid => Option.some.inj hid ▸ hknown) fun _ _ heq => by cases heq
      have hcreated : copy ∈ Log.created (h₁ ++ [⟨.cloneShared call.id, copy⟩]) :=
        Log.created_of_mem (List.mem_append_right _ List.mem_cons_self) rfl
      refine keeps_bind ⟨⟨?_, ?_, ?_, ?_⟩, fun _ _ => ?_⟩
      · rw [Log.contexts_append]
        exact List.mem_append_left _ hcontext
      · rw [Log.targets_append]
        refine fun hmem => (List.mem_append.mp hmem).elim (fun hid => hnew (hh₁.targets _ hid)) ?_
        intro hid
        obtain rfl : copy = call.id := List.mem_singleton.mp hid
        exact hnew hknown
      · rw [Log.marked_append]
        intro hmem
        exact hnew (hh₁.marked _ (by simpa [Log.marked] using hmem))
      · obtain ⟨type, ev, accepted, rest, he, hevents⟩ := hcall₁
        have hbefore := World.tryPopOnTrue_some hnext.1
        have hstart : call.span.getStartingTs = ev.getTs := by
          simp [EventSpan.getStartingTs, hevents]
        exact ⟨call.id, type, ev, accepted, by simp, List.mem_append_left _ he, hstart ▸ hbefore⟩
      · have hh₃ := hh₂.concat (c := .startSpanSetParentContext copy context) (r := ())
          (fun id hid => Option.some.inj hid ▸ hcreated) fun _ _ heq => by cases heq
        refine keeps_bind ⟨trivial, fun _ _ => ih (hh₃.concat (fun _ hid => by cases hid) ?_) ?_⟩
        · intro id content heq
          obtain ⟨rfl, -⟩ := Command.markSpanAsDone.inj heq
          rw [Log.created_append]
          exact List.mem_append_left _ hcreated
        · exact ((hcall₁.append _).append _).append _

/-- A parent is added to a root that no copy was made of. -/
theorem uses_finishPendingSpan (hst : Tracked h st) (hown : Owned h st.live) :
    Keeps uses freshRely (fun h' _ => Tidy h') (finishPendingSpan queues rounds st) h := by
  have hh : Tidy h := ⟨hst.targets, hown.markedCreated⟩
  unfold finishPendingSpan
  cases hslot : st.pendingHostCallSpan with
  | none => exact keeps_pure hh
  | some call =>
    have hcall := hst.begun call hslot
    have hknown := hst.created hslot
    have hunmarked : call.id ∉ h.marked.map Prod.fst := by
      refine hown.unmarked call.id (Multiset.mem_add.mpr (.inl ?_))
      rw [hslot]
      exact Multiset.mem_singleton_self _
    dsimp only
    split_ifs
    · refine keeps_perform trivial fun _ _ => hh.concat (fun _ hid => by cases hid) ?_
      intro id content heq
      obtain ⟨rfl, -⟩ := Command.markSpanAsDone.inj heq
      exact hknown
    · refine keeps_bind ⟨trivial, fun (context : Context) _ => ?_⟩
      have hh₁ : Tidy (h ++ [⟨.pop queues.fromNicReceives none, context⟩]) :=
        hh.concat (fun _ hid => by cases hid) fun _ _ heq => by cases heq
      have hcall₁ := hcall.append [⟨.pop queues.fromNicReceives none, context⟩]
      refine keeps_bind ⟨⟨Log.mem_contexts_concat List.mem_cons_self, ?_, ?_, hcall₁.mem_roots⟩,
        fun _ _ => ?_⟩
      · rw [Log.targets_append]
        exact fun hmem =>
          hst.untouched call hslot (by simpa [Log.targets, Command.target] using hmem)
      · rw [Log.marked_append]
        exact fun hmem => hunmarked (by simpa [Log.marked] using hmem)
      have hknown₁ := Log.created_of_roots hcall₁.mem_roots
      have hh₂ := hh₁.concat (c := .addParentLazily call.id context) (r := ())
        (fun id hid => Option.some.inj hid ▸ hknown₁) fun _ _ heq => by cases heq
      refine keeps_bind ((uses_copyForReceives hh₂ (hcall₁.append _)).history.mono ?_)
      rintro h₃ - ⟨hh₃, rest, rfl⟩
      refine keeps_perform trivial fun _ _ => hh₃.concat (fun _ hid => by cases hid) ?_
      intro id content heq
      obtain ⟨rfl, -⟩ := Command.markSpanAsDone.inj heq
      exact Log.created_of_roots ((hcall₁.append _).append rest).mem_roots

theorem uses_createTraceStartingSpan (hst : Tracked h st) (hown : Owned h st.live) :
    Keeps uses freshRely (fun h' st' => Tracked h' st')
      (createTraceStartingSpan env queues rounds st ev false) h := by
  unfold createTraceStartingSpan
  refine keeps_bind ((uses_finishPendingSpan hst hown).mono fun h₁ _ hh₁ => ?_)
  cases hadd : SpanClass.addToSpan env ({ isFragmented := false } : HostCallSpan) ev with
  | mk accepted span =>
    refine keeps_bind (keeps_startSpan hadd trivial fun id hid => keeps_pure ?_)
    obtain rfl : accepted = true := World.accepted_of_possible hid.1
    have hh₂ := hh₁.concat (c := .startSpan (SpanClass.type HostCallSpan) ev true) (r := id)
      (fun _ hid => by cases hid) fun _ _ heq => by cases heq
    refine ⟨hh₂.targets, fun call hcall => ?_, fun call hcall => ?_⟩
    · obtain rfl := Option.some.inj hcall
      rw [Log.targets_append]
      refine fun hmem => hid.2 id rfl (hh₁.targets id ?_)
      simpa [Log.targets, Command.target] using hmem
    · obtain rfl := Option.some.inj hcall
      exact ⟨_, ev, true, [], List.mem_append_right _ List.mem_cons_self,
        HostCallSpan.addToSpan_start hadd⟩

theorem safe_createTraceStartingSpan (hst : Tracked h st) (hown : Owned h st.live)
    (hcomplete : ∀ call, st.pendingHostCallSpan = some call → isComplete call = true) :
    Keeps safe freshRely (fun h' st' => Owned h' st'.live ∧ Tracked h' st')
      (createTraceStartingSpan env queues rounds st ev false) h :=
  (owned_createTraceStartingSpan hown hcomplete).and (uses_createTraceStartingSpan hst hown)

theorem safe_handelCall (hst : Tracked h st) (hown : Owned h st.live) :
    Keeps safe freshRely (fun h' r => Owned h' r.2.live ∧ Tracked h' r.2)
      (handelCall env queues rounds st ev) h := by
  have hadd : ∀ (st : HostSpanner) (h : Log), Owned h st.live ∧ Tracked h st →
      Keeps safe freshRely (fun h' r => Owned h' r.2.live ∧ Tracked h' r.2)
        (addCall env queues rounds st ev) h := by
    rintro st h ⟨hown, hst⟩
    unfold addCall
    refine keeps_bind (keeps_throwIfEmpty (fun _ => ⟨trivial, trivial⟩) fun call hslot => ?_)
    have hown₁ : Owned h (slotId (some call) + st.besides) := by
      rw [← hslot]
      exact hown
    refine keeps_bind (((owned_addToSpan hown₁).and (uses_addToSpan (.refl h) call)).mono
      fun h₁ r hr => ?_)
    obtain ⟨added, call'⟩ := r
    obtain ⟨⟨hown₁, -⟩, hon, hid, hspan⟩ := hr
    dsimp only at hid hspan
    have hlive : ∀ st' : HostSpanner, st'.pendingHostCallSpan = some call' →
        st'.besides = st.besides → Owned h₁ st'.live := by
      intro st' hslot' hbesides
      unfold live
      rw [hslot', hbesides]
      exact hown₁
    have htracked : ∀ st' : HostSpanner, st'.pendingHostCallSpan = some call' →
        Tracked h₁ st' := by
      intro st' hslot'
      have hst₁ := hst.onward hon rfl
      refine ⟨hst₁.targets, fun c hc => ?_, fun c hc => ?_⟩
      · obtain rfl := Option.some.inj (hslot'.symm.trans hc)
        rw [hid]
        exact hst₁.untouched call hslot
      · obtain rfl := Option.some.inj (hslot'.symm.trans hc)
        obtain ⟨type, first, accepted, rest, he, hevents⟩ := hst₁.begun call hslot
        obtain ⟨rest', hfirst⟩ := HostCallSpan.addToSpan_first env ev hevents
        have hnext : (call.span.addToSpan env ev).2 = call'.span := congrArg Prod.snd hspan
        exact ⟨type, first, accepted, rest', hid ▸ he, hnext ▸ hfirst⟩
    dsimp only
    split_ifs with hadded hdone
    · exact keeps_pure ⟨hlive _ rfl rfl, htracked _ rfl⟩
    · have hcreate : Keeps safe freshRely _
          (createTraceStartingSpan env queues rounds _ ev false) _ :=
        safe_createTraceStartingSpan (htracked { st with pendingHostCallSpan := some call' } rfl)
          (hlive _ rfl rfl) fun c hc => Option.some.inj hc ▸ hdone
      exact keeps_bind (hcreate.mono fun _ _ hst₂ => keeps_pure hst₂)
    · exact keeps_pure ⟨hlive _ rfl rfl, htracked _ rfl⟩
  unfold handelCall ensureCallSpan
  split_ifs with hnone
  · have hempty : st.pendingHostCallSpan = none := Option.isNone_iff_eq_none.mp hnone
    refine keeps_bind ((safe_createTraceStartingSpan hst hown fun c hc => ?_).mono
      fun h₁ st₁ hst₁ => hadd st₁ h₁ hst₁)
    cases hempty.symm.trans hc
  · exact hadd st h ⟨hown, hst⟩

theorem safe_consume (hst : Tracked h st) (hown : Owned h st.live) :
    Keeps safe freshRely (fun h' r => Owned h' r.2.live ∧ Tracked h' r.2)
      (consume env queues rounds st ev) h := by
  have hcalm : ∀ {x : Spanning (Bool × HostSpanner)},
      Keeps finishes freshRely (fun h' r => Owned h' r.2.live) x h →
      Keeps uses freshRely (fun h' r => Onward h h' ∧
        r.2.pendingHostCallSpan = st.pendingHostCallSpan) x h →
      Keeps safe freshRely (fun h' r => Owned h' r.2.live ∧ Tracked h' r.2) x h :=
    fun howned huses => (howned.and huses).mono fun h' r hr =>
      ⟨hr.1, hst.onward hr.2.1 hr.2.2⟩
  unfold consume
  cases htype : ev.getType with
  | kHostCallT => exact safe_handelCall hst hown
  | kHostMmioWT | kHostMmioRT | kHostMmioImRespPoWT | kHostMmioCWT | kHostMmioCRT =>
    exact hcalm (owned_handelMmio hown) (uses_handelMmio hst)
  | kHostPciRWT | kHostConfT => exact hcalm (owned_handelPci hown) (uses_handelPci hst)
  | kHostDmaWT | kHostDmaRT | kHostDmaCT =>
    exact hcalm (owned_handelDma hown (by simp [htype])) (uses_handelDma ev)
  | kHostMsiXT => exact hcalm (owned_handelMsix hown) (uses_handelMsix ev)
  | kHostPostIntT | kHostClearIntT => exact hcalm (owned_handelInt hown) (uses_handelInt hst)
  | _ => exact keeps_pure ⟨hown, hst⟩

theorem safe_consumeAll (evs : List Event) :
    Keeps safe freshRely (fun h' st => Owned h' st.live ∧ Tracked h' st)
      (consumeAll env queues rounds evs) [] := by
  refine Keeps.foldlM (fun _ h st => Owned h (live st) ∧ Tracked h st) ?_ ⟨.empty rfl, ?_⟩
  · intro past ev rest h st _ hst
    exact keeps_bind ((safe_consume hst.2 hst.1).mono fun _ _ hr => keeps_pure hr)
  · exact ⟨fun _ hid => (by cases hid), fun _ hcall => (by cases hcall),
      fun _ hcall => by cases hcall⟩

end HostSpanner

theorem keeps_safe (env : TraceEnvironment) (rounds : Nat) (setup : Setup) :
    Keeps safe freshRely (fun _ _ => True) (setup.program env rounds) [] := by
  cases setup with
  | host queues evs =>
    exact keeps_bind ((HostSpanner.safe_consumeAll evs).mono fun _ _ _ => keeps_pure trivial)
  | nic queues evs =>
    exact keeps_bind (((NicSpanner.owned_consumeAll evs).and
      (NicSpanner.uses_consumeAll evs)).mono fun _ _ _ => keeps_pure trivial)
  | network queues filter evs =>
    exact keeps_bind (((NetworkSpanner.owned_consumeAll evs).and
      (NetworkSpanner.uses_consumeAll evs)).mono fun _ _ _ => keeps_pure trivial)

end Columbo
