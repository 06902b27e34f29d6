import Columbo.SpanSteps
import Columbo.Spanner

/-!
# Rules for the parts of the handlers

The history of a spanner records its operations. What the functions shared by the
handlers keep is derived from what holds around their operations.
-/
namespace Columbo

/-- The operations of one spanner, oldest first. -/
abbrev Log := Coroutine.History Command Command.Response

/-- A span that an operation starts: its first event, and the context of the parent if
that was passed on. -/
structure Started where
  type : SpanType
  id : Nat
  event : Event
  context : Option Context

namespace Log

def startedBy : (c : Command) × c.Response → Option Started
  | ⟨.startSpan type ev _, id⟩ => some ⟨type, id, ev, none⟩
  | ⟨.startSpanByParent type _ ev _, id⟩ => some ⟨type, id, ev, none⟩
  | ⟨.startSpanByParentPassOnContext type c ev _, id⟩ => some ⟨type, id, ev, some c⟩
  | _ => none

/-- The spans of some classes in creation order. -/
def started (types : List SpanType) (h : Log) : List Started :=
  (h.filterMap startedBy).filter (·.type ∈ types)

@[simp] theorem started_nil (types : List SpanType) : started types [] = [] := rfl

@[simp] theorem started_append (types : List SpanType) (h h' : Log) :
    started types (h ++ h') = started types h ++ started types h' := by
  unfold started
  rw [List.filterMap_append, List.filter_append]

/-- The contexts pushed to a channel. -/
def pushed (q : Channel) (h : Log) : List Context :=
  h.filterMap fun
    | ⟨.push dest c, _⟩ => if dest = q then some c else none
    | _ => none

/-- The contexts popped from a channel. -/
def popped (q : Channel) (h : Log) : List Context :=
  h.filterMap fun
    | ⟨.pop source _, c⟩ => if source = q then some c else none
    | ⟨.tryPopOnTrue source _, c⟩ => if source = q then c else none
    | _ => none

/-- The spans whose contexts `StartSpan` creates, and the copies of spans. -/
def calls (h : Log) : List Nat :=
  h.filterMap fun
    | ⟨.startSpan .., id⟩ => some id
    | ⟨.cloneShared _, id⟩ => some id
    | _ => none

@[simp] theorem pushed_append (q : Channel) (h h' : Log) :
    pushed q (h ++ h') = pushed q h ++ pushed q h' := List.filterMap_append

@[simp] theorem popped_append (q : Channel) (h h' : Log) :
    popped q (h ++ h') = popped q h ++ popped q h' := List.filterMap_append

@[simp] theorem calls_append (h h' : Log) : calls (h ++ h') = calls h ++ calls h' :=
  List.filterMap_append

end Log

namespace Spanner

section FindAddErase

variable {St : Type} [SpanClass St] {env : TraceEnvironment} {ev : Event}

theorem findAddErase_none {pending : List (Allocated St)}
    (h : ∀ p ∈ pending, SpanClass.addToSpan env p.span ev = (false, p.span)) :
    findAddErase env pending ev = (none, pending) := by
  induction pending with
  | nil => rfl
  | cons p pending ih =>
    have hp := h p List.mem_cons_self
    have hrest := ih fun q hq => h q (List.mem_cons_of_mem p hq)
    simp [findAddErase, hp, hrest]

/-- What `AddToSpan` keeps of a span is kept of the spans of the list. -/
theorem findAddErase_forall {P : St → Prop}
    (hP : ∀ s, P s → P (SpanClass.addToSpan env s ev).2) {pending : List (Allocated St)}
    (h : ∀ p ∈ pending, P p.span) :
    (∀ p ∈ (findAddErase env pending ev).2, P p.span) ∧
      ∀ p, (findAddErase env pending ev).1 = some p → P p.span := by
  induction pending with
  | nil => exact ⟨fun _ hp => (nomatch hp), fun _ hp => (nomatch hp)⟩
  | cons p pending ih =>
    have hp := hP p.span (h p List.mem_cons_self)
    have hpending : ∀ q ∈ pending, P q.span := fun q hq => h q (List.mem_cons_of_mem p hq)
    obtain ⟨hrest, hfound⟩ := ih hpending
    unfold findAddErase
    dsimp only
    split_ifs
    · exact ⟨hpending, fun q hq => Option.some.inj hq ▸ hp⟩
    · exact ⟨List.forall_mem_cons.mpr ⟨hp, hpending⟩, fun q hq => Option.some.inj hq ▸ hp⟩
    · exact ⟨List.forall_mem_cons.mpr ⟨hp, hrest⟩, hfound⟩

/-- A pending span after an event was offered to it. -/
def offer (env : TraceEnvironment) (ev : Event) (p : Allocated St) : Allocated St :=
  { p with span := (SpanClass.addToSpan env p.span ev).2 }

/-- Either no span takes the event, or the first one that takes it does. -/
theorem findAddErase_cases (env : TraceEnvironment) (pending : List (Allocated St)) (ev : Event) :
    (findAddErase env pending ev = (none, pending.map (offer env ev)) ∧
        ∀ p ∈ pending, (SpanClass.addToSpan env p.span ev).1 = false) ∨
      ∃ front p back, pending = front ++ p :: back ∧
        (∀ q ∈ front, (SpanClass.addToSpan env q.span ev).1 = false) ∧
        (SpanClass.addToSpan env p.span ev).1 = true ∧
        findAddErase env pending ev = (some (offer env ev p), front.map (offer env ev) ++
          if isComplete (offer env ev p) then back else offer env ev p :: back) := by
  induction pending with
  | nil => exact .inl ⟨rfl, fun p hp => nomatch hp⟩
  | cons p pending ih =>
    by_cases hadded : (SpanClass.addToSpan env p.span ev).1 = true
    · refine .inr ⟨[], p, pending, rfl, fun q hq => (nomatch hq), hadded, ?_⟩
      unfold findAddErase
      simp only [hadded, if_true]
      rfl
    · have hrefused : (SpanClass.addToSpan env p.span ev).1 = false := by simpa using hadded
      have hstep : findAddErase env (p :: pending) ev =
          ((findAddErase env pending ev).1, offer env ev p :: (findAddErase env pending ev).2) := by
        rw [findAddErase]
        simp [hrefused, offer]
      rw [hstep]
      obtain ⟨hnone, hall⟩ | ⟨front, q, back, rfl, hfront, htakes, hsome⟩ := ih
      · refine .inl ⟨by simp [hnone], ?_⟩
        exact List.forall_mem_cons.mpr ⟨hrefused, hall⟩
      · refine .inr ⟨p :: front, q, back, rfl, ?_, htakes, by simp [hsome]⟩
        exact List.forall_mem_cons.mpr ⟨hrefused, hfront⟩

theorem findAddErase_found {pending rest : List (Allocated St)} {found : Allocated St}
    (h : findAddErase env pending ev = (some found, rest)) :
    ∃ p ∈ pending, found.id = p.id ∧ SpanClass.addToSpan env p.span ev = (true, found.span) := by
  obtain ⟨hnone, -⟩ | ⟨front, p, back, rfl, -, htakes, hsome⟩ :=
    findAddErase_cases env pending ev
  · cases hnone.symm.trans h
  · obtain ⟨hfound, -⟩ := Prod.mk.inj (hsome.symm.trans h)
    obtain rfl := Option.some.inj hfound
    exact ⟨p, by simp, rfl, Prod.ext htakes rfl⟩

/-- The search neither completes spans that stay in the list nor removes complete ones. -/
theorem findAddErase_complete (hsteady : SpanClass.Steady St) (env : TraceEnvironment)
    (pending : List (Allocated St)) (ev : Event) :
    (∃ p ∈ (findAddErase env pending ev).2, isComplete p = true) ↔
      ∃ p ∈ pending, isComplete p = true := by
  have hoffer : ∀ l : List (Allocated St),
      (∀ p ∈ l, (SpanClass.addToSpan env p.span ev).1 = false) →
      ((∃ p ∈ l.map (offer env ev), isComplete p = true) ↔ ∃ p ∈ l, isComplete p = true) := by
    intro l hl
    constructor
    · rintro ⟨p, hp, hcomplete⟩
      obtain ⟨q, hq, rfl⟩ := List.mem_map.mp hp
      exact ⟨q, hq, (hsteady.keeps env q.span ev (hl q hq)).symm.trans hcomplete⟩
    · rintro ⟨p, hp, hcomplete⟩
      exact ⟨offer env ev p, List.mem_map_of_mem hp,
        (hsteady.keeps env p.span ev (hl p hp)).trans hcomplete⟩
  obtain ⟨hnone, hall⟩ | ⟨front, p, back, rfl, hfront, htakes, hsome⟩ :=
    findAddErase_cases env pending ev
  · rw [hnone]
    exact hoffer pending hall
  · have hpending : isComplete p = false := by
      cases hcomplete : isComplete p with
      | false => rfl
      | true => cases htakes.symm.trans (hsteady.refuses env p.span ev hcomplete)
    have hpending' : ¬SpanClass.isComplete p.span = true := by simpa using hpending
    have hkept := hoffer front hfront
    rw [hsome]
    simp only [List.mem_append, or_and_right, exists_or, List.mem_cons, exists_eq_left]
    rw [hkept]
    split_ifs with hdone
    · simp [hpending']
    · have hdone' : ¬SpanClass.isComplete (offer env ev p).span = true := hdone
      simp [hpending', hdone']

theorem forall₂_imp_of_mem {α β : Type} {R S : α → β → Prop} {l : List α} {l' : List β}
    (himp : ∀ a ∈ l, ∀ b, R a b → S a b) (h : List.Forall₂ R l l') : List.Forall₂ S l l' := by
  induction h with
  | nil => exact .nil
  | @cons a b l l' hab _ ih =>
    exact .cons (himp a List.mem_cons_self b hab)
      (ih fun c hc => himp c (List.mem_cons_of_mem a hc))

/-- When the spans of a list stand for items, only that of `t` can take the event. The
relation `R'` is the one after the event. -/
theorem findAddErase_forall₂ {τ : Type} {R R' : τ → Allocated St → Prop} {t : τ} {ts : List τ}
    {pending : List (Allocated St)} (h : List.Forall₂ R ts pending) (hnodup : ts.Nodup)
    (hother : ∀ t' ∈ ts, t' ≠ t → ∀ p, R t' p →
      (SpanClass.addToSpan env p.span ev).1 = false ∧ R' t' (offer env ev p) ∧ R' t' p)
    (hown : t ∈ ts → ∀ p, R t p → (SpanClass.addToSpan env p.span ev).1 = true) :
    (t ∉ ts → findAddErase env pending ev = (none, pending.map (offer env ev)) ∧
        List.Forall₂ R' ts (pending.map (offer env ev))) ∧
      (t ∈ ts → ∃ ts₁ ts₂ front p back, ts = ts₁ ++ t :: ts₂ ∧ R t p ∧
        List.Forall₂ R' ts₁ front ∧ List.Forall₂ R' ts₂ back ∧
        findAddErase env pending ev = (some (offer env ev p),
          front ++ if isComplete (offer env ev p) then back else offer env ev p :: back)) := by
  induction h with
  | nil => exact ⟨fun _ => ⟨rfl, .nil⟩, fun ht => nomatch ht⟩
  | @cons t' p ts pending hp hrest ih =>
    rw [List.nodup_cons] at hnodup
    obtain ⟨hnone, hsome⟩ := ih hnodup.2 (fun s hs => hother s (List.mem_cons_of_mem t' hs))
      fun hmem => hown (List.mem_cons_of_mem t' hmem)
    by_cases ht : t' = t
    · subst ht
      refine ⟨fun hnot => absurd List.mem_cons_self hnot, fun _ => ?_⟩
      have hback : List.Forall₂ R' ts pending := by
        refine forall₂_imp_of_mem (fun s hs q hq => ?_) hrest
        exact (hother s (List.mem_cons_of_mem t' hs) (fun heq => hnodup.1 (heq ▸ hs)) q hq).2.2
      refine ⟨[], ts, [], p, pending, rfl, hp, .nil, hback, ?_⟩
      unfold findAddErase
      simp only [hown List.mem_cons_self p hp, if_true]
      rfl
    · obtain ⟨hrefuses, hoffered, -⟩ := hother t' List.mem_cons_self ht p hp
      have hstep : findAddErase env (p :: pending) ev =
          ((findAddErase env pending ev).1, offer env ev p :: (findAddErase env pending ev).2) := by
        rw [findAddErase]
        simp [hrefuses, offer]
      rw [hstep]
      constructor
      · intro hnot
        obtain ⟨hfind, hall⟩ := hnone fun hmem => hnot (List.mem_cons_of_mem t' hmem)
        rw [hfind]
        exact ⟨rfl, .cons hoffered hall⟩
      · intro hmem
        obtain ⟨ts₁, ts₂, front, q, back, rfl, hq, hfront, hback, hfind⟩ :=
          hsome ((List.mem_cons.mp hmem).resolve_left (Ne.symm ht))
        rw [hfind]
        exact ⟨t' :: ts₁, ts₂, offer env ev p :: front, q, back, rfl, hq, .cons hoffered hfront,
          hback, rfl⟩

end FindAddErase

open Coroutine

variable {guar : Log → Command → Prop} {rely : Log → (c : Command) → c.Response → Prop}
  {St α : Type} [SpanClass St] {h : Log}

theorem keeps_throw {post : Log → α → Prop} (hguar : guar h .terminate) :
    Keeps guar rely post throw h :=
  ⟨hguar, fun e _ => nomatch e⟩

theorem keeps_throwIfEmpty {post : Log → α → Prop} {o : Option α}
    (hnone : o = none → guar h .terminate) (hsome : ∀ a, o = some a → post h a) :
    Keeps guar rely post (throwIfEmpty o) h := by
  cases o with
  | none => exact keeps_throw (hnone rfl)
  | some a => exact hsome a rfl

theorem keeps_whenever {post : Log → Unit → Prop} {c : Bool} {x : Spanning Unit}
    (htrue : c = true → Keeps guar rely post x h) (hfalse : c = false → post h ()) :
    Keeps guar rely post (whenever c x) h := by
  cases c with
  | false => exact hfalse rfl
  | true => exact htrue rfl

variable {env : TraceEnvironment}

theorem keeps_addToSpan {post : Log → Bool × Allocated St → Prop} {s : Allocated St} {ev : Event}
    (hadded : ∀ span, SpanClass.addToSpan env s.span ev = (true, span) →
      guar h (.addEvent s.id ev) ∧
        post (h ++ [⟨.addEvent s.id ev, ()⟩]) (true, ⟨s.id, span⟩))
    (hnot : ∀ span, SpanClass.addToSpan env s.span ev = (false, span) →
      post h (false, ⟨s.id, span⟩)) :
    Keeps guar rely post (addToSpan env s ev) h := by
  unfold addToSpan
  cases hadd : SpanClass.addToSpan env s.span ev with
  | mk added span =>
    cases added with
    | false => exact keeps_pure (hnot span hadd)
    | true => exact ⟨(hadded span hadd).1, fun _ _ => (hadded span hadd).2⟩

theorem keeps_iterateAddErase
    {post : Log → Option (Allocated St) × List (Allocated St) → Prop}
    {pending : List (Allocated St)} {ev : Event}
    (hnone : ∀ rest, findAddErase env pending ev = (none, rest) → post h (none, rest))
    (hsome : ∀ p rest, findAddErase env pending ev = (some p, rest) →
      guar h (.addEvent p.id ev) ∧ post (h ++ [⟨.addEvent p.id ev, ()⟩]) (some p, rest)) :
    Keeps guar rely post (iterateAddErase env pending ev) h := by
  unfold iterateAddErase
  cases hfind : findAddErase env pending ev with
  | mk found rest =>
    cases found with
    | none => exact keeps_pure (hnone rest hfind)
    | some p => exact ⟨(hsome p rest hfind).1, fun _ _ => (hsome p rest hfind).2⟩

theorem keeps_startSpan {post : Log → Allocated St → Prop} {new span : St} {ev : Event}
    {accepted : Bool} (hadd : SpanClass.addToSpan env new ev = (accepted, span))
    (hguar : guar h (.startSpan (SpanClass.type St) ev accepted))
    (hpost : ∀ id : Nat, rely h (.startSpan (SpanClass.type St) ev accepted) id →
      post (h ++ [⟨.startSpan (SpanClass.type St) ev accepted, id⟩]) ⟨id, span⟩) :
    Keeps guar rely post (startSpan env new ev) h := by
  unfold startSpan
  rw [hadd]
  exact ⟨hguar, hpost⟩

theorem keeps_startSpanByParent {post : Log → Allocated St → Prop} {new span : St} {ev : Event}
    {accepted : Bool} {parent : Nat} (hadd : SpanClass.addToSpan env new ev = (accepted, span))
    (hread : guar h (.readParent parent))
    (hstart : ∀ ref : ParentRef, rely h (.readParent parent) ref →
      Keeps guar rely (fun h' (id : Nat) => post h' ⟨id, span⟩)
        (perform (.startSpanByParent (SpanClass.type St) ref ev accepted))
        (h ++ [⟨.readParent parent, ref⟩])) :
    Keeps guar rely post (startSpanByParent env new parent ev) h := by
  unfold startSpanByParent
  rw [hadd]
  refine ⟨hread, fun ref href => ?_⟩
  exact (hstart ref href).bind fun _ _ hpost => keeps_pure hpost

theorem keeps_startSpanByParentPassOnContext {post : Log → Allocated St → Prop} {new span : St}
    {context : Context} {ev : Event} {accepted : Bool}
    (hadd : SpanClass.addToSpan env new ev = (accepted, span))
    (hguar : guar h (.startSpanByParentPassOnContext (SpanClass.type St) context ev accepted))
    (hpost : ∀ id : Nat,
      rely h (.startSpanByParentPassOnContext (SpanClass.type St) context ev accepted) id →
      post (h ++ [⟨.startSpanByParentPassOnContext (SpanClass.type St) context ev accepted, id⟩])
        ⟨id, span⟩) :
    Keeps guar rely post (startSpanByParentPassOnContext env new context ev) h := by
  unfold startSpanByParentPassOnContext
  rw [hadd]
  exact ⟨hguar, hpost⟩

theorem keeps_pushPropagateContext {post : Log → Unit → Prop} {exp : Expectation}
    {dest : Channel} {parent : Nat} (hcreate : guar h (.createPassOnContext exp parent))
    (hpush : ∀ c : Context, rely h (.createPassOnContext exp parent) c →
      guar (h ++ [⟨.createPassOnContext exp parent, c⟩]) (.push dest c) ∧
        post (h ++ [⟨.createPassOnContext exp parent, c⟩] ++ [⟨.push dest c, ()⟩]) ()) :
    Keeps guar rely post (pushPropagateContext exp dest parent) h :=
  ⟨hcreate, fun c hc => ⟨(hpush c hc).1, fun _ _ => (hpush c hc).2⟩⟩

end Spanner

end Columbo
