import Columbo.Duties
import Columbo.SpannerRuns

/-!
# Contexts as messages between two spanners

Two spanners pass contexts on to each other on two channels that nobody else uses. A context
names a span of its sender. What the operations of a spanner do with these contexts are the
deeds of a party, whose duties are those that its events impose.
-/
namespace Columbo

open Coroutine Spanner

def Context.message (c : Context) : Message Nat Expectation := ⟨c.parent.id, c.expectation⟩

/-- A spanner that takes contexts from one channel and puts contexts into another one. -/
structure Party where
  source : Channel
  dest : Channel
  duties : List (Event × Duty Expectation)

namespace Party

/-- The spans noted are those of register accesses of the host, of executed DMA operations of
the NIC and of its interrupts; those attached are their counterparts on the other side. -/
def deed (P : Party) : (c : Command) × c.Response → Option (Deed Event Nat Expectation)
  | ⟨.push dest context, _⟩ => if dest = P.dest then some (.send context.message) else none
  | ⟨.pop source expected, (context : Context)⟩ =>
    if source = P.source then some (.receive expected context.message) else none
  | ⟨.tryPopOnTrue source _, (context : Option Context)⟩ =>
    if source = P.source then context.map fun context => .receive none context.message else none
  | ⟨.startSpanByParent type _ ev _, id⟩ =>
    if type = .kHostMmio ∨ type = .kNicMsix then some (.note id ev) else none
  | ⟨.addEvent id ev, _⟩ => if ev.getType = .kNicDmaExT then some (.note id ev) else none
  | ⟨.startSpanByParentPassOnContext type context ev _, id⟩ =>
    if type = .kHostDma ∨ type = .kHostMsix ∨ type = .kNicMmio then
      some (.attach id ev context.message) else none
  | _ => none

def deeds (P : Party) (h : Log) : List (Deed Event Nat Expectation) := h.filterMap P.deed

/-- The context that arrives next is of the kind that is needed next. -/
def Brings (P : Party) (h : Log) : (c : Command) × c.Response → Prop
  | ⟨.pop source _, (context : Context)⟩ => source = P.source → ∀ kind,
    (awaited P.duties)[(received (P.deeds h)).length]? = some kind → context.expectation = kind
  | _ => True

def rely (P : Party) (h : Log) (c : Command) (r : c.Response) : Prop :=
  freshRely h c r ∧ P.Brings h ⟨c, r⟩

/-- An operation uses the two channels in one direction each, changes the contexts of calls
only, and is in line with the duties. -/
structure Guarantee (P : Party) (h : Log) (c : Command) : Prop where
  dest : c.dest ≠ some P.source
  source : c.source ≠ some P.dest
  target : ∀ x, c.target = some x → x ∈ Log.calls h
  conforms : ∀ r, P.rely h c r → Conforms P.duties (P.deeds (h ++ [⟨c, r⟩]))

/-- An operation that has nothing to do with the other party. -/
structure Aside (P : Party) (h : Log) (c : Command) : Prop where
  dest : c.dest ≠ some P.source
  source : c.source ≠ some P.dest
  target : ∀ x, c.target = some x → x ∈ Log.calls h
  deed : ∀ r, P.deed ⟨c, r⟩ = none

variable {P : Party} {h h' : Log} {c : Command} {α : Type}

@[simp] theorem deeds_append : P.deeds (h ++ h') = P.deeds h ++ P.deeds h' :=
  List.filterMap_append

@[simp] theorem deeds_nil : P.deeds [] = [] := rfl

theorem deeds_concat {r : c.Response} {d : Deed Event Nat Expectation}
    (hdeed : P.deed ⟨c, r⟩ = some d) : P.deeds (h ++ [⟨c, r⟩]) = P.deeds h ++ [d] := by
  rw [deeds_append]
  simp [deeds, hdeed]

theorem deeds_concat_none {r : c.Response} (hdeed : P.deed ⟨c, r⟩ = none) :
    P.deeds (h ++ [⟨c, r⟩]) = P.deeds h := by
  rw [deeds_append]
  simp [deeds, hdeed]

theorem aside_of (hsend : c.dest = none) (htake : c.source = none) (htarget : c.target = none)
    (hdeed : ∀ r, P.deed ⟨c, r⟩ = none) : P.Aside h c := by
  refine ⟨?_, ?_, ?_, hdeed⟩
  · simp [hsend]
  · simp [htake]
  · simp [htarget]

/-- Contexts are taken from another channel. -/
theorem aside_pop {source : Channel} {expected : Option Expectation} (hsource : source ≠ P.source)
    (hdest : source ≠ P.dest) : P.Aside h (.pop source expected) := by
  refine ⟨by simp [Command.dest], by simpa [Command.source] using hdest,
    by simp [Command.target], fun _ => if_neg hsource⟩

/-- The calls stay calls. -/
theorem aside_perform (hc : P.Aside h c) :
    Keeps P.Aside P.rely (fun h' _ => ∀ x ∈ Log.calls h, x ∈ Log.calls h')
      (Spanner.perform c) h := by
  refine keeps_perform hc fun r _ x hx => ?_
  rw [Log.calls_append]
  exact List.mem_append_left _ hx

theorem Aside.guarantee (hc : P.Aside h c) (hconforms : Conforms P.duties (P.deeds h)) :
    P.Guarantee h c :=
  ⟨hc.dest, hc.source, hc.target, fun r _ => (deeds_concat_none (hc.deed r)).symm ▸ hconforms⟩

theorem guarantee_of (hconforms : Conforms P.duties (P.deeds h)) (hsend : c.dest = none)
    (htake : c.source = none) (htarget : c.target = none) (hdeed : ∀ r, P.deed ⟨c, r⟩ = none) :
    P.Guarantee h c := (aside_of hsend htake htarget hdeed).guarantee hconforms

/-- The span of an access or an interrupt is noted when it starts. -/
theorem deeds_start {type : SpanType} (htype : type = .kHostMmio ∨ type = .kNicMsix)
    (h : Log) (parent : Nat) (ref : ParentRef) (ev : Event) (accepted : Bool) (id : Nat) :
    P.deeds (h ++ [⟨.readParent parent, ref⟩] ++
      [⟨.startSpanByParent type ref ev accepted, id⟩]) = P.deeds h ++ [.note id ev] := by
  have hread : P.deeds (h ++ [⟨.readParent parent, ref⟩]) = P.deeds h := deeds_concat_none rfl
  have hdeed : P.deed ⟨.startSpanByParent type ref ev accepted, id⟩ = some (.note id ev) :=
    if_pos htype
  exact (deeds_concat hdeed).trans (congrArg (· ++ [_]) hread)

/-- A part of a handler that has nothing to do with the other party. -/
theorem keeps_aside {post : Log → α → Prop} {x : Spanning α}
    (hx : Keeps P.Aside P.rely post x h) (hconforms : Conforms P.duties (P.deeds h)) :
    Keeps P.Guarantee P.rely (fun h' a => post h' a ∧ P.deeds h' = P.deeds h) x h := by
  induction x generalizing h with
  | pure a => exact ⟨hx, rfl⟩
  | act c k ih =>
    obtain ⟨hc, hrest⟩ := hx
    have hsame : ∀ r : c.Response, P.deeds (h ++ [⟨c, r⟩]) = P.deeds h :=
    fun r => deeds_concat_none (hc.deed r)
    refine ⟨hc.guarantee hconforms, fun r hr => ?_⟩
    refine (ih r (hrest r hr) ((hsame r).symm ▸ hconforms)).mono ?_
    rintro h' a ⟨hpost, hdeeds⟩
    exact ⟨hpost, hdeeds.trans (hsame r)⟩

variable {duties : List (Event × Duty Expectation)} {done : List (Deed Event Nat Expectation)}
  {ev : Event} {exp : Expectation} {span : Nat}

/-- After these duties comes this one. -/
def Faces (P : Party) (duties : List (Event × Duty Expectation)) (ev : Event)
    (duty : Duty Expectation) : Prop :=
  ∃ rest, P.duties = duties ++ (ev, duty) :: rest

theorem Faces.conforms_starts {duty : Duty Expectation} {l : List (Deed Event Nat Expectation)}
    (hfaces : P.Faces duties ev duty) (hdone : Done duties done) (hstarts : Starts ev duty l) :
    Conforms P.duties (done ++ l) := by
  obtain ⟨rest, hduties⟩ := hfaces
  exact hduties ▸ .starts hdone hstarts

theorem Faces.conforms_concat {duty : Duty Expectation} (hfaces : P.Faces duties ev duty)
    (hdone : Done (duties ++ [(ev, duty)]) done) : Conforms P.duties done := by
  obtain ⟨rest, hduties⟩ := hfaces
  have hsplit : P.duties = (duties ++ [(ev, duty)]) ++ rest := by simpa using hduties
  exact hsplit ▸ .done hdone

theorem starts_attach {context : Context} (hexp : context.expectation = exp) :
    Starts ev (.attach exp) [.receive (some exp) context.message] := by
  subst hexp
  exact .attach (m := context.message)

/-- The context that the duty needs. -/
theorem keeps_receive (hne : P.source ≠ P.dest) (hfaces : P.Faces duties ev (.attach exp))
    (hdone : Done duties (P.deeds h)) :
    Keeps P.Guarantee P.rely (fun h' context => context.expectation = exp ∧
        P.deeds h' = P.deeds h ++ [.receive (some exp) context.message])
      (popPropagateContext P.source (some exp)) h := by
  have hreceive : ∀ context : Context, P.rely h (.pop P.source (some exp)) context →
      context.expectation = exp ∧ P.deeds (h ++ [⟨.pop P.source (some exp), context⟩]) =
        P.deeds h ++ [.receive (some exp) context.message] := by
    rintro context ⟨-, hbrings⟩
    refine ⟨hbrings rfl exp ?_, ?_⟩
    · obtain ⟨rest, hduties⟩ := hfaces
      rw [hduties, awaited_append, hdone.length_received]
      simp [awaited]
    · have hdeed : P.deed ⟨.pop P.source (some exp), context⟩ =
          some (.receive (some exp) context.message) := if_pos rfl
      exact deeds_concat hdeed
  refine ⟨⟨by simp [Command.dest], by simpa [Command.source] using hne,
    by simp [Command.target], fun context hcontext => ?_⟩, hreceive⟩
  obtain ⟨hexp, hdeeds⟩ := hreceive context hcontext
  have hconforms := hfaces.conforms_starts hdone (starts_attach hexp)
  rwa [← hdeeds] at hconforms

/-- A span starts with the context that was taken for it. -/
theorem keeps_attach {St : Type} [SpanClass St] {env : TraceEnvironment} {new : St}
    {context : Context} (htype : SpanClass.type St = .kHostDma ∨ SpanClass.type St = .kHostMsix ∨
      SpanClass.type St = .kNicMmio) (hfaces : P.Faces duties ev (.attach context.expectation))
    (hdone : Done duties done)
    (hdeeds : P.deeds h = done ++ [.receive (some context.expectation) context.message]) :
    Keeps P.Guarantee P.rely (fun h' s =>
        Done (duties ++ [(ev, .attach context.expectation)]) (P.deeds h') ∧
          SpanClass.addToSpan env new ev = (true, s.span))
      (startSpanByParentPassOnContext env new context ev) h := by
  cases hadd : SpanClass.addToSpan env new ev with
  | mk accepted span =>
    have hall : ∀ id : Nat, Done (duties ++ [(ev, .attach context.expectation)]) (P.deeds (h ++
        [⟨.startSpanByParentPassOnContext (SpanClass.type St) context ev accepted, id⟩])) := by
      intro id
      have hconcat : P.deeds (h ++
          [⟨.startSpanByParentPassOnContext (SpanClass.type St) context ev accepted, id⟩]) =
            done ++ [.receive (some context.expectation) context.message,
              .attach id ev context.message] := by
        have hdeed : P.deed ⟨.startSpanByParentPassOnContext (SpanClass.type St) context ev accepted,
            id⟩ = some (.attach id ev context.message) := if_pos htype
        refine (deeds_concat hdeed).trans ?_
        rw [hdeeds, List.append_assoc]
        rfl
      exact hconcat ▸ .concat hdone (.attach (m := context.message))
    refine keeps_startSpanByParentPassOnContext hadd ?_ fun id hid => ⟨hall id, ?_⟩
    · exact ⟨by simp [Command.dest], by simp [Command.source], by simp [Command.target],
        fun id _ => hfaces.conforms_concat (hall id)⟩
    · have haccepted : accepted = true := World.accepted_of_possible hid.1.1
      rw [haccepted]

/-- The context of a noted span is passed on. -/
theorem keeps_announce (hne : P.source ≠ P.dest) (hfaces : P.Faces duties ev (.announce exp))
    (hdone : Done duties done) (hdeeds : P.deeds h = done ++ [.note span ev]) :
    Keeps P.Guarantee P.rely
      (fun h' _ => Done (duties ++ [(ev, .announce exp)]) (P.deeds h'))
      (pushPropagateContext exp P.dest span) h := by
  have hcreate : ∀ context : Context,
      P.deeds (h ++ [⟨.createPassOnContext exp span, context⟩]) = done ++ [.note span ev] := by
    intro context
    exact (deeds_concat_none rfl).trans hdeeds
  have hpush : ∀ context : Context, P.rely h (.createPassOnContext exp span) context →
      Done (duties ++ [(ev, .announce exp)]) (P.deeds (h ++
        [⟨.createPassOnContext exp span, context⟩] ++ [⟨.push P.dest context, ()⟩])) := by
    rintro context ⟨⟨hpossible, -⟩, -⟩
    obtain ⟨rfl, hparent⟩ := World.passOn_of_possible hpossible
    have hconcat : P.deeds (h ++ [⟨.createPassOnContext context.expectation span, context⟩] ++
        [⟨.push P.dest context, ()⟩]) = done ++ [.note span ev, .send context.message] := by
      have hdeed : P.deed ⟨.push P.dest context, ()⟩ = some (.send context.message) := if_pos rfl
      refine (deeds_concat hdeed).trans ?_
      rw [hcreate, List.append_assoc]
      rfl
    exact hconcat ▸ .concat hdone (.announce (m := context.message) hparent)
  refine keeps_pushPropagateContext ?_ fun context hcontext => ⟨?_, hpush context hcontext⟩
  · refine ⟨by simp [Command.dest], by simp [Command.source], by simp [Command.target],
      fun context _ => ?_⟩
    have hstarts : Starts ev (.announce exp) [.note span ev] := .announce
    have hconforms := hfaces.conforms_starts hdone hstarts
    rwa [← hcreate context] at hconforms
  · exact ⟨by simpa [Command.dest] using hne.symm, by simp [Command.source],
      by simp [Command.target], fun _ _ => hfaces.conforms_concat (hpush context hcontext)⟩

end Party

end Columbo
