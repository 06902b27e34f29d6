import Columbo.HostContexts
import Columbo.NicContexts

/-!
# Contexts between a host and its NIC

A host and a NIC share two channels of contexts. The contexts carry no identifier of the
operation that they are for; what relates the operations is their order on both sides. In
all interleavings, the spans that start with a context become children of the spans of
the other side that they belong to.
-/
namespace Columbo

open Coroutine Spanner

inductive Side
  | host
  | nic
  deriving DecidableEq

def Side.other : Side → Side
  | .host => .nic
  | .nic => .host

theorem Side.other_other (i : Side) : i.other.other = i := by cases i <;> rfl

theorem Side.eq_or_eq_other (i j : Side) : j = i ∨ j = i.other := by
  cases i <;> cases j <;> simp [other]

theorem Side.other_ne (i : Side) : i.other ≠ i := by cases i <;> simp [other]

/-- Each party takes what the other one puts into the channel, and needs the contexts that
the other one has to pass on. -/
structure Linked (P : Side → Party) : Prop where
  channel : ∀ i, (P i.other).dest = (P i).source
  apart : ∀ i, (P i).source ≠ (P i).dest
  kinds : ∀ i, awaited (P i).duties = announced (P i.other).duties

/-- The state of two parties: every context that was passed on was taken or is still in the
channel, and a span that started with a context is a child of the span that it names. -/
structure Matching (P : Side → Party) (w : World) (h : Side → Log) : Prop where
  separate : Separate w h
  conforms : ∀ i, Conforms (P i).duties ((P i).deeds (h i))
  queue : ∀ i, Log.popped (P i).source (h i) ++ w.channels (P i).source =
    Log.pushed (P i).source (h i.other)
  contexts : w.tracer.ContextsCreated
  parents : ∀ i, ∀ a ∈ attached ((P i).deeds (h i)), w.tracer.OwnParent a.1 (some a.2.2.origin)

theorem Log.calls_created {h : Log} {x : Nat} (hx : x ∈ h.calls) : x ∈ h.created := by
  obtain ⟨⟨c, r⟩, hc, hcall⟩ := List.mem_filterMap.mp hx
  refine List.mem_filterMap.mpr ⟨_, hc, ?_⟩
  cases c with
  | startSpan | cloneShared => exact hcall
  | _ => cases hcall

/-- Different operations create different spans. -/
theorem Log.created_ne {h : Log} (hnodup : h.created.Nodup) {e e' : (c : Command) × c.Response}
    (he : e ∈ h) (he' : e' ∈ h) (hne : e ≠ e') {x y : Nat} (hx : e.1.created e.2 = some x)
    (hy : e'.1.created e'.2 = some y) : x ≠ y := by
  have hsymm : Std.Symm fun e e' : (c : Command) × c.Response =>
      ∀ b, e.1.created e.2 = some b → ∀ b', e'.1.created e'.2 = some b' → b ≠ b' :=
    ⟨fun e e' h b hb b' hb' => (h b' hb' b hb).symm⟩
  exact (List.pairwise_filterMap.mp hnodup).forall he he' hne x hx y hy

theorem Log.pushed_of_ne {c : Command} {r : c.Response} {q : Channel} (hdest : c.dest ≠ some q) :
    Log.pushed q [⟨c, r⟩] = [] := by
  cases c with
  | push dest context =>
    have hne : dest ≠ q := by simpa [Command.dest] using hdest
    simp [Log.pushed, hne]
  | _ => rfl

theorem Log.popped_of_ne {c : Command} {r : c.Response} {q : Channel}
    (hsource : c.source ≠ some q) : Log.popped q [⟨c, r⟩] = [] := by
  cases c with
  | pop source expected | tryPopOnTrue source start =>
    have hne : source ≠ q := by simpa [Command.source] using hsource
    simp [Log.popped, hne]
  | _ => rfl

namespace Party

variable {P : Party} {h : Log} {c : Command} {r : c.Response}

/-- An operation on no channel is at most a note or an attachment. -/
theorem deed_apart (P : Party) {c : Command} (hsend : c.dest = none) (htake : c.source = none)
    (r : c.Response) : P.deed ⟨c, r⟩ = none ∨ (∃ span ev, P.deed ⟨c, r⟩ = some (.note span ev)) ∨
      ∃ span ev m, P.deed ⟨c, r⟩ = some (.attach span ev m) := by
  cases c with
  | push dest context => cases hsend
  | pop source expected => cases htake
  | tryPopOnTrue source start => cases htake
  | startSpanByParent type ref ev accepted =>
    simp only [deed]
    split_ifs
    · exact .inr (.inl ⟨_, _, rfl⟩)
    · exact .inl rfl
  | addEvent span ev =>
    simp only [deed]
    split_ifs
    · exact .inr (.inl ⟨_, _, rfl⟩)
    · exact .inl rfl
  | startSpanByParentPassOnContext type context ev accepted =>
    simp only [deed]
    split_ifs
    · exact .inr (.inr ⟨_, _, _, rfl⟩)
    · exact .inl rfl
  | _ => exact .inl rfl

theorem received_deeds : received (P.deeds h) = (Log.popped P.source h).map Context.message := by
  unfold received deeds Log.popped
  rw [List.filterMap_filterMap, List.map_filterMap]
  refine List.filterMap_congr fun ⟨c, r⟩ _ => ?_
  cases c with
  | pop source expected =>
    by_cases hsource : source = P.source
    · subst hsource
      simp only [deed, if_true]
      rfl
    · simp [deed, hsource]
  | tryPopOnTrue source start =>
    by_cases hsource : source = P.source
    · cases r <;> simp [deed, hsource]
    · simp [deed, hsource]
  | push dest context => by_cases hdest : dest = P.dest <;> simp [deed, hdest]
  | _ => rcases P.deed_apart rfl rfl r with hd | ⟨_, _, hd⟩ | ⟨_, _, _, hd⟩ <;> (rw [hd]; rfl)

theorem sent_deeds : sent (P.deeds h) = (Log.pushed P.dest h).map Context.message := by
  unfold sent deeds Log.pushed
  rw [List.filterMap_filterMap, List.map_filterMap]
  refine List.filterMap_congr fun ⟨c, r⟩ _ => ?_
  cases c with
  | pop source expected =>
    simp only [deed]
    split_ifs <;> rfl
  | tryPopOnTrue source start =>
    by_cases hsource : source = P.source
    · cases r <;> simp [deed, hsource]
    · simp [deed, hsource]
  | push dest context => by_cases hdest : dest = P.dest <;> simp [deed, hdest]
  | _ => rcases P.deed_apart rfl rfl r with hd | ⟨_, _, hd⟩ | ⟨_, _, _, hd⟩ <;> (rw [hd]; rfl)

/-- The operation that attached a span to a context. -/
theorem operation_of_attached {a : Nat × Event × Message Nat Expectation}
    (ha : a ∈ attached (P.deeds h)) : ∃ type context accepted,
      ⟨.startSpanByParentPassOnContext type context a.2.1 accepted, a.1⟩ ∈ h ∧
        a.2.2 = context.message := by
  obtain ⟨d, hd, hattach⟩ := List.mem_filterMap.mp ha
  obtain ⟨⟨c, r⟩, he, hdeed⟩ := List.mem_filterMap.mp hd
  cases d with
  | attach span ev m =>
    obtain rfl := Option.some.inj hattach
    cases c with
    | startSpanByParentPassOnContext type context ev' accepted =>
      simp only [deed] at hdeed
      split_ifs at hdeed
      obtain ⟨rfl, rfl, rfl⟩ := Deed.attach.inj (Option.some.inj hdeed)
      exact ⟨type, context, accepted, he, rfl⟩
    | tryPopOnTrue source start =>
      cases r <;> simp [deed] at hdeed
    | push | pop | startSpanByParent | addEvent =>
      simp only [deed] at hdeed
      split_ifs at hdeed
      cases Option.some.inj hdeed
    | _ => cases hdeed
  | _ => cases hattach

theorem mem_created_of_attached {a : Nat × Event × Message Nat Expectation}
    (ha : a ∈ attached (P.deeds h)) : a.1 ∈ Log.created h := by
  obtain ⟨type, context, accepted, he, -⟩ := operation_of_attached ha
  exact List.mem_filterMap.mpr ⟨_, he, rfl⟩

/-- The calls are other spans than those that start with a context. -/
theorem ne_of_calls {a : Nat × Event × Message Nat Expectation} {x : Nat}
    (hnodup : (Log.created h).Nodup) (hx : x ∈ Log.calls h) (ha : a ∈ attached (P.deeds h)) :
    x ≠ a.1 := by
  obtain ⟨type, context, accepted, he, -⟩ := operation_of_attached ha
  obtain ⟨⟨c, r⟩, hc, hcall⟩ := List.mem_filterMap.mp hx
  cases c with
  | startSpan | cloneShared =>
    obtain rfl := Option.some.inj hcall
    exact Log.created_ne hnodup hc he (fun heq => nomatch heq) rfl rfl
  | _ => cases hcall

end Party

/-- In the history `h`, no context of another kind than expected was taken; the `k`-th span
that started with a context did so for the `k`-th event that needs one, and is a child of the
`k`-th span that the other side, with the history `h'`, passes on. That one is of the `k`-th
event that is announced. -/
structure InOrder (P P' : Party) (h h' : Log) (t : Tracer) : Prop where
  expected : ∀ (exp : Expectation) (context : Context),
    ⟨.pop P.source (some exp), context⟩ ∈ h → context.expectation = exp
  attachers : (attached (P.deeds h)).map (·.2.1) <+: attachers P.duties
  announcers : (named P'.duties (P'.deeds h')).map Prod.snd <+: announcers P'.duties
  parents : ∀ (k span : Nat) (ev : Event) (m : Message Nat Expectation),
    (attached (P.deeds h))[k]? = some (span, ev, m) → ∃ (parent : Nat) (ev' : Event),
      (named P'.duties (P'.deeds h'))[k]? = some (parent, ev') ∧ t.parentOf span = some parent

namespace Matching

variable {P : Side → Party} {w w' : World} {h : Side → Log} {c : Command} {r : c.Response}
  {i : Side}

/-- What a party received was sent by the other one. -/
theorem received_prefix (hlink : Linked P) (hm : Matching P w h) (i : Side) :
    received ((P i).deeds (h i)) <+: sent ((P i.other).deeds (h i.other)) := by
  rw [Party.received_deeds, Party.sent_deeds, hlink.channel i, ← hm.queue i, List.map_append]
  exact List.prefix_append _ _

/-- A party gets the context that it needs next. -/
theorem brings_pop (hlink : Linked P) (hm : Matching P w h) {expected : Option Expectation}
    {context : Context} (hexec : w.exec (.pop (P i).source expected) = some (context, w'))
    {kind : Expectation}
    (hnext : (awaited (P i).duties)[(received ((P i).deeds (h i))).length]? = some kind) :
    context.expectation = kind := by
  have hqueue : w.channels (P i).source = [context] ++ w'.channels (P i).source := by
    simpa [Log.pushed, Log.popped] using World.exec_queue (q := (P i).source) hexec
  have hall : received ((P i).deeds (h i)) ++ [context.message] <+:
      sent ((P i.other).deeds (h i.other)) := by
    rw [Party.received_deeds, Party.sent_deeds, hlink.channel i, ← hm.queue i, hqueue]
    exact ⟨(w'.channels (P i).source).map Context.message, by simp⟩
  exact (hm.conforms i.other).next_kind (hlink.kinds i) hall hnext

theorem brings (hlink : Linked P) (hm : Matching P w h) (hexec : w.exec c = some (r, w')) :
    (P i).Brings (h i) ⟨c, r⟩ := by
  cases c with
  | pop source expected =>
    rintro rfl kind hnext
    exact hm.brings_pop hlink hexec hnext
  | _ => trivial

/-- The parents stay, whoever performs the operation. -/
theorem parents_kept (hm : Matching P w h) (hexec : w.exec c = some (r, w'))
    (htarget : ∀ x, c.target = some x → ∀ j, ∀ a ∈ attached ((P j).deeds (h j)), x ≠ a.1)
    (j : Side) (a : Nat × Event × Message Nat Expectation)
    (ha : a ∈ attached ((P j).deeds (h j))) : w'.tracer.OwnParent a.1 (some a.2.2.origin) := by
  refine (World.exec_tracerStep hexec).ownParent hm.contexts (hm.parents j a ha) fun hsame => ?_
  exact htarget a.1 hsame j a ha rfl

/-- An operation that does not use the channel leaves it as it is. -/
theorem channel_same {q : Channel} (hexec : w.exec c = some (r, w')) (hdest : c.dest ≠ some q)
    (hsource : c.source ≠ some q) : w'.channels q = w.channels q := by
  have hqueue := World.exec_queue (q := q) hexec
  rw [Log.pushed_of_ne hdest, Log.popped_of_ne hsource, List.append_nil] at hqueue
  exact hqueue.symm

/-- Others use neither the channels nor the spans of the parties. -/
theorem outside (hm : Matching P w h)
    (hbesides : ∀ i, c.dest ≠ some (P i).source ∧ c.source ≠ some (P i).source)
    (htarget : ∀ x, c.target = some x → ∀ i, x ∉ (h i).created)
    (hexec : w.exec c = some (r, w')) : Matching P w' h := by
  refine ⟨hm.separate.outside hexec, hm.conforms, fun i => ?_, ?_, ?_⟩
  · rw [channel_same hexec (hbesides i).1 (hbesides i).2]
    exact hm.queue i
  · exact (World.exec_tracerStep hexec).contextsCreated hm.contexts
  · refine hm.parents_kept hexec fun x hx j a ha heq => ?_
    exact htarget x hx j (heq ▸ Party.mem_created_of_attached ha)

/-- What a party takes comes from the front of its channel, and what it puts into the other
channel comes to the end of that. -/
theorem exec_queue (hlink : Linked P) (hm : Matching P w h) (hguar : (P i).Guarantee (h i) c)
    (hexec : w.exec c = some (r, w')) (j : Side) :
    Log.popped (P j).source (Function.update h i (h i ++ [⟨c, r⟩]) j) ++ w'.channels (P j).source =
      Log.pushed (P j).source (Function.update h i (h i ++ [⟨c, r⟩]) j.other) := by
  have hqueue := World.exec_queue (q := (P j).source) hexec
  obtain rfl | rfl := i.eq_or_eq_other j
  · rw [Log.pushed_of_ne hguar.dest, List.append_nil] at hqueue
    rw [Function.update_self, Function.update_of_ne j.other_ne, Log.popped_append, List.append_assoc,
      ← hqueue]
    exact hm.queue j
  · have hchannel : (P i.other).source = (P i).dest := by
      have hother := hlink.channel i.other
      rw [i.other_other] at hother
      exact hother.symm
    have hpopped : Log.popped (P i.other).source [⟨c, r⟩] = [] := by
      rw [hchannel]
      exact Log.popped_of_ne hguar.source
    rw [hpopped, List.nil_append] at hqueue
    rw [i.other_other, Function.update_self, Function.update_of_ne i.other_ne, Log.pushed_append,
      ← hqueue, ← List.append_assoc, hm.queue i.other, i.other_other]

/-- The operations of a party change the contexts of calls only. -/
theorem target_ne (hm : Matching P w h) (hguar : (P i).Guarantee (h i) c) {x : Nat}
    (hx : c.target = some x) (j : Side) {a : Nat × Event × Message Nat Expectation}
    (ha : a ∈ attached ((P j).deeds (h j))) : x ≠ a.1 := by
  have hcall := hguar.target x hx
  obtain rfl | rfl := i.eq_or_eq_other j
  · exact Party.ne_of_calls (hm.separate.nodup j) hcall ha
  · rintro rfl
    exact hm.separate.disjoint i.other i i.other_ne (Party.mem_created_of_attached ha)
      (Log.calls_created hcall)

/-- A party that keeps its guarantee gets what it relies on. -/
theorem exec (hlink : Linked P) (hm : Matching P w h) (hguar : (P i).Guarantee (h i) c)
    (hexec : w.exec c = some (r, w')) :
    (P i).rely (h i) c r ∧ Matching P w' (Function.update h i (h i ++ [⟨c, r⟩])) := by
  obtain ⟨hfresh, hseparate⟩ := hm.separate.exec (i := i) hexec
  have hrely : (P i).rely (h i) c r := ⟨hfresh, hm.brings hlink hexec⟩
  have hkept := hm.parents_kept hexec fun x hx j a ha => hm.target_ne hguar hx j ha
  refine ⟨hrely, hseparate, fun j => ?_, hm.exec_queue hlink hguar hexec, ?_, fun j a ha => ?_⟩
  · obtain rfl | rfl := i.eq_or_eq_other j
    · simpa using hguar.conforms r hrely
    · simpa [i.other_ne] using hm.conforms i.other
  · exact (World.exec_tracerStep hexec).contextsCreated hm.contexts
  · obtain rfl | rfl := i.eq_or_eq_other j
    · rw [Function.update_self, Party.deeds_append, attached_append] at ha
      rcases List.mem_append.mp ha with hold | hnew
      · exact hkept j a hold
      · obtain ⟨type, context, accepted, he, hmessage⟩ := Party.operation_of_attached hnew
        cases List.mem_singleton.mp he
        rw [hmessage]
        exact World.exec_passOn hm.contexts hexec
    · rw [Function.update_of_ne i.other_ne] at ha
      exact hkept i.other a ha

theorem expected (hm : Matching P w h) {exp : Expectation} {context : Context}
    (hpop : ⟨.pop (P i).source (some exp), context⟩ ∈ h i) : context.expectation = exp := by
  refine (hm.conforms i).ordered.expected exp context.message ?_
  exact List.mem_filterMap.mpr ⟨_, hpop, if_pos rfl⟩

/-- Both sides did what belongs together in the same order. -/
theorem inOrder (hlink : Linked P) (hm : Matching P w h) (i : Side) :
    InOrder (P i) (P i.other) (h i) (h i.other) w.tracer := by
  have hordered := (hm.conforms i).ordered
  refine ⟨fun exp context => hm.expected, hordered.attachers, (hm.conforms i.other).ordered.announcers,
    fun k span ev m ha => ?_⟩
  obtain ⟨ev', hnamed⟩ := (hm.conforms i).attached_named (hm.conforms i.other)
    (hm.received_prefix hlink i) ha
  exact ⟨m.origin, ev', hnamed, (hm.parents i _ (List.mem_of_getElem? ha)).parentOf⟩

end Matching

/-- A host and a NIC with their channels, and the events of both. -/
structure HostNic where
  hostQueues : HostQueues
  nicQueues : NicQueues
  hostEvents : List Event
  nicEvents : List Event

namespace HostNic

variable (env : TraceEnvironment) (hn : HostNic)

def setup : Side → Setup
  | .host => .host hn.hostQueues hn.hostEvents
  | .nic => .nic hn.nicQueues hn.nicEvents

def party : Side → Party
  | .host => HostSpanner.party env hn.hostQueues hn.hostEvents
  | .nic => NicSpanner.party hn.nicQueues hn.nicEvents

/-- The two channels between them serve nothing else. -/
structure Connected : Prop where
  toNic : hn.nicQueues.fromHost = hn.hostQueues.toNic
  fromNic : hn.nicQueues.toHost = hn.hostQueues.fromNic
  host : HostSpanner.Apart hn.hostQueues
  nic : NicSpanner.Apart hn.nicQueues

/-- The events of both sides belong together: there are as many accesses to the device on
both sides, the DMA operations and interrupts are of the same kinds in the same order, every
completion at the host completes an operation of its own, and every execution at the NIC
is for an issue of its own. -/
structure Corresponds : Prop where
  mmios : (announced (hostDuties env hn.hostEvents)).length = (awaited (nicDuties hn.nicEvents)).length
  dmas : awaited (hostDuties env hn.hostEvents) = announced (nicDuties hn.nicEvents)
  completions : HostOrderly hn.hostEvents
  executions : NicOrderly hn.nicEvents

/-- Others use neither the two channels nor the spans of the two spanners. -/
def besides (s : SystemState Side) : Move Side Command → Prop
  | .act _ => True
  | .environment c =>
    (c.dest ≠ some hn.hostQueues.toNic ∧ c.source ≠ some hn.hostQueues.toNic) ∧
      (c.dest ≠ some hn.hostQueues.fromNic ∧ c.source ≠ some hn.hostQueues.fromNic) ∧
      ∀ x ∈ c.target, x ∉ Log.created (s.history .host) ∧ x ∉ Log.created (s.history .nic)

instance (s : SystemState Side) (move : Move Side Command) : Decidable (hn.besides s move) :=
  match move with
  | .act _ => isTrue trivial
  | .environment _ => inferInstanceAs (Decidable (_ ∧ _))

variable {env} {hn}

theorem mem_hostDutiesFrom {s : Option HostCallSpan × Bool} {evs : List Event} {ev : Event}
    {duty : Duty Expectation} (h : (ev, duty) ∈ hostDutiesFrom env s evs) :
    ∃ pciWriteBefore, hostDuty pciWriteBefore ev = some duty := by
  induction evs generalizing s with
  | nil => cases h
  | cons first evs ih =>
    rcases List.mem_append.mp h with hnew | hrest
    · obtain ⟨duty', hduty, heq⟩ := Option.map_eq_some_iff.mp (Option.mem_toList.mp hnew)
      obtain ⟨rfl, rfl⟩ := Prod.mk.inj heq
      exact ⟨s.2, hduty⟩
    · exact ih hrest

/-- A host passes contexts on for register accesses only. -/
theorem announced_hostDuties {kind : Expectation} {evs : List Event}
    (hkind : kind ∈ announced (hostDuties env evs)) : kind = .kMmio := by
  obtain ⟨ev, hmem⟩ := mem_announced hkind
  obtain ⟨pciWriteBefore, hduty⟩ := mem_hostDutiesFrom hmem
  unfold hostDuty at hduty
  split at hduty
  · split_ifs at hduty <;> simp_all
  · split_ifs at hduty <;> simp_all
  · cases hduty
  · cases hduty
  · cases hduty
  · cases hduty

/-- A NIC needs contexts for register accesses only. -/
theorem awaited_nicDuties {kind : Expectation} {evs : List Event}
    (hkind : kind ∈ awaited (nicDuties evs)) : kind = .kMmio := by
  obtain ⟨ev, hmem⟩ := mem_awaited hkind
  obtain ⟨ev', -, hduty⟩ := List.mem_filterMap.mp hmem
  obtain ⟨duty, hduty, heq⟩ := Option.map_eq_some_iff.mp hduty
  obtain ⟨rfl, rfl⟩ := Prod.mk.inj heq
  unfold nicDuty at hduty
  split at hduty <;> cases hduty <;> rfl

theorem linked (hconnected : hn.Connected) (hcorresponds : hn.Corresponds env) :
    Linked (hn.party env) := by
  refine ⟨fun i => ?_, fun i => ?_, fun i => ?_⟩
  · cases i with
    | host => exact hconnected.fromNic
    | nic => exact hconnected.toNic.symm
  · cases i with
    | host => exact hconnected.host.toNic
    | nic => exact hconnected.nic.toHost
  · cases i with
    | host => exact hcorresponds.dmas
    | nic =>
      have hneeded := List.eq_replicate_of_mem fun kind (hkind : kind ∈ awaited (nicDuties
        hn.nicEvents)) => awaited_nicDuties hkind
      have hgiven := List.eq_replicate_of_mem fun kind (hkind : kind ∈ announced (hostDuties env
        hn.hostEvents)) => announced_hostDuties hkind
      change awaited (nicDuties hn.nicEvents) = announced (hostDuties env hn.hostEvents)
      rw [hneeded, hgiven, hcorresponds.mmios]

/-- In every run, the register accesses of the host belong to those of the NIC, and the
executed DMA operations and interrupts of the NIC to those of the host. -/
theorem matched {rounds : Nat} (hconnected : hn.Connected) (hcorresponds : hn.Corresponds env)
    {s : SystemState Side} (hs : Transition.Reachable SystemState.step hn.besides
      (SystemState.start env rounds hn.setup World.init) s) (i : Side) :
    InOrder (hn.party env i) (hn.party env i.other) (s.history i) (s.history i.other)
      s.world.tracer := by
  have hlink := linked hconnected hcorresponds
  have hguarded : Guarded (fun i => (hn.party env i).Guarantee) (fun i => (hn.party env i).rely)
      (fun _ _ _ => True) (Matching (hn.party env)) s := by
    refine Guarded.reachable (fun hm hguar hexec => hm.exec hlink hguar hexec) ?_ ⟨?_, ?_⟩ hs
    · rintro s c w' ⟨htoNic, hfromNic, htarget⟩ hm houtside
      obtain ⟨⟨r, w₁⟩, hexec, rfl⟩ := Option.map_eq_some_iff.mp houtside
      refine hm.outside (fun i => ?_) (fun x hx i => ?_) hexec
      · cases i with
        | host => exact hfromNic
        | nic =>
          have hsource : (hn.party env .nic).source = hn.hostQueues.toNic := hconnected.toNic
          rw [hsource]
          exact htoNic
      · cases i with
        | host => exact (htarget x hx).1
        | nic => exact (htarget x hx).2
    · refine ⟨⟨fun i id hid => (nomatch hid), fun i => .nil, fun i j _ id hid => (nomatch hid)⟩,
        fun i => ?_, fun i => rfl, ?_, fun i a ha => (nomatch ha)⟩
      · exact .done .nil
      · exact fun _ => Nat.one_pos
    · rintro (_ | _)
      · exact keeps_bind ((HostSpanner.follows_consumeAll hconnected.host
          hcorresponds.completions).mono fun _ _ _ => keeps_pure trivial)
      · exact keeps_bind ((NicSpanner.follows_consumeAll hconnected.nic
          hcorresponds.executions).mono fun _ _ _ => keeps_pure trivial)
  exact hguarded.1.inOrder hlink i

/-- A call with a register access; the NIC then reads from the memory and interrupts. -/
def registerDmaInterrupt : HostNic where
  hostQueues := ⟨0, 1, 2⟩
  nicQueues := ⟨3, 4, 1, 0, 2⟩
  hostEvents := [⟨1, 0, [], .hostCall 64 none none⟩, ⟨2, 0, [], .hostMmioW 7 4096 4 0 0 false⟩,
    ⟨20, 0, [], .hostDmaR 5 8192 64⟩, ⟨30, 0, [], .hostMsiX 1⟩]
  nicEvents := [⟨10, 1, [], .nicMmioW 0 4 1 false⟩, ⟨11, 1, [], .nicDmaI 3 8192 64⟩,
    ⟨12, 1, [], .nicDmaEx 3 8192 64⟩, ⟨25, 1, [], .nicMsix 1 true⟩]

theorem matched_registerDmaInterrupt : ∃ s : SystemState Side,
    (attached ((registerDmaInterrupt.party noNames .host).deeds (s.history .host))).length = 2 ∧
      InOrder (registerDmaInterrupt.party noNames .host) (registerDmaInterrupt.party noNames .nic)
        (s.history .host) (s.history .nic) s.world.tracer := by
  have hrun : ∃ s : SystemState Side, Transition.follow SystemState.step registerDmaInterrupt.besides
      (SystemState.start noNames 0 registerDmaInterrupt.setup World.init)
      (List.replicate 6 (.act .host) ++ List.replicate 13 (.act .nic) ++
        List.replicate 4 (.act .host)) = some s ∧
      (attached ((registerDmaInterrupt.party noNames .host).deeds (s.history .host))).length = 2 :=
    ⟨_, rfl, rfl⟩
  obtain ⟨s, hs, hattached⟩ := hrun
  refine ⟨s, hattached, matched (i := .host) ?_ ?_ (Transition.Reachable.refl.follow hs)⟩
  · exact ⟨rfl, rfl, ⟨by decide, by decide, by decide⟩, ⟨by decide, by decide, by decide, by decide⟩⟩
  · exact ⟨by decide, by decide, by decide, by decide⟩

end HostNic

end Columbo
