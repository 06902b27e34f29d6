import Columbo.SpannerRuns

/-!
# Contexts of received packets

A call that received packets gets the contexts that the NIC pushed for them, the first one
itself and the others on copies of it. The copies share the context object of the call
until they get one of their own.
-/
namespace Columbo

open Coroutine

namespace Tracer

/-- The spans `mine` start at `startTs`. Of these, `group` share one context object with each
other and with no one else, and the rest share with no one. Those in `done` have the given
parents. -/
structure Sharing (t : Tracer) (startTs : Nat) (mine group : List Nat)
    (done : List (Nat × Parent)) : Prop where
  contexts : t.ContextsCreated
  spans : ∀ id ∈ mine, id < t.nextSpanId ∧ (t.spans id).startingTs = startTs
  apart : ∀ id ∈ mine, ∀ s, (t.spans s).context = (t.spans id).context →
    s = id ∨ s ∈ group ∧ id ∈ group
  parents : ∀ x ∈ done, x.1 ∈ mine ∧ (t.contextOf x.1).parent = some x.2

theorem setContext_isSome {t : Tracer} {span context : Nat} {p : Parent}
    (h : p.startTs ≤ (t.spans span).startingTs) : (t.setContext span context p).isSome := by
  unfold setContext
  rw [if_neg (Nat.not_lt.mpr h)]
  rfl

namespace Sharing

variable {t t' : Tracer} {startTs call id : Nat} {mine group : List Nat}
  {done : List (Nat × Parent)}

theorem differAt (h : Sharing t startTs mine group done) {context : Nat}
    (hdiffer : DifferAt context t t')
    (hdone : ∀ x ∈ done, (t.spans x.1).context ≠ context) : Sharing t' startTs mine group done := by
  refine ⟨hdiffer.contextsCreated h.contexts, fun id hid => ?_, ?_, fun x hx => ?_⟩
  · rw [hdiffer.nextSpanId, hdiffer.spans]
    exact h.spans id hid
  · rw [hdiffer.spans]
    exact h.apart
  · refine ⟨(h.parents x hx).1, ?_⟩
    unfold contextOf
    rw [hdiffer.spans, hdiffer.parents _ (hdone x hx)]
    exact (h.parents x hx).2

/-- Operations that name no target leave the spans alone. -/
theorem step {created : Option Nat} (h : Sharing t startTs mine group done)
    (hstep : TracerStep t created none t') : Sharing t' startTs mine group done := by
  cases hstep with
  | differ hdiffer =>
    refine ⟨(hdiffer 0).contextsCreated h.contexts, fun id hid => ?_, ?_, fun x hx => ?_⟩
    · rw [(hdiffer 0).nextSpanId, (hdiffer 0).spans]
      exact h.spans id hid
    · rw [(hdiffer 0).spans]
      exact h.apart
    · refine ⟨(h.parents x hx).1, ?_⟩
      unfold contextOf
      rw [(hdiffer 0).spans, (hdiffer ((t.spans x.1).context + 1)).parents _ (Nat.lt_succ_self _).ne]
      exact (h.parents x hx).2
  | allocate c ts nextTraceId traces =>
    have hold : ∀ id ∈ mine, id ≠ t.nextSpanId := fun id hid => (h.spans id hid).1.ne
    refine ⟨h.contexts.allocate c ts, fun id hid => ?_, fun id hid s hs => ?_, fun x hx => ?_⟩
    · obtain ⟨hlt, hts⟩ := h.spans id hid
      refine ⟨Nat.lt_succ_of_lt hlt, ?_⟩
      simpa [allocate, hold id hid] using hts
    · by_cases hnew : s = t.nextSpanId
      · subst hnew
        simp only [allocate, Function.update_self, Function.update_of_ne (hold id hid)] at hs
        exact absurd hs (h.contexts id).ne'
      · simp only [allocate, Function.update_of_ne (hold id hid), Function.update_of_ne hnew] at hs
        exact h.apart id hid s hs
    · obtain ⟨hmine, hparent⟩ := h.parents x hx
      refine ⟨hmine, ?_⟩
      have hkept := contextOf_allocate h.contexts c ts x.1
      rw [if_neg (hold x.1 hmine)] at hkept
      exact (congrArg TraceContext.parent hkept).trans hparent

/-- `AddParentLazily` on a span that shares its context with no one. -/
theorem reparent (h : Sharing t startTs [call] [call] []) {c : ParentRef}
    (hcall : t.addParentLazily call c = some t') :
    Sharing t' startTs [call] [call] [(call, c.parent)] := by
  have hkept := h.differAt (differAt_addParentLazily hcall) (fun x hx => nomatch hx)
  refine ⟨hkept.contexts, hkept.spans, hkept.apart, ?_⟩
  intro x hx
  obtain rfl := List.mem_singleton.mp hx
  exact ⟨List.mem_singleton_self _, parent_addParentLazily hcall⟩

theorem clone (h : Sharing t startTs mine group done) (hmine : call ∈ mine) (hgroup : call ∈ group) :
    Sharing (t.cloneShared call) startTs (mine ++ [t.nextSpanId]) (group ++ [t.nextSpanId])
      done := by
  have hold : ∀ id ∈ mine, id ≠ t.nextSpanId := fun id hid => (h.spans id hid).1.ne
  have hspans : ∀ s, s ≠ t.nextSpanId → (t.cloneShared call).spans s = t.spans s :=
    fun s hs => Function.update_of_ne hs _ _
  have hnew : (t.cloneShared call).spans t.nextSpanId = t.spans call :=
    Function.update_self _ _ _
  have hcall : ∀ id ∈ mine, (t.spans call).context = (t.spans id).context → id ∈ group := by
    intro id hid hsame
    rcases h.apart id hid call hsame with rfl | hboth
    · exact hgroup
    · exact hboth.2
  refine ⟨h.contexts.cloneShared call, fun id hid => ?_, fun id hid s hs => ?_, fun x hx => ?_⟩
  · rcases List.mem_append.mp hid with hid | hid
    · rw [hspans id (hold id hid)]
      exact ⟨Nat.lt_succ_of_lt (h.spans id hid).1, (h.spans id hid).2⟩
    · obtain rfl := List.mem_singleton.mp hid
      rw [hnew]
      exact ⟨Nat.lt_succ_self _, (h.spans call hmine).2⟩
  · by_cases hs' : s = t.nextSpanId
    · rcases List.mem_append.mp hid with hid | hid
      · rw [hs', hnew, hspans id (hold id hid)] at hs
        exact .inr ⟨by simp [hs'], List.mem_append_left _ (hcall id hid hs)⟩
      · exact .inl (hs'.trans (List.mem_singleton.mp hid).symm)
    · rcases List.mem_append.mp hid with hid | hid
      · rw [hspans s hs', hspans id (hold id hid)] at hs
        refine (h.apart id hid s hs).imp_right fun hboth => ?_
        exact ⟨List.mem_append_left _ hboth.1, List.mem_append_left _ hboth.2⟩
      · obtain rfl := List.mem_singleton.mp hid
        rw [hspans s hs', hnew] at hs
        rcases h.apart call hmine s hs with rfl | hboth
        · exact .inr ⟨List.mem_append_left _ hgroup, by simp⟩
        · exact .inr ⟨List.mem_append_left _ hboth.1, by simp⟩
  · obtain ⟨hmine', hparent⟩ := h.parents x hx
    refine ⟨List.mem_append_left _ hmine', ?_⟩
    unfold contextOf at hparent ⊢
    rw [hspans x.1 (hold x.1 hmine')]
    exact hparent

/-- A copy gets a context of its own. -/
theorem renew (h : Sharing t startTs mine group done) (hmine : id ∈ mine)
    (hdone : id ∉ done.map Prod.fst) {c : TraceContext} {p : Parent} (hc : c.parent = some p)
    (traces : Nat → Option (List Nat)) :
    Sharing { t.renewContext id c with traces := traces } startTs mine (group.filter (· ≠ id))
      (done ++ [(id, p)]) := by
  have hspans : ∀ s, s ≠ id → (t.renewContext id c).spans s = t.spans s :=
    fun s hs => Function.update_of_ne hs _ _
  have hself : ((t.renewContext id c).spans id).context = t.nextContextId := by
    simp [renewContext]
  refine ⟨h.contexts.renewContext id c, fun s hs => ?_, fun s hs s' hs' => ?_, fun x hx => ?_⟩
  · refine ⟨(h.spans s hs).1, ?_⟩
    by_cases hsid : s = id
    · subst hsid
      simpa [renewContext] using (h.spans s hs).2
    · have hts := (h.spans s hs).2
      rw [← hspans s hsid] at hts
      exact hts
  · have hs' : ((t.renewContext id c).spans s').context = ((t.renewContext id c).spans s).context :=
      hs'
    by_cases hsid : s = id
    · by_cases hsid' : s' = id
      · exact .inl (hsid'.trans hsid.symm)
      · rw [hsid, hself, hspans s' hsid'] at hs'
        exact absurd hs' (h.contexts s').ne
    · by_cases hsid' : s' = id
      · rw [hsid', hself, hspans s hsid] at hs'
        exact absurd hs' (h.contexts s).ne'
      · have hold : (t.spans s').context = (t.spans s).context := by
          rwa [hspans s hsid, hspans s' hsid'] at hs'
        refine (h.apart s hs s' hold).imp_right fun hboth => ?_
        exact ⟨List.mem_filter.mpr ⟨hboth.1, by simpa using hsid'⟩,
          List.mem_filter.mpr ⟨hboth.2, by simpa using hsid⟩⟩
  · have hcontexts := contextOf_renewContext h.contexts id c
    rcases List.mem_append.mp hx with hx | hx
    · obtain ⟨hmine', hparent⟩ := h.parents x hx
      have hne : x.1 ≠ id := fun heq => hdone (heq ▸ List.mem_map_of_mem hx)
      have hkept := hcontexts x.1
      rw [if_neg hne] at hkept
      exact ⟨hmine', (congrArg TraceContext.parent hkept).trans hparent⟩
    · obtain rfl := List.mem_singleton.mp hx
      have hset := hcontexts id
      rw [if_pos rfl] at hset
      exact ⟨hmine, (congrArg TraceContext.parent hset).trans hc⟩

end Sharing

end Tracer

namespace Log

/-- The copies made of spans. -/
def clones (h : Log) : List Nat :=
  h.filterMap fun
    | ⟨.cloneShared _, id⟩ => some id
    | _ => none

/-- The spans whose parent is that of a context, with this parent. -/
def attributed (h : Log) : List (Nat × Parent) :=
  h.filterMap fun
    | ⟨.addParentLazily span c, _⟩ => some (span, c.parent)
    | ⟨.startSpanSetParentContext span c, _⟩ => some (span, c.parent)
    | _ => none

@[simp] theorem clones_append (h h' : Log) : clones (h ++ h') = clones h ++ clones h' :=
  List.filterMap_append

@[simp] theorem attributed_append (h h' : Log) :
    attributed (h ++ h') = attributed h ++ attributed h' := List.filterMap_append

/-- The call and the copies that have no context of their own yet. -/
def sharing (call : Nat) (h : Log) : List Nat :=
  (call :: clones h).filter fun id => id = call ∨ id ∉ (attributed h).map Prod.fst

end Log

/-- The call gets a parent before it is copied, and each copy gets one parent, which
started before the call. -/
def attributes (call startTs : Nat) (h : Log) : Command → Prop
  | .cloneShared span => span = call
  | .addParentLazily span _ => span = call ∧ Log.clones h = [] ∧ Log.attributed h = []
  | .startSpanSetParentContext span c => span ≠ call ∧ span ∈ Log.clones h ∧
      span ∉ (Log.attributed h).map Prod.fst ∧ c.parent.startTs < startTs
  | _ => True

/-- Some world gives the response, and a new span is neither the call nor a copy. -/
def cloneRely (call : Nat) (h : Log) (c : Command) (r : c.Response) : Prop :=
  Possible World.exec c r ∧ ∀ id, c.created r = some id → id ≠ call ∧ id ∉ Log.clones h

namespace World

variable {w w' : World} {c : Command} {r : c.Response} {q : Channel}

/-- Others do anything but pop from the queue and operate on the contexts of spans, as the
spanners of NICs and networks. -/
def besides (q : Channel) (w : World) (c : Command) : Option World :=
  if c.target = none ∧ c.source ≠ some q then (w.exec c).map Prod.snd else none

/-- `TryPopOnTrue` takes what started before the call. -/
theorem tryPopOnTrue_some {startTs : Nat} {context : Context}
    (h : Possible exec (.tryPopOnTrue q startTs) (some context)) :
    context.parent.startTs < startTs := by
  obtain ⟨w, w', hexec⟩ := h
  unfold exec at hexec
  dsimp only at hexec
  split at hexec
  · obtain ⟨hnone, -⟩ := Prod.mk.inj (Option.some.inj hexec)
    cases hnone
  · split at hexec
    · next hbefore =>
      obtain ⟨hsome, -⟩ := Prod.mk.inj (Option.some.inj hexec)
      obtain rfl := Option.some.inj hsome
      exact hbefore
    · obtain ⟨hnone, -⟩ := Prod.mk.inj (Option.some.inj hexec)
      cases hnone

/-- It takes nothing if nothing is there or the first context is not one of these. -/
theorem tryPopOnTrue_none {startTs : Nat}
    (h : w.exec (.tryPopOnTrue q startTs) = some (none, w')) :
    ∀ context ∈ (w.channels q).head?, ¬ context.parent.startTs < startTs := by
  unfold exec at h
  dsimp only at h
  split at h
  · next hempty => simp [hempty]
  · next first rest hchannel =>
    split at h
    · cases h
    · next hnot => simpa [hchannel] using hnot

end World

/-- What holds while a call is finished that started from the world `w₀`. -/
structure Receiving (call startTs : Nat) (q : Channel) (w₀ w : World) (h : Log) : Prop where
  sharing : w.tracer.Sharing startTs (call :: Log.clones h) (Log.sharing call h)
    (Log.attributed h)
  nodup : (call :: Log.clones h).Nodup
  fresh : ∀ id ∈ Log.clones h, w₀.tracer.nextSpanId ≤ id
  started : w₀.tracer.nextSpanId ≤ w.tracer.nextSpanId
  queue : ∃ arrived, w₀.channels q ++ arrived = Log.popped q h ++ w.channels q

namespace Receiving

variable {call startTs : Nat} {q : Channel} {w₀ w w' : World} {h : Log} {c : Command}
  {r : c.Response}

theorem exec_queue (hinv : Receiving call startTs q w₀ w h) (hexec : w.exec c = some (r, w')) :
    ∃ arrived, w₀.channels q ++ arrived = Log.popped q (h ++ [⟨c, r⟩]) ++ w'.channels q := by
  obtain ⟨arrived, hqueue⟩ := hinv.queue
  have hnext := World.exec_queue (q := q) hexec
  refine ⟨arrived ++ Log.pushed q [⟨c, r⟩], ?_⟩
  rw [Log.popped_append, List.append_assoc (Log.popped q h), ← hnext, ← List.append_assoc, hqueue,
    List.append_assoc]

/-- An operation without a target changes neither copies nor parents. -/
theorem step {created : Option Nat} (hinv : Receiving call startTs q w₀ w h)
    (hstep : TracerStep w.tracer created none w'.tracer)
    (hqueue : ∃ arrived, w₀.channels q ++ arrived = Log.popped q h ++ w'.channels q) :
    Receiving call startTs q w₀ w' h :=
  ⟨hinv.sharing.step hstep, hinv.nodup, hinv.fresh,
    hinv.started.trans (hstep.nextSpanId ▸ Nat.le_add_right _ _), hqueue⟩

theorem exec (hinv : Receiving call startTs q w₀ w h) (hguar : attributes call startTs h c)
    (hexec : w.exec c = some (r, w')) :
    cloneRely call h c r ∧ Receiving call startTs q w₀ w' (h ++ [⟨c, r⟩]) := by
  have hstep := World.exec_tracerStep hexec
  have hqueue := hinv.exec_queue hexec
  have hlt : ∀ id ∈ call :: Log.clones h, id < w.tracer.nextSpanId :=
    fun id hid => (hinv.sharing.spans id hid).1
  refine ⟨⟨⟨w, w', hexec⟩, fun id hid => ?_⟩, ?_⟩
  · have hnew : id ∉ call :: Log.clones h := fun hmem => (hlt id hmem).ne (hstep.created_eq hid)
    simpa using hnew
  have hother : c.target = none → Log.clones [⟨c, r⟩] = [] → Log.attributed [⟨c, r⟩] = [] →
      Receiving call startTs q w₀ w' (h ++ [⟨c, r⟩]) := by
    intro htarget hclones hattributed
    rw [htarget] at hstep
    have hkept : Log.clones (h ++ [⟨c, r⟩]) = Log.clones h ∧
        Log.attributed (h ++ [⟨c, r⟩]) = Log.attributed h := by
      rw [Log.clones_append, Log.attributed_append, hclones, hattributed]
      simp
    have hsharing : Log.sharing call (h ++ [⟨c, r⟩]) = Log.sharing call h := by
      unfold Log.sharing
      rw [hkept.1, hkept.2]
    refine ⟨?_, ?_, ?_, hinv.started.trans (hstep.nextSpanId ▸ Nat.le_add_right _ _), hqueue⟩
    · rw [hkept.1, hkept.2, hsharing]
      exact hinv.sharing.step hstep
    · rw [hkept.1]
      exact hinv.nodup
    · rw [hkept.1]
      exact hinv.fresh
  cases c with
  | cloneShared span =>
    obtain rfl : span = call := hguar
    obtain ⟨rfl, t', ht, rfl⟩ := World.create_eq_some hexec
    obtain rfl := Option.some.inj ht
    set next := w.tracer.nextSpanId with hnext
    have hclones : Log.clones (h ++ [⟨.cloneShared span, next⟩]) = Log.clones h ++ [next] :=
      Log.clones_append h _
    have hattributed : Log.attributed (h ++ [⟨.cloneShared span, next⟩]) = Log.attributed h :=
      (Log.attributed_append h _).trans (List.append_nil _)
    have hnew : next ∉ (Log.attributed h).map Prod.fst := by
      intro hmem
      obtain ⟨x, hx, heq⟩ := List.mem_map.mp hmem
      exact (hlt x.1 (hinv.sharing.parents x hx).1).ne heq
    have hsharing : Log.sharing span (h ++ [⟨.cloneShared span, next⟩]) =
        Log.sharing span h ++ [next] := by
      unfold Log.sharing
      rw [hclones, hattributed, ← List.cons_append, List.filter_append]
      congr 1
      simp only [List.filter_cons, List.filter_nil]
      rw [if_pos (by simp only [decide_eq_true_eq]; exact .inr hnew)]
    refine ⟨?_, ?_, ?_, Nat.le_succ_of_le hinv.started, hqueue⟩
    · rw [hclones, hattributed, hsharing]
      exact hinv.sharing.clone List.mem_cons_self (by simp [Log.sharing])
    · rw [hclones, ← List.cons_append]
      have hnot : next ∉ span :: Log.clones h := fun hmem => (hlt next hmem).ne rfl
      rw [← List.concat_eq_append]
      exact hinv.nodup.concat hnot
    · rw [hclones]
      exact List.forall_mem_append.mpr
        ⟨hinv.fresh, List.forall_mem_singleton.mpr hinv.started⟩
  | startSpanSetParentContext span context =>
    obtain ⟨hne, hcopy, hnew, -⟩ := hguar
    obtain ⟨t', ht, rfl⟩ := World.change_eq_some hexec
    obtain ⟨-, rfl⟩ := Tracer.startSpanSetParentContext_eq_some ht
    have hclones : Log.clones (h ++ [⟨.startSpanSetParentContext span context, r⟩]) =
        Log.clones h :=
      (Log.clones_append h _).trans (List.append_nil _)
    have hattributed : Log.attributed (h ++ [⟨.startSpanSetParentContext span context, r⟩]) =
        Log.attributed h ++ [(span, context.parent)] :=
      Log.attributed_append h _
    have hsharing : Log.sharing call (h ++ [⟨.startSpanSetParentContext span context, r⟩]) =
        (Log.sharing call h).filter (· ≠ span) := by
      unfold Log.sharing
      rw [hclones, hattributed, List.filter_filter]
      refine List.filter_congr fun id _ => ?_
      by_cases hid : id = call
      · subst hid
        simp [Ne.symm hne]
      · simp only [hid, List.map_append, List.map_cons, List.map_nil, List.mem_append,
          List.mem_singleton, false_or, not_or, ne_eq, decide_not, Bool.decide_and]
        rw [Bool.and_comm]
    refine ⟨?_, ?_, ?_, hinv.started, hqueue⟩
    · rw [hclones, hattributed, hsharing]
      exact hinv.sharing.renew (List.mem_cons_of_mem call hcopy) hnew rfl _
    · rw [hclones]
      exact hinv.nodup
    · rw [hclones]
      exact hinv.fresh
  | addParentLazily span context =>
    obtain ⟨rfl, hnoClones, hnone⟩ := hguar
    obtain ⟨t', ht, rfl⟩ := World.change_eq_some hexec
    have hclones : Log.clones (h ++ [⟨.addParentLazily span context, r⟩]) = [] := by
      rw [Log.clones_append, hnoClones]
      rfl
    have hattributed : Log.attributed (h ++ [⟨.addParentLazily span context, r⟩]) =
        [(span, context.parent)] := by
      rw [Log.attributed_append, hnone]
      rfl
    have hbefore := hinv.sharing
    have hsharing : Log.sharing span h = [span] := by simp [Log.sharing, hnoClones]
    have hsharing' : Log.sharing span (h ++ [⟨.addParentLazily span context, r⟩]) = [span] := by
      unfold Log.sharing
      rw [hclones]
      simp
    rw [hnoClones, hnone, hsharing] at hbefore
    refine ⟨?_, ?_, ?_, ?_, hqueue⟩
    · rw [hclones, hattributed, hsharing']
      exact hbefore.reparent ht
    · rw [hclones]
      exact List.nodup_singleton span
    · rw [hclones]
      exact fun id hid => nomatch hid
    · exact hinv.started.trans (hstep.nextSpanId ▸ Nat.le_add_right _ _)
  | _ => exact hother rfl rfl rfl

/-- The others keep it. -/
theorem besides (hinv : Receiving call startTs q w₀ w h) (hstep : w.besides q c = some w') :
    Receiving call startTs q w₀ w' h := by
  unfold World.besides at hstep
  split_ifs at hstep with hothers
  obtain ⟨⟨r, w₁⟩, hexec, rfl⟩ := Option.map_eq_some_iff.mp hstep
  have htracer := World.exec_tracerStep hexec
  rw [hothers.1] at htracer
  have hqueue := hinv.exec_queue hexec
  have hpopped : Log.popped q [⟨c, r⟩] = [] := by
    cases c with
    | pop source expected =>
      have hq : source ≠ q := fun heq => hothers.2 (congrArg some heq)
      simp [Log.popped, hq]
    | tryPopOnTrue source syscallStart =>
      have hq : source ≠ q := fun heq => hothers.2 (congrArg some heq)
      simp [Log.popped, hq]
    | _ => rfl
  rw [Log.popped_append, hpopped, List.append_nil] at hqueue
  exact hinv.step htracer hqueue

end Receiving

namespace HostSpanner

open Spanner

variable {queues : HostQueues} {rounds : Nat} {st : HostSpanner} {call : Allocated HostCallSpan}
  {h : Log}

/-- What is done for a context after the first one: a copy of the call gets it. -/
def copyLog (queues : HostQueues) (call : Allocated HostCallSpan) (copy : Nat × Context) : Log :=
  [⟨.tryPopOnTrue queues.fromNicReceives call.span.getStartingTs, some copy.2⟩,
    ⟨.cloneShared call.id, copy.1⟩,
    ⟨.startSpanSetParentContext copy.1 copy.2, ()⟩,
    ⟨.markSpanAsDone copy.1 (.hostCall { call.span with original := some call.id }), ()⟩]

/-- All that is done for a call: it gets the first context, and the copies the others. -/
def receiveLog (queues : HostQueues) (call : Allocated HostCallSpan) (first : Context)
    (copies : List (Nat × Context)) : Log :=
  [⟨.pop queues.fromNicReceives none, first⟩, ⟨.addParentLazily call.id first, ()⟩] ++
    (copies.flatMap (copyLog queues call) ++
      [⟨.tryPopOnTrue queues.fromNicReceives call.span.getStartingTs, (none : Option Context)⟩,
        ⟨.markSpanAsDone call.id (.hostCall call.span), ()⟩])

variable (queues rounds) in
theorem attributes_copyForReceives
    (hdone : ∀ x ∈ Log.attributed h, x.1 = call.id ∨ x.1 ∈ Log.clones h) :
    Keeps (attributes call.id call.span.getStartingTs) (cloneRely call.id)
      (fun h' _ => ∃ copies : List (Nat × Context), h' = h ++
        (copies.flatMap (copyLog queues call) ++
          [⟨.tryPopOnTrue queues.fromNicReceives call.span.getStartingTs, (none : Option Context)⟩]) ∧
        ∀ copy ∈ copies, copy.2.parent.startTs < call.span.getStartingTs)
      (copyForReceives queues call rounds) h := by
  induction rounds generalizing h with
  | zero => exact keeps_throw trivial
  | succ rounds ih =>
    unfold copyForReceives
    refine keeps_bind ⟨trivial, fun (next : Option Context) hnext => ?_⟩
    cases next with
    | none => exact keeps_pure ⟨[], rfl, fun copy hcopy => nomatch hcopy⟩
    | some context =>
      have hbefore := World.tryPopOnTrue_some hnext.1
      refine keeps_bind ⟨rfl, fun (copy : Nat) hcopy => ?_⟩
      obtain ⟨hne, hnew⟩ := hcopy.2 copy rfl
      rw [Log.clones_append] at hnew
      have hfree : copy ∉ (Log.attributed h).map Prod.fst := by
        intro hmem
        obtain ⟨x, hx, rfl⟩ := List.mem_map.mp hmem
        rcases hdone x hx with hcall | hclone
        · exact hne hcall
        · exact hnew (List.mem_append_left _ hclone)
      refine keeps_bind ⟨⟨hne, ?_, ?_, hbefore⟩, fun () _ => ?_⟩
      · rw [Log.clones_append]
        exact List.mem_append_right _ (List.mem_singleton_self copy)
      · rw [Log.attributed_append, Log.attributed_append]
        simpa [Log.attributed] using hfree
      · refine keeps_bind ⟨trivial, fun () _ => ?_⟩
        have hhistory : ∀ e₁ e₂ e₃ e₄ : (c : Command) × c.Response,
            h ++ [e₁] ++ [e₂] ++ [e₃] ++ [e₄] = h ++ [e₁, e₂, e₃, e₄] := by
          intros
          simp
        have hrest := ih (h := h ++ copyLog queues call (copy, context)) (fun x hx => by
          rw [Log.attributed_append, List.mem_append] at hx
          rw [Log.clones_append, List.mem_append]
          rcases hx with hx | hx
          · exact (hdone x hx).imp_right .inl
          · obtain rfl : x = (copy, context.parent) := by simpa [Log.attributed, copyLog] using hx
            exact .inr (.inr (List.mem_singleton_self copy)))
        rw [hhistory]
        refine hrest.mono ?_
        rintro h' - ⟨copies, rfl, hcopies⟩
        refine ⟨(copy, context) :: copies, ?_, List.forall_mem_cons.mpr ⟨hbefore, hcopies⟩⟩
        rw [List.flatMap_cons, List.append_assoc, List.append_assoc]

variable (queues rounds) in
/-- A call that received packets. -/
theorem attributes_finishPendingSpan (hcall : st.pendingHostCallSpan = some call)
    (hreceive : call.span.kernelReceive = true) :
    Keeps (attributes call.id call.span.getStartingTs) (cloneRely call.id)
      (fun h' _ => ∃ first copies, h' = receiveLog queues call first copies ∧
        ∀ copy ∈ copies, copy.2.parent.startTs < call.span.getStartingTs)
      (finishPendingSpan queues rounds st) [] := by
  unfold finishPendingSpan
  rw [hcall]
  simp only [hreceive, Bool.not_true, Bool.false_eq_true, if_false]
  refine keeps_bind ⟨trivial, fun (first : Context) _ => ?_⟩
  refine keeps_bind ⟨⟨rfl, rfl, rfl⟩, fun () _ => ?_⟩
  have hloop := attributes_copyForReceives queues rounds
    (h := [⟨.pop queues.fromNicReceives none, first⟩,
      ⟨.addParentLazily call.id first, ()⟩]) (fun x hx => by
        obtain rfl : x = (call.id, first.parent) := by simpa [Log.attributed] using hx
        exact .inl rfl)
  refine keeps_bind (hloop.mono ?_)
  rintro h' - ⟨copies, rfl, hcopies⟩
  refine ⟨trivial, fun () _ => ⟨first, copies, ?_, hcopies⟩⟩
  rw [List.append_assoc, List.append_assoc]
  rfl

variable (queues call) in
theorem clones_receiveLog (first : Context) (copies : List (Nat × Context)) :
    Log.clones (receiveLog queues call first copies) = copies.map Prod.fst := by
  have hcopies : Log.clones (copies.flatMap (copyLog queues call)) = copies.map Prod.fst := by
    induction copies with
    | nil => rfl
    | cons copy copies ih =>
      rw [List.flatMap_cons, Log.clones_append, ih]
      rfl
  unfold receiveLog
  rw [Log.clones_append, Log.clones_append, hcopies]
  exact List.append_nil _

theorem attributed_receiveLog (first : Context) (copies : List (Nat × Context)) :
    Log.attributed (receiveLog queues call first copies) =
      (call.id, first.parent) :: copies.map fun copy => (copy.1, copy.2.parent) := by
  have hcopies : Log.attributed (copies.flatMap (copyLog queues call)) =
      copies.map fun copy => (copy.1, copy.2.parent) := by
    induction copies with
    | nil => rfl
    | cons copy copies ih =>
      rw [List.flatMap_cons, Log.attributed_append, ih]
      rfl
  unfold receiveLog
  rw [Log.attributed_append, Log.attributed_append, hcopies]
  exact congrArg _ (List.append_nil _)

variable (queues call) in
theorem popped_receiveLog (first : Context) (copies : List (Nat × Context)) :
    Log.popped queues.fromNicReceives (receiveLog queues call first copies) =
      first :: copies.map Prod.snd := by
  have hcopies : Log.popped queues.fromNicReceives (copies.flatMap (copyLog queues call)) =
      copies.map Prod.snd := by
    induction copies with
    | nil => rfl
    | cons copy copies ih =>
      rw [List.flatMap_cons, Log.popped_append, ih]
      simp [Log.popped, copyLog]
  unfold receiveLog
  rw [Log.popped_append, Log.popped_append, hcopies]
  simp [Log.popped]

/-- The pending call is a span of the tracer with this starting time, and no other span
refers to its context. -/
structure PendingCall (t : Tracer) (call : Allocated HostCallSpan) : Prop where
  contexts : t.ContextsCreated
  created : call.id < t.nextSpanId
  startingTs : (t.spans call.id).startingTs = call.span.getStartingTs
  unshared : ∀ s, (t.spans s).context = (t.spans call.id).context → s = call.id

theorem PendingCall.receiving {w : World} (h : PendingCall w.tracer call) :
    Receiving call.id call.span.getStartingTs queues.fromNicReceives w w [] := by
  refine ⟨⟨h.contexts, fun id hid => ?_, fun id hid s hs => ?_, fun x hx => (nomatch hx)⟩,
    List.nodup_singleton _, fun id hid => (nomatch hid), Nat.le_refl _, [], by simp [Log.popped]⟩
  · obtain rfl := List.mem_singleton.mp hid
    exact ⟨h.created, h.startingTs⟩
  · obtain rfl := List.mem_singleton.mp hid
    exact .inl (h.unshared s hs)

/-- A call was finished in the operations `h`, from the world `w` to `w'`. -/
structure Attributed (queues : HostQueues) (call : Allocated HostCallSpan) (w : World) (h : Log)
    (w' : World) (first : Context) (copies : List (Nat × Context)) : Prop where
  history : h = receiveLog queues call first copies
  distinct : (call.id :: copies.map Prod.fst).Nodup
  fresh : ∀ copy ∈ copies, w.tracer.nextSpanId ≤ copy.1
  before : ∀ copy ∈ copies, copy.2.parent.startTs < call.span.getStartingTs
  parent : (w'.tracer.contextOf call.id).parent = some first.parent
  copyParent : ∀ copy ∈ copies, (w'.tracer.contextOf copy.1).parent = some copy.2.parent
  queue : ∃ arrived, w.channels queues.fromNicReceives ++ arrived =
    first :: copies.map Prod.snd ++ w'.channels queues.fromNicReceives

/-- In every run, with others that push contexts and use the tracer meanwhile, the contexts
that are popped become the parents of the call and of its copies, one each. Popping stops
at an empty queue, or at a context that is not from before the call; and `SetContext` never
refuses a context. -/
theorem receives_attributed {w : World} (hcall : st.pendingHostCallSpan = some call)
    (hreceive : call.span.kernelReceive = true) (hpending : PendingCall w.tracer call) :
    (∀ (h : Log) (w' : World),
      Among World.exec (World.besides queues.fromNicReceives) (finishPendingSpan queues rounds st)
        w h (Pure.pure ()) w' →
      (∃ first copies, Attributed queues call w h w' first copies) ∧
        ∃ k w₁ h₁, Among World.exec (World.besides queues.fromNicReceives)
            (finishPendingSpan queues rounds st) w h₁
            (.act (.tryPopOnTrue queues.fromNicReceives call.span.getStartingTs) k) w₁ ∧
          h = h₁ ++ [⟨.tryPopOnTrue queues.fromNicReceives call.span.getStartingTs,
              (none : Option Context)⟩, ⟨.markSpanAsDone call.id (.hostCall call.span), ()⟩] ∧
          ∀ context ∈ (w₁.channels queues.fromNicReceives).head?,
            ¬ context.parent.startTs < call.span.getStartingTs) ∧
      ∀ (h : Log) (w' : World) (span : Nat) (context : Context) (k : Unit → Spanning Unit),
        Among World.exec (World.besides queues.fromNicReceives) (finishPendingSpan queues rounds st)
          w h (.act (.startSpanSetParentContext span context) k) w' →
        let (new, t) := w'.tracer.registerCreateContextParent context.toParentRef
        (t.setContext span new context.parent).isSome := by
  have hkeeps := attributes_finishPendingSpan queues rounds hcall hreceive
  refine ⟨fun h w' hrun => ?_, fun h w' span context k hrun => ?_⟩
  · obtain ⟨⟨first, copies, rfl, hbefore⟩, hinv⟩ := Keeps.among
      (Receiving call.id call.span.getStartingTs queues.fromNicReceives w) Receiving.exec
      Receiving.besides hpending.receiving hkeeps hrun
    rw [List.nil_append] at hinv
    have hclones := clones_receiveLog queues call first copies
    have hparents := fun x hx => (hinv.sharing.parents x hx).2
    rw [attributed_receiveLog, List.forall_mem_cons] at hparents
    refine ⟨⟨first, copies, rfl, ?_, ?_, hbefore, hparents.1, ?_, ?_⟩, ?_⟩
    · rw [← hclones]
      exact hinv.nodup
    · intro copy hcopy
      refine hinv.fresh copy.1 ?_
      rw [hclones]
      exact List.mem_map_of_mem hcopy
    · intro copy hcopy
      exact hparents.2 _ (List.mem_map_of_mem hcopy)
    · rw [← popped_receiveLog queues call first copies]
      exact hinv.queue
    · -- the operation before the last one found nothing to pop
      have hsplit : receiveLog queues call first copies =
          ([⟨.pop queues.fromNicReceives none, first⟩, ⟨.addParentLazily call.id first, ()⟩] ++
            copies.flatMap (copyLog queues call)) ++
          ⟨.tryPopOnTrue queues.fromNicReceives call.span.getStartingTs,
            (none : Option Context)⟩ :: [⟨.markSpanAsDone call.id (.hostCall call.span), ()⟩] := by
        unfold receiveLog
        rw [List.append_assoc]
      rw [hsplit] at hrun ⊢
      obtain ⟨k, w₁, w₂, hfirst, hexec, -⟩ := hrun.split
      exact ⟨k, w₁, _, hfirst, rfl, World.tryPopOnTrue_none hexec⟩
  · obtain ⟨hleft, hinv⟩ := Keeps.among
      (Receiving call.id call.span.getStartingTs queues.fromNicReceives w) Receiving.exec
      Receiving.besides hpending.receiving hkeeps hrun
    obtain ⟨⟨-, hcopy, -, hbefore⟩, -⟩ := hleft
    have hts := (hinv.sharing.spans span (List.mem_cons_of_mem call.id hcopy)).2
    exact Tracer.setContext_isSome (hts ▸ hbefore.le)

/-- A call that received packets, at 100, and three contexts: only two are from before. -/
def receivingCall : Allocated HostCallSpan :=
  ⟨1, { isFragmented := false, kernelReceive := true,
        events := [⟨100, 0, bytes "gem5", .hostCall 0 none none⟩] }⟩

def receivingWorld : World :=
  ⟨(Tracer.init.startSpan ⟨100, true⟩).get rfl,
    fun _ => [⟨.nth 6 4 40, .kRx⟩, ⟨.nth 7 5 60, .kRx⟩, ⟨.nth 8 7 120, .kRx⟩]⟩

theorem receives_attributed_receivingCall : ∃ (h : Log) (w' : World) (first : Context)
    (copies : List (Nat × Context)),
    Attributed ⟨0, 1, 2⟩ receivingCall receivingWorld h w' first copies ∧
      copies.map Prod.fst = [2] := by
  obtain ⟨h, w', hrun, hclones⟩ : ∃ (h : Log) (w' : World),
      (finishPendingSpan ⟨0, 1, 2⟩ 2 { pendingHostCallSpan := some receivingCall }).run
        World.exec receivingWorld = some ((), h, w') ∧ Log.clones h = [2] := ⟨_, _, rfl, rfl⟩
  have hpending : PendingCall receivingWorld.tracer receivingCall := by
    have hspans : receivingWorld.tracer.spans = Function.update (fun _ => ⟨0, 0⟩) 1 ⟨1, 100⟩ := rfl
    refine ⟨fun s => ?_, by decide, rfl, fun s hs => ?_⟩
    · rw [hspans, Function.update_apply]
      split_ifs <;> decide
    · by_contra hne
      have hone : s ≠ 1 := hne
      rw [hspans, Function.update_of_ne hone] at hs
      cases hs
  obtain ⟨⟨first, copies, hdone⟩, -⟩ :=
    (receives_attributed rfl rfl hpending).1 h w' (among_of_run hrun)
  refine ⟨h, w', first, copies, hdone, ?_⟩
  rw [← clones_receiveLog ⟨0, 1, 2⟩ receivingCall first copies,
    ← hdone.history, hclones]

end HostSpanner

end Columbo
