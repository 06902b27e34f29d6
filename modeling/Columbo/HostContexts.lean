import Columbo.ContextDuties
import Columbo.HostMmio

/-!
# Contexts that a host passes on and takes

A host passes a context on for every access to the device that it handles while
`pci_write_before_` is false, and takes one for every DMA operation and interrupt. The
contexts carry no identifier of the operation: only their order relates them.
-/
namespace Columbo

open Coroutine Spanner

/-- The pending call span and `pci_write_before_` after an event. -/
def trackCall (env : TraceEnvironment) (s : Option HostCallSpan × Bool) (ev : Event) :
    Option HostCallSpan × Bool :=
  if ev.getType = .kHostCallT then
    let fresh := (HostCallSpan.addToSpan env { isFragmented := false } ev).2
    let (call, pciWriteBefore) := match s.1 with
      | none => (fresh, false)
      | some call => (call, s.2)
    match call.addToSpan env ev with
    | (true, call) => (some call, env.isPciWrite ev)
    | (false, call) =>
      if SpanClass.isComplete call then (some fresh, false) else (some call, pciWriteBefore)
  else s

/-- Contexts are passed on for accesses to the device, and needed for DMA operations and
interrupts. -/
def hostDuty (pciWriteBefore : Bool) (ev : Event) : Option (Duty Expectation) :=
  match ev.getType with
  | .kHostMmioWT | .kHostMmioRT =>
    some (if !pciWriteBefore && TraceEnvironment.isToDeviceBarNumber ev.getBar then .announce .kMmio
      else .hold)
  | .kHostDmaRT | .kHostDmaWT => some (.attach .kDma)
  | .kHostMsiXT => some (.attach .kMsix)
  | _ => none

def hostDutiesFrom (env : TraceEnvironment) :
    Option HostCallSpan × Bool → List Event → List (Event × Duty Expectation)
  | _, [] => []
  | s, ev :: rest =>
    ((hostDuty s.2 ev).map fun duty => (ev, duty)).toList ++
      hostDutiesFrom env (trackCall env s ev) rest

/-- The duties of a fresh spanner. -/
def hostDuties (env : TraceEnvironment) (evs : List Event) : List (Event × Duty Expectation) :=
  hostDutiesFrom env (none, false) evs

/-- The DMA operations, by parser and identifier, and the interrupt that are not
completed yet. -/
structure HostOutstanding where
  dmas : List (UInt64 × UInt64) := []
  msix : Option UInt64 := none
  deriving DecidableEq

/-- A completion has to complete an operation, or the interrupt if its identifier is
zero. -/
def HostOutstanding.next (out : HostOutstanding) (ev : Event) : Option HostOutstanding :=
  match ev.getType with
  | .kHostDmaRT | .kHostDmaWT =>
    some { out with dmas := out.dmas ++ [(ev.parserIdentifier, ev.getId)] }
  | .kHostMsiXT => some { out with msix := some ev.parserIdentifier }
  | .kHostDmaCT =>
    if ev.getId = 0 then
      if out.msix = some ev.parserIdentifier then some { out with msix := none } else none
    else if (ev.parserIdentifier, ev.getId) ∈ out.dmas then
      some { out with dmas := out.dmas.erase (ev.parserIdentifier, ev.getId) }
    else none
  | _ => some out

/-- Every completion completes something. -/
def HostOrderly (hs : List Event) : Prop := (hs.foldlM HostOutstanding.next { }).isSome

instance (hs : List Event) : Decidable (HostOrderly hs) :=
  inferInstanceAs (Decidable (_ = true))

section

variable {env : TraceEnvironment} {past rest : List Event} {ev : Event}

theorem hostDutiesFrom_append (s : Option HostCallSpan × Bool) (evs evs' : List Event) :
    hostDutiesFrom env s (evs ++ evs') =
      hostDutiesFrom env s evs ++ hostDutiesFrom env (evs.foldl (trackCall env) s) evs' := by
  induction evs generalizing s with
  | nil => rfl
  | cons ev evs ih => simp [hostDutiesFrom, ih]

/-- What the next event adds to the duties. -/
theorem hostDuties_concat {s : Option HostCallSpan × Bool}
    (hs : past.foldl (trackCall env) (none, false) = s) :
    hostDuties env (past ++ [ev]) =
      hostDuties env past ++ ((hostDuty s.2 ev).map fun duty => (ev, duty)).toList := by
  unfold hostDuties
  rw [hostDutiesFrom_append, hs]
  simp [hostDutiesFrom]

theorem hostDuties_prefix (env : TraceEnvironment) (past rest : List Event) :
    hostDuties env past <+: hostDuties env (past ++ rest) := by
  unfold hostDuties
  rw [hostDutiesFrom_append]
  exact List.prefix_append _ _

/-- The events so far were in order, and so is the next one. -/
theorem HostOrderly.next (h : HostOrderly (past ++ ev :: rest)) {out : HostOutstanding}
    (hout : past.foldlM HostOutstanding.next { } = some out) :
    ∃ out', out.next ev = some out' ∧
      (past ++ [ev]).foldlM HostOutstanding.next { } = some out' := by
  unfold HostOrderly at h
  rw [List.foldlM_append, hout] at h
  cases hnext : out.next ev with
  | none => simp [List.foldlM_cons, hnext] at h
  | some out' =>
    refine ⟨out', rfl, ?_⟩
    rw [List.foldlM_append, hout]
    simp [List.foldlM_cons, hnext]

end

namespace HostSpanner

/-- The spanner of a host as a party. -/
def party (env : TraceEnvironment) (queues : HostQueues) (evs : List Event) : Party :=
  ⟨queues.fromNic, queues.toNic, hostDuties env evs⟩

/-- The channels to and from the NIC are used for nothing else. -/
structure Apart (queues : HostQueues) : Prop where
  toNic : queues.fromNic ≠ queues.toNic
  receives_from : queues.fromNicReceives ≠ queues.fromNic
  receives_to : queues.fromNicReceives ≠ queues.toNic

/-- The lists hold what is not completed. -/
structure Holds (st : HostSpanner) (out : HostOutstanding) : Prop where
  dmas : List.Forall₂ (fun key (p : Allocated HostDmaSpan) => p.span.Open key) out.dmas
    st.pendingHostDmaSpans
  msix : Option.Rel (fun parser (p : Allocated HostMsixSpan) => p.span.Open parser) out.msix
    st.pendingHostMsixSpan

/-- The spanner after these events. -/
structure Follows (env : TraceEnvironment) (P : Party) (past : List Event) (h : Log)
    (st : HostSpanner) : Prop where
  done : Done (hostDuties env past) (P.deeds h)
  call : past.foldl (trackCall env) (none, false) =
    (st.pendingHostCallSpan.map Allocated.span, st.pciWriteBefore)
  callId : ∀ call, st.pendingHostCallSpan = some call → call.id ∈ Log.calls h
  mmios : ∀ p ∈ st.pendingHostMmioSpans, p.span.hostMmioIssue.isSome
  outstanding : ∃ out, past.foldlM HostOutstanding.next { } = some out ∧ st.Holds out

variable {env : TraceEnvironment} {queues : HostQueues} {rounds : Nat} {st : HostSpanner}
  {ev : Event} {h : Log} {P : Party}

theorem aside_cloneShared {span : Nat} (hspan : span ∈ Log.calls h) :
    Keeps P.Aside P.rely
      (fun h' (copy : Nat) => copy ∈ Log.calls h' ∧ ∀ x ∈ Log.calls h, x ∈ Log.calls h')
      (Spanner.perform (.cloneShared span)) h := by
  refine keeps_perform ⟨?_, ?_, ?_, fun _ => rfl⟩ fun copy _ => ⟨?_, fun x hx => ?_⟩
  · simp [Command.dest]
  · simp [Command.source]
  · rintro x ⟨⟩
    exact hspan
  · have hnew : copy ∈ Log.calls [⟨.cloneShared span, copy⟩] := List.mem_singleton.mpr rfl
    rw [Log.calls_append]
    exact List.mem_append_right _ hnew
  · rw [Log.calls_append]
    exact List.mem_append_left _ hx

theorem aside_copyForReceives {call : Allocated HostCallSpan}
    (hsource : queues.fromNicReceives ≠ P.source) (hdest : queues.fromNicReceives ≠ P.dest)
    (hcall : call.id ∈ Log.calls h) :
    Keeps P.Aside P.rely (fun _ _ => True) (copyForReceives queues call rounds) h := by
  induction rounds generalizing h with
  | zero => exact keeps_throw (Party.aside_of rfl rfl rfl fun _ => rfl)
  | succ rounds ih =>
    unfold copyForReceives
    have htake : P.Aside h (.tryPopOnTrue queues.fromNicReceives call.span.getStartingTs) :=
      ⟨by simp [Command.dest], by simpa [Command.source] using hdest,
        by simp [Command.target], fun _ => if_neg hsource⟩
    refine (Party.aside_perform htake).bind fun h₁ next hkept₁ => ?_
    cases next with
    | none => exact keeps_pure trivial
    | some context =>
      refine (aside_cloneShared (hkept₁ _ hcall)).bind fun h₂ copy hcopy => ?_
      have hset : P.Aside h₂ (.startSpanSetParentContext copy context) := by
        refine ⟨by simp [Command.dest], by simp [Command.source], ?_, fun _ => rfl⟩
        rintro x ⟨⟩
        exact hcopy.1
      refine (Party.aside_perform hset).bind fun h₃ _ hkept₃ => ?_
      refine (Party.aside_perform (Party.aside_of rfl rfl rfl fun _ => rfl)).bind
        fun h₄ _ hkept₄ => ?_
      exact ih (hkept₄ _ (hkept₃ _ (hcopy.2 _ (hkept₁ _ hcall))))

theorem aside_finishPendingSpan (hsource : queues.fromNicReceives ≠ P.source)
    (hdest : queues.fromNicReceives ≠ P.dest)
    (hcall : ∀ call, st.pendingHostCallSpan = some call → call.id ∈ Log.calls h) :
    Keeps P.Aside P.rely (fun _ _ => True) (finishPendingSpan queues rounds st) h := by
  unfold finishPendingSpan
  cases hpending : st.pendingHostCallSpan with
  | none => exact keeps_pure trivial
  | some call =>
    have hid := hcall call hpending
    dsimp only
    split_ifs
    · exact keeps_perform (Party.aside_of rfl rfl rfl fun _ => rfl) fun _ _ => trivial
    · refine (Party.aside_perform (Party.aside_pop hsource hdest)).bind fun h₁ context hkept₁ => ?_
      have hadd : P.Aside h₁ (.addParentLazily call.id context) := by
        refine ⟨by simp [Command.dest], by simp [Command.source], ?_, fun _ => rfl⟩
        rintro x ⟨⟩
        exact hkept₁ _ hid
      refine (Party.aside_perform hadd).bind fun h₂ _ hkept₂ => ?_
      refine (aside_copyForReceives hsource hdest (hkept₂ _ (hkept₁ _ hid))).bind fun h₃ _ _ => ?_
      exact keeps_perform (Party.aside_of rfl rfl rfl fun _ => rfl) fun _ _ => trivial

/-- What is known of the pending call, and that the other spans are those of before. -/
structure CallOf (st : HostSpanner) (s : Option HostCallSpan × Bool) (h : Log) (st' : HostSpanner) :
    Prop where
  call : (st'.pendingHostCallSpan.map Allocated.span, st'.pciWriteBefore) = s
  callId : ∀ call, st'.pendingHostCallSpan = some call → call.id ∈ Log.calls h
  mmios : st'.pendingHostMmioSpans = st.pendingHostMmioSpans
  dmas : st'.pendingHostDmaSpans = st.pendingHostDmaSpans
  msix : st'.pendingHostMsixSpan = st.pendingHostMsixSpan

theorem aside_createTraceStartingSpan (hsource : queues.fromNicReceives ≠ P.source)
    (hdest : queues.fromNicReceives ≠ P.dest)
    (hcall : ∀ call, st.pendingHostCallSpan = some call → call.id ∈ Log.calls h) :
    Keeps P.Aside P.rely
      (st.CallOf (some (HostCallSpan.addToSpan env { isFragmented := false } ev).2, false))
      (createTraceStartingSpan env queues rounds st ev false) h := by
  unfold createTraceStartingSpan
  refine (aside_finishPendingSpan hsource hdest hcall).bind fun h₁ _ _ => ?_
  cases hadd : SpanClass.addToSpan env ({ isFragmented := false } : HostCallSpan) ev with
  | mk accepted span =>
    have hspan : (HostCallSpan.addToSpan env { isFragmented := false } ev).2 = span :=
      congrArg Prod.snd hadd
    refine keeps_bind (keeps_startSpan hadd (Party.aside_of rfl rfl rfl fun _ => rfl) fun id _ => ?_)
    refine keeps_pure ⟨by rw [hspan]; rfl, ?_, rfl, rfl, rfl⟩
    rintro call ⟨⟩
    have hnew : id ∈ Log.calls [⟨.startSpan .kHostCall ev accepted, id⟩] := List.mem_singleton.mpr rfl
    rw [Log.calls_append]
    exact List.mem_append_right _ hnew

theorem aside_addCall (hcalls : ev.getType = .kHostCallT) {call : Allocated HostCallSpan}
    (hpending : st.pendingHostCallSpan = some call) (hsource : queues.fromNicReceives ≠ P.source)
    (hdest : queues.fromNicReceives ≠ P.dest) (hcall : call.id ∈ Log.calls h) :
    Keeps P.Aside P.rely
      (fun h' r => st.CallOf (trackCall env (some call.span, st.pciWriteBefore) ev) h' r.2)
      (addCall env queues rounds st ev) h := by
  unfold addCall
  rw [hpending]
  refine keeps_bind (keeps_throwIfEmpty (fun hnone => nomatch hnone) fun call' hcall' => ?_)
  obtain rfl : call = call' := Option.some.inj hcall'
  have htrack : ∀ added span, SpanClass.addToSpan env call.span ev = (added, span) →
      trackCall env (some call.span, st.pciWriteBefore) ev =
        if added then (some span, env.isPciWrite ev)
        else if SpanClass.isComplete span then
          (some (HostCallSpan.addToSpan env { isFragmented := false } ev).2, false)
        else (some span, st.pciWriteBefore) := by
    intro added span hadd
    have hadd : HostCallSpan.addToSpan env call.span ev = (added, span) := hadd
    unfold trackCall
    rw [if_pos hcalls]
    simp only [hadd]
    cases added <;> rfl
  refine keeps_bind (keeps_addToSpan (fun span hadd => ⟨?_, ?_⟩) fun span hadd => ?_)
  · refine Party.aside_of rfl rfl rfl fun _ => if_neg ?_
    rw [hcalls]
    simp
  · rw [htrack true span hadd]
    refine keeps_pure ⟨rfl, ?_, rfl, rfl, rfl⟩
    rintro _ ⟨⟩
    rw [Log.calls_append]
    exact List.mem_append_left _ hcall
  · rw [htrack false span hadd]
    have hid : ∀ call', some (⟨call.id, span⟩ : Allocated HostCallSpan) = some call' →
        call'.id ∈ Log.calls h := by
      rintro _ ⟨⟩
      exact hcall
    by_cases hcomplete : SpanClass.isComplete span = true
    · simp only [isComplete_eq, hcomplete, if_true, if_false, Bool.false_eq_true]
      refine (aside_createTraceStartingSpan hsource hdest hid).bind fun h' st' hst' => ?_
      exact keeps_pure ⟨hst'.call, hst'.callId, hst'.mmios, hst'.dmas, hst'.msix⟩
    · simp only [isComplete_eq, hcomplete, if_false, Bool.false_eq_true]
      exact keeps_pure ⟨rfl, hid, rfl, rfl, rfl⟩

theorem aside_handelCall (hcalls : ev.getType = .kHostCallT)
    (hsource : queues.fromNicReceives ≠ P.source) (hdest : queues.fromNicReceives ≠ P.dest)
    (hcall : ∀ call, st.pendingHostCallSpan = some call → call.id ∈ Log.calls h) :
    Keeps P.Aside P.rely (fun h' r => st.CallOf (trackCall env
        (st.pendingHostCallSpan.map Allocated.span, st.pciWriteBefore) ev) h' r.2)
      (handelCall env queues rounds st ev) h := by
  unfold handelCall ensureCallSpan
  cases hpending : st.pendingHostCallSpan with
  | none =>
    simp only [Option.isNone_none, if_true, Option.map_none]
    refine (aside_createTraceStartingSpan hsource hdest hcall).bind fun h₁ st₁ hst₁ => ?_
    cases hpending₁ : st₁.pendingHostCallSpan with
    | none =>
      have hsome := congrArg Prod.fst hst₁.call
      simp [hpending₁] at hsome
    | some call =>
      have hfirst : (some call.span, st₁.pciWriteBefore) =
          (some (HostCallSpan.addToSpan env { isFragmented := false } ev).2, false) := by
        rw [← hst₁.call, hpending₁]
        rfl
      have hsame : trackCall env (none, st.pciWriteBefore) ev =
          trackCall env (some call.span, st₁.pciWriteBefore) ev := by
        rw [hfirst]
        unfold trackCall
        rw [if_pos hcalls, if_pos hcalls]
      rw [hsame]
      refine (aside_addCall hcalls hpending₁ hsource hdest (hst₁.callId call hpending₁)).mono ?_
      rintro h₂ r hr
      exact ⟨hr.call, hr.callId, hr.mmios.trans hst₁.mmios, hr.dmas.trans hst₁.dmas,
        hr.msix.trans hst₁.msix⟩
  | some call =>
    simp only [Option.isNone_some, Bool.false_eq_true, if_false, Option.map_some]
    exact aside_addCall hcalls hpending hsource hdest (hcall call hpending)

/-- What matters for contexts is not changed. -/
structure Unchanged (st st' : HostSpanner) : Prop where
  pciWriteBefore : st'.pciWriteBefore = st.pciWriteBefore
  call : st'.pendingHostCallSpan = st.pendingHostCallSpan
  mmios : st'.pendingHostMmioSpans = st.pendingHostMmioSpans
  dmas : st'.pendingHostDmaSpans = st.pendingHostDmaSpans
  msix : st'.pendingHostMsixSpan = st.pendingHostMsixSpan

theorem aside_startSpanByParent {St : Type} [SpanClass St] {new : St} {parent : Nat}
    (hmmio : SpanClass.type St ≠ .kHostMmio) (hmsix : SpanClass.type St ≠ .kNicMsix) :
    Keeps P.Aside P.rely (fun _ _ => True) (startSpanByParent env new parent ev) h := by
  cases hadd : SpanClass.addToSpan env new ev with
  | mk accepted span =>
    refine keeps_startSpanByParent hadd (Party.aside_of rfl rfl rfl fun _ => rfl) fun ref _ => ?_
    refine keeps_perform (Party.aside_of rfl rfl rfl fun _ => if_neg ?_) fun _ _ => trivial
    simp [hmmio, hmsix]

theorem aside_addEvent {span : Nat} (hev : ev.getType ≠ .kNicDmaExT) :
    P.Aside h (.addEvent span ev) :=
  Party.aside_of rfl rfl rfl fun _ => if_neg hev

theorem aside_handelPci (hev : ev.getType ≠ .kNicDmaExT) :
    Keeps P.Aside P.rely (fun _ r => st.Unchanged r.2) (handelPci env st ev) h := by
  have hstart : Keeps P.Aside P.rely (fun _ r => st.Unchanged r.2) (handelPciStart env st ev) h := by
    have hfinish : Keeps P.Aside P.rely (fun _ _ => True) (finishPciSpan st) h := by
      unfold finishPciSpan
      split
      · exact keeps_pure trivial
      · split_ifs
        · exact keeps_throw (Party.aside_of rfl rfl rfl fun _ => rfl)
        · exact keeps_perform (Party.aside_of rfl rfl rfl fun _ => rfl) fun _ _ => trivial
    unfold handelPciStart
    refine hfinish.bind fun h₁ _ _ => ?_
    refine keeps_bind (keeps_throwIfEmpty (fun _ => Party.aside_of rfl rfl rfl fun _ => rfl)
      fun call _ => ?_)
    refine (aside_startSpanByParent (by simp [SpanClass.type]) (by simp [SpanClass.type])).bind
      fun h₂ pci _ => ?_
    exact keeps_pure ⟨rfl, rfl, rfl, rfl, rfl⟩
  unfold handelPci
  split
  · split_ifs
    · refine keeps_bind (keeps_addToSpan (fun span _ => ⟨aside_addEvent hev, ?_⟩) fun span _ => ?_)
      · refine keeps_bind (keeps_whenever (fun hthrow => nomatch hthrow) fun _ => ?_)
        refine keeps_bind (keeps_perform (Party.aside_of rfl rfl rfl fun _ => rfl) fun _ _ => ?_)
        exact keeps_pure ⟨rfl, rfl, rfl, rfl, rfl⟩
      · exact keeps_bind (keeps_throw (Party.aside_of rfl rfl rfl fun _ => rfl))
    · exact hstart
  · exact hstart

theorem aside_handelInt (hev : ev.getType ≠ .kNicDmaExT) :
    Keeps P.Aside P.rely (fun _ r => st.Unchanged r.2) (handelInt env st ev) h := by
  unfold handelInt
  split
  · refine keeps_bind (keeps_throwIfEmpty (fun _ => Party.aside_of rfl rfl rfl fun _ => rfl)
      fun call _ => ?_)
    refine (aside_startSpanByParent (by simp [SpanClass.type]) (by simp [SpanClass.type])).bind
      fun h₂ int _ => ?_
    exact keeps_pure ⟨rfl, rfl, rfl, rfl, rfl⟩
  · refine keeps_bind (keeps_addToSpan (fun span _ => ⟨aside_addEvent hev, ?_⟩) fun span _ => ?_)
    · dsimp only
      split_ifs
      · exact keeps_pure ⟨rfl, rfl, rfl, rfl, rfl⟩
      · exact keeps_pure ⟨rfl, rfl, rfl, rfl, rfl⟩
      · refine keeps_bind (keeps_perform (Party.aside_of rfl rfl rfl fun _ => rfl) fun _ _ => ?_)
        exact keeps_pure ⟨rfl, rfl, rfl, rfl, rfl⟩
    · exact keeps_pure ⟨rfl, rfl, rfl, rfl, rfl⟩

section Follows

variable {past rest : List Event} {h' : Log} {st' : HostSpanner}

theorem Follows.conforms (hP : P.duties = hostDuties env (past ++ rest))
    (hst : Follows env P past h st) : Conforms P.duties (P.deeds h) := by
  obtain ⟨later, hlater⟩ := hostDuties_prefix env past rest
  rw [hP, ← hlater]
  exact .done hst.done

theorem Follows.faces (hP : P.duties = hostDuties env (past ++ ev :: rest))
    (hst : Follows env P past h st) {duty : Duty Expectation}
    (hduty : hostDuty st.pciWriteBefore ev = some duty) : P.Faces (hostDuties env past) ev duty := by
  refine ⟨hostDutiesFrom env (trackCall env
    (st.pendingHostCallSpan.map Allocated.span, st.pciWriteBefore) ev) rest, ?_⟩
  rw [hP]
  unfold hostDuties
  rw [hostDutiesFrom_append, hst.call, hostDutiesFrom, hduty]
  rfl

/-- The duties after the next event. -/
theorem Follows.duties_concat (hst : Follows env P past h st) :
    hostDuties env (past ++ [ev]) = hostDuties env past ++
      ((hostDuty st.pciWriteBefore ev).map fun duty => (ev, duty)).toList :=
  hostDuties_concat hst.call

theorem Follows.call_concat (hst : Follows env P past h st) :
    (past ++ [ev]).foldl (trackCall env) (none, false) =
      trackCall env (st.pendingHostCallSpan.map Allocated.span, st.pciWriteBefore) ev := by
  rw [List.foldl_append, hst.call]
  rfl

theorem mem_calls_of_prefix (hh : h <+: h') {x : Nat} (hx : x ∈ Log.calls h) : x ∈ Log.calls h' := by
  obtain ⟨new, rfl⟩ := hh
  rw [Log.calls_append]
  exact List.mem_append_left _ hx

/-- An event other than a call. -/
theorem Follows.next (hst : Follows env P past h st)
    (hdone : Done (hostDuties env (past ++ [ev])) (P.deeds h')) (hh : h <+: h')
    (htype : ev.getType ≠ .kHostCallT) (hpci : st'.pciWriteBefore = st.pciWriteBefore)
    (hcall : st'.pendingHostCallSpan = st.pendingHostCallSpan)
    (hmmios : ∀ p ∈ st'.pendingHostMmioSpans, p.span.hostMmioIssue.isSome)
    (houtstanding : ∃ out, (past ++ [ev]).foldlM HostOutstanding.next { } = some out ∧ st'.Holds out) :
    Follows env P (past ++ [ev]) h' st' := by
  refine ⟨hdone, ?_, ?_, hmmios, houtstanding⟩
  · rw [hst.call_concat, trackCall, if_neg htype, hcall, hpci]
  · intro call hpending
    exact mem_calls_of_prefix hh (hst.callId call (hcall ▸ hpending))

/-- An event that neither starts nor completes a DMA operation or an interrupt. -/
theorem Follows.holds_same (hst : Follows env P past h st) (horderly : HostOrderly (past ++ ev :: rest))
    (hnext : ∀ out : HostOutstanding, out.next ev = some out)
    (hdmas : st'.pendingHostDmaSpans = st.pendingHostDmaSpans)
    (hmsix : st'.pendingHostMsixSpan = st.pendingHostMsixSpan) :
    ∃ out, (past ++ [ev]).foldlM HostOutstanding.next { } = some out ∧ st'.Holds out := by
  obtain ⟨out, hout, hholds⟩ := hst.outstanding
  obtain ⟨out', hout', hall⟩ := horderly.next hout
  obtain rfl : out = out' := Option.some.inj ((hnext out).symm.trans hout')
  exact ⟨out, hall, hdmas ▸ hholds.dmas, hmsix ▸ hholds.msix⟩

/-- What is left to do when the span of an access is done with, as far as contexts go. -/
theorem keeps_mmioRest {mmio : Allocated HostMmioSpan} {duties : List (Event × Duty Expectation)}
    (hdone : Done duties (P.deeds h)) (hconforms : Conforms P.duties (P.deeds h)) (complete : Bool) :
    Keeps P.Guarantee P.rely (fun h' r => Done duties (P.deeds h') ∧
        r.2 = { st with pendingHostMmioSpans := st.pendingHostMmioSpans ++ [mmio] })
      (do
        whenever complete (markSpanAsDone mmio)
        return (true, { st with pendingHostMmioSpans := st.pendingHostMmioSpans ++ [mmio] })) h := by
  have haside : Keeps P.Aside P.rely
      (fun _ r => r.2 = { st with pendingHostMmioSpans := st.pendingHostMmioSpans ++ [mmio] })
      (do
        whenever complete (markSpanAsDone mmio)
        return (true, { st with pendingHostMmioSpans := st.pendingHostMmioSpans ++ [mmio] })) h := by
    refine keeps_bind (keeps_whenever (fun _ => ?_) fun _ => keeps_pure rfl)
    exact keeps_perform (Party.aside_of rfl rfl rfl fun _ => rfl) fun _ _ => keeps_pure rfl
  refine (Party.keeps_aside haside hconforms).mono ?_
  rintro h' r ⟨hr, hdeeds⟩
  exact ⟨hdeeds ▸ hdone, hr⟩

/-- The read or write of a register starts a span, whose context is passed on if it is for
the device and `pci_write_before_` is false. -/
theorem follows_mmioIssue (hapart : Apart queues) (hP : P = party env queues (past ++ ev :: rest))
    (hst : Follows env P past h st) (horderly : HostOrderly (past ++ ev :: rest))
    (hissue : ev.getType = .kHostMmioWT ∨ ev.getType = .kHostMmioRT) :
    Keeps P.Guarantee P.rely (fun h' r => Follows env P (past ++ [ev]) h' r.2)
      (handelMmio env queues st ev) h := by
  obtain ⟨span, hadd, hmmio, hbar, -⟩ := HostMmioSpan.addToSpan_new ev.getBar hissue
  have hfind : findAddErase env st.pendingHostMmioSpans ev = (none, st.pendingHostMmioSpans) :=
    findAddErase_none fun p hp => HostMmioSpan.addToSpan_issue (hst.mmios p hp) hissue
  have hconforms := hst.conforms (congrArg Party.duties hP)
  have hfaces : ∀ {duty}, hostDuty st.pciWriteBefore ev = some duty →
      P.Faces (hostDuties env past) ev duty := hst.faces (congrArg Party.duties hP)
  have hstart : ∀ (call : Nat) (ref : ParentRef) (id : Nat),
      P.deeds (h ++ [⟨.readParent call, ref⟩] ++ [⟨.startSpanByParent .kHostMmio ref ev true, id⟩]) =
        P.deeds h ++ [.note id ev] :=
    fun call ref id => Party.deeds_start (.inl rfl) h call ref ev true id
  have hdone : Keeps P.Guarantee P.rely (fun h' r => Done (hostDuties env (past ++ [ev])) (P.deeds h') ∧
      ∃ id, r.2 = { st with pendingHostMmioSpans := st.pendingHostMmioSpans ++ [⟨id, span⟩] })
      (handelMmio env queues st ev) h := by
    unfold handelMmio
    refine keeps_bind (keeps_iterateAddErase (fun pending hnone => ?_) fun p pending hsome => ?_)
    · obtain rfl : st.pendingHostMmioSpans = pending := (Prod.mk.inj (hfind.symm.trans hnone)).2
      refine keeps_bind (keeps_throwIfEmpty
        (fun _ => Party.guarantee_of hconforms rfl rfl rfl fun _ => rfl) fun call hcall => ?_)
      refine keeps_bind (keeps_startSpanByParent hadd
        (Party.guarantee_of hconforms rfl rfl rfl fun _ => rfl) fun ref _ => ?_)
      dsimp only
      rw [hbar, hst.duties_concat]
      by_cases hflag : (!st.pciWriteBefore && TraceEnvironment.isToDeviceBarNumber ev.getBar) = true
      · have hduty : hostDuty st.pciWriteBefore ev = some (.announce .kMmio) := by
          rcases hissue with htype | htype <;> simp [hostDuty, htype, hflag]
        have hdest : queues.toNic = P.dest := by
          rw [hP]
          rfl
        have hne : P.source ≠ P.dest := by
          rw [hP]
          exact hapart.toNic
        rw [hduty, hflag, hdest]
        refine keeps_perform ⟨?_, ?_, ?_, fun (id : Nat) _ => ?_⟩ fun (id : Nat) _ => ?_
        · simp [Command.dest]
        · simp [Command.source]
        · simp [Command.target]
        · have hstarts : Starts ev (.announce Expectation.kMmio) [.note id ev] := .announce
          have hnoted := (hfaces hduty).conforms_starts hst.done hstarts
          rwa [← hstart call.id ref id] at hnoted
        · refine (Party.keeps_announce hne (hfaces hduty) hst.done (hstart call.id ref id)).bind ?_
          intro h₁ _ hdone
          refine (keeps_mmioRest hdone ((hfaces hduty).conforms_concat hdone) _).mono ?_
          rintro h₂ r ⟨hdone, hr⟩
          exact ⟨hdone, id, hr⟩
      · have hduty : hostDuty st.pciWriteBefore ev = some .hold := by
          rcases hissue with htype | htype <;> simp [hostDuty, htype, hflag]
        have hheld : ∀ id : Nat, Done (hostDuties env past ++ [(ev, .hold)]) (P.deeds (h ++
            [⟨.readParent call.id, ref⟩] ++ [⟨.startSpanByParent .kHostMmio ref ev true, id⟩])) := by
          intro id
          have hdone : Done (hostDuties env past ++ [(ev, .hold)]) (P.deeds h ++ [.note id ev]) :=
            .concat hst.done .hold
          rwa [← hstart call.id ref id] at hdone
        rw [hduty]
        refine keeps_perform ⟨?_, ?_, ?_, fun (id : Nat) _ => ?_⟩ fun (id : Nat) _ => ?_
        · simp [Command.dest]
        · simp [Command.source]
        · simp [Command.target]
        · exact (hfaces hduty).conforms_concat (hheld id)
        · refine keeps_bind (keeps_whenever (fun htrue => absurd htrue hflag) fun _ => ?_)
          refine (keeps_mmioRest (hheld id) ((hfaces hduty).conforms_concat (hheld id)) _).mono ?_
          rintro h₂ r ⟨hdone, hr⟩
          exact ⟨hdone, id, hr⟩
    · cases hfind.symm.trans hsome
  refine hdone.history.mono ?_
  rintro h' ⟨b, st'⟩ ⟨⟨hdone, id, rfl⟩, hh⟩
  refine hst.next hdone hh ?_ rfl rfl ?_ (hst.holds_same horderly ?_ rfl rfl)
  · rcases hissue with htype | htype <;> simp [htype]
  · refine List.forall_mem_append.mpr ⟨hst.mmios, List.forall_mem_singleton.mpr ?_⟩
    rw [hmmio]
    rfl
  · rcases hissue with htype | htype <;> simp [HostOutstanding.next, htype]

/-- The duties are still done after an event without a duty. -/
theorem Follows.done_same (hst : Follows env P past h st)
    (hduty : hostDuty st.pciWriteBefore ev = none) (hdeeds : P.deeds h' = P.deeds h) :
    Done (hostDuties env (past ++ [ev])) (P.deeds h') := by
  rw [hst.duties_concat, hduty, hdeeds]
  simpa using hst.done

/-- A response or completion goes to a span, or does not start one. -/
theorem follows_mmioOther (hP : P.duties = hostDuties env (past ++ ev :: rest))
    (hst : Follows env P past h st) (horderly : HostOrderly (past ++ ev :: rest))
    (hev : ev.getType = .kHostMmioImRespPoWT ∨ ev.getType = .kHostMmioCWT ∨
      ev.getType = .kHostMmioCRT) :
    Keeps P.Guarantee P.rely (fun h' r => Follows env P (past ++ [ev]) h' r.2)
      (handelMmio env queues st ev) h := by
  have hconforms := hst.conforms hP
  have hrefused : (HostMmioSpan.addToSpan { barNumber := ev.getBar } ev).1 = false :=
    HostMmioSpan.addToSpan_new_of_ne ev.getBar
      (by rcases hev with htype | htype | htype <;> simp [htype])
      (by rcases hev with htype | htype | htype <;> simp [htype])
  have hmmios : ∀ p ∈ (findAddErase env st.pendingHostMmioSpans ev).2,
      p.span.hostMmioIssue.isSome :=
    (findAddErase_forall (P := fun s : HostMmioSpan => s.hostMmioIssue.isSome = true)
      (fun _ hs => HostMmioSpan.addToSpan_keeps_issue hs) hst.mmios).1
  have hsame : Keeps P.Guarantee P.rely (fun h' r => P.deeds h' = P.deeds h ∧
      ∃ pending, r.2 = { st with pendingHostMmioSpans := pending } ∧
        ∀ p ∈ pending, p.span.hostMmioIssue.isSome) (handelMmio env queues st ev) h := by
    unfold handelMmio
    refine keeps_bind (keeps_iterateAddErase (fun pending hnone => ?_) fun p pending hsome => ?_)
    · refine keeps_bind (keeps_throwIfEmpty
        (fun _ => Party.guarantee_of hconforms rfl rfl rfl fun _ => rfl) fun call _ => ?_)
      cases hadd : SpanClass.addToSpan env ({ barNumber := ev.getBar } : HostMmioSpan) ev with
      | mk accepted span =>
        obtain rfl : accepted = false := (congrArg Prod.fst hadd).symm.trans hrefused
        refine keeps_bind (keeps_startSpanByParent hadd
          (Party.guarantee_of hconforms rfl rfl rfl fun _ => rfl) fun ref _ => ?_)
        refine keeps_perform ⟨?_, ?_, ?_, fun id hid => ?_⟩ fun id hid => ?_
        · simp [Command.dest]
        · simp [Command.source]
        · simp [Command.target]
        · cases World.accepted_of_possible hid.1.1
        · cases World.accepted_of_possible hid.1.1
    · rw [hsome] at hmmios
      have hadd : P.Aside h (.addEvent p.id ev) :=
        aside_addEvent (by rcases hev with htype | htype | htype <;> simp [htype])
      have hdeeds : P.deeds (h ++ [⟨.addEvent p.id ev, ()⟩]) = P.deeds h :=
        Party.deeds_concat_none (hadd.deed ())
      have hrest : Keeps P.Aside P.rely (fun _ r => r.2 = { st with pendingHostMmioSpans := pending })
          (do
            whenever (isComplete p) (markSpanAsDone p)
            return (true, { st with pendingHostMmioSpans := pending }))
          (h ++ [⟨.addEvent p.id ev, ()⟩]) := by
        refine keeps_bind (keeps_whenever (fun _ => ?_) fun _ => keeps_pure rfl)
        exact keeps_perform (Party.aside_of rfl rfl rfl fun _ => rfl) fun _ _ => keeps_pure rfl
      refine ⟨hadd.guarantee hconforms, (Party.keeps_aside hrest (hdeeds.symm ▸ hconforms)).mono ?_⟩
      rintro h' r ⟨hr, hsame⟩
      exact ⟨hsame.trans hdeeds, pending, hr, hmmios⟩
  refine hsame.history.mono ?_
  rintro h' ⟨b, st'⟩ ⟨⟨hdeeds, pending, rfl, hpending⟩, hh⟩
  refine hst.next (hst.done_same ?_ hdeeds) hh ?_ rfl rfl hpending
    (hst.holds_same horderly ?_ rfl rfl)
  · rcases hev with htype | htype | htype <;> simp [hostDuty, htype]
  · rcases hev with htype | htype | htype <;> simp [htype]
  · rcases hev with htype | htype | htype <;> simp [HostOutstanding.next, htype]

/-- An interrupt needs its context. -/
theorem follows_handelMsix (hapart : Apart queues) (hP : P = party env queues (past ++ ev :: rest))
    (hst : Follows env P past h st) (horderly : HostOrderly (past ++ ev :: rest))
    (hev : ev.getType = .kHostMsiXT) :
    Keeps P.Guarantee P.rely (fun h' r => Follows env P (past ++ [ev]) h' r.2)
      (handelMsix env queues st ev) h := by
  have hduty : hostDuty st.pciWriteBefore ev = some (.attach .kMsix) := by simp [hostDuty, hev]
  have hfaces := hst.faces (congrArg Party.duties hP) hduty
  have hsource : queues.fromNic = P.source := by
    rw [hP]
    rfl
  have hne : P.source ≠ P.dest := by
    rw [hP]
    exact hapart.toNic
  obtain ⟨span, hadd, hopen⟩ := HostMsixSpan.addToSpan_new hev
  have hdone : Keeps P.Guarantee P.rely (fun h' r => Done (hostDuties env (past ++ [ev])) (P.deeds h') ∧
      ∃ id, r.2 = { st with pendingHostMsixSpan := some ⟨id, span⟩ })
      (handelMsix env queues st ev) h := by
    unfold handelMsix
    rw [hsource]
    refine (Party.keeps_receive hne hfaces hst.done).bind ?_
    rintro h₁ context ⟨hexp, hdeeds⟩
    rw [if_neg (not_not_intro hexp)]
    rw [← hexp] at hfaces hdeeds
    refine (Party.keeps_attach (by simp [SpanClass.type]) hfaces hst.done hdeeds).bind ?_
    rintro h₂ ⟨id, span'⟩ ⟨hdone, hadd'⟩
    obtain rfl : span = span' := (Prod.mk.inj (hadd.symm.trans hadd')).2
    refine keeps_pure ⟨?_, id, rfl⟩
    rw [hst.duties_concat, hduty, ← hexp]
    exact hdone
  refine hdone.history.mono ?_
  rintro h' ⟨b, st'⟩ ⟨⟨hdone, id, rfl⟩, hh⟩
  refine hst.next hdone hh (by simp [hev]) rfl rfl hst.mmios ?_
  obtain ⟨out, hout, hholds⟩ := hst.outstanding
  obtain ⟨out', hnext, hall⟩ := horderly.next hout
  have hmsix : { out with msix := some ev.parserIdentifier } = out' := by
    simpa [HostOutstanding.next, hev] using hnext
  subst hmsix
  exact ⟨_, hall, hholds.dmas, .some hopen⟩

theorem findAddErase_dmaExecution {keys : List (UInt64 × UInt64)}
    {pending : List (Allocated HostDmaSpan)}
    (hev : ev.getType = .kHostDmaWT ∨ ev.getType = .kHostDmaRT)
    (hkeys : List.Forall₂ (fun key (p : Allocated HostDmaSpan) => p.span.Open key) keys pending) :
    findAddErase env pending ev = (none, pending) := by
  induction hkeys with
  | nil => rfl
  | @cons key p keys pending hopen hrest ih =>
    have hadd : SpanClass.addToSpan env p.span ev = (false, p.span) := hopen.addToSpan_exec hev
    unfold findAddErase
    simp [hadd, ih]

/-- A completion goes to the first operation with its key. -/
theorem findAddErase_dmaCompletion (env : TraceEnvironment) {keys : List (UInt64 × UInt64)}
    {pending : List (Allocated HostDmaSpan)} (hev : ev.getType = .kHostDmaCT)
    (hkeys : List.Forall₂ (fun key (p : Allocated HostDmaSpan) => p.span.Open key) keys pending)
    (hmem : (ev.parserIdentifier, ev.getId) ∈ keys) :
    ∃ p rest, findAddErase env pending ev = (some p, rest) ∧ isComplete p = true ∧
      List.Forall₂ (fun key (p : Allocated HostDmaSpan) => p.span.Open key)
        (keys.erase (ev.parserIdentifier, ev.getId)) rest := by
  induction hkeys with
  | nil => cases hmem
  | @cons key p keys pending hopen hrest ih =>
    unfold findAddErase
    obtain ⟨hne, hrefused⟩ | ⟨rfl, span, htaken, hcomplete⟩ := hopen.addToSpan_completion hev
    · have hadd : SpanClass.addToSpan env p.span ev = (false, p.span) := hrefused
      obtain ⟨q, rest, hfind, hdone, hall⟩ := ih ((List.mem_cons.mp hmem).resolve_left hne)
      refine ⟨q, p :: rest, ?_, hdone, ?_⟩
      · simp [hadd, hfind]
      · rw [List.erase_cons_tail (by simpa using hne.symm)]
        exact .cons hopen hall
    · have hadd : SpanClass.addToSpan env p.span ev = (true, span) := htaken
      have hdone : SpanClass.isComplete span = true := by simp [hcomplete]
      refine ⟨⟨p.id, span⟩, pending, ?_, hdone, ?_⟩
      · simp [hadd, hdone]
      · rwa [List.erase_cons_head]

/-- An event that is nothing to the pending interrupt. -/
theorem handelDma_of_refused (hrefused : ∀ msix, st.pendingHostMsixSpan = some msix →
    msix.span.addToSpan ev = (false, msix.span)) :
    handelDma env queues st ev = handelDmaSpans env queues st ev := by
  unfold handelDma
  cases hpending : st.pendingHostMsixSpan with
  | none => rfl
  | some msix =>
    have hadd : SpanClass.addToSpan env msix.span ev = (false, msix.span) := hrefused msix hpending
    have hsame : { st with pendingHostMsixSpan := some msix } = st := by
      rw [← hpending]
    dsimp only
    unfold addToSpan
    rw [hadd]
    change handelDmaSpans env queues { st with pendingHostMsixSpan := some msix } ev = _
    rw [hsame]

/-- A DMA operation needs its context. -/
theorem follows_dmaExecution (hapart : Apart queues)
    (hP : P = party env queues (past ++ ev :: rest)) (hst : Follows env P past h st)
    (horderly : HostOrderly (past ++ ev :: rest))
    (hev : ev.getType = .kHostDmaWT ∨ ev.getType = .kHostDmaRT) :
    Keeps P.Guarantee P.rely (fun h' r => Follows env P (past ++ [ev]) h' r.2)
      (handelDma env queues st ev) h := by
  have hduty : hostDuty st.pciWriteBefore ev = some (.attach .kDma) := by
    rcases hev with htype | htype <;> simp [hostDuty, htype]
  have hfaces := hst.faces (congrArg Party.duties hP) hduty
  have hsource : queues.fromNic = P.source := by
    rw [hP]
    rfl
  have hne : P.source ≠ P.dest := by
    rw [hP]
    exact hapart.toNic
  obtain ⟨out, hout, hholds⟩ := hst.outstanding
  have hfind : findAddErase env st.pendingHostDmaSpans ev = (none, st.pendingHostDmaSpans) :=
    findAddErase_dmaExecution hev hholds.dmas
  obtain ⟨span, hadd, hopen⟩ := HostDmaSpan.addToSpan_new hev
  have hdone : Keeps P.Guarantee P.rely (fun h' r => Done (hostDuties env (past ++ [ev])) (P.deeds h') ∧
      ∃ id, r.2 = { st with pendingHostDmaSpans := st.pendingHostDmaSpans ++ [⟨id, span⟩] })
      (handelDma env queues st ev) h := by
    rw [handelDma_of_refused fun msix _ => HostMsixSpan.addToSpan_exec hev]
    unfold handelDmaSpans
    refine keeps_bind (keeps_iterateAddErase (fun pending hnone => ?_) fun p pending hsome => ?_)
    · obtain rfl : st.pendingHostDmaSpans = pending := (Prod.mk.inj (hfind.symm.trans hnone)).2
      dsimp only
      rw [hsource]
      refine (Party.keeps_receive hne hfaces hst.done).bind ?_
      rintro h₁ context ⟨hexp, hdeeds⟩
      have hnot : ev.getType ≠ .kHostDmaCT := by
        rcases hev with htype | htype <;> simp [htype]
      rw [if_neg (not_not_intro hexp), if_neg hnot]
      rw [← hexp] at hfaces hdeeds
      refine (Party.keeps_attach (by simp [SpanClass.type]) hfaces hst.done hdeeds).bind ?_
      rintro h₂ ⟨id, span'⟩ ⟨hdone, hadd'⟩
      obtain rfl : span = span' := (Prod.mk.inj (hadd.symm.trans hadd')).2
      refine keeps_pure ⟨?_, id, rfl⟩
      rw [hst.duties_concat, hduty, ← hexp]
      exact hdone
    · cases hfind.symm.trans hsome
  refine hdone.history.mono ?_
  rintro h' ⟨b, st'⟩ ⟨⟨hdone, id, rfl⟩, hh⟩
  have hnot : ev.getType ≠ .kHostCallT := by
    rcases hev with htype | htype <;> simp [htype]
  refine hst.next hdone hh hnot rfl rfl hst.mmios ?_
  obtain ⟨out', hnext, hall⟩ := horderly.next hout
  have hdmas : { out with dmas := out.dmas ++ [(ev.parserIdentifier, ev.getId)] } = out' := by
    rcases hev with htype | htype <;> simpa [HostOutstanding.next, htype] using hnext
  subst hdmas
  refine ⟨_, hall, List.rel_append hholds.dmas (.cons hopen .nil), hholds.msix⟩

/-- A completion goes to the interrupt or to a DMA operation. -/
theorem follows_dmaCompletion (hP : P.duties = hostDuties env (past ++ ev :: rest))
    (hst : Follows env P past h st) (horderly : HostOrderly (past ++ ev :: rest))
    (hev : ev.getType = .kHostDmaCT) :
    Keeps P.Guarantee P.rely (fun h' r => Follows env P (past ++ [ev]) h' r.2)
      (handelDma env queues st ev) h := by
  have hconforms := hst.conforms hP
  obtain ⟨out, hout, hholds⟩ := hst.outstanding
  obtain ⟨out', hnext, hall⟩ := horderly.next hout
  have hnot : ev.getType ≠ .kNicDmaExT := by simp [hev]
  have hadded : ∀ span : Nat, P.Guarantee h (.addEvent span ev) ∧
      P.deeds (h ++ [⟨.addEvent span ev, ()⟩]) = P.deeds h := by
    intro span
    have hadd : P.Aside h (.addEvent span ev) := aside_addEvent hnot
    exact ⟨hadd.guarantee hconforms, Party.deeds_concat_none (hadd.deed ())⟩
  have hsame : Keeps P.Guarantee P.rely (fun h' r => P.deeds h' = P.deeds h ∧
      r.2.pciWriteBefore = st.pciWriteBefore ∧ r.2.pendingHostCallSpan = st.pendingHostCallSpan ∧
      r.2.pendingHostMmioSpans = st.pendingHostMmioSpans ∧ r.2.Holds out')
      (handelDma env queues st ev) h := by
    unfold HostOutstanding.next at hnext
    rw [hev] at hnext
    dsimp only at hnext
    split_ifs at hnext with hid hmsix hmem
    · -- the interrupt
      obtain rfl := Option.some.inj hnext
      have hrel := hholds.msix
      rw [hmsix] at hrel
      cases hpending : st.pendingHostMsixSpan with
      | none =>
        rw [hpending] at hrel
        cases hrel
      | some msix =>
        rw [hpending] at hrel
        have hopen : msix.span.Open ev.parserIdentifier := by
          cases hrel with
          | some hopen => exact hopen
        unfold handelDma
        rw [hpending]
        obtain ⟨hother, -⟩ | ⟨-, span, htaken, -⟩ := hopen.addToSpan_completion hev
        · exact absurd ⟨rfl, hid⟩ hother
        · have hadd : SpanClass.addToSpan env msix.span ev = (true, span) := htaken
          refine keeps_bind (keeps_addToSpan (fun span' _ => ⟨(hadded msix.id).1, ?_⟩)
            fun span' hrefused => ?_)
          · have hmark : P.Aside (h ++ [⟨.addEvent msix.id ev, ()⟩])
                (.markSpanAsDone msix.id (SpanClass.toObject span')) :=
              Party.aside_of rfl rfl rfl fun _ => rfl
            have hdeeds := (hadded msix.id).2
            refine keeps_bind (keeps_perform (hmark.guarantee (hdeeds.symm ▸ hconforms)) fun r _ => ?_)
            refine keeps_pure ⟨?_, rfl, rfl, rfl, hholds.dmas, .none⟩
            exact (Party.deeds_concat_none (hmark.deed r)).trans hdeeds
          · cases hadd.symm.trans hrefused
    · -- a DMA operation
      obtain rfl := Option.some.inj hnext
      have hrefused : ∀ msix, st.pendingHostMsixSpan = some msix →
          msix.span.addToSpan ev = (false, msix.span) := by
        intro msix hpending
        refine HostMsixSpan.addToSpan_refused ?_
        have hrel := hholds.msix
        rw [hpending] at hrel
        generalize out.msix = parser at hrel
        cases hrel with
        | some hopen =>
          obtain ⟨-, hrefused⟩ | ⟨⟨-, hzero⟩, -⟩ := hopen.addToSpan_completion hev
          · rw [hrefused]
          · exact absurd hzero hid
      rw [handelDma_of_refused hrefused]
      obtain ⟨p, rest', hfind, hcomplete, hdmas⟩ :=
        findAddErase_dmaCompletion env hev hholds.dmas hmem
      unfold handelDmaSpans
      refine keeps_bind (keeps_iterateAddErase (fun pending hnone => ?_) fun q pending hsome => ?_)
      · cases hfind.symm.trans hnone
      · obtain ⟨hq, rfl⟩ := Prod.mk.inj (hfind.symm.trans hsome)
        obtain rfl := Option.some.inj hq
        have hdeeds := (hadded p.id).2
        refine ⟨(hadded p.id).1, ?_⟩
        dsimp only
        rw [hcomplete]
        have hmark : P.Aside (h ++ [⟨.addEvent p.id ev, ()⟩])
            (.markSpanAsDone p.id (SpanClass.toObject p.span)) :=
          Party.aside_of rfl rfl rfl fun _ => rfl
        refine keeps_bind (keeps_perform (hmark.guarantee (hdeeds.symm ▸ hconforms)) fun r _ => ?_)
        refine keeps_pure ⟨?_, rfl, rfl, rfl, hdmas, hholds.msix⟩
        exact (Party.deeds_concat_none (hmark.deed r)).trans hdeeds
  refine hsame.history.mono ?_
  rintro h' r ⟨⟨hdeeds, hpci, hcall, hmmios, hholds'⟩, hh⟩
  refine hst.next (hst.done_same ?_ hdeeds) hh ?_ hpci hcall ?_ ⟨out', hall, hholds'⟩
  · simp [hostDuty, hev]
  · simp [hev]
  · rw [hmmios]
    exact hst.mmios

theorem follows_unchanged (hP : P.duties = hostDuties env (past ++ ev :: rest))
    (hst : Follows env P past h st) (horderly : HostOrderly (past ++ ev :: rest))
    (hcall : ev.getType ≠ .kHostCallT) (hduty : hostDuty st.pciWriteBefore ev = none)
    (hnext : ∀ out : HostOutstanding, out.next ev = some out) {x : Spanning (Bool × HostSpanner)}
    (hx : Keeps P.Aside P.rely (fun _ r => st.Unchanged r.2) x h) :
    Keeps P.Guarantee P.rely (fun h' r => Follows env P (past ++ [ev]) h' r.2) x h := by
  refine (Party.keeps_aside hx (hst.conforms hP)).history.mono ?_
  rintro h' r ⟨⟨hsame, hdeeds⟩, hh⟩
  refine hst.next (hst.done_same hduty hdeeds) hh hcall hsame.pciWriteBefore hsame.call ?_
    (hst.holds_same horderly hnext hsame.dmas hsame.msix)
  rw [hsame.mmios]
  exact hst.mmios

theorem follows_handelCall (hapart : Apart queues) (hP : P = party env queues (past ++ ev :: rest))
    (hst : Follows env P past h st) (horderly : HostOrderly (past ++ ev :: rest))
    (hev : ev.getType = .kHostCallT) :
    Keeps P.Guarantee P.rely (fun h' r => Follows env P (past ++ [ev]) h' r.2)
      (handelCall env queues rounds st ev) h := by
  have hsource : queues.fromNicReceives ≠ P.source := by
    rw [hP]
    exact hapart.receives_from
  have hdest : queues.fromNicReceives ≠ P.dest := by
    rw [hP]
    exact hapart.receives_to
  have hduty : hostDuty st.pciWriteBefore ev = none := by simp [hostDuty, hev]
  have hnext : ∀ out : HostOutstanding, out.next ev = some out := by
    intro out
    simp [HostOutstanding.next, hev]
  refine (Party.keeps_aside (aside_handelCall hev hsource hdest hst.callId)
    (hst.conforms (congrArg Party.duties hP))).mono ?_
  rintro h' r ⟨hcall, hdeeds⟩
  refine ⟨hst.done_same hduty hdeeds, ?_, hcall.callId, ?_, ?_⟩
  · rw [hst.call_concat, hcall.call]
  · rw [hcall.mmios]
    exact hst.mmios
  · exact hst.holds_same horderly hnext hcall.dmas hcall.msix

theorem follows_consume (hapart : Apart queues) (hP : P = party env queues (past ++ ev :: rest))
    (hst : Follows env P past h st) (horderly : HostOrderly (past ++ ev :: rest)) :
    Keeps P.Guarantee P.rely (fun h' r => Follows env P (past ++ [ev]) h' r.2)
      (consume env queues rounds st ev) h := by
  have hduties := congrArg Party.duties hP
  unfold consume
  cases hev : ev.getType with
  | kHostCallT => exact follows_handelCall hapart hP hst horderly hev
  | kHostMmioWT => exact follows_mmioIssue hapart hP hst horderly (.inl hev)
  | kHostMmioRT => exact follows_mmioIssue hapart hP hst horderly (.inr hev)
  | kHostMmioImRespPoWT => exact follows_mmioOther hduties hst horderly (.inl hev)
  | kHostMmioCWT => exact follows_mmioOther hduties hst horderly (.inr (.inl hev))
  | kHostMmioCRT => exact follows_mmioOther hduties hst horderly (.inr (.inr hev))
  | kHostDmaWT => exact follows_dmaExecution hapart hP hst horderly (.inl hev)
  | kHostDmaRT => exact follows_dmaExecution hapart hP hst horderly (.inr hev)
  | kHostDmaCT => exact follows_dmaCompletion hduties hst horderly hev
  | kHostMsiXT => exact follows_handelMsix hapart hP hst horderly hev
  | kHostPciRWT | kHostConfT =>
    refine follows_unchanged hduties hst horderly ?_ ?_ (fun out => ?_) (aside_handelPci ?_)
    · simp [hev]
    · simp [hostDuty, hev]
    · simp [HostOutstanding.next, hev]
    · simp [hev]
  | kHostPostIntT | kHostClearIntT =>
    refine follows_unchanged hduties hst horderly ?_ ?_ (fun out => ?_) (aside_handelInt ?_)
    · simp [hev]
    · simp [hostDuty, hev]
    · simp [HostOutstanding.next, hev]
    · simp [hev]
  | _ =>
    refine follows_unchanged hduties hst horderly ?_ ?_ (fun out => ?_)
      (keeps_pure ⟨rfl, rfl, rfl, rfl, rfl⟩)
    · simp [hev]
    · simp [hostDuty, hev]
    · simp [HostOutstanding.next, hev]

/-- The spanner does its duties, given the contexts that it needs. -/
theorem follows_consumeAll (hapart : Apart queues) {evs : List Event} (horderly : HostOrderly evs) :
    Keeps (party env queues evs).Guarantee (party env queues evs).rely
      (Follows env (party env queues evs) evs) (consumeAll env queues rounds evs) [] := by
  refine Keeps.foldlM (Follows env (party env queues evs)) ?_ ?_
  · rintro past ev rest h st rfl hst
    refine keeps_bind ((follows_consume hapart rfl hst horderly).mono fun h' r hr => ?_)
    exact keeps_pure hr
  · refine ⟨.nil, rfl, ?_, ?_, { }, rfl, .nil, .none⟩
    · rintro call ⟨⟩
    · intro p hp
      cases hp

end Follows

end HostSpanner

end Columbo
