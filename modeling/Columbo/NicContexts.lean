import Columbo.ContextDuties
import Columbo.NicSpanner

/-!
# Contexts that a NIC takes and passes on

A NIC takes a context for every register access, and passes one on for every DMA operation
that it executes and for every interrupt.
-/
namespace Columbo

open Coroutine Spanner

/-- Contexts are needed for register accesses, and passed on for executions and interrupts. -/
def nicDuty (ev : Event) : Option (Duty Expectation) :=
  match ev.getType with
  | .kNicMmioWT | .kNicMmioRT => some (.attach .kMmio)
  | .kNicDmaExT => some (.announce .kDma)
  | .kNicMsixT => some (.announce .kMsix)
  | _ => none

def nicDuties (evs : List Event) : List (Event × Duty Expectation) :=
  evs.filterMap fun ev => (nicDuty ev).map fun duty => (ev, duty)

/-- What the events of a DMA operation have in common. -/
def Event.dmaKey (ev : Event) : UInt64 × UInt64 × UInt64 :=
  (ev.parserIdentifier, ev.getId, ev.getAddr)

/-- The operations that are issued and not executed; an execution has to be for one of them. -/
def nextIssues (issues : List (UInt64 × UInt64 × UInt64)) (ev : Event) :
    Option (List (UInt64 × UInt64 × UInt64)) :=
  match ev.getType with
  | .kNicDmaIT => some (issues ++ [ev.dmaKey])
  | .kNicDmaExT => if ev.dmaKey ∈ issues then some (issues.erase ev.dmaKey) else none
  | _ => some issues

/-- Every execution is for an operation of its own. -/
def NicOrderly (evs : List Event) : Prop := (evs.foldlM nextIssues []).isSome

instance (evs : List Event) : Decidable (NicOrderly evs) :=
  inferInstanceAs (Decidable (_ = true))

section

variable {past rest : List Event} {ev : Event}

theorem nicDuties_concat : nicDuties (past ++ [ev]) =
    nicDuties past ++ ((nicDuty ev).map fun duty => (ev, duty)).toList := by
  unfold nicDuties
  rw [List.filterMap_append]
  cases hduty : nicDuty ev <;> simp [hduty]

/-- The events so far were in order, and so is the next one. -/
theorem NicOrderly.next (h : NicOrderly (past ++ ev :: rest))
    {issues : List (UInt64 × UInt64 × UInt64)} (hissues : past.foldlM nextIssues [] = some issues) :
    ∃ issues', nextIssues issues ev = some issues' ∧
      (past ++ [ev]).foldlM nextIssues [] = some issues' := by
  unfold NicOrderly at h
  rw [List.foldlM_append, hissues] at h
  cases hnext : nextIssues issues ev with
  | none => simp [List.foldlM_cons, hnext] at h
  | some issues' =>
    refine ⟨issues', rfl, ?_⟩
    rw [List.foldlM_append, hissues]
    simp [List.foldlM_cons, hnext]

end

namespace NicDmaSpan

/-- A pending span has its issue, and perhaps its execution. -/
inductive Pending (s : NicDmaSpan) : Prop
  | issued {issue : Event} (hopen : s.Open [issue])
  | executed {issue exec : Event} (hopen : s.Open [issue, exec])

/-- The key of an operation that is not executed. -/
def waitingKey (s : NicDmaSpan) : Option (UInt64 × UInt64 × UInt64) :=
  if s.nicDmaExecution.isSome then none else s.dmaIssue.map Event.dmaKey

variable {s : NicDmaSpan} {ev issue exec : Event}

theorem Open.waitingKey_issued (h : s.Open [issue]) : s.waitingKey = some issue.dmaKey := by
  obtain ⟨-, -, hissue, hexec, -⟩ := h
  simp [waitingKey, hissue, hexec]

theorem Open.waitingKey_executed (h : s.Open [issue, exec]) : s.waitingKey = none := by
  obtain ⟨-, -, -, hexec, -⟩ := h
  simp [waitingKey, hexec]

/-- A refused event changes the flag at most. -/
theorem addToSpan_refused (hrefused : (s.addToSpan ev).1 = false) :
    (s.addToSpan ev).2.toEventSpan = s.toEventSpan ∧ (s.addToSpan ev).2.dmaIssue = s.dmaIssue ∧
      (s.addToSpan ev).2.nicDmaExecution = s.nicDmaExecution ∧
      (s.addToSpan ev).2.nicDmaCompletion = s.nicDmaCompletion := by
  fun_cases addToSpan s ev <;> simp_all [addToSpan]
  -- a completion of another operation, after the flag is set
  all_goals exact ⟨rfl, ‹_›, rfl, ‹_ ∧ _›.2⟩

/-- A pending span that refuses an event waits for the same as before. -/
theorem Pending.refused (h : s.Pending) (hrefused : (s.addToSpan ev).1 = false) :
    (s.addToSpan ev).2.Pending ∧ (s.addToSpan ev).2.waitingKey = s.waitingKey := by
  obtain ⟨hspan, hissue, hexec, hcompletion⟩ := addToSpan_refused hrefused
  have hopen : ∀ evs, s.Open evs → (s.addToSpan ev).2.Open evs := by
    intro evs hopen
    unfold Open
    rw [hspan, hissue, hexec, hcompletion]
    exact hopen
  constructor
  · cases h with
    | issued hissued => exact .issued (hopen _ hissued)
    | executed hexecuted => exact .executed (hopen _ hexecuted)
  · unfold waitingKey
    rw [hissue, hexec]

/-- A pending span takes an execution that it waits for, or a completion. -/
theorem Pending.taken (h : s.Pending) (htaken : (s.addToSpan ev).1 = true) :
    (ev.getType = .kNicDmaExT ∧ s.waitingKey = some ev.dmaKey ∧ (s.addToSpan ev).2.Pending ∧
        (s.addToSpan ev).2.waitingKey = none) ∨
      ((ev.getType = .kNicDmaCWT ∨ ev.getType = .kNicDmaCRT) ∧ s.waitingKey = none ∧
        (s.addToSpan ev).2.isPending = false) := by
  cases h with
  | @issued issue hopen =>
    have hkey := hopen.waitingKey_issued
    obtain ⟨hpending, hevents, hissue, hexec, hcompletion⟩ := hopen
    have hpotential := EventSpan.isPotentialAdd_cons hpending hevents ev
    refine .inl ?_
    fun_cases addToSpan s ev <;> simp_all [addToSpan]
    -- the execution of this operation
    refine ⟨?_, .executed ⟨rfl, rfl, rfl, rfl, rfl⟩, rfl⟩
    simp_all [Event.dmaKey, belongsTo]
  | @executed issue exec hopen =>
    obtain ⟨hpending, hevents, hissue, hexec, hcompletion⟩ := hopen
    refine .inr ?_
    fun_cases addToSpan s ev <;> simp_all [addToSpan, waitingKey]

/-- A span takes the execution that it waits for. -/
theorem Pending.takes (h : s.Pending) (hev : ev.getType = .kNicDmaExT)
    (hkey : s.waitingKey = some ev.dmaKey) : (s.addToSpan ev).1 = true := by
  cases h with
  | @issued issue hopen =>
    have hkey' : issue.dmaKey = ev.dmaKey :=
      Option.some.inj (hopen.waitingKey_issued.symm.trans hkey)
    obtain ⟨hparser, hid, haddr⟩ : issue.parserIdentifier = ev.parserIdentifier ∧
        issue.getId = ev.getId ∧ issue.getAddr = ev.getAddr := by
      simpa [Event.dmaKey] using hkey'
    have hown : belongsTo issue ev = true := by simp [belongsTo, hid, haddr]
    obtain ⟨s', htaken, -⟩ := hopen.addToSpan_execution hparser hown hev
    rw [htaken]
  | executed hopen => cases hopen.waitingKey_executed.symm.trans hkey

end NicDmaSpan

namespace NicSpanner

/-- The spanner of a NIC as a party. -/
def party (queues : NicQueues) (evs : List Event) : Party :=
  ⟨queues.fromHost, queues.toHost, nicDuties evs⟩

/-- The channels to and from the host are used for nothing else. -/
structure Apart (queues : NicQueues) : Prop where
  toHost : queues.fromHost ≠ queues.toHost
  toNetwork : queues.toNetwork ≠ queues.fromHost ∧ queues.toNetwork ≠ queues.toHost
  fromNetwork : queues.fromNetwork ≠ queues.fromHost ∧ queues.fromNetwork ≠ queues.toHost
  toHostReceives : queues.toHostReceives ≠ queues.fromHost ∧ queues.toHostReceives ≠ queues.toHost

/-- The list holds the operations that are not completed. -/
structure Holds (st : NicSpanner) (issues : List (UInt64 × UInt64 × UInt64)) : Prop where
  pending : ∀ p ∈ st.pendingNicDmaSpans, p.span.Pending
  waiting : st.pendingNicDmaSpans.filterMap (fun p => p.span.waitingKey) = issues

/-- The spanner after these events. -/
structure Follows (P : Party) (past : List Event) (h : Log) (st : NicSpanner) : Prop where
  done : Done (nicDuties past) (P.deeds h)
  outstanding : ∃ issues, past.foldlM nextIssues [] = some issues ∧ st.Holds issues

variable {env : TraceEnvironment} {queues : NicQueues} {st st' : NicSpanner} {ev : Event}
  {past rest : List Event} {h h' : Log} {P : Party} {issues : List (UInt64 × UInt64 × UInt64)}

/-- The spans that refuse an event wait for the same as before. -/
theorem refused_pending {pending : List (Allocated NicDmaSpan)}
    (hpending : ∀ p ∈ pending, p.span.Pending)
    (hrefused : ∀ p ∈ pending, (SpanClass.addToSpan env p.span ev).1 = false) :
    (∀ p ∈ pending.map (offer env ev), p.span.Pending) ∧
      (pending.map (offer env ev)).filterMap (fun p => p.span.waitingKey) =
        pending.filterMap (fun p => p.span.waitingKey) := by
  induction pending with
  | nil => exact ⟨fun p hp => (nomatch hp), rfl⟩
  | cons p pending ih =>
    obtain ⟨hp, hkey⟩ := (hpending p List.mem_cons_self).refused (hrefused p List.mem_cons_self)
    obtain ⟨hall, hkeys⟩ := ih (fun q hq => hpending q (List.mem_cons_of_mem p hq))
      fun q hq => hrefused q (List.mem_cons_of_mem p hq)
    have hoffered : (offer env ev p).span.waitingKey = p.span.waitingKey := hkey
    refine ⟨List.forall_mem_cons.mpr ⟨hp, hall⟩, ?_⟩
    rw [List.map_cons, List.filterMap_cons, List.filterMap_cons, hoffered, hkeys]

theorem isComplete_of_pending {p : Allocated NicDmaSpan} (hp : p.span.Pending) :
    isComplete p = false := by
  have hpending : p.span.isPending = true := by
    cases hp with
    | issued hopen => exact hopen.1
    | executed hopen => exact hopen.1
  simp [hpending]

variable (env) in
/-- An execution goes to the first span that waits for it. -/
theorem findAddErase_execution (hst : st.Holds issues) (hev : ev.getType = .kNicDmaExT)
    (hmem : ev.dmaKey ∈ issues) :
    ∃ p pending, findAddErase env st.pendingNicDmaSpans ev = (some p, pending) ∧
      isComplete p = false ∧
      { st with pendingNicDmaSpans := pending }.Holds (issues.erase ev.dmaKey) := by
  obtain ⟨hpending, rfl⟩ := hst
  have hwaits : ∀ p ∈ st.pendingNicDmaSpans, p.span.waitingKey = some ev.dmaKey →
      (SpanClass.addToSpan env p.span ev).1 = true :=
    fun p hp hkey => (hpending p hp).takes hev hkey
  obtain ⟨-, hall⟩ | ⟨front, p, back, hsplit, hfront, htakes, hfind⟩ :=
    findAddErase_cases env st.pendingNicDmaSpans ev
  · obtain ⟨p, hp, hkey⟩ := List.mem_filterMap.mp hmem
    cases (hall p hp).symm.trans (hwaits p hp hkey)
  · rw [hsplit] at hpending hwaits ⊢
    rw [hsplit] at hfind
    obtain ⟨hpendingFront, hpendingRest⟩ := List.forall_mem_append.mp hpending
    obtain ⟨hpendingP, hpendingBack⟩ := List.forall_mem_cons.mp hpendingRest
    obtain ⟨hoffered, hkeys⟩ := refused_pending hpendingFront hfront
    obtain ⟨-, hkey, hdone, hnone⟩ | ⟨hcompletion, -⟩ := hpendingP.taken htakes
    · have hcomplete : isComplete (offer env ev p) = false := isComplete_of_pending hdone
      rw [hcomplete] at hfind
      refine ⟨_, _, hfind, hcomplete, ?_, ?_⟩
      · refine List.forall_mem_append.mpr ⟨hoffered, ?_⟩
        exact List.forall_mem_cons.mpr ⟨hdone, hpendingBack⟩
      · have hnot : ev.dmaKey ∉ front.filterMap fun q => q.span.waitingKey := by
          intro hmem
          obtain ⟨q, hq, hkeyq⟩ := List.mem_filterMap.mp hmem
          cases (hfront q hq).symm.trans (hwaits q (List.mem_append_left _ hq) hkeyq)
        have hnone' : (offer env ev p).span.waitingKey = none := hnone
        rw [List.filterMap_append, hkeys, List.filterMap_append, List.erase_append_right _ hnot]
        simp [hkey, hnone']
    · rcases hcompletion with htype | htype <;> cases hev.symm.trans htype

variable (env) in
/-- Another event is no execution, so the same operations are waited for; at most it
completes one. -/
theorem findAddErase_other (hst : st.Holds issues) (hev : ev.getType ≠ .kNicDmaExT) :
    { st with pendingNicDmaSpans := (findAddErase env st.pendingNicDmaSpans ev).2 }.Holds issues ∧
      ∀ p, (findAddErase env st.pendingNicDmaSpans ev).1 = some p →
        (ev.getType = .kNicDmaCWT ∨ ev.getType = .kNicDmaCRT) ∧ isComplete p = true := by
  obtain ⟨hpending, rfl⟩ := hst
  obtain ⟨hfind, hall⟩ | ⟨front, p, back, hsplit, hfront, htakes, hfind⟩ :=
    findAddErase_cases env st.pendingNicDmaSpans ev
  · obtain ⟨hoffered, hkeys⟩ := refused_pending hpending hall
    rw [hfind]
    exact ⟨⟨hoffered, hkeys⟩, fun p hp => nomatch hp⟩
  · rw [hsplit] at hpending ⊢
    rw [hsplit] at hfind
    obtain ⟨hpendingFront, hpendingRest⟩ := List.forall_mem_append.mp hpending
    obtain ⟨hpendingP, hpendingBack⟩ := List.forall_mem_cons.mp hpendingRest
    obtain ⟨hoffered, hkeys⟩ := refused_pending hpendingFront hfront
    obtain ⟨hexecution, -⟩ | ⟨hcompletion, hkey, hdone⟩ := hpendingP.taken htakes
    · exact absurd hexecution hev
    · have hcomplete : isComplete (offer env ev p) = true := by
        have hpending : (offer env ev p).span.isPending = false := hdone
        simp [hpending]
      rw [hfind, hcomplete]
      refine ⟨⟨List.forall_mem_append.mpr ⟨hoffered, hpendingBack⟩, ?_⟩, ?_⟩
      · rw [if_pos rfl, List.filterMap_append, hkeys]
        simp [hkey]
      · rintro q ⟨⟩
        exact ⟨hcompletion, hcomplete⟩

theorem Follows.conforms (hP : P.duties = nicDuties (past ++ rest)) (hst : Follows P past h st) :
    Conforms P.duties (P.deeds h) := by
  rw [hP]
  unfold nicDuties
  rw [List.filterMap_append]
  exact .done hst.done

theorem faces_of_duty (hP : P.duties = nicDuties (past ++ ev :: rest)) {duty : Duty Expectation}
    (hduty : nicDuty ev = some duty) : P.Faces (nicDuties past) ev duty := by
  refine ⟨nicDuties rest, ?_⟩
  rw [hP]
  unfold nicDuties
  rw [List.filterMap_append, List.filterMap_cons, hduty]
  rfl

theorem done_concat {duty : Duty Expectation} (hduty : nicDuty ev = some duty)
    (hdone : Done (nicDuties past ++ [(ev, duty)]) (P.deeds h)) :
    Done (nicDuties (past ++ [ev])) (P.deeds h) := by
  rw [nicDuties_concat, hduty]
  exact hdone

theorem Follows.done_same (hst : Follows P past h st) (hduty : nicDuty ev = none)
    (hdeeds : P.deeds h' = P.deeds h) : Done (nicDuties (past ++ [ev])) (P.deeds h') := by
  rw [nicDuties_concat, hduty, hdeeds]
  simpa using hst.done

/-- An event that neither issues nor executes an operation. -/
theorem Follows.holds_same (hst : Follows P past h st) (horderly : NicOrderly (past ++ ev :: rest))
    (hnext : ∀ issues, nextIssues issues ev = some issues)
    (hpending : st'.pendingNicDmaSpans = st.pendingNicDmaSpans) :
    ∃ issues, (past ++ [ev]).foldlM nextIssues [] = some issues ∧ st'.Holds issues := by
  obtain ⟨issues, hissues, hholds⟩ := hst.outstanding
  obtain ⟨issues', hissues', hall⟩ := horderly.next hissues
  obtain rfl : issues = issues' := Option.some.inj ((hnext issues).symm.trans hissues')
  exact ⟨issues, hall, hpending ▸ hholds.pending, hpending ▸ hholds.waiting⟩

/-- A register access needs its context. -/
theorem follows_handelMmio (hapart : Apart queues) (hP : P = party queues (past ++ ev :: rest))
    (hst : Follows P past h st) (horderly : NicOrderly (past ++ ev :: rest))
    (hev : ev.getType = .kNicMmioWT ∨ ev.getType = .kNicMmioRT) :
    Keeps P.Guarantee P.rely (fun h' r => Follows P (past ++ [ev]) h' r.2)
      (handelMmio env queues st ev) h := by
  have hduty : nicDuty ev = some (.attach .kMmio) := by
    rcases hev with htype | htype <;> simp [nicDuty, htype]
  have hfaces := faces_of_duty (congrArg Party.duties hP) hduty
  have hsource : queues.fromHost = P.source := by
    rw [hP]
    rfl
  have hne : P.source ≠ P.dest := by
    rw [hP]
    exact hapart.toHost
  have hnext : ∀ issues, nextIssues issues ev = some issues := by
    intro issues
    rcases hev with htype | htype <;> simp [nextIssues, htype]
  unfold handelMmio
  rw [hsource]
  refine (Party.keeps_receive hne hfaces hst.done).bind ?_
  rintro h₁ context ⟨hexp, hdeeds⟩
  rw [if_neg (not_not_intro hexp)]
  rw [← hexp] at hfaces hdeeds
  refine (Party.keeps_attach (by simp [SpanClass.type]) hfaces hst.done hdeeds).bind ?_
  rintro h₂ mmio ⟨hdone, -⟩
  have hmark : P.Aside h₂ (.markSpanAsDone mmio.id (SpanClass.toObject mmio.span)) :=
    Party.aside_of rfl rfl rfl fun _ => rfl
  refine keeps_bind (keeps_perform (hmark.guarantee (hfaces.conforms_concat hdone)) fun r _ => ?_)
  refine keeps_pure ⟨?_, hst.holds_same horderly hnext ?_⟩
  · rw [hexp] at hdone
    have hdeeds₂ := Party.deeds_concat_none (h := h₂) (hmark.deed r)
    exact done_concat hduty (hdeeds₂.symm ▸ hdone)
  · split_ifs <;> rfl

/-- An interrupt is announced to the host. -/
theorem follows_handelMsix (hapart : Apart queues) (hP : P = party queues (past ++ ev :: rest))
    (hst : Follows P past h st) (horderly : NicOrderly (past ++ ev :: rest))
    (hev : ev.getType = .kNicMsixT) :
    Keeps P.Guarantee P.rely (fun h' r => Follows P (past ++ [ev]) h' r.2)
      (handelMsix env queues st ev) h := by
  have hduty : nicDuty ev = some (.announce .kMsix) := by simp [nicDuty, hev]
  have hfaces := faces_of_duty (congrArg Party.duties hP) hduty
  have hdest : queues.toHost = P.dest := by
    rw [hP]
    rfl
  have hne : P.source ≠ P.dest := by
    rw [hP]
    exact hapart.toHost
  have hnext : ∀ issues, nextIssues issues ev = some issues := by
    intro issues
    simp [nextIssues, hev]
  have hconforms := hst.conforms (congrArg Party.duties hP)
  unfold handelMsix
  refine keeps_bind (keeps_throwIfEmpty
    (fun _ => Party.guarantee_of hconforms rfl rfl rfl fun _ => rfl) fun parent _ => ?_)
  cases hadd : SpanClass.addToSpan env ({ } : NicMsixSpan) ev with
  | mk accepted span =>
    refine keeps_bind (keeps_startSpanByParent hadd
      (Party.guarantee_of hconforms rfl rfl rfl fun _ => rfl) fun ref _ => ?_)
    have hnoted : ∀ id : Nat, P.deeds (h ++ [⟨.readParent parent, ref⟩] ++
        [⟨.startSpanByParent .kNicMsix ref ev accepted, id⟩]) = P.deeds h ++ [.note id ev] :=
      fun id => Party.deeds_start (.inr rfl) h parent ref ev accepted id
    have hstarts : ∀ id : Nat, Conforms P.duties (P.deeds h ++ [.note id ev]) := by
      intro id
      have hstarts : Starts ev (.announce Expectation.kMsix) [.note id ev] := .announce
      exact hfaces.conforms_starts hst.done hstarts
    refine keeps_perform ⟨?_, ?_, ?_, fun (id : Nat) _ => ?_⟩ fun (id : Nat) _ => ?_
    · simp [Command.dest]
    · simp [Command.source]
    · simp [Command.target]
    · have hconforms' := hstarts id
      rwa [← hnoted id] at hconforms'
    · have hmark : P.Aside (h ++ [⟨.readParent parent, ref⟩] ++
          [⟨.startSpanByParent .kNicMsix ref ev accepted, id⟩])
          (.markSpanAsDone id (SpanClass.toObject span)) :=
        Party.aside_of rfl rfl rfl fun _ => rfl
      have hconforms' := hstarts id
      rw [← hnoted id] at hconforms'
      refine keeps_bind (keeps_perform (hmark.guarantee hconforms') fun r _ => ?_)
      have hdeeds := (Party.deeds_concat_none (h := _ ++ [_]) (hmark.deed r)).trans (hnoted id)
      rw [hdest]
      refine (Party.keeps_announce hne hfaces hst.done hdeeds).bind fun h₂ _ hdone => ?_
      exact keeps_pure ⟨done_concat hduty hdone, hst.holds_same horderly hnext rfl⟩

/-- An operation that is issued has a span of its own. -/
theorem addToSpan_issue_new (hev : ev.getType = .kNicDmaIT) {accepted : Bool} {span : NicDmaSpan}
    (hadd : SpanClass.addToSpan env ({ } : NicDmaSpan) ev = (accepted, span)) :
    span.Pending ∧ span.waitingKey = some ev.dmaKey := by
  obtain ⟨s, htaken, hopen⟩ := NicDmaSpan.addToSpan_new hev
  obtain ⟨-, rfl⟩ := Prod.mk.inj (htaken.symm.trans hadd)
  exact ⟨.issued hopen, hopen.waitingKey_issued⟩

/-- An executed operation is announced to the host. -/
theorem follows_dmaExecution (hapart : Apart queues) (hP : P = party queues (past ++ ev :: rest))
    (hst : Follows P past h st) (horderly : NicOrderly (past ++ ev :: rest))
    (hev : ev.getType = .kNicDmaExT) :
    Keeps P.Guarantee P.rely (fun h' r => Follows P (past ++ [ev]) h' r.2)
      (handelDma env queues st ev) h := by
  have hduty : nicDuty ev = some (.announce .kDma) := by simp [nicDuty, hev]
  have hfaces := faces_of_duty (congrArg Party.duties hP) hduty
  have hdest : queues.toHost = P.dest := by
    rw [hP]
    rfl
  have hne : P.source ≠ P.dest := by
    rw [hP]
    exact hapart.toHost
  obtain ⟨issues, hissues, hholds⟩ := hst.outstanding
  obtain ⟨issues', hnext, hall⟩ := horderly.next hissues
  have hmem : ev.dmaKey ∈ issues ∧ issues' = issues.erase ev.dmaKey := by
    simpa [nextIssues, hev, eq_comm] using hnext
  obtain ⟨p, pending, hfind, hcomplete, hholds'⟩ := findAddErase_execution env hholds hev hmem.1
  have hdeeds : P.deeds (h ++ [⟨.addEvent p.id ev, ()⟩]) = P.deeds h ++ [.note p.id ev] := by
    have hdeed : P.deed ⟨.addEvent p.id ev, ()⟩ = some (.note p.id ev) := if_pos hev
    exact Party.deeds_concat hdeed
  unfold handelDma
  refine keeps_bind (keeps_iterateAddErase ?_ ?_)
  · intro rest' hnone
    cases hnone.symm.trans hfind
  · intro found rest' hsome
    obtain ⟨hfound, rfl⟩ := Prod.mk.inj (hfind.symm.trans hsome)
    obtain rfl := Option.some.inj hfound
    refine ⟨?_, ?_⟩
    · refine ⟨by simp [Command.dest], by simp [Command.source], by simp [Command.target],
        fun _ _ => ?_⟩
      have hstarts : Starts ev (.announce Expectation.kDma) [.note p.id ev] := .announce
      exact hdeeds.symm ▸ hfaces.conforms_starts hst.done hstarts
    · have hannounce : announceDma queues p ev = pushPropagateContext .kDma P.dest p.id := by
        simp only [announceDma, hcomplete, hev, hdest]
        rfl
      simp only [hannounce]
      refine (Party.keeps_announce hne hfaces hst.done hdeeds).bind fun h₂ _ hdone => ?_
      exact keeps_pure ⟨done_concat hduty hdone, issues', hall, hmem.2 ▸ hholds'⟩

/-- The other events of DMA operations are of no interest to the host. -/
theorem follows_dmaOther (hP : P.duties = nicDuties (past ++ ev :: rest))
    (hst : Follows P past h st) (horderly : NicOrderly (past ++ ev :: rest))
    (hev : ev.getType = .kNicDmaIT ∨ ev.getType = .kNicDmaCWT ∨ ev.getType = .kNicDmaCRT) :
    Keeps P.Guarantee P.rely (fun h' r => Follows P (past ++ [ev]) h' r.2)
      (handelDma env queues st ev) h := by
  have hne : ev.getType ≠ .kNicDmaExT := by
    rcases hev with htype | htype | htype <;> simp [htype]
  have hduty : nicDuty ev = none := by
    rcases hev with htype | htype | htype <;> simp [nicDuty, htype]
  obtain ⟨issues, hissues, hholds⟩ := hst.outstanding
  obtain ⟨issues', hnext, hall⟩ := horderly.next hissues
  obtain ⟨hholds', hcomplete⟩ := findAddErase_other env hholds hne
  suffices hx : Keeps P.Aside P.rely (fun _ r => r.2.Holds issues')
      (handelDma env queues st ev) h by
    refine (Party.keeps_aside hx (hst.conforms hP)).mono ?_
    rintro h' r ⟨hholds, hdeeds⟩
    exact ⟨hst.done_same hduty hdeeds, issues', hall, hholds⟩
  unfold handelDma
  refine keeps_bind (keeps_iterateAddErase (fun pending hnone => ?_) fun p pending hsome => ?_)
  · rw [hnone] at hholds'
    dsimp only
    split_ifs with hissue
    · have hsame : issues = issues' := by
        rcases hev with htype | htype | htype
        · exact absurd htype hissue
        · simpa [nextIssues, htype] using hnext
        · simpa [nextIssues, htype] using hnext
      subst hsame
      exact keeps_pure hholds'
    · have htype : ev.getType = .kNicDmaIT := not_not.mp hissue
      have hissues' : issues ++ [ev.dmaKey] = issues' := by simpa [nextIssues, htype] using hnext
      subst hissues'
      refine keeps_bind (keeps_throwIfEmpty (fun _ => Party.aside_of rfl rfl rfl fun _ => rfl)
        fun parent _ => ?_)
      cases hadd : SpanClass.addToSpan env ({ } : NicDmaSpan) ev with
      | mk accepted span =>
        obtain ⟨hnew, hkey⟩ := addToSpan_issue_new htype hadd
        refine keeps_bind (keeps_startSpanByParent hadd (Party.aside_of rfl rfl rfl fun _ => rfl)
          fun ref _ => keeps_perform (Party.aside_of rfl rfl rfl fun _ => rfl) fun id _ => ?_)
        refine keeps_pure ⟨List.forall_mem_append.mpr ⟨hholds'.pending, ?_⟩, ?_⟩
        · rintro p hp
          obtain rfl := List.mem_singleton.mp hp
          exact hnew
        · rw [List.filterMap_append, hholds'.waiting]
          simp [hkey]
  · rw [hsome] at hholds' hcomplete
    obtain ⟨hcompletion, hdone⟩ := hcomplete p rfl
    have hsame : issues = issues' := by
      rcases hcompletion with htype | htype <;> simpa [nextIssues, htype] using hnext
    subst hsame
    have hannounce : announceDma queues p ev = markSpanAsDone p := if_pos hdone
    refine ⟨Party.aside_of rfl rfl rfl fun _ => if_neg hne, ?_⟩
    simp only [hannounce]
    exact keeps_bind (keeps_perform (Party.aside_of rfl rfl rfl fun _ => rfl) fun _ _ =>
      keeps_pure hholds')

/-- The channels of packets are of no interest to the host. -/
theorem aside_pushPropagateContext {dest : Channel} (hsource : dest ≠ P.source)
    (hdest : dest ≠ P.dest) {exp : Expectation} {parent : Nat} :
    Keeps P.Aside P.rely (fun _ _ => True) (pushPropagateContext exp dest parent) h := by
  refine keeps_pushPropagateContext (Party.aside_of rfl rfl rfl fun _ => rfl) fun c _ => ⟨?_, trivial⟩
  exact ⟨by simpa [Command.dest] using hsource, by simp [Command.source],
    by simp [Command.target], fun _ => if_neg hdest⟩

theorem aside_handelTx (hsource : queues.toNetwork ≠ P.source) (hdest : queues.toNetwork ≠ P.dest) :
    Keeps P.Aside P.rely (fun _ r => r.2.pendingNicDmaSpans = st.pendingNicDmaSpans)
      (handelTx env queues st ev) h := by
  unfold handelTx
  refine keeps_bind (keeps_throwIfEmpty (fun _ => Party.aside_of rfl rfl rfl fun _ => rfl)
    fun parent _ => ?_)
  cases hadd : SpanClass.addToSpan env ({ } : NicEthSpan) ev with
  | mk accepted span =>
    refine keeps_bind (keeps_startSpanByParent hadd (Party.aside_of rfl rfl rfl fun _ => rfl)
      fun ref _ => keeps_perform (Party.aside_of rfl rfl rfl fun _ => rfl) fun id _ => ?_)
    refine (aside_pushPropagateContext hsource hdest).bind fun _ _ _ => ?_
    exact keeps_bind (keeps_perform (Party.aside_of rfl rfl rfl fun _ => rfl) fun _ _ =>
      keeps_pure rfl)

theorem aside_handelRx (hnet : queues.fromNetwork ≠ P.source) (hnet' : queues.fromNetwork ≠ P.dest)
    (hsource : queues.toHostReceives ≠ P.source) (hdest : queues.toHostReceives ≠ P.dest) :
    Keeps P.Aside P.rely (fun _ r => r.2.pendingNicDmaSpans = st.pendingNicDmaSpans)
      (handelRx env queues st ev) h := by
  unfold handelRx
  refine keeps_bind (keeps_perform (Party.aside_pop hnet hnet') fun con _ => ?_)
  refine keeps_bind (keeps_whenever (fun _ => ?_) fun _ => ?_)
  · exact keeps_throw (Party.aside_of rfl rfl rfl fun _ => rfl)
  cases hadd : SpanClass.addToSpan env ({ } : NicEthSpan) ev with
  | mk accepted span =>
    have hstart : P.Aside (h ++ [⟨.pop queues.fromNetwork (some .kRx), con⟩])
        (.startSpanByParentPassOnContext .kNicEth con ev accepted) :=
      Party.aside_of rfl rfl rfl fun _ => rfl
    refine keeps_bind (keeps_startSpanByParentPassOnContext hadd hstart fun id _ => ?_)
    refine (aside_pushPropagateContext hsource hdest).bind fun _ _ _ => ?_
    exact keeps_bind (keeps_perform (Party.aside_of rfl rfl rfl fun _ => rfl) fun _ _ =>
      keeps_pure rfl)

theorem aside_handelTxrx (hapart : Apart queues) (hP : P = party queues (past ++ ev :: rest)) :
    Keeps P.Aside P.rely (fun _ r => r.2.pendingNicDmaSpans = st.pendingNicDmaSpans)
      (handelTxrx env queues st ev) h := by
  subst hP
  unfold handelTxrx
  split_ifs
  · exact aside_handelTx hapart.toNetwork.1 hapart.toNetwork.2
  · exact aside_handelRx hapart.fromNetwork.1 hapart.fromNetwork.2 hapart.toHostReceives.1
      hapart.toHostReceives.2
  · exact keeps_pure rfl

theorem follows_unchanged (hP : P.duties = nicDuties (past ++ ev :: rest))
    (hst : Follows P past h st) (horderly : NicOrderly (past ++ ev :: rest))
    (hduty : nicDuty ev = none) (hnext : ∀ issues, nextIssues issues ev = some issues)
    {x : Spanning (Bool × NicSpanner)} (hx : Keeps P.Aside P.rely
      (fun _ r => r.2.pendingNicDmaSpans = st.pendingNicDmaSpans) x h) :
    Keeps P.Guarantee P.rely (fun h' r => Follows P (past ++ [ev]) h' r.2) x h := by
  refine (Party.keeps_aside hx (hst.conforms hP)).mono ?_
  rintro h' r ⟨hpending, hdeeds⟩
  exact ⟨hst.done_same hduty hdeeds, hst.holds_same horderly hnext hpending⟩

theorem follows_consume (hapart : Apart queues) (hP : P = party queues (past ++ ev :: rest))
    (hst : Follows P past h st) (horderly : NicOrderly (past ++ ev :: rest)) :
    Keeps P.Guarantee P.rely (fun h' r => Follows P (past ++ [ev]) h' r.2)
      (consume env queues st ev) h := by
  have hduties := congrArg Party.duties hP
  unfold consume
  cases hev : ev.getType with
  | kNicMmioWT => exact follows_handelMmio hapart hP hst horderly (.inl hev)
  | kNicMmioRT => exact follows_handelMmio hapart hP hst horderly (.inr hev)
  | kNicDmaIT => exact follows_dmaOther hduties hst horderly (.inl hev)
  | kNicDmaExT => exact follows_dmaExecution hapart hP hst horderly hev
  | kNicDmaCWT => exact follows_dmaOther hduties hst horderly (.inr (.inl hev))
  | kNicDmaCRT => exact follows_dmaOther hduties hst horderly (.inr (.inr hev))
  | kNicMsixT => exact follows_handelMsix hapart hP hst horderly hev
  | kNicTxT | kNicRxT =>
    refine follows_unchanged hduties hst horderly ?_ (fun issues => ?_) (aside_handelTxrx hapart hP)
    · simp [nicDuty, hev]
    · simp [nextIssues, hev]
  | _ =>
    refine follows_unchanged hduties hst horderly ?_ (fun issues => ?_) (keeps_pure rfl)
    · simp [nicDuty, hev]
    · simp [nextIssues, hev]

/-- The spanner does its duties, given the contexts that it needs. -/
theorem follows_consumeAll (hapart : Apart queues) {evs : List Event} (horderly : NicOrderly evs) :
    Keeps (party queues evs).Guarantee (party queues evs).rely
      (Follows (party queues evs) evs) (consumeAll env queues evs) [] := by
  refine Keeps.foldlM (Follows (party queues evs)) ?_ ?_
  · rintro past ev rest h st rfl hst
    refine keeps_bind ((follows_consume hapart rfl hst horderly).mono fun h' r hr => ?_)
    exact keeps_pure hr
  · refine ⟨.nil, [], rfl, ?_, rfl⟩
    intro p hp
    cases hp

end NicSpanner

end Columbo
