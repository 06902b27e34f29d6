import Columbo.Interleaving
import Columbo.SpannerRuns
import Mathlib.Algebra.Order.Group.Multiset

/-!
# Register accesses of the host

An access is issued and completed; a posted write gets a response at once, and its
completion comes later. The list of the spanner holds the accesses that are open. What it
does not hold is a span for a completion that comes after the response, or for one of an
access to another BAR than that of the device.
-/
namespace Columbo

open Coroutine Spanner Interleaving

/-- A read, a write or a posted write, with its completion. -/
inductive MmioTransaction : List Event → Prop
  | none : MmioTransaction []
  | read {issue completion : Event} (hissue : issue.getType = .kHostMmioRT)
    (hcompletion : completion.getType = .kHostMmioCRT)
    (hparser : completion.parserIdentifier = issue.parserIdentifier)
    (hid : completion.getId = issue.getId) : MmioTransaction [issue, completion]
  | write {issue completion : Event} (hissue : issue.getType = .kHostMmioWT)
    (hposted : issue.isPosted = false) (hcompletion : completion.getType = .kHostMmioCWT)
    (hparser : completion.parserIdentifier = issue.parserIdentifier)
    (hid : completion.getId = issue.getId) : MmioTransaction [issue, completion]
  | posted {issue response completion : Event} (hissue : issue.getType = .kHostMmioWT)
    (hposted : issue.isPosted = true) (hresponse : response.getType = .kHostMmioImRespPoWT)
    (hts : response.getTs = issue.getTs)
    (hsame : response.parserIdentifier = issue.parserIdentifier)
    (hcompletion : completion.getType = .kHostMmioCWT)
    (hparser : completion.parserIdentifier = issue.parserIdentifier)
    (hid : completion.getId = issue.getId) : MmioTransaction [issue, response, completion]

namespace Event

def isMmioIssue (ev : Event) : Bool := ev.getType = .kHostMmioWT ∨ ev.getType = .kHostMmioRT

def isMmioCompletion (ev : Event) : Bool :=
  ev.getType = .kHostMmioCWT ∨ ev.getType = .kHostMmioCRT

/-- A read or a write that is not posted, in the BAR of the device. -/
def isPlain (ev : Event) : Bool := ev.getBar = 0 ∧ ev.isPosted = false

theorem isMmioIssue_of_posted {ev : Event} (h : ev.isPosted = true) :
    ev.getType = .kHostMmioWT := by
  obtain ⟨ts, parser, name, kind⟩ := ev
  cases kind with
  | hostMmioW => rfl
  | _ => cases h

end Event

/-- Any number of transactions; the response to a posted write is the next event. -/
structure MmioInterleaving (l : List (Nat × Event)) : Prop where
  transaction : ∀ t, MmioTransaction (own t l)
  immediate : ∀ past t issue rest, l = past ++ (t, issue) :: rest → issue.isPosted = true →
    ∃ response rest', rest = (t, response) :: rest'

/-- What an event of a transaction comes after. -/
inductive MmioStage (past : List Event) (ev : Event) : Prop
  | issue (hpast : past = []) (hev : ev.isMmioIssue = true)
  | response {issue : Event} (hpast : past = [issue]) (hposted : issue.isPosted = true)
    (hev : ev.getType = .kHostMmioImRespPoWT)
    (hparser : issue.parserIdentifier = ev.parserIdentifier) (hts : issue.getTs = ev.getTs)
  | completion {issue : Event} {rest : List Event} (hpast : past = issue :: rest)
    (hissue : issue.isMmioIssue = true) (hev : ev.isMmioCompletion = true)
    (hkey : issue.mmioKey = ev.mmioKey)
    (hrest : rest = [] ∧ issue.isPosted = false ∨
      ∃ response, rest = [response] ∧ response.getType = .kHostMmioImRespPoWT)

theorem MmioTransaction.stage {past rest : List Event} {ev : Event}
    (h : MmioTransaction (past ++ ev :: rest)) : MmioStage past ev := by
  generalize hall : past ++ ev :: rest = all at h
  cases h with
  | none => simp at hall
  | @read issue completion hissue hcompletion hparser hid =>
    rcases past with _ | ⟨i, _ | ⟨j, past⟩⟩
    · obtain ⟨rfl, -⟩ := List.cons.inj hall
      exact .issue rfl (by simp [Event.isMmioIssue, hissue])
    · obtain ⟨rfl, hrest⟩ := List.cons.inj hall
      obtain ⟨rfl, -⟩ := List.cons.inj hrest
      exact .completion rfl (by simp [Event.isMmioIssue, hissue])
        (by simp [Event.isMmioCompletion, hcompletion])
        (by simp [Event.mmioKey, hissue, hcompletion, hparser, hid])
        (.inl ⟨rfl, Event.isPosted_of_read hissue⟩)
    · simp at hall
  | @write issue completion hissue hposted hcompletion hparser hid =>
    rcases past with _ | ⟨i, _ | ⟨j, past⟩⟩
    · obtain ⟨rfl, -⟩ := List.cons.inj hall
      exact .issue rfl (by simp [Event.isMmioIssue, hissue])
    · obtain ⟨rfl, hrest⟩ := List.cons.inj hall
      obtain ⟨rfl, -⟩ := List.cons.inj hrest
      exact .completion rfl (by simp [Event.isMmioIssue, hissue])
        (by simp [Event.isMmioCompletion, hcompletion])
        (by simp [Event.mmioKey, hissue, hcompletion, hparser, hid]) (.inl ⟨rfl, hposted⟩)
    · simp at hall
  | @posted issue response completion hissue hposted hresponse hts hsame hcompletion hparser hid =>
    rcases past with _ | ⟨i, _ | ⟨j, _ | ⟨k, past⟩⟩⟩
    · obtain ⟨rfl, -⟩ := List.cons.inj hall
      exact .issue rfl (by simp [Event.isMmioIssue, hissue])
    · obtain ⟨rfl, hrest⟩ := List.cons.inj hall
      obtain ⟨rfl, -⟩ := List.cons.inj hrest
      exact .response rfl hposted hresponse hsame.symm hts.symm
    · obtain ⟨rfl, hrest⟩ := List.cons.inj hall
      obtain ⟨hsecond, hrest⟩ := List.cons.inj hrest
      obtain ⟨rfl, -⟩ := List.cons.inj hrest
      exact .completion rfl (by simp [Event.isMmioIssue, hissue])
        (by simp [Event.isMmioCompletion, hcompletion])
        (by simp [Event.mmioKey, hissue, hcompletion, hparser, hid]) (.inr ⟨j, rfl, hsecond ▸ hresponse⟩)
    · simp at hall

namespace MmioInterleaving

variable {l past rest : List (Nat × Event)} {t : Nat} {ev : Event}

theorem stage (hl : MmioInterleaving l) (h : l = past ++ (t, ev) :: rest) :
    MmioStage (own t past) ev := by
  have htransaction := hl.transaction t
  rw [h, List.append_cons, own_append, own_concat_self, List.append_assoc] at htransaction
  exact htransaction.stage

/-- After the issue of a posted write comes its response. -/
theorem after_posted (hl : MmioInterleaving l) (h : l = past ++ (t, ev) :: rest) {issue : Event}
    (hlast : (past.map Prod.snd).getLast? = some issue) (hposted : issue.isPosted = true) :
    ev.getType = .kHostMmioImRespPoWT ∧ issue.parserIdentifier = ev.parserIdentifier ∧
      issue.getTs = ev.getTs := by
  obtain ⟨⟨t', issue'⟩, hlast', rfl⟩ : ∃ x, past.getLast? = some x ∧ x.2 = issue := by
    simpa using hlast
  obtain ⟨front, rfl⟩ := List.getLast?_eq_some_iff.mp hlast'
  obtain ⟨response, rest', hrest⟩ := hl.immediate front t' issue' ((t, ev) :: rest)
    (by rw [h, List.append_assoc]; rfl) hposted
  obtain ⟨htag, -⟩ := List.cons.inj hrest
  obtain rfl : t = t' := congrArg Prod.fst htag
  have hstage := hl.stage h
  rw [own_concat_self] at hstage
  cases hstage with
  | issue hpast _ => simp at hpast
  | response hpast _ hev hparser hts =>
    obtain rfl : issue' = _ := by simpa using congrArg List.getLast? hpast
    exact ⟨hev, hparser, hts⟩
  | @completion first rest hpast _ _ _ hor =>
    rcases hor with ⟨rfl, hnot⟩ | ⟨response, rfl, hresponse⟩
    · obtain rfl : issue' = _ := by simpa using congrArg List.getLast? hpast
      cases hnot.symm.trans hposted
    · obtain rfl : issue' = _ := by simpa using congrArg List.getLast? hpast
      cases hresponse.symm.trans (Event.isMmioIssue_of_posted hposted)

/-- Before a response comes its issue. -/
theorem before_response (hl : MmioInterleaving l) (h : l = past ++ (t, ev) :: rest) {issue : Event}
    (hpast : own t past = [issue]) (hposted : issue.isPosted = true) :
    (past.map Prod.snd).getLast? = some issue := by
  have hmem : (t, issue) ∈ past := mem_own.mp (by simp [hpast])
  obtain ⟨front, mid, rfl⟩ := List.append_of_mem hmem
  obtain ⟨response, rest', hrest⟩ := hl.immediate front t issue (mid ++ (t, ev) :: rest)
    (by rw [h, List.append_assoc]; rfl) hposted
  cases mid with
  | nil => simp
  | cons x mid =>
    obtain ⟨rfl, -⟩ := List.cons.inj hrest
    have hmiddle : front ++ (t, issue) :: (t, response) :: mid =
        front ++ [(t, issue)] ++ [(t, response)] ++ mid := by simp
    rw [hmiddle, own_append, own_concat_self, own_concat_self] at hpast
    have hlength := congrArg List.length hpast
    simp only [List.length_append, List.length_singleton] at hlength
    omega

end MmioInterleaving

namespace HostMmioSpan

/-- What a completion of the access has to agree with, if one can be taken. -/
def openKey (s : HostMmioSpan) : Option (Bool × UInt64 × UInt64) :=
  if s.isPending && decide (s.barNumber = 0) && !s.isPosted then s.hostMmioIssue.map Event.mmioKey
  else none

/-- The issue of a posted write without response. -/
def openPosted (s : HostMmioSpan) : Option Event :=
  if s.isPending && s.isPosted then s.hostMmioIssue else none

variable {s : HostMmioSpan} {ev issue : Event}

theorem openKey_complete (h : s.isPending = false) : s.openKey = none := by
  simp [openKey, h]

theorem openPosted_complete (h : s.isPending = false) : s.openPosted = none := by
  simp [openPosted, h]

theorem Open.openKey_eq (h : s.Open issue) :
    s.openKey = if issue.isPlain then some issue.mmioKey else none := by
  unfold openKey Event.isPlain
  rw [h.pending, h.bar, h.isPosted, h.hostMmioIssue]
  simp

theorem Open.openPosted_eq (h : s.Open issue) :
    s.openPosted = if issue.isPosted then some issue else none := by
  unfold openPosted
  rw [h.pending, h.isPosted, h.hostMmioIssue]
  simp

theorem addToSpan_complete (h : s.isPending = false) : (s.addToSpan ev).1 = false := by
  unfold addToSpan
  rw [EventSpan.isPotentialAdd_complete h]
  rfl

/-- Whatever comes after the issue completes the span. -/
theorem complete_of_added (hadded : (s.addToSpan ev).1 = true) (hev : ev.isMmioIssue = false) :
    (s.addToSpan ev).2.isPending = false := by
  unfold Event.isMmioIssue at hev
  unfold addToSpan at hadded ⊢
  grind

end HostMmioSpan

/-- The span is complete, or it only took its issue. -/
def HostMmioSpan.Settled (s : HostMmioSpan) : Prop := s.isPending = false ∨ ∃ issue, s.Open issue

section Pending

variable {pending front back : List (Allocated HostMmioSpan)} {env : TraceEnvironment} {ev : Event}

/-- The pending accesses that can be completed. -/
def openKeys (pending : List (Allocated HostMmioSpan)) : Multiset (Bool × UInt64 × UInt64) :=
  ↑(pending.filterMap fun p => p.span.openKey)

def openPosted (pending : List (Allocated HostMmioSpan)) : List Event :=
  pending.filterMap fun p => p.span.openPosted

@[simp] theorem openKeys_append : openKeys (front ++ back) = openKeys front + openKeys back := by
  simp [openKeys]

@[simp] theorem openPosted_append :
    openPosted (front ++ back) = openPosted front ++ openPosted back := by
  simp [openPosted]

theorem openKeys_cons (p : Allocated HostMmioSpan) :
    openKeys (p :: back) = ↑p.span.openKey.toList + openKeys back := by
  unfold openKeys
  rw [List.filterMap_cons]
  cases hkey : p.span.openKey <;> simp

theorem openPosted_cons (p : Allocated HostMmioSpan) :
    openPosted (p :: back) = p.span.openPosted.toList ++ openPosted back := by
  unfold openPosted
  rw [List.filterMap_cons]
  cases hposted : p.span.openPosted <;> simp

/-- No pending access takes the issue of another one. -/
theorem findAddErase_mmioIssue (hsettled : ∀ p ∈ pending, p.span.Settled)
    (hev : ev.isMmioIssue = true) : findAddErase env pending ev = (none, pending) := by
  refine findAddErase_none fun p hp => ?_
  have hrefused : (p.span.addToSpan ev).1 = false := by
    rcases hsettled p hp with hcomplete | ⟨issue, hopen⟩
    · exact HostMmioSpan.addToSpan_complete hcomplete
    · have hissue : p.span.hostMmioIssue.isSome := by simp [hopen.hostMmioIssue]
      have htype : ev.getType = .kHostMmioWT ∨ ev.getType = .kHostMmioRT := by
        simpa [Event.isMmioIssue] using hev
      rw [HostMmioSpan.addToSpan_issue hissue htype]
  exact HostMmioSpan.addToSpan_refused hrefused

variable (env) in
/-- A response or a completion leaves the list as it is, or closes an access in it. -/
theorem findAddErase_mmio (hsettled : ∀ p ∈ pending, p.span.Settled)
    (hev : ev.isMmioIssue = false) :
    (findAddErase env pending ev = (none, pending) ∧
        ∀ p ∈ pending, (p.span.addToSpan ev).1 = false) ∨
      ∃ front p back q issue, pending = front ++ p :: back ∧ p.span.Open issue ∧
        (p.span.addToSpan ev).1 = true ∧ q.id = p.id ∧ q.span.isPending = false ∧
        findAddErase env pending ev = (some q, front ++ back) := by
  have hsame : ∀ l : List (Allocated HostMmioSpan),
      (∀ p ∈ l, (p.span.addToSpan ev).1 = false) → l.map (offer env ev) = l := by
    intro l hl
    refine (List.map_congr_left fun p hp => ?_).trans (List.map_id l)
    have hspan := congrArg Prod.snd (HostMmioSpan.addToSpan_refused (hl p hp))
    obtain ⟨id, span⟩ := p
    exact congrArg (Allocated.mk id) hspan
  obtain ⟨hnone, hall⟩ | ⟨front, p, back, rfl, hfront, htakes, hsome⟩ :=
    findAddErase_cases env pending ev
  · rw [hnone, hsame pending hall]
    exact .inl ⟨rfl, hall⟩
  · obtain hcomplete | ⟨issue, hopen⟩ := hsettled p (by simp)
    · cases htakes.symm.trans (HostMmioSpan.addToSpan_complete hcomplete)
    · have hdone : isComplete (offer env ev p) = true := by
        have hpending : (p.span.addToSpan ev).2.isPending = false :=
          HostMmioSpan.complete_of_added htakes hev
        change (!(p.span.addToSpan ev).2.isPending) = true
        rw [hpending]
        rfl
      rw [hsame front hfront, if_pos hdone] at hsome
      exact .inr ⟨front, p, back, offer env ev p, issue, rfl, hopen, htakes, rfl,
        HostMmioSpan.complete_of_added htakes hev, hsome⟩

end Pending

/-- What completions have to agree with, for the events of a kind. -/
def keys (kind : Event → Bool) (evs : List Event) : Multiset (Bool × UInt64 × UInt64) :=
  ↑((evs.filter kind).map Event.mmioKey)

theorem keys_concat (kind : Event → Bool) (past : List Event) (ev : Event) :
    keys kind (past ++ [ev]) = keys kind past + if kind ev then {ev.mmioKey} else 0 := by
  unfold keys
  rw [List.filter_append, List.map_append, ← Multiset.coe_add]
  cases hkind : kind ev <;> simp [hkind]

def Event.isPlainIssue (ev : Event) : Bool := ev.isMmioIssue && ev.isPlain

/-- The last event, if it still has to get its response. -/
def unanswered (past : List Event) : List Event := past.getLast?.toList.filter Event.isPosted

theorem unanswered_concat (past : List Event) (ev : Event) :
    unanswered (past ++ [ev]) = if ev.isPosted then [ev] else [] := by
  unfold unanswered
  cases hposted : ev.isPosted <;> simp [hposted]

/-- The list holds what is open after these events. -/
structure Waiting (past : List Event) (pending : List (Allocated HostMmioSpan)) : Prop where
  settled : ∀ p ∈ pending, p.span.Settled
  balance : openKeys pending + keys Event.isMmioCompletion past = keys Event.isPlainIssue past
  posted : openPosted pending = unanswered past

namespace Waiting

variable {past : List Event} {pending : List (Allocated HostMmioSpan)} {env : TraceEnvironment}
  {ev : Event}

theorem nil : Waiting [] [] :=
  ⟨fun _ hp => (nomatch hp), rfl, rfl⟩

theorem issue (h : Waiting past pending) (hlast : unanswered past = [])
    (hev : ev.isMmioIssue = true) :
    ∃ span, HostMmioSpan.addToSpan { barNumber := ev.getBar } ev = (true, span) ∧
      span.barNumber = ev.getBar ∧
      ∀ id, Waiting (past ++ [ev]) (pending ++ [⟨id, span⟩]) := by
  have htype : ev.getType = .kHostMmioWT ∨ ev.getType = .kHostMmioRT := by
    simpa [Event.isMmioIssue] using hev
  have hcompletion : ev.isMmioCompletion = false := by
    unfold Event.isMmioCompletion
    rcases htype with htype | htype <;> simp [htype]
  obtain ⟨span, hadd, -, hbar, hspan⟩ := HostMmioSpan.open_new ev.getBar htype
  refine ⟨span, hadd, hbar, fun id => ?_⟩
  have hnew : span.Settled ∧ span.openKey = (if ev.isPlain then some ev.mmioKey else none) ∧
      span.openPosted = if ev.isPosted then some ev else none := by
    split_ifs at hspan with hread
    · have hplain : ev.isPlain = false := by simp [Event.isPlain, hread.2]
      have hposted := Event.isPosted_of_read hread.1
      simp [HostMmioSpan.Settled, hspan, HostMmioSpan.openKey, HostMmioSpan.openPosted, hplain, hposted]
    · exact ⟨.inr ⟨ev, hspan⟩, hspan.openKey_eq, hspan.openPosted_eq⟩
  obtain ⟨hsettled, hkey, hposted⟩ := hnew
  constructor
  · intro p hp
    rcases List.mem_append.mp hp with hp | hp
    · exact h.settled p hp
    · obtain rfl := List.mem_singleton.mp hp
      exact hsettled
  · have hopened : openKeys [⟨id, span⟩] = if ev.isPlainIssue then {ev.mmioKey} else 0 := by
      rw [openKeys_cons, hkey, Event.isPlainIssue, hev]
      cases ev.isPlain <;> rfl
    rw [keys_concat, keys_concat, openKeys_append, hopened, ← h.balance, hcompletion]
    rw [if_neg Bool.false_ne_true, add_zero, add_right_comm]
  · rw [openPosted_append, h.posted, hlast, openPosted_cons, hposted, unanswered_concat]
    cases ev.isPosted <;> rfl

variable (env) in
/-- The response to a posted write closes it. -/
theorem response {issue : Event} (h : Waiting past pending) (hev : ev.getType = .kHostMmioImRespPoWT)
    (hlast : past.getLast? = some issue) (hposted : issue.isPosted = true)
    (hparser : issue.parserIdentifier = ev.parserIdentifier) (hts : issue.getTs = ev.getTs) :
    ∃ q rest, findAddErase env pending ev = (some q, rest) ∧ Waiting (past ++ [ev]) rest := by
  have hnot : ev.isMmioIssue = false ∧ ev.isMmioCompletion = false := by
    simp [Event.isMmioIssue, Event.isMmioCompletion, hev]
  have hunanswered : unanswered past = [issue] := by
    simp [unanswered, hlast, hposted]
  have hnotPosted : ev.isPosted = false := by
    cases hp : ev.isPosted with
    | false => rfl
    | true => cases hev.symm.trans (Event.isMmioIssue_of_posted hp)
  obtain ⟨-, hall⟩ | ⟨front, p, back, q, first, rfl, hopen, htakes, -, -, hfind⟩ :=
    findAddErase_mmio env h.settled hnot.1
  · -- the issue of the posted write is in the list, and its span would take the response
    exfalso
    have hmem : issue ∈ openPosted pending := by
      rw [h.posted, hunanswered]
      exact List.mem_singleton_self issue
    obtain ⟨p, hp, hissue⟩ := List.mem_filterMap.mp hmem
    rcases h.settled p hp with hcomplete | ⟨first, hopen⟩
    · cases (HostMmioSpan.openPosted_complete hcomplete).symm.trans hissue
    · rw [hopen.openPosted_eq] at hissue
      split_ifs at hissue
      obtain rfl := Option.some.inj hissue
      obtain ⟨s', htakes, -⟩ := hopen.addToSpan_response hposted hev hparser hts
      cases (hall p hp).symm.trans (congrArg Prod.fst htakes)
  · have hfirst : first.isPosted = true := by
      cases hp : first.isPosted with
      | true => rfl
      | false => cases (hopen.addToSpan_response_refused hp hev).symm.trans htakes
    have hplain : first.isPlain = false := by simp [Event.isPlain, hfirst]
    have hbalance := h.balance
    have hpending := h.posted
    rw [openKeys_append, openKeys_cons, hopen.openKey_eq, hplain] at hbalance
    rw [openPosted_append, openPosted_cons, hopen.openPosted_eq, hfirst, hunanswered] at hpending
    have hempty : openPosted front = [] ∧ openPosted back = [] := by
      have hlength := congrArg List.length hpending
      simp only [if_true, Option.toList_some, List.length_append, List.length_singleton] at hlength
      exact ⟨List.length_eq_zero_iff.mp (by omega), List.length_eq_zero_iff.mp (by omega)⟩
    refine ⟨q, front ++ back, hfind, ?_, ?_, ?_⟩
    · intro p' hp'
      refine h.settled p' ?_
      rcases List.mem_append.mp hp' with hp' | hp' <;> simp [hp']
    · rw [keys_concat, keys_concat, openKeys_append, hnot.2, ← hbalance]
      simp [Event.isPlainIssue, hnot.1]
    · rw [openPosted_append, hempty.1, hempty.2, unanswered_concat, hnotPosted]
      rfl

variable (env) in
/-- A completion closes an open access; if there is none that it agrees with, it is not
taken. -/
theorem completion (h : Waiting past pending) (hlast : unanswered past = [])
    (hev : ev.isMmioCompletion = true) :
    (findAddErase env pending ev = (none, pending) ∧ ev.mmioKey ∉ openKeys pending) ∨
      ∃ p ∈ pending, ∃ q rest, findAddErase env pending ev = (some q, rest) ∧ q.id = p.id ∧
        q.span.isPending = false ∧ (∀ p' ∈ rest, p' ∈ pending) ∧ Waiting (past ++ [ev]) rest := by
  have htype : ev.getType = .kHostMmioCWT ∨ ev.getType = .kHostMmioCRT := by
    simpa [Event.isMmioCompletion] using hev
  have hissue : ev.isMmioIssue = false := by
    unfold Event.isMmioIssue
    rcases htype with htype | htype <;> simp [htype]
  have hnotPosted : ev.isPosted = false := by
    cases hp : ev.isPosted with
    | false => rfl
    | true =>
      have hwrite := Event.isMmioIssue_of_posted hp
      rcases htype with htype | htype <;> cases htype.symm.trans hwrite
  have hclosed : ∀ p ∈ pending, p.span.openPosted = none := by
    have hnone := h.posted.trans hlast
    exact fun p hp => List.filterMap_eq_nil_iff.mp hnone p hp
  obtain ⟨hfind, hall⟩ | ⟨front, p, back, q, first, rfl, hopen, htakes, hid, hdone, hfind⟩ :=
    findAddErase_mmio env h.settled hissue
  · refine .inl ⟨hfind, fun hmem => ?_⟩
    obtain ⟨p, hp, hkey⟩ := List.mem_filterMap.mp (Multiset.mem_coe.mp hmem)
    rcases h.settled p hp with hcomplete | ⟨first, hopen⟩
    · cases (HostMmioSpan.openKey_complete hcomplete).symm.trans hkey
    · rw [hopen.openKey_eq] at hkey
      split_ifs at hkey with hplain
      have hbar : first.getBar = 0 := by
        simp only [Event.isPlain, decide_eq_true_eq] at hplain
        exact hplain.1
      obtain ⟨-, s', htakes, -⟩ | ⟨hother, -⟩ := hopen.addToSpan_completion htype
      · cases (hall p hp).symm.trans (congrArg Prod.fst htakes)
      · exact hother ⟨hbar, Option.some.inj hkey⟩
  · have hfirst : first.isPosted = false := by
      have hposted := hclosed p (by simp)
      rw [hopen.openPosted_eq] at hposted
      cases hp : first.isPosted with
      | false => rfl
      | true => simp [hp] at hposted
    obtain ⟨⟨hbar, hkey⟩, -⟩ | ⟨-, hrefused⟩ := hopen.addToSpan_completion htype
    · have hplain : first.isPlain = true := by simp [Event.isPlain, hbar, hfirst]
      have hbalance := h.balance
      have hpending := h.posted
      rw [openKeys_append, openKeys_cons, hopen.openKey_eq, hplain] at hbalance
      rw [openPosted_append, openPosted_cons, hlast] at hpending
      refine .inr ⟨p, by simp, q, front ++ back, hfind, hid, hdone, ?_, ?_, ?_, ?_⟩
      · intro p' hp'
        rcases List.mem_append.mp hp' with hp' | hp' <;> simp [hp']
      · intro p' hp'
        refine h.settled p' ?_
        rcases List.mem_append.mp hp' with hp' | hp' <;> simp [hp']
      · rw [keys_concat, keys_concat, openKeys_append, hev, ← hbalance, hkey]
        simp [Event.isPlainIssue, hissue, add_assoc, add_comm, add_left_comm]
      · have hempty : openPosted front = [] ∧ openPosted back = [] := by simp_all
        rw [openPosted_append, hempty.1, hempty.2, unanswered_concat, hnotPosted]
        rfl
    · cases hrefused.symm.trans htakes

end Waiting

namespace Event

variable {ev : Event}

theorem not_completion_of_issue (h : ev.isMmioIssue = true) : ev.isMmioCompletion = false := by
  unfold isMmioIssue at h
  unfold isMmioCompletion
  have htype : ev.getType = .kHostMmioWT ∨ ev.getType = .kHostMmioRT := by simpa using h
  rcases htype with htype | htype <;> simp [htype]

theorem not_issue_of_completion (h : ev.isMmioCompletion = true) : ev.isMmioIssue = false := by
  cases hissue : ev.isMmioIssue with
  | false => rfl
  | true => cases h.symm.trans (not_completion_of_issue hissue)

end Event

namespace MmioTransaction

variable {evs : List Event}

theorem count_issues (h : MmioTransaction evs) : evs.countP Event.isMmioIssue ≤ 1 := by
  cases h with
  | none => simp
  | read hissue hcompletion => simp [Event.isMmioIssue, hissue, hcompletion]
  | write hissue _ hcompletion => simp [Event.isMmioIssue, hissue, hcompletion]
  | posted hissue _ hresponse _ _ hcompletion =>
    simp [Event.isMmioIssue, hissue, hresponse, hcompletion]

theorem completed (h : MmioTransaction evs) {ev : Event} (hev : ev ∈ evs) :
    ∃ completion ∈ evs, completion.isMmioCompletion = true := by
  cases h with
  | none => simp at hev
  | read _ hcompletion => simp [Event.isMmioCompletion, hcompletion]
  | write _ _ hcompletion => simp [Event.isMmioCompletion, hcompletion]
  | posted _ _ _ _ _ hcompletion => simp [Event.isMmioCompletion, hcompletion]

end MmioTransaction

def firstKey (l : List (Nat × Event)) (t : Nat) : Option (Bool × UInt64 × UInt64) :=
  (own t l).head?.map Event.mmioKey

/-- The keys of the transactions that are not completed yet. -/
def waitingKeys (l past : List (Nat × Event)) : Multiset (Bool × UInt64 × UInt64) :=
  ↑((unfinished Event.isMmioIssue Event.isMmioCompletion past).filterMap (firstKey l))

namespace MmioInterleaving

variable {l past rest : List (Nat × Event)} {t : Nat} {ev : Event}

theorem nodup_unfinished (hl : MmioInterleaving l) (h : l = past ++ rest) :
    (unfinished Event.isMmioIssue Event.isMmioCompletion past).Nodup := by
  refine (nodup_tags fun t => ?_).filter _
  have hcount := (hl.transaction t).count_issues
  rw [h, own_append, List.countP_append] at hcount
  omega

/-- A completion comes while its transaction waits for it. -/
theorem mem_unfinished (hl : MmioInterleaving l) (h : l = past ++ (t, ev) :: rest)
    (hev : ev.isMmioCompletion = true) :
    t ∈ unfinished Event.isMmioIssue Event.isMmioCompletion past ∧
      firstKey l t = some ev.mmioKey := by
  cases hl.stage h with
  | issue _ hissue => cases (Event.not_issue_of_completion hev).symm.trans hissue
  | response _ _ hresponse => simp [Event.isMmioCompletion, hresponse] at hev
  | @completion issue others hpast hissue _ hkey hrest =>
    constructor
    · refine List.mem_filter.mpr ⟨mem_tags.mpr ⟨issue, by simp [hpast], hissue⟩, ?_⟩
      have hnot : t ∉ tags Event.isMmioCompletion past := by
        rw [mem_tags, hpast]
        rintro ⟨other, hother, hcompletion⟩
        rcases List.mem_cons.mp hother with rfl | hother
        · cases (Event.not_completion_of_issue hissue).symm.trans hcompletion
        · rcases hrest with ⟨rfl, -⟩ | ⟨response, rfl, hresponse⟩
          · cases hother
          · obtain rfl := List.mem_singleton.mp hother
            simp [Event.isMmioCompletion, hresponse] at hcompletion
      simpa using hnot
    · unfold firstKey
      rw [h, own_append, hpast, List.cons_append, List.head?_cons, Option.map_some, hkey]

/-- Issues are completed or wait for it. -/
theorem keys_issue (hl : MmioInterleaving l) (h : l = past ++ rest) :
    keys Event.isMmioIssue (past.map Prod.snd) =
      keys Event.isMmioCompletion (past.map Prod.snd) + waitingKeys l past := by
  induction past using List.reverseRecOn generalizing rest with
  | nil => rfl
  | append_singleton past x ih =>
    obtain ⟨t, ev⟩ := x
    have hsplit : l = past ++ (t, ev) :: rest := by rw [h, List.append_assoc]; rfl
    have hpast := ih hsplit
    rw [List.map_append, List.map_singleton, keys_concat, keys_concat, hpast]
    cases hl.stage hsplit with
    | issue hown hev =>
      have hnot := Event.not_completion_of_issue hev
      have hnew : t ∉ tags Event.isMmioCompletion past := by
        rw [mem_tags, hown]
        rintro ⟨other, hother, -⟩
        cases hother
      have hhead : firstKey l t = some ev.mmioKey := by
        unfold firstKey
        rw [hsplit, List.append_cons, own_append, own_concat_self, hown]
        rfl
      unfold waitingKeys
      rw [unfinished_concat_start hev hnot hnew, List.filterMap_append, ← Multiset.coe_add, hev,
        hnot]
      simp [hhead, add_assoc]
    | response _ _ hev =>
      have hissue : ev.isMmioIssue = false := by simp [Event.isMmioIssue, hev]
      have hnot : ev.isMmioCompletion = false := by simp [Event.isMmioCompletion, hev]
      unfold waitingKeys
      rw [unfinished_concat_other hissue hnot, hissue, hnot]
      simp
    | completion _ _ hev =>
      have hissue := Event.not_issue_of_completion hev
      obtain ⟨hmem, hhead⟩ := hl.mem_unfinished hsplit hev
      have hperm := perm_unfinished_finish hissue hev (hl.nodup_unfinished hsplit) hmem
      have hkeys := Multiset.coe_eq_coe.mpr (hperm.filterMap (firstKey l))
      rw [List.filterMap_cons_some hhead, ← Multiset.cons_coe, ← Multiset.singleton_add] at hkeys
      unfold waitingKeys
      rw [hissue, hev, hkeys]
      simp [add_assoc]

/-- In the end there are as many completions as issues. -/
theorem keys_completion (hl : MmioInterleaving l) :
    keys Event.isMmioCompletion (l.map Prod.snd) = keys Event.isMmioIssue (l.map Prod.snd) := by
  have hempty : unfinished Event.isMmioIssue Event.isMmioCompletion l = [] := by
    refine List.filter_eq_nil_iff.mpr fun t ht => ?_
    obtain ⟨ev, hev, -⟩ := mem_tags.mp ht
    have hcompleted : t ∈ tags Event.isMmioCompletion l :=
      mem_tags.mpr ((hl.transaction t).completed hev)
    simpa using hcompleted
  rw [hl.keys_issue (List.append_nil l).symm]
  simp [waitingKeys, hempty]

theorem unanswered_nil (hl : MmioInterleaving l) (h : l = past ++ (t, ev) :: rest)
    (hev : ev.getType ≠ .kHostMmioImRespPoWT) : unanswered (past.map Prod.snd) = [] := by
  unfold unanswered
  cases hlast : (past.map Prod.snd).getLast? with
  | none => rfl
  | some issue =>
    cases hposted : issue.isPosted with
    | false => simp [hposted]
    | true => exact absurd (hl.after_posted h hlast hposted).1 hev

end MmioInterleaving

/-- A transaction alone. -/
theorem MmioTransaction.interleaving {evs : List Event} (h : MmioTransaction evs) :
    MmioInterleaving (evs.map fun ev => (0, ev)) := by
  refine ⟨fun t => ?_, fun past t ev rest hsplit hposted => ?_⟩
  · by_cases ht : t = 0
    · subst ht
      simpa [own, List.filter_map, Function.comp_def] using h
    · have hown : own t (evs.map fun ev => (0, ev)) = [] := by
        simp [own, List.filter_map, Function.comp_def, Ne.symm ht]
      rw [hown]
      exact .none
  · have hwrite := Event.isMmioIssue_of_posted hposted
    obtain ⟨past', rest', rfl, -, hrest⟩ := List.map_eq_append_iff.mp hsplit
    obtain ⟨ev', rest', rfl, heq, rfl⟩ := List.map_eq_cons_iff.mp hrest
    obtain ⟨rfl, rfl⟩ := Prod.mk.inj heq
    generalize hall : past' ++ ev' :: rest' = all at h
    have hmem : ev' ∈ all := by simp [← hall]
    cases h with
    | none => cases hmem
    | read hissue hcompletion =>
      simp only [List.mem_cons, List.not_mem_nil, or_false] at hmem
      rcases hmem with rfl | rfl
      · cases hissue.symm.trans hwrite
      · cases hcompletion.symm.trans hwrite
    | write hissue hnot hcompletion =>
      simp only [List.mem_cons, List.not_mem_nil, or_false] at hmem
      rcases hmem with rfl | rfl
      · cases hnot.symm.trans hposted
      · cases hcompletion.symm.trans hwrite
    | @posted issue response completion hissue _ hresponse _ _ hcompletion =>
      rcases past' with _ | ⟨i, _ | ⟨j, _ | ⟨k, past⟩⟩⟩
      · obtain ⟨rfl, rfl⟩ := List.cons.inj hall
        exact ⟨response, [(0, completion)], rfl⟩
      · obtain ⟨-, hrest⟩ := List.cons.inj hall
        obtain ⟨rfl, -⟩ := List.cons.inj hrest
        cases hresponse.symm.trans hwrite
      · obtain ⟨-, hrest⟩ := List.cons.inj hall
        obtain ⟨-, hrest⟩ := List.cons.inj hrest
        obtain ⟨rfl, -⟩ := List.cons.inj hrest
        cases hcompletion.symm.trans hwrite
      · simp at hall

theorem Event.isPlain_of_not_issue {ev : Event} (h : ev.isMmioIssue = false) : ev.isPlain = true := by
  obtain ⟨ts, parser, name, kind⟩ := ev
  cases kind with
  | hostMmioR => cases h
  | hostMmioW => cases h
  | _ => rfl

/-- If no completion was lost, every issue was a plain one. -/
theorem Waiting.isPlain {l : List (Nat × Event)} {pending : List (Allocated HostMmioSpan)}
    (hl : MmioInterleaving l) (h : Waiting (l.map Prod.snd) pending) :
    ∀ ev ∈ l.map Prod.snd, ev.isPlain = true := by
  by_contra hnot
  push Not at hnot
  obtain ⟨ev, hev, hplain⟩ := hnot
  have hissue : ev.isMmioIssue = true := by
    cases hissue : ev.isMmioIssue with
    | true => rfl
    | false => exact absurd (Event.isPlain_of_not_issue hissue) hplain
  have hbalance := congrArg Multiset.card h.balance
  rw [hl.keys_completion] at hbalance
  simp only [keys, Multiset.card_add, Multiset.coe_card, List.length_map] at hbalance
  have hfewer : ((l.map Prod.snd).filter Event.isPlainIssue).length <
      ((l.map Prod.snd).filter Event.isMmioIssue).length := by
    have hsplit : (l.map Prod.snd).filter Event.isPlainIssue =
        ((l.map Prod.snd).filter Event.isMmioIssue).filter Event.isPlain := by
      rw [List.filter_filter]
      exact List.filter_congr fun ev _ => Bool.and_comm _ _
    rw [hsplit]
    refine List.length_filter_lt_length_iff_exists.mpr ⟨ev, ?_, hplain⟩
    exact List.mem_filter.mpr ⟨hev, hissue⟩
  omega

namespace Tracer

/-- The tracer can start spans in the trace of the call, and its children wait for it. -/
structure Ready (t : Tracer) (call : Nat) (children : List Nat) : Prop where
  sound : t.Sound
  isSpan : t.IsSpan call
  traced : t.traceIdOf call ≠ 0
  notExported : call ∉ t.exportedSpans
  created : ∀ s ∈ children, t.IsSpan s
  parentOf : ∀ s ∈ children, t.parentOf s = some call

namespace Ready

variable {t : Tracer} {call span : Nat} {children rest : List Nat}

theorem subset (h : t.Ready call children) (hrest : ∀ s ∈ rest, s ∈ children) :
    t.Ready call rest :=
  ⟨h.sound, h.isSpan, h.traced, h.notExported, fun s hs => h.created s (hrest s hs),
    fun s hs => h.parentOf s (hrest s hs)⟩

theorem parentRef (h : t.Ready call children) :
    ∃ ref, t.parentRef call = some ref ∧ ref.traceId = t.traceIdOf call ∧ ref.parent.id = call := by
  unfold Tracer.parentRef
  rw [dif_pos h.isSpan.1.ne', dif_pos h.traced]
  exact ⟨_, rfl, rfl, rfl⟩

/-- A child of the call is started, and a context can be created for it. -/
theorem startSpanByParent (h : t.Ready call children) {ref : ParentRef}
    (htrace : ref.traceId = t.traceIdOf call) (hparent : ref.parent.id = call) (ts : Nat) :
    ∃ t', t.startSpanByParent ref ⟨ts, true⟩ = some t' ∧
      t'.Ready call (children ++ [t.nextSpanId]) ∧
      ∀ exp, ∃ c, t'.createPassOnContext exp t.nextSpanId = some c := by
  have hcontexts := h.sound.contexts
  have hnew : ∀ ids, t.traces ref.traceId = some ids → t.nextSpanId ∉ ids := by
    intro ids hids hmem
    exact lt_irrefl _ (h.sound.registered _ ids hids _ hmem).2
  have hcall : t.startSpanByParent ref ⟨ts, true⟩ =
      some ((t.allocate ⟨ref.traceId, some ref.parent⟩ ts).register ref.traceId [t.nextSpanId]) :=
    addSpanToTraceIfTraceExists_eq_some.mpr ⟨hnew, rfl⟩
  have href : ref.traceId < t.nextTraceId := by
    rw [htrace]
    exact h.sound.traceIdOf_lt call
  have hspan : ∀ s, t.IsSpan s → s ≠ t.nextSpanId := fun s hs => hs.2.ne
  refine ⟨_, hcall, ⟨h.sound.startSpanByParent href hcall, ?_, ?_, h.notExported, ?_, ?_⟩, ?_⟩
  · exact ⟨h.isSpan.1, Nat.lt_succ_of_lt h.isSpan.2⟩
  · change (t.allocate ⟨ref.traceId, some ref.parent⟩ ts).traceIdOf call ≠ 0
    rw [traceIdOf_allocate hcontexts, if_neg (hspan call h.isSpan)]
    exact h.traced
  · intro s hs
    rcases List.mem_append.mp hs with hs | hs
    · exact ⟨(h.created s hs).1, Nat.lt_succ_of_lt (h.created s hs).2⟩
    · obtain rfl := List.mem_singleton.mp hs
      exact ⟨h.sound.spanId_pos, Nat.lt_succ_self _⟩
  · intro s hs
    change (t.allocate ⟨ref.traceId, some ref.parent⟩ ts).parentOf s = some call
    rw [parentOf_allocate hcontexts]
    rcases List.mem_append.mp hs with hs | hs
    · rw [if_neg (hspan s (h.created s hs))]
      exact h.parentOf s hs
    · obtain rfl := List.mem_singleton.mp hs
      rw [if_pos rfl]
      exact congrArg some hparent
  · intro exp
    have htraced : ((t.allocate ⟨ref.traceId, some ref.parent⟩ ts).register ref.traceId
        [t.nextSpanId]).traceIdOf t.nextSpanId ≠ 0 := by
      change (t.allocate ⟨ref.traceId, some ref.parent⟩ ts).traceIdOf t.nextSpanId ≠ 0
      rw [traceIdOf_allocate hcontexts, if_pos rfl]
      exact ref.valid
    unfold createPassOnContext Tracer.parentRef
    rw [dif_pos h.sound.spanId_pos.ne', dif_pos htraced]
    exact ⟨_, rfl⟩

/-- A child that is done waits for the call. -/
theorem markSpanAsDone (h : t.Ready call children) (hspan : span ∈ children) :
    ∃ t', t.markSpanAsDone span = some t' ∧ t'.Ready call children := by
  have hwaits : t.wasParentExported span = false := by
    unfold wasParentExported
    rw [h.parentOf span hspan]
    simp [h.notExported]
  have hcall : t.markSpanAsDone span = some (t.markSpanAsWaitingForParent span) := by
    unfold Tracer.markSpanAsDone
    simp [hwaits]
  have hsame := markSpanAsWaitingForParent_sameHeap t span
  refine ⟨_, hcall, h.sound.sameHeap hsame, ?_, ?_, ?_, ?_, ?_⟩
  · unfold IsSpan
    rw [hsame.nextSpanId]
    exact h.isSpan
  · rw [hsame.traceIdOf]
    exact h.traced
  · rw [markSpanAsWaitingForParent_eq (h.parentOf span hspan)]
    exact h.notExported
  · intro s hs
    unfold IsSpan
    rw [hsame.nextSpanId]
    exact h.created s hs
  · intro s hs
    rw [hsame.parentOf]
    exact h.parentOf s hs

end Ready

end Tracer

namespace HostSpanner

variable {env : TraceEnvironment} {queues : HostQueues} {st : HostSpanner} {ev : Event}

/-- `HandelMmio` of events in a row, with its results. -/
def handelMmios (env : TraceEnvironment) (queues : HostQueues) (st : HostSpanner)
    (evs : List Event) : Spanning (List Bool × HostSpanner) :=
  evs.foldlM (fun acc ev => do
    let (result, st) ← handelMmio env queues acc.2 ev
    return (acc.1 ++ [result], st)) ([], st)

theorem handelMmio_found {q : Allocated HostMmioSpan} {pending : List (Allocated HostMmioSpan)}
    (h : findAddErase env st.pendingHostMmioSpans ev = (some q, pending)) :
    handelMmio env queues st ev = (do
      perform (.addEvent q.id ev)
      whenever (isComplete q) (markSpanAsDone q)
      return (true, { st with pendingHostMmioSpans := pending })) := by
  unfold handelMmio iterateAddErase
  rw [h]
  rfl

theorem handelMmio_none {call : Allocated HostCallSpan} (hcall : st.pendingHostCallSpan = some call)
    (h : findAddErase env st.pendingHostMmioSpans ev = (none, st.pendingHostMmioSpans)) :
    handelMmio env queues st ev = (do
      let mmio ← startSpanByParent env ({ barNumber := ev.getBar } : HostMmioSpan) call.id ev
      whenever (!st.pciWriteBefore && TraceEnvironment.isToDeviceBarNumber mmio.span.barNumber)
        (pushPropagateContext .kMmio queues.toNic mmio.id)
      whenever (TraceEnvironment.isMsixNotToDeviceBarNumber mmio.span.barNumber && isComplete mmio)
        (markSpanAsDone mmio)
      return (true, { st with pendingHostMmioSpans := st.pendingHostMmioSpans ++ [mmio] })) := by
  unfold handelMmio iterateAddErase
  rw [h, hcall]
  rfl

/-- While the handler returns, the pending list holds what is open. -/
theorem keeps_handelMmio {l past rest : List (Nat × Event)} {t : Nat}
    {call : Allocated HostCallSpan} {h : Log} (hl : MmioInterleaving l)
    (hsplit : l = past ++ (t, ev) :: rest) (hcall : st.pendingHostCallSpan = some call)
    (hwaiting : Waiting (past.map Prod.snd) st.pendingHostMmioSpans) :
    Keeps (fun _ _ => True) (fun _ => Possible World.exec)
      (fun _ out => out.2.pendingHostCallSpan = some call ∧
        Waiting (past.map Prod.snd ++ [ev]) out.2.pendingHostMmioSpans)
      (handelMmio env queues st ev) h := by
  cases hl.stage hsplit with
  | issue _ hissue =>
    have hlast : unanswered (past.map Prod.snd) = [] := by
      refine hl.unanswered_nil hsplit fun htype => ?_
      simp [Event.isMmioIssue, htype] at hissue
    obtain ⟨span, hadd, -, hnext⟩ := hwaiting.issue hlast hissue
    rw [handelMmio_none hcall (findAddErase_mmioIssue hwaiting.settled hissue)]
    refine keeps_bind (keeps_startSpanByParent hadd trivial
      fun ref _ => ⟨trivial, fun (id : Nat) _ => ?_⟩)
    exact keeps_bind_true fun _ _ => keeps_bind_true fun _ _ => keeps_pure ⟨hcall, hnext id⟩
  | response hpast hposted hev hparser hts =>
    obtain ⟨q, pending, hfind, hnext⟩ := hwaiting.response env hev
      (hl.before_response hsplit hpast hposted) hposted hparser hts
    rw [handelMmio_found hfind]
    exact keeps_bind_true fun _ _ => keeps_bind_true fun _ _ => keeps_pure ⟨hcall, hnext⟩
  | completion _ _ hev =>
    have hlast : unanswered (past.map Prod.snd) = [] := by
      refine hl.unanswered_nil hsplit fun htype => ?_
      simp [Event.isMmioCompletion, htype] at hev
    obtain ⟨hnone, -⟩ | ⟨_, _, q, pending, hfind, _, _, _, hnext⟩ :=
      hwaiting.completion env hlast hev
    · -- a span does not start with a completion
      rw [handelMmio_none hcall hnone]
      have hrefused : (SpanClass.addToSpan env ({ barNumber := ev.getBar } : HostMmioSpan) ev).1 =
          false := by
        have hissue := Event.not_issue_of_completion hev
        simp only [Event.isMmioIssue, decide_eq_false_iff_not, not_or] at hissue
        exact HostMmioSpan.addToSpan_new_of_ne ev.getBar hissue.1 hissue.2
      have hadd : SpanClass.addToSpan env ({ barNumber := ev.getBar } : HostMmioSpan) ev =
          (false, (SpanClass.addToSpan env ({ barNumber := ev.getBar } : HostMmioSpan) ev).2) :=
        Prod.ext hrefused rfl
      refine keeps_bind (keeps_startSpanByParent hadd trivial fun ref _ => ⟨trivial, ?_⟩)
      intro (id : Nat) hpossible
      cases World.accepted_of_possible hpossible
    · rw [handelMmio_found hfind]
      exact keeps_bind_true fun _ _ => keeps_bind_true fun _ _ => keeps_pure ⟨hcall, hnext⟩

theorem runs_command {c : Command} {r : c.Response} {post : c.Response → Log → World → Prop}
    {w w' : World} (hexec : w.exec c = some (r, w')) (hpost : post r [⟨c, r⟩] w') :
    Runs World.exec post (Spanner.perform c) w :=
  runs_perform hexec hpost

theorem runs_startSpanByParent {St : Type} [SpanClass St] {new span : St} {parent : Nat}
    {ref : ParentRef} {w : World} {t' : Tracer}
    (hadd : SpanClass.addToSpan env new ev = (true, span))
    (href : w.tracer.parentRef parent = some ref)
    (hstart : w.tracer.startSpanByParent ref ⟨ev.getTs, true⟩ = some t') :
    Runs World.exec (fun s h w' => s = ⟨w.tracer.nextSpanId, span⟩ ∧ w' = { w with tracer := t' } ∧
        h = [⟨.readParent parent, ref⟩,
          ⟨.startSpanByParent (SpanClass.type St) ref ev true, w.tracer.nextSpanId⟩])
      (startSpanByParent env new parent ev) w := by
  have hread : w.exec (.readParent parent) = some (ref, w) :=
    congrArg (Option.map fun ref => (ref, w)) href
  have hcreate : w.exec (.startSpanByParent (SpanClass.type St) ref ev true) =
      some (w.tracer.nextSpanId, { w with tracer := t' }) := congrArg w.create hstart
  unfold startSpanByParent
  rw [hadd]
  refine runs_bind (runs_command hread (runs_bind (runs_command hcreate (runs_pure ?_))))
  exact ⟨rfl, rfl, rfl⟩

theorem runs_pushPropagateContext {exp : Expectation} {dest : Channel} {span : Nat} {w : World}
    {c : Context} (hc : w.tracer.createPassOnContext exp span = some c) :
    Runs World.exec (fun _ h w' => w'.tracer = w.tracer ∧ ∀ types, Log.started types h = [])
      (pushPropagateContext exp dest span) w := by
  have hcreate : w.exec (.createPassOnContext exp span) = some (c, w) :=
    congrArg (Option.map fun c => (c, w)) hc
  have hpush : w.exec (.push dest c) = some ((), w.push dest c) := rfl
  exact runs_bind (runs_command hcreate (runs_command hpush ⟨rfl, fun _ => rfl⟩))

theorem runs_whenever {c : Bool} {x : Spanning Unit} {post : Unit → Log → World → Prop} {w : World}
    (htrue : c = true → Runs World.exec post x w) (hfalse : c = false → post () [] w) :
    Runs World.exec post (whenever c x) w := by
  cases c with
  | false => exact runs_pure (hfalse rfl)
  | true => exact htrue rfl

/-- The outcome of one event: it was handled, and only an issue started a span. -/
structure Handled (call : Allocated HostCallSpan) (past : List Event) (ev : Event)
    (out : Bool × HostSpanner) (h : Log) (w : World) : Prop where
  result : out.1 = true
  pendingCall : out.2.pendingHostCallSpan = some call
  waiting : Waiting (past ++ [ev]) out.2.pendingHostMmioSpans
  ready : w.tracer.Ready call.id (out.2.pendingHostMmioSpans.map Allocated.id)
  started : ∀ s ∈ h.started [.kHostMmio], s.event.isMmioIssue = true

/-- If all accesses are plain ones, the handler returns. -/
theorem runs_handelMmio {l past rest : List (Nat × Event)} {t : Nat} {call : Allocated HostCallSpan}
    {w : World} (hl : MmioInterleaving l) (hsplit : l = past ++ (t, ev) :: rest)
    (hplain : ∀ x ∈ l, x.2.isPlain = true) (hcall : st.pendingHostCallSpan = some call)
    (hwaiting : Waiting (past.map Prod.snd) st.pendingHostMmioSpans)
    (hready : w.tracer.Ready call.id (st.pendingHostMmioSpans.map Allocated.id)) :
    Runs World.exec (Handled call (past.map Prod.snd) ev) (handelMmio env queues st ev) w := by
  cases hl.stage hsplit with
  | issue _ hissue =>
    have hlast : unanswered (past.map Prod.snd) = [] := by
      refine hl.unanswered_nil hsplit fun htype => ?_
      simp [Event.isMmioIssue, htype] at hissue
    obtain ⟨span, hadd, hbar, hnext⟩ := hwaiting.issue hlast hissue
    have hbar0 : ev.getBar = 0 := by
      have hev := hplain (t, ev) (by simp [hsplit])
      simp only [Event.isPlain, decide_eq_true_eq] at hev
      exact hev.1
    obtain ⟨ref, href, htrace, hparent⟩ := hready.parentRef
    obtain ⟨t', hstart, hready', hcontext⟩ := hready.startSpanByParent htrace hparent ev.getTs
    rw [handelMmio_none hcall (findAddErase_mmioIssue hwaiting.settled hissue)]
    refine runs_bind ((runs_startSpanByParent hadd href hstart).mono ?_)
    rintro mmio h w₁ ⟨rfl, rfl, rfl⟩
    have hpush : Runs World.exec (fun _ h w' => w'.tracer = t' ∧ ∀ types, Log.started types h = [])
        (whenever (!st.pciWriteBefore && TraceEnvironment.isToDeviceBarNumber span.barNumber)
          (pushPropagateContext .kMmio queues.toNic w.tracer.nextSpanId)) { w with tracer := t' } := by
      obtain ⟨c, hc⟩ := hcontext .kMmio
      exact runs_whenever (fun _ => runs_pushPropagateContext hc) fun _ => ⟨rfl, fun _ => rfl⟩
    refine runs_bind (hpush.mono ?_)
    rintro _ h w₂ ⟨htracer, hquiet⟩
    have hinDevice : TraceEnvironment.isMsixNotToDeviceBarNumber span.barNumber = false := by
      simp [TraceEnvironment.isMsixNotToDeviceBarNumber, hbar, hbar0]
    refine runs_bind (runs_whenever (fun hdone => ?_) fun _ => runs_pure ?_)
    · simp [hinDevice] at hdone
    · refine ⟨rfl, hcall, hnext _, ?_, fun s hs => ?_⟩
      · rw [htracer]
        simpa using hready'
      · simp only [Log.started_append, hquiet, List.append_nil] at hs
        obtain rfl : s = ⟨.kHostMmio, w.tracer.nextSpanId, ev, none⟩ := List.mem_singleton.mp hs
        exact hissue
  | response hpast hposted =>
    have hissue : (t, _) ∈ past := mem_own.mp (hpast ▸ List.mem_singleton_self _)
    have hev := hplain _ (hsplit ▸ List.mem_append_left _ hissue)
    simp [Event.isPlain, hposted] at hev
  | completion _ _ hev =>
    have hlast : unanswered (past.map Prod.snd) = [] := by
      refine hl.unanswered_nil hsplit fun htype => ?_
      simp [Event.isMmioCompletion, htype] at hev
    obtain ⟨-, hnot⟩ | ⟨p, hp, q, pending, hfind, hid, hdone, hsub, hnext⟩ :=
      hwaiting.completion env hlast hev
    · -- an access with the key of the completion is open
      refine absurd ?_ hnot
      obtain ⟨hmem, hkey⟩ := hl.mem_unfinished hsplit hev
      have hissues := hl.keys_issue hsplit
      have hbalance := hwaiting.balance
      have hplainIssues : keys Event.isPlainIssue (past.map Prod.snd) =
          keys Event.isMmioIssue (past.map Prod.snd) := by
        unfold keys
        refine congrArg (fun evs => Multiset.ofList (List.map Event.mmioKey evs)) ?_
        refine List.filter_congr fun other hother => ?_
        obtain ⟨x, hx, rfl⟩ := List.mem_map.mp hother
        rw [Event.isPlainIssue, hplain x (hsplit ▸ List.mem_append_left _ hx), Bool.and_true]
      rw [hplainIssues, hissues, add_comm] at hbalance
      rw [add_left_cancel hbalance]
      exact Multiset.mem_coe.mpr (List.mem_filterMap.mpr ⟨t, hmem, hkey⟩)
    · rw [handelMmio_found hfind]
      have hmem : q.id ∈ st.pendingHostMmioSpans.map Allocated.id :=
        hid ▸ List.mem_map_of_mem hp
      obtain ⟨t', hmark, hready'⟩ := hready.markSpanAsDone hmem
      have hexec : w.exec (.markSpanAsDone q.id (SpanClass.toObject q.span)) =
          some ((), { w with tracer := t' }) := congrArg w.change hmark
      have hadd : w.exec (.addEvent q.id ev) = some ((), w) := rfl
      refine runs_bind (runs_command hadd (runs_bind (runs_whenever (fun _ => ?_) fun hopen => ?_)))
      · refine runs_command hexec (runs_pure ⟨rfl, hcall, hnext, hready'.subset ?_, ?_⟩)
        · intro s hs
          obtain ⟨p', hp', rfl⟩ := List.mem_map.mp hs
          exact List.mem_map_of_mem (hsub p' hp')
        · intro s hs
          cases hs
      · simp [hdone] at hopen

/-- The handler returns true for every event, and starts spans with issues only. -/
def Served (env : TraceEnvironment) (queues : HostQueues) (st : HostSpanner) (evs : List Event)
    (w : World) : Prop :=
  Runs World.exec (fun out (h : Log) _ => out.1 = evs.map (fun _ => true) ∧
    ∀ s ∈ h.started [.kHostMmio], s.event.isMmioIssue = true) (handelMmios env queues st evs) w

/-- All events so far were handled. -/
structure Serving (call : Allocated HostCallSpan) (past : List Event) (out : List Bool × HostSpanner)
    (h : Log) (w : World) : Prop where
  pendingCall : out.2.pendingHostCallSpan = some call
  waiting : Waiting past out.2.pendingHostMmioSpans
  ready : w.tracer.Ready call.id (out.2.pendingHostMmioSpans.map Allocated.id)
  results : out.1 = past.map fun _ => true
  started : ∀ s ∈ h.started [.kHostMmio], s.event.isMmioIssue = true

/-- The accesses of a call are handled exactly if all of them are plain. -/
theorem served_iff {l : List (Nat × Event)} {call : Allocated HostCallSpan} {w : World}
    (hl : MmioInterleaving l) (hcall : st.pendingHostCallSpan = some call)
    (hpending : st.pendingHostMmioSpans = []) (hready : w.tracer.Ready call.id []) :
    Served env queues st (l.map Prod.snd) w ↔
      ∀ x ∈ l, x.2.getBar = 0 ∧ x.2.isPosted = false := by
  have hcondition : (∀ x ∈ l, x.2.getBar = 0 ∧ x.2.isPosted = false) ↔
      ∀ x ∈ l, x.2.isPlain = true := by
    simp [Event.isPlain]
  rw [hcondition]
  have hsplit : ∀ {past : List Event} {ev rest}, l.map Prod.snd = past ++ ev :: rest →
      ∃ past' t rest', l = past' ++ (t, ev) :: rest' ∧ past = past'.map Prod.snd := by
    intro past ev rest hall
    obtain ⟨past', rest', rfl, rfl, hrest⟩ := List.map_eq_append_iff.mp hall
    obtain ⟨⟨t, ev'⟩, rest'', rfl, rfl, -⟩ := List.map_eq_cons_iff.mp hrest
    exact ⟨past', t, rest'', rfl, rfl⟩
  constructor
  · rintro ⟨out, h, w', hrun, -⟩
    have hkeeps : Keeps (fun _ _ => True) (fun _ => Possible World.exec)
        (fun _ out => out.2.pendingHostCallSpan = some call ∧
          Waiting (l.map Prod.snd) out.2.pendingHostMmioSpans)
        (handelMmios env queues st (l.map Prod.snd)) [] := by
      refine Keeps.foldlM (fun past _ (out : List Bool × HostSpanner) =>
        out.2.pendingHostCallSpan = some call ∧ Waiting past out.2.pendingHostMmioSpans) ?_
        ⟨hcall, hpending ▸ Waiting.nil⟩
      rintro past ev rest h ⟨results, st⟩ hall ⟨hcall, hwaiting⟩
      obtain ⟨past', t, rest', hl', rfl⟩ := hsplit hall
      exact (keeps_handelMmio hl hl' hcall hwaiting).bind fun _ out hout => keeps_pure hout
    obtain ⟨-, hwaiting⟩ := hkeeps.performs (performs_of_run hrun)
    intro x hx
    exact hwaiting.isPlain hl x.2 (List.mem_map_of_mem hx)
  · intro hplain
    have hruns : Runs World.exec (Serving call (l.map Prod.snd))
        (handelMmios env queues st (l.map Prod.snd)) w := by
      refine Runs.foldlM (Serving call) ?_ ?_
      · rintro past ev rest ⟨results, st⟩ h w hall hserving
        obtain ⟨past', t, rest', hl', rfl⟩ := hsplit hall
        refine runs_bind ((runs_handelMmio hl hl' hplain hserving.pendingCall hserving.waiting
          hserving.ready).mono ?_)
        rintro ⟨result, st'⟩ h' w' ⟨rfl, hcall', hwaiting', hready', hstarted'⟩
        refine runs_pure ⟨hcall', hwaiting', hready', ?_, fun s hs => ?_⟩
        · rw [hserving.results, List.map_append, List.map_singleton]
        · rw [List.append_nil, Log.started_append] at hs
          exact (List.mem_append.mp hs).elim (hserving.started s) (hstarted' s)
      · refine ⟨hcall, hpending ▸ Waiting.nil, ?_, rfl, fun s hs => nomatch hs⟩
        rw [hpending]
        exact hready
    exact hruns.mono fun out h w hend => ⟨hend.results, hend.started⟩

/-- A call of the kernel, and the spanner that handled it. -/
def kernelCall : Event := ⟨5, 0, bytes "gem5", .hostCall 0 none none⟩

def calledSpanner : HostSpanner :=
  { pendingHostCallSpan := some ⟨1, { isFragmented := false, events := [kernelCall, kernelCall] }⟩ }

def access (ts : UInt64) (kind : EventKind) : Event := ⟨ts, 0, bytes "gem5", kind⟩

theorem served_read : Served noNames ⟨0, 1, 2⟩ calledSpanner
    [access 10 (.hostMmioR 7 4096 4 0 0), access 20 (.hostMmioCR 7)] oneSpan := by
  have hsound : oneSpan.tracer.Sound :=
    Tracer.sound_init.startSpan (rfl : Tracer.init.startSpan ⟨5, true⟩ = some oneSpan.tracer)
  have hready : oneSpan.tracer.Ready 1 [] :=
    ⟨hsound, by decide, by decide, by decide, fun _ hs => (nomatch hs), fun _ hs => nomatch hs⟩
  have htransaction : MmioTransaction
      [access 10 (.hostMmioR 7 4096 4 0 0), access 20 (.hostMmioCR 7)] := .read rfl rfl rfl rfl
  exact (served_iff htransaction.interleaving rfl rfl hready).mpr (by decide)

/-- The completion of a posted write comes after the response, and throws. -/
theorem not_served_postedWrite : ¬ ∀ (env : TraceEnvironment) (queues : HostQueues) (rounds : Nat)
    (ev : Event) (st : HostSpanner) (h : Log) (w : World) (l : List (Nat × Event)),
    (handelCall env queues rounds { } ev).run World.exec World.init = some ((true, st), h, w) →
      MmioInterleaving l → Served env queues st (l.map Prod.snd) w := by
  intro hall
  have hcall : (handelCall noNames ⟨0, 1, 2⟩ 0 { } kernelCall).run World.exec World.init =
      some ((true, calledSpanner), _, _) := rfl
  have htransaction : MmioTransaction [access 10 (.hostMmioW 7 4096 4 0 0 true),
      access 10 .hostMmioImRespPoW, access 20 (.hostMmioCW 7)] :=
    .posted rfl rfl rfl rfl rfl rfl rfl rfl
  obtain ⟨out, h, w', hrun, -⟩ := hall _ _ _ _ _ _ _ _ hcall htransaction.interleaving
  cases hrun

end HostSpanner

end Columbo
