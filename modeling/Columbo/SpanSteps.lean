import Columbo.Span

/-!
# What `AddToSpan` does

For the classes whose spans are searched for an event: which events a span takes in the
states that it has while it is pending, and what a new span takes.
-/
namespace Columbo

theorem EventSpan.isPotentialAdd_nil {s : EventSpan} (hpending : s.isPending = true)
    (hevents : s.events = []) (ev : Event) : s.isPotentialAdd ev = true := by
  simp [isPotentialAdd, isComplete, hpending, hevents]

theorem EventSpan.isPotentialAdd_cons {s : EventSpan} {first : Event} {rest : List Event}
    (hpending : s.isPending = true) (hevents : s.events = first :: rest) (ev : Event) :
    s.isPotentialAdd ev = decide (first.parserIdentifier = ev.parserIdentifier) := by
  simp [isPotentialAdd, isComplete, hpending, hevents]

theorem EventSpan.isPotentialAdd_complete {s : EventSpan} (hcomplete : s.isPending = false)
    (ev : Event) : s.isPotentialAdd ev = false := by
  simp [isPotentialAdd, isComplete, hcomplete]

/-- A span that takes further calls of a parser. -/
def HostCallSpan.Open (s : HostCallSpan) (parser : UInt64) : Prop :=
  s.isPending = true ∧ s.isFragmented = false ∧
    ∃ first rest, s.events = first :: rest ∧ first.parserIdentifier = parser

theorem HostCallSpan.open_new (env : TraceEnvironment) {ev : Event}
    (hcall : ev.getType = .kHostCallT) :
    ∃ s, HostCallSpan.addToSpan env { isFragmented := false } ev = (true, s) ∧
      s.Open ev.parserIdentifier := by
  unfold addToSpan
  by_cases hentry : env.isSysEntry ev
  · simp [EventSpan.isPotentialAdd, EventSpan.isComplete, hcall, hentry, Open]
  · simp [EventSpan.isPotentialAdd, EventSpan.isComplete, hcall, hentry, Open]
    unfold setFlags
    split_ifs <;> simp

theorem HostCallSpan.Open.addToSpan {env : TraceEnvironment} {s : HostCallSpan} {parser : UInt64}
    (hopen : s.Open parser) {ev : Event} (hcall : ev.getType = .kHostCallT) :
    ev.parserIdentifier ≠ parser ∧ s.addToSpan env ev = (false, s) ∨
      ev.parserIdentifier = parser ∧
        ((∃ s', s.addToSpan env ev = (true, s') ∧ s'.Open parser) ∨
          ∃ s', s.addToSpan env ev = (false, s') ∧ s'.isPending = false) := by
  obtain ⟨hpending, hfragmented, first, rest, hevents, rfl⟩ := hopen
  have hpotential := EventSpan.isPotentialAdd_cons hpending hevents ev
  unfold HostCallSpan.addToSpan
  rw [hpotential]
  by_cases hparser : first.parserIdentifier = ev.parserIdentifier
  · refine .inr ⟨hparser.symm, ?_⟩
    by_cases hentry : env.isSysEntry ev
    · by_cases hfound : s.callSpanEntry.isSome
      · refine .inr ?_
        simp [hparser, hcall, hentry, hfound]
      · refine .inl ?_
        simp [hparser, hcall, hentry, hfound, hfragmented, Open, hevents]
    · refine .inl ?_
      have hflags : (s.setFlags env ev).isPending = true ∧
          (s.setFlags env ev).isFragmented = false ∧
          (s.setFlags env ev).events = s.events := by
        unfold setFlags
        split_ifs <;> exact ⟨hpending, hfragmented, rfl⟩
      simp [hparser, hcall, hentry, Open, hflags, hevents]
  · refine .inl ⟨fun heq => hparser heq.symm, ?_⟩
    simp [hparser]

namespace HostMmioSpan

variable {s : HostMmioSpan} {ev : Event}

theorem addToSpan_new (bar : Int32) (hissue : ev.getType = .kHostMmioWT ∨ ev.getType = .kHostMmioRT) :
    ∃ s, addToSpan { barNumber := bar } ev = (true, s) ∧ s.hostMmioIssue = some ev ∧
      s.barNumber = ev.getBar ∧ s.events = [ev] ∧
      s.isRead = decide (ev.getType = .kHostMmioRT) ∧
      (s.isPosted = if ev.getType = .kHostMmioRT then false else ev.isPosted) ∧
      s.isPending = !(decide (ev.getType = .kHostMmioRT) && decide (ev.getBar ≠ 0)) ∧
      s.imMmioResp = none ∧ s.completion = none := by
  unfold addToSpan
  rw [EventSpan.isPotentialAdd_nil rfl rfl]
  rcases hissue with hwrite | hread
  · simp [hwrite]
  · simp [hread, TraceEnvironment.isMsixNotToDeviceBarNumber]

theorem addToSpan_new_of_ne (bar : Int32) (hwrite : ev.getType ≠ .kHostMmioWT)
    (hread : ev.getType ≠ .kHostMmioRT) :
    (addToSpan { barNumber := bar } ev).1 = false := by
  unfold addToSpan
  rw [EventSpan.isPotentialAdd_nil rfl rfl]
  cases htype : ev.getType <;> simp_all

/-- A span has one issue. -/
theorem addToSpan_issue (hissue : s.hostMmioIssue.isSome)
    (hev : ev.getType = .kHostMmioWT ∨ ev.getType = .kHostMmioRT) :
    s.addToSpan ev = (false, s) := by
  unfold addToSpan
  rcases hev with hwrite | hread
  · simp [hwrite, hissue]
  · simp [hread, hissue]

theorem addToSpan_keeps_issue (hissue : s.hostMmioIssue.isSome) :
    (s.addToSpan ev).2.hostMmioIssue.isSome := by
  unfold addToSpan
  repeat' split
  all_goals simp_all

/-- A span that refuses an event is not changed. -/
theorem addToSpan_refused (h : (s.addToSpan ev).1 = false) : s.addToSpan ev = (false, s) := by
  unfold addToSpan at h ⊢
  grind

end HostMmioSpan

/-- What an issue of a register access and its completion have in common. -/
def Event.mmioKey (ev : Event) : Bool × UInt64 × UInt64 :=
  (decide (ev.getType = .kHostMmioRT ∨ ev.getType = .kHostMmioCRT), ev.parserIdentifier, ev.getId)

theorem Event.isPosted_of_read {ev : Event} (h : ev.getType = .kHostMmioRT) :
    ev.isPosted = false := by
  obtain ⟨ts, parser, name, kind⟩ := ev
  cases kind with
  | hostMmioW => cases h
  | _ => rfl

/-- A span that took only its issue. -/
structure HostMmioSpan.Open (s : HostMmioSpan) (issue : Event) : Prop where
  pending : s.isPending = true
  hostMmioIssue : s.hostMmioIssue = some issue
  events : s.events = [issue]
  bar : s.barNumber = issue.getBar
  isRead : s.isRead = decide (issue.getType = .kHostMmioRT)
  isPosted : s.isPosted = issue.isPosted
  response : s.imMmioResp = none
  type : issue.getType = .kHostMmioWT ∨ issue.getType = .kHostMmioRT

namespace HostMmioSpan

variable {s : HostMmioSpan} {ev issue : Event}

/-- A write is pending after its issue, and so is a read in the BAR of the device. -/
theorem open_new (bar : Int32) (hissue : ev.getType = .kHostMmioWT ∨ ev.getType = .kHostMmioRT) :
    ∃ s, addToSpan { barNumber := bar } ev = (true, s) ∧ s.hostMmioIssue = some ev ∧
      s.barNumber = ev.getBar ∧
      if ev.getType = .kHostMmioRT ∧ ev.getBar ≠ 0 then s.isPending = false else s.Open ev := by
  obtain ⟨s, hadd, hmmio, hbar, hevents, hread, hposted, hpending, hresponse, -⟩ :=
    addToSpan_new bar hissue
  refine ⟨s, hadd, hmmio, hbar, ?_⟩
  split_ifs with hdone
  · simpa [hdone] using hpending
  · have hposted' : s.isPosted = ev.isPosted := by
      rw [hposted]
      split_ifs with hr
      · exact (Event.isPosted_of_read hr).symm
      · rfl
    have hpending' : s.isPending = true := by
      rw [hpending]
      simpa [or_iff_not_imp_left] using hdone
    exact ⟨hpending', hmmio, hevents, hbar, hread, hposted', hresponse, hissue⟩

theorem Open.isRead_of_posted (hopen : s.Open issue) (hposted : issue.isPosted = true) :
    s.isRead = false := by
  rw [hopen.isRead, decide_eq_false_iff_not]
  intro hread
  cases (Event.isPosted_of_read hread).symm.trans hposted

/-- The response to a posted write completes it. -/
theorem Open.addToSpan_response (hopen : s.Open issue) (hposted : issue.isPosted = true)
    (htype : ev.getType = .kHostMmioImRespPoWT)
    (hparser : issue.parserIdentifier = ev.parserIdentifier) (hts : issue.getTs = ev.getTs) :
    ∃ s', s.addToSpan ev = (true, s') ∧ s'.isPending = false := by
  have hposted' := hopen.isPosted.trans hposted
  have hread := hopen.isRead_of_posted hposted
  unfold addToSpan
  rw [EventSpan.isPotentialAdd_cons hopen.pending hopen.events]
  simp [hparser, htype, hopen.hostMmioIssue, hread, hopen.response, hposted', hts]

theorem Open.addToSpan_response_refused (hopen : s.Open issue) (hposted : issue.isPosted = false)
    (htype : ev.getType = .kHostMmioImRespPoWT) : (s.addToSpan ev).1 = false := by
  have hposted' := hopen.isPosted.trans hposted
  unfold addToSpan
  rw [EventSpan.isPotentialAdd_cons hopen.pending hopen.events]
  simp [htype, hopen.hostMmioIssue, hposted']

/-- A completion is taken by an access to the BAR of the device with its key. -/
theorem Open.addToSpan_completion (hopen : s.Open issue)
    (htype : ev.getType = .kHostMmioCWT ∨ ev.getType = .kHostMmioCRT) :
    (issue.getBar = 0 ∧ issue.mmioKey = ev.mmioKey) ∧
        (∃ s', s.addToSpan ev = (true, s') ∧ s'.isPending = false) ∨
      ¬ (issue.getBar = 0 ∧ issue.mmioKey = ev.mmioKey) ∧ (s.addToSpan ev).1 = false := by
  unfold addToSpan
  rw [EventSpan.isPotentialAdd_cons hopen.pending hopen.events]
  by_cases hparser : issue.parserIdentifier = ev.parserIdentifier
  · by_cases hbar : issue.getBar = 0
    · by_cases hid : issue.getId = ev.getId
      · rcases htype with htype | htype <;> rcases hopen.type with hissue | hissue <;>
          simp [hparser, htype, hissue, hopen.hostMmioIssue, hopen.isRead, hopen.response, hopen.bar, hbar,
            hid, Event.mmioKey, TraceEnvironment.isMsixNotToDeviceBarNumber]
      · refine .inr ⟨fun h => hid (congrArg (·.2.2) h.2), ?_⟩
        rcases htype with htype | htype <;> rcases hopen.type with hissue | hissue <;>
          simp [hparser, htype, hissue, hopen.hostMmioIssue, hopen.isRead, hopen.response, hopen.bar, hbar,
            hid, TraceEnvironment.isMsixNotToDeviceBarNumber]
    · refine .inr ⟨fun h => hbar h.1, ?_⟩
      rcases htype with htype | htype <;>
        simp [hparser, htype, hopen.bar, hbar, TraceEnvironment.isMsixNotToDeviceBarNumber]
  · refine .inr ⟨fun h => hparser (congrArg (·.2.1) h.2), ?_⟩
    simp [hparser]

end HostMmioSpan

/-- A span whose operation, given by parser and identifier, is not completed. -/
def HostDmaSpan.Open (s : HostDmaSpan) (key : UInt64 × UInt64) : Prop :=
  s.isPending = true ∧ s.hostDmaCompletion = none ∧
    ∃ exec, s.hostDmaExecution = some exec ∧ s.events = [exec] ∧
      (exec.parserIdentifier, exec.getId) = key

namespace HostDmaSpan

variable {s : HostDmaSpan} {ev : Event} {key : UInt64 × UInt64}

theorem addToSpan_new (hexec : ev.getType = .kHostDmaWT ∨ ev.getType = .kHostDmaRT) :
    ∃ s, addToSpan { } ev = (true, s) ∧ s.Open (ev.parserIdentifier, ev.getId) := by
  unfold addToSpan
  rw [EventSpan.isPotentialAdd_nil rfl rfl]
  rcases hexec with hwrite | hread
  · simp [hwrite, Open]
  · simp [hread, Open]

theorem Open.addToSpan_exec (hopen : s.Open key)
    (hexec : ev.getType = .kHostDmaWT ∨ ev.getType = .kHostDmaRT) :
    s.addToSpan ev = (false, s) := by
  obtain ⟨-, -, exec, hexecution, -, -⟩ := hopen
  unfold addToSpan
  rcases hexec with hwrite | hread
  · simp [hwrite, hexecution]
  · simp [hread, hexecution]

theorem Open.addToSpan_completion (hopen : s.Open key) (hcompletion : ev.getType = .kHostDmaCT) :
    (ev.parserIdentifier, ev.getId) ≠ key ∧ s.addToSpan ev = (false, s) ∨
      (ev.parserIdentifier, ev.getId) = key ∧
        ∃ s', s.addToSpan ev = (true, s') ∧ s'.isPending = false := by
  obtain ⟨hpending, hnone, exec, hexecution, hevents, rfl⟩ := hopen
  unfold addToSpan
  rw [EventSpan.isPotentialAdd_cons hpending hevents]
  by_cases hparser : exec.parserIdentifier = ev.parserIdentifier
  · by_cases hid : exec.getId = ev.getId
    · refine .inr ⟨by rw [hparser, hid], ?_⟩
      simp [hcompletion, hexecution, hnone, hparser, hid]
    · refine .inl ⟨fun heq => hid (congrArg Prod.snd heq).symm, ?_⟩
      simp [hcompletion, hexecution, hnone, hparser, hid]
  · refine .inl ⟨fun heq => hparser (congrArg Prod.fst heq).symm, ?_⟩
    simp [hparser]

end HostDmaSpan

/-- A span whose interrupt, of this parser, is not completed. -/
def HostMsixSpan.Open (s : HostMsixSpan) (parser : UInt64) : Prop :=
  s.isPending = true ∧ s.hostDmaC = none ∧
    ∃ msix, s.hostMsix = some msix ∧ s.events = [msix] ∧ msix.parserIdentifier = parser

namespace HostMsixSpan

variable {s : HostMsixSpan} {ev : Event} {parser : UInt64}

theorem addToSpan_new (hmsix : ev.getType = .kHostMsiXT) :
    ∃ s, addToSpan { } ev = (true, s) ∧ s.Open ev.parserIdentifier := by
  unfold addToSpan
  rw [EventSpan.isPotentialAdd_nil rfl rfl]
  simp [hmsix, Open]

/-- A span that refuses an event is not changed. -/
theorem addToSpan_refused (h : (s.addToSpan ev).1 = false) : s.addToSpan ev = (false, s) := by
  unfold addToSpan at h ⊢
  grind

theorem addToSpan_exec (hexec : ev.getType = .kHostDmaWT ∨ ev.getType = .kHostDmaRT) :
    s.addToSpan ev = (false, s) := by
  unfold addToSpan
  rcases hexec with hwrite | hread
  · simp [hwrite]
  · simp [hread]

theorem Open.addToSpan_completion (hopen : s.Open parser) (hcompletion : ev.getType = .kHostDmaCT) :
    ¬ (ev.parserIdentifier = parser ∧ ev.getId = 0) ∧ s.addToSpan ev = (false, s) ∨
      (ev.parserIdentifier = parser ∧ ev.getId = 0) ∧
        ∃ s', s.addToSpan ev = (true, s') ∧ s'.isPending = false := by
  obtain ⟨hpending, hnone, msix, hmsix, hevents, rfl⟩ := hopen
  unfold addToSpan
  rw [EventSpan.isPotentialAdd_cons hpending hevents]
  by_cases hparser : msix.parserIdentifier = ev.parserIdentifier
  · by_cases hid : ev.getId = 0
    · refine .inr ⟨⟨hparser.symm, hid⟩, ?_⟩
      simp [hcompletion, hmsix, hnone, hparser, hid]
    · refine .inl ⟨fun h => hid h.2, ?_⟩
      simp [hcompletion, hmsix, hnone, hparser, hid]
  · refine .inl ⟨fun h => hparser h.1.symm, ?_⟩
    simp [hparser]

end HostMsixSpan

/-- A pending span that took these events of a transaction. -/
def NicDmaSpan.Open (s : NicDmaSpan) (evs : List Event) : Prop :=
  s.isPending = true ∧ s.events = evs ∧ s.dmaIssue = evs[0]? ∧ s.nicDmaExecution = evs[1]? ∧
    s.nicDmaCompletion = none

namespace NicDmaSpan

variable {s : NicDmaSpan} {ev issue exec : Event} {rest : List Event}

theorem addToSpan_new (hissue : ev.getType = .kNicDmaIT) :
    ∃ s, addToSpan { } ev = (true, s) ∧ s.Open [ev] := by
  unfold addToSpan
  rw [EventSpan.isPotentialAdd_nil rfl rfl]
  simp [hissue, Open]

/-- A span refuses a second issue, and what belongs to another one. -/
theorem Open.addToSpan_refuses (hopen : s.Open (issue :: rest))
    (hother : ev.getType = .kNicDmaIT ∨ belongsTo issue ev = false) :
    ∃ s', s.addToSpan ev = (false, s') ∧ s'.Open (issue :: rest) := by
  obtain ⟨hpending, hevents, hissue, hexec, hnone⟩ := hopen
  have hissue : s.dmaIssue = some issue := hissue
  unfold addToSpan
  cases htype : ev.getType with
  | kNicDmaIT => exact ⟨s, by simp [hissue], hpending, hevents, hissue, hexec, hnone⟩
  | kNicDmaExT =>
    have hother : belongsTo issue ev = false := hother.resolve_left (by simp [htype])
    exact ⟨s, by simp [hissue, hother], hpending, hevents, hissue, hexec, hnone⟩
  | kNicDmaCWT | kNicDmaCRT =>
    have hother : belongsTo issue ev = false := hother.resolve_left (by simp [htype])
    simp only [hissue, hother, Bool.not_false, if_true]
    split_ifs
    · exact ⟨s, rfl, hpending, hevents, hissue, hexec, hnone⟩
    · exact ⟨s, rfl, hpending, hevents, hissue, hexec, hnone⟩
    · exact ⟨_, rfl, hpending, hevents, rfl, hexec, hnone⟩
  | _ => exact ⟨s, by simp, hpending, hevents, hissue, hexec, hnone⟩

theorem Open.addToSpan_execution (hopen : s.Open [issue])
    (hparser : issue.parserIdentifier = ev.parserIdentifier) (hown : belongsTo issue ev = true)
    (htype : ev.getType = .kNicDmaExT) :
    ∃ s', s.addToSpan ev = (true, s') ∧ s'.Open [issue, ev] := by
  obtain ⟨hpending, hevents, hissue, hexec, hnone⟩ := hopen
  have hissue : s.dmaIssue = some issue := hissue
  have hexec : s.nicDmaExecution = none := hexec
  unfold addToSpan
  rw [EventSpan.isPotentialAdd_cons hpending hevents]
  simp [hparser, htype, hissue, hexec, hown, Open, hpending, hevents, hnone]

theorem Open.addToSpan_completion (hopen : s.Open [issue, exec])
    (hparser : issue.parserIdentifier = ev.parserIdentifier) (hown : belongsTo issue ev = true)
    (htype : ev.getType = .kNicDmaCRT ∨ ev.getType = .kNicDmaCWT) :
    ∃ s', s.addToSpan ev = (true, s') ∧ s'.isPending = false ∧ s'.events = [issue, exec, ev] ∧
      s'.isRead = decide (ev.getType = .kNicDmaCRT) := by
  obtain ⟨hpending, hevents, hissue, hexec, hnone⟩ := hopen
  have hissue : s.dmaIssue = some issue := hissue
  have hexec : s.nicDmaExecution = some exec := hexec
  unfold addToSpan
  rw [EventSpan.isPotentialAdd_cons hpending hevents]
  rcases htype with htype | htype
  · simp [hparser, htype, hissue, hexec, hown, hevents, hnone]
  · simp [hparser, htype, hissue, hexec, hown, hevents, hnone]

end NicDmaSpan

namespace NetDeviceSpan

variable {s : NetDeviceSpan} {ev : Event} {net enq : NetworkEvent}

theorem isConsistent_fields (h : isConsistent enq net = true) :
    enq.node = net.node ∧ enq.device = net.device ∧ enq.deviceType = net.deviceType ∧
      enq.packetUid = net.packetUid ∧ enq.interestingFlag = net.interestingFlag := by
  unfold isConsistent at h
  split_ifs at h
  simp only [Bool.and_eq_true, decide_eq_true_eq] at h
  obtain ⟨⟨⟨⟨⟨hnode, hdevice⟩, htype⟩, huid⟩, hflag⟩, -⟩ := h
  exact ⟨hnode, hdevice, htype, huid, hflag⟩

theorem setAndCheckPotential_keeps (s : NetDeviceSpan) (net : NetworkEvent) :
    (s.setAndCheckPotential net).2.devEnq = s.devEnq ∧
      (s.setAndCheckPotential net).2.isPending = s.isPending := by
  unfold setAndCheckPotential setAndCheckPotentialIp setAndCheckPotentialArp
  cases net.ipHeader <;> cases net.arpHeader <;> simp <;> grind

/-- A new span takes its first event. -/
theorem addToSpan_new (h : addToSpan { } ev = (true, s)) (hnet : ev.network = some net) :
    s.devEnq = some net ∧ s.isPending = true := by
  obtain ⟨ts, parser, name, kind⟩ := ev
  unfold addToSpan at h
  rw [EventSpan.isPotentialAdd_nil rfl rfl] at h
  cases kind with
  | networkEnqueue net' =>
    obtain rfl : net' = net := Option.some.inj hnet
    have h : handelEnqueue { } ⟨ts, parser, name, .networkEnqueue net'⟩ net' = (true, s) := h
    unfold handelEnqueue at h
    have hkept := setAndCheckPotential_keeps { } net'
    cases hcheck : setAndCheckPotential { } net' with
    | mk ok s' =>
      rw [hcheck] at hkept
      cases ok with
      | false => simp [hcheck] at h
      | true =>
        simp [hcheck] at h
        obtain rfl := h
        exact ⟨rfl, hkept.2⟩
  | _ => cases h

/-- A span with its first event refuses others of that kind, and what is not consistent
with the first one. -/
theorem addToSpan_refuses (henq : s.devEnq = some enq) (hev : ev.getType = .kNetworkEnqueueT ∨
    ∀ net, ev.network = some net → isConsistent enq net = false) :
    s.addToSpan ev = (false, s) := by
  obtain ⟨ts, parser, name, kind⟩ := ev
  unfold addToSpan
  split
  · rfl
  · cases kind with
    | networkEnqueue net => simp [handelEnqueue, henq]
    | networkDequeue net =>
      have hne : isConsistent enq net = false := by
        rcases hev with htype | hall
        · cases htype
        · exact hall net rfl
      simp [handelDequeue, handelEnd, henq, hne]
    | networkDrop net =>
      have hne : isConsistent enq net = false := by
        rcases hev with htype | hall
        · cases htype
        · exact hall net rfl
      simp [handelDrop, handelEnd, henq, hne]
    | _ => rfl

theorem handelEnd_cases (finish : NetDeviceSpan → NetDeviceSpan)
    (hfinish : ∀ s, (finish s).devEnq = s.devEnq) (henq : s.devEnq = some enq) :
    (∃ s', handelEnd finish s ev net = (false, s') ∧ s'.devEnq = some enq ∧
        s'.isPending = s.isPending) ∨
      ∃ s', handelEnd finish s ev net = (true, s') ∧ s'.devEnq = some enq ∧
        s'.isPending = false ∧ isConsistent enq net = true := by
  unfold handelEnd
  rw [henq]
  dsimp only
  obtain ⟨hkept, hpending⟩ := setAndCheckPotential_keeps s net
  rw [henq] at hkept
  split_ifs with hended hconsistent
  · exact .inl ⟨s, rfl, henq, rfl⟩
  · exact .inl ⟨s, rfl, henq, rfl⟩
  · cases hcheck : s.setAndCheckPotential net with
    | mk ok s' =>
      rw [hcheck] at hkept hpending
      cases ok with
      | false => exact .inl ⟨s', rfl, hkept, hpending⟩
      | true => exact .inr ⟨_, rfl, (hfinish s').trans hkept, rfl, by simpa using hconsistent⟩

/-- What a span with its first event takes completes it. -/
theorem addToSpan_cases (s : NetDeviceSpan) (ev : Event) (henq : s.devEnq = some enq) :
    (∃ s', s.addToSpan ev = (false, s') ∧ s'.devEnq = some enq ∧ s'.isPending = s.isPending) ∨
      ∃ s' net, s.addToSpan ev = (true, s') ∧ s'.devEnq = some enq ∧ s'.isPending = false ∧
        ev.network = some net ∧ isConsistent enq net = true := by
  by_cases hpotential : s.isPotentialAdd ev
  · obtain ⟨ts, parser, name, kind⟩ := ev
    cases kind with
    | networkEnqueue net => exact .inl ⟨s, addToSpan_refuses henq (.inl rfl), henq, rfl⟩
    | networkDequeue net =>
      unfold addToSpan
      simp only [hpotential, Bool.not_true, Bool.false_eq_true, if_false]
      obtain hfalse | ⟨s', htrue, hkept, hdone, hconsistent⟩ := handelEnd_cases
        (fun s => { s with devDeq := some net }) (fun _ => rfl) henq
      · exact .inl hfalse
      · exact .inr ⟨s', net, htrue, hkept, hdone, rfl, hconsistent⟩
    | networkDrop net =>
      unfold addToSpan
      simp only [hpotential, Bool.not_true, Bool.false_eq_true, if_false]
      obtain hfalse | ⟨s', htrue, hkept, hdone, hconsistent⟩ := handelEnd_cases
        (fun s => { s with drop := some net }) (fun _ => rfl) henq
      · exact .inl hfalse
      · exact .inr ⟨s', net, htrue, hkept, hdone, rfl, hconsistent⟩
    | _ => exact .inl ⟨s, by simp [addToSpan], henq, rfl⟩
  · exact .inl ⟨s, by simp [addToSpan, hpotential], henq, rfl⟩

theorem addToSpan_devEnq (s : NetDeviceSpan) (ev : Event) (henq : s.devEnq = some enq) :
    (s.addToSpan ev).2.devEnq = some enq := by
  obtain ⟨s', hfalse, hkept, -⟩ | ⟨s', net, htrue, hkept, -⟩ := s.addToSpan_cases ev henq
  · rw [hfalse]
    exact hkept
  · rw [htrue]
    exact hkept

end NetDeviceSpan

/-- A complete span refuses all events, and refusing one does not complete a span. -/
structure SpanClass.Steady (St : Type) [SpanClass St] : Prop where
  refuses : ∀ env (s : St) ev, isComplete s = true → (addToSpan env s ev).1 = false
  keeps : ∀ env (s : St) ev, (addToSpan env s ev).1 = false →
    isComplete (addToSpan env s ev).2 = isComplete s

namespace SpanClass

theorem steady_hostMmio : Steady HostMmioSpan := by
  constructor
  · intro env s ev hcomplete
    have hpending : s.isPending = false := by simpa using hcomplete
    change (s.addToSpan ev).1 = false
    unfold HostMmioSpan.addToSpan
    simp [EventSpan.isPotentialAdd_complete hpending]
  · intro env s ev hrefused
    change (s.addToSpan ev).1 = false at hrefused
    change (!(s.addToSpan ev).2.isPending) = !s.isPending
    unfold HostMmioSpan.addToSpan at hrefused ⊢
    grind

theorem steady_hostDma : Steady HostDmaSpan := by
  constructor
  · intro env s ev hcomplete
    have hpending : s.isPending = false := by simpa using hcomplete
    change (s.addToSpan ev).1 = false
    unfold HostDmaSpan.addToSpan
    simp [EventSpan.isPotentialAdd_complete hpending]
  · intro env s ev hrefused
    change (s.addToSpan ev).1 = false at hrefused
    change (!(s.addToSpan ev).2.isPending) = !s.isPending
    unfold HostDmaSpan.addToSpan at hrefused ⊢
    grind

theorem steady_nicDma : Steady NicDmaSpan := by
  constructor
  · intro env s ev hcomplete
    have hpending : s.isPending = false := by simpa using hcomplete
    change (s.addToSpan ev).1 = false
    unfold NicDmaSpan.addToSpan
    simp [EventSpan.isPotentialAdd_complete hpending]
  · intro env s ev hrefused
    change (s.addToSpan ev).1 = false at hrefused
    change (!(s.addToSpan ev).2.isPending) = !s.isPending
    unfold NicDmaSpan.addToSpan at hrefused ⊢
    grind

theorem steady_netDevice : Steady NetDeviceSpan := by
  constructor
  · intro env s ev hcomplete
    have hpending : s.isPending = false := by simpa using hcomplete
    change (s.addToSpan ev).1 = false
    unfold NetDeviceSpan.addToSpan
    simp [EventSpan.isPotentialAdd_complete hpending]
  · intro env s ev hrefused
    change (s.addToSpan ev).1 = false at hrefused
    change (!(s.addToSpan ev).2.isPending) = !s.isPending
    have hkept := fun net => (s.setAndCheckPotential_keeps net).2
    unfold NetDeviceSpan.addToSpan NetDeviceSpan.handelEnqueue NetDeviceSpan.handelDequeue
      NetDeviceSpan.handelDrop NetDeviceSpan.handelEnd at hrefused ⊢
    grind

end SpanClass

theorem HostPciSpan.complete_of_conf {s s' : HostPciSpan} {ev : Event}
    (hconf : ev.getType = .kHostConfT) (h : s.addToSpan ev = (true, s')) : s'.isPending = false := by
  unfold addToSpan at h
  grind

theorem HostMsixSpan.complete_of_ne {s s' : HostMsixSpan} {ev : Event}
    (hev : ev.getType ≠ .kHostMsiXT) (h : s.addToSpan ev = (true, s')) : s'.isPending = false := by
  unfold addToSpan at h
  grind

theorem NicMmioSpan.complete_of_new {s : NicMmioSpan} {ev : Event}
    (h : addToSpan { } ev = (true, s)) : s.isPending = false := by
  unfold addToSpan at h
  grind

theorem NicEthSpan.complete_of_new {s : NicEthSpan} {ev : Event}
    (h : addToSpan { } ev = (true, s)) : s.isPending = false := by
  unfold addToSpan at h
  grind

theorem NicMsixSpan.complete_of_new {s : NicMsixSpan} {ev : Event}
    (h : addToSpan { } ev = (true, s)) : s.isPending = false := by
  unfold addToSpan at h
  grind

theorem HostDmaSpan.isPending_new (ev : Event) : (addToSpan { } ev).2.isPending = true := by
  unfold addToSpan
  grind

theorem NicDmaSpan.isPending_new (ev : Event) : (addToSpan { } ev).2.isPending = true := by
  unfold addToSpan
  grind

theorem NetDeviceSpan.isPending_new (ev : Event) : (addToSpan { } ev).2.isPending = true := by
  have hkept := fun net => (setAndCheckPotential_keeps { } net).2
  unfold addToSpan handelEnqueue handelDequeue handelDrop handelEnd
  grind

end Columbo
