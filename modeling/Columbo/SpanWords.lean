import Columbo.Acceptor
import Columbo.SpanSteps

/-!
# The transactions that the spans recognise

Each class of spans with a fixed shape accepts the events of one transaction, in order. Its
transactions are the words of a small language; `Reached` lists the states of a span with
the events that led there.
-/
namespace Columbo

open Acceptor

def Event.SameParser (a b : Event) : Prop := a.parserIdentifier = b.parserIdentifier

variable {past : List Event} {ev : Event}

namespace HostIntSpan

def Word : List Event → Prop :=
  pair (fun post => post.getType = .kHostPostIntT)
    fun post clear => clear.getType = .kHostClearIntT ∧ post.SameParser clear

inductive Reached : HostIntSpan → List Event → Prop
  | fresh : Reached { } []
  | posted {post : Event} (hpost : post.getType = .kHostPostIntT) :
    Reached { events := [post], hostPostInt := some post } [post]
  | cleared {post clear : Event} (hword : Word [post, clear]) :
    Reached { events := [post, clear], isPending := false, hostPostInt := some post,
              hostClearInt := some clear } [post, clear]

theorem begins_singleton : Begins Word [ev] ↔ ev.getType = .kHostPostIntT := by
  unfold Word
  rw [begins_pair_singleton]
  exact and_iff_left ⟨⟨0, ev.parserIdentifier, [], .hostClearInt⟩, rfl, rfl⟩

theorem exact : Exact addToSpan (Begins Word) Reached := by
  intro s past ev hs
  cases hs with
  | fresh =>
    rw [List.nil_append, begins_singleton]
    by_cases hpost : ev.getType = .kHostPostIntT
    · exact .inl ⟨hpost, _, by simp [addToSpan, EventSpan.isPotentialAdd_nil, hpost], .posted hpost⟩
    · refine .inr ⟨hpost, _, ?_, .fresh⟩
      unfold addToSpan
      grind
  | @posted post hpost =>
    rw [List.singleton_append, Word, begins_pair_pair, ← Word]
    by_cases hword : Word [post, ev]
    · refine .inl ⟨hword, _, ?_, .cleared hword⟩
      obtain ⟨-, hclear, hparser⟩ := pair_pair.mp hword
      simp [addToSpan, EventSpan.isPotentialAdd, EventSpan.isComplete, hclear, hparser.symm]
    · refine .inr ⟨hword, _, ?_, .posted hpost⟩
      simp [Word, hpost, Event.SameParser] at hword
      unfold addToSpan EventSpan.isPotentialAdd EventSpan.isComplete
      grind
  | cleared hword =>
    refine .inr ⟨by simp [Word], _, ?_, .cleared hword⟩
    simp [addToSpan, EventSpan.isPotentialAdd_complete]

theorem Reached.complete_iff {s : HostIntSpan} (h : s.Reached past) :
    s.isComplete = true ↔ Word past := by
  cases h with
  | fresh => simp [EventSpan.isComplete, Word]
  | posted => simp [EventSpan.isComplete, Word]
  | cleared hword => exact iff_of_true rfl hword

end HostIntSpan

namespace HostDmaSpan

def Word : List Event → Prop :=
  pair (fun exec => exec.getType = .kHostDmaRT ∨ exec.getType = .kHostDmaWT)
    fun exec completion => completion.getType = .kHostDmaCT ∧ exec.getId = completion.getId ∧
      exec.SameParser completion

inductive Reached : HostDmaSpan → List Event → Prop
  | fresh : Reached { } []
  | executed {exec : Event} (hexec : exec.getType = .kHostDmaRT ∨ exec.getType = .kHostDmaWT) :
    Reached { events := [exec], hostDmaExecution := some exec,
              isRead := exec.getType = .kHostDmaRT } [exec]
  | completed {exec completion : Event} (hword : Word [exec, completion]) :
    Reached { events := [exec, completion], isPending := false, hostDmaExecution := some exec,
              isRead := exec.getType = .kHostDmaRT, hostDmaCompletion := some completion }
      [exec, completion]

theorem begins_singleton :
    Begins Word [ev] ↔ ev.getType = .kHostDmaRT ∨ ev.getType = .kHostDmaWT := by
  unfold Word
  rw [begins_pair_singleton]
  exact and_iff_left ⟨⟨0, ev.parserIdentifier, [], .hostDmaC ev.getId⟩, rfl, rfl, rfl⟩

theorem exact : Exact addToSpan (Begins Word) Reached := by
  intro s past ev hs
  cases hs with
  | fresh =>
    rw [List.nil_append, begins_singleton]
    by_cases hexec : ev.getType = .kHostDmaRT ∨ ev.getType = .kHostDmaWT
    · refine .inl ⟨hexec, _, ?_, .executed hexec⟩
      rcases hexec with hread | hwrite
      · simp [addToSpan, EventSpan.isPotentialAdd_nil, hread]
      · simp [addToSpan, EventSpan.isPotentialAdd_nil, hwrite]
    · refine .inr ⟨hexec, _, ?_, .fresh⟩
      unfold addToSpan
      grind
  | @executed exec hexec =>
    rw [List.singleton_append, Word, begins_pair_pair, ← Word]
    by_cases hword : Word [exec, ev]
    · refine .inl ⟨hword, _, ?_, .completed hword⟩
      obtain ⟨-, hcompletion, hid, hparser⟩ := pair_pair.mp hword
      simp [addToSpan, EventSpan.isPotentialAdd, EventSpan.isComplete, hcompletion, hid,
        hparser.symm]
    · refine .inr ⟨hword, _, ?_, .executed hexec⟩
      simp [Word, hexec, Event.SameParser] at hword
      unfold addToSpan EventSpan.isPotentialAdd EventSpan.isComplete
      grind
  | completed hword =>
    refine .inr ⟨by simp [Word], _, ?_, .completed hword⟩
    simp [addToSpan, EventSpan.isPotentialAdd_complete]

theorem Reached.complete_iff {s : HostDmaSpan} (h : s.Reached past) :
    s.isComplete = true ↔ Word past := by
  cases h with
  | fresh => simp [EventSpan.isComplete, Word]
  | executed => simp [EventSpan.isComplete, Word]
  | completed hword => exact iff_of_true rfl hword

end HostDmaSpan

namespace HostMsixSpan

def Word : List Event → Prop :=
  pair (fun msix => msix.getType = .kHostMsiXT)
    fun msix dma => dma.getType = .kHostDmaCT ∧ dma.getId = 0 ∧ msix.SameParser dma

inductive Reached : HostMsixSpan → List Event → Prop
  | fresh : Reached { } []
  | raised {msix : Event} (hmsix : msix.getType = .kHostMsiXT) :
    Reached { events := [msix], hostMsix := some msix } [msix]
  | completed {msix dma : Event} (hword : Word [msix, dma]) :
    Reached { events := [msix, dma], isPending := false, hostMsix := some msix,
              hostDmaC := some dma } [msix, dma]

theorem begins_singleton : Begins Word [ev] ↔ ev.getType = .kHostMsiXT := by
  unfold Word
  rw [begins_pair_singleton]
  exact and_iff_left ⟨⟨0, ev.parserIdentifier, [], .hostDmaC 0⟩, rfl, rfl, rfl⟩

theorem exact : Exact addToSpan (Begins Word) Reached := by
  intro s past ev hs
  cases hs with
  | fresh =>
    rw [List.nil_append, begins_singleton]
    by_cases hmsix : ev.getType = .kHostMsiXT
    · exact .inl ⟨hmsix, _, by simp [addToSpan, EventSpan.isPotentialAdd_nil, hmsix], .raised hmsix⟩
    · refine .inr ⟨hmsix, _, ?_, .fresh⟩
      unfold addToSpan
      grind
  | @raised msix hmsix =>
    rw [List.singleton_append, Word, begins_pair_pair, ← Word]
    by_cases hword : Word [msix, ev]
    · refine .inl ⟨hword, _, ?_, .completed hword⟩
      obtain ⟨-, hdma, hid, hparser⟩ := pair_pair.mp hword
      simp [addToSpan, EventSpan.isPotentialAdd, EventSpan.isComplete, hdma, hid, hparser.symm]
    · refine .inr ⟨hword, _, ?_, .raised hmsix⟩
      simp [Word, hmsix, Event.SameParser] at hword
      unfold addToSpan EventSpan.isPotentialAdd EventSpan.isComplete
      grind
  | completed hword =>
    refine .inr ⟨by simp [Word], _, ?_, .completed hword⟩
    simp [addToSpan, EventSpan.isPotentialAdd_complete]

theorem Reached.complete_iff {s : HostMsixSpan} (h : s.Reached past) :
    s.isComplete = true ↔ Word past := by
  cases h with
  | fresh => simp [EventSpan.isComplete, Word]
  | raised => simp [EventSpan.isComplete, Word]
  | completed hword => exact iff_of_true rfl hword

end HostMsixSpan

namespace HostPciSpan

def Word : List Event → Prop :=
  pair (fun rw => rw.getType = .kHostPciRWT)
    fun rw conf => conf.getType = .kHostConfT ∧ conf.isRead = rw.isRead ∧ rw.SameParser conf

inductive Reached : HostPciSpan → List Event → Prop
  | fresh : Reached { } []
  | accessed {rw : Event} (hrw : rw.getType = .kHostPciRWT) :
    Reached { events := [rw], hostPciRw := some rw, isRead := rw.isRead } [rw]
  | configured {rw conf : Event} (hword : Word [rw, conf]) :
    Reached { events := [rw, conf], isPending := false, hostPciRw := some rw,
              hostConfRw := some conf, isRead := rw.isRead } [rw, conf]

theorem begins_singleton : Begins Word [ev] ↔ ev.getType = .kHostPciRWT := by
  unfold Word
  rw [begins_pair_singleton]
  exact and_iff_left
    ⟨⟨0, ev.parserIdentifier, [], .hostConf 0 0 0 0 0 ev.isRead⟩, rfl, rfl, rfl⟩

theorem exact : Exact addToSpan (Begins Word) Reached := by
  intro s past ev hs
  cases hs with
  | fresh =>
    rw [List.nil_append, begins_singleton]
    by_cases hrw : ev.getType = .kHostPciRWT
    · exact .inl ⟨hrw, _, by simp [addToSpan, EventSpan.isPotentialAdd_nil, hrw], .accessed hrw⟩
    · refine .inr ⟨hrw, _, ?_, .fresh⟩
      unfold addToSpan
      grind
  | @accessed rw hrw =>
    rw [List.singleton_append, Word, begins_pair_pair, ← Word]
    by_cases hword : Word [rw, ev]
    · refine .inl ⟨hword, _, ?_, .configured hword⟩
      obtain ⟨-, hconf, hread, hparser⟩ := pair_pair.mp hword
      simp [addToSpan, EventSpan.isPotentialAdd, EventSpan.isComplete, hconf, hread, hparser.symm]
    · refine .inr ⟨hword, _, ?_, .accessed hrw⟩
      simp [Word, hrw, Event.SameParser] at hword
      unfold addToSpan EventSpan.isPotentialAdd EventSpan.isComplete
      grind
  | configured hword =>
    refine .inr ⟨by simp [Word], _, ?_, .configured hword⟩
    simp [addToSpan, EventSpan.isPotentialAdd_complete]

theorem Reached.complete_iff {s : HostPciSpan} (h : s.Reached past) :
    s.isComplete = true ↔ Word past := by
  cases h with
  | fresh => simp [EventSpan.isComplete, Word]
  | accessed => simp [EventSpan.isComplete, Word]
  | configured hword => exact iff_of_true rfl hword

end HostPciSpan

namespace HostMmioSpan

open TraceEnvironment

/-- A read of a register that is not the device's. -/
def ReadsOther (ev : Event) : Prop :=
  ev.getType = .kHostMmioRT ∧ isMsixNotToDeviceBarNumber ev.getBar = true

def ReadWord : List Event → Prop :=
  pair (fun read => read.getType = .kHostMmioRT ∧ isToDeviceBarNumber read.getBar = true)
    fun read completion => completion.getType = .kHostMmioCRT ∧
      completion.getId = read.getId ∧ read.SameParser completion

def PostedWriteWord : List Event → Prop :=
  pair (fun write => write.getType = .kHostMmioWT ∧ write.isPosted = true)
    fun write response => response.getType = .kHostMmioImRespPoWT ∧
      response.getTs = write.getTs ∧ write.SameParser response

def WriteWord : List Event → Prop :=
  pair (fun write => write.getType = .kHostMmioWT ∧ isToDeviceBarNumber write.getBar = true)
    fun write completion => completion.getType = .kHostMmioCWT ∧
      completion.getId = write.getId ∧ write.SameParser completion

def Word (w : List Event) : Prop :=
  single ReadsOther w ∨ ReadWord w ∨ PostedWriteWord w ∨ WriteWord w

/-- A write that is not posted, to a register that is not the device's. -/
def Stuck (ev : Event) : Prop :=
  ev.getType = .kHostMmioWT ∧ ev.isPosted = false ∧
    isMsixNotToDeviceBarNumber ev.getBar = true

/-- What a span takes: what begins a word, and a write that nothing answers. -/
def Starts (past : List Event) : Prop := Begins Word past ∨ single Stuck past

inductive Reached : HostMmioSpan → List Event → Prop
  | fresh (bar : Int32) : Reached { barNumber := bar } []
  | readOther {read : Event} (hread : ReadsOther read) :
    Reached { events := [read], isPending := false, hostMmioIssue := some read, isRead := true,
              barNumber := read.getBar } [read]
  | issued {issue : Event} (hissue : issue.getType = .kHostMmioRT ∨ issue.getType = .kHostMmioWT)
    (hother : ¬ ReadsOther issue) :
    Reached { events := [issue], hostMmioIssue := some issue,
              isRead := issue.getType = .kHostMmioRT, isPosted := issue.isPosted,
              barNumber := issue.getBar } [issue]
  | responded {write response : Event} (hword : Word [write, response])
    (hresponse : response.getType = .kHostMmioImRespPoWT) :
    Reached { events := [write, response], isPending := false, hostMmioIssue := some write,
              isPosted := true, barNumber := write.getBar, imMmioResp := some response }
      [write, response]
  | completed {issue completion : Event} (hword : Word [issue, completion])
    (hcompletion : completion.getType ≠ .kHostMmioImRespPoWT) :
    Reached { events := [issue, completion], isPending := false, hostMmioIssue := some issue,
              isRead := issue.getType = .kHostMmioRT, isPosted := issue.isPosted,
              barNumber := issue.getBar, completion := some completion } [issue, completion]

theorem begins_iff : Begins Word past ↔ Begins (single ReadsOther) past ∨
    Begins ReadWord past ∨ Begins PostedWriteWord past ∨ Begins WriteWord past := by
  unfold Begins Word
  rw [exists_or, exists_or, exists_or]

/-- A span takes every read and every write as its first event. -/
theorem starts_singleton :
    Starts [ev] ↔ ev.getType = .kHostMmioRT ∨ ev.getType = .kHostMmioWT := by
  have hread : Begins ReadWord [ev] ↔
      ev.getType = .kHostMmioRT ∧ isToDeviceBarNumber ev.getBar = true := by
    unfold ReadWord
    rw [begins_pair_singleton]
    exact and_iff_left ⟨⟨0, ev.parserIdentifier, [], .hostMmioCR ev.getId⟩, rfl, rfl, rfl⟩
  have hposted : Begins PostedWriteWord [ev] ↔
      ev.getType = .kHostMmioWT ∧ ev.isPosted = true := by
    unfold PostedWriteWord
    rw [begins_pair_singleton]
    exact and_iff_left
      ⟨⟨ev.timestamp, ev.parserIdentifier, [], .hostMmioImRespPoW⟩, rfl, rfl, rfl⟩
  have hwrite : Begins WriteWord [ev] ↔
      ev.getType = .kHostMmioWT ∧ isToDeviceBarNumber ev.getBar = true := by
    unfold WriteWord
    rw [begins_pair_singleton]
    exact and_iff_left ⟨⟨0, ev.parserIdentifier, [], .hostMmioCW ev.getId⟩, rfl, rfl, rfl⟩
  rw [Starts, begins_iff, begins_single, single_singleton, hread, hposted, hwrite]
  unfold ReadsOther Stuck isToDeviceBarNumber isMsixNotToDeviceBarNumber
  grind

theorem starts_pair {issue : Event} : Starts [issue, ev] ↔ Word [issue, ev] := by
  rw [Starts, begins_iff, Word, ReadWord, PostedWriteWord, WriteWord, begins_pair_pair,
    begins_pair_pair, begins_pair_pair]
  simp [single]

theorem word_pair {issue : Event} (hissue : ¬ ReadsOther issue) : Word [issue, ev] ↔
    issue.SameParser ev ∧
      (issue.getType = .kHostMmioRT ∧ ev.getType = .kHostMmioCRT ∧ ev.getId = issue.getId ∨
        issue.getType = .kHostMmioWT ∧ (issue.isPosted = true ∧
            ev.getType = .kHostMmioImRespPoWT ∧ ev.getTs = issue.getTs ∨
          isToDeviceBarNumber issue.getBar = true ∧ ev.getType = .kHostMmioCWT ∧
            ev.getId = issue.getId)) := by
  rw [Word, ReadWord, PostedWriteWord, WriteWord, pair_pair, pair_pair, pair_pair]
  unfold ReadsOther isMsixNotToDeviceBarNumber at hissue
  unfold isToDeviceBarNumber
  simp [single]
  grind

theorem not_word_of_readsOther {read : Event} (hread : ReadsOther read) : ¬ Word [read, ev] := by
  obtain ⟨htype, hbar⟩ := hread
  unfold isMsixNotToDeviceBarNumber at hbar
  simp [Word, ReadWord, PostedWriteWord, WriteWord, single, htype, isToDeviceBarNumber]
  grind

theorem Stuck.not_word (h : Stuck ev) : ¬ Word [ev] := by
  rintro (hother | hread | hposted | hwrite)
  · have htype := (single_singleton.mp hother).1
    rw [h.1] at htype
    cases htype
  · exact not_pair_singleton hread
  · exact not_pair_singleton hposted
  · exact not_pair_singleton hwrite

theorem Stuck.not_begins (h : Stuck ev) : ¬ Begins Word [ev] := by
  obtain ⟨htype, hposted, hbar⟩ := h
  unfold isMsixNotToDeviceBarNumber at hbar
  simp [begins_iff, ReadWord, PostedWriteWord, WriteWord, begins_pair_singleton, ReadsOther, htype,
    hposted, isToDeviceBarNumber]
  grind

theorem Stuck.not_starts {write : Event} (h : Stuck write) : ¬ Starts [write, ev] := by
  obtain ⟨htype, hposted, hbar⟩ := h
  unfold isMsixNotToDeviceBarNumber at hbar
  rw [starts_pair, word_pair (by simp [ReadsOther, htype])]
  simp [htype, hposted, isToDeviceBarNumber]
  grind

theorem not_starts_triple {a b : Event} : ¬ Starts ([a, b] ++ [ev]) := by
  rw [Starts, begins_iff, ReadWord, PostedWriteWord, WriteWord]
  simp [single]

theorem exact : Exact addToSpan Starts Reached := by
  intro s past ev hs
  cases hs with
  | fresh bar =>
    rw [List.nil_append, starts_singleton]
    by_cases hissue : ev.getType = .kHostMmioRT ∨ ev.getType = .kHostMmioWT
    · left
      refine ⟨hissue, ?_⟩
      by_cases hother : ReadsOther ev
      · refine ⟨_, ?_, .readOther hother⟩
        simp [addToSpan, EventSpan.isPotentialAdd_nil, hother.1, hother.2]
      · refine ⟨_, ?_, .issued hissue hother⟩
        rcases hissue with hread | hwrite
        · have hdevice : isMsixNotToDeviceBarNumber ev.getBar = false :=
            Bool.eq_false_iff.mpr fun hbar => hother ⟨hread, hbar⟩
          simp [addToSpan, EventSpan.isPotentialAdd_nil, hread, hdevice, Event.isPosted_of_read]
        · simp [addToSpan, EventSpan.isPotentialAdd_nil, hwrite]
    · refine .inr ⟨hissue, _, ?_, .fresh bar⟩
      unfold addToSpan
      grind
  | @readOther read hread =>
    refine .inr ⟨?_, _, ?_, .readOther hread⟩
    · rw [List.singleton_append, starts_pair]
      exact not_word_of_readsOther hread
    · simp [addToSpan, EventSpan.isPotentialAdd_complete]
  | @issued issue hissue hother =>
    rw [List.singleton_append, starts_pair]
    by_cases hword : Word [issue, ev]
    · refine .inl ⟨hword, ?_⟩
      obtain ⟨hparser, hanswer⟩ := (word_pair hother).mp hword
      rcases hanswer with ⟨hread, hcompletion, hid⟩ | ⟨hwrite, hanswer⟩
      · refine ⟨_, ?_, .completed hword (by simp [hcompletion])⟩
        have hdevice : isMsixNotToDeviceBarNumber issue.getBar = false :=
          Bool.eq_false_iff.mpr fun hbar => hother ⟨hread, hbar⟩
        simp [addToSpan, EventSpan.isPotentialAdd, EventSpan.isComplete, hparser.symm, hread,
          hcompletion, hid, hdevice]
      · rcases hanswer with ⟨hposted, hresponse, hts⟩ | ⟨hbar, hcompletion, hid⟩
        · refine ⟨_, ?_, .responded hword hresponse⟩
          simp [addToSpan, EventSpan.isPotentialAdd, EventSpan.isComplete, hparser.symm, hwrite,
            hposted, hresponse, hts]
        · refine ⟨_, ?_, .completed hword (by simp [hcompletion])⟩
          have hdevice : isMsixNotToDeviceBarNumber issue.getBar = false := by
            simpa [isToDeviceBarNumber, isMsixNotToDeviceBarNumber] using hbar
          simp [addToSpan, EventSpan.isPotentialAdd, EventSpan.isComplete, hparser.symm, hwrite,
            hcompletion, hid, hdevice]
    · refine .inr ⟨hword, _, ?_, .issued hissue hother⟩
      rw [word_pair hother] at hword
      simp only [ReadsOther, isMsixNotToDeviceBarNumber, decide_eq_true_eq] at hother
      simp only [Event.SameParser, isToDeviceBarNumber, decide_eq_true_eq] at hword
      apply addToSpan_refused
      unfold addToSpan EventSpan.isPotentialAdd EventSpan.isComplete isMsixNotToDeviceBarNumber
      rcases hissue with hread | hwrite
      · grind
      · grind
  | responded hword hresponse =>
    refine .inr ⟨not_starts_triple, _, ?_, .responded hword hresponse⟩
    simp [addToSpan, EventSpan.isPotentialAdd_complete]
  | completed hword hcompletion =>
    refine .inr ⟨not_starts_triple, _, ?_, .completed hword hcompletion⟩
    simp [addToSpan, EventSpan.isPotentialAdd_complete]

theorem Reached.complete_iff {s : HostMmioSpan} (h : s.Reached past) :
    s.isComplete = true ↔ Word past := by
  cases h with
  | fresh bar =>
    simp [EventSpan.isComplete, Word, ReadWord, PostedWriteWord, WriteWord]
  | readOther hread => exact iff_of_true rfl (.inl (single_singleton.mpr hread))
  | issued hissue hother =>
    simp [EventSpan.isComplete, Word, ReadWord, PostedWriteWord, WriteWord, hother]
  | responded hword => exact iff_of_true rfl hword
  | completed hword => exact iff_of_true rfl hword

end HostMmioSpan

namespace NicMsixSpan

def Word : List Event → Prop := single fun msix => msix.getType = .kNicMsixT

inductive Reached : NicMsixSpan → List Event → Prop
  | fresh : Reached { } []
  | raised {msix : Event} (hword : Word [msix]) :
    Reached { events := [msix], isPending := false, nicMsix := some msix } [msix]

theorem exact : Exact addToSpan (Begins Word) Reached := by
  intro s past ev hs
  cases hs with
  | fresh =>
    by_cases hmsix : ev.getType = .kNicMsixT
    · refine .inl ⟨by simp [Word, hmsix], _, ?_, .raised (single_singleton.mpr hmsix)⟩
      simp [addToSpan, EventSpan.isPotentialAdd_nil, hmsix]
    · refine .inr ⟨by simp [Word, hmsix], _, ?_, .fresh⟩
      simp [addToSpan, hmsix]
  | raised hword =>
    refine .inr ⟨by simp [Word], _, ?_, .raised hword⟩
    simp [addToSpan, EventSpan.isPotentialAdd_complete]

theorem Reached.complete_iff {s : NicMsixSpan} (h : s.Reached past) :
    s.isComplete = true ↔ Word past := by
  cases h with
  | fresh => simp [EventSpan.isComplete, Word]
  | raised hword => exact iff_of_true rfl hword

end NicMsixSpan

namespace NicMmioSpan

def Word : List Event → Prop :=
  single fun action => action.getType = .kNicMmioRT ∨ action.getType = .kNicMmioWT

inductive Reached : NicMmioSpan → List Event → Prop
  | fresh : Reached { } []
  | acted {action : Event} (hword : Word [action]) :
    Reached { events := [action], isPending := false, action := some action,
              isRead := action.getType = .kNicMmioRT } [action]

theorem exact : Exact addToSpan (Begins Word) Reached := by
  intro s past ev hs
  cases hs with
  | fresh =>
    by_cases haction : ev.getType = .kNicMmioRT ∨ ev.getType = .kNicMmioWT
    · refine .inl ⟨by simp [Word, haction], _, ?_, .acted (single_singleton.mpr haction)⟩
      rcases haction with hread | hwrite
      · simp [addToSpan, EventSpan.isPotentialAdd_nil, hread]
      · simp [addToSpan, EventSpan.isPotentialAdd_nil, hwrite]
    · refine .inr ⟨by simpa [Word] using haction, _, ?_, .fresh⟩
      unfold addToSpan
      grind
  | acted hword =>
    refine .inr ⟨by simp [Word], _, ?_, .acted hword⟩
    simp [addToSpan, EventSpan.isPotentialAdd_complete]

theorem Reached.complete_iff {s : NicMmioSpan} (h : s.Reached past) :
    s.isComplete = true ↔ Word past := by
  cases h with
  | fresh => simp [EventSpan.isComplete, Word]
  | acted hword => exact iff_of_true rfl hword

end NicMmioSpan

namespace NicEthSpan

def Word : List Event → Prop :=
  single fun txRx => txRx.getType = .kNicTxT ∨ txRx.getType = .kNicRxT

inductive Reached : NicEthSpan → List Event → Prop
  | fresh : Reached { } []
  | moved {txRx : Event} (hword : Word [txRx]) :
    Reached { events := [txRx], isPending := false, txRx := some txRx,
              isSend := txRx.getType = .kNicTxT } [txRx]

theorem exact : Exact addToSpan (Begins Word) Reached := by
  intro s past ev hs
  cases hs with
  | fresh =>
    by_cases htxRx : ev.getType = .kNicTxT ∨ ev.getType = .kNicRxT
    · refine .inl ⟨by simp [Word, htxRx], _, ?_, .moved (single_singleton.mpr htxRx)⟩
      rcases htxRx with hsend | hreceive
      · simp [addToSpan, EventSpan.isPotentialAdd_nil, hsend]
      · simp [addToSpan, EventSpan.isPotentialAdd_nil, hreceive]
    · refine .inr ⟨by simpa [Word] using htxRx, _, ?_, .fresh⟩
      unfold addToSpan
      grind
  | moved hword =>
    refine .inr ⟨by simp [Word], _, ?_, .moved hword⟩
    simp [addToSpan, EventSpan.isPotentialAdd_complete]

theorem Reached.complete_iff {s : NicEthSpan} (h : s.Reached past) :
    s.isComplete = true ↔ Word past := by
  cases h with
  | fresh => simp [EventSpan.isComplete, Word]
  | moved hword => exact iff_of_true rfl hword

end NicEthSpan

namespace NicDmaSpan

def Word : List Event → Prop :=
  triple (fun issue => issue.getType = .kNicDmaIT)
    (fun issue exec => exec.getType = .kNicDmaExT ∧ exec.getId = issue.getId ∧
      exec.getAddr = issue.getAddr ∧ issue.SameParser exec)
    fun issue completion =>
      (completion.getType = .kNicDmaCRT ∨ completion.getType = .kNicDmaCWT) ∧
        completion.getId = issue.getId ∧ completion.getAddr = issue.getAddr ∧
        issue.SameParser completion

/-- A completion that is refused leaves its direction behind. -/
inductive Reached : NicDmaSpan → List Event → Prop
  | fresh : Reached { } []
  | issued {issue : Event} (hissue : issue.getType = .kNicDmaIT) :
    Reached { events := [issue], dmaIssue := some issue } [issue]
  | executed {issue exec : Event} (hword : Begins Word [issue, exec]) (isRead : Bool) :
    Reached { events := [issue, exec], dmaIssue := some issue, nicDmaExecution := some exec,
              isRead := isRead } [issue, exec]
  | completed {issue exec completion : Event} (hword : Word [issue, exec, completion]) :
    Reached { events := [issue, exec, completion], isPending := false, dmaIssue := some issue,
              nicDmaExecution := some exec, nicDmaCompletion := some completion,
              isRead := completion.getType = .kNicDmaCRT } [issue, exec, completion]

theorem exists_completion (issue : Event) : ∃ completion : Event,
    (completion.getType = .kNicDmaCRT ∨ completion.getType = .kNicDmaCWT) ∧
      completion.getId = issue.getId ∧ completion.getAddr = issue.getAddr ∧
      issue.SameParser completion :=
  ⟨⟨0, issue.parserIdentifier, [], .nicDmaCR issue.getId issue.getAddr 0⟩,
    .inl rfl, rfl, rfl, rfl⟩

theorem begins_singleton : Begins Word [ev] ↔ ev.getType = .kNicDmaIT := by
  unfold Word
  rw [begins_triple_singleton]
  exact and_iff_left ⟨⟨⟨0, ev.parserIdentifier, [], .nicDmaEx ev.getId ev.getAddr 0⟩,
    rfl, rfl, rfl, rfl⟩, exists_completion ev⟩

theorem begins_two {issue : Event} : Begins Word [issue, ev] ↔ issue.getType = .kNicDmaIT ∧
    ev.getType = .kNicDmaExT ∧ ev.getId = issue.getId ∧ ev.getAddr = issue.getAddr ∧
    issue.SameParser ev := by
  unfold Word
  rw [begins_triple_pair]
  exact and_congr_right fun _ => and_iff_left (exists_completion issue)

theorem exact : Exact addToSpan (Begins Word) Reached := by
  intro s past ev hs
  cases hs with
  | fresh =>
    rw [List.nil_append, begins_singleton]
    by_cases hissue : ev.getType = .kNicDmaIT
    · exact .inl ⟨hissue, _, by simp [addToSpan, EventSpan.isPotentialAdd_nil, hissue],
        .issued hissue⟩
    · refine .inr ⟨hissue, _, ?_, .fresh⟩
      unfold addToSpan
      grind
  | @issued issue hissue =>
    rw [List.singleton_append]
    by_cases hword : Begins Word [issue, ev]
    · refine .inl ⟨hword, _, ?_, .executed hword true⟩
      obtain ⟨-, hexec, hid, haddr, hparser⟩ := begins_two.mp hword
      simp [addToSpan, EventSpan.isPotentialAdd, EventSpan.isComplete, belongsTo, hexec, hid,
        haddr, hparser.symm]
    · refine .inr ⟨hword, _, ?_, .issued hissue⟩
      simp [begins_two, hissue, Event.SameParser] at hword
      unfold addToSpan EventSpan.isPotentialAdd EventSpan.isComplete belongsTo
      grind
  | @executed issue exec hbegins isRead =>
    rw [List.cons_append, List.singleton_append, Word, begins_triple_triple, ← Word]
    obtain ⟨hissue, hexec⟩ := begins_two.mp hbegins
    by_cases hword : Word [issue, exec, ev]
    · refine .inl ⟨hword, _, ?_, .completed hword⟩
      obtain ⟨-, -, hcompletion, hid, haddr, hparser⟩ := triple_triple.mp hword
      rcases hcompletion with hread | hwrite
      · simp [addToSpan, EventSpan.isPotentialAdd, EventSpan.isComplete, belongsTo, hread, hid,
          haddr, hparser.symm]
      · simp [addToSpan, EventSpan.isPotentialAdd, EventSpan.isComplete, belongsTo, hwrite, hid,
          haddr, hparser.symm]
    · have hfields : ¬ ((ev.getType = .kNicDmaCRT ∨ ev.getType = .kNicDmaCWT) ∧
          ev.getId = issue.getId ∧ ev.getAddr = issue.getAddr ∧
          issue.parserIdentifier = ev.parserIdentifier) :=
        fun hfields => hword (triple_triple.mpr ⟨hissue, hexec, hfields⟩)
      by_cases hchecked : issue.parserIdentifier = ev.parserIdentifier ∧
          (ev.getType = .kNicDmaCRT ∨ ev.getType = .kNicDmaCWT)
      · -- The direction is set before the identifier and the address are compared.
        refine .inr ⟨hword, _, ?_, .executed hbegins (ev.getType = .kNicDmaCRT)⟩
        unfold addToSpan EventSpan.isPotentialAdd EventSpan.isComplete belongsTo
        grind
      · refine .inr ⟨hword, _, ?_, .executed hbegins isRead⟩
        unfold addToSpan EventSpan.isPotentialAdd EventSpan.isComplete belongsTo
        grind
  | completed hword =>
    refine .inr ⟨by simp [Word], _, ?_, .completed hword⟩
    simp [addToSpan, EventSpan.isPotentialAdd_complete]

theorem Reached.complete_iff {s : NicDmaSpan} (h : s.Reached past) :
    s.isComplete = true ↔ Word past := by
  cases h with
  | fresh => simp [EventSpan.isComplete, Word]
  | issued => simp [EventSpan.isComplete, Word]
  | executed => simp [EventSpan.isComplete, Word]
  | completed hword => exact iff_of_true rfl hword

end NicDmaSpan

end Columbo
