import Columbo.Interleaving
import Columbo.FinishedSpans

/-!
# Reconstruction of DMA transactions of the NIC

Transactions of one parser overlap; those that are outstanding at the same time differ in
their identifier or their address. A span of its own collects the events of each.
-/
namespace Columbo

open Coroutine Spanner Interleaving

/-- The event is one of this parser, with this identifier and address. -/
def OfDma (parser : UInt64) (key : UInt64 × UInt64) (ev : Event) : Prop :=
  ev.parserIdentifier = parser ∧ (ev.getId, ev.getAddr) = key

/-- A transaction that may not be finished yet: an issue, an execution and a completion. -/
inductive DmaTransaction (parser : UInt64) (key : UInt64 × UInt64) : List Event → Prop
  | none : DmaTransaction parser key []
  | issue {ev : Event} (htype : ev.getType = .kNicDmaIT) (hof : OfDma parser key ev) :
    DmaTransaction parser key [ev]
  | execution {issue ev : Event} (h : DmaTransaction parser key [issue])
    (htype : ev.getType = .kNicDmaExT) (hof : OfDma parser key ev) :
    DmaTransaction parser key [issue, ev]
  | completion {issue exec ev : Event} (h : DmaTransaction parser key [issue, exec])
    (htype : ev.getType = .kNicDmaCRT ∨ ev.getType = .kNicDmaCWT) (hof : OfDma parser key ev) :
    DmaTransaction parser key [issue, exec, ev]

/-- The transactions that were issued, executed or completed, in the order of these events. -/
def issued (l : List (Nat × Event)) : List Nat := tags (·.getType = .kNicDmaIT) l

def executed (l : List (Nat × Event)) : List Nat := tags (·.getType = .kNicDmaExT) l

def completed (l : List (Nat × Event)) : List Nat :=
  tags (fun ev => ev.getType = .kNicDmaCRT ∨ ev.getType = .kNicDmaCWT) l

def outstanding (l : List (Nat × Event)) : List Nat := (issued l).filter (· ∉ completed l)

/-- The events are those of transactions with the given keys, and transactions with the
same key are never outstanding at the same time. -/
structure DmaInterleaving (parser : UInt64) (key : Nat → UInt64 × UInt64)
    (l : List (Nat × Event)) : Prop where
  transaction : ∀ t, DmaTransaction parser (key t) (own t l)
  distinct : ∀ past, past <+: l → ∀ t ∈ outstanding past, ∀ t' ∈ outstanding past,
    key t = key t' → t = t'

namespace DmaTransaction

variable {parser : UInt64} {key : UInt64 × UInt64} {evs : List Event} {ev : Event}

/-- What the last event of a transaction comes after. -/
theorem concat_cases (h : DmaTransaction parser key (evs ++ [ev])) :
    OfDma parser key ev ∧ DmaTransaction parser key evs ∧
      (evs = [] ∧ ev.getType = .kNicDmaIT ∨
        (∃ issue, evs = [issue] ∧ ev.getType = .kNicDmaExT) ∨
        ∃ issue exec, evs = [issue, exec] ∧
          (ev.getType = .kNicDmaCRT ∨ ev.getType = .kNicDmaCWT)) := by
  generalize hall : evs ++ [ev] = all at h
  cases h with
  | none => simp at hall
  | @issue ev' htype hof =>
    obtain ⟨rfl, hev⟩ := List.append_inj' (show evs ++ [ev] = [] ++ [ev'] from hall) rfl
    obtain rfl := List.singleton_inj.mp hev
    exact ⟨hof, .none, .inl ⟨rfl, htype⟩⟩
  | @execution issue ev' h htype hof =>
    obtain ⟨rfl, hev⟩ := List.append_inj' (show evs ++ [ev] = [issue] ++ [ev'] from hall) rfl
    obtain rfl := List.singleton_inj.mp hev
    exact ⟨hof, h, .inr (.inl ⟨issue, rfl, htype⟩)⟩
  | @completion issue exec ev' h htype hof =>
    obtain ⟨rfl, hev⟩ := List.append_inj' (show evs ++ [ev] = [issue, exec] ++ [ev'] from hall) rfl
    obtain rfl := List.singleton_inj.mp hev
    exact ⟨hof, h, .inr (.inr ⟨issue, exec, rfl, htype⟩)⟩

theorem types (h : DmaTransaction parser key evs) :
    (∀ i ∈ evs[0]?, i.getType = .kNicDmaIT) ∧ (∀ x ∈ evs[1]?, x.getType = .kNicDmaExT) ∧
      (∀ c ∈ evs[2]?, c.getType = .kNicDmaCRT ∨ c.getType = .kNicDmaCWT) ∧ evs.length ≤ 3 := by
  cases h with
  | none => simp
  | issue htype hof => simp [htype]
  | execution h htype hof =>
    cases h with
    | issue hissue _ => simp [hissue, htype]
  | completion h htype hof =>
    cases h with
    | execution h hexec _ =>
      cases h with
      | issue hissue _ => simp [hissue, hexec, htype]

theorem of_mem (h : DmaTransaction parser key evs) : ∀ ev ∈ evs, OfDma parser key ev := by
  induction h with
  | none => exact fun ev hev => nomatch hev
  | issue _ hof => simpa using hof
  | execution _ _ hof ih => simpa [hof] using ih
  | completion _ _ hof ih => simpa [hof] using ih

/-- A transaction has one issue, which comes first, and at most one event of the others. -/
theorem stages (h : DmaTransaction parser key evs) :
    ((∃ ev ∈ evs, ev.getType = .kNicDmaIT) ↔ evs ≠ []) ∧
      ((∃ ev ∈ evs, ev.getType = .kNicDmaCRT ∨ ev.getType = .kNicDmaCWT) ↔ evs.length = 3) ∧
      evs.countP (·.getType = .kNicDmaIT) ≤ 1 ∧ evs.countP (·.getType = .kNicDmaExT) ≤ 1 ∧
      evs.countP (fun ev => ev.getType = .kNicDmaCRT ∨ ev.getType = .kNicDmaCWT) ≤ 1 := by
  cases h with
  | none => simp
  | issue htype _ => simp [htype]
  | execution h htype _ =>
    cases h with
    | issue hissue _ => simp [hissue, htype]
  | completion h htype _ =>
    cases h with
    | execution h hexec _ =>
      cases h with
      | issue hissue _ => rcases htype with htype | htype <;> simp [hissue, hexec, htype]

end DmaTransaction

namespace DmaInterleaving

variable {parser : UInt64} {key : Nat → UInt64 × UInt64} {l past : List (Nat × Event)}
  {t t' : Nat} {ev : Event}

theorem left {rest : List (Nat × Event)} (h : DmaInterleaving parser key (l ++ rest)) :
    DmaInterleaving parser key l := by
  refine ⟨fun t => ?_, fun past hpast => h.distinct past (hpast.trans (List.prefix_append l rest))⟩
  have hown : ∀ rest evs : List Event, DmaTransaction parser (key t) (evs ++ rest) →
      DmaTransaction parser (key t) evs := by
    intro rest
    induction rest using List.reverseRecOn with
    | nil => exact fun evs hevs => by simpa using hevs
    | append_singleton rest ev ih =>
      intro evs hevs
      rw [← List.append_assoc] at hevs
      exact ih evs hevs.concat_cases.2.1
  have htransaction := h.transaction t
  rw [own_append] at htransaction
  exact hown _ _ htransaction

theorem mem_issued (h : DmaInterleaving parser key l) : t ∈ issued l ↔ own t l ≠ [] := by
  rw [← (h.transaction t).stages.1]
  simp [issued, mem_tags]

theorem mem_completed (h : DmaInterleaving parser key l) :
    t ∈ completed l ↔ (own t l).length = 3 := by
  rw [← (h.transaction t).stages.2.1]
  simp [completed, mem_tags]

theorem nodup_issued (h : DmaInterleaving parser key l) : (issued l).Nodup :=
  nodup_tags fun t => (h.transaction t).stages.2.2.1

theorem nodup_executed (h : DmaInterleaving parser key l) : (executed l).Nodup :=
  nodup_tags fun t => (h.transaction t).stages.2.2.2.1

theorem nodup_completed (h : DmaInterleaving parser key l) : (completed l).Nodup :=
  nodup_tags fun t => (h.transaction t).stages.2.2.2.2

theorem nodup_outstanding (h : DmaInterleaving parser key l) : (outstanding l).Nodup :=
  h.nodup_issued.filter _

theorem mem_outstanding (h : DmaInterleaving parser key l) :
    t ∈ outstanding l ↔ own t l ≠ [] ∧ (own t l).length ≠ 3 := by
  simp [outstanding, h.mem_issued, h.mem_completed]

/-- The first event of an outstanding transaction is its issue, and tells it from others. -/
theorem issue_of_outstanding (h : DmaInterleaving parser key l) (ht : t ∈ outstanding l) :
    ∃ issue rest, own t l = issue :: rest ∧ OfDma parser (key t) issue := by
  obtain ⟨hne, -⟩ := h.mem_outstanding.mp ht
  obtain ⟨issue, rest, hown⟩ := List.exists_cons_of_ne_nil hne
  exact ⟨issue, rest, hown, (h.transaction t).of_mem issue (by simp [hown])⟩

end DmaInterleaving

/-- A span of the transaction was handed over: it has the events of the transaction, and
is a read exactly if the completion is one. -/
def Yields (l : List (Nat × Event)) (span : Nat → Nat) (t : Nat) (m : Nat × SpanObject) : Prop :=
  m.1 = span t ∧ ∃ s : NicDmaSpan, m.2 = .nicDma s ∧ s.isPending = false ∧ s.events = own t l ∧
    (s.isRead = true ↔ ∃ ev ∈ own t l, ev.getType = .kNicDmaCRT)

/-- Every transaction that was issued has a span of its own. Those of completed ones were
handed over, those of outstanding ones are pending, and a context for each executed one
was pushed to the host. -/
structure Reconstructed (queues : NicQueues) (l : List (Nat × Event)) (span : Nat → Nat)
    (h : Log) (st : NicSpanner) : Prop where
  started : (Log.started [.kNicDma] h).map Started.id = (issued l).map span
  distinct : ∀ t ∈ issued l, ∀ t' ∈ issued l, span t = span t' → t = t'
  finished : List.Forall₂ (Yields l span) (completed l) (Log.marked h)
  pending : List.Forall₂ (fun t p => p.id = span t ∧ p.span.Open (own t l)) (outstanding l)
    st.pendingNicDmaSpans
  announced : List.Forall₂ (fun t c => c.expectation = .kDma ∧ c.parent.id = span t) (executed l)
    (Log.pushed queues.toHost h)

namespace Reconstructed

variable {env : TraceEnvironment} {queues : NicQueues} {parser : UInt64}
  {key : Nat → UInt64 × UInt64} {past : List (Nat × Event)} {t : Nat} {ev : Event}
  {span : Nat → Nat} {h : Log} {st : NicSpanner}

/-- An event of another transaction changes nothing of what was handed over. -/
theorem yields_concat {t' id : Nat} {m : Nat × SpanObject} (hne : t' ≠ t)
    (hm : Yields past span t' m) :
    Yields (past ++ [(t, ev)]) (Function.update span t id) t' m := by
  obtain ⟨hid, s, hs, hpending, hevents, hread⟩ := hm
  rw [← own_concat_of_ne (a := ev) hne] at hevents hread
  exact ⟨by rw [hid, Function.update_of_ne hne], s, hs, hpending, hevents, hread⟩

variable (env) in
/-- The spans of the other outstanding transactions refuse the event. -/
theorem refuses (hl : DmaInterleaving parser key (past ++ [(t, ev)]))
    (hev : ev.getType = .kNicDmaIT ∨ t ∈ outstanding past) {t' : Nat} (ht' : t' ∈ outstanding past)
    (hne : t' ≠ t) {p : Allocated NicDmaSpan} (hp : p.span.Open (own t' past)) :
    (SpanClass.addToSpan env p.span ev).1 = false ∧
      (offer env ev p).span.Open (own t' (past ++ [(t, ev)])) ∧
      p.span.Open (own t' (past ++ [(t, ev)])) := by
  rw [own_concat_of_ne hne]
  obtain ⟨issue, rest, hown, hof⟩ := hl.left.issue_of_outstanding ht'
  have hofEv : OfDma parser (key t) ev :=
    (hl.transaction t).of_mem ev (by rw [own_concat_self]; simp)
  have hother : ev.getType = .kNicDmaIT ∨ NicDmaSpan.belongsTo issue ev = false := by
    refine hev.imp_right fun ht => ?_
    by_contra hbelongs
    have hsame : issue.getId = ev.getId ∧ issue.getAddr = ev.getAddr := by
      simpa [NicDmaSpan.belongsTo] using hbelongs
    refine hne (hl.distinct past (List.prefix_append past _) t' ht' t ht ?_)
    rw [← hof.2, ← hofEv.2, hsame.1, hsame.2]
  rw [hown] at hp ⊢
  obtain ⟨s', hadd, hopen⟩ := hp.addToSpan_refuses hother
  have hadd' : SpanClass.addToSpan env p.span ev = (false, s') := hadd
  refine ⟨by rw [hadd'], ?_, hp⟩
  unfold offer
  rw [hadd']
  exact hopen

/-- A transaction that is issued gets a new span. -/
theorem issue (hst : Reconstructed queues past span h st)
    (hl : DmaInterleaving parser key (past ++ [(t, ev)])) (hown : own t past = [])
    (htype : ev.getType = .kNicDmaIT) {parent id : Nat} {ref : ParentRef}
    (hfresh : id ∉ Log.created h) {pending : List (Allocated NicDmaSpan)}
    (hpending : List.Forall₂ (fun t' p => p.id = span t' ∧
      p.span.Open (own t' (past ++ [(t, ev)]))) (outstanding past) pending)
    {s : NicDmaSpan} (hopen : s.Open [ev]) :
    Reconstructed queues (past ++ [(t, ev)]) (Function.update span t id)
      (h ++ [⟨.readParent parent, ref⟩] ++ [⟨.startSpanByParent .kNicDma ref ev true, id⟩])
      { st with pendingNicDmaSpans := pending ++ [⟨id, s⟩] } := by
  have hnot : t ∉ issued past := by simp [hl.left.mem_issued, hown]
  have hcompleted : t ∉ completed past := by simp [hl.left.mem_completed, hown]
  have hexecuted : t ∉ executed past := by simp [executed, mem_tags, hown]
  have hissued' : issued (past ++ [(t, ev)]) = issued past ++ [t] :=
    tags_concat_pos (by simp [htype])
  have hexecuted' : executed (past ++ [(t, ev)]) = executed past :=
    tags_concat_neg (by simp [htype])
  have hcompleted' : completed (past ++ [(t, ev)]) = completed past :=
    tags_concat_neg (by simp [htype])
  have houtstanding' : outstanding (past ++ [(t, ev)]) = outstanding past ++ [t] :=
    unfinished_concat_start (by simp [htype]) (by simp [htype]) hcompleted
  have hsame : ∀ t' ∈ issued past, Function.update span t id t' = span t' := by
    intro t' ht'
    have hne : t' ≠ t := fun heq => hnot (heq ▸ ht')
    exact Function.update_of_ne hne id span
  have hnew : ∀ t' ∈ issued past, span t' ≠ id := by
    intro t' ht' heq
    have hmem : span t' ∈ (Log.started [.kNicDma] h).map Started.id := by
      rw [hst.started]
      exact List.mem_map_of_mem ht'
    obtain ⟨s, hs, hid⟩ := List.mem_map.mp hmem
    exact hfresh (heq ▸ hid ▸ Log.mem_created_of_started hs)
  constructor
  · rw [hissued', List.map_append, List.map_congr_left hsame, ← hst.started, Log.started_append,
      Log.started_append, List.map_append, List.map_append]
    change _ ++ [] ++ [id] = _ ++ [Function.update span t id t]
    rw [List.append_nil, Function.update_self]
  · intro t₁ ht₁ t₂ ht₂ heq
    rw [hissued', List.mem_append, List.mem_singleton] at ht₁ ht₂
    rcases ht₁ with ht₁ | rfl <;> rcases ht₂ with ht₂ | rfl
    · rw [hsame t₁ ht₁, hsame t₂ ht₂] at heq
      exact hst.distinct t₁ ht₁ t₂ ht₂ heq
    · rw [hsame t₁ ht₁, Function.update_self] at heq
      exact absurd heq (hnew t₁ ht₁)
    · rw [hsame t₂ ht₂, Function.update_self] at heq
      exact absurd heq.symm (hnew t₂ ht₂)
    · rfl
  · rw [hcompleted', Log.marked_append, Log.marked_append]
    change List.Forall₂ _ _ (Log.marked h ++ [] ++ [])
    rw [List.append_nil, List.append_nil]
    refine forall₂_imp_of_mem (fun t' ht' m hm => yields_concat ?_ hm) hst.finished
    exact fun heq => hcompleted (heq ▸ ht')
  · rw [houtstanding']
    refine List.rel_append (forall₂_imp_of_mem (fun t' ht' p hp => ?_) hpending) (.cons ?_ .nil)
    · rw [hsame t' (List.mem_of_mem_filter ht')]
      exact hp
    · rw [Function.update_self, own_concat_self, hown]
      exact ⟨rfl, hopen⟩
  · rw [hexecuted', Log.pushed_append, Log.pushed_append]
    change List.Forall₂ _ _ (Log.pushed queues.toHost h ++ [] ++ [])
    rw [List.append_nil, List.append_nil]
    refine forall₂_imp_of_mem (fun t' ht' c hc => ?_) hst.announced
    have hne : t' ≠ t := fun heq => hexecuted (heq ▸ ht')
    rwa [Function.update_of_ne hne]

variable (env) in
/-- The span of an outstanding transaction is the one that takes its next event. -/
theorem found (hst : Reconstructed queues past span h st)
    (hl : DmaInterleaving parser key (past ++ [(t, ev)])) (ht : t ∈ outstanding past)
    (htakes : ∀ s : NicDmaSpan, s.Open (own t past) → (s.addToSpan ev).1 = true) :
    ∃ ts₁ ts₂ front p back, outstanding past = ts₁ ++ t :: ts₂ ∧
      (p.id = span t ∧ p.span.Open (own t past)) ∧
      List.Forall₂ (fun t' p => p.id = span t' ∧ p.span.Open (own t' (past ++ [(t, ev)])))
        ts₁ front ∧
      List.Forall₂ (fun t' p => p.id = span t' ∧ p.span.Open (own t' (past ++ [(t, ev)])))
        ts₂ back ∧
      findAddErase env st.pendingNicDmaSpans ev = (some (offer env ev p),
        front ++ if isComplete (offer env ev p) then back else offer env ev p :: back) := by
  refine (findAddErase_forall₂ hst.pending hl.left.nodup_outstanding (fun t' ht' hne p hp => ?_)
    (fun _ p hp => htakes p.span hp.2)).2 ht
  obtain ⟨hrefused, hoffered, hkept⟩ := refuses env hl (.inr ht) ht' hne hp.2
  exact ⟨hrefused, ⟨hp.1, hoffered⟩, ⟨hp.1, hkept⟩⟩

/-- A transaction that is executed is announced to the host. -/
theorem execution (hst : Reconstructed queues past span h st)
    (hl : DmaInterleaving parser key (past ++ [(t, ev)])) {issue : Event}
    (hown : own t past = [issue]) (htype : ev.getType = .kNicDmaExT) {id : Nat} {context : Context}
    (hid : id = span t) (hcontext : context.expectation = .kDma ∧ context.parent.id = id)
    {pending : List (Allocated NicDmaSpan)}
    (hpending : List.Forall₂ (fun t' p => p.id = span t' ∧
      p.span.Open (own t' (past ++ [(t, ev)]))) (outstanding past) pending) :
    Reconstructed queues (past ++ [(t, ev)]) span
      (h ++ [⟨.addEvent id ev, ()⟩] ++ [⟨.createPassOnContext .kDma id, context⟩] ++
        [⟨.push queues.toHost context, ()⟩])
      { st with pendingNicDmaSpans := pending } := by
  have hissued' : issued (past ++ [(t, ev)]) = issued past := tags_concat_neg (by simp [htype])
  have hexecuted' : executed (past ++ [(t, ev)]) = executed past ++ [t] :=
    tags_concat_pos (by simp [htype])
  have hcompleted' : completed (past ++ [(t, ev)]) = completed past :=
    tags_concat_neg (by simp [htype])
  have hcompleted : t ∉ completed past := by simp [hl.left.mem_completed, hown]
  constructor
  · rw [hissued', ← hst.started, Log.started_append, Log.started_append, Log.started_append]
    change List.map _ (_ ++ [] ++ [] ++ []) = _
    rw [List.append_nil, List.append_nil, List.append_nil]
  · rw [hissued']
    exact hst.distinct
  · rw [hcompleted', Log.marked_append, Log.marked_append, Log.marked_append]
    change List.Forall₂ _ _ (Log.marked h ++ [] ++ [] ++ [])
    rw [List.append_nil, List.append_nil, List.append_nil]
    refine forall₂_imp_of_mem (fun t' ht' m hm => ?_) hst.finished
    have hne : t' ≠ t := fun heq => hcompleted (heq ▸ ht')
    have hm' : Yields (past ++ [(t, ev)]) (Function.update span t (span t)) t' m :=
      yields_concat hne hm
    rwa [Function.update_eq_self] at hm'
  · unfold outstanding
    rw [hissued', hcompleted']
    exact hpending
  · rw [hexecuted', Log.pushed_append, Log.pushed_append, Log.pushed_append]
    have hpushed : Log.pushed queues.toHost [⟨.push queues.toHost context, ()⟩] = [context] := by
      simp [Log.pushed]
    rw [hpushed]
    change List.Forall₂ _ _ (Log.pushed queues.toHost h ++ [] ++ [] ++ [context])
    rw [List.append_nil, List.append_nil]
    exact List.rel_append hst.announced (.cons ⟨hcontext.1, hcontext.2.trans hid⟩ .nil)

/-- The span of a completed transaction is handed over. -/
theorem completion (hst : Reconstructed queues past span h st)
    (hl : DmaInterleaving parser key (past ++ [(t, ev)])) {issue exec : Event}
    (hown : own t past = [issue, exec])
    (htype : ev.getType = .kNicDmaCRT ∨ ev.getType = .kNicDmaCWT) {id : Nat} (hid : id = span t)
    {s : NicDmaSpan} (hpending : s.isPending = false) (hevents : s.events = [issue, exec, ev])
    (hread : s.isRead = decide (ev.getType = .kNicDmaCRT)) {ts₁ ts₂ : List Nat}
    (hts : outstanding past = ts₁ ++ t :: ts₂) {front back : List (Allocated NicDmaSpan)}
    (hfront : List.Forall₂ (fun t' p => p.id = span t' ∧
      p.span.Open (own t' (past ++ [(t, ev)]))) ts₁ front)
    (hback : List.Forall₂ (fun t' p => p.id = span t' ∧
      p.span.Open (own t' (past ++ [(t, ev)]))) ts₂ back) :
    Reconstructed queues (past ++ [(t, ev)]) span
      (h ++ [⟨.addEvent id ev, ()⟩] ++ [⟨.markSpanAsDone id (.nicDma s), ()⟩])
      { st with pendingNicDmaSpans := front ++ back } := by
  have hnot : ev.getType ≠ .kNicDmaIT ∧ ev.getType ≠ .kNicDmaExT := by
    rcases htype with htype | htype <;> simp [htype]
  have hissued' : issued (past ++ [(t, ev)]) = issued past := tags_concat_neg (by simp [hnot])
  have hexecuted' : executed (past ++ [(t, ev)]) = executed past :=
    tags_concat_neg (by simp [hnot])
  have hcompleted' : completed (past ++ [(t, ev)]) = completed past ++ [t] :=
    tags_concat_pos (by simpa using htype)
  have hcompleted : t ∉ completed past := by simp [hl.left.mem_completed, hown]
  have hown' : own t (past ++ [(t, ev)]) = [issue, exec, ev] := by
    rw [own_concat_self, hown]
    rfl
  constructor
  · rw [hissued', ← hst.started, Log.started_append, Log.started_append]
    change List.map _ (_ ++ [] ++ []) = _
    rw [List.append_nil, List.append_nil]
  · rw [hissued']
    exact hst.distinct
  · rw [hcompleted', Log.marked_append, Log.marked_append]
    change List.Forall₂ _ _ (Log.marked h ++ [] ++ [(id, .nicDma s)])
    rw [List.append_nil]
    refine List.rel_append (forall₂_imp_of_mem (fun t' ht' m hm => ?_) hst.finished)
      (.cons ⟨hid, s, rfl, hpending, hevents.trans hown'.symm, ?_⟩ .nil)
    · have hne : t' ≠ t := fun heq => hcompleted (heq ▸ ht')
      have hm' : Yields (past ++ [(t, ev)]) (Function.update span t (span t)) t' m :=
        yields_concat hne hm
      rwa [Function.update_eq_self] at hm'
    · have htypes := (hl.left.transaction t).types
      rw [hown] at htypes
      obtain ⟨hissue, hexec, -, -⟩ := htypes
      have hissue : issue.getType = .kNicDmaIT := hissue issue rfl
      have hexec : exec.getType = .kNicDmaExT := hexec exec rfl
      rw [hown', hread]
      simp [hissue, hexec]
  · have houtstanding' : outstanding (past ++ [(t, ev)]) = ts₁ ++ ts₂ := by
      have hnodup := hl.left.nodup_outstanding
      rw [hts] at hnodup
      have hsplit : outstanding (past ++ [(t, ev)]) = (outstanding past).filter (· ≠ t) :=
        unfinished_concat_finish (by simp [hnot]) (by simpa using htype)
      rw [hsplit, hts, List.filter_append, List.filter_cons_of_neg (by simp)]
      have hne : ∀ t' ∈ ts₁ ++ ts₂, t' ≠ t := by
        intro t' ht' heq
        have hmid := List.nodup_middle.mp hnodup
        exact (List.nodup_cons.mp hmid).1 (heq ▸ ht')
      rw [← List.filter_append]
      exact List.filter_eq_self.mpr fun t' ht' => by simpa using hne t' ht'
    rw [houtstanding']
    exact List.rel_append hfront hback
  · rw [hexecuted', Log.pushed_append, Log.pushed_append]
    change List.Forall₂ _ _ (Log.pushed queues.toHost h ++ [] ++ [])
    rw [List.append_nil, List.append_nil]
    exact hst.announced

end Reconstructed

namespace NicSpanner

variable {env : TraceEnvironment} {queues : NicQueues} {parser : UInt64}
  {key : Nat → UInt64 × UInt64} {past : List (Nat × Event)} {t cause : Nat} {ev : Event}
  {span : Nat → Nat} {h : Log} {st : NicSpanner}

theorem reconstructed_issue (hst : Reconstructed queues past span h st)
    (hl : DmaInterleaving parser key (past ++ [(t, ev)])) (hown : own t past = [])
    (htype : ev.getType = .kNicDmaIT) (hcause : st.lastCausing = some cause) :
    Keeps (fun _ _ => True) freshRely
      (fun h' r => (∃ span', Reconstructed queues (past ++ [(t, ev)]) span' h' r.2) ∧
        r.2.lastCausing = some cause) (handelDma env queues st ev) h := by
  have hnot : t ∉ outstanding past := by simp [hl.left.mem_outstanding, hown]
  have hnone : findAddErase env st.pendingNicDmaSpans ev =
      (none, st.pendingNicDmaSpans.map (offer env ev)) ∧
      List.Forall₂ (fun t' p => p.id = span t' ∧ p.span.Open (own t' (past ++ [(t, ev)])))
        (outstanding past) (st.pendingNicDmaSpans.map (offer env ev)) := by
    refine (findAddErase_forall₂ hst.pending hl.left.nodup_outstanding
      (fun t' ht' hne p hp => ?_) fun hmem => absurd hmem hnot).1 hnot
    obtain ⟨hrefused, hoffered, hkept⟩ :=
      Reconstructed.refuses env hl (.inl htype) ht' hne hp.2
    exact ⟨hrefused, ⟨hp.1, hoffered⟩, ⟨hp.1, hkept⟩⟩
  obtain ⟨hfind, hpending⟩ := hnone
  obtain ⟨s, hadd, hopen⟩ := NicDmaSpan.addToSpan_new htype
  have hadd' : SpanClass.addToSpan env ({ } : NicDmaSpan) ev = (true, s) := hadd
  unfold handelDma
  refine keeps_bind (keeps_iterateAddErase (fun rest hrest => ?_) fun p rest hrest => ?_)
  · obtain ⟨-, rfl⟩ := Prod.mk.inj (hfind.symm.trans hrest)
    simp only [htype, ne_eq, not_true_eq_false, if_false]
    refine keeps_bind (keeps_throwIfEmpty (fun _ => trivial) fun parent _ => ?_)
    refine keeps_bind (keeps_startSpanByParent hadd' trivial fun ref _ => ⟨trivial, ?_⟩)
    intro (id : Nat) hid
    have hfresh : id ∉ Log.created h := by
      have hnew := hid.2 id rfl
      rw [Log.created_append, List.mem_append] at hnew
      exact fun hmem => hnew (.inl hmem)
    exact keeps_pure ⟨⟨_, hst.issue hl hown htype hfresh hpending hopen⟩, hcause⟩
  · cases hfind.symm.trans hrest

/-- The issue of a transaction and an event that goes on with it. -/
theorem belongsTo_own (hl : DmaInterleaving parser key (past ++ [(t, ev)])) {issue : Event}
    {rest : List Event} (hown : own t past = issue :: rest) :
    issue.parserIdentifier = ev.parserIdentifier ∧ NicDmaSpan.belongsTo issue ev = true := by
  have hof : ∀ e ∈ own t (past ++ [(t, ev)]), OfDma parser (key t) e :=
    (hl.transaction t).of_mem
  rw [own_concat_self, hown] at hof
  have hissue := hof issue (by simp)
  have hev := hof ev (by simp)
  refine ⟨hissue.1.trans hev.1.symm, ?_⟩
  have hkey := hissue.2.trans hev.2.symm
  simpa [NicDmaSpan.belongsTo] using hkey

theorem reconstructed_execution (hst : Reconstructed queues past span h st)
    (hl : DmaInterleaving parser key (past ++ [(t, ev)])) {issue : Event}
    (hown : own t past = [issue]) (htype : ev.getType = .kNicDmaExT)
    (hcause : st.lastCausing = some cause) :
    Keeps (fun _ _ => True) freshRely
      (fun h' r => (∃ span', Reconstructed queues (past ++ [(t, ev)]) span' h' r.2) ∧
        r.2.lastCausing = some cause) (handelDma env queues st ev) h := by
  have ht : t ∈ outstanding past := by simp [hl.left.mem_outstanding, hown]
  obtain ⟨hparser, hbelongs⟩ := belongsTo_own hl hown
  have htakes : ∀ s : NicDmaSpan, s.Open (own t past) →
      ∃ s', s.addToSpan ev = (true, s') ∧ s'.Open [issue, ev] := by
    intro s hs
    rw [hown] at hs
    exact hs.addToSpan_execution hparser hbelongs htype
  obtain ⟨ts₁, ts₂, front, p, back, hts, ⟨hid, hopen⟩, hfront, hback, hfind⟩ :=
    hst.found env hl ht fun s hs => by
      obtain ⟨s', hadd, -⟩ := htakes s hs
      rw [hadd]
  obtain ⟨s', hadd, hopen'⟩ := htakes p.span hopen
  have hoffer : offer env ev p = ⟨p.id, s'⟩ := by
    unfold offer
    have hadd' : SpanClass.addToSpan env p.span ev = (true, s') := hadd
    rw [hadd']
  have hnot : isComplete (⟨p.id, s'⟩ : Allocated NicDmaSpan) = false := by
    simp [hopen'.1]
  rw [hoffer, hnot, if_neg (by simp)] at hfind
  unfold handelDma
  refine keeps_bind (keeps_iterateAddErase (fun rest hrest => ?_) fun q rest hrest => ?_)
  · cases hfind.symm.trans hrest
  · obtain ⟨hq, rfl⟩ := Prod.mk.inj (hfind.symm.trans hrest)
    obtain rfl := Option.some.inj hq
    refine ⟨trivial, ?_⟩
    dsimp only
    unfold announceDma
    rw [hnot, htype]
    refine keeps_bind (keeps_pushPropagateContext trivial fun (context : Context) hcontext =>
      ⟨trivial, keeps_pure ⟨⟨span, ?_⟩, hcause⟩⟩)
    refine hst.execution hl hown htype hid (World.passOn_of_possible hcontext.1) ?_
    rw [hts]
    refine List.rel_append hfront (.cons ⟨hid, ?_⟩ hback)
    rw [own_concat_self, hown]
    exact hopen'

theorem reconstructed_completion (hst : Reconstructed queues past span h st)
    (hl : DmaInterleaving parser key (past ++ [(t, ev)])) {issue exec : Event}
    (hown : own t past = [issue, exec])
    (htype : ev.getType = .kNicDmaCRT ∨ ev.getType = .kNicDmaCWT)
    (hcause : st.lastCausing = some cause) :
    Keeps (fun _ _ => True) freshRely
      (fun h' r => (∃ span', Reconstructed queues (past ++ [(t, ev)]) span' h' r.2) ∧
        r.2.lastCausing = some cause) (handelDma env queues st ev) h := by
  have ht : t ∈ outstanding past := by simp [hl.left.mem_outstanding, hown]
  obtain ⟨hparser, hbelongs⟩ := belongsTo_own hl hown
  have htakes : ∀ s : NicDmaSpan, s.Open (own t past) →
      ∃ s', s.addToSpan ev = (true, s') ∧ s'.isPending = false ∧
        s'.events = [issue, exec, ev] ∧ s'.isRead = decide (ev.getType = .kNicDmaCRT) := by
    intro s hs
    rw [hown] at hs
    exact hs.addToSpan_completion hparser hbelongs htype
  obtain ⟨ts₁, ts₂, front, p, back, hts, ⟨hid, hopen⟩, hfront, hback, hfind⟩ :=
    hst.found env hl ht fun s hs => by
      obtain ⟨s', hadd, -⟩ := htakes s hs
      rw [hadd]
  obtain ⟨s', hadd, hpending, hevents, hread⟩ := htakes p.span hopen
  have hoffer : offer env ev p = ⟨p.id, s'⟩ := by
    unfold offer
    have hadd' : SpanClass.addToSpan env p.span ev = (true, s') := hadd
    rw [hadd']
  have hdone : isComplete (⟨p.id, s'⟩ : Allocated NicDmaSpan) = true := by
    simp [hpending]
  rw [hoffer, hdone, if_pos rfl] at hfind
  unfold handelDma
  refine keeps_bind (keeps_iterateAddErase (fun rest hrest => ?_) fun q rest hrest => ?_)
  · cases hfind.symm.trans hrest
  · obtain ⟨hq, rfl⟩ := Prod.mk.inj (hfind.symm.trans hrest)
    obtain rfl := Option.some.inj hq
    refine ⟨trivial, ?_⟩
    dsimp only
    unfold announceDma
    rw [hdone, if_pos rfl]
    refine keeps_bind ⟨trivial, fun _ _ => keeps_pure ⟨⟨span, ?_⟩, hcause⟩⟩
    exact hst.completion hl hown htype hid hpending hevents hread hts hfront hback

/-- One event of one of the transactions. -/
theorem reconstructed_consume (hst : Reconstructed queues past span h st)
    (hl : DmaInterleaving parser key (past ++ [(t, ev)])) (hcause : st.lastCausing = some cause) :
    Keeps (fun _ _ => True) freshRely
      (fun h' r => (∃ span', Reconstructed queues (past ++ [(t, ev)]) span' h' r.2) ∧
        r.2.lastCausing = some cause) (consume env queues st ev) h := by
  have htransaction := hl.transaction t
  rw [own_concat_self] at htransaction
  unfold consume
  obtain ⟨-, -, ⟨hown, htype⟩ | ⟨issue, hown, htype⟩ | ⟨issue, exec, hown, htype⟩⟩ :=
    htransaction.concat_cases
  · rw [htype]
    exact reconstructed_issue hst hl hown htype hcause
  · rw [htype]
    exact reconstructed_execution hst hl hown htype hcause
  · rcases htype with htype | htype
    · rw [htype]
      exact reconstructed_completion hst hl hown (.inl htype) hcause
    · rw [htype]
      exact reconstructed_completion hst hl hown (.inr htype) hcause

/-- The events are handled in their order, from a given state on. -/
def consumeFrom (env : TraceEnvironment) (queues : NicQueues) (st : NicSpanner)
    (evs : List Event) : Spanning NicSpanner :=
  evs.foldlM (fun st ev => return (← consume env queues st ev).2) st

/-- However the transactions overlap, and whatever others do in the meantime, each of them
is reconstructed by a span of its own, with one context for the host. -/
theorem reconstructed_of_interleaving {l : List (Nat × Event)} {w w' : World}
    {st' : NicSpanner} (hl : DmaInterleaving parser key l) (hcause : st.lastCausing = some cause)
    (hempty : st.pendingNicDmaSpans = [])
    (hrun : Among World.exec World.outside (consumeFrom env queues st (l.map Prod.snd)) w h
      (Pure.pure st') w') :
    ((completed l).Nodup ∧ ∀ t, t ∈ completed l ↔ (own t l).length = 3) ∧
      (executed l).Nodup ∧ ∃ span, Reconstructed queues l span h st' := by
  refine ⟨⟨hl.nodup_completed, fun t => hl.mem_completed⟩, hl.nodup_executed, ?_⟩
  have hkeeps : Keeps (fun _ _ => True) freshRely
      (fun h' st' => (∃ span, Reconstructed queues l span h' st') ∧ st'.lastCausing = some cause)
      (consumeFrom env queues st (l.map Prod.snd)) [] := by
    unfold consumeFrom
    rw [List.foldlM_map]
    refine Keeps.foldlM (fun past h' st' => (∃ span, Reconstructed queues past span h' st') ∧
      st'.lastCausing = some cause) ?_ ⟨⟨id, ?_⟩, hcause⟩
    · rintro past ⟨t, ev⟩ rest h st rfl ⟨⟨span, hst⟩, hcause⟩
      have hleft : DmaInterleaving parser key (past ++ [(t, ev)]) := by
        rw [List.append_cons] at hl
        exact hl.left
      exact keeps_bind ((reconstructed_consume hst hleft hcause).mono fun _ _ hr => keeps_pure hr)
    · refine ⟨rfl, fun t ht => (nomatch ht), .nil, ?_, .nil⟩
      rw [hempty]
      exact .nil
  exact (keeps_among hkeeps hrun).1

/-- Two transactions overlap, and the second one is not completed. -/
def overlapping : List (Nat × Event) :=
  [(0, ⟨10, 0, bytes "nic", .nicDmaI 1 4096 64⟩), (1, ⟨20, 0, bytes "nic", .nicDmaI 1 8192 64⟩),
    (1, ⟨30, 0, bytes "nic", .nicDmaEx 1 8192 64⟩), (0, ⟨40, 0, bytes "nic", .nicDmaEx 1 4096 64⟩),
    (0, ⟨50, 0, bytes "nic", .nicDmaCW 1 4096 64⟩)]

theorem dmaInterleaving_overlapping :
    DmaInterleaving 0 (fun t => if t = 0 then (1, 4096) else (1, 8192)) overlapping := by
  constructor
  · intro t
    by_cases h₀ : t = 0
    · subst h₀
      exact .completion (.execution (.issue rfl ⟨rfl, rfl⟩) rfl ⟨rfl, rfl⟩) (.inr rfl) ⟨rfl, rfl⟩
    · by_cases h₁ : t = 1
      · subst h₁
        exact .execution (.issue rfl ⟨rfl, rfl⟩) rfl ⟨rfl, rfl⟩
      · have hown : own t overlapping = [] := by
          simp [own, overlapping, Ne.symm h₀, Ne.symm h₁]
        rw [hown]
        exact .none
  · rintro past ⟨rest, hl⟩ t ht t' ht' hkey
    have hmem : ∀ s ∈ outstanding past, s = 0 ∨ s = 1 := by
      intro s hs
      have hall : s ∈ issued overlapping := by
        rw [← hl]
        unfold issued
        rw [tags_append]
        exact List.mem_append_left _ (List.mem_of_mem_filter hs)
      simpa [issued, tags, overlapping, Event.getType, EventKind.getType] using hall
    rcases hmem t ht with rfl | rfl <;> rcases hmem t' ht' with rfl | rfl <;> simp_all

theorem reconstructed_overlapping : ∃ (h : Log) (st' : NicSpanner) (span : Nat → Nat),
    Reconstructed ⟨3, 4, 1, 0, 2⟩ overlapping span h st' ∧ completed overlapping = [0] ∧
      outstanding overlapping = [1] := by
  obtain ⟨st', h, w', hrun⟩ : ∃ (st' : NicSpanner) (h : Log) (w' : World),
      (consumeFrom noNames ⟨3, 4, 1, 0, 2⟩ { lastCausing := some 1 }
        (overlapping.map Prod.snd)).run World.exec oneSpan = some (st', h, w') :=
    ⟨_, _, _, rfl⟩
  obtain ⟨-, -, span, hst⟩ :=
    reconstructed_of_interleaving dmaInterleaving_overlapping rfl rfl (among_of_run hrun)
  exact ⟨h, st', span, hst, rfl, rfl⟩

end NicSpanner

end Columbo
