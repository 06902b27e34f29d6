import Columbo.SpannerSystem

/-!
# Events that a handler rejects

The handlers that need a context pop it before they decide whether the event can start a
span. When they reject the event then, the context is lost for the next event.
-/
namespace Columbo

open Coroutine Spanner

/-- The expectation of the next context on a channel. -/
def World.expects (w : World) (q : Channel) : Option Expectation :=
  (w.channels q).head?.map Context.expectation

/-- Rejecting an event leaves the spanner and the channels as they were. -/
def Untouched {σ : Type} (w w' : World) (st st' : σ) (handled : Bool) : Prop :=
  handled = false → st' = st ∧ w'.channels = w.channels

section

variable {σ α : Type} {w w' : World} {st st' : σ} {b : Bool} {h : Log} {q : Channel}

/-- What a program performs after it popped a context. -/
theorem run_pop {expected : Option Expectation} {f : Context → Spanning α} {a : α}
    (hrun : (popPropagateContext q expected >>= f).run World.exec w = some (a, h, w')) :
    ∃ con rest, ∃ h' : Log, w.channels q = con :: rest ∧ w.expects q = some con.expectation ∧
      (f con).run World.exec (w.setChannel q rest) = some (a, h', w') := by
  rw [run_bind] at hrun
  obtain ⟨⟨con, h₁, w₁⟩, hpop, hrest⟩ := Option.bind_eq_some_iff.mp hrun
  obtain ⟨⟨a', h₂, w₂⟩, hf, heq⟩ := Option.map_eq_some_iff.mp hrest
  obtain ⟨rfl, -, rfl⟩ : a' = a ∧ h₁ ++ h₂ = h ∧ w₂ = w' := by simpa using heq
  change (Coroutine.act (Command.pop q expected) Coroutine.pure).run World.exec w = _ at hpop
  rw [run_act] at hpop
  unfold World.expects
  cases hq : w.channels q with
  | nil => simp [World.exec, hq] at hpop
  | cons first rest =>
    simp only [World.exec, hq, Coroutine.run, Option.bind_some, Option.map_some] at hpop
    obtain ⟨rfl, -, rfl⟩ := hpop
    exact ⟨_, rest, h₂, rfl, rfl, hf⟩

/-- A handler that rejects the event after a pop has changed the channels. -/
theorem not_untouched {con : Context} {rest : List Context} (hq : w.channels q = con :: rest) :
    ¬ Untouched w (w.setChannel q rest) st st' false := by
  intro huntouched
  have hsame := congrFun (huntouched rfl).2 q
  have hlength := congrArg List.length hsame
  simp [World.setChannel, hq] at hlength

theorem run_return {handled : Bool} {st₁ : σ} {w₁ : World}
    (hrun : (Pure.pure (handled, st₁) : Spanning (Bool × σ)).run World.exec w₁ =
      some ((b, st'), h, w')) : handled = b ∧ st₁ = st' ∧ w₁ = w' := by
  have hend : (handled = b ∧ st₁ = st') ∧ [] = h ∧ w₁ = w' := by simpa using hrun
  exact ⟨hend.1.1, hend.1.2, hend.2.2⟩

theorem untouched_of_keeps {x : Spanning (Bool × σ)} {w₁ : World}
    (hx : Keeps (fun _ _ => True) (fun _ => Possible World.exec) (fun _ r => r.1 = true) x [])
    (hrun : x.run World.exec w₁ = some ((b, st'), h, w')) : Untouched w w' st st' b := by
  intro hfalse
  have htrue : b = true := hx.performs (performs_of_run hrun)
  cases hfalse.symm.trans htrue

end

namespace HostSpanner

variable {env : TraceEnvironment} {queues : HostQueues} {st st' : HostSpanner} {ev : Event}
  {w w' : World} {b : Bool} {h : Log}

/-- The event belongs to the pending interrupt or to a pending DMA operation. -/
def takes (env : TraceEnvironment) (st : HostSpanner) (ev : Event) : Bool :=
  st.pendingHostMsixSpan.any (fun msix => (SpanClass.addToSpan env msix.span ev).1) ||
    st.pendingHostDmaSpans.any fun dma => (SpanClass.addToSpan env dma.span ev).1

theorem handelMsix_untouched_iff
    (hrun : (handelMsix env queues st ev).run World.exec w = some ((b, st'), h, w')) :
    Untouched w w' st st' b ↔ w.expects queues.fromNic = some .kMsix := by
  unfold handelMsix at hrun
  obtain ⟨con, rest, h', hq, hexpects, hrest⟩ := run_pop hrun
  rw [hexpects]
  split_ifs at hrest with hother
  · obtain ⟨rfl, rfl, rfl⟩ := run_return hrest
    exact iff_of_false (not_untouched hq) (by simpa using hother)
  · have htrue : Untouched w w' st st' b :=
      untouched_of_keeps (keeps_bind_true fun _ _ => keeps_pure rfl) hrest
    exact iff_of_true htrue (by simpa using hother)

theorem handelDmaSpans_untouched_iff
    (hrun : (handelDmaSpans env queues st ev).run World.exec w = some ((b, st'), h, w')) :
    Untouched w w' st st' b ↔
      (st.pendingHostDmaSpans.any fun dma => (SpanClass.addToSpan env dma.span ev).1) = true ∨
        ev.getType ≠ .kHostDmaCT ∧ w.expects queues.fromNic = some .kDma := by
  obtain ⟨hnone, hall⟩ | ⟨front, p, back, heq, -, htakes, hsome⟩ :=
    findAddErase_cases env st.pendingHostDmaSpans ev
  · have hnot : (st.pendingHostDmaSpans.any fun dma =>
        (SpanClass.addToSpan env dma.span ev).1) = false := by
      simpa using hall
    unfold handelDmaSpans iterateAddErase at hrun
    rw [hnone] at hrun
    obtain ⟨con, rest, h', hq, hexpects, hrest⟩ := run_pop hrun
    rw [hnot, hexpects]
    split_ifs at hrest with hother hcompletion
    · obtain ⟨rfl, rfl, rfl⟩ := run_return hrest
      exact iff_of_false (not_untouched hq) (by simp [hother])
    · obtain ⟨rfl, rfl, rfl⟩ := run_return hrest
      exact iff_of_false (not_untouched hq) (by simp [hcompletion])
    · have htrue : Untouched w w' st st' b :=
        untouched_of_keeps (keeps_bind_true fun _ _ => keeps_pure rfl) hrest
      exact iff_of_true htrue (.inr ⟨hcompletion, by simpa using hother⟩)
  · have hkeeps : Keeps (fun _ _ => True) (fun _ => Possible World.exec) (fun _ r => r.1 = true)
        (handelDmaSpans env queues st ev) [] := by
      unfold handelDmaSpans
      refine keeps_bind (keeps_iterateAddErase (fun rest hfind => ?_) fun p rest _ => ?_)
      · cases hsome.symm.trans hfind
      · exact ⟨trivial, keeps_bind_true fun _ _ => keeps_pure rfl⟩
    exact iff_of_true (untouched_of_keeps hkeeps hrun) (.inl (by simp [heq, htakes]))

theorem handelDma_untouched_iff
    (hrun : (handelDma env queues st ev).run World.exec w = some ((b, st'), h, w')) :
    Untouched w w' st st' b ↔ takes env st ev = true ∨
        ev.getType ≠ .kHostDmaCT ∧ w.expects queues.fromNic = some .kDma := by
  unfold takes
  cases hmsix : st.pendingHostMsixSpan with
  | none =>
    unfold handelDma at hrun
    rw [hmsix] at hrun
    simpa using handelDmaSpans_untouched_iff hrun
  | some msix =>
    by_cases hadded : (SpanClass.addToSpan env msix.span ev).1 = true
    · have hkeeps : Keeps (fun _ _ => True) (fun _ => Possible World.exec)
          (fun _ r => r.1 = true) (handelDma env queues st ev) [] := by
        unfold handelDma
        rw [hmsix]
        refine keeps_bind (keeps_addToSpan (fun span _ => ⟨trivial, ?_⟩) fun span hadd => ?_)
        · exact keeps_bind_true fun _ _ => keeps_pure rfl
        · rw [hadd] at hadded
          cases hadded
      exact iff_of_true (untouched_of_keeps hkeeps hrun) (.inl (by simp [hadded]))
    · have hrefused : SpanClass.addToSpan env msix.span ev = (false, msix.span) :=
        HostMsixSpan.addToSpan_refused (Bool.eq_false_of_not_eq_true hadded)
      have hsame : handelDma env queues st ev = handelDmaSpans env queues st ev := by
        have hst : { st with pendingHostMsixSpan := some msix } = st := by rw [← hmsix]
        unfold handelDma Spanner.addToSpan
        rw [hmsix]
        dsimp only
        rw [hrefused]
        exact congrArg (fun s => handelDmaSpans env queues s ev) hst
      rw [hsame] at hrun
      simpa [hrefused] using handelDmaSpans_untouched_iff hrun

end HostSpanner

theorem NicSpanner.handelMmio_untouched_iff {env : TraceEnvironment} {queues : NicQueues}
    {st st' : NicSpanner} {ev : Event} {w w' : World} {b : Bool} {h : Log}
    (hrun : (handelMmio env queues st ev).run World.exec w = some ((b, st'), h, w')) :
    Untouched w w' st st' b ↔ w.expects queues.fromHost = some .kMmio := by
  unfold handelMmio at hrun
  obtain ⟨con, rest, h', hq, hexpects, hrest⟩ := run_pop hrun
  rw [hexpects]
  split_ifs at hrest with hother
  · obtain ⟨rfl, rfl, rfl⟩ := run_return hrest
    exact iff_of_false (not_untouched hq) (by simpa using hother)
  · have htrue : Untouched w w' st st' b :=
      untouched_of_keeps (keeps_bind_true fun _ _ => keeps_bind_true fun _ _ => keeps_pure rfl) hrest
    exact iff_of_true htrue (by simpa using hother)

/-- When a handler rejects an event, it has changed nothing exactly if it did not come to
the decision about a context: a context of the right kind is there for an event that can
start a span, or the event belongs to a pending operation. -/
theorem untouched_iff {env : TraceEnvironment} {hostQueues : HostQueues} {nicQueues : NicQueues}
    {host₁ host₁' host₂ host₂' : HostSpanner} {nic nic' : NicSpanner} {ev₁ ev₂ ev₃ : Event}
    {w₁ w₁' w₂ w₂' w₃ w₃' : World} {b₁ b₂ b₃ : Bool} {h₁ h₂ h₃ : Log}
    (hdma : (HostSpanner.handelDma env hostQueues host₁ ev₁).run World.exec w₁ =
      some ((b₁, host₁'), h₁, w₁'))
    (hmsix : (HostSpanner.handelMsix env hostQueues host₂ ev₂).run World.exec w₂ =
      some ((b₂, host₂'), h₂, w₂'))
    (hmmio : (NicSpanner.handelMmio env nicQueues nic ev₃).run World.exec w₃ =
      some ((b₃, nic'), h₃, w₃')) :
    (Untouched w₁ w₁' host₁ host₁' b₁ ↔ HostSpanner.takes env host₁ ev₁ = true ∨
        ev₁.getType ≠ .kHostDmaCT ∧ w₁.expects hostQueues.fromNic = some .kDma) ∧
      (Untouched w₂ w₂' host₂ host₂' b₂ ↔ w₂.expects hostQueues.fromNic = some .kMsix) ∧
      (Untouched w₃ w₃' nic nic' b₃ ↔ w₃.expects nicQueues.fromHost = some .kMmio) := by
  refine ⟨?_, ?_, ?_⟩
  · exact HostSpanner.handelDma_untouched_iff hdma
  · exact HostSpanner.handelMsix_untouched_iff hmsix
  · exact NicSpanner.handelMmio_untouched_iff hmmio

theorem untouched_iff_oneContext : ∃ w₁ w₂ w₃ : World,
    (Untouched (oneContext .kDma) w₁ ({ } : HostSpanner) { } false ↔
        HostSpanner.takes noNames { } ⟨10, 0, bytes "gem5", .hostDmaC 1⟩ = true ∨
          EventType.kHostDmaCT ≠ .kHostDmaCT ∧ (oneContext .kDma).expects 1 = some .kDma) ∧
      (Untouched (oneContext .kDma) w₂ ({ } : HostSpanner) { } false ↔
        (oneContext .kDma).expects 1 = some .kMsix) ∧
      (Untouched (oneContext .kDma) w₃ ({ } : NicSpanner) { } false ↔
        (oneContext .kDma).expects 0 = some .kMmio) := by
  obtain ⟨h₁, w₁, hdma⟩ : ∃ (h : Log) (w' : World),
      (HostSpanner.handelDma noNames ⟨0, 1, 2⟩ { } ⟨10, 0, bytes "gem5", .hostDmaC 1⟩).run
        World.exec (oneContext .kDma) = some ((false, { }), h, w') := ⟨_, _, rfl⟩
  obtain ⟨h₂, w₂, hmsix⟩ : ∃ (h : Log) (w' : World),
      (HostSpanner.handelMsix noNames ⟨0, 1, 2⟩ { } ⟨10, 0, bytes "gem5", .hostMsiX 0⟩).run
        World.exec (oneContext .kDma) = some ((false, { }), h, w') := ⟨_, _, rfl⟩
  obtain ⟨h₃, w₃, hmmio⟩ : ∃ (h : Log) (w' : World),
      (NicSpanner.handelMmio noNames ⟨3, 4, 1, 0, 2⟩ { } ⟨10, 0, bytes "nic", .nicMmioR 0 4 0⟩).run
        World.exec (oneContext .kDma) = some ((false, { }), h, w') := ⟨_, _, rfl⟩
  exact ⟨w₁, w₂, w₃, untouched_iff hdma hmsix hmmio⟩

/-- A completion that belongs to nothing takes a context, and is rejected. -/
theorem not_untouched_hostDmaC : ¬ ∀ (env : TraceEnvironment) (queues : HostQueues)
    (st st' : HostSpanner) (ev : Event) (w w' : World) (b : Bool) (h : Log),
    (HostSpanner.handelDma env queues st ev).run World.exec w = some ((b, st'), h, w') →
      Untouched w w' st st' b := by
  intro hall
  have hsame := hall noNames ⟨0, 1, 2⟩ { } { }
    ⟨10, 0, bytes "gem5", .hostDmaC 1⟩ (oneContext .kDma) _ false _ rfl rfl
  have hempty := congrFun hsame.2 1
  cases hempty

end Columbo
