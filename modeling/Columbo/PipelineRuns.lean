import Columbo.ChannelRefinement
import Columbo.Pipeline

/-!
# Runs of a pipeline

`Link` relates a channel to the task that writes to it and to the task that reads from it:
what the writer has let through is what the reader has dealt with, followed by what is on
the way. Every step keeps the links, so that what arrives at the consumer is what the
handlers let through.
-/
namespace Columbo

namespace Handler

variable {α : Type} {passing : Passing} {handler : Handler α} {value : α} {values rest : List α}

@[simp] theorem run_nil : handler.run passing [] = ([], handler) := rfl

theorem run_append : handler.run passing (values ++ rest) =
    ((handler.run passing values).1 ++ ((handler.run passing values).2.run passing rest).1,
      ((handler.run passing values).2.run passing rest).2) := by
  induction values generalizing handler with
  | nil => rfl
  | cons value values ih =>
    simp only [List.cons_append, run, ih]
    split_ifs <;> rfl

theorem run_concat : handler.run passing (values ++ [value]) =
    ((handler.run passing values).1 ++
        (if ((handler.run passing values).2.handelTask passing value).1 then
          [((handler.run passing values).2.handelTask passing value).2.1] else []),
      ((handler.run passing values).2.handelTask passing value).2.2) := by
  rw [run_append]
  simp only [run]

end Handler

namespace Frame

variable {α : Type}

/-- The value that was popped and is not dealt with. -/
def received : Frame α → List α
  | working value => [value]
  | _ => []

/-- The value that is not pushed yet. -/
def sent : Frame α → List α
  | pushing value => [value]
  | _ => []

/-- The task pops nothing more. -/
def Ended (frame : Frame α) : Prop := frame = closing ∨ frame = finished

theorem not_ended_receiving : ¬ (receiving : Frame α).Ended := by simp [Ended]

theorem not_ended_working {value : α} : ¬ (working value).Ended := by simp [Ended]

theorem not_ended_pushing {value : α} : ¬ (pushing value).Ended := by simp [Ended]

end Frame

/-- A channel, the task before it and the task after it. -/
structure Link {α : Type} {capacity : Nat} (channel : CoroBoundedChannel α capacity)
    (writer reader : Frame α) (through handled buffered : List α) : Prop where
  represents : channel.Represents ⟨buffered, channel.closed, false⟩
  through_eq : through = handled ++ reader.received ++ buffered ++ writer.sent
  closed_iff : channel.closed = true ↔ writer = .finished
  drained : reader.Ended → channel.closed = true ∧ buffered = []
  writer_ne : writer ≠ .failed
  reader_ne : reader ≠ .failed

namespace Link

variable {α : Type} {capacity : Nat} {channel channel' : CoroBoundedChannel α capacity}
  {writer writer' reader reader' : Frame α} {through handled buffered : List α} {value : α}

/-- The writer does something that does not concern the channel. -/
theorem writer_congr (h : Link channel writer reader through handled buffered)
    (writer' : Frame α) (hsent : writer'.sent = writer.sent)
    (hfinished : writer' = .finished ↔ writer = .finished)
    (hne : writer' ≠ .failed) : Link channel writer' reader through handled buffered where
  represents := h.represents
  through_eq := by rw [h.through_eq, hsent]
  closed_iff := h.closed_iff.trans hfinished.symm
  drained := h.drained
  writer_ne := hne
  reader_ne := h.reader_ne

theorem reader_congr (h : Link channel writer reader through handled buffered)
    (reader' : Frame α) (hreceived : reader'.received = reader.received)
    (hended : reader'.Ended → reader.Ended)
    (hne : reader' ≠ .failed) : Link channel writer reader' through handled buffered where
  represents := h.represents
  through_eq := by rw [h.through_eq, hreceived]
  closed_iff := h.closed_iff
  drained := fun hreader => h.drained (hended hreader)
  writer_ne := h.writer_ne
  reader_ne := hne

theorem represents_closed {q : FifoQueue α} (h : channel.Represents q) :
    channel.Represents ⟨q.values, channel.closed, q.poisened⟩ := by
  rw [h.closed]
  exact h

/-- The channel is open while its writer pushes, so that a push succeeds or waits for room. -/
theorem push (h : Link channel (.pushing value) reader through handled buffered) :
    (channel.exec (.push value) = .error .waits ∧ capacity ≤ buffered.length) ∨
      ∃ channel', channel.exec (.push value) = .ok (true, channel') ∧
        Link channel' .receiving reader through handled (buffered ++ [value]) := by
  have hopen : channel.closed = false := by
    by_contra hclosed
    have hfinished := h.closed_iff.mp (Bool.not_eq_false _ ▸ hclosed)
    cases hfinished
  have hagrees := h.represents.push value
  by_cases hfull : capacity ≤ buffered.length
  · have hqueue : FifoQueue.push (some capacity) ⟨buffered, channel.closed, false⟩ value = none := by
      simp [FifoQueue.push, FifoQueue.isFull, hopen, hfull]
    rw [hqueue, Agrees.waits_iff] at hagrees
    exact .inl ⟨hagrees, hfull⟩
  · have hqueue : FifoQueue.push (some capacity) ⟨buffered, channel.closed, false⟩ value =
        some (true, ⟨buffered ++ [value], channel.closed, false⟩) := by
      simp [FifoQueue.push, FifoQueue.isFull, hopen, hfull, FifoQueue.enqueue]
    rw [hqueue, Agrees.returns_iff] at hagrees
    obtain ⟨channel', hexec, hrepresents⟩ := hagrees
    have hclosed : channel'.closed = false := hrepresents.closed.trans hopen
    refine .inr ⟨channel', hexec, represents_closed hrepresents, ?_, ?_, ?_, ?_, h.reader_ne⟩
    · rw [h.through_eq]
      simp [Frame.sent]
    · rw [hclosed]
      exact iff_of_false Bool.false_ne_true (by rintro ⟨⟩)
    · intro hreader
      have hcontra := (h.drained hreader).1
      rw [hopen] at hcontra
      cases hcontra
    · rintro ⟨⟩

/-- A pop waits for a value or the close, takes the first value, or finds that there is none. -/
theorem pop (h : Link channel writer .receiving through handled buffered) :
    (channel.exec .pop = .error .waits ∧ buffered = [] ∧ writer ≠ .finished) ∨
    (∃ value rest channel', buffered = value :: rest ∧
      channel.exec .pop = .ok (some value, channel') ∧
        Link channel' writer (.working value) through handled rest) ∨
    ∃ channel', buffered = [] ∧ channel.exec .pop = .ok (none, channel') ∧
      ∀ frame : Frame α, frame.received = [] → frame ≠ .failed →
        Link channel' writer frame through handled [] := by
  have hagrees := h.represents.pop
  cases hbuffered : buffered with
  | nil =>
    subst hbuffered
    cases hclosed : channel.closed with
    | false =>
      have hqueue : FifoQueue.pop (⟨[], channel.closed, false⟩ : FifoQueue α) = none := by
        simp [FifoQueue.pop, hclosed]
      rw [hqueue, Agrees.waits_iff] at hagrees
      refine .inl ⟨hagrees, rfl, fun hfinished => ?_⟩
      rw [h.closed_iff.mpr hfinished] at hclosed
      cases hclosed
    | true =>
      have hqueue : FifoQueue.pop (⟨[], channel.closed, false⟩ : FifoQueue α) =
          some (none, ⟨[], channel.closed, false⟩) := by
        simp [FifoQueue.pop, FifoQueue.tryPop, FifoQueue.tryPopOnTrue, hclosed]
      rw [hqueue, Agrees.returns_iff] at hagrees
      obtain ⟨channel', hexec, hrepresents⟩ := hagrees
      have hclosed' : channel'.closed = channel.closed := hrepresents.closed
      refine .inr (.inr ⟨channel', rfl, hexec, fun frame hreceived hne => ?_⟩)
      refine ⟨represents_closed hrepresents, ?_, ?_, ?_, h.writer_ne, hne⟩
      · rw [h.through_eq, hreceived]
        rfl
      · rw [hclosed']
        exact h.closed_iff
      · exact fun _ => ⟨hclosed'.trans hclosed, rfl⟩
  | cons value rest =>
    subst hbuffered
    have hqueue : FifoQueue.pop ⟨value :: rest, channel.closed, false⟩ =
        some (some value, ⟨rest, channel.closed, false⟩) := by
      simp [FifoQueue.pop, FifoQueue.tryPop, FifoQueue.tryPopOnTrue]
    rw [hqueue, Agrees.returns_iff] at hagrees
    obtain ⟨channel', hexec, hrepresents⟩ := hagrees
    have hclosed' : channel'.closed = channel.closed := hrepresents.closed
    refine .inr (.inl ⟨value, rest, channel', rfl, hexec, represents_closed hrepresents, ?_, ?_, ?_,
      h.writer_ne, ?_⟩)
    · rw [h.through_eq]
      simp [Frame.received]
    · rw [hclosed']
      exact h.closed_iff
    · exact fun hreader => absurd hreader Frame.not_ended_working
    · rintro ⟨⟩

/-- The close after the last value, and the one that follows it. -/
theorem close (h : Link channel writer reader through handled buffered)
    (hwriter : writer = .closing ∨ writer = .finished) :
    ∃ channel', channel.exec .closeChannel = .ok ((), channel') ∧
      Link channel' .finished reader through handled buffered := by
  have hagrees := h.represents.exec .closeChannel
  obtain ⟨channel', hexec, hrepresents⟩ := Agrees.returns_iff.mp hagrees
  have hclosed : channel'.closed = true := hrepresents.closed
  refine ⟨channel', hexec, represents_closed hrepresents, ?_, ?_, ?_, ?_, h.reader_ne⟩
  · rw [h.through_eq]
    rcases hwriter with rfl | rfl
    · rfl
    · rfl
  · exact iff_of_true hclosed rfl
  · exact fun hreader => ⟨hclosed, (h.drained hreader).2⟩
  · rintro ⟨⟩

/-- The writer has let a value through. -/
theorem send (h : Link channel writer reader through handled buffered) (hsent : writer.sent = [])
    (hfinished : writer ≠ .finished) :
    Link channel (.pushing value) reader (through ++ [value]) handled buffered := by
  refine ⟨h.represents, ?_, ?_, h.drained, ?_, h.reader_ne⟩
  · rw [h.through_eq, hsent]
    simp [Frame.sent]
  · exact h.closed_iff.trans (iff_of_false hfinished (by rintro ⟨⟩))
  · rintro ⟨⟩

/-- The reader has dealt with its value. -/
theorem handle (h : Link channel writer (.working value) through handled buffered)
    (hreceived : reader.received = []) (hended : ¬ reader.Ended) (hne : reader ≠ .failed) :
    Link channel writer reader through (handled ++ [value]) buffered := by
  refine ⟨h.represents, ?_, h.closed_iff, fun hreader => absurd hreader hended, h.writer_ne, hne⟩
  rw [h.through_eq, hreceived]
  simp [Frame.received]

end Link

namespace RunPipelineImpl

variable {α : Type} {capacity : Nat} {passing : Passing} {handlers : List (Handler α)}
  {values : List α} {s s' : RunPipelineImpl α capacity} {through handled : Nat → List α}

/-- The task was awaited. -/
def Awaited : MainFrame → Nat → Prop
  | .task index, i => i < index
  | .close index, i => i ≤ index
  | .finished, _ => True
  | .failed, _ => False

/-- `through i` is what task `i` has let through, and `handled i` is what the next task has
dealt with. -/
structure Flows (passing : Passing) (handlers : List (Handler α)) (values : List α)
    (through handled : Nat → List α) (s : RunPipelineImpl α capacity) : Prop where
  links : ∀ i ≤ handlers.length, ∃ buffered,
    Link (s.channels i) (s.tasks i) (s.tasks (i + 1)) (through i) (handled i) buffered
  produced : values = through 0 ++ s.produced
  exhausted : (s.tasks 0).Ended → s.produced = []
  length_eq : s.handlers.length = handlers.length
  run_eq : ∀ i first, handlers[i]? = some first → ∃ handler, s.handlers[i]? = some handler ∧
    first.run passing (handled i) = (through (i + 1), handler)
  consumed : s.consumed = handled handlers.length
  awaited : ∀ i ≤ handlers.length + 1, Awaited s.main i → s.tasks i = .finished
  main_ne : s.main ≠ .failed
  task_le : ∀ index, s.main = .task index → index ≤ handlers.length + 1
  close_le : ∀ index, s.main = .close index → index ≤ handlers.length

theorem flows_start (hcapacity : 0 < capacity) :
    Flows passing handlers values (fun _ => []) (fun _ => [])
      (start handlers values : RunPipelineImpl α capacity) := by
  constructor
  · intro i _
    refine ⟨[], CoroBoundedChannel.Represents.init hcapacity, rfl, ?_, ?_, ?_, ?_⟩
    · exact iff_of_false Bool.false_ne_true (by rintro ⟨⟩)
    · exact fun hreader => absurd hreader Frame.not_ended_receiving
    · rintro ⟨⟩
    · rintro ⟨⟩
  · rfl
  · exact fun hended => absurd hended Frame.not_ended_receiving
  · rfl
  · exact fun i first hfirst => ⟨first, hfirst, rfl⟩
  · rfl
  · exact fun i _ hawaited => absurd hawaited (Nat.not_lt_zero i)
  · rintro ⟨⟩
  · rintro index ⟨⟩
    exact Nat.zero_le _
  · rintro index ⟨⟩

/-- A task whose frame changes concerns the channel that it writes to and the one that it
reads from. -/
theorem Flows.links_setTask (h : Flows passing handlers values through handled s) {j : Nat}
    {frame : Frame α} {channels' : Nat → CoroBoundedChannel α capacity}
    {through' handled' : Nat → List α}
    (hother : ∀ i, i ≠ j → i + 1 ≠ j →
      channels' i = s.channels i ∧ through' i = through i ∧ handled' i = handled i)
    (hwriter : j ≤ handlers.length →
      ∃ buffered, Link (channels' j) frame (s.tasks (j + 1)) (through' j) (handled' j) buffered)
    (hreader : ∀ i, i + 1 = j → i ≤ handlers.length →
      ∃ buffered, Link (channels' i) (s.tasks i) frame (through' i) (handled' i) buffered) :
    ∀ i ≤ handlers.length, ∃ buffered,
      Link (channels' i) ((s.setTask j frame).tasks i) ((s.setTask j frame).tasks (i + 1))
        (through' i) (handled' i) buffered := by
  intro i hi
  obtain ⟨buffered, hlink⟩ := h.links i hi
  by_cases hij : i = j
  · subst hij
    have hnext : i + 1 ≠ i := by omega
    simpa [setTask, hnext] using hwriter hi
  · by_cases hnext : i + 1 = j
    · subst hnext
      simpa [setTask, hij] using hreader i rfl hi
    · obtain ⟨hchannel, hthrough, hhandled⟩ := hother i hij hnext
      refine ⟨buffered, ?_⟩
      simpa [setTask, hij, hnext, hchannel, hthrough, hhandled] using hlink

/-- A task that is not finished was not awaited. -/
theorem Flows.awaited_setTask (h : Flows passing handlers values through handled s) {j : Nat}
    {frame : Frame α} (hactive : s.tasks j ≠ .finished) : ∀ i ≤ handlers.length + 1,
      Awaited s.main i → (s.setTask j frame).tasks i = .finished := by
  intro i hi hawaited
  have hfinished := h.awaited i hi hawaited
  have hij : i ≠ j := by
    rintro rfl
    exact hactive hfinished
  simpa [setTask, hij] using hfinished

theorem Flows.exhausted_setTask (h : Flows passing handlers values through handled s) {j : Nat}
    {frame : Frame α} (hframe : j = 0 → frame.Ended → s.produced = []) :
    ((s.setTask j frame).tasks 0).Ended → s.produced = [] := by
  by_cases hj : j = 0
  · subst hj
    simpa [setTask] using hframe rfl
  · have hne : 0 ≠ j := Ne.symm hj
    simpa [setTask, hne] using h.exhausted

/-- A task goes on after it awaited an operation of a channel. -/
theorem Flows.resume (h : Flows passing handlers values through handled s) {j k : Nat}
    {frame : Frame α} {channel : CoroBoundedChannel α capacity}
    (hactive : s.tasks j ≠ .finished) (hframe : j = 0 → frame.Ended → (s.tasks 0).Ended)
    (hk : k = j ∨ k + 1 = j)
    (hwriter : j ≤ handlers.length → ∃ buffered,
      Link ((s.setChannel k channel).channels j) frame (s.tasks (j + 1)) (through j) (handled j)
        buffered)
    (hreader : ∀ i, i + 1 = j → i ≤ handlers.length → ∃ buffered,
      Link ((s.setChannel k channel).channels i) (s.tasks i) frame (through i) (handled i)
        buffered) :
    Flows passing handlers values through handled ((s.setChannel k channel).setTask j frame) where
  links := by
    refine h.links_setTask ?_ hwriter hreader
    intro i hij hnext
    have hik : i ≠ k := by omega
    simp [setChannel, setTask, hik]
  produced := h.produced
  exhausted := h.exhausted_setTask fun hj hended => h.exhausted (hframe hj hended)
  length_eq := h.length_eq
  run_eq := h.run_eq
  consumed := h.consumed
  awaited := h.awaited_setTask hactive
  main_ne := h.main_ne
  task_le := h.task_le
  close_le := h.close_le

theorem Flows.await_push (h : Flows passing handlers values through handled s) {j : Nat}
    {value : α} (hj : j ≤ handlers.length) (htask : s.tasks j = .pushing value)
    (hstep : s.await j j (.push value) afterPush = some s') :
    Flows passing handlers values through handled s' := by
  obtain ⟨buffered, hlink⟩ := h.links j hj
  have hpush := (htask ▸ hlink).push
  unfold await at hstep
  rcases hpush with ⟨hexec, -⟩ | ⟨channel', hexec, hlink'⟩
  · rw [hexec] at hstep
    cases hstep
  · rw [hexec] at hstep
    obtain rfl := Option.some.inj hstep
    change Flows passing handlers values through handled
      ((s.setChannel j channel').setTask j .receiving)
    refine h.resume (by simp [htask]) (fun _ hended => absurd hended Frame.not_ended_receiving)
      (.inl rfl) ?_ ?_
    · exact fun _ => ⟨_, by simpa [setChannel] using hlink'⟩
    · intro i hij hi
      obtain ⟨buffered, hbefore⟩ := h.links i hi
      have hne : i ≠ j := by omega
      rw [hij, htask] at hbefore
      refine ⟨buffered, ?_⟩
      simpa [setChannel, hne] using hbefore.reader_congr .receiving rfl
        (fun hended => absurd hended Frame.not_ended_receiving) (by rintro ⟨⟩)

theorem Flows.await_close (h : Flows passing handlers values through handled s) {j : Nat}
    (hj : j ≤ handlers.length) (htask : s.tasks j = .closing)
    (hstep : s.await j j .closeChannel (fun _ => .finished) = some s') :
    Flows passing handlers values through handled s' := by
  obtain ⟨buffered, hlink⟩ := h.links j hj
  obtain ⟨channel', hexec, hlink'⟩ := hlink.close (.inl htask)
  unfold await at hstep
  rw [hexec] at hstep
  obtain rfl := Option.some.inj hstep
  refine h.resume (by simp [htask]) ?_ (.inl rfl) ?_ ?_
  · rintro rfl -
    exact .inl htask
  · exact fun _ => ⟨_, by simpa [setChannel] using hlink'⟩
  · intro i hij hi
    obtain ⟨buffered, hbefore⟩ := h.links i hi
    have hne : i ≠ j := by omega
    rw [hij, htask] at hbefore
    refine ⟨buffered, ?_⟩
    simpa [setChannel, hne] using hbefore.reader_congr .finished rfl (fun _ => .inl rfl)
      (by rintro ⟨⟩)

theorem Flows.await_pop (h : Flows passing handlers values through handled s) {i : Nat}
    {ended : Frame α} (hi : i ≤ handlers.length) (htask : s.tasks (i + 1) = .receiving)
    (hended : ended.received = []) (hsent : ended.sent = []) (hne : ended ≠ .failed)
    (hlast : i + 1 ≤ handlers.length → ended ≠ .finished)
    (hstep : s.await (i + 1) i .pop (fun value => value.elim ended .working) = some s') :
    Flows passing handlers values through handled s' := by
  obtain ⟨buffered, hlink⟩ := h.links i hi
  have hpop := (htask ▸ hlink).pop
  unfold await at hstep
  rcases hpop with ⟨hexec, -⟩ | ⟨value, rest, channel', -, hexec, hlink'⟩ |
    ⟨channel', -, hexec, hlink'⟩
  · rw [hexec] at hstep
    cases hstep
  · rw [hexec] at hstep
    obtain rfl := Option.some.inj hstep
    refine h.resume (by simp [htask]) (by omega) (.inr rfl) ?_ ?_
    · intro hj
      obtain ⟨buffered, hafter⟩ := h.links (i + 1) hj
      rw [htask] at hafter
      refine ⟨buffered, ?_⟩
      simpa [setChannel] using hafter.writer_congr (.working value) rfl (by simp) (by simp)
    · rintro i' hii' -
      obtain rfl : i' = i := by omega
      exact ⟨_, by simpa [setChannel] using hlink'⟩
  · rw [hexec] at hstep
    obtain rfl := Option.some.inj hstep
    refine h.resume (by simp [htask]) (by omega) (.inr rfl) ?_ ?_
    · intro hj
      obtain ⟨buffered, hafter⟩ := h.links (i + 1) hj
      rw [htask] at hafter
      refine ⟨buffered, ?_⟩
      simpa [setChannel] using hafter.writer_congr ended hsent
        (iff_of_false (hlast hj) (by simp)) hne
    · rintro i' hii' -
      obtain rfl : i' = i := by omega
      exact ⟨_, by simpa [setChannel] using hlink' ended hended hne⟩

/-- Something was added at one place. -/
def addAt (f : Nat → List α) (k : Nat) (more : List α) : Nat → List α :=
  fun i => if i = k then f i ++ more else f i

@[simp] theorem addAt_self (f : Nat → List α) (k : Nat) (more : List α) :
    addAt f k more k = f k ++ more := if_pos rfl

theorem addAt_of_ne (f : Nat → List α) {k i : Nat} (more : List α) (hi : i ≠ k) :
    addAt f k more i = f i := if_neg hi

theorem Flows.produce (h : Flows passing handlers values through handled s)
    (hstep : s.produce = some s') :
    ∃ through', Flows passing handlers values through' handled s' := by
  obtain ⟨buffered, hlink⟩ := h.links 0 (Nat.zero_le _)
  unfold RunPipelineImpl.produce at hstep
  cases htask : s.tasks 0 with
  | receiving =>
    rw [htask] at hlink
    cases hproduced : s.produced with
    | nil =>
      simp only [htask, hproduced, Option.some.injEq] at hstep
      obtain rfl := hstep
      refine ⟨through, ?_, ?_, ?_, h.length_eq, h.run_eq, h.consumed, ?_, h.main_ne, h.task_le, h.close_le⟩
      · refine h.links_setTask (fun _ _ _ => ⟨rfl, rfl, rfl⟩) (fun _ => ⟨buffered, ?_⟩) (by omega)
        exact hlink.writer_congr .closing rfl (by simp) (by simp)
      · exact h.produced
      · exact fun _ => hproduced
      · exact h.awaited_setTask (by simp [htask])
    | cons value rest =>
      simp only [htask, hproduced, Option.some.injEq] at hstep
      obtain rfl := hstep
      refine ⟨addAt through 0 [value], ?_, ?_, ?_, h.length_eq, ?_, h.consumed, ?_, h.main_ne,
        h.task_le, h.close_le⟩
      · refine h.links_setTask ?_ (fun _ => ⟨buffered, ?_⟩) (by omega)
        · exact fun i hi _ => ⟨rfl, addAt_of_ne through [value] hi, rfl⟩
        · rw [addAt_self]
          exact hlink.send rfl (by simp)
      · rw [addAt_self, h.produced, hproduced]
        simp [setTask]
      · intro hended
        simp [setTask, Frame.Ended] at hended
      · intro i first hfirst
        rw [addAt_of_ne through [value] (Nat.succ_ne_zero i)]
        exact h.run_eq i first hfirst
      · exact h.awaited_setTask (by simp [htask])
  | pushing value =>
    simp only [htask] at hstep
    exact ⟨through, h.await_push (Nat.zero_le _) htask hstep⟩
  | closing =>
    simp only [htask] at hstep
    exact ⟨through, h.await_close (Nat.zero_le _) htask hstep⟩
  | _ => simp [htask] at hstep

/-- A handler has dealt with a value. -/
theorem Flows.work (h : Flows passing handlers values through handled s) {i : Nat} {value : α}
    {handler : Handler α} (hi : i < handlers.length) (hhandler : s.handlers[i]? = some handler)
    (htask : s.tasks (i + 1) = .working value) {passOn : Bool} {replaced : α}
    {handler' : Handler α} (hcall : handler.handelTask passing value = (passOn, replaced, handler')) :
    Flows passing handlers values
      (addAt through (i + 1) (if passOn then [replaced] else [])) (addAt handled i [value])
      ({ s with handlers := s.handlers.set i handler' }.setTask (i + 1)
        (if passOn then .pushing replaced else .receiving)) := by
  refine ⟨?_, ?_, ?_, ?_, ?_, ?_, ?_, h.main_ne, h.task_le, h.close_le⟩
  · refine h.links_setTask ?_ ?_ ?_
    · intro k hk hnext
      exact ⟨rfl, addAt_of_ne through _ hk, addAt_of_ne handled _ (by omega)⟩
    · intro hj
      obtain ⟨buffered, hafter⟩ := h.links (i + 1) hj
      rw [htask] at hafter
      refine ⟨buffered, ?_⟩
      rw [addAt_self, addAt_of_ne handled _ (Nat.succ_ne_self i)]
      cases passOn with
      | false =>
        simp only [Bool.false_eq_true, if_false, List.append_nil]
        exact hafter.writer_congr .receiving rfl (by simp) (by simp)
      | true => exact hafter.send rfl (by simp)
    · rintro k hk -
      obtain rfl : k = i := by omega
      obtain ⟨buffered, hbefore⟩ := h.links k hi.le
      rw [htask] at hbefore
      refine ⟨buffered, ?_⟩
      rw [addAt_self, addAt_of_ne through _ (Nat.succ_ne_self k).symm]
      cases passOn with
      | false => exact hbefore.handle rfl Frame.not_ended_receiving (by simp)
      | true => exact hbefore.handle rfl Frame.not_ended_pushing (by simp)
  · rw [addAt_of_ne through _ (Nat.succ_ne_zero i).symm]
    exact h.produced
  · exact h.exhausted_setTask (by omega)
  · simpa [setTask] using h.length_eq
  · intro k first hfirst
    obtain ⟨current, hcurrent, hrun⟩ := h.run_eq k first hfirst
    by_cases hki : k = i
    · subst hki
      obtain rfl := Option.some.inj (hcurrent.symm.trans hhandler)
      refine ⟨handler', ?_, ?_⟩
      · simp [setTask, h.length_eq, hi]
      · rw [addAt_self, addAt_self, Handler.run_concat, hrun, hcall]
    · refine ⟨current, ?_, ?_⟩
      · have hne : i ≠ k := Ne.symm hki
        simpa [setTask, hne] using hcurrent
      · rw [addAt_of_ne through _ (by omega), addAt_of_ne handled _ hki, hrun]
  · rw [addAt_of_ne handled _ hi.ne']
    exact h.consumed
  · exact h.awaited_setTask (by simp [htask])

theorem Flows.handel (h : Flows passing handlers values through handled s) {i : Nat}
    (hstep : s.handel passing i = some s') :
    ∃ through' handled', Flows passing handlers values through' handled' s' := by
  unfold RunPipelineImpl.handel at hstep
  cases hhandler : s.handlers[i]? with
  | none => simp [hhandler] at hstep
  | some handler =>
    have hi : i < handlers.length := by
      rw [← h.length_eq]
      exact (List.getElem?_eq_some_iff.mp hhandler).1
    cases htask : s.tasks (i + 1) with
    | receiving =>
      simp only [hhandler, htask] at hstep
      exact ⟨through, handled,
        h.await_pop hi.le htask rfl rfl (by simp) (fun _ => by simp) hstep⟩
    | working value =>
      simp only [hhandler, htask, Option.some.injEq] at hstep
      obtain rfl := hstep
      exact ⟨_, _, h.work hi hhandler htask rfl⟩
    | pushing value =>
      simp only [hhandler, htask] at hstep
      exact ⟨through, handled, h.await_push hi htask hstep⟩
    | closing =>
      simp only [hhandler, htask] at hstep
      exact ⟨through, handled, h.await_close hi htask hstep⟩
    | _ => simp [hhandler, htask] at hstep

theorem Flows.consume (h : Flows passing handlers values through handled s)
    (hstep : s.consume = some s') :
    ∃ handled', Flows passing handlers values through handled' s' := by
  have hlength : s.amountChannels = handlers.length + 1 := by rw [amountChannels, h.length_eq]
  unfold RunPipelineImpl.consume at hstep
  rw [hlength, h.length_eq] at hstep
  obtain ⟨buffered, hlink⟩ := h.links handlers.length le_rfl
  cases htask : s.tasks (handlers.length + 1) with
  | receiving =>
    simp only [htask] at hstep
    exact ⟨handled, h.await_pop le_rfl htask rfl rfl (by simp) (by omega) hstep⟩
  | working value =>
    simp only [htask, Option.some.injEq] at hstep
    obtain rfl := hstep
    rw [htask] at hlink
    refine ⟨addAt handled handlers.length [value], ?_, h.produced, ?_, h.length_eq, ?_, ?_, ?_,
      h.main_ne, h.task_le, h.close_le⟩
    · refine h.links_setTask ?_ (by omega) ?_
      · intro i _ hnext
        exact ⟨rfl, rfl, addAt_of_ne handled [value] (by omega)⟩
      · rintro i hnext -
        obtain rfl : i = handlers.length := by omega
        rw [addAt_self]
        exact ⟨buffered, hlink.handle rfl Frame.not_ended_receiving (by simp)⟩
    · exact h.exhausted_setTask (by omega)
    · intro i first hfirst
      have hi : i < handlers.length := (List.getElem?_eq_some_iff.mp hfirst).1
      rw [addAt_of_ne handled [value] hi.ne]
      exact h.run_eq i first hfirst
    · rw [addAt_self, ← h.consumed]
      rfl
    · exact h.awaited_setTask (by simp [htask])
  | _ => simp [htask] at hstep

/-- No task throws. -/
theorem Flows.task_ne (h : Flows passing handlers values through handled s) {i : Nat}
    (hi : i ≤ handlers.length + 1) : s.tasks i ≠ .failed := by
  by_cases hlast : i = handlers.length + 1
  · obtain ⟨buffered, hlink⟩ := h.links handlers.length le_rfl
    rw [hlast]
    exact hlink.reader_ne
  · obtain ⟨buffered, hlink⟩ := h.links i (by omega)
    exact hlink.writer_ne

theorem Flows.awaitTasks (h : Flows passing handlers values through handled s)
    (hstep : s.awaitTasks = some s') : Flows passing handlers values through handled s' := by
  have hlength : s.amountChannels = handlers.length + 1 := by rw [amountChannels, h.length_eq]
  unfold RunPipelineImpl.awaitTasks at hstep
  cases hmain : s.main with
  | task index =>
    have hindex := h.task_le index hmain
    cases htask : s.tasks index with
    | finished =>
      simp only [hmain, htask, Option.some.injEq, hlength] at hstep
      obtain rfl := hstep
      have hawaited : ∀ i ≤ handlers.length + 1, i ≤ index → s.tasks i = .finished := by
        intro i hi hle
        rcases hle.lt_or_eq with hlt | rfl
        · exact h.awaited i hi (hmain ▸ hlt)
        · exact htask
      refine ⟨h.links, h.produced, h.exhausted, h.length_eq, h.run_eq, h.consumed, ?_, ?_, ?_, ?_⟩
      · intro i hi hle
        split_ifs at hle with hlt
        · exact hawaited i hi hle
        · exact hawaited i hi (by omega)
      · dsimp only
        split_ifs <;> simp
      · intro k hk
        dsimp only at hk
        split_ifs at hk
      · intro k hk
        dsimp only at hk
        split_ifs at hk with hlt
        obtain rfl := MainFrame.close.inj hk
        omega
    | failed => exact absurd htask (h.task_ne hindex)
    | _ => simp [hmain, htask] at hstep
  | close index =>
    have hindex := h.close_le index hmain
    have hfinished : s.tasks index = .finished := h.awaited index (by omega) (hmain ▸ le_rfl)
    obtain ⟨buffered, hlink⟩ := h.links index hindex
    obtain ⟨channel', hexec, hlink'⟩ := hlink.close (.inr hfinished)
    simp only [hmain, hexec, Option.some.injEq] at hstep
    obtain rfl := hstep
    refine ⟨?_, h.produced, h.exhausted, h.length_eq, h.run_eq, h.consumed, ?_, ?_, ?_, ?_⟩
    · intro i hi
      by_cases hi' : i = index
      · subst hi'
        exact ⟨buffered, by simpa [setChannel, hfinished] using hlink'⟩
      · simpa [setChannel, hi'] using h.links i hi
    · intro i hi hlt
      have hlt : i < index + 1 := hlt
      exact h.awaited i hi (hmain ▸ Nat.lt_succ_iff.mp hlt)
    · simp
    · rintro k ⟨⟩
      omega
    · rintro k ⟨⟩
  | _ => simp [hmain] at hstep

/-- Every step of a coroutine keeps what flows through the channels. -/
theorem Flows.step (h : Flows passing handlers values through handled s) {actor : Actor}
    (hstep : s.step passing actor = some s') :
    ∃ through' handled', Flows passing handlers values through' handled' s' := by
  cases actor with
  | produce =>
    obtain ⟨through', h'⟩ := h.produce hstep
    exact ⟨through', handled, h'⟩
  | handel index => exact h.handel hstep
  | consume =>
    obtain ⟨handled', h'⟩ := h.consume hstep
    exact ⟨through, handled', h'⟩
  | main => exact ⟨through, handled, h.awaitTasks hstep⟩

theorem Reaches.flows (hcapacity : 0 < capacity) (h : Reaches passing handlers values s) :
    ∃ through handled, Flows passing handlers values through handled s := by
  induction h with
  | refl => exact ⟨_, _, flows_start hcapacity⟩
  | tail _ _ hstep ih =>
    obtain ⟨through, handled, hflows⟩ := ih
    exact hflows.step hstep

/-- Nothing is left on the way when the pipeline has finished. -/
theorem Flows.handled_eq (h : Flows passing handlers values through handled s)
    (hfinished : s.main = .finished) {i : Nat} (hi : i ≤ handlers.length) :
    handled i = through i := by
  have hawaited : ∀ j ≤ handlers.length + 1, s.tasks j = .finished :=
    fun j hj => h.awaited j hj (hfinished ▸ trivial)
  obtain ⟨buffered, hlink⟩ := h.links i hi
  rw [hawaited i (by omega), hawaited (i + 1) (by omega)] at hlink
  have hempty : buffered = [] := (hlink.drained (.inr rfl)).2
  rw [hlink.through_eq, hempty]
  simp [Frame.received, Frame.sent]

/-- What a task has let through in the end is what the handlers up to it let through. -/
theorem Flows.through_eq (h : Flows passing handlers values through handled s)
    (hfinished : s.main = .finished) {i : Nat} (hi : i ≤ handlers.length) :
    through i = Handler.runAll passing (handlers.take i) values := by
  induction i with
  | zero =>
    have hended : s.tasks 0 = .finished := h.awaited 0 (Nat.zero_le _) (hfinished ▸ trivial)
    have hempty : s.produced = [] := h.exhausted (.inr hended)
    simpa [hempty, Handler.runAll] using h.produced.symm
  | succ i ih =>
    have hlt : i < handlers.length := hi
    obtain ⟨handler, -, hrun⟩ := h.run_eq i handlers[i] (List.getElem?_eq_getElem hlt)
    rw [h.handled_eq hfinished hlt.le, ih hlt.le] at hrun
    rw [List.take_succ_eq_append_getElem hlt, Handler.runAll, List.foldl_append]
    change _ = (handlers[i].run passing (Handler.runAll passing (handlers.take i) values)).1
    rw [hrun]

theorem Reaches.consumed_eq (hcapacity : 0 < capacity) (h : Reaches passing handlers values s)
    (hfinished : s.main = .finished) : s.consumed = Handler.runAll passing handlers values := by
  obtain ⟨through, handled, hflows⟩ := h.flows hcapacity
  rw [hflows.consumed, hflows.handled_eq hfinished le_rfl, hflows.through_eq hfinished le_rfl,
    List.take_length]

/-- In every order of the steps: no task throws because a channel refuses its value, and when
the pipeline has finished, the consumer got what the handlers let through. -/
theorem consumed_eq_runAll (hcapacity : 0 < capacity) (handlers : List (Handler α))
    (values : List α) {s : RunPipelineImpl α capacity} (h : Reaches .byReference handlers values s) :
    (∀ i ≤ handlers.length + 1, s.tasks i ≠ .failed) ∧ s.main ≠ .failed ∧
      (s.main = .finished → s.consumed = Handler.runAll .byReference handlers values) := by
  obtain ⟨through, handled, hflows⟩ := h.flows hcapacity
  exact ⟨fun i => hflows.task_ne, hflows.main_ne, h.consumed_eq hcapacity⟩

/-- A handler that drops odd numbers and adds up the others. -/
def evenSums : Handler Nat where
  State := Nat
  state := 0
  handel sum value := if value % 2 = 0 then (true, sum + value, sum + value) else (false, value, sum)

/-- The producer has closed its channel before the handler has taken the last value from it. -/
def producerFirst : List Actor :=
  [.produce, .produce, .produce, .handel 0, .produce, .produce, .handel 0, .handel 0, .consume,
    .consume, .handel 0, .produce, .produce, .produce, .main, .main, .handel 0, .handel 0, .handel 0,
    .handel 0, .consume, .consume, .handel 0, .handel 0, .main, .main, .consume, .main]

theorem consumed_eq_runAll_evenSums : ∃ s : RunPipelineImpl Nat 1,
    Reaches .byReference [evenSums] [2, 3, 4] s ∧ s.main = .finished ∧ s.consumed = [2, 6] := by
  have hrun : ∃ s : RunPipelineImpl Nat 1,
      Transition.follow (step .byReference) (fun _ _ => True) (start [evenSums] [2, 3, 4])
        producerFirst = some s ∧ s.main = .finished := ⟨_, rfl, rfl⟩
  obtain ⟨s, hs, hfinished⟩ := hrun
  have hreaches : Reaches .byReference [evenSums] [2, 3, 4] s := Transition.Reachable.refl.follow hs
  exact ⟨s, hreaches, hfinished,
    (consumed_eq_runAll Nat.one_pos [evenSums] [2, 3, 4] hreaches).2.2 hfinished⟩

end RunPipelineImpl

end Columbo
