import Columbo.EventProvider
import Columbo.PipelineTermination
import Columbo.ReaderDelivery
import Columbo.RunSimulation

/-!
# Runs of a pipeline with a provider

Seen from the pipeline, the provider is a producer that still returns the events in its channel,
the event that its task pushes, and the events of the lines that the task still gets.
-/
namespace Columbo

open LineHandler

namespace ReaderBuffer

variable {B : ℕ} {s : ReaderBuffer B}

/-- A reader gets lines until there is none, and reads nothing that it must not read. -/
theorem exists_readAll {fuel : ℕ} (hs : Inv s) (hfuel : s.pending.length < fuel) :
    ∃ ls, readAll fuel s = some ls ∧ ls <+: lines kLineEnd s.pending ∧
      ls.length ≤ s.pending.length := by
  induction fuel generalizing s with
  | zero => omega
  | succ fuel ih =>
    by_cases hfound : Found s
    · obtain ⟨k, l, mem, s', hnext, hs', hline, -⟩ := nextHandler_of_found hs hfound
      have hlength := hline.length_eq
      obtain ⟨ls, hls, hprefix, hle⟩ := ih hs' (by omega)
      refine ⟨l :: ls, ?_, ?_, ?_⟩
      · rw [readAll_of_next hnext, hls]
        rfl
      · rw [hline.lines_eq]
        exact List.cons_prefix_cons.mpr ⟨rfl, hprefix⟩
      · rw [List.length_cons]
        omega
    · exact ⟨[], readAll_of_not_found hs hfound, List.nil_prefix, Nat.zero_le _⟩

/-- However the reads cut up a file whose lines fit into the block, its lines are what is read. -/
theorem deliver_of_deliverable {content : Bytes} (h : Deliverable B content) (chunks : ℕ → ℕ) :
    deliver B content chunks = some (lines kLineEnd content) := by
  have hpending := pending_openFile B content chunks
  have hread := readAll_of_deliverable (inv_openFile B content chunks)
    (Nat.lt_succ_self _) (hpending.symm ▸ h)
  rwa [hpending] at hread

end ReaderBuffer

namespace BufferedEventProvider

variable {B eventBufferSize : ℕ} {s s' : BufferedEventProvider B eventBufferSize}
  {rest : List Event}

/-- The events of the lines that the task still gets. -/
def Reads (s : BufferedEventProvider B eventBufferSize) (events : List Event) : Prop :=
  ∃ fuel ls, s.lineHandlerBuffer.readAll fuel = some ls ∧
    events = ls.filterMap s.logParser.eventOf

/-- The events that the provider still returns are `rest`. -/
structure Provides (s : BufferedEventProvider B eventBufferSize) (rest : List Event) : Prop where
  inv : s.lineHandlerBuffer.Inv
  receives : s.fillBufferTask.received = []
  feeds : ∃ through handled buffered left,
    Link s.eventBufferChannel s.fillBufferTask .receiving through handled buffered ∧
      rest = buffered ++ s.fillBufferTask.sent ++ left ∧
      (s.fillBufferTask.Ended → left = []) ∧ (¬ s.fillBufferTask.Ended → s.Reads left)

/-- What the task still has to do. -/
def load (s : BufferedEventProvider B eventBufferSize) : ℕ :=
  (if s.startedFillTask then 0 else 1) + 3 * s.lineHandlerBuffer.pending.length +
    match s.fillBufferTask with
    | .receiving => 2
    | .pushing _ => 3
    | .closing => 1
    | _ => 0

theorem provides_start (hsize : 0 < eventBufferSize) (parser : Parser) {content : Bytes}
    {chunks : ℕ → ℕ} {ls : List Bytes} (hls : ReaderBuffer.deliver B content chunks = some ls) :
    Provides
      ({ logParser := parser, lineHandlerBuffer := .openFile B content chunks } :
        BufferedEventProvider B eventBufferSize)
      (ls.filterMap parser.eventOf) := by
  refine ⟨ReaderBuffer.inv_openFile B content chunks, rfl, [], [], [], _, ⟨?_, rfl, ?_, ?_, ?_, ?_⟩,
    rfl, ?_, ?_⟩
  · exact CoroBoundedChannel.Represents.init hsize
  · exact iff_of_false Bool.false_ne_true (by intro h; cases h)
  · exact fun hended => absurd hended Frame.not_ended_receiving
  · intro h
    cases h
  · intro h
    cases h
  · exact fun hended => absurd hended Frame.not_ended_receiving
  · exact fun _ => ⟨_, ls, hls, rfl⟩

/-- The task gets its next line, or finds that there is none. -/
theorem Provides.readLine (h : Provides s rest) (htask : s.fillBufferTask = .receiving) :
    Provides s.readLine rest ∧ s.readLine.load < s.load := by
  obtain ⟨through, handled, buffered, left, hlink, hrest, -, hreads⟩ := h.feeds
  rw [htask] at hlink hrest hreads
  obtain ⟨fuel, ls, hls, hleft⟩ := hreads Frame.not_ended_receiving
  obtain ⟨fuel, rfl⟩ : ∃ n, fuel = n + 1 := by
    cases fuel with
    | zero => cases hls
    | succ n => exact ⟨n, rfl⟩
  by_cases hfound : s.lineHandlerBuffer.Found
  · obtain ⟨k, l, mem, buffer, hnext, hinv, hline, -⟩ :=
      ReaderBuffer.nextHandler_of_found h.inv hfound
    have hlength := hline.length_eq
    rw [ReaderBuffer.readAll_of_next hnext] at hls
    obtain ⟨ls', hls', rfl⟩ := Option.map_eq_some_iff.mp hls
    have hevent := s.logParser.parseEvent_eq_eventOf l mem
    cases hparse : s.logParser.eventOf l with
    | none =>
      rw [hparse] at hevent
      have hread : s.readLine = { s with lineHandlerBuffer := buffer } := by
        simp only [BufferedEventProvider.readLine, hnext, hevent]
      rw [hread]
      refine ⟨⟨hinv, h.receives, through, handled, buffered, left, ?_, ?_, ?_, ?_⟩, ?_⟩
      · exact htask ▸ hlink
      · simpa only [htask] using hrest
      · intro hended
        exact absurd (htask ▸ hended) Frame.not_ended_receiving
      · refine fun _ => ⟨fuel, ls', hls', ?_⟩
        rw [hleft, List.filterMap_cons_none hparse]
      · simp only [load, htask]
        omega
    | some event =>
      rw [hparse] at hevent
      have hread : s.readLine =
          { s with lineHandlerBuffer := buffer, fillBufferTask := .pushing event } := by
        simp only [BufferedEventProvider.readLine, hnext, hevent]
      rw [hread]
      refine ⟨⟨hinv, rfl, _, handled, buffered, ls'.filterMap s.logParser.eventOf,
        hlink.send rfl (by intro hfinished; cases hfinished), ?_, ?_, ?_⟩, ?_⟩
      · rw [hrest, hleft, List.filterMap_cons_some hparse]
        simp [Frame.sent]
      · exact fun hended => absurd hended Frame.not_ended_pushing
      · exact fun _ => ⟨fuel, ls', hls', rfl⟩
      · simp only [load, htask]
        omega
  · obtain ⟨buffer, hnext, hlooked⟩ := ReaderBuffer.nextHandler_of_not_found h.inv hfound
    have hread : s.readLine =
        { s with lineHandlerBuffer := buffer, fillBufferTask := .closing } := by
      simp only [BufferedEventProvider.readLine, hnext]
    rw [ReaderBuffer.readAll_of_not_found h.inv hfound] at hls
    obtain rfl := Option.some.inj hls
    obtain ⟨k, hpending⟩ := hlooked.pending_eq
    have hlength := congrArg List.length hpending
    rw [List.length_append] at hlength
    rw [hread]
    refine ⟨⟨hlooked.inv, rfl, through, handled, buffered, left, ?_, hrest, ?_, ?_⟩, ?_⟩
    · refine hlink.writer_congr .closing rfl (iff_of_false ?_ ?_) ?_
      · intro hfinished
        cases hfinished
      · intro hfinished
        cases hfinished
      · intro hfailed
        cases hfailed
    · exact fun _ => hleft
    · exact fun hended => absurd (.inl rfl) hended
    · simp only [load, htask]
      omega

/-- A step of the task takes nothing away from what the provider returns. -/
theorem Provides.resetFillBufferTask (h : Provides s rest)
    (hstep : s.resetFillBufferTask = some s') : Provides s' rest ∧ s'.load < s.load := by
  unfold BufferedEventProvider.resetFillBufferTask at hstep
  split_ifs at hstep with hstarted
  obtain ⟨through, handled, buffered, left, hlink, hrest, hended, hreads⟩ := h.feeds
  cases htask : s.fillBufferTask with
  | receiving =>
    simp only [htask] at hstep
    obtain rfl := Option.some.inj hstep
    exact h.readLine htask
  | pushing event =>
    simp only [htask, await] at hstep
    rw [htask] at hlink hrest hreads
    rcases hlink.push with ⟨hexec, -⟩ | ⟨channel, hexec, hlink'⟩
    · rw [hexec] at hstep
      cases hstep
    · rw [hexec] at hstep
      obtain rfl := Option.some.inj hstep
      refine ⟨⟨h.inv, rfl, through, handled, buffered ++ [event], left, hlink', ?_, ?_, ?_⟩, ?_⟩
      · rw [hrest]
        simp [Frame.sent]
      · exact fun hended => absurd hended Frame.not_ended_receiving
      · exact fun _ => hreads Frame.not_ended_pushing
      · simp only [load, htask]
        omega
  | closing =>
    simp only [htask, await] at hstep
    rw [htask] at hlink hrest hended
    obtain ⟨channel, hexec, hlink'⟩ := hlink.close (.inl rfl)
    rw [hexec] at hstep
    obtain rfl := Option.some.inj hstep
    refine ⟨⟨h.inv, rfl, through, handled, buffered, left, hlink', hrest, ?_, ?_⟩, ?_⟩
    · exact fun _ => hended (.inl rfl)
    · exact fun hopen => absurd (.inr rfl) hopen
    · simp only [load, htask]
      omega
  | working event => simp only [htask] at hstep; cases hstep
  | finished => simp only [htask] at hstep; cases hstep
  | failed => simp only [htask] at hstep; cases hstep

/-- A pop waits for the task, takes the next event, or finds that there is none. -/
theorem Provides.pop (h : Provides s rest) :
    (s.eventBufferChannel.exec .pop = .error .waits ∧
        (s.startedFillTask = true → 0 < eventBufferSize →
          ∃ s', s.resetFillBufferTask = some s')) ∨
    (∃ event rest' channel, rest = event :: rest' ∧
      s.eventBufferChannel.exec .pop = .ok (some event, channel) ∧
        Provides { s with eventBufferChannel := channel } rest') ∨
    ∃ channel, rest = [] ∧ s.fillBufferTask = .finished ∧
      s.eventBufferChannel.exec .pop = .ok (none, channel) ∧
        Provides { s with eventBufferChannel := channel } [] := by
  obtain ⟨through, handled, buffered, left, hlink, hrest, hended, hreads⟩ := h.feeds
  rcases hlink.pop with ⟨hexec, hbuffered, hwriter⟩ |
    ⟨event, more, channel, hbuffered, hexec, hlink'⟩ | ⟨channel, hbuffered, hexec, hlink'⟩
  · refine .inl ⟨hexec, fun hstarted hsize => ?_⟩
    unfold BufferedEventProvider.resetFillBufferTask
    rw [if_pos hstarted]
    cases htask : s.fillBufferTask with
    | receiving => exact ⟨_, rfl⟩
    | pushing event =>
      rw [htask] at hlink
      rcases hlink.push with ⟨-, hfull⟩ | ⟨channel, hpush, -⟩
      · rw [hbuffered, List.length_nil] at hfull
        omega
      · simp only [await, hpush]
        exact ⟨_, rfl⟩
    | closing =>
      rw [htask] at hlink
      obtain ⟨channel, hclose, -⟩ := hlink.close (.inl rfl)
      simp only [await, hclose]
      exact ⟨_, rfl⟩
    | finished => exact absurd htask hwriter
    | working event =>
      have hreceives := h.receives
      rw [htask] at hreceives
      cases hreceives
    | failed => exact absurd htask hlink.writer_ne
  · refine .inr (.inl ⟨event, more ++ s.fillBufferTask.sent ++ left, channel, ?_, hexec, h.inv,
      h.receives, through, handled ++ [event], more, left, ?_, rfl, hended, hreads⟩)
    · rw [hrest, hbuffered]
      rfl
    · refine hlink'.handle rfl Frame.not_ended_receiving ?_
      intro hfailed
      cases hfailed
  · have hclosed := (hlink' .closing rfl (by intro hfailed; cases hfailed))
    have hfinished : s.fillBufferTask = .finished :=
      hclosed.closed_iff.mp (hclosed.drained (.inl rfl)).1
    have hnone : s.fillBufferTask.sent ++ left = [] := by
      rw [hended (.inr hfinished), hfinished]
      rfl
    refine .inr (.inr ⟨channel, ?_, hfinished, hexec, h.inv, h.receives, through, handled, [], left,
      ?_, ?_, hended, hreads⟩)
    · rw [hrest, hbuffered, List.nil_append]
      exact hnone
    · refine hlink' .receiving rfl ?_
      intro hfailed
      cases hfailed
    · exact hnone.symm

end BufferedEventProvider

theorem Handler.run_fst_of_isPrefix {α : Type} {passing : Passing} {handler : Handler α}
    {values values' : List α} (h : values <+: values') :
    (handler.run passing values).1 <+: (handler.run passing values').1 := by
  obtain ⟨rest, rfl⟩ := h
  rw [Handler.run_append]
  exact List.prefix_append _ _

namespace RunPipelineImpl

section Progress

variable {α : Type} {capacity : ℕ} {passing : Passing} {handlers : List (Handler α)}
  {values : List α} {s : RunPipelineImpl α capacity} {through handled : ℕ → List α}

theorem Flows.handled_isPrefix (h : Flows passing handlers values through handled s) {i : ℕ}
    (hi : i ≤ handlers.length) : handled i <+: through i := by
  obtain ⟨buffered, hlink⟩ := h.links i hi
  rw [hlink.through_eq, List.append_assoc, List.append_assoc]
  exact List.prefix_append _ _

/-- What a task has let through so far. -/
theorem Flows.through_isPrefix (h : Flows passing handlers values through handled s) {i : ℕ}
    (hi : i ≤ handlers.length) :
    through i <+: Handler.runAll passing (handlers.take i) values := by
  induction i with
  | zero => exact ⟨s.produced, h.produced.symm⟩
  | succ i ih =>
    have hlt : i < handlers.length := hi
    obtain ⟨handler, -, hrun⟩ := h.run_eq i handlers[i] (List.getElem?_eq_getElem hlt)
    have hprefix : (handlers[i].run passing (handled i)).1 <+:
        (handlers[i].run passing (Handler.runAll passing (handlers.take i) values)).1 :=
      Handler.run_fst_of_isPrefix ((h.handled_isPrefix hlt.le).trans (ih hlt.le))
    rw [hrun] at hprefix
    rwa [List.take_succ_eq_append_getElem hlt, Handler.runAll, List.foldl_append]

/-- What the consumer was called with, and the value that it is called with next. -/
def taken (s : RunPipelineImpl α capacity) : List α :=
  s.consumed ++ (s.tasks s.amountChannels).received

theorem Reaches.taken_isPrefix (hcapacity : 0 < capacity) (h : Reaches passing handlers values s) :
    s.taken <+: Handler.runAll passing handlers values := by
  obtain ⟨through, handled, hflows⟩ := h.flows hcapacity
  obtain ⟨buffered, hlink⟩ := hflows.links handlers.length le_rfl
  have hthrough := hflows.through_isPrefix le_rfl
  rw [List.take_length, hlink.through_eq, List.append_assoc] at hthrough
  rw [taken, hflows.consumed, amountChannels, hflows.length_eq]
  exact (List.prefix_append _ _).trans hthrough

theorem Reaches.consumed_isPrefix (hcapacity : 0 < capacity)
    (h : Reaches passing handlers values s) :
    s.consumed <+: Handler.runAll passing handlers values :=
  (List.prefix_append _ _).trans (h.taken_isPrefix hcapacity)

end Progress

variable {α : Type} {capacity : ℕ} {s : RunPipelineImpl α capacity}

/-- The pipeline, if its producer still returns some values. -/
def withProduced (s : RunPipelineImpl α capacity) (rest : List α) : RunPipelineImpl α capacity :=
  { s with produced := rest }

@[simp] theorem withProduced_tasks (rest : List α) : (s.withProduced rest).tasks = s.tasks := rfl

@[simp] theorem withProduced_channels (rest : List α) :
    (s.withProduced rest).channels = s.channels := rfl

@[simp] theorem withProduced_handlers (rest : List α) :
    (s.withProduced rest).handlers = s.handlers := rfl

@[simp] theorem withProduced_main (rest : List α) : (s.withProduced rest).main = s.main := rfl

@[simp] theorem withProduced_consumed (rest : List α) :
    (s.withProduced rest).consumed = s.consumed := rfl

theorem await_withProduced (rest : List α) (task index : ℕ) (c : ChannelCall α)
    (resume : c.Response → Frame α) : (s.withProduced rest).await task index c resume =
      (s.await task index c resume).map fun s' => s'.withProduced rest := by
  unfold await
  simp only [withProduced_channels]
  cases (s.channels index).exec c with
  | error stop =>
    cases stop with
    | waits => rfl
    | fails => rfl
  | ok r => rfl

/-- Only `ProduceTask` looks at what the producer returns, and only when it calls it. -/
theorem produce_withProduced (rest : List α) (htask : s.tasks 0 ≠ .receiving) :
    (s.withProduced rest).produce = s.produce.map fun s' => s'.withProduced rest := by
  unfold produce
  simp only [withProduced_tasks]
  cases hframe : s.tasks 0 with
  | receiving => exact absurd hframe htask
  | pushing value => exact await_withProduced rest 0 0 _ _
  | closing => exact await_withProduced rest 0 0 _ _
  | working value => rfl
  | finished => rfl
  | failed => rfl

theorem handel_withProduced (passing : Passing) (rest : List α) (index : ℕ) :
    (s.withProduced rest).handel passing index =
      (s.handel passing index).map fun s' => s'.withProduced rest := by
  unfold handel
  simp only [withProduced_handlers, withProduced_tasks]
  cases s.handlers[index]? with
  | none => rfl
  | some handler =>
    cases s.tasks (index + 1) with
    | receiving => exact await_withProduced rest _ _ _ _
    | working value => rfl
    | pushing value => exact await_withProduced rest _ _ _ _
    | closing => exact await_withProduced rest _ _ _ _
    | finished => rfl
    | failed => rfl

theorem consume_withProduced (rest : List α) : (s.withProduced rest).consume =
    s.consume.map fun s' => s'.withProduced rest := by
  unfold consume
  simp only [withProduced_tasks, amountChannels, withProduced_handlers]
  cases s.tasks (s.handlers.length + 1) with
  | receiving => exact await_withProduced rest _ _ _ _
  | working value => rfl
  | pushing value => rfl
  | closing => rfl
  | finished => rfl
  | failed => rfl

theorem awaitTasks_withProduced (rest : List α) : (s.withProduced rest).awaitTasks =
    s.awaitTasks.map fun s' => s'.withProduced rest := by
  unfold awaitTasks
  simp only [withProduced_main, withProduced_tasks, withProduced_channels]
  cases s.main with
  | task index =>
    dsimp only
    cases s.tasks index with
    | finished => rfl
    | failed => rfl
    | receiving => rfl
    | working value => rfl
    | pushing value => rfl
    | closing => rfl
  | close index =>
    dsimp only
    cases (s.channels index).exec .closeChannel with
    | error stop => rfl
    | ok r => rfl
  | finished => rfl
  | failed => rfl

theorem step_withProduced (passing : Passing) (rest : List α) {actor : Actor}
    (hactor : actor = .produce → s.tasks 0 ≠ .receiving) :
    (s.withProduced rest).step passing actor =
      (s.step passing actor).map fun s' => s'.withProduced rest := by
  cases actor with
  | produce => exact produce_withProduced rest (hactor rfl)
  | handel index => exact handel_withProduced passing rest index
  | consume => exact consume_withProduced rest
  | main => exact awaitTasks_withProduced rest

/-- Awaiting an operation changes the frame of the task alone. -/
theorem tasks_await {s' : RunPipelineImpl α capacity} {task index : ℕ} {c : ChannelCall α}
    {resume : c.Response → Frame α} (hstep : s.await task index c resume = some s') :
    ∃ frame, (frame = .failed ∨ ∃ r, frame = resume r) ∧
      s'.tasks = (s.setTask task frame).tasks := by
  unfold await at hstep
  cases hexec : (s.channels index).exec c with
  | error stop =>
    cases stop with
    | waits => simp [hexec] at hstep
    | fails =>
      simp only [hexec, Option.some.injEq] at hstep
      exact ⟨.failed, .inl rfl, by rw [← hstep]⟩
  | ok result =>
    simp only [hexec, Option.some.injEq] at hstep
    exact ⟨resume result.1, .inr ⟨result.1, rfl⟩, by rw [← hstep]; rfl⟩

theorem frame_await {s' : RunPipelineImpl α capacity} {task index : ℕ} {c : ChannelCall α}
    {resume : c.Response → Frame α} (hstep : s.await task index c resume = some s') :
    (∀ j, task ≠ j → s'.tasks j = s.tasks j) ∧ s'.consumed = s.consumed := by
  obtain ⟨frame, -, htasks⟩ := tasks_await hstep
  refine ⟨fun j hj => ?_, ?_⟩
  · rw [htasks]
    simp [setTask, hj.symm]
  · unfold await at hstep
    cases hexec : (s.channels index).exec c with
    | error stop =>
      cases stop with
      | waits => simp [hexec] at hstep
      | fails =>
        simp only [hexec, Option.some.injEq] at hstep
        rw [← hstep]
        rfl
    | ok result =>
      simp only [hexec, Option.some.injEq] at hstep
      rw [← hstep]
      rfl

/-- The task of a coroutine. -/
def Actor.task (last : ℕ) : Actor → Option ℕ
  | .produce => some 0
  | .handel index => some (index + 1)
  | .consume => some last
  | .main => none

/-- A coroutine changes the frame of its own task alone, and only the consumer is called with
values. -/
theorem frame_of_step {passing : Passing} {s' : RunPipelineImpl α capacity} {actor : Actor}
    (hstep : s.step passing actor = some s') :
    (∀ j, actor.task s.amountChannels ≠ some j → s'.tasks j = s.tasks j) ∧
      (actor ≠ .consume → s'.consumed = s.consumed) := by
  have hawait : ∀ {task index : ℕ} {c : ChannelCall α} {resume : c.Response → Frame α},
      actor.task s.amountChannels = some task → s.await task index c resume = some s' →
      (∀ j, actor.task s.amountChannels ≠ some j → s'.tasks j = s.tasks j) ∧
        (actor ≠ .consume → s'.consumed = s.consumed) := by
    intro task index c resume htask hstep
    obtain ⟨htasks, hconsumed⟩ := frame_await hstep
    refine ⟨fun j hj => htasks j fun heq => hj (heq ▸ htask), fun _ => hconsumed⟩
  have hset : ∀ {task : ℕ} {frame : Frame α} (t : RunPipelineImpl α capacity),
      actor.task s.amountChannels = some task → t.tasks = s.tasks →
      ∀ j, actor.task s.amountChannels ≠ some j → (t.setTask task frame).tasks j = s.tasks j := by
    intro task frame t htask htasks j hj
    have hne : j ≠ task := fun heq => hj (heq ▸ htask)
    simp [setTask, hne, htasks]
  cases actor with
  | produce =>
    change s.produce = some s' at hstep
    unfold produce at hstep
    cases hframe : s.tasks 0 with
    | receiving =>
      simp only [hframe] at hstep
      cases hproduced : s.produced with
      | nil =>
        simp only [hproduced, Option.some.injEq] at hstep
        rw [← hstep]
        exact ⟨hset s rfl rfl, fun _ => rfl⟩
      | cons value rest =>
        simp only [hproduced, Option.some.injEq] at hstep
        rw [← hstep]
        exact ⟨hset { s with produced := rest } rfl rfl, fun _ => rfl⟩
    | pushing value => exact hawait rfl (by simpa only [hframe] using hstep)
    | closing => exact hawait rfl (by simpa only [hframe] using hstep)
    | working value => simp [hframe] at hstep
    | finished => simp [hframe] at hstep
    | failed => simp [hframe] at hstep
  | handel index =>
    change s.handel passing index = some s' at hstep
    unfold handel at hstep
    cases hhandler : s.handlers[index]? with
    | none => simp [hhandler] at hstep
    | some handler =>
      simp only [hhandler] at hstep
      cases hframe : s.tasks (index + 1) with
      | receiving => exact hawait rfl (by simpa only [hframe] using hstep)
      | pushing value => exact hawait rfl (by simpa only [hframe] using hstep)
      | closing => exact hawait rfl (by simpa only [hframe] using hstep)
      | working value =>
        simp only [hframe, Option.some.injEq] at hstep
        rw [← hstep]
        exact ⟨hset _ rfl rfl, fun _ => rfl⟩
      | finished => simp [hframe] at hstep
      | failed => simp [hframe] at hstep
  | consume =>
    change s.consume = some s' at hstep
    unfold consume at hstep
    cases hframe : s.tasks s.amountChannels with
    | receiving => exact hawait rfl (by simpa only [hframe] using hstep)
    | working value =>
      simp only [hframe, Option.some.injEq] at hstep
      rw [← hstep]
      exact ⟨hset _ rfl rfl, fun hactor => absurd rfl hactor⟩
    | pushing value => simp [hframe] at hstep
    | closing => simp [hframe] at hstep
    | finished => simp [hframe] at hstep
    | failed => simp [hframe] at hstep
  | main =>
    change s.awaitTasks = some s' at hstep
    unfold awaitTasks at hstep
    cases hmain : s.main with
    | task index =>
      simp only [hmain] at hstep
      cases hframe : s.tasks index with
      | finished =>
        simp only [hframe, Option.some.injEq] at hstep
        rw [← hstep]
        exact ⟨fun _ _ => rfl, fun _ => rfl⟩
      | failed =>
        simp only [hframe, Option.some.injEq] at hstep
        rw [← hstep]
        exact ⟨fun _ _ => rfl, fun _ => rfl⟩
      | receiving => simp [hframe] at hstep
      | working value => simp [hframe] at hstep
      | pushing value => simp [hframe] at hstep
      | closing => simp [hframe] at hstep
    | close index =>
      simp only [hmain] at hstep
      cases hexec : (s.channels index).exec .closeChannel with
      | error stop => simp [hexec] at hstep
      | ok r =>
        simp only [hexec, Option.some.injEq] at hstep
        rw [← hstep]
        exact ⟨fun _ _ => rfl, fun _ => rfl⟩
    | finished => simp [hmain] at hstep
    | failed => simp [hmain] at hstep

theorem tasks_zero_of_step {passing : Passing} {s' : RunPipelineImpl α capacity} {actor : Actor}
    (hactor : actor ≠ .produce) (hstep : s.step passing actor = some s') :
    s'.tasks 0 = s.tasks 0 := by
  refine (frame_of_step hstep).1 0 ?_
  cases actor with
  | produce => exact absurd rfl hactor
  | handel index => simp [Actor.task]
  | consume => simp [Actor.task, amountChannels]
  | main => simp [Actor.task]

/-- The other coroutines do not call the consumer. -/
theorem taken_of_step {passing : Passing} {s' : RunPipelineImpl α capacity} {actor : Actor}
    (hactor : actor ≠ .consume) (hamount : s'.amountChannels = s.amountChannels)
    (hstep : s.step passing actor = some s') :
    s'.taken = s.taken ∧ s'.tasks s'.amountChannels = s.tasks s.amountChannels := by
  obtain ⟨htasks, hconsumed⟩ := frame_of_step hstep
  have hlast : s'.tasks s.amountChannels = s.tasks s.amountChannels := by
    refine htasks _ ?_
    cases actor with
    | produce => simp [Actor.task, amountChannels]
    | handel index =>
      have hindex : index < s.handlers.length := by
        by_contra hout
        change s.handel passing index = some s' at hstep
        unfold handel at hstep
        simp [List.getElem?_eq_none (not_lt.mp hout)] at hstep
      intro heq
      have heq : index + 1 = s.handlers.length + 1 := Option.some.inj heq
      omega
    | consume => exact absurd rfl hactor
    | main => simp [Actor.task]
  rw [taken, taken, hamount, hlast, hconsumed hactor]
  exact ⟨rfl, rfl⟩

/-- The consumer receives a value, finds that there is none, or has been called. -/
theorem taken_of_consume {s' : RunPipelineImpl α capacity}
    (hamount : s'.amountChannels = s.amountChannels) (hstep : s.consume = some s') :
    (∃ value, s.tasks s.amountChannels = .receiving ∧
      s'.tasks s'.amountChannels = .working value ∧ s'.taken = s.taken ++ [value]) ∨
    ((∀ value, s'.tasks s'.amountChannels ≠ .working value) ∧ s'.taken = s.taken) := by
  unfold consume at hstep
  cases hframe : s.tasks s.amountChannels with
  | receiving =>
    simp only [hframe] at hstep
    obtain ⟨-, hconsumed⟩ := frame_await hstep
    obtain ⟨frame, hresume, htasks⟩ := tasks_await hstep
    have hlast : s'.tasks s'.amountChannels = frame := by
      rw [htasks, hamount]
      simp [setTask]
    rw [taken, taken, hlast, hframe, hconsumed]
    rcases hresume with rfl | ⟨value, rfl⟩
    · exact .inr ⟨fun value hvalue => (by cases hvalue), rfl⟩
    · change Option α at value
      cases value with
      | none => exact .inr ⟨fun value hvalue => (by cases hvalue), rfl⟩
      | some value => exact .inl ⟨value, rfl, rfl, by simp [Frame.received]⟩
  | working value =>
    simp only [hframe, Option.some.injEq] at hstep
    refine .inr ⟨fun other hother => ?_, ?_⟩
    · rw [hamount, ← hstep] at hother
      simp [setTask] at hother
    · rw [taken, taken, hamount, ← hstep, hframe]
      simp [setTask, Frame.received]
  | pushing value => simp [hframe] at hstep
  | closing => simp [hframe] at hstep
  | finished => simp [hframe] at hstep
  | failed => simp [hframe] at hstep

/-- `ProduceTask` ends its work in the step in which it calls the producer. -/
theorem ended_of_step {passing : Passing} {s' : RunPipelineImpl α capacity} {actor : Actor}
    (hactor : actor = .produce → s.tasks 0 ≠ .receiving)
    (hstep : s.step passing actor = some s') (hended : (s'.tasks 0).Ended) :
    (s.tasks 0).Ended := by
  by_cases hproduce : actor = .produce
  · subst hproduce
    change s.produce = some s' at hstep
    unfold produce at hstep
    cases hframe : s.tasks 0 with
    | receiving => exact absurd hframe (hactor rfl)
    | pushing value =>
      simp only [hframe] at hstep
      obtain ⟨frame, hresume, htasks⟩ := tasks_await hstep
      have hframe' : s'.tasks 0 = frame := by
        rw [htasks]
        simp [setTask]
      rw [hframe'] at hended
      rcases hresume with rfl | ⟨couldPush, rfl⟩
      · rcases hended with h | h <;> cases h
      · change (afterPush couldPush).Ended at hended
        cases couldPush <;> rcases hended with h | h <;> cases h
    | closing => exact .inl rfl
    | working value => simp [hframe] at hstep
    | finished => simp [hframe] at hstep
    | failed => simp [hframe] at hstep
  · rwa [tasks_zero_of_step hproduce hstep] at hended

end RunPipelineImpl

namespace ProvidedPipeline

open RunPipelineImpl

variable {B eventBufferSize capacity : ℕ} {passing : Passing} {parser : Parser} {content : Bytes}
  {chunks : ℕ → ℕ} {handlers : List (Handler Event)} {events : List Event}
  {s s' : ProvidedPipeline B eventBufferSize capacity} {p : RunPipelineImpl Event capacity}

/-- The pipeline whose producer returns what the provider still returns. The task of the provider
has finished when the producer finds no more events. -/
structure Produces (s : ProvidedPipeline B eventBufferSize capacity)
    (p : RunPipelineImpl Event capacity) : Prop where
  provides : ∃ rest, s.provider.Provides rest ∧ p = s.pipeline.withProduced rest
  ended : (s.pipeline.tasks 0).Ended → s.provider.fillBufferTask = .finished

theorem Produces.fill (h : s.Produces p) (hstep : s.step passing .fill = some s') :
    s'.Produces p ∧ s'.provider.load < s.provider.load := by
  obtain ⟨⟨rest, hprovides, rfl⟩, hended⟩ := h
  obtain ⟨provider, hfill, rfl⟩ := Option.map_eq_some_iff.mp hstep
  obtain ⟨hprovides', hload⟩ := hprovides.resetFillBufferTask hfill
  refine ⟨⟨⟨rest, hprovides', rfl⟩, fun hend => ?_⟩, hload⟩
  have hfinished := hended hend
  unfold BufferedEventProvider.resetFillBufferTask at hfill
  simp [hfinished] at hfill

/-- A step of the pipeline that does not call the producer. -/
theorem Produces.other (h : s.Produces p) {actor : RunPipelineImpl.Actor}
    (hactor : actor = .produce → s.pipeline.tasks 0 ≠ .receiving)
    (hstep : ((s.pipeline.step passing actor).map fun pipeline =>
      { s with pipeline := pipeline }) = some s') :
    ∃ p', p.step passing actor = some p' ∧ s'.Produces p' ∧
      s'.provider.load = s.provider.load := by
  obtain ⟨⟨rest, hprovides, rfl⟩, hended⟩ := h
  obtain ⟨pipeline, hpipeline, rfl⟩ := Option.map_eq_some_iff.mp hstep
  refine ⟨pipeline.withProduced rest, ?_, ⟨⟨rest, hprovides, rfl⟩, fun hend => ?_⟩, rfl⟩
  · rw [step_withProduced passing rest hactor, hpipeline]
    rfl
  · exact hended (ended_of_step hactor hpipeline hend)

/-- The call of the producer starts the task, or returns the next event. -/
theorem Produces.produce (h : s.Produces p) (hstep : s.produce = some s') :
    (s'.Produces p ∧ s'.provider.load < s.provider.load) ∨
      ∃ p', p.step passing .produce = some p' ∧ s'.Produces p' ∧
        s'.provider.load = s.provider.load := by
  by_cases htask : s.pipeline.tasks 0 = .receiving
  · obtain ⟨⟨rest, hprovides, rfl⟩, hended⟩ := h
    unfold ProvidedPipeline.produce at hstep
    simp only [htask] at hstep
    split_ifs at hstep with hstarted
    · rcases hprovides.pop with ⟨hexec, -⟩ | ⟨event, rest', channel, hrest, hexec, hprovides'⟩ |
        ⟨channel, hrest, hfinished, hexec, hprovides'⟩
      · rw [hexec] at hstep
        cases hstep
      · rw [hexec] at hstep
        obtain rfl := Option.some.inj hstep
        subst hrest
        refine .inr ⟨(s.pipeline.setTask 0 (.pushing event)).withProduced rest', ?_,
          ⟨⟨rest', hprovides', rfl⟩, fun hend => absurd hend Frame.not_ended_pushing⟩, rfl⟩
        change (s.pipeline.withProduced (event :: rest')).produce = _
        simp only [RunPipelineImpl.produce, withProduced_tasks, htask]
        rfl
      · rw [hexec] at hstep
        obtain rfl := Option.some.inj hstep
        subst hrest
        refine .inr ⟨(s.pipeline.setTask 0 .closing).withProduced [], ?_,
          ⟨⟨[], hprovides', rfl⟩, fun _ => hfinished⟩, rfl⟩
        change (s.pipeline.withProduced []).produce = _
        simp only [RunPipelineImpl.produce, withProduced_tasks, htask]
        rfl
    · obtain rfl := Option.some.inj hstep
      refine .inl ⟨⟨⟨rest, ⟨hprovides.inv, hprovides.receives, hprovides.feeds⟩, rfl⟩, hended⟩, ?_⟩
      simp only [BufferedEventProvider.load, hstarted]
      simp
  · refine .inr (h.other (fun _ => htask) ?_)
    rw [← hstep]
    unfold ProvidedPipeline.produce
    cases hframe : s.pipeline.tasks 0 with
    | receiving => exact absurd hframe htask
    | pushing value => rfl
    | closing => rfl
    | working value => rfl
    | finished => rfl
    | failed => rfl

/-- Each step is a step of the pipeline, or one of the provider that the pipeline does not see. -/
theorem Produces.step (h : s.Produces p) {actor : Actor} (hstep : s.step passing actor = some s') :
    (s'.Produces p ∧ s'.provider.load < s.provider.load) ∨
      ∃ actor' p', actor = .pipeline actor' ∧ p.step passing actor' = some p' ∧ s'.Produces p' ∧
        s'.provider.load = s.provider.load := by
  cases actor with
  | fill => exact .inl (h.fill hstep)
  | pipeline actor =>
    cases actor with
    | produce => exact (h.produce hstep).imp_right fun ⟨p', hp'⟩ => ⟨.produce, p', rfl, hp'⟩
    | handel index =>
      obtain ⟨p', hp'⟩ := h.other (fun hactor => by cases hactor) hstep
      exact .inr ⟨.handel index, p', rfl, hp'⟩
    | consume =>
      obtain ⟨p', hp'⟩ := h.other (fun hactor => by cases hactor) hstep
      exact .inr ⟨.consume, p', rfl, hp'⟩
    | main =>
      obtain ⟨p', hp'⟩ := h.other (fun hactor => by cases hactor) hstep
      exact .inr ⟨.main, p', rfl, hp'⟩

theorem produces_start (hsize : 0 < eventBufferSize) {ls : List Bytes}
    (hls : ReaderBuffer.deliver B content chunks = some ls) :
    Produces (start parser content chunks handlers : ProvidedPipeline B eventBufferSize capacity)
      (.start handlers (ls.filterMap parser.eventOf)) :=
  ⟨⟨_, BufferedEventProvider.provides_start hsize parser hls, rfl⟩,
    fun hend => absurd hend Frame.not_ended_receiving⟩

theorem simulates : Transition.Simulates
    (fun s : ProvidedPipeline B eventBufferSize capacity => s.step passing)
    (fun _ _ => True) (RunPipelineImpl.step passing) (fun _ _ => True) Produces := by
  intro s p actor s' h _ hstep
  rcases h.step hstep with ⟨h', -⟩ | ⟨actor', p', -, hp', h', -⟩
  · exact .inl h'
  · exact .inr ⟨actor', p', trivial, hp', h'⟩

theorem Reaches.produces (hsize : 0 < eventBufferSize) {ls : List Bytes}
    (hls : ReaderBuffer.deliver B content chunks = some ls)
    (h : Reaches passing parser content chunks handlers s) :
    ∃ p, RunPipelineImpl.Reaches passing handlers (ls.filterMap parser.eventOf) p ∧
      s.Produces p :=
  simulates.reachable (produces_start hsize hls) h

/-- In every order of the steps the consumer gets, one after the other, what the handlers let
through of the events of the lines that the reader gets, which are all lines if the file can be
delivered; no task throws, and the thread that reads the file ends before the pipeline does. -/
theorem consumed_eq_events (hsize : 0 < eventBufferSize) (hcapacity : 0 < capacity)
    (h : Reaches passing parser content chunks handlers s) :
    (s.provider.fillBufferTask ≠ .failed ∧
      (∀ i ≤ handlers.length + 1, s.pipeline.tasks i ≠ .failed) ∧ s.pipeline.main ≠ .failed) ∧
    ∃ ls, ReaderBuffer.deliver B content chunks = some ls ∧ ls <+: lines kLineEnd content ∧
      (ReaderBuffer.Deliverable B content → ls = lines kLineEnd content) ∧
      s.pipeline.consumed <+: Handler.runAll passing handlers (ls.filterMap parser.eventOf) ∧
      (s.pipeline.main = .finished → s.provider.fillBufferTask = .finished ∧
        s.pipeline.consumed = Handler.runAll passing handlers (ls.filterMap parser.eventOf)) := by
  have hpending := ReaderBuffer.pending_openFile B content chunks
  obtain ⟨ls, hls, hprefix, -⟩ := ReaderBuffer.exists_readAll
    (ReaderBuffer.inv_openFile B content chunks) (Nat.lt_succ_self _)
  rw [hpending] at hls hprefix
  obtain ⟨p, hp, hproduces⟩ := h.produces hsize hls
  obtain ⟨rest, hprovides, rfl⟩ := hproduces.provides
  obtain ⟨through, handled, hflows⟩ := hp.flows hcapacity
  obtain ⟨_, _, _, _, hlink, -⟩ := hprovides.feeds
  have hsofar := hp.consumed_isPrefix hcapacity
  have hconsumed := hp.consumed_eq hcapacity
  refine ⟨⟨hlink.writer_ne, fun i => hflows.task_ne, hflows.main_ne⟩, ls, hls, hprefix, ?_, hsofar,
    fun hfinished => ⟨?_, hconsumed hfinished⟩⟩
  · intro hdeliverable
    have hall := ReaderBuffer.deliver_of_deliverable hdeliverable chunks
    exact Option.some.inj (hls.symm.trans hall)
  · have hfirst : s.pipeline.tasks 0 = .finished :=
      hflows.awaited 0 (Nat.zero_le _) (hfinished ▸ trivial)
    exact hproduces.ended (.inr hfirst)

/-- A log of gem5 with one line. -/
def processInEventLog : Bytes := bytes "1:global:simbricks:processInEvent\n"

def gem5Log : Parser := .gem5 ⟨⟨bytes "gem5", 3⟩, ∅, []⟩

/-- The event is read, pushed, popped, passed on and consumed. -/
def untilConsumed : List Actor :=
  [.pipeline .produce, .fill, .fill, .pipeline .produce, .pipeline .produce, .pipeline .consume,
    .pipeline .consume]

theorem follow_untilConsumed : ∃ s : ProvidedPipeline 40 1 1,
    Transition.follow (step .byValue) (fun _ _ => True)
      (start gem5Log processInEventLog (fun _ => 8) []) untilConsumed = some s ∧
      s.pipeline.consumed.length = 1 := by
  have hrun : ((Transition.follow (step .byValue) (fun _ _ => True)
      (start gem5Log processInEventLog (fun _ => 8) [] : ProvidedPipeline 40 1 1)
        untilConsumed).map fun s => s.pipeline.consumed.length) = some 1 := by
    decide +kernel
  exact Option.map_eq_some_iff.mp hrun

theorem consumed_eq_events_processInEvent : ∃ s : ProvidedPipeline 40 1 1,
    Reaches .byValue gem5Log processInEventLog (fun _ => 8) [] s ∧
      s.pipeline.consumed = [⟨1, 3, bytes "gem5", .simProcInEvent⟩] := by
  obtain ⟨s, hs, hlength⟩ := follow_untilConsumed
  have hreaches : Reaches .byValue gem5Log processInEventLog (fun _ => 8) [] s :=
    Transition.Reachable.refl.follow hs
  obtain ⟨-, ls, hls, -, -, hprefix, -⟩ :=
    consumed_eq_events Nat.one_pos Nat.one_pos hreaches
  have hdeliver : ReaderBuffer.deliver 40 processInEventLog (fun _ => 8) =
      some [bytes "1:global:simbricks:processInEvent"] := by
    decide +kernel
  obtain rfl := Option.some.inj (hls.symm.trans hdeliver)
  have hevents : [bytes "1:global:simbricks:processInEvent"].filterMap gem5Log.eventOf =
      [⟨1, 3, bytes "gem5", .simProcInEvent⟩] := by
    decide +kernel
  refine ⟨s, hreaches, ?_⟩
  rw [hevents] at hprefix
  exact hprefix.eq_of_length hlength

theorem load_start {α : Type} (handlers : List (Handler α)) (values : List α) :
    (RunPipelineImpl.start handlers values : RunPipelineImpl α capacity).load =
      values.length * (3 * handlers.length + 4) + 4 * (handlers.length + 2) := by
  have htasks : (RunPipelineImpl.start handlers values : RunPipelineImpl α capacity).taskLoads =
      (handlers.length + 2) * 2 := by
    simp [taskLoads, RunPipelineImpl.start, frameLoad]
  have hchannels : (RunPipelineImpl.start handlers values :
      RunPipelineImpl α capacity).channelLoads = 0 := by
    simp [channelLoads, RunPipelineImpl.start]
  rw [RunPipelineImpl.load, htasks, hchannels]
  simp only [RunPipelineImpl.start, mainLoad]
  omega

/-- What a run from the state can still do. -/
def Left (passing : Passing) (handlers : List (Handler Event)) (events : List Event)
    (s : ProvidedPipeline B eventBufferSize capacity) (n : ℕ) : Prop :=
  ∃ p, RunPipelineImpl.Reaches passing handlers events p ∧ s.Produces p ∧
    n = s.provider.load + p.load

theorem Left.step (hcapacity : 0 < capacity) {n : ℕ} {actor : Actor}
    (h : Left passing handlers events s n) (hstep : s.step passing actor = some s') :
    ∃ m < n, Left passing handlers events s' m := by
  obtain ⟨p, hp, hproduces, rfl⟩ := h
  rcases hproduces.step hstep with ⟨h', hload⟩ | ⟨actor', p', -, hp', h', hload⟩
  · exact ⟨_, by omega, p, hp, h', rfl⟩
  · obtain ⟨through, handled, hflows⟩ := hp.flows hcapacity
    have hless := hflows.step_load hp'
    exact ⟨_, by omega, p', hp.tail trivial hp', h', rfl⟩

/-- While the pipeline waits for an event, the provider can go on. -/
theorem Produces.progress (h : s.Produces p) (hsize : 0 < eventBufferSize)
    {actor : RunPipelineImpl.Actor} {p' : RunPipelineImpl Event capacity}
    (hstep : p.step passing actor = some p') : ∃ actor' s', s.step passing actor' = some s' := by
  obtain ⟨⟨rest, hprovides, rfl⟩, -⟩ := h
  by_cases hcall : actor = .produce ∧ s.pipeline.tasks 0 = .receiving
  · obtain ⟨rfl, htask⟩ := hcall
    have hproduce : s.step passing (.pipeline .produce) = s.produce := rfl
    unfold ProvidedPipeline.produce at hproduce
    simp only [htask] at hproduce
    by_cases hstarted : s.provider.startedFillTask = true
    · rw [if_pos hstarted] at hproduce
      rcases hprovides.pop with ⟨-, hfill⟩ | ⟨event, rest', channel, -, hexec, -⟩ |
        ⟨channel, -, -, hexec, -⟩
      · obtain ⟨provider, hprovider⟩ := hfill hstarted hsize
        refine ⟨.fill, { s with provider := provider }, ?_⟩
        rw [ProvidedPipeline.step, hprovider]
        rfl
      · rw [hexec] at hproduce
        exact ⟨_, _, hproduce⟩
      · rw [hexec] at hproduce
        exact ⟨_, _, hproduce⟩
    · rw [if_neg hstarted] at hproduce
      exact ⟨_, _, hproduce⟩
  · have hother : actor = .produce → s.pipeline.tasks 0 ≠ .receiving :=
      fun hactor htask => hcall ⟨hactor, htask⟩
    rw [step_withProduced passing rest hother] at hstep
    obtain ⟨pipeline, hpipeline, -⟩ := Option.map_eq_some_iff.mp hstep
    refine ⟨.pipeline actor, { s with pipeline := pipeline }, ?_⟩
    cases actor with
    | produce =>
      have hne := hother rfl
      change s.pipeline.produce = some pipeline at hpipeline
      change s.produce = _
      unfold ProvidedPipeline.produce
      cases hframe : s.pipeline.tasks 0 with
      | receiving => exact absurd hframe hne
      | pushing value => simp only [hpipeline]; rfl
      | closing => simp only [hpipeline]; rfl
      | working value => simp only [hpipeline]; rfl
      | finished => simp only [hpipeline]; rfl
      | failed => simp only [hpipeline]; rfl
    | handel index => simp only [ProvidedPipeline.step, hpipeline]; rfl
    | consume => simp only [ProvidedPipeline.step, hpipeline]; rfl
    | main => simp only [ProvidedPipeline.step, hpipeline]; rfl

/-- Whatever the file holds and however the reads cut it up: a run has only so many steps, and it
cannot stop before the pipeline has finished. -/
theorem ends_in_steps (hsize : 0 < eventBufferSize) (hcapacity : 0 < capacity) (passing : Passing)
    (parser : Parser) (content : Bytes) (chunks : ℕ → ℕ) (handlers : List (Handler Event))
    {actors : List Actor} {s : ProvidedPipeline B eventBufferSize capacity}
    (h : Transition.follow (step passing) (fun _ _ => True) (start parser content chunks handlers)
      actors = some s) :
    actors.length ≤ content.length * (3 * handlers.length + 7) + 4 * handlers.length + 11 ∧
      (s.pipeline.main = .finished ∨ ∃ actor s', s.step passing actor = some s') := by
  have hpending := ReaderBuffer.pending_openFile B content chunks
  obtain ⟨ls, hls, -, hle⟩ := ReaderBuffer.exists_readAll
    (ReaderBuffer.inv_openFile B content chunks) (Nat.lt_succ_self _)
  rw [hpending] at hls hle
  have hstart : Left passing handlers (ls.filterMap parser.eventOf)
      (start parser content chunks handlers : ProvidedPipeline B eventBufferSize capacity) _ :=
    ⟨_, .refl, produces_start hsize hls, rfl⟩
  obtain ⟨n, ⟨p, hp, hproduces, rfl⟩, hlength⟩ := Transition.length_follow
    (fun hleft _ hstep => hleft.step hcapacity hstep) hstart h
  refine ⟨?_, ?_⟩
  · have hevents : (ls.filterMap parser.eventOf).length ≤ content.length :=
      (List.length_filterMap_le _ _).trans hle
    have hmul := Nat.mul_le_mul_right (3 * handlers.length + 4) hevents
    have hprovider : (start parser content chunks handlers :
        ProvidedPipeline B eventBufferSize capacity).provider.load = 3 * content.length + 3 := by
      simp only [start, BufferedEventProvider.load, hpending]
      simp
      omega
    rw [hprovider, load_start] at hlength
    have hsum : content.length * (3 * handlers.length + 7) =
        content.length * (3 * handlers.length + 4) + 3 * content.length := by ring
    omega
  · by_cases hmain : s.pipeline.main = .finished
    · exact .inl hmain
    · obtain ⟨through, handled, hflows⟩ := hp.flows hcapacity
      obtain ⟨rest, -, hrest⟩ := hproduces.provides
      obtain ⟨actor, p', hstep⟩ := hflows.progress (hp.placed hcapacity) hcapacity
        (by rw [hrest]; exact hmain)
      exact .inr (hproduces.progress hsize hstep)

theorem ends_in_steps_processInEvent : ∃ s : ProvidedPipeline 40 1 1,
    Reaches .byValue gem5Log processInEventLog (fun _ => 8) [] s ∧
      (s.pipeline.main = .finished ∨ ∃ actor s', s.step .byValue actor = some s') := by
  obtain ⟨s, hs, -⟩ := follow_untilConsumed
  have hends := ends_in_steps Nat.one_pos Nat.one_pos .byValue gem5Log processInEventLog
    (fun _ => 8) [] hs
  exact ⟨s, Transition.Reachable.refl.follow hs, hends.2⟩

end ProvidedPipeline

end Columbo
