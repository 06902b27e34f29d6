import Columbo.PipelineRuns
import Mathlib.Algebra.BigOperators.Group.Finset.Basic

/-!
# Every run of a pipeline ends

A pipeline that has not finished has a coroutine that can go on, and every step leaves less
work: a value is worth the places that it still has to pass.
-/
namespace Columbo.RunPipelineImpl

open scoped BigOperators

variable {α : Type} {capacity : Nat} {passing : Passing} {handlers : List (Handler α)}
  {values : List α} {s s' : RunPipelineImpl α capacity} {through handled : Nat → List α}

/-- The steps that a task still needs for its value, if the value passes, and to finish;
`rest` is the number of tasks after it. -/
def frameLoad (rest : Nat) : Frame α → Nat
  | .receiving => 2
  | .working _ => 3 + 3 * rest
  | .pushing _ => 2 + 3 * rest
  | .closing => 1
  | .finished => 0
  | .failed => 0

def mainLoad (tasks : Nat) : MainFrame → Nat
  | .task index => 2 * (tasks - index)
  | .close index => 2 * (tasks - index) - 1
  | .finished => 0
  | .failed => 0

def taskLoads (s : RunPipelineImpl α capacity) : Nat :=
  ∑ i ∈ Finset.range (s.handlers.length + 2), frameLoad (s.handlers.length + 1 - i) (s.tasks i)

def channelLoads (s : RunPipelineImpl α capacity) : Nat :=
  ∑ i ∈ Finset.range (s.handlers.length + 1),
    (s.channels i).size * (3 * (s.handlers.length - i) + 2)

def load (s : RunPipelineImpl α capacity) : Nat :=
  s.produced.length * (3 * s.handlers.length + 4) + s.taskLoads + s.channelLoads +
    mainLoad (s.handlers.length + 2) s.main

theorem sum_update {n k : Nat} (hk : k < n) {f g : Nat → Nat} (hfg : ∀ i, i ≠ k → f i = g i) :
    ∑ i ∈ Finset.range n, f i + g k = ∑ i ∈ Finset.range n, g i + f k := by
  have hmem : k ∈ Finset.range n := Finset.mem_range.mpr hk
  have hrest : ∑ i ∈ (Finset.range n).erase k, f i = ∑ i ∈ (Finset.range n).erase k, g i :=
    Finset.sum_congr rfl fun i hi => hfg i (Finset.ne_of_mem_erase hi)
  rw [← Finset.add_sum_erase _ f hmem, ← Finset.add_sum_erase _ g hmem, hrest]
  omega

theorem taskLoads_setTask {j : Nat} (hj : j ≤ s.handlers.length + 1) (frame : Frame α) :
    (s.setTask j frame).taskLoads + frameLoad (s.handlers.length + 1 - j) (s.tasks j) =
      s.taskLoads + frameLoad (s.handlers.length + 1 - j) frame := by
  have hsum := sum_update (k := j) (n := s.handlers.length + 2)
    (f := fun i => frameLoad (s.handlers.length + 1 - i) ((s.setTask j frame).tasks i))
    (g := fun i => frameLoad (s.handlers.length + 1 - i) (s.tasks i)) (by omega) ?_
  · simpa [taskLoads, setTask] using hsum
  · intro i hi
    simp [setTask, hi]

theorem channelLoads_setChannel {k : Nat} (hk : k ≤ s.handlers.length)
    (channel : CoroBoundedChannel α capacity) : (s.setChannel k channel).channelLoads +
        (s.channels k).size * (3 * (s.handlers.length - k) + 2) =
      s.channelLoads + channel.size * (3 * (s.handlers.length - k) + 2) := by
  have hsum := sum_update (k := k) (n := s.handlers.length + 1)
    (f := fun i => ((s.setChannel k channel).channels i).size * (3 * (s.handlers.length - i) + 2))
    (g := fun i => (s.channels i).size * (3 * (s.handlers.length - i) + 2)) (by omega) ?_
  · simpa [channelLoads, setChannel] using hsum
  · intro i hi
    simp [setChannel, hi]

theorem load_resume {j k : Nat} (hj : j ≤ s.handlers.length + 1) (hk : k ≤ s.handlers.length)
    (channel : CoroBoundedChannel α capacity) (frame : Frame α) :
    ((s.setChannel k channel).setTask j frame).load +
        frameLoad (s.handlers.length + 1 - j) (s.tasks j) +
        (s.channels k).size * (3 * (s.handlers.length - k) + 2) =
      s.load + frameLoad (s.handlers.length + 1 - j) frame +
        channel.size * (3 * (s.handlers.length - k) + 2) := by
  have htasks := taskLoads_setTask (s := s.setChannel k channel) hj frame
  have hchannels := channelLoads_setChannel hk channel
  simp only [load, setTask, setChannel, taskLoads, channelLoads] at htasks hchannels ⊢
  omega

theorem Flows.await_push_load (h : Flows passing handlers values through handled s) {j : Nat}
    {value : α} (hj : j ≤ handlers.length) (htask : s.tasks j = .pushing value)
    (hstep : s.await j j (.push value) afterPush = some s') : s'.load < s.load := by
  have hlength := h.length_eq
  obtain ⟨buffered, hlink⟩ := h.links j hj
  have hsize := hlink.represents.size
  unfold await at hstep
  rcases (htask ▸ hlink).push with ⟨hexec, -⟩ | ⟨channel', hexec, hlink'⟩
  · rw [hexec] at hstep
    cases hstep
  · rw [hexec] at hstep
    obtain rfl := Option.some.inj hstep
    have hsize' : channel'.size = (s.channels j).size + 1 := by
      rw [hlink'.represents.size, hsize]
      simp
    change ((s.setChannel j channel').setTask j .receiving).load < s.load
    have hload := load_resume (s := s) (j := j) (k := j) (by omega) (by omega) channel' .receiving
    rw [htask, hsize', Nat.add_one_mul (s.channels j).size] at hload
    simp only [frameLoad] at hload
    omega

theorem Flows.await_close_load (h : Flows passing handlers values through handled s) {j : Nat}
    (hj : j ≤ handlers.length) (htask : s.tasks j = .closing)
    (hstep : s.await j j .closeChannel (fun _ => .finished) = some s') : s'.load < s.load := by
  have hlength := h.length_eq
  obtain ⟨buffered, hlink⟩ := h.links j hj
  obtain ⟨channel', hexec, hlink'⟩ := hlink.close (.inl htask)
  unfold await at hstep
  rw [hexec] at hstep
  obtain rfl := Option.some.inj hstep
  have hsize' : channel'.size = (s.channels j).size := by
    rw [hlink'.represents.size, hlink.represents.size]
  change ((s.setChannel j channel').setTask j .finished).load < s.load
  have hload := load_resume (s := s) (j := j) (k := j) (by omega) (by omega) channel' .finished
  rw [htask, hsize'] at hload
  simp only [frameLoad] at hload
  omega

theorem Flows.await_pop_load (h : Flows passing handlers values through handled s) {i : Nat}
    {ended : Frame α} (hi : i ≤ handlers.length) (htask : s.tasks (i + 1) = .receiving)
    (hended : ended.Ended)
    (hstep : s.await (i + 1) i .pop (fun value => value.elim ended .working) = some s') :
    s'.load < s.load := by
  have hlength := h.length_eq
  obtain ⟨buffered, hlink⟩ := h.links i hi
  have hsize := hlink.represents.size
  unfold await at hstep
  rcases (htask ▸ hlink).pop with ⟨hexec, -⟩ | ⟨value, rest, channel', hbuffered, hexec, hlink'⟩ |
    ⟨channel', hbuffered, hexec, hlink'⟩
  · rw [hexec] at hstep
    cases hstep
  · rw [hexec] at hstep
    obtain rfl := Option.some.inj hstep
    change ((s.setChannel i channel').setTask (i + 1) (.working value)).load < s.load
    have hsize' : (s.channels i).size = channel'.size + 1 := by
      rw [hlink'.represents.size, hsize, hbuffered]
      rfl
    have hload := load_resume (s := s) (j := i + 1) (k := i) (by omega) (by omega) channel'
      (.working value)
    rw [htask, hsize', Nat.add_one_mul channel'.size] at hload
    simp only [frameLoad] at hload
    omega
  · rw [hexec] at hstep
    obtain rfl := Option.some.inj hstep
    change ((s.setChannel i channel').setTask (i + 1) ended).load < s.load
    have hsize' : channel'.size = (s.channels i).size := by
      rw [(hlink' .receiving rfl (by simp)).represents.size, hsize, hbuffered]
    have hload := load_resume (s := s) (j := i + 1) (k := i) (by omega) (by omega) channel' ended
    rw [htask, hsize'] at hload
    rcases hended with rfl | rfl
    · simp only [frameLoad] at hload
      omega
    · simp only [frameLoad] at hload
      omega

/-- Only the frame of a task changes, besides what the producer, the handlers and the consumer
have. -/
theorem load_setTask_lt (s : RunPipelineImpl α capacity) (produced : List α)
    (handlers : List (Handler α)) (consumed : List α) {j : Nat} (frame : Frame α)
    (hlength : handlers.length = s.handlers.length) (hj : j ≤ s.handlers.length + 1)
    (hless : produced.length * (3 * s.handlers.length + 4) +
        frameLoad (s.handlers.length + 1 - j) frame <
      s.produced.length * (3 * s.handlers.length + 4) +
        frameLoad (s.handlers.length + 1 - j) (s.tasks j)) :
    (setTask { s with produced := produced, handlers := handlers, consumed := consumed } j
      frame).load < s.load := by
  have htasks := taskLoads_setTask hj frame
  simp only [load, setTask, taskLoads, channelLoads, hlength] at htasks ⊢
  omega

theorem Flows.produce_load (h : Flows passing handlers values through handled s)
    (hstep : s.produce = some s') : s'.load < s.load := by
  unfold RunPipelineImpl.produce at hstep
  cases htask : s.tasks 0 with
  | receiving =>
    cases hproduced : s.produced with
    | nil =>
      simp only [htask, hproduced, Option.some.injEq] at hstep
      obtain rfl := hstep
      refine load_setTask_lt s s.produced s.handlers s.consumed .closing rfl (Nat.zero_le _) ?_
      simp [htask, frameLoad]
    | cons value rest =>
      simp only [htask, hproduced, Option.some.injEq] at hstep
      obtain rfl := hstep
      refine load_setTask_lt s rest s.handlers s.consumed (.pushing value) rfl (Nat.zero_le _) ?_
      rw [htask, hproduced, List.length_cons, Nat.add_one_mul rest.length]
      simp only [frameLoad]
      omega
  | pushing value =>
    simp only [htask] at hstep
    exact h.await_push_load (Nat.zero_le _) htask hstep
  | closing =>
    simp only [htask] at hstep
    exact h.await_close_load (Nat.zero_le _) htask hstep
  | _ => simp [htask] at hstep

theorem Flows.handel_load (h : Flows passing handlers values through handled s) {i : Nat}
    (hstep : s.handel passing i = some s') : s'.load < s.load := by
  unfold RunPipelineImpl.handel at hstep
  cases hhandler : s.handlers[i]? with
  | none => simp [hhandler] at hstep
  | some handler =>
    have hi : i < handlers.length := by
      rw [← h.length_eq]
      exact (List.getElem?_eq_some_iff.mp hhandler).1
    cases htask : s.tasks (i + 1) with
    | receiving =>
      simp only [hhandler, htask] at hstep
      exact h.await_pop_load hi.le htask (.inl rfl) hstep
    | working value =>
      simp only [hhandler, htask, Option.some.injEq] at hstep
      obtain rfl := hstep
      have hlength := h.length_eq
      refine load_setTask_lt s s.produced _ s.consumed _ List.length_set (by omega) ?_
      rw [htask]
      split_ifs
      · simp only [frameLoad]
        omega
      · simp only [frameLoad]
        omega
    | pushing value =>
      simp only [hhandler, htask] at hstep
      exact h.await_push_load hi htask hstep
    | closing =>
      simp only [hhandler, htask] at hstep
      exact h.await_close_load hi htask hstep
    | _ => simp [hhandler, htask] at hstep

theorem Flows.consume_load (h : Flows passing handlers values through handled s)
    (hstep : s.consume = some s') : s'.load < s.load := by
  have hlength : s.amountChannels = handlers.length + 1 := by rw [amountChannels, h.length_eq]
  unfold RunPipelineImpl.consume at hstep
  rw [hlength, h.length_eq] at hstep
  cases htask : s.tasks (handlers.length + 1) with
  | receiving =>
    simp only [htask] at hstep
    exact h.await_pop_load le_rfl htask (.inr rfl) hstep
  | working value =>
    simp only [htask, Option.some.injEq] at hstep
    obtain rfl := hstep
    refine load_setTask_lt s s.produced s.handlers (s.consumed ++ [value]) .receiving rfl
      (by rw [h.length_eq]) ?_
    rw [htask]
    simp only [frameLoad]
    omega
  | _ => simp [htask] at hstep

theorem Flows.awaitTasks_load (h : Flows passing handlers values through handled s)
    (hstep : s.awaitTasks = some s') : s'.load < s.load := by
  have hlength : s.amountChannels = handlers.length + 1 := by rw [amountChannels, h.length_eq]
  unfold RunPipelineImpl.awaitTasks at hstep
  cases hmain : s.main with
  | task index =>
    have hindex := h.task_le index hmain
    cases htask : s.tasks index with
    | finished =>
      simp only [hmain, htask, Option.some.injEq, hlength] at hstep
      obtain rfl := hstep
      have hlength' := h.length_eq
      simp only [load, taskLoads, channelLoads, hmain]
      split_ifs
      · simp only [mainLoad]
        omega
      · simp only [mainLoad]
        omega
    | failed => exact absurd htask (h.task_ne hindex)
    | _ => simp [hmain, htask] at hstep
  | close index =>
    have hindex := h.close_le index hmain
    have hlength' := h.length_eq
    have hfinished : s.tasks index = .finished := h.awaited index (by omega) (hmain ▸ le_rfl)
    obtain ⟨buffered, hlink⟩ := h.links index hindex
    obtain ⟨channel', hexec, hlink'⟩ := hlink.close (.inr hfinished)
    simp only [hmain, hexec, Option.some.injEq] at hstep
    obtain rfl := hstep
    have hsize : channel'.size = (s.channels index).size := by
      rw [hlink'.represents.size, hlink.represents.size]
    have hloads := channelLoads_setChannel (s := s) (k := index) (by omega) channel'
    rw [hsize] at hloads
    simp only [load, taskLoads, channelLoads, setChannel, hmain, mainLoad] at hloads ⊢
    omega
  | _ => simp [hmain] at hstep

/-- Every step leaves less to do. -/
theorem Flows.step_load (h : Flows passing handlers values through handled s) {actor : Actor}
    (hstep : s.step passing actor = some s') : s'.load < s.load := by
  cases actor with
  | produce => exact h.produce_load hstep
  | handel index => exact h.handel_load hstep
  | consume => exact h.consume_load hstep
  | main => exact h.awaitTasks_load hstep

/-- The producer does no work on values, and the consumer neither pushes nor closes. -/
structure Placed (last : Nat) (tasks : Nat → Frame α) : Prop where
  first_received : (tasks 0).received = []
  last_sent : (tasks last).sent = []
  last_ne : tasks last ≠ .closing

theorem Placed.setTask {last j : Nat} {frame : Frame α} (h : Placed last s.tasks)
    (hfirst : j = 0 → frame.received = [])
    (hlast : j = last → frame.sent = [] ∧ frame ≠ .closing) :
    Placed last (s.setTask j frame).tasks := by
  constructor
  · by_cases hj : 0 = j
    · simpa [RunPipelineImpl.setTask, hj] using hfirst hj.symm
    · simpa [RunPipelineImpl.setTask, hj] using h.first_received
  · by_cases hj : last = j
    · simpa [RunPipelineImpl.setTask, hj] using (hlast hj.symm).1
    · simpa [RunPipelineImpl.setTask, hj] using h.last_sent
  · by_cases hj : last = j
    · simpa [RunPipelineImpl.setTask, hj] using (hlast hj.symm).2
    · simpa [RunPipelineImpl.setTask, hj] using h.last_ne

theorem Placed.await {last j k : Nat} {c : ChannelCall α} {resume : c.Response → Frame α}
    (h : Placed last s.tasks) (hfirst : j = 0 → ∀ r, (resume r).received = [])
    (hlast : j = last → ∀ r, (resume r).sent = [] ∧ resume r ≠ .closing)
    (hstep : s.await j k c resume = some s') : Placed last s'.tasks := by
  unfold RunPipelineImpl.await at hstep
  cases hexec : (s.channels k).exec c with
  | error stop =>
    cases stop with
    | waits => simp [hexec] at hstep
    | fails =>
      simp only [hexec, Option.some.injEq] at hstep
      obtain rfl := hstep
      exact h.setTask (fun _ => rfl) fun _ => ⟨rfl, by simp⟩
  | ok result =>
    simp only [hexec, Option.some.injEq] at hstep
    obtain rfl := hstep
    exact Placed.setTask (s := s.setChannel k result.2) h (fun hj => hfirst hj result.1)
      fun hj => hlast hj result.1

theorem received_afterPush (couldPush : Bool) : (afterPush couldPush : Frame α).received = [] := by
  cases couldPush <;> rfl

theorem Placed.produce {last : Nat} (h : Placed (last + 1) s.tasks) (hstep : s.produce = some s') :
    Placed (last + 1) s'.tasks := by
  unfold RunPipelineImpl.produce at hstep
  cases htask : s.tasks 0 with
  | receiving =>
    cases hproduced : s.produced with
    | nil =>
      simp only [htask, hproduced, Option.some.injEq] at hstep
      obtain rfl := hstep
      exact h.setTask (fun _ => rfl) (by omega)
    | cons value rest =>
      simp only [htask, hproduced, Option.some.injEq] at hstep
      obtain rfl := hstep
      exact h.setTask (fun _ => rfl) (by omega)
  | pushing value =>
    simp only [htask] at hstep
    exact h.await (c := .push value) (fun _ => received_afterPush) (by omega) hstep
  | closing =>
    simp only [htask] at hstep
    exact h.await (fun _ _ => rfl) (by omega) hstep
  | _ => simp [htask] at hstep

theorem Placed.handel {i : Nat} (h : Placed (s.handlers.length + 1) s.tasks)
    (hstep : s.handel passing i = some s') : Placed (s.handlers.length + 1) s'.tasks := by
  unfold RunPipelineImpl.handel at hstep
  cases hhandler : s.handlers[i]? with
  | none => simp [hhandler] at hstep
  | some handler =>
    have hi : i < s.handlers.length := (List.getElem?_eq_some_iff.mp hhandler).1
    cases htask : s.tasks (i + 1) with
    | receiving =>
      simp only [hhandler, htask] at hstep
      exact h.await (by omega) (by omega) hstep
    | working value =>
      simp only [hhandler, htask, Option.some.injEq] at hstep
      obtain rfl := hstep
      exact h.setTask (by omega) (by omega)
    | pushing value =>
      simp only [hhandler, htask] at hstep
      exact h.await (by omega) (by omega) hstep
    | closing =>
      simp only [hhandler, htask] at hstep
      exact h.await (by omega) (by omega) hstep
    | _ => simp [hhandler, htask] at hstep

theorem Placed.consume (h : Placed (s.handlers.length + 1) s.tasks) (hstep : s.consume = some s') :
    Placed (s.handlers.length + 1) s'.tasks := by
  unfold RunPipelineImpl.consume amountChannels at hstep
  cases htask : s.tasks (s.handlers.length + 1) with
  | receiving =>
    simp only [htask] at hstep
    refine h.await (by omega) (fun _ value => ?_) hstep
    cases value <;> simp [Frame.sent]
  | working value =>
    simp only [htask, Option.some.injEq] at hstep
    obtain rfl := hstep
    exact h.setTask (by omega) fun _ => ⟨rfl, by simp⟩
  | _ => simp [htask] at hstep

theorem Placed.step {actor : Actor} (h : Placed (s.handlers.length + 1) s.tasks)
    (hstep : s.step passing actor = some s') : Placed (s.handlers.length + 1) s'.tasks := by
  cases actor with
  | produce => exact h.produce hstep
  | handel index => exact h.handel hstep
  | consume => exact h.consume hstep
  | main =>
    have hstep : s.awaitTasks = some s' := hstep
    unfold RunPipelineImpl.awaitTasks at hstep
    split at hstep
    · split at hstep
      · obtain rfl := Option.some.inj hstep
        exact h
      · obtain rfl := Option.some.inj hstep
        exact h
      · cases hstep
    · split at hstep
      · cases hstep
      · obtain rfl := Option.some.inj hstep
        exact h
    · cases hstep

theorem await_ok {j k : Nat} {c : ChannelCall α} {resume : c.Response → Frame α} {r : c.Response}
    {channel' : CoroBoundedChannel α capacity} (hexec : (s.channels k).exec c = .ok (r, channel')) :
    s.await j k c resume = some ((s.setChannel k channel').setTask j (resume r)) := by
  simp only [RunPipelineImpl.await, hexec]

theorem Flows.exists_push (h : Flows passing handlers values through handled s) {j : Nat}
    {value : α} (hj : j ≤ handlers.length) (htask : s.tasks j = .pushing value)
    (hroom : (s.channels j).size < capacity) :
    ∃ s', s.await j j (.push value) afterPush = some s' := by
  obtain ⟨buffered, hlink⟩ := h.links j hj
  have hsize := hlink.represents.size
  rcases (htask ▸ hlink).push with ⟨-, hfull⟩ | ⟨channel', hexec, -⟩
  · dsimp only at hsize
    omega
  · exact ⟨_, await_ok hexec⟩

theorem Flows.exists_close (h : Flows passing handlers values through handled s) {j : Nat}
    (hj : j ≤ handlers.length) (htask : s.tasks j = .closing) :
    ∃ s', s.await j j .closeChannel (fun _ => .finished) = some s' := by
  obtain ⟨buffered, hlink⟩ := h.links j hj
  obtain ⟨channel', hexec, -⟩ := hlink.close (.inl htask)
  exact ⟨_, await_ok hexec⟩

/-- A task waits for a value only while the task before it is not finished. -/
theorem Flows.exists_pop (h : Flows passing handlers values through handled s) {i : Nat}
    {ended : Frame α} (hi : i ≤ handlers.length) (htask : s.tasks (i + 1) = .receiving) :
    (∃ s', s.await (i + 1) i .pop (fun value => value.elim ended .working) = some s') ∨
      s.tasks i ≠ .finished ∧ (s.channels i).size = 0 := by
  obtain ⟨buffered, hlink⟩ := h.links i hi
  have hsize := hlink.represents.size
  rcases (htask ▸ hlink).pop with ⟨-, hbuffered, hactive⟩ | ⟨value, rest, channel', -, hexec, -⟩ |
    ⟨channel', -, hexec, -⟩
  · right
    rw [hbuffered] at hsize
    exact ⟨hactive, hsize⟩
  · exact .inl ⟨_, await_ok hexec⟩
  · exact .inl ⟨_, await_ok hexec⟩

theorem Flows.progress_produce (h : Flows passing handlers values through handled s)
    (hreceived : (s.tasks 0).received = []) (hactive : s.tasks 0 ≠ .finished)
    (hroom : ∀ value, s.tasks 0 = .pushing value → (s.channels 0).size < capacity) :
    ∃ s', s.produce = some s' := by
  unfold RunPipelineImpl.produce
  cases htask : s.tasks 0 with
  | receiving => cases s.produced <;> exact ⟨_, rfl⟩
  | working value => simp [htask, Frame.received] at hreceived
  | pushing value => exact h.exists_push (Nat.zero_le _) htask (hroom value htask)
  | closing => exact h.exists_close (Nat.zero_le _) htask
  | finished => exact absurd htask hactive
  | failed => exact absurd htask (h.task_ne (Nat.zero_le _))

theorem Flows.progress_handel (h : Flows passing handlers values through handled s) {i : Nat}
    (hi : i < handlers.length) (hactive : s.tasks (i + 1) ≠ .finished)
    (hroom : ∀ value, s.tasks (i + 1) = .pushing value → (s.channels (i + 1)).size < capacity) :
    (∃ s', s.handel passing i = some s') ∨ s.tasks i ≠ .finished ∧ (s.channels i).size = 0 := by
  obtain ⟨handler, hhandler⟩ : ∃ handler, s.handlers[i]? = some handler :=
    ⟨_, List.getElem?_eq_getElem (h.length_eq ▸ hi)⟩
  unfold RunPipelineImpl.handel
  rw [hhandler]
  cases htask : s.tasks (i + 1) with
  | receiving => exact h.exists_pop hi.le htask
  | working value => exact .inl ⟨_, rfl⟩
  | pushing value => exact .inl (h.exists_push hi htask (hroom value htask))
  | closing => exact .inl (h.exists_close hi htask)
  | finished => exact absurd htask hactive
  | failed => exact absurd htask (h.task_ne (by omega))

theorem Flows.progress_consume (h : Flows passing handlers values through handled s)
    (hplaced : Placed (handlers.length + 1) s.tasks)
    (hactive : s.tasks (handlers.length + 1) ≠ .finished) :
    (∃ s', s.consume = some s') ∨
      s.tasks handlers.length ≠ .finished ∧ (s.channels handlers.length).size = 0 := by
  unfold RunPipelineImpl.consume amountChannels
  rw [h.length_eq]
  have hsent := hplaced.last_sent
  cases htask : s.tasks (handlers.length + 1) with
  | receiving => exact h.exists_pop le_rfl htask
  | working value => exact .inl ⟨_, rfl⟩
  | pushing value => simp [htask, Frame.sent] at hsent
  | closing => exact absurd htask hplaced.last_ne
  | finished => exact absurd htask hactive
  | failed => exact absurd htask (h.task_ne le_rfl)

/-- A task that is not finished can go on, or one before it can, unless it waits for room. -/
theorem Flows.task_progress (h : Flows passing handlers values through handled s)
    (hplaced : Placed (handlers.length + 1) s.tasks) (hcapacity : 0 < capacity) {j : Nat}
    (hj : j ≤ handlers.length + 1) (hactive : s.tasks j ≠ .finished)
    (hroom : ∀ value, s.tasks j = .pushing value → (s.channels j).size < capacity) :
    ∃ actor s', s.step passing actor = some s' := by
  induction j with
  | zero => exact ⟨.produce, h.progress_produce hplaced.first_received hactive hroom⟩
  | succ i ih =>
    have hbefore : s.tasks i ≠ .finished ∧ (s.channels i).size = 0 →
        ∃ actor s', s.step passing actor = some s' := by
      rintro ⟨hactive', hempty⟩
      exact ih (by omega) hactive' fun value _ => hempty ▸ hcapacity
    by_cases hi : i < handlers.length
    · rcases h.progress_handel hi hactive hroom with hstep | hwaits
      · exact ⟨.handel i, hstep⟩
      · exact hbefore hwaits
    · obtain rfl : i = handlers.length := by omega
      rcases h.progress_consume hplaced hactive with hstep | hwaits
      · exact ⟨.consume, hstep⟩
      · exact hbefore hwaits

/-- The last task that is not finished. -/
theorem exists_last_active {last j : Nat} (hj : j ≤ last) (hactive : s.tasks j ≠ .finished) :
    ∃ i ≤ last, s.tasks i ≠ .finished ∧ (i = last ∨ s.tasks (i + 1) = .finished) := by
  induction hrest : last - j generalizing j with
  | zero => exact ⟨j, hj, hactive, .inl (by omega)⟩
  | succ rest ih =>
    by_cases hnext : s.tasks (j + 1) = .finished
    · exact ⟨j, hj, hactive, .inr hnext⟩
    · exact ih (by omega) hnext (by omega)

/-- A pipeline that has not finished is never stuck: the last task that is not finished has
room, since the task after it has emptied the channel. -/
theorem Flows.progress (h : Flows passing handlers values through handled s)
    (hplaced : Placed (handlers.length + 1) s.tasks) (hcapacity : 0 < capacity)
    (hmain : s.main ≠ .finished) : ∃ actor s', s.step passing actor = some s' := by
  have hactive : ∀ index, index ≤ handlers.length + 1 → s.tasks index ≠ .finished →
      ∃ actor s', s.step passing actor = some s' := by
    intro index hindex hindexActive
    obtain ⟨i, hi, hactive, hlast⟩ := exists_last_active hindex hindexActive
    refine h.task_progress hplaced hcapacity hi hactive fun value htask => ?_
    rcases hlast with rfl | hfinished
    · have hsent := hplaced.last_sent
      simp [htask, Frame.sent] at hsent
    · have hle : i ≤ handlers.length := by
        by_contra hgt
        obtain rfl : i = handlers.length + 1 := by omega
        have hsent := hplaced.last_sent
        simp [htask, Frame.sent] at hsent
      obtain ⟨buffered, hlink⟩ := h.links i hle
      have hempty : buffered = [] := (hlink.drained (.inr hfinished)).2
      rw [hlink.represents.size, hempty]
      exact hcapacity
  cases hmain' : s.main with
  | task index =>
    by_cases hfinished : s.tasks index = .finished
    · refine ⟨.main,
        { s with main := if index < s.amountChannels then .close index else .finished }, ?_⟩
      change s.awaitTasks = _
      unfold RunPipelineImpl.awaitTasks
      simp only [hmain', hfinished]
    · exact hactive index (h.task_le index hmain') hfinished
  | close index =>
    have hindex := h.close_le index hmain'
    obtain ⟨buffered, hlink⟩ := h.links index hindex
    have hfinished : s.tasks index = .finished := h.awaited index (by omega) (hmain' ▸ le_rfl)
    obtain ⟨channel', hexec, -⟩ := hlink.close (.inr hfinished)
    refine ⟨.main, { s.setChannel index channel' with main := .task (index + 1) }, ?_⟩
    change s.awaitTasks = _
    unfold RunPipelineImpl.awaitTasks
    simp only [hmain', hexec]
  | finished => exact absurd hmain' hmain
  | failed => exact absurd hmain' h.main_ne

theorem Reaches.placed (hcapacity : 0 < capacity) (h : Reaches passing handlers values s) :
    Placed (handlers.length + 1) s.tasks := by
  induction h with
  | refl => exact ⟨rfl, rfl, by rintro ⟨⟩⟩
  | @tail s s' actor hs _ hstep ih =>
    have hs : Reaches passing handlers values s := hs
    obtain ⟨through, handled, hflows⟩ := hs.flows hcapacity
    rw [← hflows.length_eq] at ih ⊢
    exact ih.step hstep

/-- From every state that a pipeline reaches, it can finish. -/
theorem Reaches.exists_finished (hcapacity : 0 < capacity) (h : Reaches passing handlers values s) :
    ∃ s' : RunPipelineImpl α capacity, Reaches passing handlers values s' ∧ s'.main = .finished := by
  induction hload : s.load using Nat.strong_induction_on generalizing s with
  | _ n ih =>
    by_cases hmain : s.main = .finished
    · exact ⟨s, h, hmain⟩
    · obtain ⟨through, handled, hflows⟩ := h.flows hcapacity
      obtain ⟨actor, s', hstep⟩ := hflows.progress (h.placed hcapacity) hcapacity hmain
      exact ih s'.load (hload ▸ hflows.step_load hstep) (h.tail trivial hstep) rfl

end Columbo.RunPipelineImpl
