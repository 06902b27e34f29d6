import Columbo.ProviderRuns
import Columbo.SystemTracing
import Columbo.TraceProgram

/-!
# Runs of the program

Seen from the tracer and the channels between the spanners, a run of the program is a run of a
system of spanners that handle the events which the filters let through, in the order of the lines
in the files. What holds of such a system holds of the program.
-/
namespace Columbo

/-- A loop over the events that keeps its state in a wrapping. -/
theorem foldlM_wrap {σ τ : Type} (wrap : σ → τ) {f : σ → Event → Spanning σ}
    {g : τ → Event → Spanning τ}
    (hg : ∀ st ev, g (wrap st) ev = f st ev >>= fun st => pure (wrap st)) (evs : List Event)
    (st : σ) : evs.foldlM g (wrap st) = evs.foldlM f st >>= fun st => pure (wrap st) := by
  induction evs generalizing st with
  | nil => rfl
  | cons ev evs ih =>
    rw [List.foldlM_cons, List.foldlM_cons, hg, Coroutine.bind_assoc, Coroutine.bind_assoc]
    exact congrArg (f st ev >>= ·) (funext ih)

/-- The events one after the other. -/
def SpannerObject.consumeAll (env : TraceEnvironment) (rounds : ℕ) (events : List Event)
    (spanner : SpannerObject) : Spanning Unit :=
  events.foldlM (SpannerObject.consume env rounds) spanner >>= fun _ => pure ()

theorem SpannerClass.program_handling (env : TraceEnvironment) (rounds : ℕ) (events : List Event)
    (cls : SpannerClass) :
    (cls.handling events).program env rounds = cls.new.consumeAll env rounds events := by
  cases cls with
  | host queues =>
    have hloop := foldlM_wrap (SpannerObject.host queues)
      (f := fun st ev => return (← HostSpanner.consume env queues rounds st ev).2)
      (g := SpannerObject.consume env rounds)
      (fun st ev => by rw [Coroutine.bind_assoc]; rfl) events { }
    rw [SpannerObject.consumeAll, new, hloop, Coroutine.bind_assoc]
    rfl
  | nic queues =>
    have hloop := foldlM_wrap (SpannerObject.nic queues)
      (f := fun st ev => return (← NicSpanner.consume env queues st ev).2)
      (g := SpannerObject.consume env rounds)
      (fun st ev => by rw [Coroutine.bind_assoc]; rfl) events { }
    rw [SpannerObject.consumeAll, new, hloop, Coroutine.bind_assoc]
    rfl
  | network queues filter =>
    have hloop := foldlM_wrap (SpannerObject.network queues filter)
      (f := fun st ev => return (← NetworkSpanner.consume env queues filter st ev).2)
      (g := SpannerObject.consume env rounds)
      (fun st ev => by rw [Coroutine.bind_assoc]; rfl) events { }
    rw [SpannerObject.consumeAll, new, hloop, Coroutine.bind_assoc]
    rfl

/-- The events that reach the consumer of the pipeline. -/
def TracePipeline.events (B : ℕ) (setup : TracePipeline) : List Event :=
  Handler.runAll .byValue setup.handlers
    (((ReaderBuffer.deliver B setup.content setup.chunks).getD []).filterMap
      setup.logParser.eventOf)

namespace TracePipeline

variable {B eventBufferSize capacity : ℕ} {setup : TracePipeline}
  {s s' : ProvidedPipeline B eventBufferSize capacity}

/-- The states of the pipeline. -/
abbrev Reaches (setup : TracePipeline) (s : ProvidedPipeline B eventBufferSize capacity) : Prop :=
  ProvidedPipeline.Reaches .byValue setup.logParser setup.content setup.chunks setup.handlers s

theorem exists_deliver (B : ℕ) (setup : TracePipeline) :
    ∃ ls, ReaderBuffer.deliver B setup.content setup.chunks = some ls := by
  obtain ⟨ls, hls, -⟩ := ReaderBuffer.exists_readAll
    (ReaderBuffer.inv_openFile B setup.content setup.chunks) (Nat.lt_succ_self _)
  rw [ReaderBuffer.pending_openFile] at hls
  exact ⟨ls, hls⟩

/-- If every line fits into the block, the consumer gets what the filters let through of the
events of all lines. -/
theorem events_of_deliverable (h : ReaderBuffer.Deliverable B setup.content) :
    setup.events B = Handler.runAll .byValue setup.handlers
      ((lines kLineEnd setup.content).filterMap setup.logParser.eventOf) := by
  rw [events, ReaderBuffer.deliver_of_deliverable h setup.chunks]
  rfl

theorem Reaches.produces (hsize : 0 < eventBufferSize) (h : setup.Reaches s) :
    ∃ values p, RunPipelineImpl.Reaches .byValue setup.handlers values p ∧ s.Produces p ∧
      setup.events B = Handler.runAll .byValue setup.handlers values := by
  obtain ⟨ls, hls⟩ := exists_deliver B setup
  obtain ⟨p, hp, hproduces⟩ := ProvidedPipeline.Reaches.produces hsize hls h
  exact ⟨_, p, hp, hproduces, by rw [events, hls]; rfl⟩

theorem Reaches.amountChannels_eq (hsize : 0 < eventBufferSize) (hcapacity : 0 < capacity)
    (h : setup.Reaches s) : s.pipeline.amountChannels = setup.handlers.length + 1 := by
  obtain ⟨values, p, hp, hproduces, -⟩ := h.produces hsize
  obtain ⟨rest, -, rfl⟩ := hproduces.provides
  obtain ⟨through, handled, hflows⟩ := hp.flows hcapacity
  exact congrArg (· + 1) hflows.length_eq

theorem Reaches.taken_isPrefix (hsize : 0 < eventBufferSize) (hcapacity : 0 < capacity)
    (h : setup.Reaches s) : s.pipeline.taken <+: setup.events B := by
  obtain ⟨values, p, hp, hproduces, hevents⟩ := h.produces hsize
  obtain ⟨rest, -, rfl⟩ := hproduces.provides
  have htaken := hp.taken_isPrefix hcapacity
  rw [hevents]
  exact htaken

/-- The consumer of a pipeline that has finished was called with all events. -/
theorem Reaches.taken_eq (hsize : 0 < eventBufferSize) (hcapacity : 0 < capacity)
    (h : setup.Reaches s) (hfinished : s.pipeline.main = .finished) :
    s.pipeline.taken = setup.events B ∧
      s.pipeline.tasks s.pipeline.amountChannels = .finished := by
  have hamount := h.amountChannels_eq hsize hcapacity
  obtain ⟨values, p, hp, hproduces, hevents⟩ := h.produces hsize
  obtain ⟨rest, -, rfl⟩ := hproduces.provides
  obtain ⟨through, handled, hflows⟩ := hp.flows hcapacity
  have hlast : s.pipeline.tasks s.pipeline.amountChannels = .finished := by
    rw [hamount]
    exact hflows.awaited _ le_rfl (hfinished ▸ trivial)
  refine ⟨?_, hlast⟩
  have hconsumed := hp.consumed_eq hcapacity hfinished
  rw [RunPipelineImpl.taken, hlast, hevents, ← hconsumed]
  simp [Frame.received]

/-- Only the task of the consumer calls the consumer. -/
theorem Reaches.taken_of_step (hsize : 0 < eventBufferSize) (hcapacity : 0 < capacity)
    (h : setup.Reaches s) {actor : ProvidedPipeline.Actor} (hactor : actor ≠ .pipeline .consume)
    (hstep : s.step .byValue actor = some s') :
    s'.pipeline.taken = s.pipeline.taken ∧
      s'.pipeline.tasks s'.pipeline.amountChannels =
        s.pipeline.tasks s.pipeline.amountChannels := by
  have h' : setup.Reaches s' := h.tail trivial hstep
  have hamount := (h'.amountChannels_eq hsize hcapacity).trans
    (h.amountChannels_eq hsize hcapacity).symm
  obtain ⟨values, p, hp, hproduces, -⟩ := h.produces hsize
  obtain ⟨rest, -, hrest⟩ := hproduces.provides
  have hsame : p.taken = s.pipeline.taken ∧ p.tasks = s.pipeline.tasks ∧
      p.amountChannels = s.pipeline.amountChannels := by
    rw [hrest]
    exact ⟨rfl, rfl, rfl⟩
  rcases hproduces.step hstep with ⟨hproduces', -⟩ | ⟨actor', p', rfl, hstep', hproduces', -⟩
  · obtain ⟨rest', -, hrest'⟩ := hproduces'.provides
    have hsame' : p.taken = s'.pipeline.taken ∧ p.tasks = s'.pipeline.tasks := by
      rw [hrest']
      exact ⟨rfl, rfl⟩
    refine ⟨hsame'.1.symm.trans hsame.1, ?_⟩
    rw [hamount, ← hsame'.2, hsame.2.1]
  · obtain ⟨rest', -, hrest'⟩ := hproduces'.provides
    have hsame' : p'.taken = s'.pipeline.taken ∧ p'.tasks = s'.pipeline.tasks ∧
        p'.amountChannels = s'.pipeline.amountChannels := by
      rw [hrest']
      exact ⟨rfl, rfl, rfl⟩
    have hne : actor' ≠ .consume := fun heq => hactor (heq ▸ rfl)
    obtain ⟨htaken, hlast⟩ := RunPipelineImpl.taken_of_step hne
      (by rw [hsame'.2.2, hsame.2.2, hamount]) hstep'
    rw [hsame'.1, hsame.1] at htaken
    rw [hsame'.2.1, hsame'.2.2, hsame.2.1, hsame.2.2] at hlast
    exact ⟨htaken, hlast⟩

end TracePipeline

namespace TraceProgram

variable {ι : Type} [DecidableEq ι] {B eventBufferSize capacity : ℕ} {env : TraceEnvironment}
  {rounds : ℕ} {setup : ι → TracePipeline} {s s' : TraceProgram ι B eventBufferSize capacity}
  {t : SystemState ι}

/-- The spanners of the system have the same operations before them as those of the program. -/
structure Handles (env : TraceEnvironment) (rounds : ℕ) (setup : ι → TracePipeline)
    (s : TraceProgram ι B eventBufferSize capacity) (t : SystemState ι) : Prop where
  world : t.world = s.world
  reaches : ∀ i, (setup i).Reaches (s.pipelines i)
  program : ∀ i, t.program i = s.consumers i >>= SpannerObject.consumeAll env rounds
    (((setup i).events B).drop (s.pipelines i).pipeline.taken.length)
  calling : ∀ i, (∃ spanner, s.consumers i = .pure spanner) ∨ ∃ ev,
    (s.pipelines i).pipeline.tasks (s.pipelines i).pipeline.amountChannels = .working ev

omit [DecidableEq ι] in
theorem handles_start : Handles env rounds setup
    (start setup : TraceProgram ι B eventBufferSize capacity)
    (SystemState.start env rounds (fun i => (setup i).consumer.handling ((setup i).events B))
      World.init) := by
  refine ⟨rfl, fun i => .refl, fun i => ?_, fun i => .inl ⟨_, rfl⟩⟩
  change ((setup i).consumer.handling _).program env rounds = _
  rw [SpannerClass.program_handling]
  rfl

/-- A step of a pipeline that does not call the spanner. -/
theorem Handles.quiet (h : Handles env rounds setup s t) (hsize : 0 < eventBufferSize)
    (hcapacity : 0 < capacity) {i : ι} {actor : ProvidedPipeline.Actor}
    (hactor : actor ≠ .pipeline .consume)
    (hstep : (((s.pipelines i).step .byValue actor).map fun p =>
      { s with pipelines := Function.update s.pipelines i p }) = some s') :
    Handles env rounds setup s' t := by
  obtain ⟨p, hp, rfl⟩ := Option.map_eq_some_iff.mp hstep
  obtain ⟨htaken, hlast⟩ := (h.reaches i).taken_of_step hsize hcapacity hactor hp
  refine ⟨h.world, fun j => ?_, fun j => ?_, fun j => ?_⟩
  · by_cases hj : j = i
    · subst hj
      simpa using (h.reaches j).tail trivial hp
    · simpa [hj] using h.reaches j
  · by_cases hj : j = i
    · subst hj
      simpa [htaken] using h.program j
    · simpa [hj] using h.program j
  · by_cases hj : j = i
    · subst hj
      simpa [hlast] using h.calling j
    · simpa [hj] using h.calling j

/-- The task of the consumer calls the spanner with the next event, or its call has returned. -/
theorem Handles.consume (h : Handles env rounds setup s t) (hsize : 0 < eventBufferSize)
    (hcapacity : 0 < capacity) {i : ι} (hstep : s.consume env rounds i = some s') :
    Handles env rounds setup s' t := by
  unfold TraceProgram.consume at hstep
  cases hconsumer : s.consumers i with
  | act c k => simp [hconsumer] at hstep
  | pure spanner =>
    simp only [hconsumer] at hstep
    obtain ⟨p, hp, rfl⟩ := Option.map_eq_some_iff.mp hstep
    have hreaches : (setup i).Reaches p := (h.reaches i).tail trivial hp
    have hamount := (hreaches.amountChannels_eq hsize hcapacity).trans
      ((h.reaches i).amountChannels_eq hsize hcapacity).symm
    have hprogram := h.program i
    rw [hconsumer] at hprogram
    obtain ⟨pipeline, hpipeline, rfl⟩ := Option.map_eq_some_iff.mp hp
    have hnew : t.program i =
        called env rounds spanner (pipeline.tasks pipeline.amountChannels) >>=
          SpannerObject.consumeAll env rounds
            (((setup i).events B).drop pipeline.taken.length) ∧
        ((∃ spanner', called env rounds spanner (pipeline.tasks pipeline.amountChannels) =
          .pure spanner') ∨ ∃ ev, pipeline.tasks pipeline.amountChannels = .working ev) := by
      rcases RunPipelineImpl.taken_of_consume hamount hpipeline with
        ⟨ev, -, hlast, htaken⟩ | ⟨hlast, htaken⟩
      · have hprefix := hreaches.taken_isPrefix hsize hcapacity
        rw [hlast]
        refine ⟨?_, .inr ⟨ev, rfl⟩⟩
        obtain ⟨rest, hrest⟩ := hprefix
        change pipeline.taken ++ rest = (setup i).events B at hrest
        have hbefore : ((setup i).events B).drop (s.pipelines i).pipeline.taken.length =
            ev :: rest := by
          rw [← hrest, htaken, List.append_assoc, List.drop_left]
          rfl
        have hafter : ((setup i).events B).drop pipeline.taken.length = rest := by
          rw [← hrest, List.drop_left]
        rw [hprogram, hbefore, hafter]
        exact Coroutine.bind_assoc _ _ _
      · have hidle : called env rounds spanner (pipeline.tasks pipeline.amountChannels) =
            .pure spanner := by
          cases hframe : pipeline.tasks pipeline.amountChannels with
          | working ev => exact absurd hframe (hlast ev)
          | receiving => rfl
          | pushing ev => rfl
          | closing => rfl
          | finished => rfl
          | failed => rfl
        rw [hidle, htaken]
        exact ⟨hprogram, .inl ⟨spanner, rfl⟩⟩
    refine ⟨h.world, fun j => ?_, fun j => ?_, fun j => ?_⟩
    · by_cases hj : j = i
      · subst hj
        simpa using hreaches
      · simpa [hj] using h.reaches j
    · by_cases hj : j = i
      · subst hj
        simpa using hnew.1
      · simpa [hj] using h.program j
    · by_cases hj : j = i
      · subst hj
        simpa using hnew.2
      · simpa [hj] using h.calling j

/-- A spanner of the program performs the next operation of the spanner of the system. -/
theorem Handles.act (h : Handles env rounds setup s t) {i : ι} (hstep : s.act i = some s') :
    ∃ t', SystemState.step t (.act i) = some t' ∧ Handles env rounds setup s' t' := by
  unfold TraceProgram.act at hstep
  cases hconsumer : s.consumers i with
  | pure spanner => simp [hconsumer] at hstep
  | act c k =>
    simp only [hconsumer] at hstep
    obtain ⟨⟨r, w⟩, hexec, rfl⟩ := Option.map_eq_some_iff.mp hstep
    have hprogram := h.program i
    rw [hconsumer] at hprogram
    have hcalling := (h.calling i).resolve_left fun ⟨spanner, hpure⟩ => by
      rw [hconsumer] at hpure
      cases hpure
    refine ⟨⟨w, Function.update t.program i (k r >>= SpannerObject.consumeAll env rounds
      (((setup i).events B).drop (s.pipelines i).pipeline.taken.length)),
      Function.update t.history i (t.history i ++ [⟨c, r⟩])⟩, ?_, rfl, h.reaches, fun j => ?_,
      fun j => ?_⟩
    · unfold SystemState.step Coroutine.step
      simp only [hprogram]
      change ((World.exec t.world c).map _) = _
      rw [h.world, hexec]
      rfl
    · by_cases hj : j = i
      · subst hj
        simp
      · simpa [hj] using h.program j
    · by_cases hj : j = i
      · subst hj
        exact .inr hcalling
      · simpa [hj] using h.calling j

theorem simulates (hsize : 0 < eventBufferSize) (hcapacity : 0 < capacity) :
    Transition.Simulates
      (fun s : TraceProgram ι B eventBufferSize capacity => s.step env rounds)
      (fun _ _ => True) SystemState.step (fun _ move => ∃ i, move = .act i)
      (Handles (ι := ι) env rounds setup) := by
  intro s t move s' h _ hstep
  cases move with
  | spanner i =>
    obtain ⟨t', hstep', h'⟩ := h.act hstep
    exact .inr ⟨.act i, t', ⟨i, rfl⟩, hstep', h'⟩
  | pipeline i actor =>
    refine .inl ?_
    cases actor with
    | fill => exact h.quiet hsize hcapacity (by simp) hstep
    | pipeline actor =>
      cases actor with
      | consume => exact h.consume hsize hcapacity hstep
      | produce => exact h.quiet hsize hcapacity (by simp) hstep
      | handel index => exact h.quiet hsize hcapacity (by simp) hstep
      | main => exact h.quiet hsize hcapacity (by simp) hstep

/-- Whatever the order in which the coroutines go on: what the program has done to the tracer and
to the channels between the spanners is what a system of spanners does that handle, each in the
order of the lines that its reader gets, the events which the filters let through. When the
pipelines have finished, the spanners have handled all of them. -/
theorem refines_spanners (hsize : 0 < eventBufferSize) (hcapacity : 0 < capacity)
    (h : Reaches env rounds setup s) : ∃ t : SystemState ι,
      Transition.Reachable SystemState.step (fun _ move => ∃ i, move = .act i)
        (SystemState.start env rounds
          (fun i => (setup i).consumer.handling ((setup i).events B)) World.init) t ∧
      t.world = s.world ∧ Exports t ∧
      ∀ i, (s.pipelines i).pipeline.main = .finished → t.program i = .pure () := by
  obtain ⟨t, ht, hhandles⟩ :=
    Transition.Simulates.reachable (simulates hsize hcapacity) handles_start h
  refine ⟨t, ht, hhandles.world, ?_, fun i hfinished => ?_⟩
  · obtain ⟨st, hst, hsp, -⟩ := SystemState.stands ht
    exact hst.exports hsp
  · obtain ⟨htaken, hlast⟩ := (hhandles.reaches i).taken_eq hsize hcapacity hfinished
    obtain ⟨spanner, hspanner⟩ := (hhandles.calling i).resolve_right fun ⟨ev, hworking⟩ => by
      rw [hlast] at hworking
      cases hworking
    rw [hhandles.program, htaken, List.drop_length, hspanner]
    rfl

/-- A host calls a function. -/
def callSetup (_ : Unit) : TracePipeline where
  logParser := .gem5 ⟨⟨bytes "gem5", 1⟩, ∅, [(⟨∅, ⟨[(64, bytes "f")], by decide⟩⟩, bytes "c")]⟩
  content := bytes "5:system.switch_cpus:0x40\n"
  chunks _ := 9
  handlers := []
  consumer := .host ⟨0, 1, 2⟩

/-- The event comes to the spanner, which starts a span. -/
def untilStarted : List (Move Unit) :=
  [.pipeline () (.pipeline .produce), .pipeline () .fill, .pipeline () .fill,
    .pipeline () (.pipeline .produce), .pipeline () (.pipeline .produce),
    .pipeline () (.pipeline .consume), .spanner ()]

theorem refines_spanners_call : ∃ t : SystemState Unit,
    t.world.tracer.nextSpanId = 2 ∧ Exports t := by
  have hrun : ((Transition.follow (step noNames 0) (fun _ _ => True)
      (start callSetup : TraceProgram Unit 30 1 1) untilStarted).map
        fun s => s.world.tracer.nextSpanId) = some 2 := by
    decide +kernel
  obtain ⟨s, hs, hstarted⟩ := Option.map_eq_some_iff.mp hrun
  obtain ⟨t, -, hworld, hexports, -⟩ := refines_spanners
    Nat.one_pos Nat.one_pos (Transition.Reachable.refl.follow hs)
  exact ⟨t, by rw [hworld, hstarted], hexports⟩

end TraceProgram

end Columbo
