import Columbo.TracerSteps
import Columbo.Forest
import Mathlib.Data.Finset.Card
import Mathlib.Data.Finset.Range

/-!
# The tracer exports every finished span once, after its parent

Between two calls a bucket of the waiting list holds unexported spans and belongs to
an unexported parent. While a cascade runs this fails for the buckets that it is
working on, which are kept in the set `active`.
-/
namespace Columbo
namespace Tracer

open Forest

/-- The exporter knows the exported spans, each of them once and after its parent. -/
structure ExportLog (t : Tracer) : Prop where
  mem_iff : ∀ s, s ∈ t.exportedSpans ↔ s ∈ t.exporter.exported
  contextMap : t.exporter.contextMap = t.exportedSpans
  spanMap : t.exporter.spanMap = ∅
  nodup : t.exporter.exported.Nodup
  parentFirst : ParentFirst t.parentOf t.exporter.exported
  isSpan : ∀ s ∈ t.exportedSpans, t.IsSpan s

theorem ExportLog.frame {t t' : Tracer} (h : t.ExportLog)
    (hexported : t'.exportedSpans = t.exportedSpans) (hexporter : t'.exporter = t.exporter)
    (hparent : t'.parentOf = t.parentOf) (hspans : t'.nextSpanId = t.nextSpanId) :
    t'.ExportLog := by
  refine ⟨?_, ?_, ?_, ?_, ?_, ?_⟩
  · rw [hexported, hexporter]
    exact h.mem_iff
  · rw [hexported, hexporter]
    exact h.contextMap
  · rw [hexporter]
    exact h.spanMap
  · rw [hexporter]
    exact h.nodup
  · rw [hexporter, hparent]
    exact h.parentFirst
  · unfold IsSpan
    rw [hexported, hspans]
    exact h.isSpan

theorem exporter_exportSpan {e : OtlpSpanExporter} {span : Nat} (parentId : Option Nat)
    (hspan : span ≠ 0) (hnew : span ∉ e.contextMap) (hempty : e.spanMap = ∅)
    (hparent : ∀ p, parentId = some p → p ≠ 0 ∧ p ∈ e.contextMap) :
    e.exportSpan span parentId =
      some ⟨insert span e.contextMap, ∅, e.exported ++ [span]⟩ := by
  have hopts : e.getSpanStartOpts parentId = some e := by
    cases parentId with
    | none => rfl
    | some p => simp [OtlpSpanExporter.getSpanStartOpts, OtlpSpanExporter.getContext, hparent p rfl]
  have hstart : e.startSpan span parentId =
      some { e with spanMap := {span}, contextMap := insert span e.contextMap } := by
    simp [OtlpSpanExporter.startSpan, hopts, OtlpSpanExporter.insertNewSpan,
      OtlpSpanExporter.insertNewContext, hempty, hspan, hnew]
  simp [OtlpSpanExporter.exportSpan, hstart, OtlpSpanExporter.endSpan,
    OtlpSpanExporter.removeSpan]

/-- The state after `MarkSpanAsExported` and `ExportSpan`. -/
def exportOne (t : Tracer) (span : Nat) : Tracer :=
  { t with
    exportedSpans := insert span t.exportedSpans
    exporter := ⟨insert span t.exporter.contextMap, ∅, t.exporter.exported ++ [span]⟩ }

/-- A span whose parent was exported can be exported. -/
theorem ExportLog.exportOne {t : Tracer} (h : t.ExportLog) {span : Nat} (hspan : t.IsSpan span)
    (hnew : span ∉ t.exportedSpans) (hparent : ∀ p, t.parentOf span = some p → p ∈ t.exportedSpans) :
    t.markSpanAsExported span = some { t with exportedSpans := insert span t.exportedSpans } ∧
      exportSpan { t with exportedSpans := insert span t.exportedSpans } span =
        some (t.exportOne span) ∧
      (t.exportOne span).ExportLog := by
  have hpos : span ≠ 0 := Nat.ne_of_gt hspan.1
  refine ⟨?_, ?_, ?_⟩
  · simp [markSpanAsExported, insertExportedSpan, hpos, hnew]
  · have hexport := exporter_exportSpan (t.parentOf span) hpos
      (by rwa [h.contextMap]) h.spanMap (by
        intro p hp
        have hmem := hparent p hp
        rw [h.contextMap]
        exact ⟨Nat.ne_of_gt (h.isSpan p hmem).1, hmem⟩)
    unfold exportSpan
    exact Option.map_eq_some_iff.mpr ⟨_, hexport, rfl⟩
  · refine ⟨?_, ?_, rfl, ?_, ?_, ?_⟩
    · intro s
      simp [Tracer.exportOne, h.mem_iff, or_comm]
    · simp [Tracer.exportOne, h.contextMap]
    · have hlog : span ∉ t.exporter.exported := fun hmem => hnew ((h.mem_iff span).mpr hmem)
      simpa [Tracer.exportOne] using h.nodup.concat hlog
    · exact h.parentFirst.concat fun p hp => (h.mem_iff p).mp (hparent p hp)
    · intro s hs
      rcases Finset.mem_insert.mp hs with rfl | hs
      · exact hspan
      · exact h.isSpan s hs

/-- A bucket holds children of its key, each of them once. A bucket outside `active`
belongs to an unexported parent and holds unexported spans. -/
structure Buckets (t : Tracer) (active : Set Nat) : Prop where
  parent : ∀ {k l}, t.waitingList k = some l → ∀ s ∈ l, t.parentOf s = some k
  nodup : ∀ {k l}, t.waitingList k = some l → l.Nodup
  isSpan : ∀ {k l}, t.waitingList k = some l → ∀ s ∈ l, t.IsSpan s
  key : ∀ {k l}, t.waitingList k = some l → k ∉ active → k ∉ t.exportedSpans
  waiting : ∀ {k l}, t.waitingList k = some l → k ∉ active → ∀ s ∈ l, s ∉ t.exportedSpans

/-- The span was exported on the way from one state to the other one. -/
def Fresh (t t' : Tracer) (s : Nat) : Prop := s ∈ t'.exportedSpans ∧ s ∉ t.exportedSpans

/-- The effect of the cascade below `parent`: it empties the bucket of `parent` and of
every span that it exports, and exports exactly what these buckets held. -/
structure Cascade (t : Tracer) (parent : Nat) (t' : Tracer) : Prop where
  heap : SameHeap t t'
  exported : t.exportedSpans ⊆ t'.exportedSpans
  emptied : ∀ k, k = parent ∨ Fresh t t' k → t'.waitingList k = none
  kept : ∀ k, k ≠ parent → ¬ Fresh t t' k → t'.waitingList k = t.waitingList k
  fresh_iff : ∀ s, Fresh t t' s ↔
    ∃ k l, t.waitingList k = some l ∧ s ∈ l ∧ (k = parent ∨ Fresh t t' k)

/-- The state inside the loop of the cascade, with the waiters that are left. -/
structure Cascading (t : Tracer) (parent : Nat) (bucket rest : List Nat) (u : Tracer) : Prop where
  heap : SameHeap t u
  exported : t.exportedSpans ⊆ u.exportedSpans
  emptied : ∀ k, Fresh t u k → u.waitingList k = none
  kept : ∀ k, ¬ Fresh t u k → u.waitingList k = t.waitingList k
  fresh_iff : ∀ s, Fresh t u s ↔ ∃ k l, t.waitingList k = some l ∧ s ∈ l ∧
    (k = parent ∧ s ∉ rest ∨ Fresh t u k)
  rest_sub : ∀ s ∈ rest, s ∈ bucket
  rest_nodup : rest.Nodup

/-- The spans that were not exported yet bound the depth of the recursion. -/
def unexported (t : Tracer) : Finset Nat := Finset.range t.nextSpanId \ t.exportedSpans

theorem unexported_lt {t t' : Tracer} {s : Nat} (hids : t'.nextSpanId = t.nextSpanId)
    (hsub : t.exportedSpans ⊆ t'.exportedSpans) (hspan : t.IsSpan s) (hfresh : Fresh t t' s) :
    t'.unexported.card < t.unexported.card := by
  apply Finset.card_lt_card
  rw [Finset.ssubset_iff_of_subset]
  · refine ⟨s, ?_, ?_⟩
    · simp [unexported, hspan.2, hfresh.2]
    · simp [unexported, hfresh.1]
  · intro x hx
    simp only [unexported, Finset.mem_sdiff, hids] at hx ⊢
    exact ⟨hx.1, fun hmem => hx.2 (hsub hmem)⟩

/-- Exporting one waiter, with everything that waits for it, leaves one waiter less. -/
theorem Cascading.next {t u u' : Tracer} {parent waiter : Nat} {bucket rest : List Nat}
    (h : Cascading t parent bucket (waiter :: rest) u) (hbucket : t.waitingList parent = some bucket)
    (hnew : waiter ∉ u.exportedSpans) (hc : Cascade (u.exportOne waiter) waiter u') :
    Cascading t parent bucket rest u' := by
  have hsub : u.exportedSpans ⊆ u'.exportedSpans :=
    (Finset.subset_insert waiter u.exportedSpans).trans hc.exported
  have hwaiter : waiter ∈ u'.exportedSpans := hc.exported (Finset.mem_insert_self _ _)
  have hsplit : ∀ s, Fresh t u' s ↔
      Fresh t u s ∨ s = waiter ∨ Fresh (u.exportOne waiter) u' s := by
    intro s
    have hone : s ∈ (u.exportOne waiter).exportedSpans ↔ s = waiter ∨ s ∈ u.exportedSpans :=
      Finset.mem_insert
    constructor
    · rintro ⟨hs, hst⟩
      by_cases hsu : s ∈ u.exportedSpans
      · exact .inl ⟨hsu, hst⟩
      · by_cases hsw : s = waiter
        · exact .inr (.inl hsw)
        · exact .inr (.inr ⟨hs, fun hmem => (hone.mp hmem).elim hsw hsu⟩)
    · rintro (⟨hs, hst⟩ | rfl | ⟨hs, hsu⟩)
      · exact ⟨hsub hs, hst⟩
      · exact ⟨hwaiter, fun hmem => hnew (h.exported hmem)⟩
      · exact ⟨hs, fun hmem => hsu (hone.mpr (.inr (h.exported hmem)))⟩
  have hbelow : ∀ k, k = waiter ∨ Fresh (u.exportOne waiter) u' k → ¬ Fresh t u k := by
    rintro k (rfl | ⟨_, hk⟩) ⟨hmem, _⟩
    · exact hnew hmem
    · exact hk (Finset.mem_insert_of_mem hmem)
  refine ⟨h.heap.trans ?_, h.exported.trans hsub, ?_, ?_, ?_, ?_, ?_⟩
  · have hone : SameHeap u (u.exportOne waiter) := ⟨rfl, rfl, rfl, rfl, rfl, rfl⟩
    exact hone.trans hc.heap
  · intro k hk
    by_cases hkw : k = waiter ∨ Fresh (u.exportOne waiter) u' k
    · exact hc.emptied k hkw
    · have hkept := hc.kept k (fun heq => hkw (.inl heq)) (fun hf => hkw (.inr hf))
      have hku : Fresh t u k := ((hsplit k).mp hk).resolve_right hkw
      exact hkept.trans (h.emptied k hku)
  · intro k hk
    have hkw : ¬ (k = waiter ∨ Fresh (u.exportOne waiter) u' k) :=
      fun hor => hk ((hsplit k).mpr (.inr hor))
    have hkept := hc.kept k (fun heq => hkw (.inl heq)) (fun hf => hkw (.inr hf))
    exact hkept.trans (h.kept k fun hf => hk ((hsplit k).mpr (.inl hf)))
  · intro s
    constructor
    · intro hs
      rcases (hsplit s).mp hs with hs | rfl | hs
      · obtain ⟨k, l, hkl, hsl, ⟨hkp, hrest⟩ | hk⟩ := (h.fresh_iff s).mp hs
        · exact ⟨k, l, hkl, hsl, .inl ⟨hkp, fun hmem => hrest (List.mem_cons_of_mem _ hmem)⟩⟩
        · exact ⟨k, l, hkl, hsl, .inr ((hsplit k).mpr (.inl hk))⟩
      · exact ⟨parent, bucket, hbucket, h.rest_sub s (by simp),
          .inl ⟨rfl, (List.nodup_cons.mp h.rest_nodup).1⟩⟩
      · obtain ⟨k, l, hkl, hsl, hk⟩ := (hc.fresh_iff s).mp hs
        have hold : t.waitingList k = some l := (h.kept k (hbelow k hk)).symm.trans hkl
        exact ⟨k, l, hold, hsl, .inr ((hsplit k).mpr (.inr hk))⟩
    · rintro ⟨k, l, hkl, hsl, ⟨rfl, hrest⟩ | hk⟩
      · by_cases hsw : s = waiter
        · exact (hsplit s).mpr (.inr (.inl hsw))
        · have hs : Fresh t u s :=
            (h.fresh_iff s).mpr ⟨k, l, hkl, hsl, .inl ⟨rfl, by simp [hsw, hrest]⟩⟩
          exact (hsplit s).mpr (.inl hs)
      · rcases (hsplit k).mp hk with hk | hk
        · have hs : Fresh t u s := (h.fresh_iff s).mpr ⟨k, l, hkl, hsl, .inr hk⟩
          exact (hsplit s).mpr (.inl hs)
        · have hnow : u.waitingList k = some l := (h.kept k (hbelow k hk)).trans hkl
          exact (hsplit s).mpr (.inr (.inr ((hc.fresh_iff s).mpr ⟨k, l, hnow, hsl, hk⟩)))
  · exact fun s hs => h.rest_sub s (List.mem_cons_of_mem _ hs)
  · exact (List.nodup_cons.mp h.rest_nodup).2

/-- When no waiter is left the bucket is erased. -/
theorem Cascading.finish {t u : Tracer} {parent : Nat} {bucket : List Nat}
    (h : Cascading t parent bucket [] u) (hparent : parent ∈ t.exportedSpans) :
    Cascade t parent
      { u with waitingList := Function.update u.waitingList parent none } := by
  have hold : ¬ Fresh t u parent := fun hf => hf.2 hparent
  refine ⟨h.heap.trans ⟨rfl, rfl, rfl, rfl, rfl, rfl⟩, h.exported, ?_, ?_, ?_⟩
  · intro k hk
    by_cases hkp : k = parent
    · simp [hkp]
    · have hnone := h.emptied k (hk.resolve_left hkp)
      simpa [hkp] using hnone
  · intro k hkp hk
    have hkept := h.kept k hk
    simpa [hkp] using hkept
  · intro s
    refine (h.fresh_iff s).trans ?_
    simp [Fresh]

/-- A waiter that is left was not exported by the cascade so far. -/
theorem Cascading.rest_unexported {t u : Tracer} {parent : Nat} {bucket rest : List Nat}
    {active : Set Nat} (h : Cascading t parent bucket rest u) (hb : t.Buckets active)
    (hbucket : t.waitingList parent = some bucket) (hparent : parent ∈ t.exportedSpans)
    (hnew : ∀ s ∈ bucket, s ∉ t.exportedSpans) : ∀ s ∈ rest, s ∉ u.exportedSpans := by
  intro s hs hmem
  have hsb : s ∈ bucket := h.rest_sub s hs
  obtain ⟨k, l, hkl, hsl, hk⟩ := (h.fresh_iff s).mp ⟨hmem, hnew s hsb⟩
  have hkp : k = parent := by
    have hone := hb.parent hkl s hsl
    rw [hb.parent hbucket s hsb] at hone
    exact (Option.some.inj hone).symm
  subst hkp
  rcases hk with ⟨_, hrest⟩ | hk
  · exact hrest hs
  · exact hk.2 hparent

/-- Marking a waiter as exported makes the spans that wait for it exportable. -/
theorem Buckets.exportOne {u : Tracer} {active : Set Nat} {waiter : Nat} (h : u.Buckets active)
    (hwaiter : ∀ k l, u.waitingList k = some l → waiter ∈ l → k ∈ active) :
    (u.exportOne waiter).Buckets (insert waiter active) := by
  refine ⟨h.parent, h.nodup, h.isSpan, ?_, ?_⟩
  · intro k l hkl hk
    have hkw : k ≠ waiter := fun heq => hk (heq ▸ Set.mem_insert _ _)
    have hkold : k ∉ u.exportedSpans := h.key hkl fun hmem => hk (Set.mem_insert_of_mem _ hmem)
    simp [Tracer.exportOne, hkw, hkold]
  · intro k l hkl hk s hs
    have hka : k ∉ active := fun hmem => hk (Set.mem_insert_of_mem _ hmem)
    have hsold : s ∉ u.exportedSpans := h.waiting hkl hka s hs
    have hsw : s ≠ waiter := fun heq => hka (hwaiter k l hkl (heq ▸ hs))
    simp [Tracer.exportOne, hsw, hsold]

/-- A round of the loop exports the waiter and recurses. -/
theorem exportWaiter_eq {recurse : Tracer → Nat → Option Tracer} {u : Tracer} {waiter parent : Nat}
    (hlog : u.ExportLog) (hspan : u.IsSpan waiter) (hnew : waiter ∉ u.exportedSpans)
    (hparent : u.parentOf waiter = some parent) (hexported : parent ∈ u.exportedSpans) :
    exportWaiter recurse u waiter = recurse (u.exportOne waiter) waiter := by
  obtain ⟨hmark, hexport, _⟩ := hlog.exportOne hspan hnew (by
    intro p hp
    rw [hparent] at hp
    exact Option.some.inj hp ▸ hexported)
  unfold exportWaiter
  rw [hparent]
  simp only [Option.bind_eq_bind, Option.bind_some, if_pos hexported, hmark, hexport]

theorem not_fresh_self (t : Tracer) (s : Nat) : ¬ Fresh t t s := fun h => h.2 h.1

/-- Before the first round nothing was exported. -/
theorem Cascading.start {t : Tracer} {parent : Nat} {bucket : List Nat}
    (hbucket : t.waitingList parent = some bucket) (hnodup : bucket.Nodup) :
    Cascading t parent bucket bucket t := by
  refine ⟨SameHeap.rfl, subset_rfl, fun k hk => absurd hk (not_fresh_self t k), fun _ _ => rfl, ?_,
    fun s hs => hs, hnodup⟩
  intro s
  constructor
  · intro hs
    exact absurd hs (not_fresh_self t s)
  · rintro ⟨k, l, hkl, hsl, ⟨rfl, hrest⟩ | hk⟩
    · rw [hbucket] at hkl
      exact absurd (Option.some.inj hkl ▸ hsl) hrest
    · exact absurd hk (not_fresh_self t k)

theorem Cascade.of_none {t : Tracer} {parent : Nat} (hbucket : t.waitingList parent = none) :
    Cascade t parent t := by
  refine ⟨SameHeap.rfl, subset_rfl, ?_, fun _ _ _ => rfl, ?_⟩
  · rintro k (rfl | hk)
    · exact hbucket
    · exact absurd hk (not_fresh_self t k)
  · intro s
    constructor
    · intro hs
      exact absurd hs (not_fresh_self t s)
    · rintro ⟨k, l, hkl, _, rfl | hk⟩
      · rw [hbucket] at hkl
        cases hkl
      · exact absurd hk (not_fresh_self t k)

/-- A bucket that is gone needs no exception. -/
theorem Buckets.erase {t : Tracer} {active : Set Nat} {parent : Nat}
    (h : t.Buckets (insert parent active)) :
    Buckets { t with waitingList := Function.update t.waitingList parent none } active := by
  have hkeep : ∀ {k l}, Function.update t.waitingList parent none k = some l →
      k ≠ parent ∧ t.waitingList k = some l := by
    intro k l hkl
    by_cases hkp : k = parent
    · simp [hkp] at hkl
    · exact ⟨hkp, by simpa [hkp] using hkl⟩
  have hactive : ∀ {k}, k ≠ parent → k ∉ active → k ∉ insert parent active := by
    rintro k hkp hk (rfl | hmem)
    · exact hkp rfl
    · exact hk hmem
  exact ⟨fun hkl => h.parent (hkeep hkl).2, fun hkl => h.nodup (hkeep hkl).2,
    fun hkl => h.isSpan (hkeep hkl).2,
    fun hkl hk => h.key (hkeep hkl).2 (hactive (hkeep hkl).1 hk),
    fun hkl hk => h.waiting (hkeep hkl).2 (hactive (hkeep hkl).1 hk)⟩

/-- What holds when the cascade starts below an exported span. -/
structure CascadeReady (t : Tracer) (parent : Nat) (active : Set Nat) (fuel : Nat) : Prop where
  log : t.ExportLog
  buckets : t.Buckets (insert parent active)
  active : ∀ k ∈ active, k ∈ t.exportedSpans
  exported : parent ∈ t.exportedSpans
  bucket : ∀ l, t.waitingList parent = some l → ∀ s ∈ l, s ∉ t.exportedSpans
  fuel : t.unexported.card < fuel

/-- The cascade runs to its end and exports everything that waits for the parent. -/
def CascadeTotal (fuel : Nat) : Prop :=
  ∀ {t : Tracer} {parent : Nat} {active : Set Nat}, CascadeReady t parent active fuel →
    ∃ t', exportWaitingForParentVec fuel t parent = some t' ∧ Cascade t parent t' ∧
      t'.ExportLog ∧ t'.Buckets active

/-- One round of the loop: after the waiter is exported, the recursive call starts
below an exported span, with one unexported span less. -/
theorem cascade_round {fuel : Nat} (hrec : CascadeTotal fuel) {t u : Tracer}
    {parent waiter : Nat} {active : Set Nat} {bucket rest : List Nat}
    (ht : CascadeReady t parent active (fuel + 1)) (hbucket : t.waitingList parent = some bucket)
    (hcas : Cascading t parent bucket (waiter :: rest) u) (hlog : u.ExportLog)
    (hb : u.Buckets (insert parent active)) :
    ∃ u', exportWaiter (exportWaitingForParentVec fuel) u waiter = some u' ∧
      Cascading t parent bucket rest u' ∧ u'.ExportLog ∧ u'.Buckets (insert parent active) := by
  have hexported : ∀ k ∈ insert parent active, k ∈ u.exportedSpans := by
    rintro k (rfl | hk)
    · exact hcas.exported ht.exported
    · exact hcas.exported (ht.active k hk)
  have hparent : parent ∈ u.exportedSpans := hexported parent (Set.mem_insert _ _)
  have hown : u.waitingList parent = some bucket :=
    (hcas.kept parent fun hf => hf.2 ht.exported).trans hbucket
  have hmem : waiter ∈ bucket := hcas.rest_sub waiter (by simp)
  have hwp : u.parentOf waiter = some parent := hb.parent hown waiter hmem
  have hspan : u.IsSpan waiter := hb.isSpan hown waiter hmem
  have hnew : waiter ∉ u.exportedSpans :=
    hcas.rest_unexported ht.buckets hbucket ht.exported (ht.bucket bucket hbucket) waiter (by simp)
  have hready : CascadeReady (u.exportOne waiter) waiter (insert parent active) fuel := by
    refine ⟨?_, ?_, ?_, Finset.mem_insert_self _ _, ?_, ?_⟩
    · exact (hlog.exportOne hspan hnew fun p hp => by
        rw [hwp] at hp
        exact Option.some.inj hp ▸ hparent).2.2
    · refine hb.exportOne fun k l hkl hkmem => ?_
      have hkp := hb.parent hkl waiter hkmem
      rw [hwp] at hkp
      exact Option.some.inj hkp ▸ Set.mem_insert _ _
    · exact fun k hk => Finset.mem_insert_of_mem (hexported k hk)
    · intro l hl s hs hsmem
      have hactive : waiter ∉ insert parent active := fun h => hnew (hexported waiter h)
      rcases Finset.mem_insert.mp hsmem with rfl | hsu
      · have hself : u.parentOf s = some s := hb.parent hl s hs
        rw [hwp] at hself
        exact hnew (Option.some.inj hself ▸ hparent)
      · exact hb.waiting hl hactive s hs hsu
    · have hfresh : Fresh t (u.exportOne waiter) waiter :=
        ⟨Finset.mem_insert_self _ _, ht.bucket bucket hbucket waiter hmem⟩
      have hlt : (u.exportOne waiter).unexported.card < t.unexported.card :=
        unexported_lt hcas.heap.nextSpanId (hcas.exported.trans (Finset.subset_insert _ _))
        (ht.buckets.isSpan hbucket waiter hmem) hfresh
      have hfuel := ht.fuel
      omega
  obtain ⟨u', hrun, hc, hlog', hb'⟩ := hrec hready
  have hround : exportWaiter (exportWaitingForParentVec fuel) u waiter =
      exportWaitingForParentVec fuel (u.exportOne waiter) waiter :=
    exportWaiter_eq hlog hspan hnew hwp hparent
  exact ⟨u', hround.trans hrun, hcas.next hbucket hnew hc, hlog', hb'⟩

/-- `ExportWaitingForParentVec` below an exported span succeeds: it exports all spans
that wait, directly or indirectly, for that span. -/
theorem cascadeTotal (fuel : Nat) : CascadeTotal fuel := by
  induction fuel with
  | zero =>
    intro t parent active ht
    exact absurd ht.fuel (Nat.not_lt_zero _)
  | succ fuel ih =>
    intro t parent active ht
    unfold exportWaitingForParentVec
    cases hbucket : t.waitingList parent with
    | none =>
      have herase := ht.buckets.erase
      have hsame : Function.update t.waitingList parent none = t.waitingList := by
        rw [← hbucket, Function.update_eq_self]
      rw [hsame] at herase
      exact ⟨t, rfl, Cascade.of_none hbucket, ht.log, herase⟩
    | some bucket =>
      obtain ⟨u, hloop, hcas, hlog, hb⟩ := Transition.foldlM_total
        (f := exportWaiter (exportWaitingForParentVec fuel)) (l := bucket) (s := t)
        (fun rest u => Cascading t parent bucket rest u ∧ u.ExportLog ∧
          u.Buckets (insert parent active))
        (fun h => cascade_round ih ht hbucket h.1 h.2.1 h.2.2)
        ⟨Cascading.start hbucket (ht.buckets.nodup hbucket), ht.log, ht.buckets⟩
      refine ⟨_, Option.bind_eq_some_iff.mpr ⟨u, hloop, rfl⟩, hcas.finish ht.exported, ?_, hb.erase⟩
      exact ⟨hlog.mem_iff, hlog.contextMap, hlog.spanMap, hlog.nodup, hlog.parentFirst, hlog.isSpan⟩

end Tracer

namespace Session

open Forest Tracer

/-- Every span is marked as done at most once, and the parent of a span is changed
only before it is marked as done. `AddParentLazily` changes a trace context, so it
changes the parent of all spans that share it. -/
def DoneOnce (st : Session) : TracerCall → Prop
  | .markSpanAsDone span => span ∉ st.done
  | .startSpanSetParentContext span _ => span ∉ st.done
  | .addParentLazily span _ =>
      ∀ s ∈ st.done, (st.tracer.spans s).context ≠ (st.tracer.spans span).context
  | _ => True

/-- The spans that were marked as done are the exported ones and the waiting ones. -/
structure Ledger (st : Session) : Prop where
  valid : st.Valid
  log : st.tracer.ExportLog
  buckets : st.tracer.Buckets ∅
  done_iff : ∀ s, s ∈ st.done ↔
    s ∈ st.tracer.exportedSpans ∨ ∃ k l, st.tracer.waitingList k = some l ∧ s ∈ l

theorem ledger_init : init.Ledger := by
  refine ⟨valid_init, ⟨?_, rfl, rfl, List.nodup_nil, parentFirst_nil, ?_⟩, ⟨?_, ?_, ?_, ?_, ?_⟩, ?_⟩
  all_goals simp [init, Tracer.init]

theorem Ledger.isSpan {st : Session} (h : st.Ledger) {s : Nat} (hs : s ∈ st.done) :
    st.tracer.IsSpan s := by
  rcases (h.done_iff s).mp hs with hs | ⟨k, l, hkl, hs⟩
  · exact h.log.isSpan s hs
  · exact h.buckets.isSpan hkl s hs

/-- What the exporter and the waiting list look like to the other calls. -/
structure SameExports (st st' : Session) : Prop where
  exportedSpans : st'.tracer.exportedSpans = st.tracer.exportedSpans
  waitingList : st'.tracer.waitingList = st.tracer.waitingList
  exporter : st'.tracer.exporter = st.tracer.exporter
  done : st'.done = st.done
  parentOf : ∀ s ∈ st.done, st'.tracer.parentOf s = st.tracer.parentOf s

theorem Ledger.frame {st st' : Session} (h : st.Ledger) (hv : st'.Valid)
    (hsame : SameExports st st') (hspans : st.tracer.nextSpanId ≤ st'.tracer.nextSpanId) :
    st'.Ledger := by
  obtain ⟨hexported, hwaiting, hexporter, hdone, hparent⟩ := hsame
  have hspan : ∀ s, st.tracer.IsSpan s → st'.tracer.IsSpan s :=
    fun s hs => ⟨hs.1, hs.2.trans_le hspans⟩
  refine ⟨hv, ⟨?_, ?_, ?_, ?_, ?_, ?_⟩, ⟨?_, ?_, ?_, ?_, ?_⟩, ?_⟩
  · rw [hexported, hexporter]
    exact h.log.mem_iff
  · rw [hexported, hexporter]
    exact h.log.contextMap
  · rw [hexporter]
    exact h.log.spanMap
  · rw [hexporter]
    exact h.log.nodup
  · rw [hexporter]
    refine h.log.parentFirst.congr fun s hs => ?_
    exact hparent s ((h.done_iff s).mpr (.inl ((h.log.mem_iff s).mpr hs)))
  · rw [hexported]
    exact fun s hs => hspan s (h.log.isSpan s hs)
  · rw [hwaiting]
    intro k l hkl s hs
    rw [hparent s ((h.done_iff s).mpr (.inr ⟨k, l, hkl, hs⟩))]
    exact h.buckets.parent hkl s hs
  · rw [hwaiting]
    exact h.buckets.nodup
  · rw [hwaiting]
    exact fun hkl s hs => hspan s (h.buckets.isSpan hkl s hs)
  · rw [hwaiting, hexported]
    exact h.buckets.key
  · rw [hwaiting, hexported]
    exact h.buckets.waiting
  · rw [hdone, hexported, hwaiting]
    exact h.done_iff

/-- No call but `MarkSpanAsDone` touches the exports. -/
theorem sameExports_call {st st' : Session} {call : TracerCall} (h : st.Ledger)
    (hdone : st.DoneOnce call) (hnot : ∀ span, call ≠ .markSpanAsDone span)
    (hcall : st.call call = some st') : SameExports st st' := by
  have hold : ∀ s ∈ st.done, s ≠ st.tracer.nextSpanId := fun s hs => Nat.ne_of_lt (h.isSpan hs).2
  have hcontexts := h.valid.tracer.contexts
  cases call with
  | startSpan ev =>
    obtain ⟨t, ht, rfl⟩ := Option.map_eq_some_iff.mp hcall
    obtain rfl := startSpan_eq_some ht
    refine ⟨rfl, rfl, rfl, rfl, fun s hs => ?_⟩
    have hparent := parentOf_allocate hcontexts ⟨st.tracer.nextTraceId, none⟩ ev.ts s
    rw [if_neg (hold s hs)] at hparent
    exact hparent
  | readParent span =>
    obtain ⟨ref, _, rfl⟩ := Option.map_eq_some_iff.mp hcall
    exact ⟨rfl, rfl, rfl, rfl, fun _ _ => rfl⟩
  | startSpanByParent ref ev =>
    obtain ⟨t, ht, rfl⟩ := Option.map_eq_some_iff.mp hcall
    obtain ⟨_, rfl⟩ := startSpanByParent_eq_some ht
    refine ⟨rfl, rfl, rfl, rfl, fun s hs => ?_⟩
    have hparent := parentOf_allocate hcontexts ⟨ref.traceId, some ref.parent⟩ ev.ts s
    rw [if_neg (hold s hs)] at hparent
    exact hparent
  | createPassOnContext exp span =>
    obtain ⟨c, _, rfl⟩ := Option.map_eq_some_iff.mp hcall
    exact ⟨rfl, rfl, rfl, rfl, fun _ _ => rfl⟩
  | startSpanByParentPassOnContext c ev =>
    obtain ⟨t, ht, rfl⟩ := Option.map_eq_some_iff.mp hcall
    obtain ⟨_, rfl⟩ := startSpanByParent_eq_some ht
    refine ⟨rfl, rfl, rfl, rfl, fun s hs => ?_⟩
    have hparent := parentOf_allocate hcontexts ⟨c.traceId, some c.parent⟩ ev.ts s
    rw [if_neg (hold s hs)] at hparent
    exact hparent
  | startOrphanSpan ev =>
    obtain ⟨t, ht, rfl⟩ := Option.map_eq_some_iff.mp hcall
    obtain rfl := startOrphanSpan_eq_some ht
    refine ⟨rfl, rfl, rfl, rfl, fun s hs => ?_⟩
    have hparent := parentOf_allocate hcontexts ⟨0, none⟩ ev.ts s
    rw [if_neg (hold s hs)] at hparent
    exact hparent
  | cloneShared span =>
    obtain rfl := Option.some.inj hcall
    refine ⟨rfl, rfl, rfl, rfl, fun s hs => ?_⟩
    have hparent := parentOf_cloneShared st.tracer span s
    rw [if_neg (hold s hs)] at hparent
    exact hparent
  | startSpanSetParentContext span c =>
    obtain ⟨t, ht, rfl⟩ := Option.map_eq_some_iff.mp hcall
    obtain ⟨_, rfl⟩ := startSpanSetParentContext_eq_some ht
    refine ⟨rfl, rfl, rfl, rfl, fun s hs => ?_⟩
    have hne : s ≠ span := fun heq => hdone (heq ▸ hs)
    have hparent := parentOf_renewContext hcontexts span ⟨c.traceId, some c.parent⟩ s
    rw [if_neg hne] at hparent
    exact hparent
  | addParentLazily span c =>
    obtain ⟨t, ht, rfl⟩ := Option.map_eq_some_iff.mp hcall
    obtain ⟨ids, _, _, rfl⟩ := (addParentLazily_eq_some (h.valid.tracer.nodup _)).mp ht
    refine ⟨rfl, rfl, rfl, rfl, fun s hs => ?_⟩
    have hparent := parentOf_reparent st.tracer span c.toParentRef ids s
    rw [if_neg (hdone s hs)] at hparent
    exact hparent
  | markSpanAsDone span => exact absurd rfl (hnot span)

/-- A span whose parent was exported is exported with all that wait for it. -/
theorem Ledger.export_span {st : Session} (h : st.Ledger) {span : Nat}
    (hspan : st.tracer.IsSpan span) (hdone : span ∉ st.done)
    (hparent : ∀ p, st.tracer.parentOf span = some p → p ∈ st.tracer.exportedSpans) :
    ∃ t, exportWaitingForParentVec st.tracer.nextSpanId (st.tracer.exportOne span) span = some t ∧
      SameHeap st.tracer t ∧ t.ExportLog ∧ t.Buckets ∅ ∧
      ∀ s, s ∈ insert span st.done ↔
        s ∈ t.exportedSpans ∨ ∃ k l, t.waitingList k = some l ∧ s ∈ l := by
  have hnew : span ∉ st.tracer.exportedSpans := fun hs => hdone ((h.done_iff span).mpr (.inl hs))
  have hfree : ∀ k l, st.tracer.waitingList k = some l → span ∉ l :=
    fun k l hkl hs => hdone ((h.done_iff span).mpr (.inr ⟨k, l, hkl, hs⟩))
  have hready : CascadeReady (st.tracer.exportOne span) span ∅ st.tracer.nextSpanId := by
    refine ⟨(h.log.exportOne hspan hnew hparent).2.2, ?_, ?_, Finset.mem_insert_self _ _, ?_, ?_⟩
    · exact h.buckets.exportOne fun k l hkl hs => absurd hs (hfree k l hkl)
    · intro k hk
      cases hk
    · intro l hl s hs hmem
      rcases Finset.mem_insert.mp hmem with rfl | hmem
      · exact hfree s l hl hs
      · exact h.buckets.waiting hl (Set.notMem_empty _) s hs hmem
    · have hlt : ((st.tracer.exportOne span).unexported).card <
          (Finset.range st.tracer.nextSpanId).card := by
        apply Finset.card_lt_card
        have hsub : (st.tracer.exportOne span).unexported ⊆ Finset.range st.tracer.nextSpanId :=
          Finset.sdiff_subset
        rw [Finset.ssubset_iff_of_subset hsub]
        exact ⟨span, Finset.mem_range.mpr hspan.2, by simp [unexported, Tracer.exportOne]⟩
      rwa [Finset.card_range] at hlt
  obtain ⟨t, hrun, hc, hlog, hb⟩ := cascadeTotal _ hready
  have hone : SameHeap st.tracer (st.tracer.exportOne span) := ⟨rfl, rfl, rfl, rfl, rfl, rfl⟩
  refine ⟨t, hrun, hone.trans hc.heap, hlog, hb, ?_⟩
  intro s
  rw [Finset.mem_insert, h.done_iff]
  constructor
  · rintro (rfl | hs | ⟨k, l, hkl, hs⟩)
    · exact .inl (hc.exported (Finset.mem_insert_self _ _))
    · exact .inl (hc.exported (Finset.mem_insert_of_mem hs))
    · by_cases hk : k = span ∨ Fresh (st.tracer.exportOne span) t k
      · exact .inl ((hc.fresh_iff s).mpr ⟨k, l, hkl, hs, hk⟩).1
      · have hkept := hc.kept k (fun heq => hk (.inl heq)) (fun hf => hk (.inr hf))
        exact .inr ⟨k, l, hkept.trans hkl, hs⟩
  · rintro (hs | ⟨k, l, hkl, hs⟩)
    · by_cases hold : s ∈ (st.tracer.exportOne span).exportedSpans
      · rcases Finset.mem_insert.mp hold with rfl | hold
        · exact .inl rfl
        · exact .inr (.inl hold)
      · obtain ⟨k, l, hkl, hsl, _⟩ := (hc.fresh_iff s).mp ⟨hs, hold⟩
        exact .inr (.inr ⟨k, l, hkl, hsl⟩)
    · have hk : ¬ (k = span ∨ Fresh (st.tracer.exportOne span) t k) := by
        intro hor
        rw [hc.emptied k hor] at hkl
        cases hkl
      have hkept := hc.kept k (fun heq => hk (.inl heq)) (fun hf => hk (.inr hf))
      exact .inr (.inr ⟨k, l, hkept.symm.trans hkl, hs⟩)

/-- A span whose parent was not exported waits in the bucket of the parent. -/
theorem Ledger.wait {st : Session} (h : st.Ledger) {span parentId : Nat}
    (hspan : st.tracer.IsSpan span) (hdone : span ∉ st.done)
    (hparent : st.tracer.parentOf span = some parentId)
    (hlocked : parentId ∉ st.tracer.exportedSpans) {t : Tracer}
    (ht : t = st.tracer.markSpanAsWaitingForParent span) :
    t.ExportLog ∧ t.Buckets ∅ ∧
      ∀ s, s ∈ insert span st.done ↔
        s ∈ t.exportedSpans ∨ ∃ k l, t.waitingList k = some l ∧ s ∈ l := by
  rw [markSpanAsWaitingForParent_eq hparent] at ht
  subst ht
  have hnew : span ∉ st.tracer.exportedSpans := fun hs => hdone ((h.done_iff span).mpr (.inl hs))
  have hfree : ∀ k l, st.tracer.waitingList k = some l → span ∉ l :=
    fun k l hkl hs => hdone ((h.done_iff span).mpr (.inr ⟨k, l, hkl, hs⟩))
  set waitVec := (st.tracer.waitingList parentId).getD [] with hwaitVec
  have hold : ∀ s ∈ waitVec, ∃ l, st.tracer.waitingList parentId = some l ∧ s ∈ l := by
    intro s hs
    cases hl : st.tracer.waitingList parentId with
    | none => simp [hwaitVec, hl] at hs
    | some l => exact ⟨l, rfl, by simpa [hwaitVec, hl] using hs⟩
  have hbucket : ∀ {k l}, Function.update st.tracer.waitingList parentId
        (some (waitVec ++ [span])) k = some l →
      st.tracer.waitingList k = some l ∨ k = parentId ∧ l = waitVec ++ [span] := by
    intro k l hkl
    by_cases hk : k = parentId
    · subst hk
      rw [Function.update_self] at hkl
      exact .inr ⟨rfl, (Option.some.inj hkl).symm⟩
    · rw [Function.update_of_ne hk] at hkl
      exact .inl hkl
  have hmem : ∀ {k l}, Function.update st.tracer.waitingList parentId
        (some (waitVec ++ [span])) k = some l → ∀ s ∈ l,
      (∃ l, st.tracer.waitingList k = some l ∧ s ∈ l) ∨ k = parentId ∧ s = span := by
    intro k l hkl s hs
    rcases hbucket hkl with hkl | ⟨rfl, rfl⟩
    · exact .inl ⟨l, hkl, hs⟩
    · rcases List.mem_append.mp hs with hs | hs
      · exact .inl (hold s hs)
      · exact .inr ⟨rfl, List.mem_singleton.mp hs⟩
  refine ⟨h.log.frame rfl rfl rfl rfl, ⟨?_, ?_, ?_, ?_, ?_⟩, ?_⟩
  · intro k l hkl s hs
    rcases hmem hkl s hs with ⟨l, hkl, hs⟩ | ⟨rfl, rfl⟩
    · exact h.buckets.parent hkl s hs
    · exact hparent
  · intro k l hkl
    rcases hbucket hkl with hkl | ⟨rfl, rfl⟩
    · exact h.buckets.nodup hkl
    · have hspanVec : span ∉ waitVec := fun hs => by
        obtain ⟨l, hl, hsl⟩ := hold span hs
        exact hfree _ l hl hsl
      have hnodup : waitVec.Nodup := by
        cases hl : st.tracer.waitingList k with
        | none => simp [hwaitVec, hl]
        | some l => simpa [hwaitVec, hl] using h.buckets.nodup hl
      simpa using hnodup.concat hspanVec
  · intro k l hkl s hs
    rcases hmem hkl s hs with ⟨l, hkl, hs⟩ | ⟨_, rfl⟩
    · exact h.buckets.isSpan hkl s hs
    · exact hspan
  · intro k l hkl hk
    rcases hbucket hkl with hkl | ⟨rfl, _⟩
    · exact h.buckets.key hkl hk
    · exact hlocked
  · intro k l hkl hk s hs
    rcases hmem hkl s hs with ⟨l, hkl, hs⟩ | ⟨_, rfl⟩
    · exact h.buckets.waiting hkl hk s hs
    · exact hnew
  · intro s
    rw [Finset.mem_insert, h.done_iff]
    constructor
    · rintro (rfl | hs | ⟨k, l, hkl, hs⟩)
      · exact .inr ⟨parentId, waitVec ++ [s], by simp, by simp⟩
      · exact .inl hs
      · by_cases hk : k = parentId
        · subst hk
          have hs' : s ∈ waitVec := by simpa [hwaitVec, hkl] using hs
          exact .inr ⟨k, waitVec ++ [span], by simp, List.mem_append_left _ hs'⟩
        · exact .inr ⟨k, l, by simpa [hk] using hkl, hs⟩
    · rintro (hs | ⟨k, l, hkl, hs⟩)
      · exact .inr (.inl hs)
      · rcases hmem hkl s hs with ⟨l, hkl, hs⟩ | ⟨_, rfl⟩
        · exact .inr (.inr ⟨k, l, hkl, hs⟩)
        · exact .inl rfl

/-- `MarkSpanAsDone` of a span that was not marked before succeeds. -/
theorem Ledger.markSpanAsDone {st : Session} (h : st.Ledger) {span : Nat}
    (hspan : st.tracer.IsSpan span) (hdone : span ∉ st.done) :
    ∃ st', st.call (.markSpanAsDone span) = some st' ∧ st'.Ledger := by
  have hfinish : ∀ t, st.tracer.markSpanAsDone span = some t → t.ExportLog → t.Buckets ∅ →
      (∀ s, s ∈ insert span st.done ↔
        s ∈ t.exportedSpans ∨ ∃ k l, t.waitingList k = some l ∧ s ∈ l) →
      ∃ st', st.call (.markSpanAsDone span) = some st' ∧ st'.Ledger := by
    intro t ht hlog hb hiff
    have hcall : st.call (.markSpanAsDone span) =
        some { st with tracer := t, done := insert span st.done } :=
      Option.map_eq_some_iff.mpr ⟨t, ht, rfl⟩
    have havailable : st.Available (.markSpanAsDone span) := hspan
    exact ⟨_, hcall, h.valid.call havailable hcall, hlog, hb, hiff⟩
  by_cases hready : st.tracer.wasParentExported span
  · have hparent : ∀ p, st.tracer.parentOf span = some p → p ∈ st.tracer.exportedSpans := by
      intro p hp
      simpa [wasParentExported, hp] using hready
    have hnew : span ∉ st.tracer.exportedSpans := fun hs => hdone ((h.done_iff span).mpr (.inl hs))
    obtain ⟨hmark, hexport, _⟩ := h.log.exportOne hspan hnew hparent
    obtain ⟨t, hrun, hheap, hlog, hb, hiff⟩ := h.export_span hspan hdone hparent
    have hcall : st.tracer.markSpanAsDone span =
        if t.safeToDeleteTrace (st.tracer.traceIdOf span) then
          t.removeTrace (st.tracer.traceIdOf span) else some t := by
      unfold Tracer.markSpanAsDone
      dsimp only
      rw [if_pos hready, hmark]
      simp only [Option.bind_eq_bind, Option.bind_some, hexport]
      have hids : (st.tracer.exportOne span).nextSpanId = st.tracer.nextSpanId := rfl
      rw [hids, hrun]
      rfl
    by_cases hsafe : t.safeToDeleteTrace (st.tracer.traceIdOf span)
    · have hexists : (t.traces (st.tracer.traceIdOf span)).isSome := by
        unfold safeToDeleteTrace at hsafe
        split at hsafe
        · cases hsafe
        · simp [*]
      rw [if_pos hsafe, removeTrace, if_pos hexists] at hcall
      exact hfinish _ hcall (hlog.frame rfl rfl rfl rfl)
        ⟨hb.parent, hb.nodup, hb.isSpan, hb.key, hb.waiting⟩ hiff
    · rw [if_neg hsafe] at hcall
      exact hfinish t hcall hlog hb hiff
  · have hexists : ∃ p, st.tracer.parentOf span = some p ∧ p ∉ st.tracer.exportedSpans := by
      unfold wasParentExported at hready
      cases hp : st.tracer.parentOf span with
      | none => simp [hp] at hready
      | some p => exact ⟨p, rfl, by simpa [hp] using hready⟩
    obtain ⟨p, hp, hlocked⟩ := hexists
    obtain ⟨hlog, hb, hiff⟩ := h.wait hspan hdone hp hlocked rfl
    have hcall : st.tracer.markSpanAsDone span =
        some (st.tracer.markSpanAsWaitingForParent span) := by
      unfold Tracer.markSpanAsDone
      exact if_neg hready
    exact hfinish _ hcall hlog hb hiff

theorem Ledger.call {st st' : Session} {call : TracerCall} (h : st.Ledger)
    (hallowed : st.Available call ∧ st.DoneOnce call) (hcall : st.call call = some st') :
    st'.Ledger := by
  by_cases hmark : ∃ span, call = .markSpanAsDone span
  · obtain ⟨span, rfl⟩ := hmark
    obtain ⟨st₁, hcall₁, hledger⟩ := h.markSpanAsDone hallowed.1 hallowed.2
    rw [hcall] at hcall₁
    exact Option.some.inj hcall₁ ▸ hledger
  · have hnot : ∀ span, call ≠ .markSpanAsDone span := fun span heq => hmark ⟨span, heq⟩
    exact h.frame (h.valid.call hallowed.1 hcall) (sameExports_call h hallowed.2 hnot hcall)
      (counters_call h.valid hcall).2

/-- The states of the runs in which every span is finished once. -/
def Reached (st : Session) : Prop :=
  Transition.Reachable Session.call (fun st call => st.Available call ∧ st.DoneOnce call) init st

theorem Reached.ledger {st : Session} (h : st.Reached) : st.Ledger :=
  Transition.Reachable.invariant ledger_init Ledger.call h

instance (st : Session) (call : TracerCall) : Decidable (st.DoneOnce call) := by
  refine call.casesOn ?_ ?_ ?_ ?_ ?_ ?_ ?_ ?_ ?_ ?_ <;> intros <;> unfold DoneOnce <;> infer_instance

/-- Execute calls that respect the discipline. -/
def finishOnce (st : Session) (calls : List TracerCall) : Option Session :=
  Transition.follow Session.call (fun st call => st.Available call ∧ st.DoneOnce call) st calls

theorem reached_finishOnce {calls : List TracerCall} {st : Session}
    (h : finishOnce init calls = some st) : st.Reached :=
  Transition.Reachable.refl.follow h

/-- A root, its child and the child of that one, finished in the opposite order. -/
def lateRoot : List TracerCall :=
  [.startSpan ⟨10, true⟩, .readParent 1, .startSpanByParent (.nth 0 0 10) ⟨20, true⟩,
    .createPassOnContext .kDma 2,
    .startSpanByParentPassOnContext ⟨.nth 0 1 20, .kDma⟩ ⟨30, true⟩,
    .markSpanAsDone 3, .markSpanAsDone 2, .markSpanAsDone 1]

/-- Every span is exported at most once and after its parent, and no call of
`MarkSpanAsDone` aborts. -/
theorem exported_once_parent_first {st : Session} (h : st.Reached) :
    st.tracer.exporter.exported.Nodup ∧
      ParentFirst st.tracer.parentOf st.tracer.exporter.exported ∧
      ∀ span, st.Available (.markSpanAsDone span) → st.DoneOnce (.markSpanAsDone span) →
        ∃ st', st.call (.markSpanAsDone span) = some st' := by
  have hledger := h.ledger
  refine ⟨hledger.log.nodup, hledger.log.parentFirst, fun span hspan hdone => ?_⟩
  obtain ⟨st', hcall, _⟩ := hledger.markSpanAsDone hspan hdone
  exact ⟨st', hcall⟩

theorem exported_lateRoot : ∃ st : Session, st.tracer.exporter.exported = [1, 2, 3] ∧
    st.tracer.exporter.exported.Nodup ∧
    ParentFirst st.tracer.parentOf st.tracer.exporter.exported :=
  have hrun : ∃ st, finishOnce init lateRoot = some st ∧ st.tracer.exporter.exported = [1, 2, 3] :=
    ⟨(finishOnce init lateRoot).get (by decide), (Option.some_get _).symm, by decide⟩
  have ⟨st, hst, horder⟩ := hrun
  have hall := exported_once_parent_first (reached_finishOnce hst)
  ⟨st, horder, hall.1, hall.2.1⟩

/-- A span that was marked as done was exported or waits for its parent, once and in
the bucket of the parent, which was not exported. So everything is exported that leads
to a root through spans that were marked as done. -/
theorem done_exported_or_waiting {st : Session} (h : st.Reached) :
    (∀ s, s ∈ st.done ↔ s ∈ st.tracer.exportedSpans ∨
        ∃ k l, st.tracer.waitingList k = some l ∧ s ∈ l) ∧
      (∀ k l, st.tracer.waitingList k = some l → k ∉ st.tracer.exportedSpans ∧ l.Nodup ∧
        ∀ s ∈ l, s ∉ st.tracer.exportedSpans ∧ st.tracer.parentOf s = some k) ∧
      ∀ s, s ∈ st.tracer.exportedSpans ↔ Released st.tracer.parentOf (↑st.done) s := by
  have hledger := h.ledger
  have hkey : ∀ {k l}, st.tracer.waitingList k = some l → k ∉ st.tracer.exportedSpans :=
    fun hkl => hledger.buckets.key hkl (Set.notMem_empty _)
  have hwaiting : ∀ {k l}, st.tracer.waitingList k = some l →
      ∀ s ∈ l, s ∉ st.tracer.exportedSpans :=
    fun hkl => hledger.buckets.waiting hkl (Set.notMem_empty _)
  refine ⟨hledger.done_iff, ?_, ?_⟩
  · intro k l hkl
    exact ⟨hkey hkl, hledger.buckets.nodup hkl,
      fun s hs => ⟨hwaiting hkl s hs, hledger.buckets.parent hkl s hs⟩⟩
  · intro s
    constructor
    · intro hs
      refine hledger.log.parentFirst.released (fun x hx => ?_) ((hledger.log.mem_iff s).mp hs)
      exact (hledger.done_iff x).mpr (.inl ((hledger.log.mem_iff x).mpr hx))
    · intro hs
      have hstep : ∀ x ∈ st.done, ∀ p, st.tracer.parentOf x = some p →
          p ∈ st.tracer.exportedSpans → x ∈ st.tracer.exportedSpans := by
        intro x hx p hp hpe
        rcases (hledger.done_iff x).mp hx with hxe | ⟨k, l, hkl, hxl⟩
        · exact hxe
        · have hxk := hledger.buckets.parent hkl x hxl
          rw [hp] at hxk
          exact absurd (Option.some.inj hxk ▸ hpe) (hkey hkl)
      refine Finset.mem_coe.mp (hs.mem ?_ ?_)
      · intro x hx hroot
        rcases (hledger.done_iff x).mp hx with hxe | ⟨k, l, hkl, hxl⟩
        · exact hxe
        · have hxk := hledger.buckets.parent hkl x hxl
          rw [hroot] at hxk
          cases hxk
      · exact fun x hx p hp hxp => hstep x hx p hxp hp

theorem done_waiting_lateRoot : ∃ st : Session, st.done = {2, 3} ∧
    ∀ s, s ∈ st.tracer.exportedSpans ↔ Released st.tracer.parentOf (↑st.done) s :=
  have hrun : ∃ st, finishOnce init (lateRoot.take 7) = some st ∧ st.done = {2, 3} :=
    ⟨(finishOnce init (lateRoot.take 7)).get (by decide), (Option.some_get _).symm, by decide⟩
  have ⟨st, hst, hdone⟩ := hrun
  ⟨st, hdone, (done_exported_or_waiting (reached_finishOnce hst)).2.2⟩

end Session

end Columbo
