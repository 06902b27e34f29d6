import Columbo.SpannerSystem

/-!
# What spanners keep in all interleavings

A spanner relies on the tracer to give every new span an identifier of its own. What it
guarantees of its operations then holds in every run of a system, whatever the other
spanners and the environment do.
-/
namespace Columbo

open Coroutine

/-- The spans that the operations created. -/
def Log.created (h : Log) : List Nat := h.filterMap fun e => e.1.created e.2

@[simp] theorem Log.created_append (h h' : Log) :
    Log.created (h ++ h') = h.created ++ Log.created h' := List.filterMap_append

@[simp] theorem Log.created_singleton (c : Command) (r : c.Response) :
    Log.created [⟨c, r⟩] = (c.created r).toList := by
  unfold Log.created
  cases hcreated : c.created r <;> simp [hcreated]

theorem Log.mem_created_of_started {types : List SpanType} {h : Log} {s : Started}
    (hs : s ∈ started types h) : s.id ∈ created h := by
  obtain ⟨⟨c, r⟩, he, hstarted⟩ := List.mem_filterMap.mp (List.mem_of_mem_filter hs)
  refine List.mem_filterMap.mpr ⟨⟨c, r⟩, he, ?_⟩
  cases c with
  | startSpan | startSpanByParent | startSpanByParentPassOnContext =>
    obtain rfl := Option.some.inj hstarted
    rfl
  | _ => cases hstarted

/-- Every operation is guaranteed by those before it. -/
def Log.Followed (guar : Log → Command → Prop) (h : Log) : Prop :=
  ∀ h₁ e h₂, h = h₁ ++ e :: h₂ → guar h₁ e.1

theorem Log.Followed.nil {guar : Log → Command → Prop} : Log.Followed guar [] := by
  intro h₁ e h₂ heq
  simp at heq

theorem Log.Followed.concat {guar : Log → Command → Prop} {h : Log} (hh : h.Followed guar)
    {c : Command} (hc : guar h c) (r : c.Response) : Log.Followed guar (h ++ [⟨c, r⟩]) := by
  intro h₁ e h₂ heq
  rcases List.eq_nil_or_concat h₂ with rfl | ⟨h₂, last, rfl⟩
  · obtain ⟨rfl, he⟩ := List.append_inj' heq rfl
    obtain rfl := List.singleton_inj.mp he
    exact hc
  · have hassoc : h ++ [⟨c, r⟩] = (h₁ ++ e :: h₂) ++ [last] := by simpa using heq
    exact hh h₁ e h₂ (List.append_inj' hassoc rfl).1

/-- Some world gives the response, and it does not name a span of this spanner. -/
def freshRely (h : Log) (c : Command) (r : c.Response) : Prop :=
  Possible World.exec c r ∧ ∀ id, c.created r = some id → id ∉ h.created

/-- Every span was created once, by one of the spanners at most. -/
structure Separate {ι : Type} (w : World) (h : ι → Log) : Prop where
  created : ∀ i, ∀ id ∈ (h i).created, id < w.tracer.nextSpanId
  nodup : ∀ i, (h i).created.Nodup
  disjoint : ∀ i j, i ≠ j → (h i).created.Disjoint (h j).created

section

variable {ι : Type} {w w' : World} {h : ι → Log} {c : Command} {r : c.Response}

theorem World.exec_created (hexec : w.exec c = some (r, w')) :
    w'.tracer.nextSpanId = w.tracer.nextSpanId + (c.created r).toList.length ∧
      ∀ id, c.created r = some id → id = w.tracer.nextSpanId := by
  have hstep := World.exec_tracerStep hexec
  exact ⟨hstep.nextSpanId, fun id hid => hstep.created_eq hid⟩

/-- An operation of somebody else creates other spans. -/
theorem Separate.outside (hsep : Separate w h) (hexec : w.exec c = some (r, w')) :
    Separate w' h := by
  obtain ⟨hnext, -⟩ := World.exec_created hexec
  refine ⟨fun i id hid => ?_, hsep.nodup, hsep.disjoint⟩
  have hlt := hsep.created i id hid
  omega

variable [DecidableEq ι]

theorem Separate.exec {i : ι} (hsep : Separate w h) (hexec : w.exec c = some (r, w')) :
    freshRely (h i) c r ∧ Separate w' (Function.update h i (h i ++ [⟨c, r⟩])) := by
  obtain ⟨hnext, hid⟩ := World.exec_created hexec
  have hfresh : ∀ j, ∀ id, c.created r = some id → id ∉ (h j).created := by
    intro j id hcreated hmem
    have hlt := hsep.created j id hmem
    have heq := hid id hcreated
    omega
  have hcreated : ∀ j, (Function.update h i (h i ++ [⟨c, r⟩]) j).created =
      (h j).created ++ if j = i then (c.created r).toList else [] := by
    intro j
    by_cases hj : j = i
    · subst hj
      simp
    · simp [hj]
  refine ⟨⟨⟨w, w', hexec⟩, hfresh i⟩, ?_, ?_, ?_⟩
  · intro j id hmem
    rw [hcreated] at hmem
    rcases List.mem_append.mp hmem with hold | hnew
    · have hlt := hsep.created j id hold
      omega
    · by_cases hj : j = i
      · rw [if_pos hj] at hnew
        have hsome : c.created r = some id := Option.mem_toList.mp hnew
        rw [hsome] at hnext
        have heq := hid id hsome
        simp only [Option.toList_some, List.length_singleton] at hnext
        omega
      · simp [hj] at hnew
  · intro j
    rw [hcreated]
    by_cases hj : j = i
    · rw [if_pos hj]
      cases hsome : c.created r with
      | none => simpa using hsep.nodup j
      | some id =>
        have hnot := hfresh j id hsome
        rw [Option.toList_some]
        exact (hsep.nodup j).append (List.nodup_singleton id) (by simpa using hnot)
    · simpa [hj] using hsep.nodup j
  · intro j k hne
    rw [hcreated, hcreated]
    have hnew : ∀ j k : ι, j ≠ k → (h j).created.Disjoint
        (if k = i then (c.created r).toList else []) := by
      intro j k _ id hmem hcreated
      split_ifs at hcreated
      · exact hfresh j id (Option.mem_toList.mp hcreated) hmem
      · cases hcreated
    have hboth : (if j = i then (c.created r).toList else []).Disjoint
        (if k = i then (c.created r).toList else []) := by
      by_cases hj : j = i
      · have hk : k ≠ i := fun hk => hne (hj.trans hk.symm)
        simp [hk]
      · simp [hj]
    refine List.disjoint_append_left.mpr ⟨?_, ?_⟩
    · exact List.disjoint_append_right.mpr ⟨hsep.disjoint j k hne, hnew j k hne⟩
    · exact List.disjoint_append_right.mpr ⟨(hnew k j hne.symm).symm, hboth⟩

end

/-- What the handlers of one spanner keep holds when they return, whatever the others did
in the meantime. -/
theorem Spanner.keeps_among {α : Type} {guar : Log → Command → Prop} {post : Log → α → Prop}
    {x : Spanning α} (hx : Keeps guar freshRely post x []) {w w' : World} {h : Log} {a : α}
    (hamong : Among World.exec World.outside x w h (Pure.pure a) w') : post h a := by
  have hstart : Separate w fun _ : Unit => [] :=
    ⟨fun i id hid => (nomatch hid), fun i => .nil, fun i j _ id hid => (nomatch hid)⟩
  refine (Keeps.among (fun w h => Separate w fun _ : Unit => h) ?_ ?_ hstart hx hamong).1
  · intro w h c r w' hsep _ hexec
    obtain ⟨hfresh, hsep'⟩ := hsep.exec (i := ()) hexec
    have hupdate : Function.update (fun _ : Unit => h) () (h ++ [⟨c, r⟩]) =
        fun _ => h ++ [⟨c, r⟩] := by
      ext
      simp
    exact ⟨hfresh, hupdate ▸ hsep'⟩
  · intro w h c w' hsep houtside
    obtain ⟨⟨r, w₁⟩, hexec, rfl⟩ := Option.map_eq_some_iff.mp houtside
    exact hsep.outside hexec

/-- What a family of spanners guarantees is followed in all interleavings, and the spans
are separate. -/
theorem SystemState.followed {ι : Type} [DecidableEq ι] {env : TraceEnvironment} {rounds : Nat}
    {setup : ι → Setup} (guar : ι → Log → Command → Prop)
    (hkeeps : ∀ i, Keeps (guar i) freshRely (fun _ _ => True) ((setup i).program env rounds) [])
    {allowed : SystemState ι → Move ι Command → Prop} {w : World} {s : SystemState ι}
    (hs : Transition.Reachable SystemState.step allowed (SystemState.start env rounds setup w) s) :
    (∀ i, Log.Followed (guar i) (s.history i)) ∧ Separate s.world s.history := by
  have hguarded : Guarded guar (fun _ => freshRely) (fun _ _ _ => True)
      (fun w h => (∀ i, Log.Followed (guar i) (h i)) ∧ Separate w h) s := by
    refine Guarded.reachable ?_ ?_ ⟨⟨fun _ => .nil, ?_⟩, hkeeps⟩ hs
    · rintro w h i c r w' ⟨hfollowed, hsep⟩ hguar hexec
      obtain ⟨hfresh, hsep'⟩ := hsep.exec (i := i) hexec
      refine ⟨hfresh, fun j => ?_, hsep'⟩
      by_cases hj : j = i
      · subst hj
        simpa using (hfollowed j).concat hguar r
      · simpa [hj] using hfollowed j
    · rintro s c w' - ⟨hfollowed, hsep⟩ houtside
      obtain ⟨⟨r, w₁⟩, hexec, rfl⟩ := Option.map_eq_some_iff.mp houtside
      exact ⟨hfollowed, hsep.outside hexec⟩
    · exact ⟨fun i id hid => (nomatch hid), fun i => .nil, fun i j _ id hid => (nomatch hid)⟩
  exact hguarded.1

end Columbo
