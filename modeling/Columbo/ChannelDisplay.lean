import Columbo.ChannelRefinement
import Columbo.OStream

/-!
# Displaying a bounded channel

The loop of `Display` adds the offset to the read index after it was reduced modulo the
capacity, and not before. The slots that it accesses therefore go on behind the end of
the buffer where those of the queue start again at its front.
-/
namespace Columbo

/-- A value printer gets a reference to the value, and could change it. -/
abbrev ValuePrinter (α : Type) := OStream → α → OStream × α

namespace CoroBoundedChannel

variable {α : Type} {capacity : ℕ}

/-- `read_index_ + index % capacity_`. -/
def displaySlot (s : CoroBoundedChannel α capacity) (index : ℕ) : ℕ :=
  s.readIndex + index % capacity

def displayState (s : CoroBoundedChannel α capacity) (out : OStream) : OStream :=
  let out := (out.str "Channel:").str "\n"
  let out := ((out.str "capacity=").uint capacity).str "\n"
  let out := ((out.str "size=").uint s.size).str "\n"
  let out := ((out.str "read_index=").uint s.readIndex).str "\n"
  let out := ((out.str "write_index=").uint s.writeIndex).str "\n"
  let out := ((out.str "closed=").uint s.closed.toNat).str "\n"
  ((out.str "poisened=").uint s.poisened.toNat).str "\n"

/-- The loop, with the number of iterations that are left until the index is the size. -/
def displayLoop (valuePrinter : ValuePrinter α) :
    (left index : ℕ) → OStream → CoroBoundedChannel α capacity →
      Except Stop (OStream × CoroBoundedChannel α capacity)
  | 0, _, out, s => .ok (out, s)
  | left + 1, index, out, s =>
    match s.buffer[s.displaySlot index]? with
    | some (some value) =>
      let (out, value) := valuePrinter out value
      displayLoop valuePrinter left (index + 1) (out.str "\n")
        { s with buffer := s.buffer.setIfInBounds (s.displaySlot index) (some value) }
    | _ => .error .fails

def display (s : CoroBoundedChannel α capacity) (out : OStream) (valuePrinter : ValuePrinter α) :
    Except Stop (OStream × CoroBoundedChannel α capacity) := do
  let out := ((s.displayState out).str "Buffer=\x7b").str "\n"
  let (out, s) ← displayLoop valuePrinter s.size 0 out s
  .ok ((out.str "\x7d").str "\n", s)

/-- The values go through the printer one after the other. -/
def printValues (valuePrinter : ValuePrinter α) (out : OStream) (values : List α) : OStream :=
  values.foldl (fun out value => (valuePrinter out value).1.str "\n") out

/-- Only slots of the buffer are accessed, the printer gets these values in this order, and
the channel stays as it is. -/
structure Displays (s : CoroBoundedChannel α capacity) (valuePrinter : ValuePrinter α)
    (values : List α) : Prop where
  slots : ∀ index < s.size, s.displaySlot index < capacity
  shows : ∀ out, s.display out valuePrinter =
    .ok (((printValues valuePrinter (((s.displayState out).str "Buffer=\x7b").str "\n") values).str
      "\x7d").str "\n", s)

section Loop

variable {s : CoroBoundedChannel α capacity} {q : FifoQueue α} {valuePrinter : ValuePrinter α}

theorem setIfInBounds_self {i : ℕ} {slot : Option α} (h : s.buffer[i]? = some slot) :
    { s with buffer := s.buffer.setIfInBounds i slot } = s := by
  obtain ⟨hi, hslot⟩ := Vector.getElem?_eq_some_iff.mp h
  have hbuffer : s.buffer.setIfInBounds i slot = s.buffer := by
    refine Vector.ext fun j hj => ?_
    rw [Vector.getElem_setIfInBounds]
    split_ifs with hij
    · subst hij
      exact hslot.symm
    · rfl
  rw [hbuffer]

/-- Where the queue does not reach the end of the buffer the loop walks along it. -/
theorem displayLoop_eq (hq : Represents s q) (hwindow : s.readIndex + s.size ≤ capacity)
    (hprinter : ∀ out value, (valuePrinter out value).2 = value) {left index : ℕ}
    (hleft : index + left = s.size) (out : OStream) :
    displayLoop valuePrinter left index out s =
      .ok (printValues valuePrinter out (q.values.drop index), s) := by
  induction left generalizing index out with
  | zero =>
    rw [List.drop_eq_nil_of_le (by rw [← hq.size]; omega)]
    rfl
  | succ left ih =>
    have hindex : index < q.values.length := by rw [← hq.size]; omega
    have hslot : s.displaySlot index = s.readIndex + index := by
      rw [displaySlot, Nat.mod_eq_of_lt (by omega)]
    have hvalue : s.buffer[s.displaySlot index]? = some (some q.values[index]) := by
      rw [hslot, ← hq.slots index hindex, Nat.mod_eq_of_lt (by omega)]
    rw [displayLoop, hvalue]
    simp only [hprinter]
    rw [setIfInBounds_self hvalue, ih (by omega), List.drop_eq_getElem_cons hindex]
    rfl

theorem displays_iff (hq : Represents s q)
    (hprinter : ∀ out value, (valuePrinter out value).2 = value) :
    s.Displays valuePrinter q.values ↔ s.readIndex + s.size ≤ capacity := by
  have hread := hq.readIndex
  have hroom := hq.room
  constructor
  · intro hdisplays
    by_cases hempty : s.size = 0
    · omega
    · have hlast := hdisplays.slots (s.size - 1) (by omega)
      rw [displaySlot, Nat.mod_eq_of_lt (by omega)] at hlast
      omega
  · intro hwindow
    refine ⟨fun index hindex => ?_, fun out => ?_⟩
    · rw [displaySlot, Nat.mod_eq_of_lt (by omega)]
      omega
    · rw [display, displayLoop_eq hq hwindow hprinter (Nat.zero_add _)]
      rfl

end Loop

section Runs

variable {s s' : CoroBoundedChannel α capacity} {h : ChannelHistory α}

/-- Nothing is in the channel. -/
structure Idle (s : CoroBoundedChannel α capacity) : Prop where
  size : s.size = 0
  readIndex : s.readIndex = 0

/-- A call that leaves the channel as it is. -/
theorem Idle.same (hidle : s.Idle) {c : ChannelCall α} {r₀ r : c.Response}
    (hnone : ChannelHistory.accepted [⟨c, r₀⟩] = [])
    (hexec : (Except.ok (r₀, s) : Except Stop _) = .ok (r, s')) :
    s'.Idle ∧ ChannelHistory.accepted [⟨c, r⟩] = [] := by
  obtain ⟨rfl, rfl⟩ := Prod.mk.inj (Except.ok.inj hexec)
  exact ⟨hidle, hnone⟩

/-- A channel without slots accepts nothing, and has nothing to hand out. -/
theorem exec_idle (hidle : s.Idle) (hcapacity : capacity = 0) {c : ChannelCall α} {r : c.Response}
    (hexec : s.exec c = .ok (r, s')) :
    s'.Idle ∧ ChannelHistory.accepted [⟨c, r⟩] = [] := by
  have hsize := hidle.size
  cases c with
  | push value =>
    simp only [exec, push] at hexec
    split_ifs at hexec with hwaits hended
    · exact hidle.same rfl hexec
    · exact absurd (by simpa [hsize, hcapacity] using hended) hwaits
  | tryPush value =>
    simp only [exec, tryPush] at hexec
    split_ifs at hexec with hended
    · exact hidle.same rfl hexec
    · simp [hsize, hcapacity] at hended
  | pop =>
    simp only [exec, pop] at hexec
    split_ifs at hexec
    · exact hidle.same rfl hexec
    · exact hidle.same rfl hexec
  | tryPop =>
    simp only [exec, tryPop] at hexec
    split_ifs at hexec
    · exact hidle.same rfl hexec
    · exact hidle.same rfl hexec
  | tryPopOnTrue predicate =>
    simp only [exec, tryPopOnTrue] at hexec
    split_ifs at hexec with hempty
    · exact hidle.same rfl hexec
    · simp [hsize] at hempty
  | closeChannel =>
    obtain ⟨rfl, rfl⟩ := Prod.mk.inj (Except.ok.inj hexec)
    exact ⟨⟨hidle.size, hidle.readIndex⟩, rfl⟩
  | poisenChannel =>
    obtain ⟨rfl, rfl⟩ := Prod.mk.inj (Except.ok.inj hexec)
    exact ⟨⟨hidle.size, hidle.readIndex⟩, rfl⟩

theorem run_idle (hidle : s.Idle) (hcapacity : capacity = 0)
    (hrun : Executes.Run (fun s c => (exec s c).toOption) s h s') :
    s'.Idle ∧ h.accepted = [] := by
  induction hrun with
  | nil s => exact ⟨hidle, rfl⟩
  | @cons s s₁ s' c r h hexec _ ih =>
    have hreturns : s.exec c = .ok (r, s₁) := by
      cases hresult : s.exec c with
      | error e => simp [hresult, Except.toOption] at hexec
      | ok result =>
        simp only [hresult, Except.toOption, Option.some.injEq] at hexec
        rw [hexec]
    obtain ⟨hidle₁, hfirst⟩ := exec_idle hidle hcapacity hreturns
    obtain ⟨hidle', hrest⟩ := ih hidle₁
    have happend := ChannelHistory.accepted_append [⟨c, r⟩] h
    rw [hfirst, hrest] at happend
    exact ⟨hidle', happend⟩

/-- After any operations `Display` shows the values that were accepted and not popped
exactly if they do not reach behind the end of the buffer. -/
theorem displays_run_iff (hrun : Executes.Run (fun s c => (exec s c).toOption)
    ({ } : CoroBoundedChannel α capacity) h s) (valuePrinter : ValuePrinter α)
    (hprinter : ∀ out value, (valuePrinter out value).2 = value) :
    s.Displays valuePrinter (h.accepted.drop h.popped.length) ↔
      s.readIndex + s.size ≤ capacity := by
  rcases Nat.eq_zero_or_pos capacity with hcapacity | hcapacity
  · obtain ⟨hidle, haccepted⟩ := run_idle ⟨rfl, rfl⟩ hcapacity hrun
    rw [haccepted, List.drop_nil]
    refine iff_of_true ⟨fun index hindex => ?_, fun out => ?_⟩ ?_
    · rw [hidle.size] at hindex
      exact absurd hindex (Nat.not_lt_zero index)
    · rw [display, hidle.size]
      rfl
    · rw [hidle.size, hidle.readIndex]
      exact Nat.zero_le capacity
  · have hrefines : Executes.Refines (fun s c => (exec s c).toOption)
        (FifoQueue.exec (some capacity)) (Represents (α := α)) := fun hrel => (hrel.exec _).rel.2
    obtain ⟨q, hmodel, hq⟩ := hrefines.run (Represents.init hcapacity) hrun
    have haccepted : h.accepted = h.popped ++ q.values := (FifoQueue.run_values hmodel).1
    rw [haccepted, List.drop_left]
    exact displays_iff hq hprinter

end Runs

/-- Prints a number and leaves it as it is. -/
def printNat : ValuePrinter ℕ := fun out value => (out.uint value, value)

/-- The second of two values, and a third one in the slot of the first. -/
def wrapped : ChannelHistory ℕ :=
  [⟨.push 1, true⟩, ⟨.push 2, true⟩, ⟨.pop, some 1⟩, ⟨.push 3, true⟩]

theorem displays_run_iff_twoValues :
    ∃ s : CoroBoundedChannel ℕ 2, s.readIndex + s.size ≤ 2 ∧ s.Displays printNat [1, 2] := by
  have hrun : ∃ s, Executes.Run (fun s c => (exec s c).toOption) ({ } : CoroBoundedChannel ℕ 2)
      [⟨.push 1, true⟩, ⟨.push 2, true⟩] s ∧ s.readIndex + s.size ≤ 2 :=
    ⟨_, .cons rfl (.cons rfl (.nil _)), by decide⟩
  obtain ⟨s, hrun, hwindow⟩ := hrun
  exact ⟨s, hwindow, (displays_run_iff hrun printNat fun _ _ => rfl).mpr hwindow⟩

/-- With the queue wrapped around, the loop accesses a slot behind the buffer. -/
theorem not_displays_wrapped :
    ¬ ∀ (capacity : ℕ) (h : ChannelHistory ℕ) (s : CoroBoundedChannel ℕ capacity)
      (valuePrinter : ValuePrinter ℕ), Executes.Run (fun s c => (exec s c).toOption) { } h s →
      (∀ out value, (valuePrinter out value).2 = value) →
      s.Displays valuePrinter (h.accepted.drop h.popped.length) := by
  intro hall
  have hrun : ∃ s, Executes.Run (fun s c => (exec s c).toOption) ({ } : CoroBoundedChannel ℕ 2)
      wrapped s ∧ s.readIndex = 1 ∧ s.size = 2 :=
    ⟨_, .cons rfl (.cons rfl (.cons rfl (.cons rfl (.nil _)))), rfl, rfl⟩
  obtain ⟨s, hrun, hread, hsize⟩ := hrun
  have hdisplays := hall 2 wrapped s printNat hrun fun _ _ => rfl
  have hslot := hdisplays.slots 1 (by omega)
  rw [displaySlot, hread] at hslot
  exact absurd hslot (by decide)

end CoroBoundedChannel

end Columbo
