import Columbo.ReaderInvariant

/-!
# What a reader of a file gets

Runs of the reader buffer from `OpenFile`. Whatever the block size, the content
and the sizes of the reads, the lines that are handed out are the first lines
of the content. All of them are handed out exactly when every line, with the
extra newlines in front of it, fits into the block with its terminator, and
the last one is terminated too. Looking for a line more than once before it is
taken changes the outcome when a look had to give up in front of a short line.
-/
namespace Columbo.ReaderBuffer

variable {B : ℕ} {s s' : ReaderBuffer B}

/-- A short line comes next. -/
def Short (s : ReaderBuffer B) : Prop :=
  ∃ k l ys, StartsLine kLineEnd s.pending k l ys ∧ l.length < B

theorem length_line_lt {xs : Bytes} {k : ℕ} {l ys : Bytes} (h : StartsLine kLineEnd xs k l ys)
    (hlen : xs.length ≤ B) : k + l.length < B := by
  have := h.length_eq
  omega

theorem pending_eq_strip (s : ReaderBuffer B) :
    s.pending = List.replicate (s.window.length - (strip kLineEnd s.window).length) kLineEnd ++
      (strip kLineEnd s.window ++ s.file.unread) := by
  rw [← List.append_assoc, replicate_append_strip]
  rfl

/-- What the text behind the window adds does not change its first line. -/
theorem short_of_found (hs : Inv s) (hfound : Found s) : Short s := by
  rcases hfound with ⟨k, l, ys, h⟩ | ⟨k, l, ys, h⟩
  · have hlen := length_window hs.cur_le hs.size_le
    have hsize := hs.size_le
    have hlt := length_line_lt (B := B) h (by omega)
    exact ⟨k, l, _, h.append s.file.unread, by omega⟩
  · have hlt := length_line_lt (B := B) h (by simp)
    have hline := h.append ((strip kLineEnd s.window ++ s.file.unread).drop B)
    rw [List.take_append_drop] at hline
    have hfirst := hline.replicate_append (s.window.length - (strip kLineEnd s.window).length)
    rw [← pending_eq_strip] at hfirst
    exact ⟨_, l, _, hfirst, by omega⟩

/-- A line that fits into the block, with the newlines in front of it, is found. -/
theorem found_of_fits {k : ℕ} {l ys : Bytes} (h : StartsLine kLineEnd s.pending k l ys)
    (hfits : k + l.length < B) : Found s := by
  right
  rw [pending_eq_strip] at h
  obtain ⟨hle, hline⟩ := h.of_replicate_append
  exact ⟨_, l, _, hline.take (by omega)⟩

/-- With an empty window a line is found in a block with the newlines before it. -/
theorem fits_of_found {k : ℕ} {l ys : Bytes} (hwindow : s.window = []) (hfound : Found s)
    (hline : StartsLine kLineEnd s.pending k l ys) : k + l.length < B := by
  rcases hfound with hf | ⟨j, l', ys', hf⟩
  · rw [hwindow] at hf
    obtain ⟨j, l', ys', hf⟩ := hf
    have hzero := hf.length_eq
    rw [List.length_nil] at hzero
    omega
  · have hlt := length_line_lt (B := B) hf (by simp)
    have hf' := hf.append ((strip kLineEnd s.window ++ s.file.unread).drop B)
    rw [List.take_append_drop, hwindow] at hf'
    have hpending : s.pending = [] ++ s.file.unread := by rw [pending, hwindow]
    rw [hpending] at hline
    obtain ⟨rfl, rfl, -⟩ := hline.unique hf'
    exact hlt

theorem short_iff_of_looked {found : Bool} (h : Looked s found s') : Short s ↔ Short s' := by
  obtain ⟨j, hpending⟩ := h.pending_eq
  constructor
  · rintro ⟨k, l, ys, hline, hlt⟩
    rw [hpending] at hline
    exact ⟨_, l, ys, hline.of_replicate_append.2, hlt⟩
  · rintro ⟨k, l, ys, hline, hlt⟩
    exact ⟨_, l, ys, hpending ▸ hline.replicate_append j, hlt⟩

section Delivery

/-- A file content that is delivered as a whole: lines with their terminator,
each of them shorter than the block together with the extra newlines in front
of it, and then only newlines. -/
inductive Deliverable (B : ℕ) : Bytes → Prop
  | blank (k : ℕ) : Deliverable B (List.replicate k kLineEnd)
  | line {xs : Bytes} {k : ℕ} {l ys : Bytes} (h : StartsLine kLineEnd xs k l ys)
      (hfits : k + l.length < B) (hys : Deliverable B ys) : Deliverable B xs

theorem readAll_of_not_found {fuel : ℕ} (hs : Inv s) (hfound : ¬ Found s) :
    readAll (fuel + 1) s = some [] := by
  obtain ⟨s', hnext, -⟩ := nextHandler_of_not_found hs hfound
  rw [readAll, hnext]
  rfl

theorem getRawLine_ofLine (l mem : Bytes) : (LineHandler.ofLine l mem).getRawLine = l := by
  simp [LineHandler.getRawLine, LineHandler.ofLine]

theorem readAll_of_next {fuel : ℕ} {l mem : Bytes}
    (h : nextHandler s = some (some (LineHandler.ofLine l mem), s')) :
    readAll (fuel + 1) s = (readAll fuel s').map (l :: ·) := by
  rw [readAll, h]
  simp only [Option.bind_eq_bind, Option.bind_some, getRawLine_ofLine]
  cases readAll fuel s' <;> rfl

theorem lines_replicate (k : ℕ) : lines kLineEnd (List.replicate k kLineEnd) = [] := by
  have h : lines kLineEnd (List.replicate k kLineEnd ++ []) = lines kLineEnd [] :=
    lines_replicate_append k []
  rwa [List.append_nil] at h

theorem not_startsLine_replicate {k j : ℕ} {l ys : Bytes} :
    ¬ StartsLine kLineEnd (List.replicate k kLineEnd) j l ys := by
  intro h
  have hlines := h.lines_eq
  rw [lines_replicate] at hlines
  cases hlines

/-- A deliverable content is delivered, from any state in which it is pending. -/
theorem readAll_of_deliverable {fuel : ℕ} (hs : Inv s) (hfuel : s.pending.length < fuel)
    (h : Deliverable B s.pending) : readAll fuel s = some (lines kLineEnd s.pending) := by
  generalize hxs : s.pending = xs at h hfuel
  induction h generalizing s fuel with
  | blank k =>
    obtain ⟨fuel, rfl⟩ : ∃ n, fuel = n + 1 := ⟨fuel - 1, by omega⟩
    rw [lines_replicate, readAll_of_not_found hs]
    intro hfound
    obtain ⟨j, l, ys, hline, -⟩ := short_of_found hs hfound
    rw [hxs] at hline
    exact not_startsLine_replicate hline
  | @line xs k l ys hline hfits _ ih =>
    obtain ⟨fuel, rfl⟩ : ∃ n, fuel = n + 1 := ⟨fuel - 1, by omega⟩
    subst hxs
    obtain ⟨j, l', mem, s', hnext, hs', hline', -⟩ :=
      nextHandler_of_found hs (found_of_fits hline hfits)
    obtain ⟨-, rfl, hys⟩ := hline.unique hline'
    have hlen := hline.length_eq
    rw [readAll_of_next hnext, ih hs' hys.symm (by omega), hline.lines_eq]
    rfl

/-- Read byte by byte, no other content is delivered. -/
theorem deliverable_of_readAll {fuel : ℕ} (hs : Inv s) (htight : Tight s) (hwindow : s.window = [])
    (hfuel : s.pending.length < fuel) (h : readAll fuel s = some (lines kLineEnd s.pending)) :
    Deliverable B s.pending := by
  induction fuel generalizing s with
  | zero => omega
  | succ fuel ih =>
    by_cases hhas : HasLine kLineEnd s.pending
    · obtain ⟨k, l, ys, hline⟩ := hhas
      by_cases hfound : Found s
      · obtain ⟨j, l', mem, s', hnext, hs', hline', htight'⟩ := nextHandler_of_found hs hfound
        obtain ⟨rfl, rfl, rfl⟩ := hline.unique hline'
        obtain ⟨ht, hw⟩ := htight' htight
        have hlen := hline.length_eq
        have hrest : readAll fuel s' = some (lines kLineEnd s'.pending) := by
          rw [readAll_of_next hnext, hline.lines_eq] at h
          cases hr : readAll fuel s' with
          | none => simp [hr] at h
          | some ls => simpa [hr] using h
        refine .line hline ?_ (ih hs' ht hw (by omega) hrest)
        exact fits_of_found hwindow hfound hline
      · rw [readAll_of_not_found hs hfound, hline.lines_eq] at h
        cases h
    · have hnot : ¬ Found s := fun hf => by
        obtain ⟨k, l, ys, hline, -⟩ := short_of_found hs hf
        exact hhas ⟨k, l, ys, hline⟩
      rw [readAll_of_not_found hs hnot] at h
      have hsplit := replicate_append_strip kLineEnd s.pending
      rw [hasLine_iff] at hhas
      by_cases hstrip : strip kLineEnd s.pending = []
      · rw [hstrip, List.append_nil] at hsplit
        rw [← hsplit]
        exact .blank _
      · rw [← hsplit, lines_replicate_append, lines_of_not_mem hhas hstrip] at h
        cases h

/-- A file is delivered, however the reads cut it up, exactly when its content
is deliverable. -/
theorem deliver_iff (B : ℕ) (content : Bytes) :
    (∀ chunks, deliver B content chunks = some (lines kLineEnd content)) ↔
      Deliverable B content := by
  constructor
  · intro h
    have hpending := pending_openFile B content fun _ => 1
    have hwindow : (openFile B content fun _ => 1).window = [] := by simp [window, openFile]
    have hdel : Deliverable B (openFile B content fun _ => 1).pending := by
      refine deliverable_of_readAll (inv_openFile B content _) ⟨fun _ => rfl, fun m hm => ?_⟩ hwindow
        (Nat.lt_succ_self _) ?_
      · simp [hwindow] at hm
      · rw [hpending]
        exact h fun _ => 1
    rwa [hpending] at hdel
  · intro h chunks
    have hpending := pending_openFile B content chunks
    have hread : readAll (content.length + 1) (openFile B content chunks) =
        some (lines kLineEnd (openFile B content chunks).pending) :=
      readAll_of_deliverable (inv_openFile B content chunks) (by rw [hpending]; omega)
        (by rwa [hpending])
    rwa [hpending] at hread

/-- A file without the newline at its end, shorter than the block. -/
theorem deliver_unterminated :
    (∀ l ∈ lines kLineEnd (bytes "a\nb"), l.length < 4) ∧
      deliver 4 (bytes "a\nb") (fun _ => 4) ≠ some (lines kLineEnd (bytes "a\nb")) := by
  decide +kernel

end Delivery

section Runs

/-- The calls of a reader. -/
inductive Call
  | hasStillLine
  | nextHandler

def call : Call → ReaderBuffer B → Option (Option LineHandler × ReaderBuffer B)
  | .hasStillLine, s => (hasStillLine s).map fun r => (none, r.2)
  | .nextHandler, s => nextHandler s

/-- A sequence of calls, with the lines that it yields in order. -/
def run : List Call → ReaderBuffer B → Option (List LineHandler × ReaderBuffer B)
  | [], s => some ([], s)
  | c :: cs, s => do
    let (handler, s) ← call c s
    let (handlers, s) ← run cs s
    pure (handler.toList ++ handlers, s)

/-- What `NextHandler` would yield now. -/
def yields (s : ReaderBuffer B) : Option (Option Bytes) :=
  (nextHandler s).map fun r => r.1.map LineHandler.getRawLine

/-- Looking for a line any number of times does not change what `NextHandler` yields. -/
def LookInvariant (s : ReaderBuffer B) : Prop :=
  ∀ n, ∃ s', run (List.replicate n .hasStillLine) s = some ([], s') ∧ yields s' = yields s

/-- A range of the buffer that holds a line and is followed by a newline. -/
def YieldsLine (handler : LineHandler) : Prop :=
  ∃ l mem, handler = LineHandler.ofLine l (kLineEnd :: mem) ∧ l ≠ [] ∧ kLineEnd ∉ l

/-- One call keeps the invariant and yields at most the next pending line. -/
theorem call_spec (c : Call) (hs : Inv s) :
    ∃ handler s', call c s = some (handler, s') ∧ Inv s' ∧ (∀ h ∈ handler, YieldsLine h) ∧
      lines kLineEnd s.pending =
        (handler.toList.map LineHandler.getRawLine) ++ lines kLineEnd s'.pending := by
  have hskip : ∀ s' : ReaderBuffer B, (∃ k, s.pending = List.replicate k kLineEnd ++ s'.pending) →
      lines kLineEnd s.pending = lines kLineEnd s'.pending := by
    rintro s' ⟨k, h⟩
    rw [h, lines_replicate_append]
  cases c with
  | hasStillLine =>
    obtain ⟨found, s', hlook, hl⟩ := hasStillLine_spec hs
    exact ⟨none, s', by simp [call, hlook], hl.inv, by simp, by simpa using hskip s' hl.pending_eq⟩
  | nextHandler =>
    by_cases hfound : Found s
    · obtain ⟨k, l, mem, s', hnext, hs', hline, -⟩ := nextHandler_of_found hs hfound
      refine ⟨some _, s', hnext, hs', ?_, ?_⟩
      · rintro h ⟨⟩
        exact ⟨l, mem, rfl, hline.ne_nil, hline.not_mem⟩
      · rw [hline.lines_eq]
        simp [getRawLine_ofLine]
    · obtain ⟨s', hnext, hl⟩ := nextHandler_of_not_found hs hfound
      exact ⟨none, s', hnext, hl.inv, by simp, by simpa using hskip s' hl.pending_eq⟩

theorem run_spec (calls : List Call) (hs : Inv s) :
    ∃ handlers s', run calls s = some (handlers, s') ∧ Inv s' ∧ (∀ h ∈ handlers, YieldsLine h) ∧
      lines kLineEnd s.pending =
        handlers.map LineHandler.getRawLine ++ lines kLineEnd s'.pending := by
  induction calls generalizing s with
  | nil => exact ⟨[], s, rfl, hs, by simp, by simp⟩
  | cons c calls ih =>
    obtain ⟨handler, s₁, hcall, hs₁, hline, hlines⟩ := call_spec c hs
    obtain ⟨handlers, s₂, hrun, hs₂, hall, hlines₂⟩ := ih hs₁
    refine ⟨handler.toList ++ handlers, s₂, by simp [run, hcall, hrun], hs₂, ?_, ?_⟩
    · intro h hh
      rcases List.mem_append.mp hh with hh | hh
      · exact hline h (by simpa using hh)
      · exact hall h hh
    · rw [hlines, hlines₂, List.map_append, List.append_assoc]

theorem run_look_succ (n : ℕ) {found : Bool} (h : hasStillLine s = some (found, s')) :
    run (List.replicate (n + 1) .hasStillLine) s = run (List.replicate n .hasStillLine) s' := by
  rw [List.replicate_succ, run, call, h]
  simp only [Option.map_some, Option.bind_eq_bind, Option.bind_some]
  cases run (List.replicate n .hasStillLine) s' <;> rfl

theorem yields_of_not_found (hs : Inv s) (h : ¬ Found s) : yields s = some none := by
  obtain ⟨s', hnext, -⟩ := nextHandler_of_not_found hs h
  simp [yields, hnext]

theorem yields_of_found (hs : Inv s) (h : Found s) : ∃ l, yields s = some (some l) := by
  obtain ⟨k, l, mem, s', hnext, -⟩ := nextHandler_of_found hs h
  exact ⟨l, by simp [yields, hnext, getRawLine_ofLine]⟩

/-- After a look that found a line further looks change nothing. -/
theorem lookInvariant_of_found (hs : Inv s) (hfound : Found s) : LookInvariant s := by
  obtain ⟨found, s₁, hlook, hl⟩ := hasStillLine_spec hs
  obtain rfl := hl.found_iff.mpr hfound
  have hcached := hl.cached_iff.mpr rfl
  have hagain := hasStillLine_cached hl.inv hcached
  have hsame : yields s₁ = yields s := by
    simp only [yields, nextHandler, hlook, hagain]
  intro n
  cases n with
  | zero => exact ⟨s, rfl, rfl⟩
  | succ n =>
    refine ⟨s₁, ?_, hsame⟩
    rw [run_look_succ n hlook]
    induction n with
    | zero => rfl
    | succ n ih => rw [run_look_succ n hagain, ih]

/-- Where no short line comes next, no look ever finds one. -/
theorem lookInvariant_of_not_short (hs : Inv s) (hshort : ¬ Short s) : LookInvariant s := by
  intro n
  rw [yields_of_not_found hs fun h => hshort (short_of_found hs h)]
  induction n generalizing s with
  | zero => exact ⟨s, rfl, yields_of_not_found hs fun h => hshort (short_of_found hs h)⟩
  | succ n ih =>
    obtain ⟨found, s₁, hlook, hl⟩ := hasStillLine_spec hs
    rw [run_look_succ n hlook]
    exact ih hl.inv fun h => hshort ((short_iff_of_looked hl).mpr h)

/-- A short line is found after enough looks: each look that gives up in front of
it has dropped a block of newlines. -/
theorem found_of_short (hs : Inv s) (hshort : Short s) :
    ∃ n s', run (List.replicate n .hasStillLine) s = some ([], s') ∧ Inv s' ∧ Found s' := by
  induction hlen : s.pending.length using Nat.strong_induction_on generalizing s with
  | _ len ih =>
    by_cases hfound : Found s
    · exact ⟨0, s, rfl, hs, hfound⟩
    · obtain ⟨found, s₁, hlook, hl⟩ := hasStillLine_spec hs
      have hshort₁ := (short_iff_of_looked hl).mp hshort
      have hno : found = false := by
        by_contra h
        exact hfound (hl.found_iff.mp (by simpa using h))
      obtain ⟨k, l, ys, hline, hl'⟩ := hshort
      -- otherwise the line itself would fit into the block
      have hk : k ≠ 0 := by
        rintro rfl
        exact hfound (found_of_fits hline (by omega))
      have hhead : s.pending.head? = some kLineEnd := by
        rw [hline.eq, show k = (k - 1) + 1 by omega, List.replicate_succ]
        rfl
      have hlt := hl.drops hno (by omega) hhead
      obtain ⟨n, s', hrun, hs', hf⟩ := ih _ (hlen ▸ hlt) hl.inv hshort₁ rfl
      exact ⟨n + 1, s', by rw [run_look_succ n hlook]; exact hrun, hs', hf⟩

/-- Looking early is harmless exactly when the look finds a line or no short
line comes next. -/
theorem lookInvariant_iff (hs : Inv s) : LookInvariant s ↔ Found s ∨ ¬ Short s := by
  constructor
  · intro hlook
    by_contra hnot
    rw [not_or, not_not] at hnot
    obtain ⟨n, s', hrun, hs', hf⟩ := found_of_short hs hnot.2
    obtain ⟨s'', hrun', hsame⟩ := hlook n
    rw [hrun, Option.some.injEq, Prod.mk.injEq] at hrun'
    obtain ⟨l, hl⟩ := yields_of_found hs' hf
    rw [← hrun'.2, hl, yields_of_not_found hs hnot.1] at hsame
    cases hsame
  · rintro (h | h)
    · exact lookInvariant_of_found hs h
    · exact lookInvariant_of_not_short hs h

/-- Every run from `OpenFile` keeps the positions in the buffer in range and
yields lines of the content in order; and in every state it reaches, looks are
harmless exactly under the condition. -/
theorem run_openFile (B : ℕ) (content : Bytes) (chunks : ℕ → ℕ) (calls : List Call) :
    ∃ handlers s, run calls (openFile B content chunks) = some (handlers, s) ∧
      s.curReadingPos ≤ s.size ∧ s.size ≤ B ∧
      handlers.map LineHandler.getRawLine <+: lines kLineEnd content ∧
      (∀ h ∈ handlers, YieldsLine h) ∧ (LookInvariant s ↔ Found s ∨ ¬ Short s) := by
  obtain ⟨handlers, s, hrun, hs, hall, hlines⟩ := run_spec calls (inv_openFile B content chunks)
  rw [pending_openFile] at hlines
  exact ⟨handlers, s, hrun, hs.cur_le, hs.size_le, ⟨_, hlines.symm⟩, hall, lookInvariant_iff hs⟩

/-- With a block of four bytes, the second look finds the line that the first
one gave up on. -/
theorem not_lookInvariant_openFile :
    ¬ LookInvariant (openFile 4 (bytes "\n\n\nab\n") fun _ => 4) := by
  intro h
  obtain ⟨s', hrun, hsame⟩ := h 1
  have hyields : (run [.hasStillLine] (openFile 4 (bytes "\n\n\nab\n") fun _ => 4)).bind
      (fun r => yields r.2) ≠ yields (openFile 4 (bytes "\n\n\nab\n") fun _ => 4) := by
    decide +kernel
  rw [show List.replicate 1 Call.hasStillLine = [.hasStillLine] from rfl] at hrun
  rw [hrun] at hyields
  exact hyields hsame

end Runs

end Columbo.ReaderBuffer
