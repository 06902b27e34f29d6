import Columbo.Lines
import Columbo.ReaderBuffer

/-!
# What the operations of the reader buffer do

The window is the part of the buffer that has been read from the file and not
yet been handed out, and the pending text is the window and the unread rest of
the file. Each operation has one specification in these terms; together they
keep the representation invariant.
-/
namespace Columbo.ReaderBuffer

variable {B : ℕ}

section Find

variable {l t post ys : Bytes}

/-- Behind the reading position a search ends at the next newline. -/
theorem findLoop_line {p : Bytes} {cur : ℕ} (hcur : cur < p.length)
    (hl : kLineEnd ∉ l) :
    findLoop (p ++ (l ++ kLineEnd :: ys) ++ post) (l ++ kLineEnd :: ys).length
      p.length cur = some (((p.length + l.length : ℕ) : ℤ), cur) := by
  induction l generalizing p with
  | nil =>
    have hget : (p ++ ([] ++ kLineEnd :: ys) ++ post)[p.length]? = some kLineEnd := by
      simp
    simp only [List.nil_append, List.length_cons, findLoop] at hget ⊢
    rw [hget]
    simp [hcur.ne']
  | cons c l ih =>
    have hget : (p ++ (c :: l ++ kLineEnd :: ys) ++ post)[p.length]? = some c := by
      simp
    have hc : c ≠ kLineEnd := fun h => hl (by simp [h])
    have ih' := ih (p := p ++ [c]) (by simp; omega) fun h => hl (by simp [h])
    simp only [List.cons_append, List.length_cons, findLoop] at hget ⊢
    rw [hget]
    simp only [if_neg hc]
    simpa [Nat.add_assoc, Nat.add_comm 1] using ih'

/-- Without a newline the search fails. -/
theorem findLoop_none {p : Bytes} {cur : ℕ} (ht : kLineEnd ∉ t) :
    findLoop (p ++ t ++ post) t.length p.length cur = some (-1, cur) := by
  induction t generalizing p with
  | nil => rfl
  | cons c t ih =>
    have hget : (p ++ c :: t ++ post)[p.length]? = some c := by simp
    have hc : c ≠ kLineEnd := fun h => ht (by simp [h])
    have ih' := ih (p := p ++ [c]) fun h => ht (by simp [h])
    simp only [List.length_cons, findLoop]
    rw [hget]
    simp only [if_neg hc]
    simpa using ih'

/-- A search that starts at the reading position moves it over newlines. -/
theorem findLoop_skip {p : Bytes} (k : ℕ) :
    findLoop (p ++ (List.replicate k kLineEnd ++ t) ++ post) (k + t.length)
        p.length p.length =
      findLoop (p ++ List.replicate k kLineEnd ++ t ++ post) t.length
        (p.length + k) (p.length + k) := by
  induction k generalizing p with
  | zero => simp
  | succ k ih =>
    have hget : (p ++ (List.replicate (k + 1) kLineEnd ++ t) ++ post)[p.length]? =
        some kLineEnd := by simp [List.replicate_succ]
    have ih' := ih (p := p ++ [kLineEnd])
    rw [show k + 1 + t.length = k + t.length + 1 by omega]
    simp only [findLoop]
    rw [hget]
    simp only [if_true]
    simpa [List.replicate_succ, Nat.add_assoc, Nat.add_comm 1] using ih'

/-- A search from the reading position: the position moves over the newlines it
stands at, and the result is the end of the first line if it is complete. -/
theorem findLoop_spec {p : Bytes} (t post : Bytes) :
    ∃ pos : ℤ, findLoop (p ++ t ++ post) t.length p.length p.length =
        some (pos, p.length + (t.length - (strip kLineEnd t).length)) ∧
      (∀ k l ys, StartsLine kLineEnd t k l ys → pos = ((p.length + k + l.length : ℕ) : ℤ)) ∧
      (¬ HasLine kLineEnd t → pos = -1) := by
  have hsplit := replicate_append_strip kLineEnd t
  have hle : (strip kLineEnd t).length ≤ t.length := (List.dropWhile_suffix _).length_le
  generalize hk : t.length - (strip kLineEnd t).length = k at hsplit ⊢
  have hskip : findLoop (p ++ t ++ post) t.length p.length p.length =
      findLoop (p ++ List.replicate k kLineEnd ++ strip kLineEnd t ++ post)
        (strip kLineEnd t).length (p.length + k) (p.length + k) := by
    have h : findLoop (p ++ _ ++ post) _ _ _ = _ := findLoop_skip (t := strip kLineEnd t) k
    rw [hsplit] at h
    rw [← h, show k + (strip kLineEnd t).length = t.length by omega]
  rw [hskip]
  cases hstrip : strip kLineEnd t with
  | nil =>
    refine ⟨-1, rfl, fun j l ys h => ?_, fun _ => rfl⟩
    have hmem := (hasLine_iff t).mp ⟨j, l, ys, h⟩
    rw [hstrip] at hmem
    cases hmem
  | cons c u =>
    have hc : c ≠ kLineEnd := strip_head?_ne t c (by simp [hstrip])
    have hget : (p ++ List.replicate k kLineEnd ++ c :: u ++ post)[p.length + k]? = some c := by
      simp
    have hstep : findLoop (p ++ List.replicate k kLineEnd ++ c :: u ++ post) (c :: u).length
          (p.length + k) (p.length + k) =
        findLoop ((p ++ List.replicate k kLineEnd ++ [c]) ++ u ++ post) u.length
          (p ++ List.replicate k kLineEnd ++ [c]).length (p.length + k) := by
      simp only [List.length_cons, findLoop]
      rw [hget]
      simp [hc, Nat.add_assoc]
    rw [hstep]
    by_cases hu : kLineEnd ∈ u
    · obtain ⟨l, ys, rfl, hl⟩ := List.eq_append_cons_of_mem hu
      refine ⟨_, findLoop_line (by simp) hl, fun j l' ys' h => ?_, fun hno => ?_⟩
      · have hline : StartsLine kLineEnd t k (c :: l) ys :=
          ⟨by rw [← hsplit, hstrip]; rfl, by simp, by simp [hl, hc.symm]⟩
        obtain ⟨rfl, rfl, -⟩ := hline.unique h
        simp
        omega
      · exact absurd ((hasLine_iff t).mpr (by simp [hstrip])) hno
    · refine ⟨-1, findLoop_none hu, fun j l ys h => ?_, fun _ => rfl⟩
      have hmem := (hasLine_iff t).mp ⟨j, l, ys, h⟩
      rw [hstrip] at hmem
      rcases List.mem_cons.mp hmem with h | h
      · exact absurd h.symm hc
      · exact absurd h hu

end Find

section View

variable {s : ReaderBuffer B}

/-- What has been read from the file and not been handed out. -/
def window (s : ReaderBuffer B) : Bytes :=
  (s.buffer.toList.drop s.curReadingPos).take (s.size - s.curReadingPos)

/-- All that has not been handed out. -/
def pending (s : ReaderBuffer B) : Bytes := s.window ++ s.file.unread

/-- The representation invariant. A cached end of a line is the end of the line
that starts at the reading position. -/
structure Inv (s : ReaderBuffer B) : Prop where
  cur_le : s.curReadingPos ≤ s.size
  size_le : s.size ≤ B
  eof : s.reachedEof = 0
  cached : 0 < s.nextLineEnd → ∃ l ys, StartsLine kLineEnd s.window 0 l ys ∧
    s.nextLineEnd = s.curReadingPos + l.length

theorem inv_openFile (B : ℕ) (content : Bytes) (chunks : ℕ → ℕ) :
    Inv (openFile B content chunks) :=
  ⟨le_rfl, Nat.zero_le B, rfl, fun h => absurd h (lt_irrefl 0)⟩

theorem pending_openFile (B : ℕ) (content : Bytes) (chunks : ℕ → ℕ) :
    (openFile B content chunks).pending = content := by
  simp [pending, window, openFile]

theorem length_window (hcur : s.curReadingPos ≤ s.size) (hsize : s.size ≤ B) :
    s.window.length = s.size - s.curReadingPos := by
  simp only [window, List.length_take, List.length_drop, List.Vector.toList_length]
  omega

/-- The buffer in three parts around the window. -/
theorem buffer_eq (hcur : s.curReadingPos ≤ s.size) :
    s.buffer.toList.take s.curReadingPos ++ s.window ++ s.buffer.toList.drop s.size =
      s.buffer.toList := by
  have hdrop : s.buffer.toList.drop s.size =
      (s.buffer.toList.drop s.curReadingPos).drop (s.size - s.curReadingPos) := by
    rw [List.drop_drop, Nat.add_sub_cancel' hcur]
  rw [hdrop, window, List.append_assoc, List.take_append_drop, List.take_append_drop]

/-- Moving the reading position drops bytes from the window. -/
theorem window_advance (n : ℕ) :
    window { s with curReadingPos := s.curReadingPos + n } = s.window.drop n := by
  simp only [window]
  rw [List.drop_take, List.drop_drop, Nat.sub_sub]

theorem findLineEnd_spec (hcur : s.curReadingPos ≤ s.size) (hsize : s.size ≤ B) :
    ∃ pos : ℤ, findLineEnd s.curReadingPos s.size s =
        some (pos, { s with curReadingPos :=
          s.curReadingPos + (s.window.length - (strip kLineEnd s.window).length) }) ∧
      (∀ k l ys, StartsLine kLineEnd s.window k l ys →
        pos = ((s.curReadingPos + k + l.length : ℕ) : ℤ)) ∧
      (¬ HasLine kLineEnd s.window → pos = -1) := by
  have hlen : (s.buffer.toList.take s.curReadingPos).length = s.curReadingPos := by
    rw [List.length_take, List.Vector.toList_length]
    omega
  obtain ⟨pos, hfind, hline, hnone⟩ := findLoop_spec (p := s.buffer.toList.take s.curReadingPos)
    s.window (s.buffer.toList.drop s.size)
  rw [buffer_eq hcur, hlen, length_window hcur hsize] at hfind
  rw [hlen] at hline
  refine ⟨pos, ?_, hline, hnone⟩
  rw [findLineEnd, hfind, length_window hcur hsize]
  rfl

theorem drop_sub_strip (xs : Bytes) :
    xs.drop (xs.length - (strip kLineEnd xs).length) = strip kLineEnd xs := by
  have hsplit := replicate_append_strip kLineEnd xs
  generalize xs.length - (strip kLineEnd xs).length = k at hsplit ⊢
  have h := congrArg (List.drop k) hsplit
  rw [List.drop_append_of_le_length (by simp)] at h
  simpa using h.symm

end View

section Lookup

variable {s s' : ReaderBuffer B}

/-- What a search for a line in the window leaves behind. -/
structure Settles (s : ReaderBuffer B) (found : Bool) (s' : ReaderBuffer B) : Prop where
  inv : Inv s'
  window_eq : s'.window = strip kLineEnd s.window
  file_eq : s'.file = s.file
  found_iff : found = true ↔ HasLine kLineEnd s.window
  cached_iff : 0 < s'.nextLineEnd ↔ found = true

/-- A line at the reading position is not preceded by newlines. -/
theorem strip_of_startsLine {l ys : Bytes} (h : StartsLine kLineEnd s.window 0 l ys) :
    strip kLineEnd s.window = s.window := by
  have hsplit := replicate_append_strip kLineEnd s.window
  have hzero : s.window.length - (strip kLineEnd s.window).length = 0 := by
    rw [← hsplit] at h
    exact Nat.le_zero.mp h.of_replicate_append.1
  rwa [hzero, List.replicate_zero, List.nil_append] at hsplit

/-- The search without a cached end. -/
theorem calculateNextLineEnd_fresh (hs : Inv s) (hnext : s.nextLineEnd = 0) :
    ∃ s', calculateNextLineEnd s = some s' ∧ Inv s' ∧ s'.window = strip kLineEnd s.window ∧
      s'.file = s.file ∧ (0 < s'.nextLineEnd ↔ HasLine kLineEnd s.window) := by
  obtain ⟨pos, hfind, hline, hnone⟩ := findLineEnd_spec hs.cur_le hs.size_le
  have hlen := length_window hs.cur_le hs.size_le
  have hle : (strip kLineEnd s.window).length ≤ s.window.length :=
    (List.dropWhile_suffix _).length_le
  generalize hk : s.window.length - (strip kLineEnd s.window).length = k at hfind
  have hwindow : ∀ n, window { s with curReadingPos := s.curReadingPos + k, nextLineEnd := n } =
      strip kLineEnd s.window := by
    intro n
    rw [← drop_sub_strip, hk]
    exact window_advance k
  have hcalc : calculateNextLineEnd s =
      some { s with curReadingPos := s.curReadingPos + k, nextLineEnd := pos.toNat } := by
    rw [calculateNextLineEnd, if_neg (by omega), hfind]
    by_cases hpos : 0 < pos
    · simp [hpos]
    · have hzero : pos.toNat = 0 := by omega
      simp [hpos, feof, hzero]
  have hcur := hs.cur_le
  refine ⟨_, hcalc, ⟨?_, hs.size_le, hs.eof, fun hpos => ?_⟩, hwindow _, rfl, ?_⟩
  · simp only
    omega
  · by_cases hhas : HasLine kLineEnd s.window
    · obtain ⟨j, l, ys, h⟩ := hhas
      have hpos' := hline j l ys h
      have hw := h
      rw [← replicate_append_strip kLineEnd s.window, hk] at hw
      obtain ⟨hjk, hstrip⟩ := hw.of_replicate_append
      have hlead : j - k = 0 := by
        by_contra hne
        have hhead : kLineEnd ∈ (strip kLineEnd s.window).head? → kLineEnd ≠ kLineEnd :=
          strip_head?_ne s.window kLineEnd
        rw [hstrip.eq, show j - k = (j - k - 1) + 1 by omega, List.replicate_succ] at hhead
        simp at hhead
      rw [hlead] at hstrip
      refine ⟨l, ys, by rw [hwindow]; exact hstrip, ?_⟩
      simp only
      omega
    · rw [hnone hhas] at hpos
      simp at hpos
  · constructor
    · intro hpos
      by_contra hhas
      rw [hnone hhas] at hpos
      simp at hpos
    · rintro ⟨j, l, ys, h⟩
      have hpos' := hline j l ys h
      have hl : 0 < l.length := List.length_pos_of_ne_nil h.ne_nil
      simp only
      omega

theorem hasStillLineEnd_of_calculate (h : calculateNextLineEnd s = some s') (hs : Inv s') :
    hasStillLineEnd s = some (decide (0 < s'.nextLineEnd), s') := by
  rw [hasStillLineEnd, h]
  by_cases hnext : 0 < s'.nextLineEnd
  · obtain ⟨l, ys, hline, heq⟩ := hs.cached hnext
    have hl : 0 < l.length := List.length_pos_of_ne_nil hline.ne_nil
    have hlen := hline.length_eq
    rw [length_window hs.cur_le hs.size_le] at hlen
    have heof := hs.eof
    have h₂ : 0 < s'.size := by omega
    have h₃ : s'.curReadingPos < s'.size := by omega
    have h₄ : s'.curReadingPos < s'.nextLineEnd := by omega
    simp [hnext, heof, h₂, h₃, h₄]
  · simp [hnext]

theorem hasStillLineEnd_spec (hs : Inv s) :
    ∃ found s', hasStillLineEnd s = some (found, s') ∧ Settles s found s' := by
  by_cases hnext : 0 < s.nextLineEnd
  · obtain ⟨l, ys, hline, -⟩ := hs.cached hnext
    have hcalc : calculateNextLineEnd s = some s := by rw [calculateNextLineEnd, if_pos hnext]
    refine ⟨_, s, hasStillLineEnd_of_calculate hcalc hs, hs, (strip_of_startsLine hline).symm, rfl,
      ?_, by simp⟩
    simp only [hnext, decide_true, true_iff]
    exact ⟨0, l, ys, hline⟩
  · obtain ⟨s', hcalc, hs', hwindow, hfile, hfound⟩ :=
      calculateNextLineEnd_fresh hs (by omega)
    exact ⟨_, s', hasStillLineEnd_of_calculate hcalc hs', hs', hwindow, hfile, by simpa using hfound,
      by simp⟩

/-- With a cached end nothing changes. -/
theorem hasStillLineEnd_cached (hs : Inv s) (hnext : 0 < s.nextLineEnd) :
    hasStillLineEnd s = some (true, s) := by
  have hcalc : calculateNextLineEnd s = some s := by rw [calculateNextLineEnd, if_pos hnext]
  rw [hasStillLineEnd_of_calculate hcalc hs]
  simp [hnext]

/-- The window after one newline at the reading position. -/
theorem window_eq_cons {c : UInt8} (hcur : s.curReadingPos < s.size)
    (hget : s.buffer.toList[s.curReadingPos]? = some c) :
    s.window = c :: window { s with curReadingPos := s.curReadingPos + 1 } := by
  obtain ⟨hlt, hc⟩ := List.getElem?_eq_some_iff.mp hget
  rw [window_advance]
  simp only [window]
  rw [List.drop_eq_getElem_cons hlt, hc, show s.size - s.curReadingPos =
    (s.size - s.curReadingPos - 1) + 1 by omega, List.take_succ_cons, List.drop_one, List.tail_cons]

theorem hasLine_of_strip_eq {xs ys : Bytes} (h : strip kLineEnd xs = strip kLineEnd ys) :
    HasLine kLineEnd xs ↔ HasLine kLineEnd ys := by
  rw [hasLine_iff, hasLine_iff, h]

/-- The loop over the newlines at the reading position finds the first line or
leaves a window that differs in leading newlines only. -/
theorem skipLoop_spec {fuel : ℕ} (hs : Inv s) (hfuel : s.size - s.curReadingPos < fuel) :
    ∃ found s', skipLoop fuel s = some (found, s') ∧ Inv s' ∧ s'.file = s.file ∧
      strip kLineEnd s'.window = strip kLineEnd s.window ∧
      (found = true → Settles s true s') := by
  induction fuel generalizing s with
  | zero => omega
  | succ fuel ih =>
    rw [skipLoop]
    by_cases hcur : s.curReadingPos < s.size
    · have hget : ∃ c, s.buffer.toList[s.curReadingPos]? = some c := by
        have hsize := hs.size_le
        exact ⟨_, List.getElem?_eq_getElem (by rw [List.Vector.toList_length]; omega)⟩
      obtain ⟨c, hget⟩ := hget
      simp only [if_pos hcur, hget]
      by_cases hc : c = kLineEnd
      · have hcons := window_eq_cons hcur hget
        subst hc
        -- the cached end of a line excludes a newline at the reading position
        have hnext : s.nextLineEnd = 0 := by
          by_contra hne
          obtain ⟨l, ys, hline, -⟩ := hs.cached (by omega)
          have hstrip := strip_of_startsLine hline
          have hhead : kLineEnd ∈ (strip kLineEnd s.window).head? → kLineEnd ≠ kLineEnd :=
            strip_head?_ne s.window kLineEnd
          rw [hstrip, hcons] at hhead
          simp at hhead
        have hs₁ : Inv { s with curReadingPos := s.curReadingPos + 1 } :=
          ⟨hcur, hs.size_le, hs.eof, fun h => by simp [hnext] at h⟩
        obtain ⟨found, s₂, hrun, hset⟩ := hasStillLineEnd_spec hs₁
        have hstrip : strip kLineEnd s.window =
            strip kLineEnd (window { s with curReadingPos := s.curReadingPos + 1 }) := by
          rw [hcons]
          simp [strip]
        have hhas := hasLine_of_strip_eq hstrip
        rw [if_pos rfl, hrun]
        by_cases hfound : found = true
        · subst hfound
          refine ⟨true, s₂, rfl, hset.inv, hset.file_eq, ?_, fun _ => ?_⟩
          · rw [hset.window_eq, hstrip, strip_strip _]
          · exact ⟨hset.inv, by rw [hset.window_eq, hstrip], hset.file_eq,
              hset.found_iff.trans hhas.symm, hset.cached_iff⟩
        · have hlen : s₂.size - s₂.curReadingPos < fuel := by
            have h₁ := length_window hs₁.cur_le hs₁.size_le
            have h₂ := length_window hset.inv.cur_le hset.inv.size_le
            have hle : s₂.window.length ≤
                (window { s with curReadingPos := s.curReadingPos + 1 }).length := by
              rw [hset.window_eq]
              exact (List.dropWhile_suffix _).length_le
            simp only at h₁
            omega
          obtain ⟨found', s₃, hrun', hs₃, hfile, hstrip₃, hset₃⟩ := ih hset.inv hlen
          have heq : strip kLineEnd s₃.window = strip kLineEnd s.window := by
            rw [hstrip₃, hset.window_eq, hstrip, strip_strip _]
          refine ⟨found', s₃, ?_, hs₃, hfile.trans hset.file_eq, heq, fun h => ?_⟩
          · simpa [hfound] using hrun'
          · have hset' := hset₃ h
            exact ⟨hs₃, by rw [hset'.window_eq, hset.window_eq, hstrip, strip_strip _],
              hfile.trans hset.file_eq, by
                rw [hset'.found_iff, hset.window_eq, ← hstrip]
                exact hasLine_of_strip_eq (strip_strip _), hset'.cached_iff⟩
      · exact ⟨false, s, by simp [hc], hs, rfl, rfl, fun h => by cases h⟩
    · exact ⟨false, s, by simp [hcur], hs, rfl, rfl, fun h => by cases h⟩

end Lookup

section Blocks

variable {s s' : ReaderBuffer B}

theorem read_eq (file : File) (amount : ℕ) :
    ∃ n, file.read amount =
        (file.unread.take n, ⟨file.unread.drop n, fun i => file.chunks (i + 1)⟩) ∧
      n ≤ amount ∧ n ≤ file.unread.length ∧ (n = 0 → amount = 0 ∨ file.unread = []) ∧
      (file.chunks 0 = 1 → n ≤ 1) := by
  refine ⟨_, rfl, by omega, by omega, fun h => ?_, by omega⟩
  rw [← List.length_eq_zero_iff]
  omega

theorem fill_eq (buffer : List.Vector UInt8 B) {off : ℕ} {data : Bytes}
    (h : off + data.length ≤ B) :
    ∃ buffer', fill buffer off data = some buffer' ∧
      buffer'.toList.take (off + data.length) = buffer.toList.take off ++ data := by
  refine ⟨_, dif_pos h, ?_⟩
  have hlen : (buffer.toList.take off ++ data).length = off + data.length := by
    simp only [List.length_append, List.length_take, List.Vector.toList_length]
    omega
  exact List.take_left' hlen

theorem memmove_eq (buffer : List.Vector UInt8 B) {src len : ℕ} (h : src + len ≤ B) :
    ∃ buffer', memmove buffer src len = some buffer' ∧
      buffer'.toList.take len = (buffer.toList.drop src).take len := by
  refine ⟨_, dif_pos h, ?_⟩
  have hlen : ((buffer.toList.drop src).take len).length = len := by
    simp only [List.length_take, List.length_drop, List.Vector.toList_length]
    omega
  exact List.take_left' hlen

/-- The first `size` bytes of the buffer: the window of a buffer with reading position zero. -/
def block (s : ReaderBuffer B) : Bytes := s.buffer.toList.take s.size

theorem findLineEnd_block (hcur : s.curReadingPos = 0) (hsize : s.size ≤ B) :
    ∃ (pos : ℤ) (n : ℕ), findLineEnd 0 s.size s = some (pos, { s with curReadingPos := n }) ∧
      (pos < 0 ↔ ¬ HasLine kLineEnd s.block) := by
  obtain ⟨pos, hfind, hline, hnone⟩ := findLineEnd_spec (s := s) (by omega) hsize
  have hblock : s.window = s.block := by simp [window, block, hcur]
  rw [hblock] at hline hnone
  rw [hcur] at hfind
  refine ⟨pos, _, hfind, fun hpos => ?_, fun hno => ?_⟩
  · rintro ⟨k, l, ys, h⟩
    have := hline k l ys h
    omega
  · rw [hnone hno]
    decide

/-- A file that is read byte by byte. -/
def File.ByteWise (file : File) : Prop := ∀ i, file.chunks i = 1

/-- The rounds of `NextBlock` append a part of the file to the block, until it has a
line or is full or the file ends. Byte by byte they stop at the end of the line. -/
theorem readLoop_spec {fuel amount : ℕ} (hfuel : amount < fuel) (hsize : s.size + amount = B) :
    ∃ s' n, readLoop fuel amount s = some s' ∧
      s'.block = s.block ++ s.file.unread.take n ∧ s'.size = s.size + n ∧
      s'.file.unread = s.file.unread.drop n ∧ n ≤ amount ∧ s'.reachedEof = s.reachedEof ∧
      (HasLine kLineEnd s'.block ∨ n = amount ∨ s'.file.unread = []) ∧
      (¬ HasLine kLineEnd s.block → File.ByteWise s.file → File.ByteWise s'.file ∧
        ∀ m < n, ¬ HasLine kLineEnd (s.block ++ s.file.unread.take m)) := by
  induction fuel generalizing amount s with
  | zero => omega
  | succ fuel ih =>
    obtain ⟨n, hread, hn, hle, hzero, hone⟩ := read_eq s.file amount
    have hlen : (s.file.unread.take n).length = n := by
      rw [List.length_take]
      omega
    obtain ⟨buffer, hfill, htake⟩ := fill_eq s.buffer
      (by omega : s.size + (s.file.unread.take n).length ≤ B)
    rw [hlen] at htake
    let s₁ : ReaderBuffer B := ⟨buffer, 0, s.size + n, 0, s.reachedEof,
      ⟨s.file.unread.drop n, fun i => s.file.chunks (i + 1)⟩⟩
    have hblock₁ : s₁.block = s.block ++ s.file.unread.take n := htake
    have hsize₁ : s₁.size = s.size + n := rfl
    obtain ⟨pos, m, hfind, hpos⟩ := findLineEnd_block (s := s₁) rfl (by omega)
    have hround : readLoop (fuel + 1) amount s =
        if pos < 0 ∧ 0 < amount - n ∧ 0 < n then
          readLoop fuel (amount - n) { s₁ with curReadingPos := m }
        else some { s₁ with curReadingPos := m } := by
      rw [readLoop, hread]
      simp only [hfill, hlen, Option.bind_eq_bind, Option.bind_some]
      rw [show (ReaderBuffer.mk buffer 0 (s.size + n) 0 s.reachedEof
        ⟨s.file.unread.drop n, fun i => s.file.chunks (i + 1)⟩ : ReaderBuffer B) = s₁ from rfl]
      rw [← hsize₁, hfind]
      rfl
    -- a round that reads byte by byte leaves nothing but the old block in front of its byte
    have hfirst : ¬ HasLine kLineEnd s.block → File.ByteWise s.file → ∀ m < n,
        ¬ HasLine kLineEnd (s.block ++ s.file.unread.take m) := by
      intro hno hbyte m hm
      have hn1 := hone (hbyte 0)
      obtain rfl : m = 0 := by omega
      simpa using hno
    rw [hround]
    by_cases hmore : pos < 0 ∧ 0 < amount - n ∧ 0 < n
    · rw [if_pos hmore]
      have hfuel₁ : amount - n < fuel := by omega
      obtain ⟨s', k, hrun, hblock, hsize', hunread, hk, heof, hend, hbytes⟩ :=
        ih (s := { s₁ with curReadingPos := m }) hfuel₁
          (by simp only; omega)
      refine ⟨s', n + k, hrun, ?_, ?_, ?_, by omega, heof, ?_, fun hno hbyte => ?_⟩
      · rw [hblock, List.take_add, ← List.append_assoc]
        congr 1
      · rw [hsize']
        simp only
        omega
      · rw [hunread, ← List.drop_drop]
      · rcases hend with h | h | h
        · exact .inl h
        · exact .inr (.inl (by omega))
        · exact .inr (.inr h)
      · obtain ⟨hbyte', hrest⟩ := hbytes (hpos.mp hmore.1) fun i => hbyte (i + 1)
        refine ⟨hbyte', fun m hm => ?_⟩
        by_cases hmn : m < n
        · exact hfirst hno hbyte m hmn
        · have hafter := hrest (m - n) (by omega)
          have hjoin : s.block ++ s.file.unread.take m =
              s₁.block ++ (s.file.unread.drop n).take (m - n) := by
            rw [hblock₁, List.append_assoc, ← List.take_add, Nat.add_sub_cancel' (by omega)]
          rw [hjoin]
          exact hafter
    · rw [if_neg hmore]
      refine ⟨_, n, rfl, hblock₁, rfl, rfl, hn, rfl, ?_, fun hno hbyte =>
        ⟨fun i => hbyte (i + 1), hfirst hno hbyte⟩⟩
      by_cases hhas : HasLine kLineEnd s₁.block
      · exact .inl hhas
      · by_cases hn0 : n = 0
        · rcases hzero hn0 with h | h
          · exact .inr (.inl (by omega))
          · exact .inr (.inr (by simp [s₁, h]))
        · have hlt := hpos.mpr hhas
          exact .inr (.inl (by omega))

/-- No byte behind the first complete line has been read. -/
def Tight (s : ReaderBuffer B) : Prop :=
  File.ByteWise s.file ∧ ∀ m < s.window.length, ¬ HasLine kLineEnd (s.window.take m)

/-- `NextBlock` turns the pending text into a window as long as the block and the
rest, and stops early only behind a complete line. -/
theorem nextBlock_spec (hs : Inv s) :
    ∃ s' n, nextBlock s = some s' ∧ Inv s' ∧ s'.nextLineEnd = 0 ∧
      s'.window = s.pending.take n ∧ s'.file.unread = s.pending.drop n ∧ n ≤ B ∧
      (HasLine kLineEnd s'.window ∨ n = B ∨ s'.file.unread = []) ∧
      (¬ HasLine kLineEnd s.window → Tight s → Tight s') := by
  have hcur := hs.cur_le
  have hsize := hs.size_le
  have heof := hs.eof
  have hlen := length_window hcur hsize
  obtain ⟨buffer, hmove, htake⟩ : ∃ buffer, moveRest s = some buffer ∧
      buffer.toList.take (s.size - s.curReadingPos) = s.window := by
    by_cases h : s.curReadingPos = s.size
    · exact ⟨s.buffer, by simp [moveRest, h], by simp [window, h]⟩
    · rw [moveRest, if_pos h]
      exact memmove_eq s.buffer (by omega)
  let s₁ : ReaderBuffer B := { s with buffer := buffer, size := s.size - s.curReadingPos }
  have hblock₁ : s₁.block = s.window := htake
  have hsize₁ : s₁.size = s.window.length := hlen.symm
  obtain ⟨s₂, n, hrun, hblock, hsize₂, hunread, hn, heof₂, hend, hbytes⟩ :=
    readLoop_spec (s := s₁) (Nat.lt_succ_self (B - s₁.size)) (by omega)
  have hnext : nextBlock s = some { s₂ with curReadingPos := 0, nextLineEnd := 0 } := by
    have hle : s₂.size ≤ B := by omega
    rw [nextBlock, if_neg (by omega), if_neg (by omega), hmove]
    simp only [Option.bind_eq_bind, Option.bind_some]
    rw [if_neg (by omega), hrun, Option.bind_some, if_pos hle]
  have hwindow : window { s₂ with curReadingPos := 0, nextLineEnd := 0 } = s₂.block := by
    simp [window, block]
  have htext : s₂.block = s.pending.take (s.window.length + n) := by
    rw [hblock, hblock₁, pending, List.take_length_add_append]
  refine ⟨_, s.window.length + n, hnext, ⟨?_, ?_, ?_, ?_⟩, rfl, hwindow.trans htext, ?_, ?_, ?_, ?_⟩
  · exact Nat.zero_le _
  · simp only
    omega
  · simp only [heof₂, s₁, heof]
  · intro h
    exact absurd h (lt_irrefl 0)
  · rw [pending, List.drop_length_add_append]
    exact hunread
  · omega
  · rw [hwindow]
    rcases hend with h | h | h
    · exact .inl h
    · exact .inr (.inl (by omega))
    · exact .inr (.inr h)
  · intro hno htight
    obtain ⟨hbyte, hrest⟩ := hbytes (by rwa [hblock₁]) htight.1
    refine ⟨hbyte, fun m hm => ?_⟩
    rw [hwindow] at hm ⊢
    rw [hblock, hblock₁] at hm ⊢
    by_cases hmw : m ≤ s.window.length
    · rw [List.take_append_of_le_length hmw]
      intro hhas
      refine hno ?_
      rw [← List.take_append_drop m s.window]
      exact hhas.append _
    · have hm' : m - s.window.length < n := by
        rw [List.length_append, List.length_take] at hm
        omega
      have hafter := hrest (m - s.window.length) hm'
      rw [hblock₁] at hafter
      rw [show m = s.window.length + (m - s.window.length) by omega, List.take_length_add_append,
        List.take_take, Nat.min_eq_left (by omega)]
      exact hafter

end Blocks

section Yield

variable {s s' : ReaderBuffer B}

/-- Whether a call can find a line: a complete one is in the window, or will be
once the block has been filled up behind what is left of the window. -/
def Found (s : ReaderBuffer B) : Prop :=
  HasLine kLineEnd s.window ∨
    HasLine kLineEnd ((strip kLineEnd s.window ++ s.file.unread).take B)

/-- The state behind a look for the next line. -/
structure Looked (s : ReaderBuffer B) (found : Bool) (s' : ReaderBuffer B) : Prop where
  inv : Inv s'
  pending_eq : ∃ k, s.pending = List.replicate k kLineEnd ++ s'.pending
  found_iff : found = true ↔ Found s
  cached_iff : 0 < s'.nextLineEnd ↔ found = true
  tight : Tight s → Tight s'
  drops : found = false → 0 < B → s.pending.head? = some kLineEnd →
    s'.pending.length < s.pending.length

theorem replicate_trans {xs ys zs : Bytes} (h : ∃ k, xs = List.replicate k kLineEnd ++ ys)
    (h' : ∃ k, ys = List.replicate k kLineEnd ++ zs) :
    ∃ k, xs = List.replicate k kLineEnd ++ zs := by
  obtain ⟨j, rfl⟩ := h
  obtain ⟨k, rfl⟩ := h'
  exact ⟨j + k, by rw [← List.append_assoc, List.replicate_append_replicate]⟩

theorem pending_of_strip (hwindow : s'.window = strip kLineEnd s.window)
    (hfile : s'.file = s.file) : ∃ k, s.pending = List.replicate k kLineEnd ++ s'.pending := by
  refine ⟨s.window.length - (strip kLineEnd s.window).length, ?_⟩
  rw [pending, pending, hwindow, hfile, ← List.append_assoc, replicate_append_strip]

theorem Tight.strip (h : Tight s) (hwindow : s'.window = strip kLineEnd s.window)
    (hfile : s'.file = s.file) : Tight s' := by
  refine ⟨by rw [hfile]; exact h.1, fun m hm => ?_⟩
  have hsplit := replicate_append_strip kLineEnd s.window
  have hle : (Columbo.strip kLineEnd s.window).length ≤ s.window.length :=
    (List.dropWhile_suffix _).length_le
  generalize hk : s.window.length - (Columbo.strip kLineEnd s.window).length = k at hsplit
  rw [hwindow] at hm ⊢
  rintro ⟨j, l, ys, hline⟩
  refine h.2 (k + m) (by omega) ⟨k + j, l, ys, ?_⟩
  have htake : s.window.take (k + m) =
      List.replicate k kLineEnd ++ (Columbo.strip kLineEnd s.window).take m := by
    conv_lhs => rw [← hsplit]
    rw [List.take_append, List.length_replicate, Nat.add_sub_cancel_left,
      List.take_of_length_le (by simp)]
  rw [htake]
  exact hline.replicate_append k

theorem hasStillLine_spec (hs : Inv s) :
    ∃ found s', hasStillLine s = some (found, s') ∧ Looked s found s' := by
  obtain ⟨found₁, s₁, hskip, hs₁, hfile₁, hstrip₁, hset₁⟩ := skipLoop_spec hs (Nat.lt_succ_self _)
  rw [hasStillLine, hskip]
  by_cases hfound₁ : found₁ = true
  · have hset := hset₁ hfound₁
    refine ⟨true, s₁, by simp [hfound₁], hs₁, pending_of_strip hset.window_eq hset.file_eq, ?_,
      hset.cached_iff, fun ht => ht.strip hset.window_eq hset.file_eq, fun h => by cases h⟩
    simp only [true_iff]
    exact .inl (hset.found_iff.mp rfl)
  obtain ⟨found₂, s₂, hlook, hset₂⟩ := hasStillLineEnd_spec hs₁
  have hwindow₂ : s₂.window = strip kLineEnd s.window := by rw [hset₂.window_eq, hstrip₁]
  have hfile₂ : s₂.file = s.file := hset₂.file_eq.trans hfile₁
  have hhas₂ : found₂ = true ↔ HasLine kLineEnd s.window := by
    rw [hset₂.found_iff]
    exact hasLine_of_strip_eq hstrip₁
  by_cases hfound₂ : found₂ = true
  · refine ⟨true, s₂, by simp [hfound₁, hlook, hfound₂], hset₂.inv,
      pending_of_strip hwindow₂ hfile₂, ?_, by simp [hset₂.cached_iff, hfound₂],
      fun ht => ht.strip hwindow₂ hfile₂, fun h => by cases h⟩
    simp only [true_iff]
    exact .inl (hhas₂.mp hfound₂)
  obtain ⟨s₃, n, hnext, hs₃, hzero, hwindow₃, hunread₃, hn, hend, htight₃⟩ :=
    nextBlock_spec hset₂.inv
  obtain ⟨found, s', hlast, hset⟩ := hasStillLineEnd_spec hs₃
  have hpending₃ : s₂.pending = s₃.pending := by
    rw [pending, pending, hwindow₃, hunread₃, List.take_append_drop]
    rfl
  have hblock : HasLine kLineEnd s₃.window ↔ HasLine kLineEnd (s₂.pending.take B) := by
    rw [hwindow₃] at hend ⊢
    constructor
    · exact HasLine.take_mono hn
    · intro hhas
      rcases hend with h | h | h
      · exact h
      · rwa [h]
      · rw [hunread₃, List.drop_eq_nil_iff] at h
        rw [List.take_of_length_le (h.trans hn)] at hhas
        rwa [List.take_of_length_le h]
  have hno₂ : ¬ HasLine kLineEnd s₂.window := by
    rw [hwindow₂, hasLine_of_strip_eq (strip_strip _), ← hhas₂]
    exact hfound₂
  refine ⟨found, s', ?_, hset.inv, ?_, ?_, hset.cached_iff, fun ht =>
    (htight₃ hno₂ (ht.strip hwindow₂ hfile₂)).strip hset.window_eq hset.file_eq,
    fun hnot hB hhead => ?_⟩
  · simp [hfound₁, hlook, hfound₂, hnext, hlast]
  · refine replicate_trans (pending_of_strip hwindow₂ hfile₂) ?_
    rw [hpending₃]
    exact pending_of_strip hset.window_eq hset.file_eq
  · rw [hset.found_iff, hblock, pending, hwindow₂, hfile₂, Found]
    constructor
    · exact .inr
    · rintro (h | h)
      · exact absurd (hhas₂.mpr h) hfound₂
      · exact h
  · obtain ⟨j, hj⟩ := pending_of_strip hwindow₂ hfile₂
    obtain ⟨i, hi⟩ := pending_of_strip hset.window_eq hset.file_eq
    have hjlen := congrArg List.length hj
    have hilen := congrArg List.length hi
    rw [List.length_append, List.length_replicate] at hjlen hilen
    by_contra hge
    -- no newline was dropped, so the new block starts with the newline
    obtain rfl : j = 0 := by rw [hpending₃] at hjlen; omega
    rw [List.replicate_zero, List.nil_append, hpending₃] at hj
    have hwindow₃' : s₃.window ≠ [] := by
      intro hempty
      rw [hwindow₃, List.take_eq_nil_iff] at hempty
      have hne : s₂.pending ≠ [] := by
        rw [hpending₃, ← hj]
        rintro h
        simp [h] at hhead
      rcases hend with h | h | h
      · exact absurd (hset.found_iff.mpr h) (by simp [hnot])
      · exact hempty.elim (by omega) hne
      · rw [hunread₃, List.drop_eq_nil_iff] at h
        have hpos := List.length_pos_of_ne_nil hne
        exact hempty.elim (by omega) hne
    obtain ⟨c, cs, hc⟩ := List.exists_cons_of_ne_nil hwindow₃'
    have hcn : c = kLineEnd := by
      rw [hj, pending, hc] at hhead
      simpa using hhead
    have hstrip : s'.window = strip kLineEnd cs := by
      rw [hset.window_eq, hc, hcn]
      simp [strip]
    have hle : (strip kLineEnd cs).length ≤ cs.length := (List.dropWhile_suffix _).length_le
    have hlen : s'.pending.length < s₃.pending.length := by
      rw [pending, pending, hstrip, hset.file_eq, hc, List.length_append, List.length_append,
        List.length_cons]
      omega
    rw [hj] at hge
    omega

/-- A second look behind a successful one changes nothing. -/
theorem hasStillLine_cached (hs : Inv s) (hnext : 0 < s.nextLineEnd) :
    hasStillLine s = some (true, s) := by
  obtain ⟨l, ys, hline, -⟩ := hs.cached hnext
  have hlen := hline.length_eq
  rw [length_window hs.cur_le hs.size_le] at hlen
  have hcur : s.curReadingPos < s.size := by omega
  have hget : s.buffer.toList[s.curReadingPos]? = s.window.head? := by
    rw [window, List.head?_take, if_neg (by omega), List.head?_drop]
  have hskip : skipLoop (s.size - s.curReadingPos + 1) s = some (false, s) := by
    obtain ⟨c, cs, rfl⟩ := List.exists_cons_of_ne_nil hline.ne_nil
    have hc : c ≠ kLineEnd := fun h => hline.not_mem (by simp [h])
    rw [hline.eq] at hget
    simp only [List.replicate_zero, List.nil_append, List.cons_append, List.head?_cons] at hget
    simp [skipLoop, hcur, hget, hc]
  rw [hasStillLine, hskip]
  simp [hasStillLineEnd_cached hs hnext]

/-- The next line, when a call can find one, is handed out with its newline
behind it; otherwise only newlines are dropped. -/
theorem nextHandler_of_found (hs : Inv s) (hfound : Found s) :
    ∃ k l mem s', nextHandler s = some (some (LineHandler.ofLine l (kLineEnd :: mem)), s') ∧
      Inv s' ∧ StartsLine kLineEnd s.pending k l s'.pending ∧
      (Tight s → Tight s' ∧ s'.window = []) := by
  obtain ⟨found, s₁, hlook, hl⟩ := hasStillLine_spec hs
  have hpos := hl.cached_iff.mpr (hl.found_iff.mpr hfound)
  obtain ⟨l, ys, hline, hend⟩ := hl.inv.cached hpos
  have hcur := hl.inv.cur_le
  have hsize := hl.inv.size_le
  have hlen := hline.length_eq
  rw [length_window hcur hsize] at hlen
  let s₂ : ReaderBuffer B := { s₁ with curReadingPos := s₁.nextLineEnd + 1, nextLineEnd := 0 }
  have hwindow : s₂.window = ys := by
    have hmoved : s₂.window =
        window { s₁ with curReadingPos := s₁.curReadingPos + (l.length + 1) } := by
      simp only [s₂, window, hend, Nat.add_assoc]
    rw [hmoved, window_advance, hline.eq]
    simp
  have hbuf : s₁.buffer.toList.drop s₁.curReadingPos =
      l ++ kLineEnd :: (ys ++ s₁.buffer.toList.drop s₁.size) := by
    have hdrop := congrArg (List.drop s₁.curReadingPos) (buffer_eq (s := s₁) hcur)
    have htake : (s₁.buffer.toList.take s₁.curReadingPos).length = s₁.curReadingPos := by
      rw [List.length_take, List.Vector.toList_length]
      omega
    rw [List.append_assoc, List.drop_left' htake, hline.eq] at hdrop
    simpa using hdrop.symm
  have hrange : s₁.curReadingPos ≤ s₁.nextLineEnd ∧ s₁.nextLineEnd ≤ B := by omega
  obtain ⟨j, hpending⟩ := hl.pending_eq
  refine ⟨j, l, ys ++ s₁.buffer.toList.drop s₁.size, s₂, ?_, ⟨?_, hsize, hl.inv.eof, ?_⟩, ?_, ?_⟩
  · have hhandler : ∀ h, (⟨s₁.buffer.toList.drop s₁.curReadingPos,
        s₁.nextLineEnd - s₁.curReadingPos, 0, h⟩ : LineHandler) =
        LineHandler.ofLine l (kLineEnd :: (ys ++ s₁.buffer.toList.drop s₁.size)) := by
      intro h
      rw [LineHandler.ofLine, LineHandler.mk.injEq]
      exact ⟨hbuf, by omega, rfl⟩
    simp only [nextHandler, hlook, Option.bind_eq_bind, Option.bind_some]
    rw [if_pos (hl.found_iff.mpr hfound), dif_pos hrange, hhandler]
    rfl
  · simp only [s₂]
    omega
  · intro h
    exact absurd h (lt_irrefl 0)
  · have hfirst : StartsLine kLineEnd s₁.pending 0 l s₂.pending := by
      rw [pending, pending, hwindow]
      exact hline.append s₁.file.unread
    rw [hpending]
    exact hfirst.replicate_append j
  · intro ht
    have ht₁ := hl.tight ht
    have hys : ys = [] := by
      by_contra hne
      have hpos : 0 < ys.length := List.length_pos_of_ne_nil hne
      refine ht₁.2 (l.length + 1) ?_ ⟨0, l, ys.take 0, ?_⟩
      · rw [length_window hcur hsize]
        omega
      · have htake := hline.take (n := l.length + 1) (by omega)
        simpa using htake
    have hempty : s₂.window = [] := by rw [hwindow, hys]
    exact ⟨⟨ht₁.1, fun m hm => by simp [hempty] at hm⟩, hempty⟩

theorem nextHandler_of_not_found (hs : Inv s) (hfound : ¬ Found s) :
    ∃ s', nextHandler s = some (none, s') ∧ Looked s false s' := by
  obtain ⟨found, s', hlook, hl⟩ := hasStillLine_spec hs
  have hno : found = false := by
    by_contra h
    exact hfound (hl.found_iff.mp (by simpa using h))
  subst hno
  exact ⟨s', by simp [nextHandler, hlook], hl⟩

end Yield

end Columbo.ReaderBuffer
