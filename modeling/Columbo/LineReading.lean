import Columbo.LineHandler

/-!
# Reading a printed line back

The view `AtText mem h t` says that `t` is the rest of the line of `h`, that a
newline follows the line in memory and that `mem` follows the newline. Each
operation of the line handler gets one rule: what it reads, or when it refuses.
-/
namespace Columbo

/-- The rest of the line is `t`, followed in memory by a newline and by `mem`. -/
def AtText (mem : Bytes) (h : LineHandler) (t : Bytes) : Prop :=
  h.cursor = t ++ kLineEnd :: mem ∧ h.size = h.curReadingPos + t.length

theorem atText_ofLine (line mem : Bytes) :
    AtText mem (LineHandler.ofLine line (kLineEnd :: mem)) line := by
  simp [AtText, LineHandler.ofLine, LineHandler.cursor]

/-- The front of the text is not in the class. -/
def StopsAt (pred : UInt8 → Bool) (s : Bytes) : Prop := ∀ c ∈ s.head?, pred c = false

@[simp] theorem stopsAt_nil (pred : UInt8 → Bool) : StopsAt pred [] := by simp [StopsAt]

@[simp] theorem stopsAt_cons (pred : UInt8 → Bool) (c : UInt8) (cs : Bytes) :
    StopsAt pred (c :: cs) ↔ pred c = false := by simp [StopsAt]

theorem takeWhile_of_stopsAt {pred : UInt8 → Bool} {s : Bytes} (h : StopsAt pred s) :
    s.takeWhile pred = [] := by
  cases s with
  | nil => rfl
  | cons c cs => rw [stopsAt_cons] at h; simp [h]

section View

variable {mem : Bytes} {h : LineHandler} {t u : Bytes}

theorem AtText.curLength_eq (hv : AtText mem h t) : h.curLength = t.length := by
  rw [LineHandler.curLength, hv.2, Nat.add_sub_cancel_left]

theorem AtText.rest_eq (hv : AtText mem h t) : h.rest = t := by
  rw [LineHandler.rest, hv.1, hv.curLength_eq, List.take_left]

theorem AtText.isEmpty_eq (hv : AtText mem h t) (ht : t ≠ []) : h.isEmpty = false := by
  rw [LineHandler.isEmpty, hv.curLength_eq]
  simpa using ht

theorem AtText.advance (hv : AtText mem h (t ++ u)) : AtText mem (h.advance t.length) u := by
  obtain ⟨hc, hs⟩ := hv
  refine ⟨?_, ?_⟩
  · rw [LineHandler.cursor] at hc
    rw [LineHandler.cursor, LineHandler.advance, ← List.drop_drop, hc, List.append_assoc,
      List.drop_left]
  · rw [List.length_append] at hs
    simp only [LineHandler.advance]
    omega

end View

section Rules

variable {mem : Bytes} {t u s : Bytes}

theorem reads_consumeAndTrimString (hs : s ≠ []) :
    Reads (AtText mem) (consumeAndTrimString s) s () fun _ => True := by
  intro h rest hv _
  have hne : h.isEmpty = false := hv.isEmpty_eq (by simp [hs])
  refine ⟨h.advance s.length, ?_, hv.advance⟩
  simp [consumeAndTrimString, hne, hv.curLength_eq, hv.rest_eq]

theorem refuses_consumeAndTrimString (hs : ¬ s <+: t) :
    Refuses (AtText mem) (consumeAndTrimString s) t := by
  intro h hv
  refine ⟨h, ?_, hv⟩
  simp [consumeAndTrimString, hv.curLength_eq, hv.rest_eq, hs]

theorem reads_consumeAndTrimChar (c : UInt8) :
    Reads (AtText mem) (consumeAndTrimChar c) [c] () fun _ => True := by
  intro h rest hv _
  have hne : h.isEmpty = false := hv.isEmpty_eq (by simp)
  refine ⟨h.advance 1, ?_, hv.advance⟩
  simp [consumeAndTrimChar, hne, hv.1]

theorem refuses_consumeAndTrimChar {c d : UInt8} (hcd : d ≠ c) :
    Refuses (AtText mem) (consumeAndTrimChar c) (d :: t) := by
  intro h hv
  refine ⟨h, ?_, hv⟩
  rw [consumeAndTrimChar, hv.isEmpty_eq (List.cons_ne_nil d t), if_neg (by decide), hv.1,
    if_neg (by simpa using hcd)]

/-- White space in front of the rest is skipped. -/
theorem reads_trimL (ht : ∀ c ∈ t, isSpace c = true) :
    Reads (AtText mem) trimL t () (StopsAt isSpace) := by
  intro h rest hv hrest
  refine ⟨h.advance t.length, ?_, hv.advance⟩
  rw [trimL, hv.rest_eq, List.takeWhile_append_of_pos ht, takeWhile_of_stopsAt hrest,
    List.append_nil]

theorem reads_extractAndSubstrUntil {pred : UInt8 → Bool} (ht : ∀ c ∈ t, pred c = true) :
    Reads (AtText mem) (extractAndSubstrUntil pred) t t (StopsAt pred) := by
  intro h rest hv hrest
  refine ⟨h.advance t.length, ?_, hv.advance⟩
  simp only [extractAndSubstrUntil]
  rw [hv.rest_eq, List.takeWhile_append_of_pos ht, takeWhile_of_stopsAt hrest, List.append_nil]

theorem reads_extractAndSubstrUntilInto {pred : UInt8 → Bool} (hne : t ≠ [])
    (ht : ∀ c ∈ t, pred c = true) :
    Reads (AtText mem) (extractAndSubstrUntilInto pred) t t (StopsAt pred) := by
  rw [← List.append_nil t]
  refine (reads_extractAndSubstrUntil (t := t) ht).bind ?_ fun _ hr => hr
  rw [List.append_nil, if_neg (by simpa using hne)]
  exact Reads.pure

/-- A number the parser returns is what `strtoul` makes of the text. -/
theorem eq_of_parseUintTrim {base : ℕ} {h : LineHandler} {v : UInt64} (hv : AtText mem h t)
    (hp : (parseUintTrim base h).1 = some v) :
    strtoul base (t ++ kLineEnd :: mem) ≠ ULONG_MAX ∧
      v = (strtoul base (t ++ kLineEnd :: mem)).toUInt64 := by
  rw [parseUintTrim, hv.1] at hp
  simp only at hp
  generalize (if base = 10 then isNum else isAlnum) = pred at hp
  split_ifs at hp with h₁ h₂ h₃
  exact ⟨h₃, (Option.some.inj hp).symm⟩

theorem eq_of_parseInt {h : LineHandler} {v : Int32} (hv : AtText mem h t)
    (hp : (parseInt h).1 = some v) : v = Int32.ofNat (strtol (t ++ kLineEnd :: mem)) := by
  rw [parseInt, hv.1] at hp
  split_ifs at hp
  exact (Option.some.inj hp).symm

theorem takeWhile_digits {base : ℕ} (hbase : base = 10 ∨ base = 16) {ds : List ℕ}
    (hds : ∀ d ∈ ds, d < base) {s : Bytes} (hs : StopsAlnum s) :
    (ds.map digitByte ++ s).takeWhile (if base = 10 then isNum else isAlnum) =
      ds.map digitByte := by
  have hall : ∀ c ∈ ds.map digitByte, (if base = 10 then isNum else isAlnum) c = true := by
    intro c hc
    obtain ⟨d, hd, rfl⟩ := List.mem_map.mp hc
    have hlt := hds d hd
    rcases hbase with rfl | rfl
    · rw [if_pos rfl, isNum_digitByte (hlt.trans (by decide))]
      exact decide_eq_true hlt
    · exact isAlnum_digitByte hlt
  have hstop : StopsAt (if base = 10 then isNum else isAlnum) s := by
    intro c hc
    have ha := hs c hc
    rcases hbase with rfl | rfl
    · rw [if_pos rfl]
      by_contra hnum
      simp [isAlnum_of_isNum (by simpa using hnum)] at ha
    · exact ha
  rw [List.takeWhile_append_of_pos hall, takeWhile_of_stopsAt hstop, List.append_nil]

theorem StopsAlnum.append_lineEnd (hs : StopsAlnum s) : StopsAlnum (s ++ kLineEnd :: mem) := by
  cases s with
  | nil => simp [show isAlnum kLineEnd = false by decide]
  | cons c cs => simpa using hs

/-- Digits of the base are read back, unless they make the largest number, which
the parser takes for the error value of `strtoul`. -/
theorem reads_digits {base : ℕ} (hbase : base = 10 ∨ base = 16) {ds : List ℕ} (hne : ds ≠ [])
    (hds : ∀ d ∈ ds, d < base) (hmax : Numeral.value base ds < ULONG_MAX) :
    Reads (AtText mem) (parseUintTrim base) (ds.map digitByte)
      (Numeral.value base ds).toUInt64 StopsAlnum := by
  intro h rest hv hrest
  have hstop : StopsAlnum (rest ++ kLineEnd :: mem) := hrest.append_lineEnd
  have hnum : strtoul base h.cursor = Numeral.value base ds := by
    rw [hv.1, List.append_assoc]
    exact strtoul_digits hne (by omega) hds hstop hmax.le
  have hlen : h.cursor.takeWhile (if base = 10 then isNum else isAlnum) = ds.map digitByte := by
    rw [hv.1, List.append_assoc]
    exact takeWhile_digits hbase hds hstop
  refine ⟨h.advance (ds.map digitByte).length, ?_, hv.advance⟩
  have hempty : h.isEmpty = false := hv.isEmpty_eq (by simp [hne])
  have hsize := hv.2
  rw [List.length_append] at hsize
  simp only [parseUintTrim, hnum, hlen, hempty]
  rw [if_neg (by simp; omega), if_neg (by simp [hne] at hsize ⊢; omega), if_neg hmax.ne]

/-- A number written in the base it is read in is read back. -/
theorem reads_parseUintTrim {base : ℕ} (hbase : base = 10 ∨ base = 16) (n : UInt64)
    (hn : n.toNat < ULONG_MAX) :
    Reads (AtText mem) (parseUintTrim base) (numText base n.toNat) n StopsAlnum := by
  have hval : Numeral.value base (Numeral.numeral base n.toNat) = n.toNat :=
    Numeral.value_numeral n.toNat
  have hread : Reads (AtText mem) (parseUintTrim base) (numText base n.toNat)
      (Numeral.value base (Numeral.numeral base n.toNat)).toUInt64 StopsAlnum :=
    reads_digits hbase (Numeral.numeral_ne_nil base n.toNat)
      (fun d hd => Numeral.digit_lt (by omega) hd) (by rwa [hval])
  rwa [hval, Nat.toUInt64_eq, UInt64.ofNat_toNat] at hread

/-- A non-negative `int` written in base ten is read back. -/
theorem reads_parseInt (i : Int32) (hi : 0 ≤ i) :
    Reads (AtText mem) parseInt (toString10 i.toNatClampNeg) i StopsAlnum := by
  intro h rest hv hrest
  have hstop : StopsAlnum (rest ++ kLineEnd :: mem) := hrest.append_lineEnd
  have hne := numText_ne_nil 10 i.toNatClampNeg
  have hlt := i.toNatClampNeg_lt
  have hnum : strtol h.cursor = i.toNatClampNeg := by
    rw [hv.1, List.append_assoc, toString10]
    exact strtol_numText hstop (by unfold LONG_MAX; omega)
  have hlen : h.cursor.takeWhile isNum = toString10 i.toNatClampNeg := by
    rw [hv.1, List.append_assoc]
    exact takeWhile_digits (.inl rfl) (fun d hd => Numeral.digit_lt (by decide) hd) hstop
  refine ⟨h.advance (toString10 i.toNatClampNeg).length, ?_, hv.advance⟩
  have hempty : h.isEmpty = false := hv.isEmpty_eq (by simp [toString10, hne])
  have hsize := hv.2
  rw [List.length_append] at hsize
  have hpos : (toString10 i.toNatClampNeg).length ≠ 0 := by simpa [toString10] using hne
  simp only [parseInt, hnum, hlen, hempty]
  rw [if_neg (by simp), if_neg (by simp [hpos]; omega), Int32.ofNat_toNatClampNeg i hi]

theorem reads_parseBoolFromStringRepr (x : Bool) :
    Reads (AtText mem) parseBoolFromStringRepr (if x then bytes "true" else bytes "false") x
      fun _ => True := by
  cases x with
  | true =>
    refine Reads.orElse ?_
    rw [if_pos rfl, ← List.append_nil (bytes "true")]
    exact (reads_consumeAndTrimString (by decide)).seq Reads.pure
  | false =>
    refine Reads.orElse_right (fun rest _ => ?_) ?_
    · refine (refuses_consumeAndTrimString ?_).bind
      rw [if_neg (by simp)]
      rintro ⟨u, hu⟩
      have := congrArg List.head? hu
      simp [bytes] at this
    · rw [if_neg (by simp), ← List.append_nil (bytes "false")]
      exact (reads_consumeAndTrimString (by decide)).seq Reads.pure

theorem matched_append_self (s t : Bytes) : matched s (s ++ t) = s.length := by
  induction s with
  | nil => rfl
  | cons c s ih => simp [matched, ih]

theorem matched_eq_length {s t : Bytes} (h : matched s t = s.length) : s <+: t := by
  induction s generalizing t with
  | nil => exact List.nil_prefix
  | cons c s ih =>
    cases t with
    | nil => simp [matched] at h
    | cons d t =>
      rw [matched] at h
      split_ifs at h with hcd
      · subst hcd
        rw [List.cons_prefix_cons]
        exact ⟨rfl, ih (by simpa using h)⟩

/-- The search only succeeds on a text that contains the pattern. -/
theorem infix_of_searchLoop {fuel consumed k : ℕ} {s t : Bytes}
    (h : searchLoop s fuel t consumed = some k) : s <:+: t := by
  induction fuel generalizing t consumed with
  | zero => simp [searchLoop] at h
  | succ fuel ih =>
    cases s with
    | nil => exact List.nil_infix
    | cons c s =>
      simp only [searchLoop] at h
      split_ifs at h with h₁ h₂ h₃
      · exact (matched_eq_length h₂).isInfix.trans (List.drop_suffix _ t).isInfix
      · have hs := ih h
        exact (hs.trans (List.drop_suffix _ _).isInfix).trans (List.drop_suffix _ t).isInfix

/-- A text without the pattern is not moved over. -/
theorem refuses_of_absent (hs : ¬ s <:+: t) :
    Refuses (AtText mem) (consumeAndTrimTillString s) t := by
  intro h hv
  refine ⟨h, ?_, hv⟩
  simp only [consumeAndTrimTillString, hv.rest_eq]
  split_ifs
  · rfl
  · split
    · next k hk => exact absurd (infix_of_searchLoop hk) hs
    · rfl

theorem refuses_consumeAndTrimTillString {c : UInt8} (hc : c ∈ s) (ht : c ∉ t) :
    Refuses (AtText mem) (consumeAndTrimTillString s) t :=
  refuses_of_absent fun hs => ht (hs.mem hc)

/-- The search goes to the first occurrence when the first byte of the pattern
does not occur earlier. -/
theorem reads_consumeAndTrimTillString {c : UInt8} (hs : s.head? = some c) (ht : c ∉ t) :
    Reads (AtText mem) (consumeAndTrimTillString s) (t ++ s) () fun _ => True := by
  obtain ⟨s, rfl⟩ : ∃ s', s = c :: s' := ⟨s.tail, (List.eq_cons_of_mem_head? hs)⟩
  intro h rest hv _
  refine ⟨h.advance (t ++ c :: s).length, ?_, hv.advance⟩
  have hne : h.isEmpty = false := hv.isEmpty_eq (by simp)
  have hskip : (t ++ c :: s ++ rest).takeWhile (· ≠ c) = t := by
    rw [List.append_assoc, List.takeWhile_append_of_pos fun d hd => ?_]
    · simp
    · have hdc : d ≠ c := fun he => ht (he ▸ hd)
      simpa using hdc
  have hsearch : searchLoop (c :: s) (t ++ c :: s ++ rest).length (t ++ c :: s ++ rest) 0 =
      some (t ++ c :: s).length := by
    have hlen : (t ++ c :: s ++ rest).length = (t.length + s.length + rest.length) + 1 := by
      simp only [List.length_append, List.length_cons]
      omega
    rw [hlen]
    simp only [searchLoop, hskip]
    rw [List.append_assoc, List.drop_left, matched_append_self, if_neg (by simp), if_pos rfl]
    simp
  simp only [consumeAndTrimTillString, hne, hv.curLength_eq, hv.rest_eq, hsearch]
  rw [if_neg]
  simp
  omega

end Rules

end Columbo
