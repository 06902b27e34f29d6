import Columbo.NumberParsing

/-!
# What the line operations look at

Two runs of the same operations on lines with the same bytes, but with
different memory behind the line. All operations but those on numbers stop
where the line ends. A number is followed behind the end of the line: when its
digits reach the end, the byte there decides whether it is accepted.
-/
namespace Columbo

namespace LineHandler

/-- What lies in memory behind the line. -/
def behind (h : LineHandler) : Bytes := h.buf.drop h.size

end LineHandler

open LineHandler

/-- Two handlers of a line at the same position. -/
structure SameLine (h₁ h₂ : LineHandler) : Prop where
  line_eq : h₁.getRawLine = h₂.getRawLine
  size_eq : h₁.size = h₂.size
  pos_eq : h₁.curReadingPos = h₂.curReadingPos

section Local

variable {h h₁ h₂ : LineHandler} {α : Type}

theorem rest_eq_drop (h : LineHandler) : h.rest = h.getRawLine.drop h.curReadingPos := by
  rw [rest, cursor, curLength, getRawLine, List.drop_take]

theorem length_rest (h : LineHandler) : h.rest.length = h.curLength := by
  have hsize := h.size_le
  rw [rest_eq_drop, getRawLine, List.length_drop, List.length_take, curLength]
  omega

theorem isEmpty_iff (h : LineHandler) : h.isEmpty = true ↔ h.rest = [] := by
  rw [← List.length_eq_zero_iff, length_rest, isEmpty]
  simp

/-- Before the end of the line memory goes on with the line. -/
theorem cursor_eq (hne : h.rest ≠ []) : h.cursor = h.rest ++ h.behind := by
  have hlength := List.length_pos_iff.mpr hne
  rw [length_rest, curLength] at hlength
  have hsplit := List.take_append_drop h.curLength h.cursor
  rw [← rest, cursor, List.drop_drop, curLength, Nat.add_sub_cancel' (by omega)] at hsplit
  exact hsplit.symm

theorem SameLine.rest_eq (h : SameLine h₁ h₂) : h₁.rest = h₂.rest := by
  rw [rest_eq_drop, rest_eq_drop, h.line_eq, h.pos_eq]

theorem SameLine.isEmpty_eq (h : SameLine h₁ h₂) : h₁.isEmpty = h₂.isEmpty := by
  rw [Bool.eq_iff_iff, isEmpty_iff, isEmpty_iff, h.rest_eq]

theorem SameLine.curLength_eq (h : SameLine h₁ h₂) : h₁.curLength = h₂.curLength := by
  rw [← length_rest, ← length_rest, h.rest_eq]

theorem SameLine.advance (h : SameLine h₁ h₂) (n : ℕ) :
    SameLine (h₁.advance n) (h₂.advance n) :=
  ⟨h.line_eq, h.size_eq, congrArg (· + n) h.pos_eq⟩

theorem sameLine_ofLine (line mem₁ mem₂ : Bytes) :
    SameLine (ofLine line mem₁) (ofLine line mem₂) := by
  refine ⟨?_, rfl, rfl⟩
  simp [getRawLine, ofLine]

theorem respects_moveForward (steps : ℕ) : Respects SameLine (moveForward steps) := by
  intro h₁ h₂ h
  simp only [moveForward, h.isEmpty_eq, h.curLength_eq]
  split_ifs
  · exact ⟨rfl, h⟩
  · exact ⟨rfl, h.advance steps⟩

theorem respects_trimL : Respects SameLine trimL := by
  intro h₁ h₂ h
  simp only [trimL, h.rest_eq]
  exact ⟨rfl, h.advance _⟩

theorem respects_trimTillWhitespace : Respects SameLine trimTillWhitespace := by
  intro h₁ h₂ h
  simp only [trimTillWhitespace, h.rest_eq]
  exact ⟨rfl, h.advance _⟩

theorem respects_extractAndSubstrUntil (predicate : UInt8 → Bool) :
    Respects SameLine (extractAndSubstrUntil predicate) := by
  intro h₁ h₂ h
  simp only [extractAndSubstrUntil, h.rest_eq]
  exact ⟨rfl, h.advance _⟩

theorem respects_extractAndSubstrUntilInto (predicate : UInt8 → Bool) :
    Respects SameLine (extractAndSubstrUntilInto predicate) := by
  refine (respects_extractAndSubstrUntil predicate).bind fun target => ?_
  split_ifs
  · exact .fail
  · exact .pure target

theorem respects_skipTill (predicate : UInt8 → Bool) :
    Respects SameLine (skipTill predicate) := by
  intro h₁ h₂ h
  simp only [skipTill, h.isEmpty_eq, h.rest_eq, h.pos_eq, h.size_eq]
  split_ifs
  · exact ⟨rfl, h⟩
  · exact ⟨rfl, h.advance _⟩
  · exact ⟨rfl, h⟩

theorem respects_consumeAndTrimTillString (toConsume : Bytes) :
    Respects SameLine (consumeAndTrimTillString toConsume) := by
  intro h₁ h₂ h
  simp only [consumeAndTrimTillString, h.isEmpty_eq, h.curLength_eq, h.rest_eq]
  split_ifs
  · exact ⟨rfl, h⟩
  · cases searchLoop toConsume h₂.rest.length h₂.rest 0 with
    | none => exact ⟨rfl, h⟩
    | some consumed => exact ⟨rfl, h.advance consumed⟩

theorem respects_consumeAndTrimString (toConsume : Bytes) :
    Respects SameLine (consumeAndTrimString toConsume) := by
  intro h₁ h₂ h
  simp only [consumeAndTrimString, h.isEmpty_eq, h.curLength_eq, h.rest_eq]
  split_ifs
  · exact ⟨rfl, h⟩
  · exact ⟨rfl, h.advance _⟩
  · exact ⟨rfl, h⟩

theorem head?_cursor (hne : h.isEmpty = false) : h.cursor.head? = h.rest.head? := by
  have hrest : h.rest ≠ [] := fun hnil => by
    rw [(isEmpty_iff h).mpr hnil] at hne
    cases hne
  rw [cursor_eq hrest, List.head?_append_of_ne_nil _ hrest]

theorem respects_consumeAndTrimChar (toConsume : UInt8) :
    Respects SameLine (consumeAndTrimChar toConsume) := by
  intro h₁ h₂ h
  simp only [consumeAndTrimChar, h.isEmpty_eq]
  cases hempty : h₂.isEmpty with
  | true => exact ⟨rfl, h⟩
  | false =>
    rw [head?_cursor (h.isEmpty_eq.trans hempty), head?_cursor hempty, h.rest_eq]
    simp only [Bool.false_eq_true, if_false]
    split_ifs
    · exact ⟨rfl, h.advance 1⟩
    · exact ⟨rfl, h⟩

theorem respects_parseBoolFromStringRepr : Respects SameLine parseBoolFromStringRepr :=
  .orElse ((respects_consumeAndTrimString _).bind fun _ => .pure true)
    ((respects_consumeAndTrimString _).bind fun _ => .pure false)

end Local

section Numbers

variable {h h₁ h₂ : LineHandler} {α : Type} {pred : UInt8 → Bool} {num : Bytes → Option α}

/-- The number at the front of the line. The byte behind the line must end it. -/
def readNumber (pred : UInt8 → Bool) (num : Bytes → Option α) : LineScan α := fun h =>
  let token := h.rest.takeWhile pred
  if token = [] ∨ token = h.rest ∧ h.behind.takeWhile pred ≠ [] then (none, h)
  else
    match num token with
    | some a => (some a, h.advance token.length)
    | none => (none, h)

/-- The rest of the line is a number, and behind only one of the lines it goes on. -/
structure Continues (pred : UInt8 → Bool) (accepts : Bytes → Bool) (h₁ h₂ : LineHandler) : Prop
    where
  ne_nil : h₁.rest ≠ []
  all : ∀ c ∈ h₁.rest, pred c = true
  accepts : accepts h₁.rest = true
  differ : ¬(h₁.behind.takeWhile pred = [] ↔ h₂.behind.takeWhile pred = [])

theorem readNumber_alike (h : SameLine h₁ h₂)
    (hcontinues : ¬ Continues pred (fun t => (num t).isSome) h₁ h₂) :
    Alike SameLine (readNumber pred num h₁) (readNumber pred num h₂) := by
  have hread : ∀ b₁ b₂ : Prop, [Decidable b₁] → [Decidable b₂] →
      (num (h₂.rest.takeWhile pred) = none ∨ (b₁ ↔ b₂)) →
      Alike SameLine
        (if b₁ then (none, h₁) else
          match num (h₂.rest.takeWhile pred) with
          | some a => (some a, h₁.advance (h₂.rest.takeWhile pred).length)
          | none => (none, h₁))
        (if b₂ then (none, h₂) else
          match num (h₂.rest.takeWhile pred) with
          | some a => (some a, h₂.advance (h₂.rest.takeWhile pred).length)
          | none => (none, h₂)) := by
    intro b₁ b₂ _ _ hsame
    cases hnum : num (h₂.rest.takeWhile pred) with
    | none => simpa only [ite_self] using ⟨rfl, h⟩
    | some a =>
      have hiff := hsame.resolve_left (by rw [hnum]; exact Option.some_ne_none a)
      simp only [hiff]
      split_ifs
      · exact ⟨rfl, h⟩
      · exact ⟨rfl, h.advance _⟩
  simp only [readNumber, h.rest_eq]
  refine hread _ _ ?_
  by_contra hdiffer
  obtain ⟨hnum, hiff⟩ := not_or.mp hdiffer
  have htoken : h₂.rest.takeWhile pred ≠ [] := fun hnil => hiff (by simp only [hnil, true_or])
  have hall : h₂.rest.takeWhile pred = h₂.rest := by
    by_contra hpart
    exact hiff (by simp only [hpart, false_and])
  refine hcontinues ⟨?_, ?_, ?_, fun hends => hiff ?_⟩
  · rw [h.rest_eq, ← hall]
    exact htoken
  · rw [h.rest_eq]
    exact List.takeWhile_eq_self_iff.mp hall
  · rw [h.rest_eq, ← hall]
    exact Option.isSome_iff_ne_none.mpr hnum
  · rw [ne_eq, hends]

/-- The byte behind the line decides. -/
theorem readNumber_differs (h : SameLine h₁ h₂)
    (hcontinues : Continues pred (fun t => (num t).isSome) h₁ h₂) :
    (readNumber pred num h₁).1.isSome ≠ (readNumber pred num h₂).1.isSome := by
  have htoken : h₁.rest.takeWhile pred = h₁.rest :=
    List.takeWhile_eq_self_iff.mpr hcontinues.all
  obtain ⟨a, ha⟩ := Option.isSome_iff_exists.mp hcontinues.accepts
  have hread : ∀ h' : LineHandler, h'.rest = h₁.rest →
      (readNumber pred num h').1.isSome = decide (h'.behind.takeWhile pred = []) := by
    intro h' hrest'
    rw [readNumber, hrest', htoken]
    by_cases hends : h'.behind.takeWhile pred = []
    · simp [hends, hcontinues.ne_nil, ha]
    · simp [hends]
  rw [hread h₁ rfl, hread h₂ h.rest_eq.symm, ne_eq, decide_eq_decide]
  exact hcontinues.differ

theorem takeWhile_cursor (hne : h.rest ≠ []) :
    h.cursor.takeWhile pred = if h.rest.takeWhile pred = h.rest then
      h.rest ++ h.behind.takeWhile pred else h.rest.takeWhile pred := by
  have hlength : h.rest.takeWhile pred = h.rest ↔
      (h.rest.takeWhile pred).length = h.rest.length :=
    ⟨congrArg List.length, (List.takeWhile_prefix pred).eq_of_length⟩
  rw [cursor_eq hne, List.takeWhile_append]
  simp only [hlength]

/-- A parser that delimits the number in memory and then compares its end with
the end of the line. -/
theorem readNumber_eq (h : LineHandler) :
    readNumber pred num h =
      if h.isEmpty then (none, h)
      else if (h.cursor.takeWhile pred).length = 0 ∨
          h.size < h.curReadingPos + (h.cursor.takeWhile pred).length then (none, h)
      else
        match num (h.cursor.takeWhile pred) with
        | some a => (some a, h.advance (h.cursor.takeWhile pred).length)
        | none => (none, h) := by
  by_cases hne : h.rest = []
  · rw [if_pos ((isEmpty_iff h).mpr hne), readNumber, hne, List.takeWhile_nil]
    exact if_pos (.inl rfl)
  have hempty : ¬ h.isEmpty = true := fun hempty => hne ((isEmpty_iff h).mp hempty)
  have hlength := length_rest h
  have hpos := List.length_pos_iff.mpr hne
  rw [curLength] at hlength
  rw [if_neg hempty, takeWhile_cursor hne, readNumber]
  by_cases htoken : h.rest.takeWhile pred = h.rest
  · simp only [htoken, if_true, hne, true_and, false_or, List.length_append]
    by_cases hends : h.behind.takeWhile pred = []
    · have hfits : ¬ h.size < h.curReadingPos + h.rest.length := by omega
      simp [hends, hne, hfits]
    · have hover := List.length_pos_iff.mpr hends
      rw [if_pos hends, if_pos (.inr (by omega))]
  · have hshort := (List.takeWhile_prefix pred (l := h.rest)).length_le
    have hfits : ¬ h.size < h.curReadingPos + (h.rest.takeWhile pred).length := by omega
    simp only [htoken, if_false, false_and, or_false, hfits, List.length_eq_zero_iff]

theorem parseUintTrim_eq_readNumber {base : ℕ} (hbase : base = 10 ∨ base = 16) :
    parseUintTrim base = readNumber (numberClass base) fun t =>
      if strtoul base t = ULONG_MAX then none else some (strtoul base t).toUInt64 := by
  funext h
  have hclass : (if base = 10 then isNum else isAlnum) = numberClass base := rfl
  have hvalid : (base ≠ 10 && base ≠ 16) = false := by rcases hbase with rfl | rfl <;> rfl
  rw [readNumber_eq, parseUintTrim, hclass, strtoul_takeWhile hbase, hvalid, Bool.or_false]
  by_cases hmax : strtoul base h.cursor = ULONG_MAX
  · simp [hmax]
  · simp [hmax]

theorem parseInt_eq_readNumber :
    parseInt = readNumber isNum fun t => some (Int32.ofNat (strtol t)) := by
  funext h
  rw [readNumber_eq, parseInt, strtol_takeWhile]
  simp

end Numbers

section Runs

inductive LineOp
  | moveForward (steps : ℕ)
  | trimL
  | trimTillWhitespace
  | extractAndSubstrUntil (predicate : UInt8 → Bool)
  | extractAndSubstrUntilInto (predicate : UInt8 → Bool)
  | skipTill (predicate : UInt8 → Bool)
  | consumeAndTrimTillString (toConsume : Bytes)
  | consumeAndTrimString (toConsume : Bytes)
  | consumeAndTrimChar (toConsume : UInt8)
  | parseUintTrim (base : ℕ)
  | parseInt
  | parseBoolFromUint (base : ℕ)
  | parseBoolFromStringRepr
  | parseBoolFromInt

namespace LineOp

variable {h₁ h₂ : LineHandler}

/-- What an operation returns or writes to its target. -/
def Target : LineOp → Type
  | extractAndSubstrUntil _ | extractAndSubstrUntilInto _ => Bytes
  | parseUintTrim _ => UInt64
  | parseInt => Int32
  | parseBoolFromUint _ | parseBoolFromStringRepr | parseBoolFromInt => Bool
  | _ => Unit

def exec : (op : LineOp) → LineScan op.Target
  | moveForward steps => Columbo.moveForward steps
  | trimL => Columbo.trimL
  | trimTillWhitespace => Columbo.trimTillWhitespace
  | extractAndSubstrUntil predicate => Columbo.extractAndSubstrUntil predicate
  | extractAndSubstrUntilInto predicate => Columbo.extractAndSubstrUntilInto predicate
  | skipTill predicate => Columbo.skipTill predicate
  | consumeAndTrimTillString toConsume => Columbo.consumeAndTrimTillString toConsume
  | consumeAndTrimString toConsume => Columbo.consumeAndTrimString toConsume
  | consumeAndTrimChar toConsume => Columbo.consumeAndTrimChar toConsume
  | parseUintTrim base => Columbo.parseUintTrim base
  | parseInt => Columbo.parseInt
  | parseBoolFromUint base => Columbo.parseBoolFromUint base
  | parseBoolFromStringRepr => Columbo.parseBoolFromStringRepr
  | parseBoolFromInt => Columbo.parseBoolFromInt

/-- A run of operations: their results, and the handler behind the last one. -/
def run : List LineOp → LineHandler → List ((op : LineOp) × Option op.Target) × LineHandler
  | [], h => ([], h)
  | op :: ops, h =>
    let (target, h) := op.exec h
    let (targets, h) := run ops h
    (⟨op, target⟩ :: targets, h)

/-- The bytes of a number that the operation reads, and the texts it accepts as one. -/
def number : LineOp → Option ((UInt8 → Bool) × (Bytes → Bool))
  | parseUintTrim base | parseBoolFromUint base =>
    if base = 10 ∨ base = 16 then some (numberClass base, fun t => strtoul base t ≠ ULONG_MAX)
    else none
  | parseInt | parseBoolFromInt => some (isNum, fun _ => true)
  | _ => none

/-- The operation reads a number that reaches the end of the line, and behind
exactly one of the lines it seems to go on. -/
def Continues (op : LineOp) (h₁ h₂ : LineHandler) : Prop :=
  ∃ pred accepts, op.number = some (pred, accepts) ∧ Columbo.Continues pred accepts h₁ h₂

theorem continues_parseUintTrim {base : ℕ} (hbase : base = 10 ∨ base = 16) :
    (parseUintTrim base).Continues h₁ h₂ ↔ Columbo.Continues (numberClass base) (fun t =>
      (if strtoul base t = ULONG_MAX then none else some (strtoul base t).toUInt64).isSome)
      h₁ h₂ := by
  have haccepts : (fun t => decide (strtoul base t ≠ ULONG_MAX)) = fun t =>
      (if strtoul base t = ULONG_MAX then none else some (strtoul base t).toUInt64).isSome := by
    funext t
    by_cases hmax : strtoul base t = ULONG_MAX <;> simp [hmax]
  rw [← haccepts]
  simp [Continues, number, if_pos hbase]

theorem continues_parseInt : parseInt.Continues h₁ h₂ ↔
    Columbo.Continues isNum (fun t => (some (Int32.ofNat (strtol t))).isSome) h₁ h₂ := by
  simp [Continues, number]

theorem parseUintTrim_alike {base : ℕ} (h : SameLine h₁ h₂)
    (hop : ¬ (parseUintTrim base).Continues h₁ h₂) :
    Alike SameLine (Columbo.parseUintTrim base h₁) (Columbo.parseUintTrim base h₂) := by
  by_cases hbase : base = 10 ∨ base = 16
  · rw [parseUintTrim_eq_readNumber hbase]
    exact readNumber_alike h ((continues_parseUintTrim hbase).not.mp hop)
  · have hfails : ∀ h', Columbo.parseUintTrim base h' = (none, h') := fun h' => by
      obtain ⟨hten, hsixteen⟩ := not_or.mp hbase
      rw [Columbo.parseUintTrim, if_pos (by simp [hten, hsixteen])]
    rw [hfails, hfails]
    exact ⟨rfl, h⟩

theorem parseUintTrim_differs {base : ℕ} (h : SameLine h₁ h₂)
    (hop : (parseUintTrim base).Continues h₁ h₂) :
    (Columbo.parseUintTrim base h₁).1.isSome ≠ (Columbo.parseUintTrim base h₂).1.isSome := by
  have hbase : base = 10 ∨ base = 16 := by
    obtain ⟨pred, accepts, hnumber, -⟩ := hop
    exact (Option.ite_none_right_eq_some.mp hnumber).1
  rw [parseUintTrim_eq_readNumber hbase]
  exact readNumber_differs h ((continues_parseUintTrim hbase).mp hop)

theorem parseInt_alike (h : SameLine h₁ h₂) (hop : ¬ parseInt.Continues h₁ h₂) :
    Alike SameLine (Columbo.parseInt h₁) (Columbo.parseInt h₂) := by
  rw [parseInt_eq_readNumber]
  exact readNumber_alike h (continues_parseInt.not.mp hop)

theorem parseInt_differs (h : SameLine h₁ h₂) (hop : parseInt.Continues h₁ h₂) :
    (Columbo.parseInt h₁).1.isSome ≠ (Columbo.parseInt h₂).1.isSome := by
  rw [parseInt_eq_readNumber]
  exact readNumber_differs h (continues_parseInt.mp hop)

theorem exec_alike (h : SameLine h₁ h₂) {op : LineOp} (hop : ¬ op.Continues h₁ h₂) :
    Alike SameLine (op.exec h₁) (op.exec h₂) := by
  cases op with
  | moveForward steps => exact respects_moveForward steps h₁ h₂ h
  | trimL => exact respects_trimL h₁ h₂ h
  | trimTillWhitespace => exact respects_trimTillWhitespace h₁ h₂ h
  | extractAndSubstrUntil predicate => exact respects_extractAndSubstrUntil predicate h₁ h₂ h
  | extractAndSubstrUntilInto predicate =>
    exact respects_extractAndSubstrUntilInto predicate h₁ h₂ h
  | skipTill predicate => exact respects_skipTill predicate h₁ h₂ h
  | consumeAndTrimTillString toConsume =>
    exact respects_consumeAndTrimTillString toConsume h₁ h₂ h
  | consumeAndTrimString toConsume => exact respects_consumeAndTrimString toConsume h₁ h₂ h
  | consumeAndTrimChar toConsume => exact respects_consumeAndTrimChar toConsume h₁ h₂ h
  | parseUintTrim base => exact parseUintTrim_alike h hop
  | parseInt => exact parseInt_alike h hop
  | parseBoolFromUint base => exact (parseUintTrim_alike h hop).bind fun _ => .pure _
  | parseBoolFromStringRepr => exact respects_parseBoolFromStringRepr h₁ h₂ h
  | parseBoolFromInt => exact (parseInt_alike h hop).bind fun _ => .pure _

theorem exec_differs (h : SameLine h₁ h₂) {op : LineOp} (hop : op.Continues h₁ h₂) :
    (op.exec h₁).1 ≠ (op.exec h₂).1 := by
  intro hsame
  have hsome := congrArg Option.isSome hsame
  cases op with
  | parseUintTrim base => exact parseUintTrim_differs h hop hsome
  | parseInt => exact parseInt_differs h hop hsome
  | parseBoolFromUint base =>
    refine parseUintTrim_differs h hop ?_
    have hflag : (Columbo.parseBoolFromUint base h₁).1.isSome =
        (Columbo.parseBoolFromUint base h₂).1.isSome := hsome
    rwa [Columbo.parseBoolFromUint, Scan.isSome_bind_pure, Scan.isSome_bind_pure] at hflag
  | parseBoolFromInt =>
    refine parseInt_differs h hop ?_
    have hflag : (Columbo.parseBoolFromInt h₁).1.isSome =
        (Columbo.parseBoolFromInt h₂).1.isSome := hsome
    rwa [Columbo.parseBoolFromInt, Scan.isSome_bind_pure, Scan.isSome_bind_pure] at hflag
  | _ =>
    obtain ⟨pred, accepts, hnumber, -⟩ := hop
    cases hnumber

/-- No operation of the run meets a number that continues behind one of the lines. -/
def StaysInLine : List LineOp → LineHandler → LineHandler → Prop
  | [], _, _ => True
  | op :: ops, h₁, h₂ => ¬ op.Continues h₁ h₂ ∧ StaysInLine ops (op.exec h₁).2 (op.exec h₂).2

theorem run_alike_iff (h : SameLine h₁ h₂) (ops : List LineOp) :
    ((run ops h₁).1 = (run ops h₂).1 ∧
        (run ops h₁).2.curReadingPos = (run ops h₂).2.curReadingPos) ↔
      StaysInLine ops h₁ h₂ := by
  induction ops generalizing h₁ h₂ with
  | nil => exact iff_of_true ⟨rfl, h.pos_eq⟩ trivial
  | cons op ops ih =>
    by_cases hop : op.Continues h₁ h₂
    · refine iff_of_false (fun hrun => exec_differs h hop ?_) fun hstays => hstays.1 hop
      have hfirst := (List.cons.inj hrun.1).1
      exact eq_of_heq (Sigma.mk.inj hfirst).2
    · obtain ⟨htarget, hline⟩ := exec_alike h hop
      refine Iff.trans ?_ ((ih hline).trans (and_iff_right hop).symm)
      simp only [run, htarget, List.cons.injEq, true_and]

end LineOp

open LineOp

/-- Runs on lines with the same bytes are alike exactly if no operation of them
reads a number that ends with the line and goes on behind one of the two lines only. -/
theorem run_ofLine_alike_iff (line mem₁ mem₂ : Bytes) (ops : List LineOp) :
    ((run ops (ofLine line mem₁)).1 = (run ops (ofLine line mem₂)).1 ∧
        (run ops (ofLine line mem₁)).2.curReadingPos =
          (run ops (ofLine line mem₂)).2.curReadingPos) ↔
      StaysInLine ops (ofLine line mem₁) (ofLine line mem₂) :=
  run_alike_iff (sameLine_ofLine line mem₁ mem₂) ops

/-- A digit behind the line makes the number in it unreadable. -/
theorem not_run_ofLine_alike :
    (run [.parseUintTrim 10] (ofLine (bytes "12") (bytes "\n"))).1 ≠
      (run [.parseUintTrim 10] (ofLine (bytes "12") (bytes "3\n"))).1 := by
  intro hrun
  have htarget : (Columbo.parseUintTrim 10 (ofLine (bytes "12") (bytes "\n"))).1 =
      (Columbo.parseUintTrim 10 (ofLine (bytes "12") (bytes "3\n"))).1 :=
    eq_of_heq (Sigma.mk.inj (List.cons.inj hrun).1).2
  exact absurd htarget (by decide)

end Runs

end Columbo
