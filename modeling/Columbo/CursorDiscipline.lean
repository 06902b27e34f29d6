import Columbo.LineLocality
import Columbo.SubstringSearch

/-!
# The discipline of the cursor

Every operation of the line handler moves the reading position forward by at most the
bytes that are left of the line, and an operation that fails does not move it: parsers
can try one alternative after the other. The scan for a number may run behind the line,
but its length is compared with the line before the position moves.
-/
namespace Columbo

open LineHandler

/-- The position moves forward in the line. -/
def Advances (h h' : LineHandler) : Prop := ∃ n ≤ h.curLength, h' = h.advance n

/-- A scan that succeeds advances, and one that fails changes nothing. -/
def Steady {α : Type} (p : LineScan α) : Prop :=
  ∀ h, ((p h).1 ≠ none → Advances h (p h).2) ∧ ((p h).1 = none → (p h).2 = h)

section Operations

variable {α β : Type} {h : LineHandler} {n : ℕ}

theorem steady_of_some {p : LineScan α} {a : α} {h' : LineHandler} (hp : p h = (some a, h'))
    (hadvances : Advances h h') :
    ((p h).1 ≠ none → Advances h (p h).2) ∧ ((p h).1 = none → (p h).2 = h) := by
  rw [hp]
  exact ⟨fun _ => hadvances, fun hnone => absurd hnone (Option.some_ne_none a)⟩

theorem steady_of_none {p : LineScan α} (hp : p h = (none, h)) :
    ((p h).1 ≠ none → Advances h (p h).2) ∧ ((p h).1 = none → (p h).2 = h) := by
  rw [hp]
  exact ⟨fun hne => absurd rfl hne, fun _ => rfl⟩

theorem advances_rest (pred : UInt8 → Bool) :
    Advances h (h.advance (h.rest.takeWhile pred).length) :=
  ⟨_, (List.takeWhile_prefix _).length_le.trans_eq (length_rest h), rfl⟩

theorem steady_moveForward (steps : ℕ) : Steady (moveForward steps) := by
  intro h
  by_cases hshort : (h.isEmpty || h.curLength < steps) = true
  · exact steady_of_none (if_pos hshort)
  · refine steady_of_some (if_neg hshort) ⟨steps, ?_, rfl⟩
    simp only [Bool.or_eq_true, decide_eq_true_eq, not_or, not_lt] at hshort
    exact hshort.2

theorem steady_trimL : Steady trimL := fun _ => steady_of_some rfl (advances_rest _)

theorem steady_trimTillWhitespace : Steady trimTillWhitespace :=
  fun _ => steady_of_some rfl (advances_rest _)

theorem steady_extractAndSubstrUntil (predicate : UInt8 → Bool) :
    Steady (extractAndSubstrUntil predicate) :=
  fun _ => steady_of_some rfl (advances_rest predicate)

/-- Nothing was extracted where this fails. -/
theorem steady_extractAndSubstrUntilInto (predicate : UInt8 → Bool) :
    Steady (extractAndSubstrUntilInto predicate) := by
  intro h
  have hextract : extractAndSubstrUntil predicate h = (some (h.rest.takeWhile predicate),
    h.advance (h.rest.takeWhile predicate).length) := rfl
  by_cases hempty : (h.rest.takeWhile predicate).isEmpty = true
  · refine steady_of_none ?_
    rw [extractAndSubstrUntilInto, Scan.bind_of_some hextract, if_pos hempty,
      List.isEmpty_iff.mp hempty]
    rfl
  · refine steady_of_some (a := h.rest.takeWhile predicate) ?_ (advances_rest predicate)
    rw [extractAndSubstrUntilInto, Scan.bind_of_some hextract, if_neg hempty]
    rfl

theorem steady_skipTill (predicate : UInt8 → Bool) : Steady (skipTill predicate) := by
  intro h
  by_cases hempty : h.isEmpty = true
  · exact steady_of_none (if_pos hempty)
  by_cases hfound : h.curReadingPos + (h.rest.takeWhile fun c => !predicate c).length < h.size
  · refine steady_of_some (a := ()) ?_ (advances_rest fun c => !predicate c)
    rw [skipTill, if_neg hempty, if_pos hfound]
  · refine steady_of_none ?_
    rw [skipTill, if_neg hempty, if_neg hfound]

theorem steady_consumeAndTrimTillString (toConsume : Bytes) :
    Steady (consumeAndTrimTillString toConsume) := by
  intro h
  by_cases hs : toConsume = []
  · refine steady_of_none ?_
    have hnone : searchLoop [] h.rest.length h.rest 0 = none := by
      cases h.rest.length <;> rfl
    rw [hs, consumeAndTrimTillString]
    simp only [hnone, ite_self]
  rw [consumeAndTrimTillString_eq hs]
  cases hsearch : searchLoop toConsume h.rest.length h.rest 0 with
  | none => exact ⟨fun hne => absurd rfl hne, fun _ => rfl⟩
  | some k =>
    obtain ⟨front, rest, htext, hk, -⟩ := steppedOver_of_searchLoop hs hsearch
    refine ⟨fun _ => ⟨k, ?_, rfl⟩, fun hnone => absurd hnone (Option.some_ne_none _)⟩
    rw [← length_rest, htext, hk]
    simp only [List.length_append]
    omega

theorem steady_consumeAndTrimString (toConsume : Bytes) :
    Steady (consumeAndTrimString toConsume) := by
  intro h
  by_cases hshort : (h.isEmpty || h.curLength < toConsume.length) = true
  · exact steady_of_none (if_pos hshort)
  by_cases hprefix : toConsume.isPrefixOf h.rest = true
  · refine steady_of_some (a := ()) ?_ ⟨toConsume.length, ?_, rfl⟩
    · rw [consumeAndTrimString, if_neg hshort, if_pos hprefix]
    · simp only [Bool.or_eq_true, decide_eq_true_eq, not_or, not_lt] at hshort
      exact hshort.2
  · refine steady_of_none ?_
    rw [consumeAndTrimString, if_neg hshort, if_neg hprefix]

theorem one_le_curLength (hempty : ¬ h.isEmpty = true) : 1 ≤ h.curLength := by
  simp only [isEmpty, decide_eq_true_eq] at hempty
  omega

theorem steady_consumeAndTrimChar (toConsume : UInt8) : Steady (consumeAndTrimChar toConsume) := by
  intro h
  by_cases hempty : h.isEmpty = true
  · exact steady_of_none (if_pos hempty)
  by_cases hchar : h.cursor.head? = some toConsume
  · refine steady_of_some (a := ()) ?_ ⟨1, one_le_curLength hempty, rfl⟩
    rw [consumeAndTrimChar, if_neg hempty, if_pos hchar]
  · refine steady_of_none ?_
    rw [consumeAndTrimChar, if_neg hempty, if_neg hchar]

/-- A number that is accepted does not reach behind the line. -/
theorem advances_number (hfits : ¬ h.curReadingPos + n > h.size) : Advances h (h.advance n) :=
  ⟨n, by rw [curLength]; omega, rfl⟩

theorem steady_parseUintTrim (base : ℕ) : Steady (parseUintTrim base) := by
  intro h
  by_cases hrefused : (h.isEmpty || (base ≠ 10 && base ≠ 16)) = true
  · exact steady_of_none (if_pos hrefused)
  have hrun : parseUintTrim base h = _ := if_neg hrefused
  simp only at hrun
  split_ifs at hrun with hten hlong hmax hlong hmax
  · exact steady_of_none hrun
  · exact steady_of_none hrun
  · exact steady_of_some hrun (advances_number (by simp_all))
  · exact steady_of_none hrun
  · exact steady_of_none hrun
  · exact steady_of_some hrun (advances_number (by simp_all))

theorem steady_parseInt : Steady parseInt := by
  intro h
  by_cases hempty : h.isEmpty = true
  · exact steady_of_none (if_pos hempty)
  have hrun : parseInt h = _ := if_neg hempty
  split_ifs at hrun with hlong
  · exact steady_of_none hrun
  · exact steady_of_some hrun (advances_number (by simp_all))

/-- A computation on the value of a scan does not move the cursor. -/
theorem Steady.map {p : LineScan α} (hp : Steady p) (f : α → β) :
    Steady (p >>= fun a => pure (f a)) := by
  intro h
  obtain ⟨hsome, hnone⟩ := hp h
  rcases hresult : p h with ⟨_ | a, h'⟩
  · rw [hresult] at hnone
    obtain rfl : h' = h := hnone rfl
    exact steady_of_none (Scan.bind_of_none hresult)
  · rw [hresult] at hsome
    exact steady_of_some (a := f a) (Scan.bind_of_some hresult) (hsome (Option.some_ne_none a))

theorem Steady.orElse {p q : LineScan α} (hp : Steady p) (hq : Steady q) : Steady (p.orElse q) := by
  intro h
  obtain ⟨hsome, hnone⟩ := hp h
  rcases hresult : p h with ⟨_ | a, h'⟩
  · rw [hresult] at hnone
    obtain rfl : h' = h := hnone rfl
    have hsecond : p.orElse q h' = q h' := by rw [Scan.orElse, hresult]
    rw [hsecond]
    exact hq h'
  · rw [hresult] at hsome
    exact steady_of_some (a := a) (by rw [Scan.orElse, hresult]) (hsome (Option.some_ne_none a))

theorem LineOp.steady (op : LineOp) : Steady op.exec := by
  cases op with
  | moveForward steps => exact steady_moveForward steps
  | trimL => exact steady_trimL
  | trimTillWhitespace => exact steady_trimTillWhitespace
  | extractAndSubstrUntil predicate => exact steady_extractAndSubstrUntil predicate
  | extractAndSubstrUntilInto predicate => exact steady_extractAndSubstrUntilInto predicate
  | skipTill predicate => exact steady_skipTill predicate
  | consumeAndTrimTillString toConsume => exact steady_consumeAndTrimTillString toConsume
  | consumeAndTrimString toConsume => exact steady_consumeAndTrimString toConsume
  | consumeAndTrimChar toConsume => exact steady_consumeAndTrimChar toConsume
  | parseUintTrim base => exact steady_parseUintTrim base
  | parseInt => exact steady_parseInt
  | parseBoolFromUint base => exact (steady_parseUintTrim base).map _
  | parseBoolFromStringRepr =>
    exact .orElse ((steady_consumeAndTrimString _).map _) ((steady_consumeAndTrimString _).map _)
  | parseBoolFromInt => exact steady_parseInt.map _

end Operations

/-- An operation of the line handler, with the one that starts over at the line's first
byte. -/
inductive CursorOp
  | line (op : LineOp)
  | resetPos

namespace CursorOp

/-- What an operation returns or writes to its target. -/
def Target : CursorOp → Type
  | line op => op.Target
  | resetPos => Unit

def exec : (op : CursorOp) → LineScan op.Target
  | line op => op.exec
  | resetPos => fun h => (some (), h.resetPos)

/-- The handler behind the last of some operations. -/
def run (ops : List CursorOp) (h : LineHandler) : LineHandler :=
  ops.foldl (fun h op => (op.exec h).2) h

end CursorOp

/-- What an operation on a handler keeps to. -/
structure Disciplined (h : LineHandler) (op : CursorOp) : Prop where
  before : h.curReadingPos ≤ h.size
  after : (op.exec h).2.curReadingPos ≤ (op.exec h).2.size
  forward : op ≠ .resetPos → h.curReadingPos ≤ (op.exec h).2.curReadingPos
  failed : (op.exec h).1 = none → (op.exec h).2 = h
  stops : ∃ c ∈ h.cursor, isAlnum c = false

/-- The position is in the line, which stays where it is in memory. -/
structure OnLine (line mem : Bytes) (h : LineHandler) : Prop where
  buf_eq : h.buf = line ++ mem
  size_eq : h.size = line.length
  pos_le : h.curReadingPos ≤ h.size

section Runs

variable {line mem : Bytes} {h h' : LineHandler}

theorem onLine_ofLine (line mem : Bytes) : OnLine line mem (ofLine line mem) :=
  ⟨rfl, rfl, Nat.zero_le _⟩

theorem OnLine.resetPos (hline : OnLine line mem h) : OnLine line mem h.resetPos :=
  ⟨hline.buf_eq, hline.size_eq, Nat.zero_le _⟩

theorem OnLine.advances (hline : OnLine line mem h) (hadvances : Advances h h') :
    OnLine line mem h' := by
  obtain ⟨n, hn, rfl⟩ := hadvances
  refine ⟨hline.buf_eq, hline.size_eq, ?_⟩
  have hpos := hline.pos_le
  rw [curLength] at hn
  simp only [LineHandler.advance]
  omega

theorem Advances.pos_le (hadvances : Advances h h') : h.curReadingPos ≤ h'.curReadingPos := by
  obtain ⟨n, -, rfl⟩ := hadvances
  exact Nat.le_add_right _ _

/-- What a steady scan leaves of the line. -/
theorem Steady.onLine {α : Type} {p : LineScan α} (hp : Steady p) (hline : OnLine line mem h) :
    OnLine line mem (p h).2 ∧ h.curReadingPos ≤ (p h).2.curReadingPos := by
  obtain ⟨hsome, hnone⟩ := hp h
  by_cases hfailed : (p h).1 = none
  · rw [hnone hfailed]
    exact ⟨hline, le_rfl⟩
  · exact ⟨hline.advances (hsome hfailed), (hsome hfailed).pos_le⟩

/-- One operation keeps the position in the line. -/
theorem OnLine.exec (hline : OnLine line mem h) (op : CursorOp) :
    OnLine line mem (op.exec h).2 := by
  cases op with
  | line op => exact (op.steady.onLine hline).1
  | resetPos => exact hline.resetPos

theorem OnLine.run (hline : OnLine line mem h) (ops : List CursorOp) :
    OnLine line mem (CursorOp.run ops h) := by
  induction ops generalizing h with
  | nil => exact hline
  | cons op ops ih => exact ih (hline.exec op)

/-- Memory behind the line is always in sight of the cursor. -/
theorem OnLine.stops (hline : OnLine line mem h) (hmem : ∃ c ∈ mem, isAlnum c = false) :
    ∃ c ∈ h.cursor, isAlnum c = false := by
  obtain ⟨c, hc, hstop⟩ := hmem
  refine ⟨c, ?_, hstop⟩
  have hpos : h.curReadingPos ≤ line.length := hline.size_eq ▸ hline.pos_le
  rw [cursor, hline.buf_eq, List.drop_append_of_le_length hpos]
  exact List.mem_append_right _ hc

theorem OnLine.disciplined (hline : OnLine line mem h) (hmem : ∃ c ∈ mem, isAlnum c = false)
    (op : CursorOp) : Disciplined h op := by
  refine ⟨hline.pos_le, (hline.exec op).pos_le, fun hop => ?_, fun hfailed => ?_,
    hline.stops hmem⟩
  · cases op with
    | line op => exact (op.steady.onLine hline).2
    | resetPos => exact absurd rfl hop
  · cases op with
    | line op => exact (op.steady h).2 hfailed
    | resetPos => cases hfailed

/-- Whatever was done on a line before, the next operation keeps the cursor in the line,
does not move it back unless it is `ResetPos`, and does not move it where it fails. -/
theorem disciplined_run (line mem : Bytes) (hmem : ∃ c ∈ mem, isAlnum c = false)
    (ops : List CursorOp) (op : CursorOp) : Disciplined (CursorOp.run ops (ofLine line mem)) op :=
  ((onLine_ofLine line mem).run ops).disciplined hmem op

/-- A number whose digits run on behind the line is refused without moving. -/
theorem disciplined_run_joined :
    Disciplined (CursorOp.run [.line .trimL] (ofLine (bytes " 12") (bytes "3\n")))
      (.line (.parseUintTrim 10)) :=
  disciplined_run (bytes " 12") (bytes "3\n") ⟨10, by decide, by decide⟩ _ _

end Runs

end Columbo
