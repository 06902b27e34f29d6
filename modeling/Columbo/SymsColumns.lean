import Columbo.NumberParsing
import Columbo.SymsFilter
import Columbo.TextColumns
import Mathlib.Data.List.DropRight

/-!
# What `LoadSyms` takes from a line

The address is the alphanumeric run that the text of a line starts with. Behind it white
space and seven bytes are skipped, whatever they are, and the beginning of the third word
from there is the name. A line that is too short for the flags has no such word.
-/
namespace Columbo.SymsFilter

open TextColumns

section Texts

/-- The name at the front of a text. -/
def nameOf (t : Bytes) : Option Bytes :=
  let name := (t.dropWhile isSpace).takeWhile isAlnumDotBar
  if name = [] then none else some name

/-- The beginning of the third word. -/
def thirdName (t : Bytes) : Option Bytes := nameOf (behindWord isSpace (behindWord isSpace t))

def addressOf (t : Bytes) : Option UInt64 :=
  let run := (t.dropWhile isSpace).takeWhile isAlnum
  if run = [] ∨ strtoul 16 run = ULONG_MAX then none else some (strtoul 16 run).toUInt64

def behindAddress (t : Bytes) : Bytes := (t.dropWhile isSpace).dropWhile isAlnum

def symbolOfText (t : Bytes) : Option (UInt64 × Bytes) :=
  (addressOf t).bind fun address =>
    (thirdName (((behindAddress t).dropWhile isSpace).drop 7)).map fun name => (address, name)

end Texts

section Reading

variable {mem t : Bytes} {h : LineHandler} {address : UInt64}

theorem trimL_at (hv : AtText mem h t) :
    ∃ h', trimL h = (some (), h') ∧ AtText mem h' (t.dropWhile isSpace) := by
  refine ⟨h.advance (t.takeWhile isSpace).length, by rw [trimL, hv.rest_eq], ?_⟩
  rw [← List.takeWhile_append_dropWhile (p := isSpace) (l := t)] at hv
  exact hv.advance

/-- The section and the size are skipped in the same way. -/
theorem skipSymsSection_at (hv : AtText mem h t) :
    ∃ h', skipSymsSection h = (some (), h') ∧ AtText mem h' (behindWord isSpace t) := by
  obtain ⟨h₁, htrim, hv₁⟩ := trimL_at hv
  refine ⟨h₁.advance ((t.dropWhile isSpace).takeWhile fun c => !isSpace c).length, ?_, ?_⟩
  · rw [skipSymsSection, Scan.bind_of_some htrim, trimTillWhitespace, hv₁.rest_eq]
  · rw [← List.takeWhile_append_dropWhile (p := fun c => !isSpace c)
      (l := t.dropWhile isSpace)] at hv₁
    exact hv₁.advance

theorem parseAddress_eq (hv : AtText mem h t) :
    ∃ h₁, AtText mem h₁ (t.dropWhile isSpace) ∧ parseAddress h =
      if ((t.dropWhile isSpace).takeWhile isAlnum).length = 0 ∨
          strtoul 16 ((t.dropWhile isSpace).takeWhile isAlnum) = ULONG_MAX then (none, h₁)
      else (some (strtoul 16 ((t.dropWhile isSpace).takeWhile isAlnum)).toUInt64,
        h₁.advance ((t.dropWhile isSpace).takeWhile isAlnum).length) := by
  obtain ⟨h₁, htrim, hv₁⟩ := trimL_at hv
  refine ⟨h₁, hv₁, ?_⟩
  have hvalue : strtoul 16 ((t.dropWhile isSpace).takeWhile isAlnum) =
      strtoul 16 (t.dropWhile isSpace) := strtoul_takeWhile (.inr rfl) _
  rw [parseAddress, Scan.bind_of_some htrim, parseUintTrim_eq (.inr rfl) hv₁,
    strtoul_append_lineEnd, hvalue]
  rfl

theorem parseAddress_of_some (hv : AtText mem h t) (ha : addressOf t = some address) :
    ∃ h', parseAddress h = (some address, h') ∧ AtText mem h' (behindAddress t) := by
  obtain ⟨h₁, hv₁, hparse⟩ := parseAddress_eq hv
  simp only [addressOf] at ha
  split_ifs at ha with hrun
  rw [← List.length_eq_zero_iff] at hrun
  refine ⟨_, hparse.trans ((if_neg hrun).trans (by rw [Option.some.inj ha])), ?_⟩
  rw [← List.takeWhile_append_dropWhile (p := isAlnum) (l := t.dropWhile isSpace)] at hv₁
  exact hv₁.advance

theorem parseAddress_of_none (hv : AtText mem h t) (ha : addressOf t = none) :
    ∃ h', parseAddress h = (none, h') := by
  obtain ⟨h₁, -, hparse⟩ := parseAddress_eq hv
  simp only [addressOf] at ha
  split_ifs at ha with hrun
  rw [← List.length_eq_zero_iff] at hrun
  exact ⟨h₁, hparse.trans (if_pos hrun)⟩

theorem skipSymsFlags_eq (hv : AtText mem h t) :
    ∃ h₁, AtText mem h₁ (t.dropWhile isSpace) ∧
      skipSymsFlags h = if h₁.curLength < 8 then (none, h₁) else moveForward 7 h₁ := by
  obtain ⟨h₁, htrim, hv₁⟩ := trimL_at hv
  exact ⟨h₁, hv₁, Scan.bind_of_some htrim⟩

theorem skipSymsFlags_of_le (hv : AtText mem h t) (hlen : 8 ≤ (t.dropWhile isSpace).length) :
    ∃ h', skipSymsFlags h = (some (), h') ∧ AtText mem h' ((t.dropWhile isSpace).drop 7) := by
  obtain ⟨h₁, hv₁, hflags⟩ := skipSymsFlags_eq hv
  have hne : t.dropWhile isSpace ≠ [] := List.ne_nil_of_length_pos (by omega)
  have hcur := hv₁.curLength_eq
  refine ⟨h₁.advance 7, ?_, ?_⟩
  · rw [hflags, if_neg (by omega), moveForward, hv₁.isEmpty_eq hne, if_neg]
    simp only [Bool.false_or, decide_eq_true_eq, not_lt]
    omega
  · have hseven : ((t.dropWhile isSpace).take 7).length = 7 := by
      rw [List.length_take]
      omega
    rw [← List.take_append_drop 7 (t.dropWhile isSpace)] at hv₁
    have hadvance := hv₁.advance
    rwa [hseven] at hadvance

theorem skipSymsFlags_of_lt (hv : AtText mem h t) (hlen : (t.dropWhile isSpace).length < 8) :
    ∃ h', skipSymsFlags h = (none, h') := by
  obtain ⟨h₁, hv₁, hflags⟩ := skipSymsFlags_eq hv
  exact ⟨h₁, hflags.trans (if_pos (by rwa [hv₁.curLength_eq]))⟩

theorem parseName_eq (hv : AtText mem h t) : (parseName h).1 = nameOf t := by
  obtain ⟨h₁, htrim, hv₁⟩ := trimL_at hv
  have hextract : extractAndSubstrUntil isAlnumDotBar h₁ =
      (some ((t.dropWhile isSpace).takeWhile isAlnumDotBar),
        h₁.advance ((t.dropWhile isSpace).takeWhile isAlnumDotBar).length) := by
    rw [extractAndSubstrUntil, hv₁.rest_eq]
  rw [parseName, Scan.bind_of_some htrim, Scan.bind_of_some hextract, nameOf]
  simp only [List.isEmpty_iff]
  split_ifs <;> rfl

/-- Where the flags are cut short, nothing is left for a name. -/
theorem thirdName_of_length_le (hlen : t.length ≤ 7) : thirdName (t.drop 7) = none := by
  rw [List.drop_of_length_le hlen]
  rfl

/-- What is read depends on the text of the line only. -/
theorem symbolOfLine_eq (hv : AtText mem h t) : (symbolOfLine h).1 = symbolOfText t := by
  obtain ⟨h₁, htrim, hv₁⟩ := trimL_at hv
  rw [symbolOfLine, Scan.bind_of_some htrim]
  have hagain : (t.dropWhile isSpace).dropWhile isSpace = t.dropWhile isSpace :=
    List.dropWhile_idempotent _ _
  have haddress : addressOf (t.dropWhile isSpace) = addressOf t := by rw [addressOf, hagain]; rfl
  have hbehind : behindAddress (t.dropWhile isSpace) = behindAddress t := by
    rw [behindAddress, hagain]
    rfl
  cases ha : addressOf t with
  | none =>
    obtain ⟨h₂, hparse⟩ := parseAddress_of_none hv₁ (haddress.trans ha)
    rw [Scan.bind_of_none hparse, symbolOfText, ha]
    rfl
  | some address =>
    obtain ⟨h₂, hparse, hv₂⟩ := parseAddress_of_some hv₁ (haddress.trans ha)
    rw [hbehind] at hv₂
    rw [Scan.bind_of_some hparse, symbolOfText, ha, Option.bind_some]
    rcases lt_or_ge ((behindAddress t).dropWhile isSpace).length 8 with hshort | hlong
    · obtain ⟨h₃, hflags⟩ := skipSymsFlags_of_lt hv₂ hshort
      rw [Scan.bind_of_none hflags, thirdName_of_length_le (Nat.le_of_lt_succ hshort)]
      rfl
    · obtain ⟨h₃, hflags, hv₃⟩ := skipSymsFlags_of_le hv₂ hlong
      obtain ⟨h₄, hsection, hv₄⟩ := skipSymsSection_at hv₃
      obtain ⟨h₅, halignment, hv₅⟩ := skipSymsSection_at hv₄
      rw [Scan.bind_of_some hflags, Scan.bind_of_some hsection,
        Scan.bind_of_some (show skipSymsAlignment h₄ = _ from halignment), Scan.bind_pure_fst,
        parseName_eq hv₅, thirdName]

end Reading

end Columbo.SymsFilter
