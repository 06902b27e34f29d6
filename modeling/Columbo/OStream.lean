import Columbo.Bytes

/-!
# Output streams

An output stream with the part of its format state that the printers touch:
number base, fill character and field width. Base and fill character are
sticky; the width holds for one formatted output only.
-/
namespace Columbo

/-- The `basefield` flags in use. -/
inductive BaseField
  | dec
  | hex
  deriving DecidableEq, Repr

def BaseField.toNat : BaseField → ℕ
  | .dec => 10
  | .hex => 16

structure OStream where
  text : Bytes
  basefield : BaseField
  fill : UInt8
  width : ℕ
  deriving DecidableEq

/-- `std::to_string` of an `int`. -/
def toStringInt (i : Int32) : Bytes :=
  if i < 0 then byte '-' :: toString10 i.toInt.natAbs else toString10 i.toNatClampNeg

/-- `BoolToString`. -/
def boolToString (x : Bool) : Bytes := if x then bytes "true" else bytes "false"

namespace OStream

/-- A stream that nothing has been written to. -/
def fresh : OStream := ⟨[], .dec, byte ' ', 0⟩

def hex (out : OStream) : OStream := { out with basefield := .hex }

def dec (out : OStream) : OStream := { out with basefield := .dec }

def setfill (out : OStream) (c : UInt8) : OStream := { out with fill := c }

def setw (out : OStream) (n : ℕ) : OStream := { out with width := n }

/-- Formatted output of a text, padded on the left to the field width. -/
def put (out : OStream) (s : Bytes) : OStream :=
  { out with text := out.text ++ List.replicate (out.width - s.length) out.fill ++ s, width := 0 }

def str (out : OStream) (s : String) : OStream := out.put (bytes s)

def uint (out : OStream) (n : ℕ) : OStream := out.put (numText out.basefield.toNat n)

/-- An `int` is written with its sign in base ten and as the unsigned number
with the same bits in base sixteen. -/
def int (out : OStream) (i : Int32) : OStream :=
  match out.basefield with
  | .dec => out.put (toStringInt i)
  | .hex => out.put (numText 16 i.toUInt32.toNat)

end OStream

/-- A printer that appends `text` to any stream in base `before` that has no
pending field width and blank fill, and that leaves it so in base `after`. -/
def Prints (p : OStream → OStream) (before : BaseField) (text : Bytes) (after : BaseField) : Prop :=
  ∀ u : Bytes, p ⟨u, before, byte ' ', 0⟩ = ⟨u ++ text, after, byte ' ', 0⟩

namespace Prints

variable {p q : OStream → OStream} {a b c : BaseField} {s t : Bytes}

theorem put (s : Bytes) : Prints (fun out => out.put s) a s a := by
  intro u
  simp [OStream.put]

theorem str (s : String) : Prints (fun out => out.str s) a (bytes s) a := put (bytes s)

theorem uint (n : ℕ) : Prints (fun out => out.uint n) a (numText a.toNat n) a :=
  put (numText a.toNat n)

/-- A non-negative `int` is written as an unsigned number in either base. -/
theorem int {i : Int32} (hi : 0 ≤ i) :
    Prints (fun out => out.int i) a (numText a.toNat i.toNatClampNeg) a := by
  cases a with
  | dec =>
    have htext : toStringInt i = numText 10 i.toNatClampNeg := by
      rw [toStringInt, if_neg (by simpa using hi), toString10]
    intro u
    simp only [OStream.int, htext]
    exact put _ u
  | hex =>
    intro u
    simp only [OStream.int, Int32.toNat_toUInt32_of_le hi]
    exact put _ u

theorem hex : Prints OStream.hex a [] .hex := by
  intro u
  simp [OStream.hex]

/-- Two printers in sequence. -/
theorem comp (hp : Prints p a s b) (hq : Prints q b t c) :
    Prints (fun out => q (p out)) a (s ++ t) c := by
  intro u
  simp only [hp u]
  rw [hq (u ++ s), List.append_assoc]

theorem text_fresh (hp : Prints p .dec s b) : (p .fresh).text = s := by
  rw [OStream.fresh, hp []]
  rfl

end Prints

end Columbo
