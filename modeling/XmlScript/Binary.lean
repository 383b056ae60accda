/-!
# Binary floating point numbers taken apart

A finite binary64 is a whole number of a power of two. `Binary.ofFloat` takes one apart, and
`Binary.remainder` computes the remainder of a division exactly, with the sign of the dividend.
-/

namespace XmlScript

/-- The number `significand * 2 ^ exponent`, with a sign that zero may carry too. -/
structure Binary where
  negative : Bool
  significand : Nat
  exponent : Int
  deriving DecidableEq, Repr

namespace Binary

/-- The significand of a normal number has this many bits after its leading one. -/
def fractionBits : Nat := 52

/-- The exponent of the smallest positive number. -/
def minExponent : Int := -1074

def ofFloat (x : Float) : Binary :=
  let bits := x.toBits.toNat
  let negative := decide (Nat.pow 2 63 ≤ bits)
  let biased := bits / Nat.pow 2 fractionBits % Nat.pow 2 11
  let fraction := bits % Nat.pow 2 fractionBits
  if biased = 0 then ⟨negative, fraction, minExponent⟩
  else ⟨negative, fraction + Nat.pow 2 fractionBits, minExponent + (biased - 1 : Nat)⟩

/-- The number of the given parts, where it is a binary64. -/
def toFloat (b : Binary) : Float :=
  let size := Float.scaleB (Float.ofNat b.significand) b.exponent
  if b.negative then -size else size

/-- Whether the next smaller number is only half as far away as the next larger one. -/
def isNarrowBelow (b : Binary) : Bool :=
  b.significand = Nat.pow 2 fractionBits ∧ minExponent < b.exponent

/-- The remainder of a division by a number other than zero. -/
def remainder (a b : Binary) : Binary :=
  let exponent := min a.exponent b.exponent
  let scaled (x : Binary) : Nat := x.significand * Nat.pow 2 (x.exponent - exponent).toNat
  ⟨a.negative, scaled a % scaled b, exponent⟩

end Binary

/-- The remainder of a division, with the sign of the dividend. There is none for a division by
zero or of an infinity, and a division by an infinity leaves the dividend. -/
def remainder (x y : Float) : Float :=
  if x.isNaN || y.isNaN || x.isInf || y == 0 then 0.0 / 0.0
  else if y.isInf then x
  else ((Binary.ofFloat x).remainder (Binary.ofFloat y)).toFloat

end XmlScript
