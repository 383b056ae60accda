import XmlScript.Binary
import XmlScript.Decimal

/-!
# The shortest digits of a binary64

A finite binary64 is written with the fewest digits that read back as the same number, and of
those with the ones nearest to it. `Decimal.ofFloat` finds them in exact arithmetic: it looks at
one grid of decimals after the other, from the coarsest on, and on each at the two neighbours of
the number. `Decimal.positional` writes a decimal out without an exponent.
-/

namespace XmlScript.Decimal

/-- A positive number and the bounds of what is rounded to it, as fractions of one
denominator. -/
structure Rounding where
  value : Nat
  lower : Nat
  upper : Nat
  denominator : Nat
  /-- Whether the bounds themselves are rounded to the number. -/
  closed : Bool

namespace Rounding

/-- What is rounded to a binary64. -/
def ofBinary (b : Binary) : Rounding :=
  let value := 4 * b.significand
  let scale : Nat := Nat.pow 2 (b.exponent - 2).toNat
  { value := value * scale
    lower := (value - if b.isNarrowBelow then 1 else 2) * scale
    upper := (value + 2) * scale
    denominator := Nat.pow 2 (2 - b.exponent).toNat
    closed := b.significand % 2 = 0 }

/-- The same in units of `10 ^ k`. -/
def inUnits (r : Rounding) (k : Int) : Rounding :=
  let up : Nat := Nat.pow 10 (-k).toNat
  { value := r.value * up
    lower := r.lower * up
    upper := r.upper * up
    denominator := r.denominator * Nat.pow 10 k.toNat
    closed := r.closed }

/-- Whether a whole number is rounded to the number. -/
def admits (r : Rounding) (n : Nat) : Bool :=
  let m := n * r.denominator
  if r.closed then r.lower ≤ m && m ≤ r.upper else r.lower < m && m < r.upper

/-- The whole number that is rounded to the number, the nearer one if both neighbours are. -/
def whole? (r : Rounding) : Option Nat :=
  let below := r.value / r.denominator
  match r.admits below, r.admits (below + 1) with
  | true, true =>
    some (if 2 * (r.value % r.denominator) ≤ r.denominator then below else below + 1)
  | true, false => some below
  | false, true => some (below + 1)
  | false, false => none

/-- A power of ten that is not below the number. -/
def ceiling (r : Rounding) : Int :=
  if r.denominator ≤ r.value then (Nat.toDigits 10 (r.value / r.denominator)).length
  else 1 - ((Nat.toDigits 10 (r.denominator / r.value)).length : Int)

/-- The first grid from `10 ^ k` on that has a decimal which is rounded to the number. Seventeen
digits are always enough. -/
def search (r : Rounding) : (grids : Nat) → (k : Int) → Nat × Int
  | 0, k => (0, k)
  | grids + 1, k =>
    match (r.inUnits k).whole? with
    | some n => (n, k)
    | none => search r grids (k - 1)

end Rounding

/-- The shortest decimal that reads back as a finite number. -/
def ofFloat (x : Float) : Decimal :=
  let b := Binary.ofFloat x
  if b.significand = 0 then ⟨b.negative, 0, 0⟩
  else
    let r := Rounding.ofBinary b
    let (digits, exponent) := r.search 20 r.ceiling
    ⟨b.negative, digits, exponent⟩

/-- A decimal without an exponent: no point when it is whole, and a zero before a point. -/
def positional (d : Decimal) : List Char :=
  let digits := Nat.toDigits 10 d.digits
  let places := (-d.exponent).toNat
  let size :=
    if d.digits = 0 then ['0']
    else if places = 0 then digits ++ List.replicate d.exponent.toNat '0'
    else
      let padded := List.replicate (places + 1 - digits.length) '0' ++ digits
      padded.take (padded.length - places) ++ '.' :: padded.drop (padded.length - places)
  if d.negative then '-' :: size else size

end XmlScript.Decimal
