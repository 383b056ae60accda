import XmlScript.Text.Numeral

/-!
# Decimal numbers

A decimal is a whole number of a power of ten. `Decimal.read?` reads one in positional or
exponent notation; `Decimal.toFloat` is the nearest binary64, and `Decimal.isInfinite` says
when that is infinite, in exact arithmetic.
-/

namespace XmlScript

/-- The number `digits * 10 ^ exponent`, with a sign that zero may carry too. -/
structure Decimal where
  negative : Bool
  digits : Nat
  exponent : Int
  deriving DecidableEq, Repr

namespace Decimal

/-- The value of a run of digits; zero for no digits. -/
def digitsValue (s : List Char) : Nat := (Text.readDigitsFrom 10 0 s).getD 0

/-- The decimal that is written with the given digits before and after the point and with the
given exponent. -/
def ofParts (negative : Bool) (whole fraction : List Char) (exponent : Int) : Decimal :=
  ⟨negative, digitsValue (whole ++ fraction), exponent - fraction.length⟩

/-- The exponent at the end of a number: its letter, an optional sign and at least one digit.
Nothing at all stands for zero. -/
def readExponent? : List Char → Option Int
  | [] => some 0
  | c :: rest =>
    if c = 'e' ∨ c = 'E' then
      match rest with
      | '-' :: digits => (Text.readDigits 10 digits).map fun n => -(n : Int)
      | digits => (Text.readUnsigned 10 digits).map fun n => (n : Int)
    else none

/-- Reads a number without sign: digits with at most one point among or around them, and an
exponent. -/
def readUnsigned? (negative : Bool) (s : List Char) : Option Decimal :=
  let whole := s.takeWhile Char.isDigit
  let (fraction, rest) : List Char × List Char :=
    match s.dropWhile Char.isDigit with
    | '.' :: r => (r.takeWhile Char.isDigit, r.dropWhile Char.isDigit)
    | r => ([], r)
  if whole.isEmpty ∧ fraction.isEmpty then none
  else (readExponent? rest).map (ofParts negative whole fraction)

def read? : List Char → Option Decimal
  | '-' :: rest => readUnsigned? true rest
  | '+' :: rest => readUnsigned? false rest
  | rest => readUnsigned? false rest

/-- How many digits stand before the point when a decimal other than zero is written out. -/
def magnitude (d : Decimal) : Int := (Nat.toDigits 10 d.digits).length + d.exponent

/-- The smallest number that is rounded to infinity in binary64. -/
def overflowBound : Nat := Nat.pow 2 1024 - Nat.pow 2 970

/-- Whether the nearest binary64 is infinite. -/
def isInfinite (d : Decimal) : Bool :=
  if d.digits = 0 ∨ d.magnitude < 300 then false
  else if 320 < d.magnitude then true
  else if 0 ≤ d.exponent then decide (overflowBound ≤ d.digits * Nat.pow 10 d.exponent.toNat)
  else decide (overflowBound * Nat.pow 10 (-d.exponent).toNat ≤ d.digits)

/-- The nearest binary64. -/
def toFloat (d : Decimal) : Float :=
  let size : Float :=
    if d.isInfinite then 1.0 / 0.0
    else if d.digits = 0 ∨ d.magnitude < -400 then 0.0
    else if 0 ≤ d.exponent then
      Float.ofScientific (d.digits * Nat.pow 10 d.exponent.toNat) false 0
    else Float.ofScientific d.digits true (-d.exponent).toNat
  if d.negative then -size else size

end Decimal

end XmlScript
