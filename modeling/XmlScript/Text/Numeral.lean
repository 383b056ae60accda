/-!
# Numerals

Unsigned whole numbers as they are written in character references, node counts and
settings: an optional single plus sign and at least one digit of the base, nothing else.
-/

namespace XmlScript.Text

/-- The value of a digit in a base of at most 16; letters count in either case. -/
def digitValue? (base : Nat) (c : Char) : Option Nat :=
  let n := c.toNat
  let value? : Option Nat :=
    if 0x30 ≤ n ∧ n ≤ 0x39 then some (n - 0x30)
    else if 0x41 ≤ n ∧ n ≤ 0x46 then some (n - 0x41 + 10)
    else if 0x61 ≤ n ∧ n ≤ 0x66 then some (n - 0x61 + 10)
    else none
  value?.filter (· < base)

/-- Reads the digits of a text onto the value read so far; fails on any other character. -/
def readDigitsFrom (base value : Nat) : List Char → Option Nat
  | [] => some value
  | c :: rest => (digitValue? base c).bind fun d => readDigitsFrom base (value * base + d) rest

/-- The value of a text of one or more digits. -/
def readDigits (base : Nat) (s : List Char) : Option Nat :=
  if s.isEmpty then none else readDigitsFrom base 0 s

/-- The value of digits that one plus sign may precede. -/
def readUnsigned (base : Nat) : List Char → Option Nat
  | '+' :: digits => readDigits base digits
  | digits => readDigits base digits

/-- Upper-case hexadecimal digits, at least two of them. -/
def hexPair (n : Nat) : List Char :=
  let digits := (Nat.toDigits 16 n).map Char.toUpper
  if digits.length < 2 then '0' :: digits else digits

end XmlScript.Text
