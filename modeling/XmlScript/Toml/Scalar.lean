import XmlScript.Decimal
import XmlScript.Literal
import XmlScript.Toml.Value

/-!
# Single values of TOML

Texts in the four kinds of quotes, numbers, truth values, dates and times.
-/

namespace XmlScript.Toml

/-- What follows a part that has been read. -/
abbrev Read (α : Type) := Option (α × List Char)

/-- The blanks inside a line. -/
def isBlank (c : Char) : Bool := c == ' ' || c == '\t'

/-- The characters that can stand as themselves: no control character but the tab. -/
def isPrintable (c : Char) : Bool := c == '\t' || (0x20 ≤ c.toNat && c.toNat != 0x7F)

/-! ## Texts -/

/-- The character of a code point in hexadecimal. -/
def charOfHex? (digits : List Char) : Option Char :=
  (Text.readDigits 16 digits).bind Literal.scalar?

/-- The character of an escape sequence whose backslash has been read. -/
def readEscape : List Char → Read Char
  | 'b' :: rest => some ('\x08', rest)
  | 't' :: rest => some ('\t', rest)
  | 'n' :: rest => some ('\n', rest)
  | 'f' :: rest => some ('\x0c', rest)
  | 'r' :: rest => some ('\r', rest)
  | '"' :: rest => some ('"', rest)
  | '\\' :: rest => some ('\\', rest)
  | 'u' :: rest =>
    if rest.length < 4 then none else (charOfHex? (rest.take 4)).map fun c => (c, rest.drop 4)
  | 'U' :: rest =>
    if rest.length < 8 then none else (charOfHex? (rest.take 8)).map fun c => (c, rest.drop 8)
  | _ => none

/-- Passes over blanks and line ends. -/
def skipLines : List Char → List Char
  | '\r' :: '\n' :: rest => skipLines rest
  | c :: rest => if isBlank c || c == '\n' then skipLines rest else c :: rest
  | [] => []

/-- What follows a line end, if the text starts with one. -/
def afterLineEnd? : List Char → Option (List Char)
  | '\n' :: rest => some rest
  | '\r' :: '\n' :: rest => some rest
  | _ => none

/-- The rest of a text in double quotes. -/
def readBasic (read : List Char) (s : List Char) : Read String :=
  match s with
  | [] => none
  | '"' :: rest => some (String.ofList read.reverse, rest)
  | '\\' :: rest =>
    match readEscape rest with
    | none => none
    | some (c, after) => if after.length ≤ rest.length then readBasic (c :: read) after else none
  | c :: rest => if isPrintable c then readBasic (c :: read) rest else none
termination_by s.length

/-- The rest of a text in single quotes. -/
def readLiteralText (s : List Char) : Read String :=
  let body := s.takeWhile fun c => c != '\'' && isPrintable c
  match s.drop body.length with
  | '\'' :: rest => some (String.ofList body, rest)
  | _ => none

/-- What three quotes in a row close: up to two more of them belong to the text. -/
def closeTriple (quote : Char) (read : List Char) (rest : List Char) : String × List Char :=
  let extra := min 2 (rest.takeWhile (· == quote)).length
  (String.ofList (read.reverse ++ List.replicate extra quote), rest.drop extra)

/-- The rest of a text of several lines in triple quotes; with `escapes` a backslash is the start
of an escape sequence, or passes over a line end and the blanks around it. -/
def readTriple (quote : Char) (escapes : Bool) (read : List Char) (s : List Char) : Read String :=
  match s with
  | [] => none
  | c :: rest =>
    if [quote, quote, quote].isPrefixOf s then some (closeTriple quote read (s.drop 3))
    else if escapes && c == '\\' then
      match (afterLineEnd? (rest.dropWhile isBlank)).map skipLines with
      | some after =>
        if after.length ≤ rest.length then readTriple quote escapes read after else none
      | none =>
        match readEscape rest with
        | none => none
        | some (x, after) =>
          if after.length ≤ rest.length then readTriple quote escapes (x :: read) after else none
    else
      match afterLineEnd? s with
      | some after =>
        if after.length ≤ rest.length then readTriple quote escapes ('\n' :: read) after else none
      | none => if isPrintable c then readTriple quote escapes (c :: read) rest else none
termination_by s.length

/-- A text of one line in quotes of either kind. -/
def readQuoted : List Char → Read String
  | '"' :: rest => readBasic [] rest
  | '\'' :: rest => readLiteralText rest
  | _ => none

/-- A text in quotes of any kind. A line end right after triple quotes does not count. -/
def readText (s : List Char) : Read String :=
  let body (rest : List Char) : List Char := (afterLineEnd? rest).getD rest
  match s with
  | '"' :: '"' :: '"' :: rest => readTriple '"' true [] (body rest)
  | '\'' :: '\'' :: '\'' :: rest => readTriple '\'' false [] (body rest)
  | _ => readQuoted s

/-! ## Numbers -/

/-- Digits without the underscores between them. -/
def ungroup (isDigit : Char → Bool) (s : List Char) : Option (List Char) :=
  let groups := s.splitOnP (· == '_')
  if groups.all fun g => !g.isEmpty && g.all isDigit then some groups.flatten else none

/-- The digits of a number before the point: a zero stands alone. -/
def readWholeDigits (s : List Char) : Option (List Char) :=
  (ungroup Char.isDigit s).filter fun digits => digits.length = 1 ∨ digits.head? ≠ some '0'

/-- A sign and what follows it. -/
def splitSign : List Char → Bool × List Char
  | '-' :: rest => (true, rest)
  | '+' :: rest => (false, rest)
  | s => (false, s)

/-- The smallest and the largest whole number. -/
def minInteger : Int := -0x8000000000000000
@[inherit_doc minInteger] def maxInteger : Int := 0x7fffffffffffffff

/-- A whole number that is in range. -/
def integer? (n : Int) : Option Value :=
  if minInteger ≤ n ∧ n ≤ maxInteger then some (.integer n) else none

/-- A whole number in a base of its own. -/
def readBased (base : Nat) (s : List Char) : Option Value :=
  (ungroup (fun c => (Text.digitValue? base c).isSome) s).bind fun digits =>
    (Text.readDigits base digits).bind fun n => integer? n

def readInteger : List Char → Option Value
  | '0' :: 'x' :: s => readBased 16 s
  | '0' :: 'o' :: s => readBased 8 s
  | '0' :: 'b' :: s => readBased 2 s
  | s =>
    let (negative, digits) := splitSign s
    (readWholeDigits digits).bind fun digits =>
      let n : Int := Decimal.digitsValue digits
      integer? (if negative then -n else n)

/-- The exponent after its letter. -/
def readExponent (s : List Char) : Option Int :=
  let (negative, digits) := splitSign s
  (ungroup Char.isDigit digits).map fun digits =>
    let n : Int := Decimal.digitsValue digits
    if negative then -n else n

/-- Whether a character is the letter of an exponent. -/
def isExponentMark (c : Char) : Bool := c == 'e' || c == 'E'

/-- A number with a point or an exponent, which may not be too large. -/
def readFloat (s : List Char) : Option Value := do
  let (negative, size) := splitSign s
  match String.ofList size with
  | "inf" => return .float (if negative then -1.0 / 0.0 else 1.0 / 0.0)
  | "nan" => return .float (0.0 / 0.0)
  | _ =>
    if !size.any fun c => c == '.' || isExponentMark c then none
    let mantissa := size.takeWhile (!isExponentMark ·)
    let exponent ← match size.drop mantissa.length with
      | [] => some 0
      | _ :: rest => readExponent rest
    let whole ← readWholeDigits (mantissa.takeWhile (· != '.'))
    let fraction ← match mantissa.dropWhile (· != '.') with
      | [] => some []
      | _ :: rest => ungroup Char.isDigit rest
    let d := Decimal.ofParts negative whole fraction exponent
    if d.isInfinite && !negative then none else return .float d.toFloat

/-! ## Dates and times -/

/-- A number of a given count of digits within bounds. -/
def readField (digits low high : Nat) (s : List Char) : Read Nat :=
  let text := s.take digits
  if text.length = digits then
    (Text.readDigits 10 text).bind fun n =>
      if low ≤ n ∧ n ≤ high then some (n, s.drop digits) else none
  else none

def readMark (c : Char) : List Char → Option (List Char)
  | x :: rest => if x = c then some rest else none
  | [] => none

/-- The number of days of a month. -/
def daysIn (year month : Nat) : Nat :=
  if month = 2 then
    if year % 4 = 0 ∧ (year % 100 ≠ 0 ∨ year % 400 = 0) then 29 else 28
  else if [4, 6, 9, 11].contains month then 30
  else 31

def skipDate (s : List Char) : Option (List Char) := do
  let (year, s) ← readField 4 0 9999 s
  let (month, s) ← readField 2 1 12 (← readMark '-' s)
  let (_, s) ← readField 2 1 (daysIn year month) (← readMark '-' s)
  return s

/-- Passes over a time with an hour that is at most `lastHour`. -/
def skipTime (lastHour : Nat) (s : List Char) : Option (List Char) := do
  let (_, s) ← readField 2 0 lastHour s
  let (_, s) ← readField 2 0 59 (← readMark ':' s)
  let (_, s) ← readField 2 0 60 (← readMark ':' s)
  match s with
  | '.' :: rest =>
    if (rest.takeWhile Char.isDigit).isEmpty then none else return rest.dropWhile Char.isDigit
  | _ => return s

/-- Passes over the offset of a time, if there is one. -/
def skipOffset : List Char → Option (List Char)
  | [] => some []
  | 'Z' :: rest => some rest
  | 'z' :: rest => some rest
  | c :: rest => do
    if c = '+' ∨ c = '-' then
      let (_, rest) ← readField 2 0 23 rest
      let (_, rest) ← readField 2 0 59 (← readMark ':' rest)
      return rest
    else none

/-- Whether a text is a date, a time, or both with a letter between them and maybe an offset. -/
def isMoment (s : List Char) : Bool :=
  match skipDate s with
  | some [] => true
  | some (c :: rest) =>
    (c == 'T' || c == 't' || c == ' ') && ((skipTime 23 rest).bind skipOffset) == some []
  | none => skipTime 23 s == some []

/-! ## Values without quotes -/

/-- The characters of values without quotes. -/
def isWordChar (c : Char) : Bool :=
  c.isAlphanum || c == '+' || c == '-' || c == '.' || c == '_' || c == ':'

/-- A value without quotes, all of it. -/
def wordValue? (s : List Char) : Option Value :=
  match String.ofList s with
  | "true" => some (.boolean true)
  | "false" => some (.boolean false)
  | text =>
    if isMoment s then some (.moment text) else (readInteger s).or (readFloat s)

/-- A value without quotes. A blank may stand between a date and a time. -/
def readWord (s : List Char) : Read Value :=
  let word := s.takeWhile isWordChar
  let rest := s.dropWhile isWordChar
  let longer? : Read Value :=
    match rest with
    | ' ' :: more =>
      let both := word ++ ' ' :: more.takeWhile isWordChar
      if isMoment both then some (.moment (String.ofList both), more.dropWhile isWordChar)
      else none
    | _ => none
  longer?.or ((wordValue? word).map fun v => (v, rest))

end XmlScript.Toml
