import XmlScript.Decimal

/-!
# Texts in YAML

How a text stands as a scalar in a YAML block. A text is written plainly if it reads back as
that text; otherwise in single quotes, and in double quotes with escapes where a character does
not stand for itself. A text with line feeds is a literal block unless a block cannot hold it.
-/

namespace XmlScript.Yaml

/-! ## Characters -/

/-- The characters that end a line. -/
def isBreak (c : Char) : Bool :=
  c == '\n' || c == '\r' || c == '\x85' || c == '\u2028' || c == '\u2029'

/-- The characters that may stand for themselves. -/
def isPrintable (c : Char) : Bool :=
  let n := c.toNat
  n == 0x0A || (0x20 ≤ n && n ≤ 0x7E) ||
    (0xA0 ≤ n && n != 0xFEFF && n != 0xFFFE && n != 0xFFFF)

/-- Blanks and line ends; the end of a text counts as one of them. -/
def isBlankOrEnd : Option Char → Bool
  | none => true
  | some c => c == ' ' || c == '\t' || isBreak c

/-! ## Texts that would read as something else -/

/-- A sign, a zero and more digits: no number, but quoted all the same. -/
def isPaddedNumeral (s : List Char) : Bool :=
  let digits :=
    match s with
    | '-' :: rest => rest
    | '+' :: rest => rest
    | rest => rest
  match digits with
  | '0' :: rest => !rest.isEmpty && rest.all Char.isDigit
  | _ => false

/-- The digits after the mark of a base, and the base. -/
def baseDigits? : List Char → Option (Nat × List Char)
  | '0' :: 'x' :: rest => some (16, rest)
  | '0' :: 'o' :: rest => some (8, rest)
  | '0' :: 'b' :: rest => some (2, rest)
  | _ => none

/-- Whether a text reads as a whole number with the mark of a base, of at most 128 bits. -/
def isBasedNumeral (s : List Char) : Bool :=
  let fits (bound : Nat) (r : List Char) : Bool :=
    match baseDigits? r with
    | some (base, digits) =>
      match Text.readDigits base digits with
      | some n => decide (n < bound)
      | none => false
    | none => false
  match s with
  | '-' :: rest => fits (Nat.pow 2 127 + 1) rest
  | '+' :: rest => fits (Nat.pow 2 128) rest
  | rest => fits (Nat.pow 2 128) rest

/-- Whether a text reads as a decimal number that is not infinite. -/
def isDecimalNumeral (s : List Char) : Bool :=
  match Decimal.read? s with
  | some d => !d.isInfinite
  | none => false

/-- The spellings of null, of the truth values and of the numbers that are not finite. -/
def reservedWords : List String :=
  ["", "~", "null", "Null", "NULL", "true", "True", "TRUE", "false", "False", "FALSE",
    ".inf", ".Inf", ".INF", "+.inf", "+.Inf", "+.INF", "-.inf", "-.Inf", "-.INF",
    ".nan", ".NaN", ".NAN"]

/-- Whether a plain text would read as a value other than a text. -/
def isReserved (s : List Char) : Bool :=
  reservedWords.contains (String.ofList s) || isPaddedNumeral s || isBasedNumeral s ||
    isDecimalNumeral s

/-! ## What a style can hold -/

/-- Whether two neighbouring characters satisfy `p` and `q`. -/
def hasNeighbours (p q : Char → Bool) : List Char → Bool
  | a :: b :: rest => (p a && q b) || hasNeighbours p q (b :: rest)
  | _ => false

/-- Whether a text has a character that stands for itself in no style but double quotes, or a
blank before a line end. -/
def needsEscapes (s : List Char) : Bool :=
  s.any (!isPrintable ·) || hasNeighbours (· == ' ') isBreak s

/-- Whether a colon before a blank or a number sign after one stands inside a text; `previous`
is the character before it. -/
def hasInnerIndicator : (previous : Char) → List Char → Bool
  | _, [] => false
  | previous, c :: rest =>
    (c == ':' && isBlankOrEnd rest.head?) || (c == '#' && isBlankOrEnd (some previous)) ||
      hasInnerIndicator c rest

/-- Whether a text would be taken for markup where it starts or further on. -/
def hasIndicator : List Char → Bool
  | [] => false
  | c :: rest =>
    "---".toList.isPrefixOf (c :: rest) || "...".toList.isPrefixOf (c :: rest) ||
      "#,[]\x7b\x7d&*!|>'\"%@\x60".toList.contains c ||
      ("?:-".toList.contains c && isBlankOrEnd rest.head?) || hasInnerIndicator c rest

/-- Whether a text keeps its meaning without quotes. -/
def canBePlain (s : List Char) : Bool :=
  !needsEscapes s && !hasIndicator s && !s.any isBreak &&
    s.head? != some ' ' && s.getLast? != some ' '

def canBeSingleQuoted (s : List Char) : Bool :=
  !needsEscapes s && !hasNeighbours isBreak (· == ' ') s

def canBeBlock (s : List Char) : Bool :=
  !needsEscapes s && s.getLast? != some ' '

/-! ## Writing -/

/-- Writes characters, indenting after each line end. -/
def writeLines (indent : Nat) (write : Char → List Char) :
    (atLineStart : Bool) → List Char → List Char
  | _, [] => []
  | atLineStart, c :: rest =>
    if isBreak c then c :: writeLines indent write true rest
    else (if atLineStart then List.replicate indent ' ' else []) ++ write c ++
      writeLines indent write false rest

/-- A text in single quotes, where a quote is written twice. -/
def singleQuoted (indent : Nat) (s : List Char) : List Char :=
  let close := match s.getLast? with
    | some c => if isBreak c then List.replicate indent ' ' else []
    | none => []
  '\'' :: (writeLines indent (fun c => if c = '\'' then ['\'', '\''] else [c]) false s ++
    close ++ ['\''])

/-- A number in hexadecimal with at least `width` digits. -/
def hexPadded (width n : Nat) : List Char :=
  let digits := (Nat.toDigits 16 n).map Char.toUpper
  List.replicate (width - digits.length) '0' ++ digits

def escapeChar (c : Char) : List Char :=
  let n := c.toNat
  if isPrintable c && !isBreak c && c != '"' && c != '\\' then [c]
  else if n = 0x00 then ['\\', '0']
  else if n = 0x07 then ['\\', 'a']
  else if n = 0x08 then ['\\', 'b']
  else if n = 0x09 then ['\\', 't']
  else if n = 0x0A then ['\\', 'n']
  else if n = 0x0B then ['\\', 'v']
  else if n = 0x0C then ['\\', 'f']
  else if n = 0x0D then ['\\', 'r']
  else if n = 0x1B then ['\\', 'e']
  else if c = '"' ∨ c = '\\' then ['\\', c]
  else if n = 0x85 then ['\\', 'N']
  else if n = 0x2028 then ['\\', 'L']
  else if n = 0x2029 then ['\\', 'P']
  else if n ≤ 0xFF then '\\' :: 'x' :: hexPadded 2 n
  else if n ≤ 0xFFFF then '\\' :: 'u' :: hexPadded 4 n
  else '\\' :: 'U' :: hexPadded 8 n

def doubleQuoted (s : List Char) : List Char := '"' :: (s.flatMap escapeChar ++ ['"'])

/-- What follows the bar of a literal block: the indentation, where the text itself starts with
a blank or a line end, and how the line ends at its end are to be read. -/
def blockHints (s : List Char) : List Char :=
  let indentation := match s with
    | c :: _ => if c = ' ' ∨ isBreak c then ['2'] else []
    | [] => []
  let chomping := match s.reverse with
    | [] => ['-']
    | [c] => if isBreak c then ['+'] else ['-']
    | c :: d :: _ => if !isBreak c then ['-'] else if isBreak d then ['+'] else []
  indentation ++ chomping

/-- A text as a literal block. -/
def block (indent : Nat) (s : List Char) : List Char :=
  '|' :: (blockHints s ++ '\n' :: writeLines indent (fun c => [c]) true s)

/-- A text as a scalar whose further lines are indented by `indent` blanks. -/
def scalar (indent : Nat) (s : List Char) : List Char :=
  if s.contains '\n' then if canBeBlock s then block indent s else doubleQuoted s
  else if !isReserved s && canBePlain s then s
  else if canBeSingleQuoted s then singleQuoted indent s
  else doubleQuoted s

/-- Ends the line of a scalar, which a block does by itself when its text ends a line. -/
def endLine (s : List Char) : List Char :=
  match s.getLast? with
  | some c => if isBreak c then s else s ++ ['\n']
  | none => ['\n']

end XmlScript.Yaml
