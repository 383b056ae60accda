import XmlScript.Decimal.Shortest
import XmlScript.Name
import XmlScript.Query.Expr
import XmlScript.Text.Blank
import XmlScript.Text.Hidden

/-!
# Tokens of a query

`Query.scan` cuts a query into tokens. Abbreviations are written out on the way: `.`, `..`, `//`
and `@` become the steps that they stand for. Where nothing can be read any more the tokens end
with `Token.unclosed`, `Token.unnamed` or `Token.unreadable`. Operators that are words are read as
such only where an operator can stand, and then also when letters or digits follow them directly.
-/

namespace XmlScript.Query

inductive Token where
  | slash
  | leftParen
  | rightParen
  | leftBracket
  | rightBracket
  | comma
  | operator (op : Operator)
  | literal (text : String)
  | number (value : Decimal)
  | axis (a : Axis)
  | test (t : NodeTest)
  /-- A name that an opening parenthesis follows. -/
  | function (name : PrefixedName)
  | reference (name : PrefixedName)
  | unclosed
  | unnamed
  /-- Other text that no token starts. -/
  | unreadable
  deriving DecidableEq, Repr

namespace Token

/-- Whether a word after this token is a name rather than an operator. -/
def opensOperand : Token → Bool
  | slash | leftParen | leftBracket | operator _ | axis _ => true
  | _ => false

/-- Whether this stands for a text that no token starts. -/
def isFault : Token → Bool
  | unclosed | unnamed | unreadable => true
  | _ => false

/-! ## Tokens in messages -/

/-- A character inside a quoted text of a message. One that could not be seen is named by its
code point. -/
def showChar (c : Char) : List Char :=
  if c = '"' then ['\\', '"']
  else if c = '\\' then ['\\', '\\']
  else if c = '\n' then ['\\', 'n']
  else if c = '\r' then ['\\', 'r']
  else if c = '\t' then ['\\', 't']
  else if c = '\x00' then ['\\', '0']
  else if Text.within Text.hidden c.toNat then
    "\\u\x7b".toList ++ Nat.toDigits 16 c.toNat ++ ['\x7d']
  else [c]

def showText (s : String) : String := "\"" ++ String.ofList (s.toList.flatMap showChar) ++ "\""

def showOptional : Option String → String
  | none => "None"
  | some s => "Some(" ++ showText s ++ ")"

/-- A number as it is read, with at least one decimal place; in exponent notation from ten to the
16th on and below a ten-thousandth. -/
def showNumber (d : Decimal) : String :=
  let isInfinite := d.isInfinite
  let d := Decimal.ofFloat d.toFloat
  let text :=
    if isInfinite then "inf".toList
    else if d.digits = 0 ∨ (-3 ≤ d.magnitude ∧ d.magnitude ≤ 16) then
      let plain := d.positional
      if plain.contains '.' then plain else plain ++ ['.', '0']
    else
      let digits := Nat.toDigits 10 d.digits
      digits.take 1 ++ (if digits.length = 1 then [] else '.' :: digits.drop 1) ++
        'e' :: (toString (d.magnitude - 1)).toList
  String.ofList text

/-- A name in braces, after the word for what it names. -/
def showName (kind : String) (alias? : Option String) (localPart : String) : String :=
  kind ++ " \x7b prefix: " ++ showOptional alias? ++ ", local_part: " ++ showText localPart ++
    " \x7d"

def showPrefixed (name : PrefixedName) : String :=
  showName "OwnedPrefixedName" name.alias? name.localPart

def showOperator : Operator → String
  | .or => "Or"
  | .and => "And"
  | .equal => "Equal"
  | .notEqual => "NotEqual"
  | .less => "LessThan"
  | .lessEqual => "LessThanOrEqual"
  | .greater => "GreaterThan"
  | .greaterEqual => "GreaterThanOrEqual"
  | .add => "PlusSign"
  | .subtract => "MinusSign"
  | .multiply => "Multiply"
  | .divide => "Divide"
  | .remainder => "Remainder"
  | .union => "Pipe"

def showAxis : Axis → String
  | .ancestor => "Ancestor"
  | .ancestorOrSelf => "AncestorOrSelf"
  | .attributes => "Attribute"
  | .child => "Child"
  | .descendant => "Descendant"
  | .descendantOrSelf => "DescendantOrSelf"
  | .following => "Following"
  | .followingSibling => "FollowingSibling"
  | .bindings => "Namespace"
  | .parent => "Parent"
  | .preceding => "Preceding"
  | .precedingSibling => "PrecedingSibling"
  | .self => "SelfAxis"

def showTest : NodeTest → String
  | .anyName => "NameTest(" ++ showName "NameTest" none "*" ++ ")"
  | .anyNameIn short => "NameTest(" ++ showName "NameTest" (some short) "*" ++ ")"
  | .name n => "NameTest(" ++ showName "NameTest" n.alias? n.localPart ++ ")"
  | .comment => "NodeTest(Comment)"
  | .text => "NodeTest(Text)"
  | .instruction target? => "NodeTest(ProcessingInstruction(" ++ showOptional target? ++ "))"
  | .node => "NodeTest(Node)"

def describe : Token → String
  | slash => "Slash"
  | leftParen => "LeftParen"
  | rightParen => "RightParen"
  | leftBracket => "LeftBracket"
  | rightBracket => "RightBracket"
  | comma => "Comma"
  | operator op => showOperator op
  | literal text => "Literal(" ++ showText text ++ ")"
  | number value => "Number(" ++ showNumber value ++ ")"
  | axis a => "Axis(" ++ showAxis a ++ ")"
  | test t => showTest t
  | function name => "Function(" ++ showPrefixed name ++ ")"
  | reference name => "Variable(" ++ showPrefixed name ++ ")"
  | unclosed => "MismatchedQuoteCharacters"
  | unnamed => "ExpectedPrefixedName"
  | unreadable => "UnableToCreateToken"

end Token

/-! ## Reading one token -/

/-- Some tokens and the text after them. -/
abbrev Scanned := List Token × List Char

/-- Marks and what they stand for, in the order in which they are tried. -/
def marks : List (String × List Token) :=
  [("<=", [.operator .lessEqual]), (">=", [.operator .greaterEqual]),
    ("!=", [.operator .notEqual]),
    ("//", [.slash, .axis .descendantOrSelf, .test .node, .slash]),
    ("..", [.axis .parent, .test .node]),
    ("/", [.slash]), ("(", [.leftParen]), (")", [.rightParen]), ("[", [.leftBracket]),
    ("]", [.rightBracket]), ("@", [.axis .attributes]), ("+", [.operator .add]),
    ("-", [.operator .subtract]), ("|", [.operator .union]), ("=", [.operator .equal]),
    ("<", [.operator .less]), (">", [.operator .greater]), (",", [.comma])]

/-- The mark for the context node, which is tried after the numbers. -/
def selfMark : List (String × List Token) := [(".", [.axis .self, .test .node])]

/-- The operators that are words, and the multiplication sign, which could be a name test. -/
def wordOperators : List (String × List Token) :=
  [("and", [.operator .and]), ("or", [.operator .or]), ("mod", [.operator .remainder]),
    ("div", [.operator .divide]), ("*", [.operator .multiply])]

/-- The axes with the colons after them. -/
def axisMarks : List (String × List Token) :=
  Axis.all.map fun a => (a.text ++ "::", [.axis a])

/-- The tests for kinds of node. -/
def kindMarks : List (String × List Token) :=
  [("comment()", [.test .comment]), ("text()", [.test .text]), ("node()", [.test .node]),
    ("processing-instruction()", [.test (.instruction none)])]

/-- What follows `mark` in a text that starts with it. -/
def after? (mark : String) (s : List Char) : Option (List Char) :=
  if mark.toList.isPrefixOf s then some (s.drop mark.length) else none

/-- The first of some marks that a text starts with. -/
def readMark (table : List (String × List Token)) (s : List Char) : Option Scanned :=
  table.findSome? fun (mark, tokens) => (after? mark s).map fun rest => (tokens, rest)

/-- A text in quotes of either kind, and what follows it. -/
def readQuoted (s : List Char) : Option (String × List Char) :=
  match s with
  | c :: rest =>
    if c = '"' ∨ c = '\'' then
      match rest.dropWhile (· ≠ c) with
      | _ :: after => some (String.ofList (rest.takeWhile (· ≠ c)), after)
      | [] => none
    else none
  | [] => none

def readLiteral (s : List Char) : Option Scanned :=
  (readQuoted s).map fun (text, rest) => ([.literal text], rest)

/-- A number: digits, among or around them at most one point. -/
def readNumber (s : List Char) : Option Scanned :=
  let whole := s.takeWhile Char.isDigit
  let rest := s.dropWhile Char.isDigit
  let (text, rest) : List Char × List Char :=
    match rest with
    | '.' :: more => (whole ++ '.' :: more.takeWhile Char.isDigit, more.dropWhile Char.isDigit)
    | _ => (whole, rest)
  (Decimal.readUnsigned? false text).map fun value => ([.number value], rest)

/-- A name without colons. -/
def readPlainName (s : List Char) : Option (String × List Char) :=
  (Name.take? Name.isPlainStart Name.isPlainPart s).map fun (name, rest) =>
    (String.ofList name, rest)

/-- A name with or without a prefix. -/
def readName (s : List Char) : Option (PrefixedName × List Char) :=
  (readPlainName s).map fun (first, rest) =>
    match (after? ":" rest).bind readPlainName with
    | some (second, rest) => (⟨some first, second⟩, rest)
    | none => (⟨none, first⟩, rest)

/-- The test for instructions with a given target. -/
def readTargetTest (s : List Char) : Option Scanned := do
  let (target, rest) ← readQuoted (← after? "processing-instruction(" s)
  return ([.test (.instruction (some target))], ← after? ")" rest)

/-- A function name, which has an opening parenthesis right after it. -/
def readFunction (s : List Char) : Option Scanned :=
  (readName s).bind fun (name, rest) =>
    if rest.head? = some '(' then some ([.function name], rest) else none

def readNameTest (s : List Char) : Option Scanned :=
  match after? "*" s with
  | some rest => some ([.test .anyName], rest)
  | none =>
    match readPlainName s with
    | none => none
    | some (first, rest) =>
      match after? ":*" rest with
      | some rest => some ([.test (.anyNameIn first)], rest)
      | none => (readName s).map fun (name, rest) => ([.test (.name name)], rest)

/-- A reference to a variable. -/
def readReference (s : List Char) : Option Scanned :=
  ((after? "$" s).bind readName).map fun (name, rest) => ([.reference name], rest)

/-- The forms of token in the order in which they are tried after the token `previous?`. -/
def readers (previous? : Option Token) : List (List Char → Option Scanned) :=
  [readMark marks, readLiteral, readNumber, readMark selfMark] ++
    (match previous? with
      | none => []
      | some t => if t.opensOperand then [] else [readMark wordOperators]) ++
    [readMark axisMarks, readMark kindMarks, readTargetTest, readFunction, readNameTest,
      readReference]

/-- The tokens at the start of a text, without the blanks after them. -/
def readTokens (previous? : Option Token) (s : List Char) : Option Scanned :=
  ((readers previous?).findSome? fun read => read s).map fun (tokens, rest) =>
    (tokens, rest.dropWhile Text.isMarkupBlank)

/-! ## Reading all tokens -/

/-- What stands for a text that no token starts. -/
def faultAt (s : List Char) : Token :=
  match s with
  | '"' :: _ | '\'' :: _ => .unclosed
  | '$' :: _ => .unnamed
  | _ => .unreadable

/-- The tokens of a text that follows the token `previous?`. -/
def scanFrom (previous? : Option Token) (s : List Char) : List Token :=
  if s.isEmpty then []
  else
    match readTokens previous? (s.dropWhile Text.isMarkupBlank) with
    | none => [faultAt (s.dropWhile Text.isMarkupBlank)]
    | some (tokens, rest) =>
      if rest.length < s.length then tokens ++ scanFrom tokens.getLast? rest
      else [.unreadable]
termination_by s.length

def scan (s : String) : List Token := scanFrom none s.toList

end XmlScript.Query
