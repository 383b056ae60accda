import XmlScript.Script.Statement

/-!
# Reading scripts

`Script.parse` reads the text of a script or reports its first fault. Faults of lexing come
before faults of the grammar, and those before faults inside a statement. Every report names
the statement it is about by its trimmed source, the `fragment`.
-/

namespace XmlScript

/-- What is wrong with a script. -/
inductive SyntaxFault where
  | unterminatedLiteral
  /-- Characters that start no token. -/
  | unexpectedText (text : String)
  /-- A token that the grammar has no place for. -/
  | unexpectedToken (token : Token)
  /-- The script stops in the middle of a statement. -/
  | unexpectedEnd
  /-- A word in the place of a keyword that is none. -/
  | unknownCommand (word : String)
  /-- A literal that no argument can carry. -/
  | content (error : ContentError)
  /-- Arguments that do not suit their keyword. -/
  | arguments (error : ArgumentError)
  deriving DecidableEq, Repr

def SyntaxFault.message : SyntaxFault → String
  | unterminatedLiteral => "unterminated literal"
  | unexpectedText text => "unexpected character `" ++ text ++ "`"
  | unexpectedToken token => "unexpected " ++ token.describe
  | unexpectedEnd => "unexpected end of script"
  | unknownCommand word => "unknown command '" ++ word ++ "'"
  | content error => error.message
  | arguments error => error.message

/-- A fault and the trimmed source of the statement that it stands in. -/
structure SyntaxError where
  fragment : String
  fault : SyntaxFault
  deriving DecidableEq, Repr

def SyntaxError.message (e : SyntaxError) : String :=
  "syntax error in `" ++ e.fragment ++ "`: " ++ e.fault.message

namespace Script

/-! ## Fragments -/

/-- The trimmed source of neighbouring lexemes. -/
def fragment (xs : List Lexeme) : String :=
  String.ofList (Text.trim (xs.flatMap Lexeme.source))

/-- The lexemes after the last semicolon. -/
def openStatement (xs : List Lexeme) : List Lexeme :=
  (xs.reverse.takeWhile (!·.isSemicolon)).reverse

/-- The lexemes before the last semicolon; none where there is no semicolon. -/
def closedStatements? (xs : List Lexeme) : Option (List Lexeme) :=
  match xs.reverse.dropWhile (!·.isSemicolon) with
  | [] => none
  | _ :: earlier => some earlier.reverse

/-- How an empty statement after the lexemes `seen` is named: by the statement before it, and
by a semicolon when there is none. -/
def emptyFragment (seen : List Lexeme) : String :=
  match closedStatements? seen with
  | none => ";"
  | some earlier =>
    let previous := fragment (openStatement earlier)
    if previous = "" then ";" else previous

/-! ## The three kinds of fault -/

/-- The report of the first lexeme that is no token. Its fragment runs from the last semicolon
before it to the first semicolon character after it. -/
def lexicalError? (l : Lexing) : Option SyntaxError :=
  let seen := l.lexemes.takeWhile (·.token?.isSome)
  match l.lexemes.dropWhile (·.token?.isSome) with
  | [] => none
  | x :: later =>
    -- the semicolon is looked for as a character, since what follows a fault may be cut wrongly
    let before := (openStatement seen).flatMap Lexeme.source ++ x.gap
    let after := (x.text ++ later.flatMap Lexeme.source ++ l.tail).takeWhile (· ≠ ';')
    let fault :=
      match x.text with
      | '"' :: _ => .unterminatedLiteral
      | '\'' :: _ => .unterminatedLiteral
      | text => .unexpectedText (String.ofList text)
    some ⟨String.ofList (Text.trim (before ++ after)), fault⟩

/-- The report where the grammar cannot go on: `stuck` are the lexemes from the first that does
not fit. A statement that does not open with a keyword is reported as such, whatever the
grammar tripped over. -/
def structuralError (lexemes stuck : List Lexeme) : SyntaxError :=
  let seen := lexemes.take (lexemes.length - stuck.length)
  let inside := openStatement seen ++ stuck.takeWhile (!·.isSemicolon)
  let fragment :=
    let text := fragment inside
    if text = "" then emptyFragment seen else text
  let unexpected : SyntaxFault :=
    match stuck.head?.bind (·.token?) with
    | some token => .unexpectedToken token
    | none => .unexpectedEnd
  -- the word in the place of the keyword, behind any labels
  match (inside.find? (·.token? != some .ordinal)).bind (·.token?) with
  | some (.word w) =>
    ⟨fragment, if (Keyword.ofText? w).isNone then .unknownCommand w else unexpected⟩
  | _ => ⟨fragment, unexpected⟩

/-- The argument that a literal denotes. -/
def argument (literal : String) : Except ContentError Arg :=
  (Literal.decode literal.toList).bind fun raw => Arg.ofText (String.ofList raw)

/-- The directive that a statement denotes. Its keyword is looked at first, then the number of
its literals, then each literal in turn. -/
def interpret (s : Statement) : Except SyntaxError Directive :=
  let fail {α : Type} (fault : SyntaxFault) : Except SyntaxError α :=
    .error ⟨fragment s.lexemes, fault⟩
  match Keyword.ofText? s.keyword with
  | none => fail (.unknownCommand s.keyword)
  | some keyword =>
    if s.literals.length ≠ keyword.arity then
      fail (.arguments (.arity keyword s.literals.length))
    else
      match s.literals.mapM argument with
      | .error e => fail (.content e)
      | .ok arguments =>
        match Directive.ofArguments keyword arguments with
        | .error e => fail (.arguments e)
        | .ok directive => .ok directive

/-! ## Parsing -/

/-- The directives that the lexemes of a script denote. -/
def ofLexing (l : Lexing) : Except SyntaxError Script :=
  match lexicalError? l with
  | some e => .error e
  | none =>
    match Statement.readAll l.lexemes with
    | .error stuck => .error (structuralError l.lexemes stuck)
    | .ok statements => statements.mapM interpret

/-- Reads the text of a script. Ordinals, blanks and the choice of quotes leave no trace, and
a text of blanks only is the empty script. -/
def parse (source : String) : Except SyntaxError Script := ofLexing (scan source.toList)

end Script

end XmlScript
