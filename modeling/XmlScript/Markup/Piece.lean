import XmlScript.Text.Blank
import XmlScript.Text.Cut

/-!
# Pieces of markup

A written document can be laid out again without knowing its trees: its text is cut into tags,
comments, instructions, sections and the text between them, and every piece is kept as it is
written. Only that end tags match start tags is looked at on the way; elements may stay open.
-/

namespace XmlScript.Markup

/-- One piece of a written document. -/
inductive Piece where
  | text (s : List Char)
  /-- A start tag, without its brackets. -/
  | startTag (s : List Char)
  /-- A tag that is its own end tag, without its brackets and slash. -/
  | emptyTag (s : List Char)
  | endTag (name : List Char)
  | comment (s : List Char)
  | cdata (s : List Char)
  /-- An instruction or a declaration, without its brackets and question marks. -/
  | instruction (s : List Char)
  | doctype (s : List Char)
  deriving DecidableEq, Repr

inductive PieceError where
  | unclosedTag
  | unclosedComment
  | unclosedCData
  | unclosedInstruction
  | unclosedDoctype
  /-- An exclamation mark that opens none of the known constructs. -/
  | unknownMarkup
  | unnamedDoctype
  | mismatchedEndTag (expected found : String)
  | unmatchedEndTag (found : String)
  deriving DecidableEq, Repr

def PieceError.message : PieceError → String
  | unclosedTag => "syntax error: tag not closed: `>` not found before end of input"
  | unclosedComment => "syntax error: comment not closed: `-->` not found before end of input"
  | unclosedCData => "syntax error: CDATA not closed: `]]>` not found before end of input"
  | unclosedInstruction =>
    "syntax error: processing instruction or xml declaration not closed: " ++
      "`?>` not found before end of input"
  | unclosedDoctype => "syntax error: DOCTYPE not closed: `>` not found before end of input"
  | unknownMarkup => "syntax error: unknown or missed symbol in markup"
  | unnamedDoctype =>
    "ill-formed document: `<!DOCTYPE>` declaration does not contain a name of a document type"
  | mismatchedEndTag expected found =>
    "ill-formed document: expected `</" ++ expected ++ ">`, but `</" ++ found ++ ">` was found"
  | unmatchedEndTag found =>
    "ill-formed document: close tag `</" ++ found ++ ">` does not match any open tag"

/-! ## Reading -/

/-- Cuts a tag at its closing bracket, the first one outside quotes. -/
def cutTag : (quote? : Option Char) → List Char → Option (List Char × List Char)
  | _, [] => none
  | none, c :: rest =>
    if c = '>' then some ([], rest)
    else
      let quote? := if c = '"' ∨ c = '\'' then some c else none
      (cutTag quote? rest).map fun (inside, after) => (c :: inside, after)
  | some q, c :: rest =>
    (cutTag (if c = q then none else some q) rest).map fun (inside, after) => (c :: inside, after)

/-- Cuts a document type at its closing bracket; `depth` brackets inside it are open. -/
def cutDoctype : (depth : Nat) → List Char → Option (List Char × List Char)
  | _, [] => none
  | depth, c :: rest =>
    let go (depth : Nat) := (cutDoctype depth rest).map fun (inside, after) => (c :: inside, after)
    if c = '<' then go (depth + 1)
    else if c = '>' then
      match depth with
      | 0 => some ([], rest)
      | outer + 1 => go outer
    else go depth

/-- Whether a text starts with some letters, ignoring ASCII case; `upper` is in upper case. -/
def startsWithLetters (upper : List Char) (s : List Char) : Bool :=
  upper.isPrefixOf (s.map Char.toUpper)

/-- Reads a construct that opens with an exclamation mark, after that mark. -/
def readBang (s : List Char) : Except PieceError (Piece × List Char) :=
  match s with
  | '-' :: rest =>
    match rest with
    | '-' :: body =>
      match Text.cutAt "-->".toList body with
      | some (text, after) => .ok (.comment text, after)
      | none => .error .unclosedComment
    | _ => .error .unclosedComment
  | '[' :: rest =>
    if "CDATA[".toList.isPrefixOf rest then
      match Text.cutAt "]]>".toList (rest.drop 6) with
      | some (text, after) => .ok (.cdata text, after)
      | none => .error .unclosedCData
    else .error .unclosedCData
  | c :: rest =>
    if c = 'D' ∨ c = 'd' then
      match cutDoctype 0 (c :: rest) with
      | some (inside, after) =>
        if startsWithLetters "DOCTYPE".toList inside then
          match (inside.drop 7).dropWhile Text.isMarkupBlank with
          | [] => .error .unnamedDoctype
          | text => .ok (.doctype text, after)
        else .error .unclosedDoctype
      | none => .error .unclosedDoctype
    else .error .unknownMarkup
  | [] => .error .unknownMarkup

/-- Reads the construct after an opening bracket. -/
def readMarkup (s : List Char) : Except PieceError (Piece × List Char) :=
  match s with
  | '!' :: rest => readBang rest
  | '?' :: '>' :: _ => .error .unclosedInstruction
  | '?' :: rest =>
    match Text.cutAt "?>".toList rest with
    | some (text, after) => .ok (.instruction text, after)
    | none => .error .unclosedInstruction
  | '/' :: rest =>
    match cutTag none rest with
    | some (inside, after) =>
      let name := Text.dropEndWhile Text.isMarkupBlank inside
      .ok (.endTag (if name.isEmpty then inside else name), after)
    | none => .error .unclosedTag
  | _ =>
    match cutTag none s with
    | some (inside, after) =>
      if inside.getLast? = some '/' then .ok (.emptyTag inside.dropLast, after)
      else .ok (.startTag inside, after)
    | none => .error .unclosedTag

/-- The name in a start tag. -/
def tagName (s : List Char) : List Char := s.takeWhile (!Text.isMarkupBlank ·)

/-- The names of the elements that are open after a piece; an end tag has to close the innermost
one. -/
def openAfter (openNames : List (List Char)) : Piece → Except PieceError (List (List Char))
  | .startTag s => .ok (tagName s :: openNames)
  | .endTag name =>
    match openNames with
    | [] => .error (.unmatchedEndTag (String.ofList name))
    | expected :: outer =>
      if name = expected then .ok outer
      else .error (.mismatchedEndTag (String.ofList expected) (String.ofList name))
  | _ => .ok openNames

/-- Cuts a text into pieces inside the open elements. Every piece uses characters, so the length
of the text is enough of `bound`. -/
def piecesFrom : (bound : Nat) → (openNames : List (List Char)) → List Char →
    Except PieceError (List Piece)
  | _, _, [] => .ok []
  | 0, _, _ :: _ => .ok []
  | bound + 1, openNames, c :: rest =>
    if c = '<' then
      (readMarkup rest).bind fun (piece, after) =>
      (openAfter openNames piece).bind fun openNames =>
      (piecesFrom bound openNames after).map (piece :: ·)
    else
      let text := (c :: rest).takeWhile (· ≠ '<')
      (piecesFrom bound openNames ((c :: rest).dropWhile (· ≠ '<'))).map (.text text :: ·)

def pieces (s : List Char) : Except PieceError (List Piece) := piecesFrom s.length [] s

end XmlScript.Markup
