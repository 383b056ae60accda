import XmlScript.Literal
import XmlScript.Name
import XmlScript.Text.Blank

/-!
# Markup events

The text of a document is a sequence of tags, pieces of text, references, sections, comments,
instructions and, before the document element, an XML declaration and a document type. `events?`
cuts a text into these; it looks at each alone, so that tags match and everything stands where it
may is for the reader of trees to see. A text that cannot be cut is refused without a reason.
-/

namespace XmlScript.Markup

/-- A name as it is written: a namespace prefix, if there is one, and the local part. -/
structure WrittenName where
  alias? : Option String
  localPart : String
  deriving DecidableEq, Repr

/-- One part of the text of a document. -/
inductive Event where
  | declaration
  | doctype
  | chars (s : String)
  | reference (c : Char)
  | cdata (s : String)
  | comment (s : String)
  | instruction (target : String) (data? : Option String)
  /-- A start tag; `isEmpty` says that it is its own end tag. -/
  | startTag (name : WrittenName) (attributes : List (WrittenName × String)) (isEmpty : Bool)
  | endTag (name : WrittenName)
  deriving DecidableEq, Repr

/-! ## Small parts -/

/-- What follows `mark` at the front of a text. -/
def skip? (mark : List Char) (s : List Char) : Option (List Char) :=
  if mark.isPrefixOf s then some (s.drop mark.length) else none

/-- What follows the blanks at the front of a text. -/
def skipBlanks (s : List Char) : List Char := s.dropWhile Text.isMarkupBlank

/-- What follows the blanks at the front of a text, of which there must be one. -/
def skipSomeBlanks? : List Char → Option (List Char)
  | c :: rest => if Text.isMarkupBlank c then some (skipBlanks rest) else none
  | [] => none

/-- Reads a name that may have a prefix. -/
def writtenName? (s : List Char) : Option (WrittenName × List Char) :=
  (Name.take? Name.isPlainStart Name.isPlainPart s).map fun (first, rest) =>
    match rest with
    | ':' :: more =>
      match Name.take? Name.isPlainStart Name.isPlainPart more with
      | some (second, after) =>
        (⟨some (String.ofList first), String.ofList second⟩, after)
      | none => (⟨none, String.ofList first⟩, rest)
    | _ => (⟨none, String.ofList first⟩, rest)

/-- Reads an equals sign with blanks around it. -/
def skipEquals? (s : List Char) : Option (List Char) := (skip? ['='] (skipBlanks s)).map skipBlanks

/-- Reads a text between quotes of either kind. -/
def quoted? : List Char → Option (List Char × List Char)
  | '"' :: rest => Text.cutAt ['"'] rest
  | '\'' :: rest => Text.cutAt ['\''] rest
  | _ => none

/-! ## References -/

/-- The character that the text between an ampersand and its semicolon stands for: one of the
five names, or a decimal or hexadecimal number of a scalar value. -/
def referenced? (entity : List Char) : Option Char :=
  match Literal.named? entity, entity with
  | some c, _ => some c
  | none, '#' :: 'x' :: digits => (Text.readDigits 16 digits).bind Literal.scalar?
  | none, '#' :: digits => (Text.readDigits 10 digits).bind Literal.scalar?
  | none, _ => none

/-- The value that an attribute is written with. A text has no more references than characters,
so its length is enough of `bound`. -/
def expand? : (bound : Nat) → List Char → Option (List Char)
  | _, [] => some []
  | 0, _ :: _ => none
  | bound + 1, c :: rest =>
    if c = '<' then none
    else if c = '&' then
      (Text.cutAt [';'] rest).bind fun (entity, after) =>
      (referenced? entity).bind fun x => (expand? bound after).map (x :: ·)
    else (expand? bound rest).map (c :: ·)

/-! ## Tags -/

/-- Reads an attribute after the blanks before it. -/
def attribute? (s : List Char) : Option ((WrittenName × String) × List Char) :=
  (writtenName? s).bind fun (name, s₁) =>
  (skipEquals? s₁).bind fun s₂ =>
  (quoted? s₂).bind fun (raw, rest) =>
  (expand? raw.length raw).map fun value => ((name, String.ofList value), rest)

/-- Reads the attributes of a start tag and its end. Every attribute uses characters, so the
length of the text is enough of `bound`. -/
def tagRest? : (bound : Nat) → List Char →
    Option ((List (WrittenName × String) × Bool) × List Char)
  | 0, _ => none
  | bound + 1, s =>
    match skipBlanks s with
    | '>' :: rest => some (([], false), rest)
    | '/' :: '>' :: rest => some (([], true), rest)
    | t =>
      (skipSomeBlanks? s).bind fun _ =>
      (attribute? t).bind fun (a, after) =>
      (tagRest? bound after).map fun ((attributes, isEmpty), rest) =>
        ((a :: attributes, isEmpty), rest)

/-- Reads a start tag after its opening bracket. -/
def startTag? (s : List Char) : Option (Event × List Char) :=
  (writtenName? s).bind fun (name, rest) =>
  (tagRest? (rest.length + 1) rest).map fun ((attributes, isEmpty), after) =>
    (.startTag name attributes isEmpty, after)

/-- Reads an end tag after its slash. -/
def endTag? (s : List Char) : Option (Event × List Char) :=
  (writtenName? s).bind fun (name, rest) =>
  (skip? ['>'] (skipBlanks rest)).map fun after => (.endTag name, after)

/-! ## Comments, instructions, sections -/

/-- Reads a comment after its opening. Two hyphens inside must be its end. -/
def comment? (s : List Char) : Option (Event × List Char) :=
  (Text.cutAt ['-', '-'] s).bind fun (text, rest) =>
  (skip? ['>'] rest).map fun after => (.comment (String.ofList text), after)

/-- Reads a section of character data after its opening. -/
def cdata? (s : List Char) : Option (Event × List Char) :=
  (Text.cutAt "]]>".toList s).map fun (text, rest) => (.cdata (String.ofList text), rest)

/-- Whether a target is reserved: the letters x, m, l in either case. -/
def isReservedTarget (target : List Char) : Bool := target.map Char.toLower == "xml".toList

/-- Reads a processing instruction after its opening. -/
def instruction? (s : List Char) : Option (Event × List Char) :=
  (Name.take? Name.isStartChar Name.isChar s).bind fun (target, rest) =>
    if isReservedTarget target then none
    else
      match skip? "?>".toList rest, skipSomeBlanks? rest with
      | some after, _ => some (.instruction (String.ofList target) none, after)
      | none, some data =>
        (Text.cutAt "?>".toList data).map fun (value, after) =>
          (.instruction (String.ofList target) (some (String.ofList value)), after)
      | none, none => none

/-! ## The prolog -/

/-- Reads a blank, a key word, an equals sign and a quoted value that satisfies `p`. -/
def setting? (key : String) (p : List Char → Bool) (s : List Char) : Option (List Char) :=
  (skipSomeBlanks? s).bind fun s₁ =>
  (skip? key.toList s₁).bind fun s₂ =>
  (skipEquals? s₂).bind fun s₃ =>
  (quoted? s₃).bind fun (value, rest) => if p value then some rest else none

/-- A version is 1 point something. -/
def isVersion : List Char → Bool
  | '1' :: '.' :: digits => !digits.isEmpty && digits.all Char.isDigit
  | _ => false

/-- The name of an encoding. -/
def isEncoding : List Char → Bool
  | c :: rest => c.isAlpha && rest.all fun x => x.isAlphanum || x == '.' || x == '_' || x == '-'
  | [] => false

/-- Yes or no. -/
def isStandalone (s : List Char) : Bool := s == "yes".toList || s == "no".toList

def declaration? (s : List Char) : Option (List Char) :=
  (skip? "<?xml".toList s).bind fun s₁ =>
  (setting? "version" isVersion s₁).bind fun s₂ =>
  let s₃ := (setting? "encoding" isEncoding s₂).getD s₂
  let s₄ := (setting? "standalone" isStandalone s₃).getD s₃
  skip? "?>".toList (skipBlanks s₄)

/-- Whether a text can be the location of an external document type. -/
def isLocation (s : List Char) : Bool := !s.isEmpty && s.all fun c => c != '&' && c != '<'

/-- Reads the identifier of an external document type. -/
def externalId? (s : List Char) : Option (List Char) :=
  (skipSomeBlanks? s).bind fun s₁ =>
  (skip? "SYSTEM".toList s₁).bind fun s₂ =>
  (skipSomeBlanks? s₂).bind fun s₃ =>
  (quoted? s₃).bind fun (location, rest) => if isLocation location then some rest else none

/-- Reads a document type after its opening; what it says is passed over. -/
def doctype? (s : List Char) : Option (Event × List Char) :=
  (skipSomeBlanks? s).bind fun s₁ =>
  (Name.take? Name.isStartChar Name.isChar s₁).bind fun (_, s₂) =>
  let s₃ := skipBlanks ((externalId? s₂).getD s₂)
  let s₄ :=
    match s₃ with
    | '[' :: inner =>
      match Text.cutAt [']'] inner with
      | some (_, rest) => skipBlanks rest
      | none => s₃
    | _ => s₃
  (skip? ['>'] s₄).map fun rest => (.doctype, rest)

/-! ## Events -/

/-- Reads the event at the front of a text. -/
def event? (s : List Char) : Option (Event × List Char) :=
  match s with
  | [] => none
  | '<' :: '/' :: rest => endTag? rest
  | '<' :: '?' :: rest =>
    match declaration? s with
    | some after => some (.declaration, after)
    | none => instruction? rest
  | '<' :: '!' :: rest =>
    match skip? "--".toList rest, skip? "[CDATA[".toList rest, skip? "DOCTYPE".toList rest with
    | some inner, _, _ => comment? inner
    | none, some inner, _ => cdata? inner
    | none, none, some inner => doctype? inner
    | none, none, none => none
  | '<' :: rest => startTag? rest
  | '&' :: rest =>
    (Text.cutAt [';'] rest).bind fun (entity, after) =>
    (referenced? entity).map fun c => (.reference c, after)
  | _ =>
    let isText (c : Char) : Bool := c != '<' && c != '&'
    let text := s.takeWhile isText
    match Text.cutAt "]]>".toList text with
    | some _ => none
    | none => some (.chars (String.ofList text), s.dropWhile isText)

/-- Cuts a text into events. Every event uses characters, so the length of the text is enough of
`bound`. -/
def eventsFrom? : (bound : Nat) → List Char → Option (List Event)
  | _, [] => some []
  | 0, _ :: _ => none
  | bound + 1, c :: rest =>
    (event? (c :: rest)).bind fun (e, after) => (eventsFrom? bound after).map (e :: ·)

def events? (s : List Char) : Option (List Event) := eventsFrom? s.length s

end XmlScript.Markup
