import XmlScript.Toml.Moment

/-!
# Reading TOML

`Toml.read?` reads a TOML document into one table, or not at all: a key may be given one value
only, and a table one header.
-/

namespace XmlScript.Toml

/-! ## Keys -/

/-- The characters of keys without quotes. -/
def isKeyChar (c : Char) : Bool := c.isAlphanum || c == '_' || c == '-'

/-- One part of a key. -/
def readKeyPart (s : List Char) : Read String :=
  match s with
  | '"' :: _ => readQuoted s
  | '\'' :: _ => readQuoted s
  | _ =>
    let key := s.takeWhile isKeyChar
    if key.isEmpty then none else some (String.ofList key, s.dropWhile isKeyChar)

/-- The parts of a key, one or more, with the blanks after them. -/
def readKeyParts (s : List Char) : Read (List String) :=
  match readKeyPart s with
  | none => none
  | some (part, rest) =>
    match rest.dropWhile isBlank with
    | '.' :: more =>
      let more := more.dropWhile isBlank
      if more.length < s.length then
        (readKeyParts more).map fun (parts, rest) => (part :: parts, rest)
      else none
    | rest => some ([part], rest)
termination_by s.length

/-- How many parts a key may not have, and how deep values may not be nested. -/
def depthLimit : Nat := 80

/-- A key of one or more parts, with the blanks after it. -/
def readKey (s : List Char) : Read (List String) :=
  (readKeyParts s).filter fun (parts, _) => parts.length < depthLimit

/-! ## Values -/

/-- Passes over blanks, line ends and comments. -/
def skipFiller (inComment : Bool) : List Char → List Char
  | [] => []
  | '\r' :: '\n' :: rest => skipFiller false rest
  | c :: rest =>
    if c == '\n' then skipFiller false rest
    else if inComment then if isPrintable c then skipFiller true rest else c :: rest
    else if isBlank c then skipFiller false rest
    else if c == '#' then skipFiller true rest
    else c :: rest

mutual

/-- A value that holds lists and tables of at most the given depth. -/
def readValue (depth : Nat) (s : List Char) : Read Value :=
  match depth, s with
  | depth + 1, '[' :: rest => readItems depth [] rest
  | depth + 1, '{' :: rest =>
    match rest.dropWhile isBlank with
    | '}' :: rest => some (.table .inlined [], rest)
    | rest => readPairs depth (.table .inlined []) rest
  | _, '"' :: _ => (readText s).map fun (text, rest) => (.text text, rest)
  | _, '\'' :: _ => (readText s).map fun (text, rest) => (.text text, rest)
  | _, _ => readWord s
termination_by (depth, 0, s.length)

/-- The rest of a list after the items read so far. -/
def readItems (depth : Nat) (items : List Value) (s : List Char) : Read Value :=
  match skipFiller false s with
  | ']' :: rest => some (.list items, rest)
  | start =>
    match readValue depth start with
    | none => none
    | some (v, rest) =>
      match skipFiller false rest with
      | ']' :: rest => some (.list (items ++ [v]), rest)
      | ',' :: rest =>
        if rest.length < s.length then readItems depth (items ++ [v]) rest else none
      | _ => none
termination_by (depth, 1, s.length)

/-- The rest of a table in braces after the entries read so far. It stands on one line. -/
def readPairs (depth : Nat) (t : Value) (s : List Char) : Read Value :=
  match readKey s with
  | some (key, '=' :: rest) =>
    match readValue depth (rest.dropWhile isBlank) with
    | none => none
    | some (v, rest) =>
      match t.assign? key v, rest.dropWhile isBlank with
      | some t, '}' :: rest => some (t, rest)
      | some t, ',' :: rest =>
        let rest := rest.dropWhile isBlank
        if rest.length < s.length then readPairs depth t rest else none
      | _, _ => none
  | _ => none
termination_by (depth, 1, s.length)

end

/-! ## Documents -/

/-- What has been read of a document. -/
structure Progress where
  document : Value := .table .header []
  /-- The path of the table that entries are added to. -/
  current : List String := []

/-- Passes over the rest of a line, which may hold a comment. -/
def endLine? (s : List Char) : Option (List Char) :=
  let rest :=
    match s.dropWhile isBlank with
    | '#' :: comment => comment.dropWhile isPrintable
    | rest => rest
  if rest.isEmpty then some [] else afterLineEnd? rest

/-- Reads a header whose brackets have been passed. -/
def readHeader (openLast : String → Value → Option Value) (closing : List Char) (p : Progress)
    (s : List Char) : Read Progress :=
  (readKey (s.dropWhile isBlank)).bind fun (key, rest) =>
    key.getLast?.bind fun last =>
      if closing.isPrefixOf rest then
        (p.document.descend .implied (openLast last) key.dropLast).map fun document =>
          ({ document, current := key }, rest.drop closing.length)
      else none

def readEntry (p : Progress) (s : List Char) : Read Progress :=
  (readKey s).bind fun (key, rest) =>
    (readMark '=' rest).bind fun rest =>
      (readValue (depthLimit - 1) (rest.dropWhile isBlank)).bind fun (v, rest) =>
        (p.document.descend .implied (·.assign? key v) p.current).map fun document =>
          ({ p with document }, rest)

/-- Reads what stands on a line. -/
def readLine (p : Progress) (s : List Char) : Read Progress :=
  match s.dropWhile isBlank with
  | '[' :: '[' :: rest => readHeader Value.openItem? [']', ']'] p rest
  | '[' :: rest => readHeader Value.openTable? [']'] p rest
  | rest =>
    match rest with
    | [] => some (p, rest)
    | c :: _ =>
      if c == '\n' || c == '\r' || c == '#' then some (p, rest) else readEntry p rest

/-- Reads the lines of a document. -/
def readLines (p : Progress) (s : List Char) : Option Value :=
  if s.isEmpty then some p.document
  else
    match readLine p s with
    | none => none
    | some (p, rest) =>
      match endLine? rest with
      | none => none
      | some rest => if rest.length < s.length then readLines p rest else none
termination_by s.length

/-- The table that a document denotes. A byte order mark may stand before it. -/
def read? (s : String) : Option Value :=
  let lines := match s.toList with
    | '\ufeff' :: rest => rest
    | all => all
  ((readLines {} lines).bind Value.settle?).filter fun
    | .table _ _ => true
    | _ => false

end XmlScript.Toml
