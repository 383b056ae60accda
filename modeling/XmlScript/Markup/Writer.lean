import XmlScript.Tree

/-!
# Writing trees

`Markup.write?` is the text of a document on one line. Every element declares the namespace
prefixes that it and its attributes need and that no element around has declared: first those
that names were read with, then invented ones (`autons0`, `autons1`, …). Declarations of prefixes
that nothing uses are not written. No prefix is invented for a namespace that is the default, so
there is no text of a document with an attribute in such a namespace that has lost its prefix.
-/

namespace XmlScript.Markup

/-! ## Escapes -/

/-- A character of text. -/
def escapeText (c : Char) : List Char :=
  if c = '<' then "&lt;".toList
  else if c = '>' then "&gt;".toList
  else if c = '&' then "&amp;".toList
  else [c]

/-- A character of an attribute value. -/
def escapeValue (c : Char) : List Char :=
  if c = '\'' then "&apos;".toList
  else if c = '"' then "&quot;".toList
  else escapeText c

/-! ## Prefixes in scope -/

/-- The prefixes that an element uses. -/
structure Scope where
  /-- The default namespace that the element declares. -/
  defaultSpace? : Option String := none
  /-- Prefixes and their namespaces, the one taken last first. -/
  taken : List (String × String) := []
  /-- Those of them that the element has to declare, in their order. -/
  declared : List (String × String) := []
  deriving DecidableEq, Repr

namespace Scope

def spaceOf? (s : Scope) (short : String) : Option String := s.taken.lookup short

/-- The prefix of a namespace, the one taken last if there are several. -/
def aliasOf? (s : Scope) (uri : String) : Option String :=
  (s.taken.find? (·.2 = uri)).map (·.1)

def take (s : Scope) (short uri : String) : Scope :=
  { s with taken := (short, uri) :: s.taken }

def declare (s : Scope) (short uri : String) : Scope :=
  { s.take short uri with declared := s.declared ++ [(short, uri)] }

/-- Takes the prefix that a name was read with, unless the element uses it already. It is
declared unless an element around has it for the same namespace. -/
def useHint (around : List Scope) (s : Scope) (short uri : String) : Scope :=
  if (s.spaceOf? short).isSome then s
  else if around.any (·.spaceOf? short = some uri) then s.take short uri
  else s.declare short uri

/-- The default namespace at an element. -/
def activeDefault? (scopes : List Scope) : Option String := scopes.findSome? (·.defaultSpace?)

/-- The first invented prefix from number `count` on that the element does not use, and the number
after it. An element uses fewer prefixes than `bound`. -/
def invent (s : Scope) : (bound : Nat) → (count : Nat) → String × Nat
  | 0, count => ("autons" ++ toString count, count + 1)
  | bound + 1, count =>
    let short := "autons" ++ toString count
    if (s.spaceOf? short).isSome then invent s bound (count + 1) else (short, count + 1)

/-- Makes sure that a namespace can be named: by the default, by a prefix of the element, by one
of an element around, or by an invented one. `count` is the number of the next invention. -/
def useSpace (around : List Scope) (s : Scope) (count : Nat) (uri : String) : Scope × Nat :=
  if activeDefault? (s :: around) = some uri ∨ (s.aliasOf? uri).isSome then (s, count)
  else
    match around.findSome? (·.aliasOf? uri) with
    | some short => (s.take short uri, count)
    | none =>
      let (short, next) := s.invent s.taken.length count
      (s.declare short uri, next)

/-- The prefixes that an element uses, and the number of the next invention. -/
def ofElement (around : List Scope) (count : Nat) (label : Label) (attributes : List Attribute) :
    Scope × Nat :=
  let names : List (ExpandedName × Option String) :=
    (label.name, label.hint?) :: attributes.map fun a => (a.name, a.hint?)
  -- all hints are served before a prefix is looked for or invented
  let hinted := names.foldl (fun s (name, hint?) =>
    match hint?, name.space? with
    | some short, some uri => s.useHint around short uri
    | _, _ => s) { defaultSpace? := label.defaultSpace? }
  names.foldl (fun (s, count) (name, _) =>
    match name.space? with
    | some uri => s.useSpace around count uri
    | none => (s, count)) (hinted, count)

end Scope

/-- The prefix that a namespace is written with: the hint, if it means that namespace here, or
else the nearest one. -/
def aliasFor? (scopes : List Scope) (hint? : Option String) (uri : String) : Option String :=
  let hinted? := hint?.filter fun short =>
    scopes.findSome? (fun s : Scope => s.spaceOf? short) = some uri
  hinted?.or (scopes.findSome? fun s => s.aliasOf? uri)

/-- A name with its prefix. There is none to write for a namespace that has to have a prefix and
is the default only. -/
def writeName? (scopes : List Scope) (useDefault : Bool) (name : ExpandedName)
    (hint? : Option String) : Option (List Char) :=
  match name.space? with
  | none => some name.localPart.toList
  | some uri =>
    if useDefault ∧ Scope.activeDefault? scopes = some uri then some name.localPart.toList
    else (aliasFor? scopes hint? uri).map fun short =>
      short.toList ++ ':' :: name.localPart.toList

/-! ## Trees -/

/-- An attribute with the blank before it. -/
def writeAttribute? (scopes : List Scope) (a : Attribute) : Option (List Char) :=
  (writeName? scopes false a.name a.hint?).map fun name =>
    ' ' :: (name ++ "=\"".toList ++ a.value.toList.flatMap escapeValue ++ ['"'])

/-- The namespace declarations of an element. -/
def writeDeclarations (s : Scope) : List Char :=
  let default := match s.defaultSpace? with
    | some uri => " xmlns='".toList ++ uri.toList ++ ['\'']
    | none => []
  default ++ s.declared.flatMap fun (short, uri) =>
    " xmlns:".toList ++ short.toList ++ "='".toList ++ uri.toList ++ ['\'']

def writeComment (s : String) : List Char := "<!--".toList ++ s.toList ++ "-->".toList

def writeInstruction (target : String) (data? : Option String) : List Char :=
  let data := match data? with
    | some data => ' ' :: data.toList
    | none => []
  "<?".toList ++ target.toList ++ data ++ "?>".toList

/-- Neighbouring trees inside the elements of `around`, and the number of the next invented
prefix. -/
def writeTrees? (around : List Scope) (count : Nat) : List Tree → Option (List Char × Nat)
  | [] => some ([], count)
  | .text s _ :: rest =>
    (writeTrees? around count rest).map fun (after, next) =>
      (s.toList.flatMap escapeText ++ after, next)
  | .comment s :: rest =>
    (writeTrees? around count rest).map fun (after, next) => (writeComment s ++ after, next)
  | .instruction target data? :: rest =>
    (writeTrees? around count rest).map fun (after, next) =>
      (writeInstruction target data? ++ after, next)
  | .element label attributes children :: rest =>
    let (scope, count₁) := Scope.ofElement around count label attributes
    let scopes := scope :: around
    (writeName? scopes true label.name label.hint?).bind fun name =>
    (attributes.mapM (writeAttribute? scopes)).bind fun written =>
    (writeTrees? scopes count₁ children).bind fun (inside, count₂) =>
    (writeTrees? around count₂ rest).map fun (after, next) =>
      let head := '<' :: (name ++ written.flatten ++ writeDeclarations scope)
      if children.isEmpty then (head ++ "/>".toList ++ after, next)
      else (head ++ '>' :: inside ++ "</".toList ++ name ++ '>' :: after, next)

def declaration (encoding : Bool) : List Char :=
  if encoding then "<?xml version=\"1.0\" encoding=\"UTF-8\"?>".toList
  else "<?xml version=\"1.0\"?>".toList

/-- The text of a document whose document node has the given children. -/
def write? (encoding : Bool) (trees : List Tree) : Option (List Char) :=
  (writeTrees? [] 0 trees).map fun (text, _) => declaration encoding ++ text

end XmlScript.Markup
