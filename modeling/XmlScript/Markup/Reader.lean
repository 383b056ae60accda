import XmlScript.Markup.Event
import XmlScript.Document.Basic

/-!
# Reading documents

`Markup.read?` makes trees of the text of a document. Tags have to match, and exactly one
element stands at the top level, among comments, instructions and blanks. Names are resolved
against the namespace declarations of their element and of those around it. Every piece of text,
every reference and every section becomes a text node of its own.
-/

namespace XmlScript.Markup

/-- An element whose end tag has not been read. -/
structure OpenElement where
  written : WrittenName
  label : Label
  attributes : List Attribute
  /-- The children read so far, the last one first. -/
  children : List Tree
  deriving Repr

/-- The tree of an element with all its children read. -/
def OpenElement.close (e : OpenElement) : Tree := .element e.label e.attributes e.children.reverse

/-! ## Namespaces -/

/-- The namespace of a prefix by the declarations around, the nearest first. -/
def spaceOf? (short : String) : (around : List (List (String × String))) → Option String
  | [] => none
  | spaces :: outer => (spaces.lookup short).or (spaceOf? short outer)

/-- Whether an attribute name declares a prefix: it has the prefix `xmlns`. -/
def WrittenName.declaresSpace (name : WrittenName) : Bool := name.alias? == some "xmlns"

/-- Whether an attribute name declares the default namespace: its local part is `xmlns`, whatever
its prefix says. -/
def WrittenName.declaresDefault (name : WrittenName) : Bool :=
  !name.declaresSpace && name.localPart == "xmlns"

/-- The prefixes that a start tag declares. -/
def declaredSpaces (attributes : List (WrittenName × String)) : List (String × String) :=
  (attributes.filter (·.1.declaresSpace)).map fun (name, value) => (name.localPart, value)

/-- The default namespaces that a start tag declares; an empty one takes the default back. -/
def declaredDefaults (attributes : List (WrittenName × String)) : List String :=
  (attributes.filter (·.1.declaresDefault)).map (·.2)

/-- Whether an attribute of a start tag declares no namespace. -/
def isPlainAttribute (a : WrittenName × String) : Bool :=
  !a.1.declaresSpace && !a.1.declaresDefault

/-- The prefixes that an element with the given declarations offers to what is below it. The
prefix `xml` of the document element is that of the standard, whatever its tag says. -/
def offeredSpaces (isTop : Bool) (spaces : List (String × String)) : List (String × String) :=
  if isTop then ("xml", xmlSpace) :: spaces.filter (·.1 ≠ "xml") else spaces

/-- Attributes are kept by prefix and local part, those without prefix first. -/
def attributeLe (a b : WrittenName × String) : Bool :=
  match a.1.alias?, b.1.alias? with
  | none, some _ => true
  | some _, none => false
  | none, none => decide (a.1.localPart ≤ b.1.localPart)
  | some p, some q =>
    if p = q then decide (a.1.localPart ≤ b.1.localPart) else decide (p ≤ q)

/-- The attributes of a start tag, where prefixes mean what `space?` says. Of two that mean the
same name the later one stays. -/
def resolveAttributes? (space? : String → Option String) :
    List (WrittenName × String) → List Attribute → Option (List Attribute)
  | [], done => some done
  | (name, value) :: rest, done =>
    let resolved? : Option Attribute :=
      match name.alias? with
      | none => some { name := .plain name.localPart, value }
      | some short => (space? short).map fun uri =>
        { name := ⟨some uri, name.localPart⟩, hint? := some short, value }
    resolved?.bind fun a =>
      resolveAttributes? space? rest (done.filter (fun other => other.name ≠ a.name) ++ [a])

/-- The name of an element with the given declarations, inside others. A name without prefix is
in the default namespace: the one that its tag declares, or else the nearest that is recorded. -/
def resolveName? (around : List OpenElement) (spaces : List (String × String))
    (declared? : Option String) (name : WrittenName) : Option ExpandedName :=
  match name.alias? with
  | some short =>
    (spaceOf? short (spaces :: around.map (·.label.spaces))).map fun uri =>
      ⟨some uri, name.localPart⟩
  | none =>
    match declared? with
    | some uri => some ⟨(some uri).filter (· ≠ ""), name.localPart⟩
    | none => some ⟨around.findSome? (·.label.defaultSpace?), name.localPart⟩

/-- Opens an element inside others: its label and attributes. A default namespace is recorded
with elements that have no prefix only. -/
def open? (around : List OpenElement) (name : WrittenName)
    (attributes : List (WrittenName × String)) : Option OpenElement :=
  let spaces := declaredSpaces attributes
  let defaults := declaredDefaults attributes
  let offered := offeredSpaces around.isEmpty spaces
  if ¬ (attributes.map (·.1)).Nodup ∨ spaces.any (·.2.isEmpty) ∨ 1 < defaults.length then none
  else
    (resolveName? around spaces defaults.head? name).bind fun expanded =>
    let space? (short : String) :=
      spaceOf? short (spaces :: offered :: around.map (·.label.spaces))
    -- the order counts: of two attributes of one expanded name the later one stays
    let plain := (attributes.filter isPlainAttribute).mergeSort attributeLe
    (resolveAttributes? space? plain []).map fun resolved =>
      { written := name
        label :=
          { name := expanded
            hint? := name.alias?
            defaultSpace? := if name.alias?.isNone then defaults.head?.filter (· ≠ "") else none
            spaces := offered }
        attributes := resolved
        children := [] }

/-! ## Trees -/

/-- Where in a document the next event stands. -/
inductive Stage where
  /-- Nothing has been read. -/
  | start
  /-- Before the document element, where document types may still come. -/
  | prolog
  /-- After the document element. -/
  | epilog
  deriving DecidableEq, Repr

/-- Whether a text consists of blanks of markup. -/
def isBlankText (s : String) : Bool := s.toList.all Text.isMarkupBlank

/-- What has been read of a document. -/
structure Progress where
  stage : Stage := .start
  /-- The trees at the top level, the last one first. -/
  top : List Tree := []
  /-- The elements that are open, the innermost first. -/
  inner : List OpenElement := []
  deriving Repr

namespace Progress

/-- Adds a tree where the reading has got to. -/
def add (p : Progress) (t : Tree) : Progress :=
  match p.inner with
  | [] => { p with top := t :: p.top }
  | e :: outer => { p with inner := { e with children := t :: e.children } :: outer }

/-- At the top level before the document element: anything but a document type follows a start. -/
def afterStart (stage : Stage) : Stage := if stage = .start then .prolog else stage

def startTag? (p : Progress) (name : WrittenName) (attributes : List (WrittenName × String))
    (isEmpty : Bool) : Option Progress :=
  if p.inner.isEmpty ∧ p.stage = .epilog then none
  else
    (open? p.inner name attributes).map fun e =>
      let stage := if p.inner.isEmpty then .epilog else p.stage
      if isEmpty then { p with stage }.add e.close
      else { p with stage, inner := e :: p.inner }

def step? (p : Progress) (event : Event) : Option Progress :=
  let misc (t : Tree) := some ({ p with stage := afterStart p.stage }.add t)
  match event with
  | .startTag name attributes isEmpty => p.startTag? name attributes isEmpty
  | .endTag name =>
    match p.inner with
    | [] => none
    | e :: outer => if e.written = name then some ({ p with inner := outer }.add e.close) else none
  | .comment s => misc (.comment s)
  | .instruction target data? => misc (.instruction target data?)
  | .chars s =>
    if p.inner.isEmpty then
      -- blanks around the document element are dropped, but nothing may stand before a declaration
      if isBlankText s then some { p with stage := afterStart p.stage } else none
    else some (p.add (.text s false))
  | .reference c =>
    if p.inner.isEmpty then none else some (p.add (.text (String.singleton c) false))
  | .cdata s => if p.inner.isEmpty then none else some (p.add (.text s false))
  | .declaration =>
    if p.inner.isEmpty ∧ p.stage = .start then some { p with stage := .prolog } else none
  | .doctype =>
    if p.inner.isEmpty ∧ p.stage = .prolog then some p else none

/-- The trees of a document that has been read to its end. -/
def finish? (p : Progress) : Option (List Tree) :=
  if p.inner.isEmpty ∧ p.stage = .epilog then some p.top.reverse else none

end Progress

def readTrees? (s : List Char) : Option (List Tree) :=
  ((events? s).bind fun events => events.foldlM Progress.step? {}).bind Progress.finish?

def read? (text : String) : Option Document := (readTrees? text.toList).map Document.ofTrees

end XmlScript.Markup
