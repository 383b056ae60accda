/-!
# Trees

The content of a document as a value: elements with their attributes and children, text,
comments and processing instructions. Reading a document yields trees, writing one and copying
one into a script start from them, while edits are made on a `Document`, whose nodes have an
identity.
-/

namespace XmlScript

/-- A name with the URI of its namespace, if it is in one. -/
structure ExpandedName where
  space? : Option String
  localPart : String
  deriving DecidableEq, Repr

/-- The namespace of the prefix `xml`, which needs no declaration. -/
def xmlSpace : String := "http://www.w3.org/XML/1998/namespace"

namespace ExpandedName

/-- A name in no namespace. Colons have no meaning in it. -/
def plain (name : String) : ExpandedName := ⟨none, name⟩

end ExpandedName

structure Attribute where
  name : ExpandedName
  /-- The namespace prefix that it was written with. -/
  hint? : Option String := none
  value : String
  deriving DecidableEq, Repr

/-- What the start tag of an element says besides its attributes. -/
structure Label where
  name : ExpandedName
  /-- The namespace prefix that the name was written with. -/
  hint? : Option String := none
  /-- The default namespace that the tag declares. -/
  defaultSpace? : Option String := none
  /-- The prefixes that the element binds for what is below it, with their namespaces. -/
  spaces : List (String × String) := []
  deriving DecidableEq, Repr

def Label.plain (name : String) : Label := { name := .plain name }

/-- A node that can be the child of another, with everything below it. -/
inductive Tree where
  | element (label : Label) (attributes : List Attribute) (children : List Tree)
  /-- Text; `isCData` marks character data, which is written as a section of its own. -/
  | text (s : String) (isCData : Bool)
  | comment (s : String)
  | instruction (target : String) (data? : Option String)
  deriving Repr

namespace Tree

def isText : Tree → Bool
  | text _ _ => true
  | _ => false

def isElement : Tree → Bool
  | element _ _ _ => true
  | _ => false

/-- Whether a tree is an element with something in it. -/
def hasChildren : Tree → Bool
  | element _ _ (_ :: _) => true
  | _ => false

mutual

/-- The string value of a tree: for an element the text below it, comments and instructions
left out. -/
def stringValue : Tree → String
  | element _ _ children => textBelow children
  | text s _ => s
  | comment s => s
  | instruction _ data? => data?.getD ""

/-- The text in and below neighbouring trees. -/
def textBelow : List Tree → String
  | [] => ""
  | element _ _ children :: rest => textBelow children ++ textBelow rest
  | text s _ :: rest => s ++ textBelow rest
  | comment _ :: rest => textBelow rest
  | instruction _ _ :: rest => textBelow rest

end

end Tree

end XmlScript
