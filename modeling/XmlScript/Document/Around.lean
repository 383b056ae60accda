import XmlScript.Document.Basic

/-!
# What is around a node

Where a query can go from a node, and what it can read there: ancestors, descendants, siblings,
the namespace bindings in scope, the string value and the names. Everything here looks at a
document and changes nothing. To a query the parent of a binding is the element that has it in
scope.
-/

namespace XmlScript.Document

/-- The parent of a node, for a binding its element. -/
def above? (d : Document) : Node → Option Node
  | .stored n => (d.entry n).parent?.map .stored
  | .binding owner _ _ => some (.stored owner)

/-- The nodes above a node, the nearest first. -/
def ancestorsWithin (d : Document) : (bound : Nat) → Node → List Node
  | 0, _ => []
  | bound + 1, n =>
    match d.above? n with
    | none => []
    | some parent => parent :: d.ancestorsWithin bound parent

/-- All nodes above a node, the nearest first. -/
def ancestors (d : Document) (n : Node) : List Node := d.ancestorsWithin (d.size + 1) n

/-- A node and the nodes below it, in document order and without attributes. -/
def subtreeWithin (d : Document) : (bound : Nat) → NodeId → List NodeId
  | 0, _ => []
  | bound + 1, n => n :: (d.entry n).children.flatMap (d.subtreeWithin bound)

def subtree (d : Document) : Node → List Node
  | .stored n => (d.subtreeWithin d.size n).map .stored
  | binding => [binding]

def children (d : Document) : Node → List Node
  | .stored n => (d.entry n).children.map .stored
  | .binding _ _ _ => []

/-- The siblings before and after a node, both in document order. Attributes have none. -/
def siblings (d : Document) (n : Node) : List Node × List Node :=
  match d.parent? n with
  | none => ([], [])
  | some parent =>
    let all := d.children parent
    if all.contains n then (all.takeWhile (· ≠ n), (all.dropWhile (· ≠ n)).drop 1) else ([], [])

/-- The siblings before a node, the nearest first. -/
def precedingSiblings (d : Document) (n : Node) : List Node := (d.siblings n).1.reverse

def followingSiblings (d : Document) (n : Node) : List Node := (d.siblings n).2

/-- What comes after a node in the document, without what is below it. -/
def following (d : Document) (n : Node) : List Node :=
  (n :: d.ancestors n).flatMap fun a => (d.followingSiblings a).flatMap d.subtree

/-- What comes before a node in the document, the nearest first, without what is above it. -/
def preceding (d : Document) (n : Node) : List Node :=
  (n :: d.ancestors n).flatMap fun a =>
    (d.precedingSiblings a).flatMap fun s => (d.subtree s).reverse

def attributes (d : Document) : Node → List Node
  | .stored n => (d.entry n).attributes.map .stored
  | .binding _ _ _ => []

/-! ## Namespaces -/

/-- The prefixes that an element declares. -/
def spacesAt (d : Document) : Node → List (String × String)
  | .stored n =>
    match (d.entry n).content with
    | .element label => label.spaces
    | _ => []
  | .binding _ _ _ => []

/-- Some bindings without those of a prefix that an earlier one binds. -/
def dropShadowed : List (String × String) → List (String × String)
  | [] => []
  | space :: rest => space :: (dropShadowed rest).filter (·.1 ≠ space.1)

def bindings (d : Document) : Node → List Node
  | .stored n =>
    if d.isElement n then
      let declared := (Node.stored n :: d.ancestors (.stored n)).flatMap d.spacesAt
      (dropShadowed (("xml", xmlSpace) :: declared)).map fun (short, uri) => .binding n short uri
    else []
  | .binding _ _ _ => []

/-! ## Strings -/

/-- The string value of a node: the text below it, or its own text. -/
def stringValue (d : Document) : Node → String
  | .binding _ _ uri => uri
  | .stored n =>
    match (d.entry n).content with
    | .document | .element _ => Tree.textBelow (d.treesBelow n)
    | .attribute a => a.value
    | .text s _ => s
    | .comment s => s
    | .instruction _ data? => data?.getD ""

/-- The name of an element or attribute with its namespace. -/
def expandedName? (d : Document) (n : Node) : Option ExpandedName :=
  match d.content? n with
  | some (.element label) => some label.name
  | some (.attribute a) => some a.name
  | _ => none

/-- The prefix that an element or attribute was written with. -/
def hint? (d : Document) (n : Node) : Option String :=
  match d.content? n with
  | some (.element label) => label.hint?
  | some (.attribute a) => a.hint?
  | _ => none

/-- The local part of the name of a node: for an instruction the target, for a binding the
prefix, for a node without name nothing. -/
def localName (d : Document) : Node → String
  | .binding _ short _ => short
  | .stored n =>
    match (d.entry n).content with
    | .element label => label.name.localPart
    | .attribute a => a.name.localPart
    | .instruction target _ => target
    | .document | .text _ _ | .comment _ => ""

/-- The namespace of the name of a node, empty for none. -/
def spaceUri (d : Document) (n : Node) : String :=
  ((d.expandedName? n).bind (·.space?)).getD ""

/-- The prefix of a namespace at a node: of those that the nearest declaring element binds to it,
the given one if it is among them. -/
def aliasOf? (d : Document) (n : Node) (hint? : Option String) (uri : String) : Option String :=
  (n :: d.ancestors n).findSome? fun level =>
    let aliases := (d.spacesAt level).filterMap fun (short, bound) =>
      if bound = uri then some short else none
    (aliases.find? (some · = hint?)).or aliases.head?

/-- The name of a node with a prefix that is bound to its namespace, where there is one. An
attribute without an element has no prefixes to look at, so this name of it is not known. -/
def qualifiedName? (d : Document) (n : Node) : Option String :=
  let plain := d.localName n
  let alias? := ((d.expandedName? n).bind (·.space?)).bind (d.aliasOf? n (d.hint? n))
  if d.isAttribute n ∧ d.parent? n = none then none
  else
    match alias? with
    | some short => some (short ++ ":" ++ plain)
    | none => some plain

end XmlScript.Document
