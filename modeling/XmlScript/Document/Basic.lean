import XmlScript.Tree

/-!
# Documents

A document is a store of nodes that know their parent, children and attributes. A node is never
forgotten: one that is detached keeps what is below it and can still be named, edited and asked.
Nodes are numbered as they are made and the document node is number 0, so a parent always has a
smaller number than its children.

The functions of this module look at a document or change it in one place; the edits that
scripts are made of, with their refusals, are in `XmlScript.Document.Edit`. `Document.trees`
shows the attached nodes as trees and `Document.ofTrees` makes a document of trees.
-/

namespace XmlScript

/-- The number of a node in its document. -/
abbrev NodeId := Nat

/-- A node, or one of the namespace bindings that an element has in scope. -/
inductive Node where
  | stored (id : NodeId)
  | binding (owner : NodeId) (short uri : String)
  deriving DecidableEq, Repr

inductive Content where
  | document
  | element (label : Label)
  | attribute (a : Attribute)
  | text (s : String) (isCData : Bool)
  | comment (s : String)
  | instruction (target : String) (data? : Option String)
  deriving DecidableEq, Repr

/-- What a document holds under the number of a node. -/
structure Entry where
  content : Content
  parent? : Option NodeId := none
  children : List NodeId := []
  attributes : List NodeId := []
  deriving DecidableEq, Repr

/-- A number that no node has reads as a detached empty comment. -/
def Entry.absent : Entry := { content := .comment "" }

structure Document where
  entries : Array Entry
  deriving DecidableEq, Repr

namespace Document

/-- The number of the document node. -/
def root : NodeId := 0

/-- The document that has no node but the document node. -/
def empty : Document := ⟨#[{ content := .document }]⟩

instance : Inhabited Document := ⟨empty⟩

/-- The number of nodes made so far, which is also the number of the next one. -/
def size (d : Document) : Nat := d.entries.size

/-! ## Single entries -/

/-- What a document holds under a number. -/
def entry (d : Document) (n : NodeId) : Entry := d.entries[n]?.getD .absent

def modify (d : Document) (n : NodeId) (f : Entry → Entry) : Document :=
  ⟨d.entries.modify n f⟩

/-- Makes a new node, which gets the number `d.size`. -/
def create (d : Document) (e : Entry) : Document := ⟨d.entries.push e⟩

@[simp] theorem size_modify (d : Document) (n : NodeId) (f : Entry → Entry) :
    (d.modify n f).size = d.size := by
  simp [modify, size]

@[simp] theorem size_create (d : Document) (e : Entry) : (d.create e).size = d.size + 1 := by
  simp [create, size]

/-- A change shows at its own number only. -/
theorem entry_modify (d : Document) (n m : NodeId) (f : Entry → Entry) :
    (d.modify n f).entry m = if m = n ∧ n < d.size then f (d.entry n) else d.entry m := by
  unfold entry modify size
  rw [Array.getElem?_modify]
  by_cases h : n = m
  · subst h
    by_cases hn : n < d.entries.size
    · simp [hn]
    · simp [hn]
  · simp [h, Ne.symm h]

/-- A new node shows at its own number only. -/
theorem entry_create (d : Document) (e : Entry) (m : NodeId) :
    (d.create e).entry m = if m = d.size then e else d.entry m := by
  unfold entry create size
  rw [Array.getElem?_push]
  split <;> simp_all

/-! ## Looking around -/

/-- The parent of a node. The document node has none, nor has a binding or a detached node. -/
def parent? (d : Document) : Node → Option Node
  | .stored n => (d.entry n).parent?.map .stored
  | .binding _ _ _ => none

/-- What a node is; nothing for a binding. -/
def content? (d : Document) : Node → Option Content
  | .stored n => some (d.entry n).content
  | .binding _ _ _ => none

/-- The local part of the name of an element or attribute. -/
def name? (d : Document) (n : Node) : Option String :=
  match d.content? n with
  | some (.element label) => some label.name.localPart
  | some (.attribute a) => some a.name.localPart
  | _ => none

def isAttribute (d : Document) (n : Node) : Bool :=
  match d.content? n with
  | some (.attribute _) => true
  | _ => false

def isElement (d : Document) (n : NodeId) : Bool :=
  match (d.entry n).content with
  | .element _ => true
  | _ => false

def elementChildren (d : Document) : Node → List Node
  | .stored n => ((d.entry n).children.filter d.isElement).map .stored
  | .binding _ _ _ => []

def documentElement? (d : Document) : Option NodeId := (d.entry root).children.find? d.isElement

/-! ## Paths -/

/-- The step from a parent to one of its nodes: the name, for several element children of one
name with the position among them, for an attribute after an at sign. -/
def pathStep (d : Document) (parent : Node) (n : Node) : String :=
  let name := (d.name? n).getD "node()"
  let namesakes := (d.elementChildren parent).filter fun sibling => d.name? sibling = some name
  match namesakes.idxOf? n with
  | some index =>
    if 1 < namesakes.length then name ++ "[" ++ toString (index + 1) ++ "]" else name
  | none => if d.isAttribute n then "@" ++ name else name

/-- The steps to a node from its topmost ancestor. A node has fewer ancestors than the document
has nodes, so `d.size` is enough of `bound`. -/
def pathSteps (d : Document) : (bound : Nat) → Node → List String
  | 0, _ => []
  | bound + 1, n =>
    match d.parent? n with
    | none => []
    | some parent => d.pathSteps bound parent ++ [d.pathStep parent n]

/-- The location of a node as `/root/child[2]`; the document node is `/`. -/
def path (d : Document) (n : Node) : String := "/" ++ "/".intercalate (d.pathSteps d.size n)

/-! ## Document order -/

/-- A node, its attributes from the last to the first, and what is below its children. -/
def preorder (d : Document) : (bound : Nat) → NodeId → List NodeId
  | 0, _ => []
  | bound + 1, n =>
    n :: (d.entry n).attributes.reverse ++ (d.entry n).children.flatMap (d.preorder bound)

/-- The attached nodes in document order. -/
def inDocumentOrder (d : Document) : List Node := (d.preorder d.size root).map .stored

/-- Some nodes in document order, each once; those that are not attached come last. -/
def sorted (d : Document) (nodes : List Node) : List Node :=
  match nodes with
  | [] => []
  | [n] => [n]
  | _ =>
    let order := d.inDocumentOrder
    order.filter nodes.contains ++ nodes.filter (!order.contains ·)

/-! ## Trees -/

def attributesOf (d : Document) (n : NodeId) : List Attribute :=
  (d.entry n).attributes.filterMap fun id =>
    match (d.entry id).content with
    | .attribute a => some a
    | _ => none

/-- A node that can be a child, as a tree. -/
def tree? (d : Document) : (bound : Nat) → NodeId → Option Tree
  | 0, _ => none
  | bound + 1, n =>
    let e := d.entry n
    match e.content with
    | .element label =>
      some (.element label (d.attributesOf n) (e.children.filterMap (d.tree? bound)))
    | .text s isCData => some (.text s isCData)
    | .comment s => some (.comment s)
    | .instruction target data? => some (.instruction target data?)
    | .document | .attribute _ => none

def treesBelow (d : Document) (n : NodeId) : List Tree :=
  (d.entry n).children.filterMap (d.tree? d.size)

def trees (d : Document) : List Tree := d.treesBelow root

/-- Makes a node at the end of the children of another. -/
def appendChild (d : Document) (parent : NodeId) (content : Content) : Document :=
  (d.create { content, parent? := some parent }).modify parent fun e =>
    { e with children := e.children ++ [d.size] }

/-- Makes an attribute at the end of the attributes of a node. -/
def appendAttribute (d : Document) (owner : NodeId) (a : Attribute) : Document :=
  (d.create { content := .attribute a, parent? := some owner }).modify owner fun e =>
    { e with attributes := e.attributes ++ [d.size] }

mutual

/-- Adds a tree at the end of the children of a node. -/
def addTree (d : Document) (parent : NodeId) : Tree → Document
  | .element label attributes children =>
    let made := d.appendChild parent (.element label)
    addTrees (attributes.foldl (·.appendAttribute d.size) made) d.size children
  | .text s isCData => d.appendChild parent (.text s isCData)
  | .comment s => d.appendChild parent (.comment s)
  | .instruction target data? => d.appendChild parent (.instruction target data?)

/-- Adds trees at the end of the children of a node, in their order. -/
def addTrees (d : Document) (parent : NodeId) : List Tree → Document
  | [] => d
  | t :: rest => addTrees (addTree d parent t) parent rest

end

/-- The document whose document node has the given children. -/
def ofTrees (trees : List Tree) : Document := empty.addTrees root trees

end Document

end XmlScript
