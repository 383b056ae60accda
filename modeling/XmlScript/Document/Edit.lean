import XmlScript.Document.Basic
import XmlScript.Name

/-!
# Edits of a document

Every edit concerns one node and is made as a whole or refused as a whole: a refusal leaves the
document as it was, since the edit then yields no other. Names are looked at before the node is.
-/

namespace XmlScript

/-- The edits that not every kind of node allows. -/
inductive Operation where
  | addElement
  | setText
  | setAttribute
  | addComment
  | addCData
  | addInstruction
  deriving DecidableEq, Repr

/-- An operation as it is named in a message, before the node. -/
def Operation.text : Operation → String
  | addElement => "add an element to"
  | setText => "set the text of"
  | setAttribute => "set an attribute on"
  | addComment => "add a comment to"
  | addCData => "add character data to"
  | addInstruction => "add a processing instruction to"

inductive EditError where
  | invalidName (name : String)
  /-- The kind of node at `path` does not allow the operation. -/
  | unsupported (operation : Operation) (path : String)
  /-- There is a document element already, of the given local name. -/
  | duplicateDocumentElement (name : String)
  /-- The node at `path` has no parent to be taken from. -/
  | detached (path : String)
  deriving DecidableEq, Repr

def EditError.message : EditError → String
  | invalidName name => "'" ++ name ++ "' is not a valid XML name"
  | unsupported operation path => "cannot " ++ operation.text ++ " " ++ path
  | duplicateDocumentElement name => "document already has a root element '" ++ name ++ "'"
  | detached path => "node " ++ path ++ " is not attached to a parent"

namespace Document

/-! ## Moving nodes -/

def detach (d : Document) (parent n : NodeId) : Document :=
  (d.modify parent fun e => { e with children := e.children.filter (· ≠ n) }).modify n
    fun e => { e with parent? := none }

def clearChildren (d : Document) (n : NodeId) : Document :=
  (d.entry n).children.foldl (fun d child => d.modify child fun e => { e with parent? := none })
    (d.modify n fun e => { e with children := [] })

/-- Whether the node of a number is an attribute of the given name. -/
def isAttributeNamed (d : Document) (name : ExpandedName) (n : NodeId) : Bool :=
  match (d.entry n).content with
  | .attribute a => a.name == name
  | _ => false

/-- Gives an element an attribute, at the end of its list, in the place of the one of that name.
The attribute that is replaced leaves the list but still knows its element. -/
def putAttribute (d : Document) (owner : NodeId) (a : Attribute) : Document :=
  let others := (d.entry owner).attributes.filter (!d.isAttributeNamed a.name ·)
  (d.modify owner fun e => { e with attributes := others }).appendAttribute owner a

def dropAttribute (d : Document) (owner : NodeId) (name : ExpandedName) : Document :=
  let gone := (d.entry owner).attributes.filter (d.isAttributeNamed name)
  let others := (d.entry owner).attributes.filter (!d.isAttributeNamed name ·)
  gone.foldl (fun d a => d.modify a fun e => { e with parent? := none })
    (d.modify owner fun e => { e with attributes := others })

/-! ## Edits -/

/-- Refuses an operation on a node. -/
def refuse {α : Type} (d : Document) (operation : Operation) (n : Node) : Except EditError α :=
  .error (.unsupported operation (d.path n))

/-- Goes on with a text that is a name. -/
def withName {α : Type} (name : String) (edit : Except EditError α) : Except EditError α :=
  if Name.isValid name then edit else .error (.invalidName name)

/-- Appends a new element and answers with it. The document node takes no second one. -/
def addElement (name : String) (parent : Node) (d : Document) :
    Except EditError (Node × Document) :=
  withName name <|
    let add (p : NodeId) := .ok (.stored d.size, d.appendChild p (.element (.plain name)))
    match parent, d.content? parent with
    | .stored p, some .document =>
      match d.documentElement? with
      | some e => .error (.duplicateDocumentElement ((d.name? (.stored e)).getD ""))
      | none => add p
    | .stored p, some (.element _) => add p
    | _, _ => d.refuse .addElement parent

/-- Takes a node from its parent. An attribute is found in its element by its name. -/
def remove (n : Node) (d : Document) : Except EditError Document :=
  match n with
  | .binding _ _ _ => .error (.detached (d.path n))
  | .stored id =>
    match (d.entry id).parent?, (d.entry id).content with
    | none, _ => .error (.detached (d.path n))
    | some parent, .attribute a => .ok (d.dropAttribute parent a.name)
    | some parent, _ => .ok (d.detach parent id)

/-- Replaces the text of a node: the whole content of an element by one text node, an attribute
by a new one. -/
def setText (text : String) (n : Node) (d : Document) : Except EditError Document :=
  match n, d.content? n with
  | .stored id, some (.element _) => .ok ((d.clearChildren id).appendChild id (.text text false))
  | .stored id, some (.text _ isCData) =>
    .ok (d.modify id fun e => { e with content := .text text isCData })
  | .stored id, some (.attribute a) =>
    -- not this node but a new one has the text, and the prefix is not carried over
    match (d.entry id).parent? with
    | some owner => .ok (d.putAttribute owner { name := a.name, value := text })
    | none => .error (.detached (d.path n))
  | _, _ => d.refuse .setText n

/-- Gives an element an attribute in no namespace. -/
def setAttribute (name value : String) (n : Node) (d : Document) : Except EditError Document :=
  withName name <|
    match n, d.content? n with
    | .stored id, some (.element _) => .ok (d.putAttribute id { name := .plain name, value })
    | _, _ => d.refuse .setAttribute n

def addComment (text : String) (n : Node) (d : Document) : Except EditError Document :=
  match n, d.content? n with
  | .stored id, some .document => .ok (d.appendChild id (.comment text))
  | .stored id, some (.element _) => .ok (d.appendChild id (.comment text))
  | _, _ => d.refuse .addComment n

def addCData (text : String) (n : Node) (d : Document) : Except EditError Document :=
  match n, d.content? n with
  | .stored id, some (.element _) => .ok (d.appendChild id (.text text true))
  | _, _ => d.refuse .addCData n

/-- The content of a processing instruction; empty data is none. -/
def instructionContent (target data : String) : Content :=
  .instruction target (if data.isEmpty then none else some data)

def addInstruction (target data : String) (n : Node) (d : Document) : Except EditError Document :=
  withName target <|
    match n, d.content? n with
    | .stored id, some .document => .ok (d.appendChild id (instructionContent target data))
    | .stored id, some (.element _) => .ok (d.appendChild id (instructionContent target data))
    | _, _ => d.refuse .addInstruction n

/-- Inserts a node before the first one that satisfies `p`, or at the end. -/
def insertBefore (p : NodeId → Bool) (n : NodeId) : List NodeId → List NodeId
  | [] => [n]
  | x :: rest => if p x then n :: x :: rest else x :: insertBefore p n rest

/-- Inserts a processing instruction right before the document element, or last when there is
none. -/
def insertInstruction (target data : String) (d : Document) : Except EditError Document :=
  withName target <|
    .ok ((d.create { content := instructionContent target data, parent? := some root }).modify root
      fun e => { e with children := insertBefore d.isElement d.size e.children })

end Document

end XmlScript
