import XmlScript.Cursor
import XmlScript.Directive
import XmlScript.Document.Edit
import XmlScript.Query.Eval
import XmlScript.Text.Blank

/-!
# Executing scripts

`Engine.execute` is one directive: it takes the current nodes and the state, and yields the next
nodes and the next state. A directive that acts on every current node does so one node after the
other and stops at the first refusal; the state then shows what was done until there.
`Engine.apply` is a whole script on a document, from the document node.
-/

namespace XmlScript

/-- What asks for the parents of the current nodes. -/
inductive Ascent where
  | up
  | remove
  deriving DecidableEq, Repr

def Ascent.text : Ascent → String
  | up => "go UP"
  | remove => "REMOVE"

inductive ExecutionError where
  /-- The node at `path` has no parent. -/
  | noParent (ascent : Ascent) (path : String)
  | emptyStack
  /-- Not `expected` nodes are current but those at the given paths. -/
  | cardinality (expected : UInt64) (paths : List String)
  | edit (error : EditError)
  | query (error : QueryError)
  deriving DecidableEq, Repr

def ExecutionError.message : ExecutionError → String
  | noParent ascent path => "there is no parent node at " ++ path ++ ", can't " ++ ascent.text
  | emptyStack => "stack is empty, can't POP"
  | cardinality expected [] => "no current nodes while " ++ toString expected ++ " expected"
  | cardinality expected [path] =>
    "1 current node '" ++ path ++ "' while strictly " ++ toString expected ++ " expected"
  | cardinality expected paths =>
    toString paths.length ++ " current nodes while strictly " ++ toString expected ++ " expected"
  | edit error => error.message
  | query error => error.message

/-- Whether a failure ends the program. -/
def ExecutionError.isFatal : ExecutionError → Bool
  | query error => error.isFatal
  | _ => false

/-- The directive of a script that failed. -/
structure ApplyError where
  /-- The place of the directive in its script, counted from one. -/
  position : Nat
  directive : Directive
  cause : ExecutionError
  deriving DecidableEq

def ApplyError.message (e : ApplyError) : String :=
  "directive #" ++ toString e.position ++ " `" ++ e.directive.text ++ "` failed: " ++
    e.cause.message

namespace Engine

/-- What directives change besides the current nodes. -/
structure State where
  document : Document
  saved : Stack Node := []
  deriving DecidableEq

/-- What becomes of the current nodes, and the state that is left in either case. -/
abbrev Outcome := Except ExecutionError (Cursor Node) × State

/-! ## Acting on every node -/

/-- Edits a document once for every element of a list and collects the answers. The first
refusal ends it; the document then shows the edits before. -/
def editEach {α β : Type} (edit : α → Document → Except EditError (β × Document)) :
    List α → Document → Except EditError (List β) × Document
  | [], d => (.ok [], d)
  | x :: rest, d =>
    match edit x d with
    | .error e => (.error e, d)
    | .ok (y, d) =>
      let (r, d) := editEach edit rest d
      (r.map fun ys => y :: ys, d)

/-- An edit without an answer of its own answers with its element. -/
def keeping {α : Type} (edit : α → Document → Except EditError Document) (x : α) (d : Document) :
    Except EditError (α × Document) :=
  (edit x d).map fun d => (x, d)

/-- The outcome of edits whose answers become current. -/
def moved (s : State) (r : Except EditError (List Node) × Document) : Outcome :=
  ((r.1.mapError .edit).map Cursor.ofList, { s with document := r.2 })

/-- Edits at every current node, which stay current. -/
def editNodes (edit : Node → Document → Except EditError Document) (c : Cursor Node) (s : State) :
    Outcome :=
  moved s (editEach (keeping edit) c.nodes s.document)

/-- Edits at every current node with the text that a query has there. All texts are computed
before the first edit. -/
def editComputed (query : String) (edit : String → Node → Document → Except EditError Document)
    (c : Cursor Node) (s : State) : Outcome :=
  let d := s.document
  match c.nodes.mapM fun n => (Query.evaluateText query n d).map fun text => (n, text) with
  | .error e => (.error (.query e), s)
  | .ok pairs =>
    let r := editEach (keeping fun (n, text) => edit text n) pairs d
    moved s (r.1.map fun done => done.map (·.1), r.2)

/-! ## Single directives -/

def parent (ascent : Ascent) (d : Document) (n : Node) : Except ExecutionError Node :=
  match d.parent? n with
  | some parent => .ok parent
  | none => .error (.noParent ascent (d.path n))

def parents (ascent : Ascent) (c : Cursor Node) (d : Document) :
    Except ExecutionError (Cursor Node) :=
  (c.nodes.mapM (parent ascent d)).map Cursor.ofList

/-- The first child element of the given name, with the case of ASCII letters ignored. -/
def childNamed? (name : String) (n : Node) (d : Document) : Option Node :=
  (d.elementChildren n).find? fun child =>
    (d.name? child).any fun found => Text.eqIgnoringCase found name

/-- The first child element of the given name, which is created where there is none. -/
def ensureElement (name : String) (n : Node) (d : Document) :
    Except EditError (Node × Document) :=
  match childNamed? name n d with
  | some child => .ok (child, d)
  | none => d.addElement name n

def execute (directive : Directive) (c : Cursor Node) (s : State) : Outcome :=
  match directive with
  | .addElement name =>
    moved s (editEach (fun n d => d.addElement name.raw n) c.nodes s.document)
  | .ensureElement name => moved s (editEach (ensureElement name.raw) c.nodes s.document)
  | .remove =>
    -- every parent is known before the first node goes
    match parents .remove c s.document with
    | .error e => (.error e, s)
    | .ok above =>
      let (r, s) := editNodes Document.remove c s
      (r.map fun _ => above, s)
  | .setText text => editNodes (Document.setText text.raw) c s
  | .setAttribute name value => editNodes (Document.setAttribute name.raw value.raw) c s
  | .computeAttribute name query => editComputed query.raw (Document.setAttribute name.raw) c s
  | .computeText query => editComputed query.raw Document.setText c s
  | .addComment text => editNodes (Document.addComment text.raw) c s
  | .addCData text => editNodes (Document.addCData text.raw) c s
  | .addInstruction target data =>
    -- with no current node it goes before the document element
    if c.isEmpty then
      match s.document.insertInstruction target.raw data.raw with
      | .error e => (.error (.edit e), s)
      | .ok d => (.ok c, { s with document := d })
    else editNodes (Document.addInstruction target.raw data.raw) c s
  | .setNamespace uri => editNodes (Document.setAttribute "xmlns" uri.raw) c s
  | .up => (parents .up c s.document, s)
  | .select query =>
    -- from the document node, wherever the cursor is
    let root := Node.stored Document.root
    (((Query.select query.raw root s.document).mapError .query).map Cursor.ofList, s)
  | .expect count =>
    if c.size = count.toNat then (.ok c, s)
    else (.error (.cardinality count (c.nodes.map s.document.path)), s)
  | .push => (.ok c, { s with saved := s.saved.push c })
  | .pop =>
    match s.saved.pop? with
    | some (c, saved) => (.ok c, { s with saved })
    | none => (.error .emptyStack, s)

/-! ## Scripts -/

/-- Executes the directives of a script, of which the first stands at `position`, up to the first
failure. -/
def runFrom (position : Nat) : Script → Cursor Node → State →
    Except ApplyError (Cursor Node) × State
  | [], c, s => (.ok c, s)
  | directive :: rest, c, s =>
    match execute directive c s with
    | (.ok c, s) => runFrom (position + 1) rest c s
    | (.error cause, s) => (.error ⟨position, directive, cause⟩, s)

def start : Cursor Node := .single (.stored Document.root)

/-- Executes a script on a document, starting at the document node. What was done before a
failure stays done. -/
def apply (script : Script) (d : Document) : Except ApplyError Unit × Document :=
  let (r, s) := runFrom 1 script start { document := d }
  (r.map fun _ => (), s.document)

end Engine

end XmlScript
