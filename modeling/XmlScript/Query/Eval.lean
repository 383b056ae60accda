import XmlScript.Distinct
import XmlScript.Query.Function
import XmlScript.Query.Parser

/-!
# Answering queries

`Query.select` is the list of nodes that a query selects from a node, in document order, and
`Query.evaluateText` the text that it has there. A query that cannot be read or evaluated, or
that should select nodes and does not, is an error that names the query.
-/

namespace XmlScript.Query

inductive EvalError where
  /-- A path, a predicate or a union is about something that is not nodes. -/
  | notNodes
  | unknownFunction (name : PrefixedName)
  | unknownVariable (name : PrefixedName)
  /-- No namespace is known for the prefix of a function or variable. -/
  | unknownAlias (short : String)
  | arguments (fault : ArgumentFault)
  /-- A name test with a prefix, for which no namespace is known, came upon a node with a
  name. -/
  | untestableAlias (short : String)
  deriving DecidableEq, Repr

def EvalError.message : EvalError → String
  | notNodes => "NotANodeset"
  | unknownFunction name => "unknown function " ++ Token.showPrefixed name
  | unknownVariable name => "unknown variable " ++ Token.showPrefixed name
  | unknownAlias short => "unknown namespace prefix " ++ short
  | arguments fault => "error while evaluating function: " ++ fault.message
  | untestableAlias short => "No namespace for prefix " ++ short

/-- Whether an error ends the program and is not reported: a name could not be resolved where
every name has to be. -/
def EvalError.isFatal : EvalError → Bool
  | untestableAlias _ | arguments .detachedAttribute => true
  | _ => false

/-! ## Steps -/

def onAxis (d : Document) (n : Node) : Axis → List Node
  | .ancestor => d.ancestors n
  | .ancestorOrSelf => n :: d.ancestors n
  | .attributes => d.attributes n
  | .child => d.children n
  | .descendant => (d.subtree n).drop 1
  | .descendantOrSelf => d.subtree n
  | .following => d.following n
  | .followingSibling => d.followingSiblings n
  | .bindings => d.bindings n
  | .parent => (d.above? n).toList
  | .preceding => d.preceding n
  | .precedingSibling => d.precedingSiblings n
  | .self => [n]

/-- The name of a node of the principal kind of an axis. -/
def principalName? (d : Document) (axis : Axis) (n : Node) : Option ExpandedName :=
  match axis, n, d.content? n with
  | .attributes, _, some (.attribute a) => some a.name
  | .attributes, _, _ => none
  | .bindings, .binding _ short _, _ => some ⟨none, short⟩
  | .bindings, _, _ => none
  | _, _, some (.element label) => some label.name
  | _, _, _ => none

/-- Whether a node on an axis passes a test. -/
def passes (d : Document) (axis : Axis) (test : NodeTest) (n : Node) : Except EvalError Bool :=
  match test with
  | .anyName => .ok (principalName? d axis n).isSome
  | .anyNameIn short | .name ⟨some short, _⟩ =>
    if (principalName? d axis n).isSome then .error (.untestableAlias short) else .ok false
  | .name ⟨none, localPart⟩ => .ok (principalName? d axis n == some (.plain localPart))
  | .comment =>
    .ok (match d.content? n with
      | some (.comment _) => true
      | _ => false)
  | .text =>
    .ok (match d.content? n with
      | some (.text _ _) => true
      | _ => false)
  | .instruction target? =>
    .ok (match d.content? n with
      | some (.instruction target _) => target? == none || target? == some target
      | _ => false)
  | .node => .ok true

/-- The nodes of an axis that pass a test. -/
def candidates (d : Document) (n : Node) (axis : Axis) (test : NodeTest) :
    Except EvalError (List Node) :=
  (onAxis d n axis).filterM (passes d axis test)

/-! ## Operators -/

/-- The nodes that a value has to be. -/
def nodesOf : Value → Except EvalError (List Node)
  | .nodes ns => .ok ns
  | _ => .error .notNodes

/-- The value of an operator that looks at both its operands. -/
def combine (d : Document) (op : Operator) (a b : Value) : Except EvalError Value :=
  let x := a.toNumber d
  let y := b.toNumber d
  match op with
  | .or => .ok (.boolean (a.toBool || b.toBool))
  | .and => .ok (.boolean (a.toBool && b.toBool))
  | .equal => .ok (.boolean (Value.equal d a b))
  | .notEqual => .ok (.boolean (!Value.equal d a b))
  | .less => .ok (.boolean (x < y))
  | .lessEqual => .ok (.boolean (x ≤ y))
  | .greater => .ok (.boolean (x > y))
  | .greaterEqual => .ok (.boolean (x ≥ y))
  | .add => .ok (.number (x + y))
  | .subtract => .ok (.number (x - y))
  | .multiply => .ok (.number (x * y))
  | .divide => .ok (.number (x / y))
  | .remainder => .ok (.number (remainder x y))
  | .union => (nodesOf a).bind fun ns => (nodesOf b).map fun ms => .nodes (distinct (ns ++ ms))

/-- What comes of an operator if its left operand alone decides it. -/
def decided? (op : Operator) (left : Value) : Option (Except EvalError Value) :=
  match op, left with
  | .or, v => if v.toBool then some (.ok (.boolean true)) else none
  | .and, v => if v.toBool then none else some (.ok (.boolean false))
  | .union, .nodes _ => none
  | .union, _ => some (.error .notNodes)
  | _, _ => none

/-! ## Evaluation -/

/-- Whether a predicate of a given value holds at a place: a number has to be that of the place,
fractions and signs left out. -/
def holds (focus : Focus) : Value → Bool
  | .number x => x.toUInt64.toNat == focus.position
  | v => v.toBool

/-- The nodes at which a predicate holds. -/
def keep (predicate : Focus → Except EvalError Value) (ns : List Node) :
    Except EvalError (List Node) :=
  let places : List Focus := ns.zipIdx.map fun (n, index) => ⟨n, index + 1, ns.length⟩
  let kept := places.filterM fun focus => (predicate focus).map (holds focus)
  kept.map fun places => places.map Focus.node

/-- Refuses a name whose prefix no namespace is known for. -/
def resolve (name : PrefixedName) : Except EvalError Unit :=
  match name.alias? with
  | some short => .error (.unknownAlias short)
  | none => .ok ()

/-- The function that a name denotes. -/
def functionNamed (name : PrefixedName) : Except EvalError Function :=
  (resolve name).bind fun _ =>
    match Function.ofText? name.localPart with
    | some f => .ok f
    | none => .error (.unknownFunction name)

mutual

def eval (d : Document) (focus : Focus) : Expr → Except EvalError Value
  | .root => .ok (.nodes [.stored Document.root])
  | .context => .ok (.nodes [focus.node])
  | .number value => .ok (.number value.toFloat)
  | .literal text => .ok (.text text)
  | .reference name => (resolve name).bind fun _ => .error (.unknownVariable name)
  | .call name arguments =>
    (functionNamed name).bind fun f =>
      (evalAll d focus arguments).bind fun values =>
        (f.apply d focus values).mapError .arguments
  | .negation e => (eval d focus e).map fun v => .number (-(v.toNumber d))
  | .binary op left right =>
    (eval d focus left).bind fun a =>
      match decided? op a with
      | some outcome => outcome
      | none => (eval d focus right).bind (combine d op a)
  | .filter e predicate =>
    -- places are those of the document order, not of an axis
    ((eval d focus e).bind nodesOf).bind fun ns =>
      (keep (fun focus => eval d focus predicate) (d.sorted ns)).map .nodes
  | .step source axis test predicates =>
    ((eval d focus source).bind nodesOf).bind fun ns =>
      (ns.mapM fun n =>
        (candidates d n axis test).bind (keepAll d predicates)).map fun found =>
          .nodes (distinct found.flatten)

def evalAll (d : Document) (focus : Focus) : List Expr → Except EvalError (List Value)
  | [] => .ok []
  | e :: rest => (eval d focus e).bind fun v => (evalAll d focus rest).map fun vs => v :: vs

/-- The nodes at which every one of some predicates holds, each counted among those that the
ones before it have left. -/
def keepAll (d : Document) : List Expr → List Node → Except EvalError (List Node)
  | [], ns => .ok ns
  | predicate :: rest, ns =>
    (keep (fun focus => eval d focus predicate) ns).bind (keepAll d rest)

end

/-! ## Queries -/

/-- What is wrong with a query. -/
inductive Cause where
  | malformed (fault : Fault)
  | failed (error : EvalError)
  | notNodes
  deriving DecidableEq, Repr

end Query

/-- A query and what is wrong with it. -/
structure QueryError where
  query : String
  cause : Query.Cause
  deriving DecidableEq, Repr

def QueryError.message (e : QueryError) : String :=
  match e.cause with
  | .malformed fault => "malformed query `" ++ e.query ++ "`: " ++ fault.message
  | .failed error => "query `" ++ e.query ++ "` failed: " ++ error.message
  | .notNodes => "query `" ++ e.query ++ "` does not select nodes"

/-- Whether what is wrong with a query ends the program. -/
def QueryError.isFatal (e : QueryError) : Bool :=
  match e.cause with
  | .failed error => error.isFatal
  | .malformed _ | .notNodes => false

namespace Query

def evaluate (query : String) (n : Node) (d : Document) : Except QueryError Value :=
  ((parse query).mapError fun fault => ⟨query, .malformed fault⟩).bind fun e =>
    (eval d ⟨n, 1, 1⟩ e).mapError fun error => ⟨query, .failed error⟩

/-- The nodes that a query selects from a node, in document order. -/
def select (query : String) (n : Node) (d : Document) : Except QueryError (List Node) :=
  (evaluate query n d).bind fun
    | .nodes ns => .ok (d.sorted ns)
    | _ => .error ⟨query, .notNodes⟩

/-- The text that a query has at a node. -/
def evaluateText (query : String) (n : Node) (d : Document) : Except QueryError String :=
  (evaluate query n d).map (Value.toText d)

end Query

end XmlScript
