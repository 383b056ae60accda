import XmlScript.Query.Value
import XmlScript.Text.Cut

/-!
# Functions of queries

The functions that a query can call. `Function.arity` says how many arguments each takes, and
`Function.apply` what it makes of them. A function that may be called without an argument is then
about the context node.
-/

namespace XmlScript.Query

/-- Where an expression is evaluated: at a node, which is one of several. -/
structure Focus where
  node : Node
  /-- The number of the node among those that are looked at, from one. -/
  position : Nat := 1
  /-- How many nodes are looked at. -/
  size : Nat := 1
  deriving DecidableEq, Repr

inductive Function where
  | last | position | count | localName | namespaceUri | name
  | string | concat | startsWith | contains | substringBefore | substringAfter | substring
  | stringLength | normalizeSpace | translate
  | boolean | not | true | false
  | number | sum | floor | ceiling | round
  deriving DecidableEq, Repr

/-- What is wrong with the arguments of a call. -/
inductive ArgumentFault where
  | tooFew (expected actual : Nat)
  | tooMany (expected actual : Nat)
  /-- The argument has to be nodes but is of another kind. -/
  | notNodes (kind : String)
  /-- The argument is an attribute that belongs to no element. -/
  | detachedAttribute
  deriving DecidableEq, Repr

def ArgumentFault.message : ArgumentFault → String
  | tooFew expected actual =>
    "not enough arguments, expected " ++ toString expected ++ " but had " ++ toString actual
  | tooMany expected actual =>
    "too many arguments, expected " ++ toString expected ++ " but had " ++ toString actual
  | notNodes kind => "argument was expected to be a nodeset but was a " ++ kind
  | detachedAttribute => "argument is an attribute without an element"

namespace Function

def all : List Function :=
  [last, position, count, localName, namespaceUri, name, string, concat, startsWith, contains,
    substringBefore, substringAfter, substring, stringLength, normalizeSpace, translate, boolean,
    not, true, false, number, sum, floor, ceiling, round]

def text : Function → String
  | last => "last"
  | position => "position"
  | count => "count"
  | localName => "local-name"
  | namespaceUri => "namespace-uri"
  | name => "name"
  | string => "string"
  | concat => "concat"
  | startsWith => "starts-with"
  | contains => "contains"
  | substringBefore => "substring-before"
  | substringAfter => "substring-after"
  | substring => "substring"
  | stringLength => "string-length"
  | normalizeSpace => "normalize-space"
  | translate => "translate"
  | boolean => "boolean"
  | not => "not"
  | true => "true"
  | false => "false"
  | number => "number"
  | sum => "sum"
  | floor => "floor"
  | ceiling => "ceiling"
  | round => "round"

/-- The function of a given name. -/
def ofText? (s : String) : Option Function := all.find? (·.text = s)

/-- How many arguments a function takes at least, and at most if there is a limit. -/
def arity : Function → Nat × Option Nat
  | last | position | true | false => (0, some 0)
  | localName | namespaceUri | name | string | stringLength | normalizeSpace | number => (0, some 1)
  | count | boolean | not | sum | floor | ceiling | round => (1, some 1)
  | startsWith | contains | substringBefore | substringAfter => (2, some 2)
  | substring => (2, some 3)
  | translate => (3, some 3)
  | concat => (2, none)

/-- Refuses a number of arguments that a function does not take. -/
def checkArity (f : Function) (actual : Nat) : Except ArgumentFault Unit :=
  if actual < f.arity.1 then .error (.tooFew f.arity.1 actual)
  else
    match f.arity.2 with
    | some most => if most < actual then .error (.tooMany most actual) else .ok ()
    | none => .ok ()

/-! ## Texts -/

/-- The characters from the place `start` on, `length` of them; places are counted from one. -/
def slice (s : List Char) (start length : Float) : List Char :=
  let inside (index : Nat) : Bool :=
    let place := Float.ofNat (index + 1)
    start ≤ place && place < start + length
  (s.zipIdx.filter fun (_, index) => inside index).map (·.1)

/-- Words with one space between them, where words are what markup blanks separate. -/
def normalize (s : List Char) : List Char :=
  [' '].intercalate ((s.splitOnP Text.isMarkupBlank).filter (!·.isEmpty))

/-- What becomes of a character when those of `source` are replaced by those of `target` at the
same place and the rest of `source` is dropped. The first place counts. -/
def translateChar (source target : List Char) (c : Char) : Option Char :=
  match source.idxOf? c with
  | none => some c
  | some index => target[index]?

/-! ## Numbers -/

/-- Whether a number has a minus sign, which zero may have too. -/
def isSigned (x : Float) : Bool := decide (Nat.pow 2 63 ≤ x.toBits.toNat)

/-- The nearest whole number, the upper one of two. The sign of the number is kept. -/
def roundUp (x : Float) : Float :=
  let below := x.floor
  if x == below then x
  else
    let whole := (2 * x - below).floor
    if isSigned x == isSigned whole then whole else -whole

/-! ## Application -/

/-- The word for the kind of a value that is not nodes. -/
def kindWord : Value → String
  | .boolean _ => "Boolean"
  | .number _ => "Number"
  | .text _ => "String"
  | .nodes _ => "Nodeset"

/-- The nodes that an argument has to be. -/
def expectNodes : Value → Except ArgumentFault (List Node)
  | .nodes ns => .ok ns
  | v => .error (.notNodes (kindWord v))

/-- The name of a node with its prefix, refused where it is not known. -/
def nameOf (d : Document) (n : Node) : Except ArgumentFault String :=
  match d.qualifiedName? n with
  | some s => .ok s
  | none => .error .detachedAttribute

/-- A text about the first node of the argument, or about the context node. -/
def describeFirst (d : Document) (focus : Focus) (describe : Node → Except ArgumentFault String)
    (arguments : List Value) : Except ArgumentFault Value :=
  match arguments with
  | [] => (describe focus.node).map .text
  | v :: _ => (expectNodes v).bind fun ns =>
    match d.sorted ns with
    | [] => .ok (.text "")
    | n :: _ => (describe n).map .text

/-- The value of a function at arguments whose number suits it. -/
def value (d : Document) (focus : Focus) (f : Function) (arguments : List Value) :
    Except ArgumentFault Value :=
  let argument (i : Nat) : Value := arguments.getD i (.text (d.stringValue focus.node))
  let textOf (i : Nat) : String := (argument i).toText d
  let charsOf (i : Nat) : List Char := (textOf i).toList
  let numberOf (i : Nat) : Float := (argument i).toNumber d
  match f with
  | last => .ok (.number (Float.ofNat focus.size))
  | position => .ok (.number (Float.ofNat focus.position))
  | count => (expectNodes (argument 0)).map fun ns => .number (Float.ofNat ns.length)
  | localName => describeFirst d focus (fun n => .ok (d.localName n)) arguments
  | namespaceUri => describeFirst d focus (fun n => .ok (d.spaceUri n)) arguments
  | name => describeFirst d focus (nameOf d) arguments
  | string => .ok (.text (textOf 0))
  | concat => .ok (.text (String.join (arguments.map (·.toText d))))
  | startsWith => .ok (.boolean ((charsOf 1).isPrefixOf (charsOf 0)))
  | contains => .ok (.boolean (Text.cutAt (charsOf 1) (charsOf 0)).isSome)
  | substringBefore =>
    .ok (.text (match Text.cutAt (charsOf 1) (charsOf 0) with
      | some (before, _) => String.ofList before
      | none => ""))
  | substringAfter =>
    .ok (.text (match Text.cutAt (charsOf 1) (charsOf 0) with
      | some (_, after) => String.ofList after
      | none => ""))
  | substring =>
    let length := if arguments.length = 3 then roundUp (numberOf 2) else infinity
    .ok (.text (String.ofList (slice (charsOf 0) (roundUp (numberOf 1)) length)))
  | stringLength => .ok (.number (Float.ofNat (charsOf 0).length))
  | normalizeSpace => .ok (.text (String.ofList (normalize (charsOf 0))))
  | translate =>
    .ok (.text (String.ofList ((charsOf 0).filterMap (translateChar (charsOf 1) (charsOf 2)))))
  | boolean => .ok (.boolean (argument 0).toBool)
  | not => .ok (.boolean (!(argument 0).toBool))
  | true => .ok (.boolean Bool.true)
  | false => .ok (.boolean Bool.false)
  | number => .ok (.number (numberOf 0))
  | sum => (expectNodes (argument 0)).map fun ns =>
    .number ((d.sorted ns).foldl (fun total n => total + textNumber (d.stringValue n)) 0)
  | floor => .ok (.number (numberOf 0).floor)
  | ceiling => .ok (.number (numberOf 0).ceil)
  | round => .ok (.number (roundUp (numberOf 0)))

/-- The value of a function, refused if it is called with too few or too many arguments or with
arguments of a wrong kind. -/
def apply (d : Document) (focus : Focus) (f : Function) (arguments : List Value) :
    Except ArgumentFault Value :=
  (f.checkArity arguments.length).bind fun _ => f.value d focus arguments

end Function

end XmlScript.Query
