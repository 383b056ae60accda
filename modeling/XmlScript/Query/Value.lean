import XmlScript.Decimal.Shortest
import XmlScript.Document.Around
import XmlScript.Text.Blank

/-!
# Values of queries

A query yields a truth value, a number, a text or some nodes of a document. Each kind converts
to the first three, and `Value.equal` says which conversions an equation makes.
-/

namespace XmlScript.Query

inductive Value where
  | boolean (b : Bool)
  | number (x : Float)
  | text (s : String)
  /-- Nodes without repetitions, in no particular order. -/
  | nodes (ns : List Node)

/-! ## Numbers as text -/

/-- What is no number. -/
def notANumber : Float := 0.0 / 0.0

/-- What is above every number. -/
def infinity : Float := 1.0 / 0.0

/-- A number as text: the shortest digits that read back, never with an exponent. -/
def numberText (x : Float) : String :=
  if x.isNaN then "NaN"
  else if x.isInf then if x < 0 then "-Infinity" else "Infinity"
  else String.ofList (Decimal.ofFloat x).positional

/-- The infinite numbers and the one that is none, as they are read, without sign. -/
def numberWord? (s : String) : Option Float :=
  if Text.eqIgnoringCase s "inf" || Text.eqIgnoringCase s "infinity" then some infinity
  else if Text.eqIgnoringCase s "nan" then some notANumber
  else none

/-- Reads a number word with an optional sign. -/
def readNumberWord (s : List Char) : Option Float :=
  match s with
  | '-' :: rest => (numberWord? (String.ofList rest)).map fun x => -x
  | '+' :: rest => numberWord? (String.ofList rest)
  | _ => numberWord? (String.ofList s)

/-- The number that a text denotes, spaces around it aside. -/
def textNumber (s : String) : Float :=
  let trimmed := Text.trim s.toList
  match Decimal.read? trimmed with
  | some x => x.toFloat
  | none => (readNumberWord trimmed).getD notANumber

/-- Whether a number counts as true. -/
def isTrueNumber (x : Float) : Bool := !(x == 0 || x.isNaN)

namespace Value

/-! ## Conversions -/

/-- A value as text: of nodes the string value of the first one. -/
def toText (d : Document) : Value → String
  | boolean b => if b then "true" else "false"
  | number x => numberText x
  | text s => s
  | nodes ns =>
    match d.sorted ns with
    | [] => ""
    | n :: _ => d.stringValue n

def toNumber (d : Document) : Value → Float
  | boolean b => if b then 1.0 else 0.0
  | number x => x
  | text s => textNumber s
  | nodes ns => textNumber (toText d (nodes ns))

def toBool : Value → Bool
  | boolean b => b
  | number x => isTrueNumber x
  | text s => !s.isEmpty
  | nodes ns => !ns.isEmpty

/-! ## Comparisons -/

def strings (d : Document) (ns : List Node) : List String := ns.map d.stringValue

/-- Equality. A comparison with nodes holds if it holds for one of them; otherwise both sides
are converted to truth values if one is, else to numbers if one is, else to texts. -/
def equal (d : Document) (a b : Value) : Bool :=
  match a, b with
  | nodes ns, nodes ms => (strings d ns).any (strings d ms).contains
  | nodes ns, number x => (strings d ns).any fun s => textNumber s == x
  | number x, nodes ns => (strings d ns).any fun s => textNumber s == x
  | nodes ns, text s => (strings d ns).contains s
  | text s, nodes ns => (strings d ns).contains s
  | boolean x, y => x == y.toBool
  | x, boolean y => x.toBool == y
  | number x, y => x == y.toNumber d
  | x, number y => x.toNumber d == y
  | text s, text t => s == t

end Value

end XmlScript.Query
