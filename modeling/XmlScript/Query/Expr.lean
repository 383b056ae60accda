import XmlScript.Decimal

/-!
# Path queries

The expressions that select nodes of a document or compute a value from it. Paths are kept step
by step: `a/b` is a `step` whose source is another `step`, and the first step starts from the
document node or from the context node.
-/

namespace XmlScript.Query

inductive Axis where
  | ancestor | ancestorOrSelf | attributes | child | descendant | descendantOrSelf
  | following | followingSibling | bindings | parent | preceding | precedingSibling | self
  deriving DecidableEq, Repr

namespace Axis

def all : List Axis :=
  [ancestorOrSelf, ancestor, attributes, child, descendantOrSelf, descendant, followingSibling,
    following, bindings, parent, precedingSibling, preceding, self]

def text : Axis → String
  | ancestor => "ancestor"
  | ancestorOrSelf => "ancestor-or-self"
  | attributes => "attribute"
  | child => "child"
  | descendant => "descendant"
  | descendantOrSelf => "descendant-or-self"
  | following => "following"
  | followingSibling => "following-sibling"
  | bindings => "namespace"
  | parent => "parent"
  | preceding => "preceding"
  | precedingSibling => "preceding-sibling"
  | self => "self"

end Axis

/-- A name that may have a prefix. -/
structure PrefixedName where
  alias? : Option String := none
  localPart : String
  deriving DecidableEq, Repr

/-- What a step keeps of the nodes of its axis. -/
inductive NodeTest where
  /-- Nodes of the principal kind of the axis with any name. -/
  | anyName
  /-- Nodes of the principal kind with a name that has the prefix, whatever its local part. -/
  | anyNameIn (short : String)
  /-- Nodes of the principal kind with the name. -/
  | name (name : PrefixedName)
  | comment
  | text
  /-- Instructions, or those with the target only. -/
  | instruction (target? : Option String)
  | node
  deriving DecidableEq, Repr

/-- The operators that stand between two expressions. -/
inductive Operator where
  | or | and | equal | notEqual | less | lessEqual | greater | greaterEqual
  | add | subtract | multiply | divide | remainder | union
  deriving DecidableEq, Repr

/-- How tightly an operator binds, from zero. The sign of a number binds at `signLevel`, between
multiplication and union. -/
def Operator.level : Operator → Nat
  | or => 0
  | and => 1
  | equal | notEqual => 2
  | less | lessEqual | greater | greaterEqual => 3
  | add | subtract => 4
  | multiply | divide | remainder => 5
  | union => 7

/-- The level of a sign. -/
def signLevel : Nat := 6

/-- The level of a path, which no operator has. -/
def pathLevel : Nat := 8

inductive Expr where
  | root
  | context
  | number (value : Decimal)
  | literal (text : String)
  | reference (name : PrefixedName)
  | call (name : PrefixedName) (arguments : List Expr)
  | negation (e : Expr)
  | binary (op : Operator) (left right : Expr)
  /-- The nodes of `e`, counted in document order, for which the predicate holds. -/
  | filter (e predicate : Expr)
  /-- From each node of `source` the nodes of an axis that pass the test and then each of the
  predicates, counted in the order of the axis. -/
  | step (source : Expr) (axis : Axis) (test : NodeTest) (predicates : List Expr)
  deriving Repr

end XmlScript.Query
