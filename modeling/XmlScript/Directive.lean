import XmlScript.Literal

/-!
# Directives

A directive is one statement of a script. The set of commands is closed: a keyword fixes how
many arguments follow it, and `Directive.ofArguments` is the only way from a keyword and its
arguments to a directive. `Directive.statement` writes one back out.
-/

namespace XmlScript

/-! ## Keywords -/

/-- The keywords of the script language. -/
inductive Keyword where
  | add | addif | remove | set | attr | xattr | xset | comment
  | cdata | pi | ns | up | xpath | strict | push | pop
  deriving DecidableEq, Repr

namespace Keyword

/-- Every keyword, in the order in which the language lists them. -/
def all : List Keyword :=
  [add, addif, remove, set, attr, xattr, xset, comment, cdata, pi, ns, up, xpath, strict, push, pop]

/-- A keyword as it is written. Keywords are case-sensitive. -/
def text : Keyword → String
  | add => "ADD"
  | addif => "ADDIF"
  | remove => "REMOVE"
  | set => "SET"
  | attr => "ATTR"
  | xattr => "XATTR"
  | xset => "XSET"
  | comment => "COMMENT"
  | cdata => "CDATA"
  | pi => "PI"
  | ns => "NS"
  | up => "UP"
  | xpath => "XPATH"
  | strict => "STRICT"
  | push => "PUSH"
  | pop => "POP"

/-- How many quoted arguments follow a keyword. -/
def arity : Keyword → Nat
  | remove | up | push | pop => 0
  | add | addif | set | xset | comment | cdata | ns | xpath | strict => 1
  | attr | xattr | pi => 2

/-- The keyword with a given spelling. -/
def ofText? (s : String) : Option Keyword := all.find? (·.text = s)

theorem mem_all (k : Keyword) : k ∈ all := by cases k <;> decide

theorem ofText?_text (k : Keyword) : ofText? k.text = some k := by cases k <;> decide

/-- A keyword is found by its own spelling only. -/
theorem text_of_ofText? {s : String} {k : Keyword} (h : ofText? s = some k) : k.text = s := by
  simpa using List.find?_some h

end Keyword

/-! ## Commands and directives -/

/-- One instruction to the engine, over texts of type `α`. -/
inductive Command (α : Type) where
  /-- Appends a new element to every current node. -/
  | addElement (name : α)
  /-- Moves to a child of that name, ignoring ASCII case, and creates it where there is none. -/
  | ensureElement (name : α)
  /-- Detaches the current nodes and moves to their parents. -/
  | remove
  | setText (text : α)
  | setAttribute (name value : α)
  /-- Sets an attribute to the string that a query has at each node. -/
  | computeAttribute (name query : α)
  /-- Replaces the text content by the string that a query has at each node. -/
  | computeText (query : α)
  | addComment (text : α)
  /-- Appends character data, which is written as a section of its own. -/
  | addCData (text : α)
  /-- Appends a processing instruction, or puts it before the document element when no node
  is current. -/
  | addInstruction (target data : α)
  /-- Sets the attribute `xmlns`. -/
  | setNamespace (uri : α)
  | up
  /-- Moves to the nodes that a query selects from the document node. -/
  | select (query : α)
  /-- Fails unless exactly `count` nodes are current. -/
  | expect (count : UInt64)
  | push
  | pop
  deriving DecidableEq, Repr

/-- A directive is a command whose texts can be carried by a script. -/
abbrev Directive := Command Arg

/-- A script is a sequence of directives. -/
abbrev Script := List Directive

namespace Command

/-- Replaces the texts of a command, in the order in which they are written, and stops at the
first that fails. -/
def traverse {α β ε : Type} (f : α → Except ε β) : Command α → Except ε (Command β)
  | addElement name => (f name).map addElement
  | ensureElement name => (f name).map ensureElement
  | remove => .ok remove
  | setText text => (f text).map setText
  | setAttribute name value => (f name).bind fun n => (f value).map (setAttribute n)
  | computeAttribute name query => (f name).bind fun n => (f query).map (computeAttribute n)
  | computeText query => (f query).map computeText
  | addComment text => (f text).map addComment
  | addCData text => (f text).map addCData
  | addInstruction target data => (f target).bind fun t => (f data).map (addInstruction t)
  | setNamespace uri => (f uri).map setNamespace
  | up => .ok up
  | select query => (f query).map select
  | expect count => .ok (expect count)
  | push => .ok push
  | pop => .ok pop

/-- The directive that a command over plain texts denotes, refused for the first illegal
character. -/
def validate : Command String → Except ContentError Directive := traverse Arg.ofText

def keyword {α : Type} : Command α → Keyword
  | addElement _ => .add
  | ensureElement _ => .addif
  | remove => .remove
  | setText _ => .set
  | setAttribute _ _ => .attr
  | computeAttribute _ _ => .xattr
  | computeText _ => .xset
  | addComment _ => .comment
  | addCData _ => .cdata
  | addInstruction _ _ => .pi
  | setNamespace _ => .ns
  | up => .up
  | select _ => .xpath
  | expect _ => .strict
  | push => .push
  | pop => .pop

end Command

/-- What is wrong with the arguments of a keyword. -/
inductive ArgumentError where
  /-- The keyword takes another number of arguments. -/
  | arity (keyword : Keyword) (found : Nat)
  /-- The text is no numeral of a number below 2^64. -/
  | count (text : String)
  deriving DecidableEq, Repr

def ArgumentError.message : ArgumentError → String
  | .arity keyword found =>
    keyword.text ++ " expects " ++ toString keyword.arity ++ " argument" ++
      (if keyword.arity = 1 then "" else "s") ++ ", found " ++ toString found
  | .count text => "'" ++ text ++ "' is not a valid node count"

namespace Directive

open Command

/-- The texts of the arguments that follow the keyword of a directive. -/
def operands : Directive → List (List Char)
  | remove | up | push | pop => []
  | addElement a | ensureElement a | setText a | computeText a | addComment a | addCData a
  | setNamespace a | select a => [a.raw.toList]
  | setAttribute a b | computeAttribute a b | addInstruction a b =>
    [a.raw.toList, b.raw.toList]
  | expect count => [Nat.toDigits 10 count.toNat]

/-- A directive has as many operands as its keyword takes arguments. -/
theorem length_operands (d : Directive) : d.operands.length = d.keyword.arity := by
  cases d <;> rfl

/-- A directive as it is written in a script, without the semicolon. -/
def statement (d : Directive) : List Char :=
  match d.operands with
  | [] => d.keyword.text.toList
  | operands =>
    d.keyword.text.toList ++ ' ' :: [',', ' '].intercalate (operands.map Literal.encode)

def text (d : Directive) : String := String.ofList d.statement

/-- The node count that an argument denotes. -/
def count? (a : Arg) : Option UInt64 :=
  (Text.readUnsigned 10 a.raw.toList).bind fun n =>
    if n < UInt64.size then some (UInt64.ofNat n) else none

/-- The directive of a keyword with the given arguments. -/
def ofArguments : Keyword → List Arg → Except ArgumentError Directive
  | .add, [name] => .ok (addElement name)
  | .addif, [name] => .ok (ensureElement name)
  | .remove, [] => .ok remove
  | .set, [text] => .ok (setText text)
  | .attr, [name, value] => .ok (setAttribute name value)
  | .xattr, [name, query] => .ok (computeAttribute name query)
  | .xset, [query] => .ok (computeText query)
  | .comment, [text] => .ok (addComment text)
  | .cdata, [text] => .ok (addCData text)
  | .pi, [target, data] => .ok (addInstruction target data)
  | .ns, [uri] => .ok (setNamespace uri)
  | .up, [] => .ok up
  | .xpath, [query] => .ok (select query)
  | .strict, [n] =>
    match count? n with
    | some count => .ok (expect count)
    | none => .error (.count n.raw)
  | .push, [] => .ok push
  | .pop, [] => .ok pop
  | keyword, arguments => .error (.arity keyword arguments.length)

end Directive

end XmlScript
