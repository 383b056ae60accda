import XmlScript.Directive
import XmlScript.Document.Basic
import XmlScript.Text.Blank

/-!
# Copying documents into scripts

`Document.copy` is a script that makes a part of a document again: executed on an empty element
it gives that element the attributes and the content of another. Text that is all an element has
is set at once; between other nodes text is added piece by piece as character data, and spaces
alone are left out. Names lose their namespaces.
-/

namespace XmlScript

/-! ## Commands -/

mutual

/-- The commands that append a tree to the current nodes and end at them again. -/
def Tree.commands : Tree → List (Command String)
  | .element label attributes children =>
    .addElement label.name.localPart :: (contentCommands attributes children ++ [.up])
  | .text s _ => if Text.isBlank s.toList then [] else [.addCData s]
  | .comment s => [.addComment s]
  | .instruction target data? => [.addInstruction target (data?.getD "")]

/-- The commands that append trees. -/
def treeCommands : List Tree → List (Command String)
  | [] => []
  | t :: rest => Tree.commands t ++ treeCommands rest

/-- The commands that give the current elements attributes and children. -/
def contentCommands (attributes : List Attribute) (children : List Tree) : List (Command String) :=
  let set : List (Command String) :=
    attributes.map fun a => .setAttribute a.name.localPart a.value
  if !children.isEmpty && children.all Tree.isText then set ++ [.setText (Tree.textBelow children)]
  else set ++ treeCommands children

end

/-! ## Scripts -/

/-- The commands that make the content of a node again; only elements and the document node have
any. -/
def Document.copyCommands (d : Document) : Node → List (Command String)
  | .binding _ _ _ => []
  | .stored n =>
    match (d.entry n).content with
    | .document => treeCommands (d.treesBelow n)
    | .element _ => contentCommands (d.attributesOf n) (d.treesBelow n)
    | .attribute _ | .text _ _ | .comment _ | .instruction _ _ => []

/-- The script that makes the content of a node again, refused for a character that no script can
carry. -/
def Document.copy (d : Document) (n : Node) : Except ContentError Script :=
  (d.copyCommands n).mapM Command.validate

end XmlScript
