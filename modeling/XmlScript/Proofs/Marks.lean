import XmlScript.Proofs.Elements
import XmlScript.Proofs.Growth

/-!
# Comments and instructions among elements

What stands in an element besides text: other elements, comments and instructions, in their order
(`Mark`). The marks in a document element by element, with those at the top level in front, are the
marks in its trees (`Linked.marks_trees`, `Linked.rows_trees`).
-/

namespace XmlScript

/-- A child that is no text. Of an element it is said only that there is one. -/
inductive Mark where
  | element
  | comment (s : String)
  | instruction (target : String) (data? : Option String)
  deriving DecidableEq, Repr

/-- What the reader makes of a mark: the blanks before the data of an instruction are lost. -/
def Mark.read : Mark → Mark
  | element => element
  | comment s => comment s
  | instruction target data? =>
    instruction target (data?.map fun data => String.ofList (Markup.skipBlanks data.toList))

def Content.mark? : Content → Option Mark
  | .element _ => some .element
  | .comment s => some (.comment s)
  | .instruction target data? => some (.instruction target data?)
  | .document | .attribute _ | .text _ _ => none

namespace Tree

variable {trees rest : List Tree}

/-- The marks among neighbouring trees. -/
def marks (trees : List Tree) : List Mark := trees.filterMap (·.content.mark?)

/-- The marks in every element among neighbouring trees and in them, in document order. -/
abbrev rows : List Tree → List (List Mark) := collect fun _ _ children => marks children

theorem rows_nil : rows [] = [] := by rw [rows, collect]

theorem rows_cons_element {label : Label} {attributes : List Attribute} {children : List Tree} :
    rows (element label attributes children :: rest) =
      marks children :: (rows children ++ rows rest) := by
  rw [rows, collect]

theorem rows_cons_leaf {t : Tree} (ht : t.isElement = false) : rows (t :: rest) = rows rest := by
  cases t with
  | element => cases ht
  | text | comment | instruction => rw [rows, collect]

theorem marks_append : marks (trees ++ rest) = marks trees ++ marks rest :=
  List.filterMap_append

end Tree

namespace Document

variable {d : Document} {n : NodeId}

def markAt? (d : Document) (n : NodeId) : Option Mark := (d.entry n).content.mark?

/-- The marks among the children of a node. -/
def marksIn (d : Document) (n : NodeId) : List Mark := (d.entry n).children.filterMap d.markAt?

theorem Linked.marks_treesBelow (h : d.Linked) (n : NodeId) :
    Tree.marks (d.treesBelow n) = d.marksIn n := by
  unfold Tree.marks treesBelow marksIn
  rw [List.filterMap_filterMap]
  refine List.filterMap_congr fun c hc => ?_
  unfold markAt?
  rw [h.tree?_eq (h.lt_of_mem_children hc)]
  split
  next hcontent => rw [hcontent]; rfl
  next hcontent => rw [hcontent]; rfl
  next hcontent => rw [hcontent]; rfl
  next hcontent => rw [hcontent]; rfl
  next hcontent => rw [hcontent]; rfl
  next hcontent => rw [hcontent]; rfl

theorem Linked.marks_trees (h : d.Linked) : Tree.marks d.trees = d.marksIn root :=
  h.marks_treesBelow root

theorem Linked.rows_trees (h : d.Linked) (hh : d.Housed) :
    Tree.rows d.trees = d.elements.map d.marksIn :=
  h.collect_trees hh fun n _ _ => (h.marks_treesBelow n).symm

end Document

end XmlScript
