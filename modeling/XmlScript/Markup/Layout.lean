import XmlScript.Markup.Piece
import XmlScript.Tree

/-!
# Laying out a written document

A written document knows nothing of character data, and it stands on one line. `relayout` goes
through its pieces, puts each piece of text back together from the run of text nodes that it came
from, character data in sections, and indents what stands between texts. Text that is kept is
never touched by the indentation: no line break is put next to it.
-/

namespace XmlScript.Markup

/-! ## Runs of text -/

/-- Neighbouring text nodes; each is marked when it is character data. -/
abbrev Run := List (String × Bool)

/-- Whether a run has character data in it. -/
def Run.hasCData (run : Run) : Bool := run.any (·.2)

/-- A run, unless all its texts are empty: then nothing of it is written. -/
def Run.kept (run : Run) : List Run := if run.any (!·.1.isEmpty) then [run] else []

/-- The runs among neighbouring trees and below them in document order; `run` are the text nodes
right before them. -/
def runsFrom (run : Run) : List Tree → List Run
  | [] => run.kept
  | .text s isCData :: rest => runsFrom (run ++ [(s, isCData)]) rest
  | .element _ _ children :: rest => run.kept ++ runsFrom [] children ++ runsFrom [] rest
  | .comment _ :: rest => run.kept ++ runsFrom [] rest
  | .instruction _ _ :: rest => run.kept ++ runsFrom [] rest

/-- The runs of a document whose document node has the given children. -/
def textRuns (trees : List Tree) : List Run :=
  trees.flatMap fun
    | .element _ _ children => runsFrom [] children
    | _ => []

/-! ## Sections -/

/-- The pieces of a text around the places where `mark` stands. -/
def splitAtMark (mark : List Char) : (bound : Nat) → List Char → List (List Char)
  | 0, s => [s]
  | bound + 1, s =>
    match Text.cutAt mark s with
    | none => [s]
    | some (before, after) => before :: splitAtMark mark bound after

/-- Puts back, in halves at either side, the section ends between the parts of a text. -/
def glueSections : (isFirst : Bool) → List (List Char) → List (List Char)
  | _, [] => []
  | isFirst, [last] => [if isFirst then last else '>' :: last]
  | isFirst, part :: rest =>
    ((if isFirst then part else '>' :: part) ++ [']', ']']) :: glueSections false rest

/-- Divides a text so that no part holds the end of a section. -/
def cdataSections (s : List Char) : List (List Char) :=
  glueSections true (splitAtMark "]]>".toList s.length s)

/-- A character of plain text next to character data. -/
def escapeMixed (c : Char) : List Char :=
  if c = '<' then "&lt;".toList
  else if c = '>' then "&gt;".toList
  else if c = '&' then "&amp;".toList
  else if c = '\'' then "&apos;".toList
  else if c = '"' then "&quot;".toList
  else [c]

/-! ## Layout -/

/-- What stands before the place that the layout has got to. -/
structure Line where
  level : Nat := 0
  /-- Whether a line break goes before the next piece that is not text. -/
  breaksLine : Bool := false
  deriving DecidableEq, Repr

/-- The line break and the blanks before a piece. -/
def lineStart (width? : Option Nat) (breaksLine : Bool) (level : Nat) : List Char :=
  match width? with
  | some width => if breaksLine then '\n' :: List.replicate (width * level) ' ' else []
  | none => []

def Piece.written : Piece → List Char
  | .text s => s
  | .startTag s => '<' :: (s ++ ['>'])
  | .emptyTag s => '<' :: (s ++ "/>".toList)
  | .endTag name => "</".toList ++ name ++ ['>']
  | .comment s => "<!--".toList ++ s ++ "-->".toList
  | .cdata s => "<![CDATA[".toList ++ s ++ "]]>".toList
  | .instruction s => "<?".toList ++ s ++ "?>".toList
  | .doctype s => "<!DOCTYPE ".toList ++ s ++ ['>']

/-- Writes a piece that has been cut out, and says where the layout then is. -/
def place (width? : Option Nat) (line : Line) (p : Piece) : List Char × Line :=
  match p with
  | .text _ => (p.written, { line with breaksLine := false })
  | .cdata _ => (p.written, { line with breaksLine := false })
  | .startTag _ =>
    (lineStart width? line.breaksLine line.level ++ p.written, ⟨line.level + 1, true⟩)
  | .endTag _ =>
    let level := line.level - 1
    (lineStart width? line.breaksLine level ++ p.written, ⟨level, true⟩)
  | _ =>
    (lineStart width? line.breaksLine line.level ++ p.written, { line with breaksLine := true })

/-- The pieces of a run that has character data in it. -/
def Run.pieces (run : Run) : List Piece :=
  run.flatMap fun (s, isCData) =>
    if s.isEmpty then []
    else if isCData then (cdataSections s.toList).map .cdata
    else [.text (s.toList.flatMap escapeMixed)]

/-- What becomes of a piece of text that came from a run: with character data it is put together
again, and otherwise it loses its blanks at both ends when lines are indented. -/
def textPieces (width? : Option Nat) (run : Run) (s : List Char) : List Piece :=
  if run.hasCData then run.pieces
  else if width?.isNone then [.text s]
  else
    let kept := Text.dropEndWhile Text.isMarkupBlank (s.dropWhile Text.isMarkupBlank)
    if kept.isEmpty then [] else [.text kept]

/-- Puts every piece of text back together from its run; the runs are in the order of the
pieces. -/
def withRuns (width? : Option Nat) : List Run → List Piece → List Piece
  | _, [] => []
  | runs, .text s :: rest => textPieces width? (runs.headD []) s ++ withRuns width? runs.tail rest
  | runs, p :: rest => p :: withRuns width? runs rest

/-- Writes pieces one after another. -/
def placeAll (width? : Option Nat) (line : Line) : List Piece → List Char
  | [] => []
  | p :: rest =>
    let (text, next) := place width? line p
    text ++ placeAll width? next rest

/-- Lays out a written document by the runs of text that it was written from; with a width, every
level is indented by so many blanks. -/
def relayout (width? : Option Nat) (runs : List Run) (s : List Char) :
    Except PieceError (List Char) :=
  (pieces s).map fun ps => placeAll width? {} (withRuns width? runs ps)

end XmlScript.Markup
