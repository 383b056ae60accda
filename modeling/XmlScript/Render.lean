import XmlScript.Document.Basic
import XmlScript.Markup.Layout
import XmlScript.Markup.Writer

/-!
# Rendering

`Document.render` is the text of a document by some options: with or without an XML declaration,
which may name the encoding, and with or without indentation. Character data is written in
sections either way.
-/

namespace XmlScript

structure RenderOptions where
  /-- Whether the XML declaration is written. -/
  declaration : Bool := true
  /-- Whether the XML declaration names the encoding. -/
  encoding : Bool := false
  /-- How many blanks a level is indented by; everything stands on one line for none or zero. -/
  indent? : Option Nat := none
  deriving DecidableEq, Repr

/-- Removes an XML declaration, and the spaces after it, from the front of a text. -/
def stripDeclaration (s : List Char) : List Char :=
  if "<?xml".toList.isPrefixOf s then
    match Text.cutAt "?>".toList s with
    | some (_, rest) => rest.dropWhile Text.isSpace
    | none => s
  else s

inductive RenderError where
  /-- An attribute is in a namespace that has no prefix. -/
  | missingAlias
  /-- A level would be indented by more blanks than a text can have. -/
  | tooWide
  /-- The written document cannot be cut into pieces. -/
  | layout (cause : Markup.PieceError)
  deriving DecidableEq, Repr

def RenderError.message : RenderError → String
  | missingAlias => "no namespace prefix for an attribute"
  | tooWide => "indentation is too wide"
  | layout cause => "failed to indent document: " ++ cause.message

/-- Whether an error ends the program and is not reported. -/
def RenderError.isFatal : RenderError → Bool
  | missingAlias | tooWide => true
  | layout _ => false

/-- The number of bytes from which on a text is too long. -/
def textLimit : Nat := 0x8000000000000000

def Document.render (d : Document) (options : RenderOptions) : Except RenderError (List Char) :=
  let trees := d.trees
  match Markup.write? options.encoding trees with
  | none => .error .missingAlias
  | some written =>
    let text := if options.declaration then written else stripDeclaration written
    let width? := options.indent?.filter (0 < ·)
    let runs := Markup.textRuns trees
    if width?.isNone ∧ ¬ runs.any Markup.Run.hasCData then .ok text
    else if width?.any (textLimit ≤ ·) ∧ trees.any Tree.hasChildren then .error .tooWide
    else (Markup.relayout width? runs text).mapError .layout

end XmlScript
