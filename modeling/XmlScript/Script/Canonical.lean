import XmlScript.Directive
import XmlScript.Text.Blank

/-!
# Canonical text of a script

Statements follow one another without blanks, each with its semicolon. Once the statements of
a line have more than `margin` characters, the next statement opens a new line and is labelled
with its number, which readers of the text ignore.
-/

namespace XmlScript.Script

/-- How many characters the statements of a line may have before the line ends. -/
def margin : Nat := 80

/-- The text of the directives from number `index` on, where the line so far has `width`
characters in statements. -/
def canonicalFrom (index width : Nat) : Script → List Char
  | [] => []
  | d :: rest =>
    let label := if 0 < index ∧ width = 0 then '\n' :: (Nat.toDigits 10 index ++ [':']) else []
    let width := width + (Directive.statement d).length
    label ++ (Directive.statement d) ++ ';' ::
      canonicalFrom (index + 1) (if margin < width then 0 else width) rest

def canonical (s : Script) : String := String.ofList (Text.trim (canonicalFrom 0 0 s))

end XmlScript.Script
