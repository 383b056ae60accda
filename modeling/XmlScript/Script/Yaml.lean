import XmlScript.Script.Record
import XmlScript.Yaml.Scalar

/-!
# Scripts in YAML

A script is a block sequence. A directive without arguments is its variant name; any other is
tagged with it, and named arguments follow on lines of their own.
-/

namespace XmlScript.Script

/-- A directive as an entry of the sequence, with its line end. -/
def directiveYaml (d : Directive) : List Char :=
  let variant := d.keyword.variant.toList
  let tagged (value : List Char) := "- !".toList ++ variant ++ value
  let field (f : String × String) :=
    "  ".toList ++ f.1.toList ++ ": ".toList ++ Yaml.endLine (Yaml.scalar 4 f.2.toList)
  match Directive.payload d with
  | .unit => "- ".toList ++ variant ++ ['\n']
  | .text s => tagged (' ' :: Yaml.endLine (Yaml.scalar 2 s.toList))
  | .number n => tagged (' ' :: (Nat.toDigits 10 n ++ ['\n']))
  | .fields a b => tagged ('\n' :: (field a ++ field b))

def toYaml (s : Script) : String :=
  match s with
  | [] => "[]\n"
  | _ => String.ofList (s.flatMap directiveYaml)

end XmlScript.Script
