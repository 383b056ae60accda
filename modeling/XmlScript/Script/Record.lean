import XmlScript.Directive

/-!
# Directives as data

In a data format a directive is a variant name and its payload. `Keyword.variant` and
`Keyword.layout` fix both for every command; the formats (JSON, YAML) only say how such a
record is written.
-/

namespace XmlScript

/-- What follows the variant name of a command in a data format. -/
inductive Layout where
  /-- Nothing. -/
  | unit
  | text
  | number
  /-- Two texts under names. -/
  | pair (first second : String)
  deriving DecidableEq, Repr

namespace Keyword

/-- The name of a command in data formats. -/
def variant : Keyword → String
  | add => "add"
  | addif => "add_if_absent"
  | remove => "remove"
  | set => "set_text"
  | attr => "set_attr"
  | xattr => "set_computed_attr"
  | xset => "set_computed_text"
  | comment => "add_comment"
  | cdata => "add_c_data"
  | pi => "add_processing_instruction"
  | ns => "add_namespace"
  | up => "up"
  | xpath => "navigate_to"
  | strict => "assert_count"
  | push => "push"
  | pop => "pop"

/-- The form of a command's payload in data formats. -/
def layout : Keyword → Layout
  | remove | up | push | pop => .unit
  | add | addif | set | xset | comment | cdata | ns | xpath => .text
  | strict => .number
  | attr => .pair "name" "value"
  | xattr => .pair "name" "query"
  | pi => .pair "target" "data"

/-- The keyword whose command has a given name in data formats. -/
def ofVariant? (s : String) : Option Keyword := all.find? (·.variant = s)

theorem ofVariant?_variant (k : Keyword) : ofVariant? k.variant = some k := by
  cases k <;> decide

end Keyword

inductive Payload where
  | unit
  | text (s : String)
  | number (n : Nat)
  | fields (first second : String × String)
  deriving DecidableEq, Repr

def Directive.payload : Directive → Payload
  | .remove | .up | .push | .pop => .unit
  | .addElement a | .ensureElement a | .setText a | .computeText a | .addComment a | .addCData a
  | .setNamespace a | .select a => .text a.raw
  | .setAttribute name value => .fields ("name", name.raw) ("value", value.raw)
  | .computeAttribute name query => .fields ("name", name.raw) ("query", query.raw)
  | .addInstruction target data => .fields ("target", target.raw) ("data", data.raw)
  | .expect count => .number count.toNat

/-- Whether a payload has the form that a layout asks for. -/
def Payload.fits : Payload → Layout → Bool
  | .unit, .unit => true
  | .text _, .text => true
  | .number _, .number => true
  | .fields a b, .pair first second => a.1 == first && b.1 == second
  | _, _ => false

/-- The payload of a directive has the form that its keyword asks for. -/
theorem Directive.fits_payload (d : Directive) : (Directive.payload d).fits d.keyword.layout := by
  cases d <;> rfl

end XmlScript
