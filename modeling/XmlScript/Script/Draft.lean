import XmlScript.Script.Canonical
import XmlScript.Script.Parser

/-!
# Drafts

A draft is a script in the making: a sequence of directives that calls append to, and the
snapshots taken of it. A call is refused as a whole or takes effect as a whole, whatever
number of directives it appends.
-/

namespace XmlScript

structure Draft where
  directives : Script := []
  /-- The snapshots taken so far, the oldest first. -/
  frozen : List Script := []
  deriving DecidableEq

namespace Draft

inductive Call where
  /-- Appends one command. -/
  | command (c : Command String)
  /-- Appends a child for each entry, named by its key and holding its value, and ends where it
  started. -/
  | addMap (entries : List (String × String))
  /-- Appends the directives of a script. -/
  | append (s : Script)
  /-- Appends the directives of a script text. -/
  | appendText (source : String)
  /-- Appends a snapshot. -/
  | appendFrozen (index : Nat)
  /-- Appends the draft to itself. -/
  | double
  /-- Takes a snapshot. -/
  | freeze
  /-- Starts again from a snapshot. -/
  | thaw (index : Nat)
  deriving DecidableEq

inductive Refusal where
  | content (error : ContentError)
  | source (error : SyntaxError)
  /-- There is no snapshot of that number. -/
  | noSnapshot (index : Nat)
  deriving DecidableEq, Repr

/-- The commands that add one child per entry. -/
def mapCommands (entries : List (String × String)) : List (Command String) :=
  entries.flatMap fun entry => [.addElement entry.1, .setText entry.2, .up]

def text (d : Draft) : String := Script.canonical d.directives

def append (d : Draft) (s : Script) : Draft := { d with directives := d.directives ++ s }

def call (d : Draft) : Call → Except Refusal Draft
  | .command c => (c.validate.mapError .content).map fun directive => d.append [directive]
  | .addMap entries =>
    (((mapCommands entries).mapM Command.validate).mapError .content).map d.append
  | .append s => .ok (d.append s)
  | .appendText source => ((Script.parse source).mapError .source).map d.append
  | .appendFrozen index =>
    match d.frozen[index]? with
    | some s => .ok (d.append s)
    | none => .error (.noSnapshot index)
  | .double => .ok (d.append d.directives)
  | .freeze => .ok { d with frozen := d.frozen ++ [d.directives] }
  | .thaw index =>
    match d.frozen[index]? with
    | some s => .ok { d with directives := s }
    | none => .error (.noSnapshot index)

/-- The draft after a sequence of calls, of which the refused ones leave no trace. -/
def run (d : Draft) (calls : List Call) : Draft :=
  calls.foldl (fun d c => (d.call c).toOption.getD d) d

end Draft

end XmlScript
