import XmlScript.Render
import XmlScript.Script.Canonical
import XmlScript.Script.Json
import XmlScript.Script.Yaml
import XmlScript.Setting

/-!
# Settings

The settings of the program: how documents are written and how scripts are printed. A `Loader`
collects files and single values on top of the defaults; `Loader.build` puts them over each
other, a later file over an earlier one and the single values over all files.
-/

namespace XmlScript

inductive Emit where
  | canonical
  | json
  | yaml
  deriving DecidableEq, Repr

namespace Emit

def all : List Emit := [canonical, json, yaml]

def text : Emit → String
  | canonical => "canonical"
  | json => "json"
  | yaml => "yaml"

def print (script : Script) : Emit → String
  | canonical => script.canonical
  | json => script.toJsonLines
  | yaml => script.toYaml

def ofText? (name : String) : Option Emit := all.find? (·.text = name)

end Emit

structure Settings where
  render : RenderOptions
  emit : Emit
  deriving DecidableEq, Repr

inductive SettingsError where
  | missingFile
  | malformedFile
  | malformedKey (key : String)
  /-- A setting is missing or has a value of a wrong kind. -/
  | unsuitable (key : String)
  /-- A path names an item that no list can have. -/
  | noSuchItem
  deriving DecidableEq, Repr

def SettingsError.message : SettingsError → String
  | missingFile => "configuration file not found"
  | malformedFile => "configuration file is not valid"
  | malformedKey key => "'" ++ key ++ "' is not a key"
  | unsuitable key => "no suitable value for '" ++ key ++ "'"
  | noSuchItem => "no list has such an item"

/-- Whether an error ends the program and is not reported. -/
def SettingsError.isFatal : SettingsError → Bool
  | noSuchItem => true
  | _ => false

namespace Settings

/-- The settings that hold where nothing else is said. -/
def defaults : Setting :=
  .table
    [("render", .table
      [("declaration", .boolean true), ("encoding", .boolean false), ("indent", .integer 0)]),
    ("check", .table [("emit", .text "canonical")])]

/-- A value that is required to suit. -/
def require {α : Type} (key : String) : Option α → Except SettingsError α
  | some a => .ok a
  | none => .error (.unsuitable key)

/-- The table of a key, or the list of what stands in its fields. -/
def section? (key : String) (s : Setting) : Option Setting :=
  (s.get? key).bind fun
    | .table es => some (.table es)
    | .list vs => some (.list vs)
    | _ => none

/-- The truth value of a field, or one that stands in for it. -/
def flag (name : String) (missing : Bool) : Option Setting → Except SettingsError Bool
  | none => .ok missing
  | some v => require name v.toBool?

def indent? : Option Setting → Except SettingsError (Option Nat)
  | none | some .null => .ok none
  | some v => (require "indent" v.toCount?).map some

/-- The form that a setting names, as a text or as the only key of a table. -/
def emit? : Setting → Option Emit
  | .text s => Emit.ofText? (Setting.fold s)
  | .table [(key, _)] => Emit.ofText? (Setting.fold key)
  | _ => none

def ofSetting (s : Setting) : Except SettingsError Settings := do
  let render ← require "render" (section? "render" s)
  let declaration ← flag "declaration" true (render.field? "declaration" 0)
  let encoding ← flag "encoding" false (render.field? "encoding" 1)
  let indent? ← indent? (render.field? "indent" 2)
  let check ← require "check" (section? "check" s)
  let emit ← require "emit" ((check.field? "emit" 0).bind emit?)
  return { render := { declaration, encoding, indent? }, emit }

end Settings

/-! ## Loading -/

structure SettingsFile where
  text? : Option String
  isOptional : Bool := false
  deriving DecidableEq, Repr

/-- What settings are made of. -/
structure Loader where
  files : List SettingsFile := []
  overrides : List (List Setting.Part × Setting) := []

namespace Loader

/-- Puts a file over the ones before. -/
def withFile (l : Loader) (file : SettingsFile) : Loader := { l with files := l.files ++ [file] }

/-- Gives a setting a value that no file changes. -/
def override (l : Loader) (key : String) (v : Setting) : Except SettingsError Loader :=
  match Setting.readPath key with
  | some path => .ok { l with overrides := l.overrides ++ [(path, v)] }
  | none => .error (.malformedKey key)

/-- The entries of a file, none for a file that may be missing and is. -/
def fileEntries (file : SettingsFile) : Except SettingsError (List (String × Setting)) :=
  match file.text? with
  | none => if file.isOptional then .ok [] else .error .missingFile
  | some text =>
    match Toml.read? text with
    | some v => .ok (Setting.ofToml v).entries
    | none => .error .malformedFile

/-- A tree with a value at the end of a path. -/
def putValue (tree : Setting) (path : List Setting.Part) (v : Setting) :
    Except SettingsError Setting :=
  match Setting.putAt? v path tree with
  | some tree => .ok tree
  | none => .error .noSuchItem

/-- Puts an entry at the top level of a file over a tree. Its key is read as a path where it is
one. -/
def putEntry (tree : Setting) (entry : String × Setting) : Except SettingsError Setting :=
  match Setting.readPath entry.1 with
  | some path => putValue tree path entry.2
  | none => .ok (Setting.put entry.1 tree entry.2)

/-- The settings of all files and single values. -/
def build (l : Loader) : Except SettingsError Settings := do
  let layers ← l.files.mapM fileEntries
  let tree ← layers.flatten.foldlM putEntry Settings.defaults
  let tree ← l.overrides.foldlM (fun tree (path, v) => putValue tree path v) tree
  Settings.ofSetting tree

end Loader

end XmlScript
