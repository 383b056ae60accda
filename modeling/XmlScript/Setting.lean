import XmlScript.Text.Blank
import XmlScript.Text.Numeral
import XmlScript.Toml.Reader

/-!
# Setting trees

What settings are read from: tables, whose keys have no case, and lists. `Setting.put` gives a key
a value and merges tables, `Setting.putAt?` does so at the end of a path, `Setting.field?` reads a
value by its name or its place, and the conversions at the end say which values can stand for a
truth value or a count.
-/

namespace XmlScript

/-- A value of a setting, or a list or table of further ones. -/
inductive Setting where
  | null
  | boolean (b : Bool)
  | integer (n : Int)
  | float (x : Float)
  | text (s : String)
  | list (items : List Setting)
  | table (entries : List (String × Setting))

namespace Setting

/-! ## Keys and paths -/

/-- The lower case of a character where that is an ASCII letter. Besides the ASCII letters the
Kelvin sign has such a lower case. -/
def lowerChar (c : Char) : Char := if c = '\u212a' then 'k' else c.toLower

/-- A key without case. -/
def fold (key : String) : String := String.ofList (key.toList.map lowerChar)

/-- One part of a path. -/
inductive Part where
  | key (name : String)
  /-- An item of a list, counted from zero; a negative number counts back from the end. -/
  | item (index : Int)
  deriving DecidableEq, Repr

/-- The characters of keys in paths. -/
def isPathChar (c : Char) : Bool := c.isAlphanum || c == '_' || c == '-' || c == ' '

/-- A key at the front of a path. -/
def readPathKey (s : List Char) : Option (String × List Char) :=
  let key := s.takeWhile isPathChar
  if key.isEmpty then none else some (String.ofList key, s.dropWhile isPathChar)

/-- Reads an index in brackets whose opening bracket has been read. -/
def readIndex (s : List Char) : Option (Int × List Char) :=
  let isBlank (c : Char) : Bool := c == ' ' || c == '\t'
  let (negative, s) :=
    match s.dropWhile isBlank with
    | '-' :: rest => (true, rest)
    | rest => (false, rest)
  let digits := s.takeWhile Char.isDigit
  match (s.drop digits.length).dropWhile isBlank with
  | ']' :: rest =>
    (Text.readDigits 10 digits).bind fun n =>
      let index : Int := if negative then -n else n
      if Int64.minValue.toInt ≤ index ∧ index ≤ Int64.maxValue.toInt then some (index, rest)
      else none
  | _ => none

/-- The parts of a path after its first key. -/
def readParts (s : List Char) : Option (List Part) :=
  match s with
  | [] => some []
  | '.' :: rest =>
    match readPathKey rest with
    | none => none
    | some (name, after) =>
      if after.length ≤ rest.length then (readParts after).map fun parts => .key name :: parts
      else none
  | '[' :: rest =>
    match readIndex rest with
    | none => none
    | some (index, after) =>
      if after.length ≤ rest.length then (readParts after).map fun parts => .item index :: parts
      else none
  | _ => none
termination_by s.length

/-- The parts of a path: keys with dots between them, and indices in brackets after keys. -/
def readPath (s : String) : Option (List Part) :=
  (readPathKey s.toList).bind fun (name, rest) =>
    (readParts rest).map fun parts => .key name :: parts

/-! ## Tables -/

/-- The entries of a table; a value that is no table has none. -/
def entries : Setting → List (String × Setting)
  | table es => es
  | _ => []

/-- The items of a list; a value that is no list has none. -/
def items : Setting → List Setting
  | list vs => vs
  | _ => []

def get? (key : String) (s : Setting) : Option Setting := s.entries.lookup (fold key)

/-- Entries with a value for a key, in the place of the one that it had. -/
def store (key : String) (v : Setting) : List (String × Setting) → List (String × Setting)
  | [] => [(key, v)]
  | entry :: rest => if entry.1 = key then (key, v) :: rest else entry :: store key v rest

mutual

/-- Gives a key a value. A table does not take the place of the value before but adds its entries
to it. What is no table becomes one. -/
def put (key : String) (target : Setting) : Setting → Setting
  | table incoming =>
    let found := (target.get? key).getD (table [])
    table (store (fold key) (putAll found incoming) target.entries)
  | v => table (store (fold key) v target.entries)

/-- Gives values to keys one after the other. -/
def putAll (target : Setting) : List (String × Setting) → Setting
  | [] => target
  | (key, v) :: rest => putAll (put key target v) rest

end

/-- How many items a list can have. -/
def listLimit : Nat := 0x1000000

/-- The place of an item in a list of a given length, from zero. It may lie behind the end of the
list but not before its start. -/
def place? (index : Int) (length : Nat) : Option Nat :=
  let place := if 0 ≤ index then index else length + index
  if 0 ≤ place ∧ place < listLimit then some place.toNat else none

/-- Gives a value to the end of a path, unless the path names an item that cannot be. Whatever
stands in its way becomes a table, or a list where the path names an item; a list that is too
short for the item is filled up. -/
def putAt? (v : Setting) : List Part → Setting → Option Setting
  | [], _ => some v
  | [.key name], target => some (put name target v)
  | .key name :: rest, target =>
    (putAt? v rest ((target.get? name).getD null)).map fun inner =>
      table (store (fold name) inner target.entries)
  | .item index :: rest, target =>
    (place? index target.items.length).bind fun place =>
      let filled := target.items ++ List.replicate (place + 1 - target.items.length) null
      (putAt? v rest (filled.getD place null)).map fun inner => list (filled.set place inner)

/-- The value of a field: a table has it under its name, a list at its place. -/
def field? (name : String) (place : Nat) : Setting → Option Setting
  | list vs => vs[place]?
  | s => s.get? name

/-! ## Conversions -/

mutual

def ofToml : Toml.Value → Setting
  | .boolean b => boolean b
  | .integer n => integer n
  | .float x => float x
  | .text s => text s
  | .moment s => text s
  | .list vs => list (ofTomlItems vs)
  | .tables earlier last => list (ofTomlItems earlier ++ [ofToml last])
  | .table _ es => table (ofTomlEntries es)

def ofTomlItems : List Toml.Value → List Setting
  | [] => []
  | v :: rest => ofToml v :: ofTomlItems rest

def ofTomlEntries : List (String × Toml.Value) → List (String × Setting)
  | [] => []
  | (key, v) :: rest => (key, ofToml v) :: ofTomlEntries rest

end

/-- Whether a text says yes or no. -/
def answer? (s : String) : Option Bool :=
  let word := fold s
  if ["true", "on", "yes"].contains word then some true
  else if ["false", "off", "no"].contains word then some false
  else none

/-- The truth value that a setting stands for. -/
def toBool? : Setting → Option Bool
  | boolean b => some b
  | integer n => some (n != 0)
  | float x => some (x != 0)
  | text s => if s = "1" then some true else if s = "0" then some false else answer? s
  | null | list _ | table _ => none

/-- The count that a setting stands for. Fractions are rounded, and a half is rounded up. -/
def toCount? : Setting → Option Nat
  | boolean b => some b.toNat
  | integer n => if 0 ≤ n then some n.toNat else none
  | float x => some x.round.toUInt64.toNat
  | text s =>
    match answer? s with
    | some b => some b.toNat
    | none => (Text.readUnsigned 10 s.toList).filter (· < UInt64.size)
  | null | list _ | table _ => none

end Setting

end XmlScript
