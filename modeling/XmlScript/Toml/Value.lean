/-!
# TOML tables

The values of a TOML document. A table knows how it came to be, since that decides what may
still be added to it: `Value.descend` goes down a path of keys and makes the tables that are
missing, `Value.insert?` adds a key, and `Value.openTable?` and `Value.openItem?` are the two
kinds of header.
-/

namespace XmlScript.Toml

/-- How a table came to be. -/
inductive Origin where
  /-- By a header of its own, or as the whole document. -/
  | header
  /-- Because a header names something inside it. -/
  | implied
  /-- By a key with dots. -/
  | dotted
  /-- In braces, after which nothing can be added. -/
  | inlined
  deriving DecidableEq, Repr

inductive Value where
  | boolean (b : Bool)
  | integer (n : Int)
  | float (x : Float)
  | text (s : String)
  /-- A date, a time or both, as it is written. -/
  | moment (s : String)
  | list (items : List Value)
  /-- A list whose items are tables with a header each. -/
  | tables (earlier : List Value) (last : Value)
  | table (origin : Origin) (entries : List (String × Value))

namespace Value

/-- Entries with another value for a key that they have. -/
def replace (key : String) (v : Value) (entries : List (String × Value)) :
    List (String × Value) :=
  entries.map fun entry => if entry.1 = key then (key, v) else entry

/-- Changes the table at the end of a path by `f`. Tables that are missing on the way are made
with the origin `made`. No way leads through a plain value or a table in braces, nor for a key
with dots through a table that has a header. -/
def descend (made : Origin) (f : Value → Option Value) : List String → Value → Option Value
  | [], t => f t
  | key :: path, .table origin entries =>
    match entries.lookup key with
    | none =>
      (descend made f path (.table made [])).map fun inner =>
        .table origin (entries ++ [(key, inner)])
    | some (.table inner found) =>
      if inner = .inlined ∨ (made = .dotted ∧ inner = .header) then none
      else
        (descend made f path (.table inner found)).map fun inner =>
          .table origin (replace key inner entries)
    | some (.tables earlier last) =>
      (descend made f path last).map fun last =>
        .table origin (replace key (.tables earlier last) entries)
    | some _ => none
  | _ :: _, _ => none

/-- Adds an entry to a table. Behind dots the table has to be one that dots have made, and
elsewhere one that they have not. -/
def insert? (behindDots : Bool) (key : String) (v : Value) : Value → Option Value
  | .table origin entries =>
    if (origin == .dotted) != behindDots || (entries.lookup key).isSome then none
    else some (.table origin (entries ++ [(key, v)]))
  | _ => none

/-- Adds an entry under a key of one or more parts. -/
def assign? (t : Value) (key : List String) (v : Value) : Option Value :=
  match key.getLast? with
  | none => none
  | some last => descend .dotted (insert? (1 < key.length) last v) key.dropLast t

/-- Gives a table to a key, unless it has anything but a table that was only implied. -/
def openTable? (key : String) : Value → Option Value
  | .table origin entries =>
    match entries.lookup key with
    | none => some (.table origin (entries ++ [(key, .table .header [])]))
    | some (.table .implied found) =>
      some (.table origin (replace key (.table .header found) entries))
    | some _ => none
  | _ => none

/-- Adds a table to the list of tables under a key. -/
def openItem? (key : String) : Value → Option Value
  | .table origin entries =>
    let fresh := .table .header []
    match entries.lookup key with
    | none => some (.table origin (entries ++ [(key, .tables [] fresh)]))
    | some (.tables earlier last) =>
      some (.table origin (replace key (.tables (earlier ++ [last]) fresh) entries))
    | some _ => none
  | _ => none

end Value

end XmlScript.Toml
