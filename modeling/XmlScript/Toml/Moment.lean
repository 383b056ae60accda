import XmlScript.Toml.Scalar

/-!
# Dates and times in tables

A date or time has a second written form: a table whose first key is `Toml.momentKey`, which holds
it as a text. `Value.settle?` puts the date or time in the place of such tables, wherever they
stand in a value, and refuses a value in which one holds anything else.
-/

namespace XmlScript.Toml

/-- The key of a date or time. -/
def momentKey : String := "$__toml_private_datetime"

/-- Passes over the offset of a time, if there is one. It is at most a day. -/
def skipWideOffset : List Char → Option (List Char)
  | [] => some []
  | 'Z' :: rest => some rest
  | 'z' :: rest => some rest
  | c :: rest => do
    if c = '+' ∨ c = '-' then
      let (hours, rest) ← readField 2 0 99 rest
      let (minutes, rest) ← readField 2 0 99 (← readMark ':' rest)
      if hours * 60 + minutes ≤ 24 * 60 then return rest else none
    else none

/-- Whether a text is a time, or a date with maybe a time and maybe an offset. An hour may be the
24th. -/
def isMomentText (s : List Char) : Bool :=
  match skipDate s with
  | some [] => true
  | some (c :: rest) =>
    let rest? := if c = 'T' ∨ c = 't' ∨ c = ' ' then skipTime 24 rest else some (c :: rest)
    rest?.bind skipWideOffset == some []
  | none => skipTime 24 s == some []

namespace Value

/-- The date or time under its key. -/
def moment? : Value → Option Value
  | text s => if isMomentText s.toList then some (moment s) else none
  | _ => none

mutual

/-- A value with its dates and times in the place of the tables that hold them. -/
def settle? : Value → Option Value
  | list items => (settleItems? items).map list
  | tables earlier last =>
    (settleItems? earlier).bind fun earlier => (settle? last).map (tables earlier)
  | table origin entries =>
    match entries.head? with
    | none => some (table origin [])
    | some (key, v) =>
      if key = momentKey then moment? v else (settleEntries? entries).map (table origin)
  | v => some v

/-- The same for every item of a list. -/
def settleItems? : List Value → Option (List Value)
  | [] => some []
  | v :: rest => (settle? v).bind fun v => (settleItems? rest).map (v :: ·)

/-- The same for every entry of a table. -/
def settleEntries? : List (String × Value) → Option (List (String × Value))
  | [] => some []
  | (key, v) :: rest =>
    (settle? v).bind fun v => (settleEntries? rest).map ((key, v) :: ·)

end

end Value

end XmlScript.Toml
