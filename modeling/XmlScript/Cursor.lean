import XmlScript.Distinct

/-!
# Cursors

A cursor is what a directive acts on: a list without repetitions. A stack holds the cursors that
were saved, and gives them back in reverse order.
-/

namespace XmlScript

/-- A list without repetitions. -/
@[ext] structure Cursor (α : Type) where
  nodes : List α
  nodup : nodes.Nodup
  deriving DecidableEq

namespace Cursor

variable {α : Type}

def empty : Cursor α := ⟨[], by simp⟩

/-- The cursor on one node. -/
def single (x : α) : Cursor α := ⟨[x], by simp⟩

def size (c : Cursor α) : Nat := c.nodes.length

def isEmpty (c : Cursor α) : Bool := c.nodes.isEmpty

/-- The cursor on the elements of a list, in the order of their first occurrences. -/
def ofList [DecidableEq α] (xs : List α) : Cursor α := ⟨distinct xs, nodup_distinct xs⟩

@[simp] theorem mem_ofList [DecidableEq α] {x : α} {xs : List α} :
    x ∈ (ofList xs).nodes ↔ x ∈ xs := mem_distinct

@[simp] theorem ofList_nodes [DecidableEq α] (c : Cursor α) : ofList c.nodes = c :=
  Cursor.ext (distinct_of_nodup c.nodup)

end Cursor

/-- The cursors saved so far, the last one first. -/
abbrev Stack (α : Type) := List (Cursor α)

namespace Stack

variable {α : Type}

def push (c : Cursor α) (s : Stack α) : Stack α := c :: s

/-- The cursor saved last and the stack without it. -/
def pop? : Stack α → Option (Cursor α × Stack α)
  | [] => none
  | c :: rest => some (c, rest)

@[simp] theorem pop?_push (c : Cursor α) (s : Stack α) : (s.push c).pop? = some (c, s) := rfl

end Stack

end XmlScript
