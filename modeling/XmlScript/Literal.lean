import XmlScript.Text.Cut
import XmlScript.Text.Numeral

/-!
# Quoted literals

Every argument of a script is a quoted literal. Inside the quotes the five characters that
XML reserves stand as named entities and control characters as decimal references, so a
literal can always be written out and read again. `escape` and `encode` write; `unescape`
and `decode` read, from left to right, and stop at the leftmost fault.
-/

namespace XmlScript

/-- A text that no argument of a script can carry. -/
inductive ContentError where
  | illegalCharacter (c : Char)
  /-- The literal is too short to have a quote at either end. -/
  | unquoted (literal : String)
  /-- An ampersand with no semicolon after it; `rest` is the text from the ampersand on. -/
  | unterminatedEntity (rest : String)
  /-- A name that is none of the five entities. -/
  | unknownEntity (name : String)
  /-- A reference, its number sign included, that denotes no character. -/
  | invalidReference (reference : String)
  deriving DecidableEq, Repr

def ContentError.message : ContentError → String
  | .illegalCharacter c =>
    "character #" ++ String.ofList (Text.hexPair c.toNat) ++ " is illegal in XML"
  | .unquoted literal => "literal " ++ literal ++ " is not enclosed in quotes"
  | .unterminatedEntity rest => "entity starting at `" ++ rest ++ "` is not terminated by ';'"
  | .unknownEntity name => "unknown entity `&" ++ name ++ ";`"
  | .invalidReference reference => "invalid character reference `&" ++ reference ++ ";`"

namespace Literal

/-! ## Legal characters -/

/-- Whether a character may appear in an XML document: all but the control characters, of
which tab, line feed, carriage return and next line stay legal. -/
def isLegal (c : Char) : Bool :=
  let n := c.toNat
  !(n ≤ 0x08 || (0x0B ≤ n && n ≤ 0x0C) || (0x0E ≤ n && n ≤ 0x1F) ||
    (0x7F ≤ n && n ≤ 0x84) || (0x86 ≤ n && n ≤ 0x9F))

/-- Refuses a text for its first illegal character. -/
def check (s : List Char) : Except ContentError Unit :=
  match s.find? (!isLegal ·) with
  | some c => .error (.illegalCharacter c)
  | none => .ok ()

/-- A text passes the check exactly when all its characters are legal. -/
theorem check_eq_ok_iff {s : List Char} : check s = .ok () ↔ ∀ c ∈ s, isLegal c := by
  unfold check
  split
  next c h =>
    have hc := List.find?_some h
    have hm := List.mem_of_find?_eq_some h
    constructor
    · intro h'; cases h'
    · intro h'; simp [h' c hm] at hc
  next h => simpa using h

/-! ## Writing -/

/-- A character as it stands inside a literal. -/
def escapeChar (c : Char) : List Char :=
  if c = '"' then "&quot;".toList
  else if c = '\'' then "&apos;".toList
  else if c = '&' then "&amp;".toList
  else if c = '<' then "&lt;".toList
  else if c = '>' then "&gt;".toList
  else if c.toNat < 0x20 then '&' :: '#' :: (Nat.toDigits 10 c.toNat ++ [';'])
  else [c]

/-- A text as it stands inside a literal. -/
def escape (s : List Char) : List Char := s.flatMap escapeChar

def encode (s : List Char) : List Char := '"' :: (escape s ++ ['"'])

/-! ## Reading -/

/-- The character with a given scalar value. -/
def scalar? (n : Nat) : Option Char :=
  if n.isValidChar then some (Char.ofNat n) else none

/-- The character that one of the five entity names stands for. -/
def named? (name : List Char) : Option Char :=
  if name = "apos".toList then some '\''
  else if name = "quot".toList then some '"'
  else if name = "lt".toList then some '<'
  else if name = "gt".toList then some '>'
  else if name = "amp".toList then some '&'
  else none

/-- The character that the numeral of a reference stands for: hexadecimal after an `x` of
either case, decimal otherwise. -/
def numbered? : List Char → Option Char
  | 'x' :: digits => (Text.readUnsigned 16 digits).bind scalar?
  | 'X' :: digits => (Text.readUnsigned 16 digits).bind scalar?
  | digits => (Text.readUnsigned 10 digits).bind scalar?

/-- The character that the text between an ampersand and its semicolon stands for. -/
def resolve (entity : List Char) : Except ContentError Char :=
  match named? entity with
  | some c => .ok c
  | none =>
    match entity with
    | '#' :: numeral =>
      match numbered? numeral with
      | some c => .ok c
      | none => .error (.invalidReference (String.ofList entity))
    | _ => .error (.unknownEntity (String.ofList entity))

/-- The text that the inside of a literal stands for. -/
def unescape : List Char → Except ContentError (List Char)
  | [] => .ok []
  | c :: rest =>
    if c = '&' then
      match _h : Text.cutAt [';'] rest with
      | none => .error (.unterminatedEntity (String.ofList (c :: rest)))
      | some (entity, after) =>
        (resolve entity).bind fun x => (unescape after).map (x :: ·)
    else (unescape rest).map (c :: ·)
termination_by s => s.length
decreasing_by
  · have := Text.length_lt_of_cutAt (by simp) _h
    simp only [List.length_cons]; omega
  · simp

/-- The text that a literal stands for. Its first and last characters are dropped unseen:
whoever reads literals out of a script has matched the quotes. -/
def decode : List Char → Except ContentError (List Char)
  | _ :: c :: rest => unescape (c :: rest).dropLast
  | short => .error (.unquoted (String.ofList short))

end Literal

/-! ## Arguments -/

/-- An argument of a directive: any text of legal characters. -/
structure Arg where
  /-- The text itself, without quotes or entities. -/
  raw : String
  legal : ∀ c ∈ raw.toList, Literal.isLegal c
  deriving DecidableEq

namespace Arg

/-- The argument that carries a text, refused for the first illegal character. -/
def ofText (s : String) : Except ContentError Arg :=
  match h : Literal.check s.toList with
  | .ok () => .ok ⟨s, Literal.check_eq_ok_iff.1 h⟩
  | .error e => .error e

def quoted (a : Arg) : List Char := Literal.encode a.raw.toList

/-- Arguments are ordered by the code points of their texts, which is also the order of
their UTF-8 bytes. -/
def le (a b : Arg) : Bool := decide (a.raw ≤ b.raw)

@[ext] theorem ext {a b : Arg} (h : a.raw = b.raw) : a = b := by
  cases a; cases b; cases h; rfl

end Arg

end XmlScript
