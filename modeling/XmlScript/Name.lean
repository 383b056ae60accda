import XmlScript.Name.Letters
import XmlScript.Name.Marks
import XmlScript.Text.Runs

/-!
# Names

Two rules for names. Scripts may create what `Name.isValid` lets through: a letter, underscore
or colon, then letters, marks, numbers and `_ : . -` and the middle dot. Documents are read by
the code point ranges of the XML recommendation, `Name.isStartChar` and `Name.isChar`.
-/

namespace XmlScript.Name

open Text (within)

/-! ## Names that scripts may create -/

/-- Whether a name of a script may start with a character. -/
def isScriptStart (c : Char) : Bool := c == '_' || c == ':' || within letters c.toNat

/-- Whether a name of a script may go on with a character. -/
def isScriptPart (c : Char) : Bool :=
  c == '_' || c == ':' || c == '.' || c == '-' || c == '\xb7' || within letters c.toNat ||
    within marksAndNumbers c.toNat

/-- Whether a script may create an element, an attribute or an instruction of this name. -/
def isValid (name : String) : Bool :=
  match name.toList with
  | [] => false
  | c :: rest => isScriptStart c && rest.all isScriptPart

/-! ## Names in documents -/

/-- The code points at which a name may start, the colon left out. -/
def startRuns : List (Nat × Nat) :=
  [(0x41, 0x5A), (0x5F, 0x5F), (0x61, 0x7A), (0xC0, 0xD6), (0xD8, 0xF6), (0xF8, 0x2FF),
    (0x370, 0x37D), (0x37F, 0x1FFF), (0x200C, 0x200D), (0x2070, 0x218F), (0x2C00, 0x2FEF),
    (0x3001, 0xD7FF), (0xF900, 0xFDCF), (0xFDF0, 0xFFFD), (0x10000, 0xEFFFF)]

/-- The further code points with which a name may go on. -/
def partRuns : List (Nat × Nat) :=
  [(0x2D, 0x2E), (0x30, 0x39), (0xB7, 0xB7), (0x300, 0x36F), (0x203F, 0x2040)]

/-- Whether a name without colons may start with a character. -/
def isPlainStart (c : Char) : Bool := within startRuns c.toNat

/-- Whether a name without colons may go on with a character. -/
def isPlainPart (c : Char) : Bool := isPlainStart c || within partRuns c.toNat

/-- Whether a name may start with a character. -/
def isStartChar (c : Char) : Bool := c == ':' || isPlainStart c

/-- Whether a name may go on with a character. -/
def isChar (c : Char) : Bool := c == ':' || isPlainPart c

/-- The longest run at the front of a text that is a name by the given classes, and what
follows it. -/
def take? (isStart isPart : Char → Bool) : List Char → Option (List Char × List Char)
  | [] => none
  | c :: rest =>
    if isStart c then some (c :: rest.takeWhile isPart, rest.dropWhile isPart) else none

/-- A name and what follows it make up the text. -/
theorem eq_append_of_take? {isStart isPart : Char → Bool} {s name rest : List Char}
    (h : take? isStart isPart s = some (name, rest)) : s = name ++ rest := by
  unfold take? at h
  split at h
  · cases h
  · split at h
    · simp only [Option.some.injEq, Prod.mk.injEq] at h
      obtain ⟨rfl, rfl⟩ := h
      simp
    · cases h

end XmlScript.Name
