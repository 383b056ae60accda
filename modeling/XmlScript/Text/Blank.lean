/-!
# Blanks

Three notions of blank character occur in this library. A *space* is any character with
the Unicode property White_Space; texts shown to a reader are trimmed of spaces. A *markup
blank* is one of the four characters that XML counts as white space. Scripts add the form
feed to those four (`XmlScript.Token.isGap`). Every markup blank is a space
(`isSpace_of_isMarkupBlank`).
-/

namespace XmlScript.Text

/-- The characters with the Unicode property White_Space. -/
def isSpace (c : Char) : Bool :=
  let n := c.toNat
  (0x09 ≤ n && n ≤ 0x0D) || n == 0x20 || n == 0x85 || n == 0xA0 || n == 0x1680 ||
    (0x2000 ≤ n && n ≤ 0x200A) || n == 0x2028 || n == 0x2029 || n == 0x202F || n == 0x205F ||
    n == 0x3000

/-- Space, tab, line feed and carriage return: the white space of XML. -/
def isMarkupBlank (c : Char) : Bool :=
  c == ' ' || c == '\t' || c == '\n' || c == '\r'

theorem isSpace_of_isMarkupBlank {c : Char} (h : isMarkupBlank c) : isSpace c := by
  simp only [isMarkupBlank, Bool.or_eq_true, beq_iff_eq] at h
  rcases h with ((rfl | rfl) | rfl) | rfl <;> decide

/-- Removes from the end of a text the characters that satisfy `p`. -/
def dropEndWhile (p : Char → Bool) (s : List Char) : List Char :=
  (s.reverse.dropWhile p).reverse

def trimEnd (s : List Char) : List Char := dropEndWhile isSpace s

def trim (s : List Char) : List Char := trimEnd (s.dropWhile isSpace)

def isBlank (s : List Char) : Bool := s.all isSpace

/-- Lower case of the ASCII letters, every other character unchanged. -/
def lowerAscii (s : String) : List Char := s.toList.map Char.toLower

/-- Equality that ignores the case of ASCII letters only. -/
def eqIgnoringCase (a b : String) : Bool := lowerAscii a == lowerAscii b

end XmlScript.Text
