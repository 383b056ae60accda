/-!
# The size of a text in bytes

Positions in a source are counted in bytes of UTF-8, and so is what a JSON text may still hold
when it ends within an escape. The count of a text joined from two is the sum of theirs
(`byteCount_append`).
-/

namespace XmlScript.Text

def byteCount : List Char → Nat
  | [] => 0
  | c :: rest => c.utf8Size + byteCount rest

@[simp]
theorem byteCount_append (s t : List Char) : byteCount (s ++ t) = byteCount s + byteCount t := by
  induction s with
  | nil => simp [byteCount]
  | cons c rest ih => simp only [List.cons_append, byteCount, ih]; omega

end XmlScript.Text
