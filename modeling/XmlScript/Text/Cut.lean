/-!
# Cutting text at a mark

Delimited pieces of text (an entity, a comment, a section of character data) end at the
first place where their mark stands. `cutAt` finds that place; `eq_append_of_cutAt` says
that nothing of the text is lost by the cut, and `length_lt_of_cutAt` that what follows a
mark is shorter than the text, which is what readers recurse on.
-/

namespace XmlScript.Text

/-- The text before the first place where `mark` stands, and the text after that mark. -/
def cutAt (mark : List Char) : List Char → Option (List Char × List Char)
  | [] => if mark.isEmpty then some ([], []) else none
  | c :: rest =>
    if mark.isPrefixOf (c :: rest) then some ([], (c :: rest).drop mark.length)
    else (cutAt mark rest).map fun cut => (c :: cut.1, cut.2)

/-- What stands before the mark, the mark, and what follows it make up the text. -/
theorem eq_append_of_cutAt {mark s a b : List Char} (h : cutAt mark s = some (a, b)) :
    s = a ++ mark ++ b := by
  induction s generalizing a b with
  | nil =>
    by_cases hm : mark = [] <;> simp_all [cutAt]
  | cons c rest ih =>
    rw [cutAt] at h
    split at h
    next hp =>
      obtain ⟨t, ht⟩ := List.isPrefixOf_iff_prefix.1 hp
      simp only [Option.some.injEq, Prod.mk.injEq] at h
      obtain ⟨rfl, rfl⟩ := h
      rw [← ht]; simp
    next =>
      obtain ⟨⟨x, y⟩, hx, he⟩ := Option.map_eq_some_iff.1 h
      simp only [Prod.mk.injEq] at he
      obtain ⟨rfl, rfl⟩ := he
      rw [ih hx]; simp

/-- What follows a mark is shorter than the whole text. -/
theorem length_lt_of_cutAt {mark s a b : List Char} (hm : mark ≠ [])
    (h : cutAt mark s = some (a, b)) : b.length < s.length := by
  have := congrArg List.length (eq_append_of_cutAt h)
  have := List.length_pos_iff.2 hm
  simp only [List.length_append] at *
  omega

end XmlScript.Text
