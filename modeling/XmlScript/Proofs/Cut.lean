import Mathlib.Data.List.Infix
import XmlScript.Text.Cut

/-!
# Texts without a mark

What is cut off in front of a mark does not hold it (`not_infix_of_cutAt`). A cut is made where the
mark first begins, which can be before the place where it was put: `cutAt_append_mark` asks that it
does not. The ends of instructions, comments and sections are put where they do not
(`cutAt_append_of_front`). In the same way a run of characters of one class ends where the first
other character stands (`span_append`). The other way round, texts are joined with a mark between
them, so behind the first one each comes with its mark (`intercalate_cons`).
-/

namespace XmlScript.Text

variable {mark s a b : List Char}

/-- What is cut off in front does not hold the mark, nor does it with all but the end of the mark
put back. -/
theorem not_infix_append_of_cutAt (hm : mark ≠ []) (h : cutAt mark s = some (a, b)) :
    ¬ mark <:+: a ++ mark.dropLast := by
  induction s generalizing a b with
  | nil =>
    rw [cutAt, if_neg (by simpa using hm)] at h
    cases h
  | cons c rest ih =>
    have hs := eq_append_of_cutAt h
    rw [cutAt] at h
    split at h
    next =>
      cases h
      intro hin
      have hle := hin.length_le
      have hpos := List.length_pos_of_ne_nil hm
      rw [List.nil_append, List.length_dropLast] at hle
      omega
    next hp =>
      obtain ⟨⟨x, y⟩, hx, he⟩ := Option.map_eq_some_iff.1 h
      cases he
      rw [List.cons_append, List.infix_cons_iff, not_or]
      refine ⟨fun hpre => hp (List.isPrefixOf_iff_prefix.2 ?_), ih hx⟩
      rw [hs, List.append_assoc]
      refine hpre.trans ((List.prefix_append_right_inj (c :: x)).2 ?_)
      exact (List.dropLast_prefix mark).trans (List.prefix_append _ _)

/-- What is cut off in front does not hold the mark. -/
theorem not_infix_of_cutAt (hm : mark ≠ []) (h : cutAt mark s = some (a, b)) :
    ¬ mark <:+: a :=
  fun hin => not_infix_append_of_cutAt hm h (hin.trans (List.prefix_append _ _).isInfix)

/-- A text that cannot be cut does not hold the mark. -/
theorem not_infix_of_cutAt_eq_none (hm : mark ≠ []) (h : cutAt mark s = none) :
    ¬ mark <:+: s := by
  induction s with
  | nil => simpa using hm
  | cons c rest ih =>
    rw [cutAt] at h
    split at h
    next => cases h
    next hp =>
      rw [List.infix_cons_iff, not_or]
      exact ⟨fun hpre => hp (List.isPrefixOf_iff_prefix.2 hpre), ih (Option.map_eq_none_iff.1 h)⟩

/-- A text that does not hold the mark is not cut. -/
theorem cutAt_eq_none (h : ¬ mark <:+: s) : cutAt mark s = none := by
  refine Option.eq_none_iff_forall_ne_some.2 fun cut hcut => h ?_
  exact ⟨cut.1, cut.2, (eq_append_of_cutAt hcut).symm⟩

/-- A text is cut at a mark that is put behind it, if the mark does not begin before. -/
theorem cutAt_append_mark (hm : mark ≠ [])
    (h : ∀ t, t ≠ [] → t <:+ s → ¬ mark <+: t ++ mark ++ b) :
    cutAt mark (s ++ mark ++ b) = some (s, b) := by
  induction s with
  | nil =>
    obtain ⟨c, rest, rfl⟩ := List.exists_cons_of_ne_nil hm
    rw [List.nil_append, List.cons_append, cutAt, if_pos (by
      rw [← List.cons_append]
      exact List.isPrefixOf_iff_prefix.2 (List.prefix_append _ _)), ← List.cons_append,
      List.drop_left]
  | cons c rest ih =>
    have hc := h (c :: rest) (List.cons_ne_nil _ _) List.suffix_rfl
    rw [List.cons_append, List.cons_append] at hc ⊢
    rw [cutAt, if_neg fun hp => hc (List.isPrefixOf_iff_prefix.1 hp),
      ih fun t ht hsuffix => h t ht (hsuffix.trans (List.suffix_cons _ _))]
    rfl

/-- It does not begin before if a front of it, in which it does not begin again, is not in the
text. -/
theorem cutAt_append_of_front {front : List Char} (hm : mark ≠ []) (hfront : front <+: mark)
    (honce : ∀ k < front.length, 0 < k → ¬ mark.drop k <+: mark) (h : ¬ front <:+: s)
    (b : List Char) : cutAt mark (s ++ mark ++ b) = some (s, b) := by
  refine cutAt_append_mark hm fun t ht hsuffix hpre => ?_
  rw [List.append_assoc] at hpre
  rcases Nat.lt_or_ge t.length front.length with hlt | hge
  · -- the mark would begin again in its own front
    have hdrop : mark.drop t.length <+: mark ++ b := by
      have hboth := hpre.drop t.length
      rwa [List.drop_left] at hboth
    refine honce t.length hlt (List.length_pos_iff.2 ht) ?_
    refine List.prefix_of_prefix_length_le hdrop (List.prefix_append mark b) ?_
    rw [List.length_drop]
    exact Nat.sub_le _ _
  · have hin : front <+: t :=
      List.prefix_of_prefix_length_le (hfront.trans hpre) (List.prefix_append t _) hge
    exact h (hin.isInfix.trans hsuffix.isInfix)

theorem cutAt_instructionEnd (h : ¬ ['?', '>'] <:+: s) (b : List Char) :
    cutAt ['?', '>'] (s ++ ['?', '>'] ++ b) = some (s, b) :=
  cutAt_append_of_front (List.cons_ne_nil _ _) List.prefix_rfl (by decide) h b

/-- Two hyphens inside a comment would begin its end, or be refused. -/
theorem cutAt_commentEnd (h : ¬ ['-', '-'] <:+: s) (b : List Char) :
    cutAt ['-', '-', '>'] (s ++ ['-', '-', '>'] ++ b) = some (s, b) :=
  cutAt_append_of_front (List.cons_ne_nil _ _) (List.prefix_append _ ['>']) (by decide) h b

theorem cutAt_sectionEnd (h : ¬ [']', ']', '>'] <:+: s) (b : List Char) :
    cutAt [']', ']', '>'] (s ++ [']', ']', '>'] ++ b) = some (s, b) :=
  cutAt_append_of_front (List.cons_ne_nil _ _) List.prefix_rfl (by decide) h b

/-! ## Runs of one class -/

/-- What is of one class is cut off where the class ends. -/
theorem span_append {α : Type} {p : α → Bool} {xs ys : List α} (hx : ∀ x ∈ xs, p x = true)
    (hy : ∀ y ∈ ys.head?, p y = false) :
    (xs ++ ys).takeWhile p = xs ∧ (xs ++ ys).dropWhile p = ys := by
  rw [List.takeWhile_append_of_pos hx, List.dropWhile_append_of_pos hx]
  cases ys with
  | nil => exact ⟨List.append_nil xs, rfl⟩
  | cons y ys =>
    have hstop : ¬ p y = true := by
      rw [hy y rfl]
      exact Bool.false_ne_true
    rw [List.takeWhile_cons_of_neg hstop, List.dropWhile_cons_of_neg hstop]
    exact ⟨List.append_nil xs, rfl⟩

/-! ## Texts joined with a mark -/

/-- Joined texts are the first one, and then each of the others behind a mark. -/
theorem intercalate_cons (mark s : List Char) (texts : List (List Char)) :
    mark.intercalate (s :: texts) = s ++ texts.flatMap (mark ++ ·) := by
  induction texts generalizing s with
  | nil => rw [List.intercalate_singleton, List.flatMap_nil, List.append_nil]
  | cons t texts ih =>
    rw [List.intercalate_cons_cons, ih, List.flatMap_cons, List.append_assoc, List.append_assoc]

theorem mem_of_mem_intercalate {mark : List Char} {texts : List (List Char)} {c : Char}
    (h : c ∈ mark.intercalate texts) : c ∈ mark ∨ ∃ t ∈ texts, c ∈ t := by
  cases texts with
  | nil => cases h
  | cons s texts =>
    rw [intercalate_cons] at h
    rcases List.mem_append.mp h with h | h
    · exact Or.inr ⟨s, List.mem_cons_self .., h⟩
    · obtain ⟨t, ht, h⟩ := List.mem_flatMap.mp h
      exact (List.mem_append.mp h).imp id fun h => ⟨t, List.mem_cons_of_mem _ ht, h⟩

end XmlScript.Text
