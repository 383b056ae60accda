import XmlScript.Proofs.Runs

/-!
# Runs with character data

A run that has character data in it is put together from its own text nodes. The pieces stand for
its text, one after the other (`Run.stands_pieces`): plain text is escaped, and character data is
divided where it holds the end of a section, so that no section ends before its text does
(`not_infix_of_mem_cdataSections`).
-/

namespace XmlScript.Markup

open Text (cutAt)

/-! ## Sections -/

/-- The end of a section. -/
abbrev sectionEnd : List Char := [']', ']', '>']

variable {s : List Char} {bound : Nat}

theorem splitAtMark_ne_nil (mark : List Char) (bound : Nat) (s : List Char) :
    splitAtMark mark bound s ≠ [] := by
  cases bound with
  | zero => exact List.cons_ne_nil _ _
  | succ bound =>
    rw [splitAtMark]
    split
    next => exact List.cons_ne_nil _ _
    next => exact List.cons_ne_nil _ _

/-- The parts of a text do not hold the mark that they were cut at. -/
theorem not_infix_of_mem_splitAtMark {mark part : List Char} (hm : mark ≠ [])
    (hb : s.length ≤ bound) (h : part ∈ splitAtMark mark bound s) : ¬ mark <:+: part := by
  induction bound generalizing s with
  | zero =>
    rw [splitAtMark, List.eq_nil_of_length_eq_zero (Nat.le_zero.1 hb)] at h
    rw [List.mem_singleton.1 h]
    simpa using hm
  | succ bound ih =>
    rw [splitAtMark] at h
    split at h
    next hcut =>
      rw [List.mem_singleton.1 h]
      exact Text.not_infix_of_cutAt_eq_none hm hcut
    next before after hcut =>
      rcases List.mem_cons.1 h with rfl | h
      · exact Text.not_infix_of_cutAt hm hcut
      · have hlt := Text.length_lt_of_cutAt hm hcut
        exact ih (by omega) h

theorem glueSections_cons {isFirst : Bool} {part : List Char} {rest : List (List Char)}
    (h : rest ≠ []) : glueSections isFirst (part :: rest) =
      ((if isFirst then part else '>' :: part) ++ [']', ']']) :: glueSections false rest := by
  cases rest with
  | nil => exact absurd rfl h
  | cons _ _ => rfl

/-- The ends that were cut out are put back. -/
theorem flatten_glueSections (bound : Nat) (isFirst : Bool) (s : List Char) :
    (glueSections isFirst (splitAtMark sectionEnd bound s)).flatten =
      if isFirst then s else '>' :: s := by
  induction bound generalizing isFirst s with
  | zero =>
    rw [splitAtMark, glueSections]
    exact List.append_nil _
  | succ bound ih =>
    rw [splitAtMark]
    split
    next =>
      rw [glueSections]
      exact List.append_nil _
    next before after hcut =>
      have hs := Text.eq_append_of_cutAt hcut
      rw [glueSections_cons (splitAtMark_ne_nil _ _ _), List.flatten_cons, ih, hs]
      cases isFirst <;> simp

/-- The character data of the sections of a text is the text. -/
theorem flatten_cdataSections (s : List Char) : (cdataSections s).flatten = s :=
  flatten_glueSections s.length true s

theorem not_infix_cons (h : ¬ sectionEnd <:+: s) : ¬ sectionEnd <:+: '>' :: s := by
  rw [List.infix_cons_iff, not_or]
  refine ⟨fun hpre => ?_, h⟩
  exact absurd (List.cons_prefix_cons.1 hpre).1 (by decide)

theorem not_infix_brackets (h : ¬ sectionEnd <:+: s) : ¬ sectionEnd <:+: s ++ [']', ']'] := by
  induction s with
  | nil => decide
  | cons c rest ih =>
    rw [List.infix_cons_iff, not_or] at h
    rw [List.cons_append, List.infix_cons_iff, not_or]
    refine ⟨fun hpre => h.1 ?_, ih h.2⟩
    -- a mark at the front is one that stood there before: its end is no bracket
    match rest with
    | [] => exact absurd hpre (by simp [sectionEnd, List.cons_prefix_cons])
    | [c'] => exact absurd hpre (by simp [sectionEnd, List.cons_prefix_cons])
    | c' :: c'' :: rest =>
      simp only [sectionEnd, List.cons_append] at hpre ⊢
      simpa [List.cons_prefix_cons] using hpre

theorem not_infix_of_mem_glueSections {isFirst : Bool} {parts : List (List Char)}
    {part : List Char} (hparts : ∀ p ∈ parts, ¬ sectionEnd <:+: p)
    (h : part ∈ glueSections isFirst parts) : ¬ sectionEnd <:+: part := by
  have hfront (isFirst : Bool) {p : List Char} (hp : ¬ sectionEnd <:+: p) :
      ¬ sectionEnd <:+: if isFirst then p else '>' :: p := by
    cases isFirst with
    | true => exact hp
    | false => exact not_infix_cons hp
  induction parts generalizing isFirst with
  | nil => cases h
  | cons p rest ih =>
    have hp := hfront isFirst (hparts p (List.mem_cons_self ..))
    by_cases hrest : rest = []
    · subst hrest
      rw [glueSections] at h
      exact List.mem_singleton.1 h ▸ hp
    · rw [glueSections_cons hrest] at h
      rcases List.mem_cons.1 h with rfl | h
      · exact not_infix_brackets hp
      · exact ih (fun q hq => hparts q (List.mem_cons_of_mem _ hq)) h

/-- No section ends before its text does. -/
theorem not_infix_of_mem_cdataSections {part : List Char} (h : part ∈ cdataSections s) :
    ¬ sectionEnd <:+: part := by
  refine not_infix_of_mem_glueSections (fun p hp => ?_) h
  exact not_infix_of_mem_splitAtMark (by decide) (Nat.le_refl _) hp

/-! ## Pieces of a run -/

/-- Texts and sections that stand for a text, one after the other. None of them ends early: a text
does not open markup, and a section does not hold its own end. -/
inductive Stands : List Piece → List Char → Prop
  | nil : Stands [] []
  | text {s t u : List Char} {ps : List Piece} (hne : s ≠ []) (hs : '<' ∉ s)
    (ht : Literal.unescape s = .ok t) (h : Stands ps u) : Stands (.text s :: ps) (t ++ u)
  | cdata {s u : List Char} {ps : List Piece} (hs : ¬ sectionEnd <:+: s) (h : Stands ps u) :
    Stands (.cdata s :: ps) (s ++ u)

theorem Stands.append {ps qs : List Piece} {t u : List Char} (h : Stands ps t) (h' : Stands qs u) :
    Stands (ps ++ qs) (t ++ u) := by
  induction h with
  | nil => exact h'
  | text hne hs ht _ ih =>
    rw [List.append_assoc]
    exact ih.text hne hs ht
  | cdata hs _ ih =>
    rw [List.append_assoc]
    exact ih.cdata hs

theorem stands_sections (parts : List (List Char)) (h : ∀ p ∈ parts, ¬ sectionEnd <:+: p) :
    Stands (parts.map .cdata) parts.flatten := by
  induction parts with
  | nil => exact .nil
  | cons p rest ih =>
    have hrest := ih fun q hq => h q (List.mem_cons_of_mem _ hq)
    exact hrest.cdata (h p (List.mem_cons_self ..))

/-- Next to character data, plain text is written as values are. -/
theorem escapeMixed_eq (c : Char) : escapeMixed c = escapeValue c := by
  -- the quotes come last in one and first in the other
  unfold escapeValue
  split
  next h => subst h; rfl
  split
  next h => subst h; rfl
  next hapos hquot => simp only [escapeMixed, escapeText, if_neg hapos, if_neg hquot]

theorem escapes_mixed (c : Char) : Escapes c (escapeMixed c) := escapeMixed_eq c ▸ escapes_value c

/-- What a run with character data is put together from stands for its text. -/
theorem Run.stands_pieces (run : Run) : Stands run.pieces run.chars := by
  induction run with
  | nil => exact .nil
  | cons x rest ih =>
    obtain ⟨s, isCData⟩ := x
    refine Stands.append ?_ ih
    simp only
    split
    next hempty =>
      rw [String.isEmpty_iff.1 hempty]
      exact .nil
    next hfull =>
      split
      next =>
        have hsections := stands_sections (cdataSections s.toList)
          fun p hp => not_infix_of_mem_cdataSections hp
        rwa [flatten_cdataSections] at hsections
      next =>
        have hback (c : Char) := (escapes_mixed c).unescape
        have hne : s.toList.flatMap escapeMixed ≠ [] := by
          rw [Ne, Literal.flatMap_eq_nil_iff hback, String.toList_eq_nil_iff]
          exact fun hs => hfull (String.isEmpty_iff.2 hs)
        have htext := Stands.nil.text hne
          (not_mem_flatMap (fun c => (escapes_mixed c).lt_not_mem) _)
          (Literal.unescape_flatMap hback s.toList)
        rwa [List.append_nil] at htext

end XmlScript.Markup
