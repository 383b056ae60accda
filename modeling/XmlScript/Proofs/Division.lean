import Mathlib.Data.List.Chain
import XmlScript.Proofs.Readback

/-!
# Texts divided into sections

A section ends at the first `]]>` after its opening, so a text that holds `]]>` goes into several
sections. The cut is made inside that end: its brackets close one part and the rest of it opens the
next (`Meets`). The sections of a text are the only division of it into parts that meet like this
and that each end where their section does (`isDivision_iff`).

Sections are written next to each other whatever the indentation, and both readers find each of them
again, whatever follows (`pieces_sections`, `events?_sections`). Inside an element they become text
nodes that say what the text said (`sections_read_back`).
-/

namespace XmlScript.Markup

variable {s : List Char} {part next before after : List Char} {parts : List (List Char)}

/-! ## Where a section ends -/

/-- A part does not hold the end of a section exactly if the end that is put behind it is the only
one there. -/
theorem not_infix_sectionEnd_iff : ¬ sectionEnd <:+: part ↔
    ∀ before after, before ++ sectionEnd ++ after = part ++ sectionEnd →
      before = part ∧ after = [] := by
  constructor
  · intro h before after heq
    rcases List.eq_nil_or_concat' after with rfl | ⟨front, c, rfl⟩
    · rw [List.append_nil] at heq
      exact ⟨List.append_cancel_right heq, rfl⟩
    · -- an end that something follows is over before the last character
      have hlast : before ++ sectionEnd ++ front ++ [c] = part ++ [']', ']'] ++ ['>'] := by
        rw [List.append_assoc _ front, heq, List.append_assoc]
        rfl
      have hfront := (List.append_inj' hlast rfl).1
      exact absurd ⟨before, front, hfront⟩ (not_infix_brackets h)
  · rintro h ⟨before, after, rfl⟩
    have hafter := (h before (after ++ sectionEnd) (List.append_assoc _ _ _).symm).2
    exact absurd (List.append_eq_nil_iff.1 hafter).2 (List.cons_ne_nil _ _)

/-! ## Where a text is cut -/

/-- The end of a section stands where two parts meet, its brackets in the first one. -/
def Meets (part next : List Char) : Prop := [']', ']'] <:+ part ∧ ['>'] <+: next

theorem prefix_of_mem_head?_glueSections (h : next ∈ (glueSections false parts).head?) :
    ['>'] <+: next := by
  cases parts with
  | nil => cases h
  | cons part rest =>
    by_cases hrest : rest = []
    · subst hrest
      cases h
      exact List.prefix_append ['>'] part
    · rw [glueSections_cons hrest] at h
      cases h
      exact List.prefix_append ['>'] (part ++ [']', ']'])

theorem isChain_glueSections (isFirst : Bool) (parts : List (List Char)) :
    (glueSections isFirst parts).IsChain Meets := by
  induction parts generalizing isFirst with
  | nil =>
    rw [glueSections]
    exact List.isChain_nil
  | cons part rest ih =>
    by_cases hrest : rest = []
    · subst hrest
      rw [glueSections]
      exact List.isChain_singleton _
    · rw [glueSections_cons hrest, List.isChain_cons]
      refine ⟨fun next hnext => ⟨List.suffix_append _ _, ?_⟩, ih false⟩
      exact prefix_of_mem_head?_glueSections hnext

theorem Meets.of_cons (h : Meets ('>' :: part) next) : Meets part next := by
  refine ⟨?_, h.2⟩
  rcases List.suffix_cons_iff.1 h.1 with heq | hsuffix
  · cases heq
  · exact hsuffix

theorem splitAtMark_of_not_infix {mark : List Char} {bound : Nat} (h : ¬ mark <:+: s) :
    splitAtMark mark bound s = [s] := by
  cases bound with
  | zero => rfl
  | succ bound => rw [splitAtMark, Text.cutAt_eq_none h]

/-- Parts that meet inside ends and hold none are what their text is divided into. -/
theorem glueSections_splitAtMark {bound : Nat} (isFirst : Bool) {rest : List (List Char)}
    (hmeets : (part :: rest).IsChain Meets) (hends : ∀ p ∈ part :: rest, ¬ sectionEnd <:+: p)
    (hb : (part ++ rest.flatten).length ≤ bound) :
    glueSections isFirst (splitAtMark sectionEnd bound (part ++ rest.flatten)) =
      (if isFirst then part else '>' :: part) :: rest := by
  induction rest generalizing part isFirst bound with
  | nil =>
    rw [List.flatten_nil, List.append_nil,
      splitAtMark_of_not_infix (hends part (List.mem_cons_self ..)), glueSections]
  | cons next rest ih =>
    rw [List.forall_mem_cons, List.forall_mem_cons] at hends
    obtain ⟨hpart, hnext, hrest⟩ := hends
    obtain ⟨⟨⟨before, rfl⟩, ⟨tail, rfl⟩⟩, hchain⟩ := List.isChain_cons_cons.1 hmeets
    -- the two halves of the end are put together, and what is cut behind it lacks its bracket
    have htext : before ++ [']', ']'] ++ ((['>'] ++ tail) :: rest).flatten =
        before ++ sectionEnd ++ (tail ++ rest.flatten) := by
      simp [sectionEnd]
    rw [htext] at hb ⊢
    have hbefore : ¬ sectionEnd <:+: before := fun hin =>
      hpart (hin.trans (List.prefix_append _ _).isInfix)
    have htail : ¬ sectionEnd <:+: tail := fun hin =>
      hnext (hin.trans (List.suffix_append _ _).isInfix)
    have hchain' : (tail :: rest).IsChain Meets := by
      rw [List.isChain_cons] at hchain ⊢
      exact ⟨fun p hp => (hchain.1 p hp).of_cons, hchain.2⟩
    cases bound with
    | zero => simp [sectionEnd] at hb
    | succ bound =>
      have hlen : (tail ++ rest.flatten).length ≤ bound := by
        rw [List.length_append, List.length_append, List.length_cons] at hb
        omega
      rw [splitAtMark, Text.cutAt_sectionEnd hbefore]
      simp only
      rw [glueSections_cons (splitAtMark_ne_nil _ _ _),
        ih false hchain' (List.forall_mem_cons.2 ⟨htail, hrest⟩) hlen]
      cases isFirst <;> rfl

theorem cdataSections_ne_nil (s : List Char) : cdataSections s ≠ [] := by
  unfold cdataSections
  obtain ⟨part, rest, hsplit⟩ := List.exists_cons_of_ne_nil
    (splitAtMark_ne_nil sectionEnd s.length s)
  rw [show "]]>".toList = sectionEnd from rfl, hsplit]
  cases rest <;> exact List.cons_ne_nil _ _

/-- A text divided into parts, one for each section. -/
structure IsDivision (s : List Char) (parts : List (List Char)) : Prop where
  ne_nil : parts ≠ []
  flatten_eq : parts.flatten = s
  /-- In a part with an end put behind it, that end is the only one. -/
  ends_last : ∀ part ∈ parts, ∀ before after,
    before ++ sectionEnd ++ after = part ++ sectionEnd → before = part ∧ after = []
  /-- A cut is made nowhere but inside an end. -/
  meets : parts.IsChain Meets

theorem isDivision_iff : IsDivision s parts ↔ parts = cdataSections s := by
  constructor
  · rintro ⟨hne, rfl, hends, hmeets⟩
    obtain ⟨part, rest, rfl⟩ := List.exists_cons_of_ne_nil hne
    have hno : ∀ p ∈ part :: rest, ¬ sectionEnd <:+: p := fun p hp =>
      not_infix_sectionEnd_iff.2 (hends p hp)
    exact (glueSections_splitAtMark true hmeets hno (Nat.le_refl _)).symm
  · rintro rfl
    refine ⟨cdataSections_ne_nil s, flatten_cdataSections s, fun part hpart => ?_,
      isChain_glueSections true _⟩
    exact not_infix_sectionEnd_iff.1 (not_infix_of_mem_cdataSections hpart)

example : cdataSections "]]]>]]>]]".toList =
    ["]]]".toList, ">]]".toList, ">]]".toList] := by decide

/-! ## Sections written and read -/

/-- The sections of some parts, one after the other. -/
def writtenSections (parts : List (List Char)) : List Char :=
  parts.flatMap fun part => "<![CDATA[".toList ++ part ++ sectionEnd

/-- What sections are read as. -/
def sectionEvents (parts : List (List Char)) : List Event :=
  parts.map fun part => .cdata (String.ofList part)

/-- What sections inside an element become. -/
def sectionTexts (parts : List (List Char)) : List Tree :=
  parts.map fun part => .text (String.ofList part) false

theorem writtenSections_cons (part : List Char) (parts : List (List Char)) (rest : List Char) :
    writtenSections (part :: parts) ++ rest =
      (Piece.cdata part).written ++ (writtenSections parts ++ rest) :=
  List.append_assoc ..

/-- No line is broken between sections, and no blank is put there. -/
theorem placeAll_sections (width? : Option Nat) (line : Line)
    (h : ∀ part ∈ parts, ¬ sectionEnd <:+: part) :
    placeAll width? line (parts.map .cdata) = writtenSections parts := by
  have hfiller : ∀ p ∈ parts.map Piece.cdata, IsFiller p := by
    intro p hp
    obtain ⟨part, hpart, rfl⟩ := List.mem_map.1 hp
    exact h part hpart
  have hlines := onLines_fill width? line hfiller []
  rw [List.append_nil, onLines, List.append_nil] at hlines
  rw [placeAll_eq, hlines, List.flatMap_map]
  rfl

theorem pieces_sections (h : ∀ part ∈ parts, ¬ sectionEnd <:+: part) (rest : List Char) :
    pieces (writtenSections parts ++ rest) = (pieces rest).map (parts.map .cdata ++ ·) := by
  induction parts with
  | nil => cases hrest : pieces rest <;> exact hrest
  | cons part parts ih =>
    rw [List.forall_mem_cons] at h
    rw [writtenSections_cons, pieces_append (opens_cdata h.1) rfl, ih h.2]
    cases pieces rest <;> rfl

theorem events?_sections (h : ∀ part ∈ parts, ¬ sectionEnd <:+: part) (rest : List Char) :
    events? (writtenSections parts ++ rest) = (events? rest).map (sectionEvents parts ++ ·) := by
  induction parts with
  | nil => cases hrest : events? rest <;> exact hrest
  | cons part parts ih =>
    rw [List.forall_mem_cons] at h
    have hne : (Piece.cdata part).written ≠ [] := List.cons_ne_nil _ _
    rw [writtenSections_cons, events?_append hne (event?_cdata h.1 _), ih h.2]
    cases events? rest <;> rfl

theorem foldlM_sectionEvents (parts : List (List Char)) (stage : Stage) (top : List Tree)
    (e : OpenElement) (outer : List OpenElement) :
    (sectionEvents parts).foldlM Progress.step? ⟨stage, top, e :: outer⟩ =
      some ⟨stage, top,
        { e with children := (sectionTexts parts).reverse ++ e.children } :: outer⟩ := by
  induction parts generalizing e with
  | nil => rfl
  | cons part parts ih =>
    refine (ih { e with children := .text (String.ofList part) false :: e.children }).trans ?_
    rw [sectionTexts, sectionTexts, List.map_cons, List.reverse_cons, List.append_assoc]
    rfl

theorem textBelow_sectionTexts (parts : List (List Char)) :
    Tree.textBelow (sectionTexts parts) = String.ofList parts.flatten := by
  induction parts with
  | nil => rw [sectionTexts, List.map_nil, Tree.textBelow, List.flatten_nil, String.ofList_nil]
  | cons part parts ih =>
    rw [List.flatten_cons, String.ofList_append, ← ih, sectionTexts, List.map_cons,
      Tree.textBelow]
    rfl

/-- The sections of a text are its only division. They are written one after the other, whatever
the indentation; both readers find every one of them where it was written, and inside an element
they become text nodes that together say what the text said. -/
theorem sections_read_back (s : List Char) :
    (∀ parts, IsDivision s parts ↔ parts = cdataSections s) ∧
      (∀ width? line,
        placeAll width? line ((cdataSections s).map .cdata) = writtenSections (cdataSections s)) ∧
      (∀ rest, pieces (writtenSections (cdataSections s) ++ rest) =
        (pieces rest).map ((cdataSections s).map .cdata ++ ·)) ∧
      (∀ rest, events? (writtenSections (cdataSections s) ++ rest) =
        (events? rest).map (sectionEvents (cdataSections s) ++ ·)) ∧
      (∀ stage top e outer,
        (sectionEvents (cdataSections s)).foldlM Progress.step? ⟨stage, top, e :: outer⟩ =
          some ⟨stage, top, { e with
            children := (sectionTexts (cdataSections s)).reverse ++ e.children } :: outer⟩) ∧
      Tree.textBelow (sectionTexts (cdataSections s)) = String.ofList s := by
  have hno : ∀ part ∈ cdataSections s, ¬ sectionEnd <:+: part := fun part hpart =>
    not_infix_of_mem_cdataSections hpart
  refine ⟨fun parts => isDivision_iff, fun width? line => placeAll_sections width? line hno,
    pieces_sections hno, events?_sections hno, foldlM_sectionEvents _, ?_⟩
  rw [textBelow_sectionTexts, flatten_cdataSections]

end XmlScript.Markup
