import XmlScript.Proofs.Layout
import XmlScript.Proofs.WellFormed

/-!
# Rendering with and without the declaration

The declaration is taken off the written text before that is laid out, so that the layout goes
through two different texts. It is one piece of markup in front of the others (`pieces_append`), no
run of text belongs to it, and all that it leaves behind is that a line may be broken after it. The
document begins with markup as well, and not with a section (`not_section_of_written`): therefore
the line break is all there is between the two (`relayout_declaration`), whatever is indented, and
whether the text can be cut into pieces or not.
-/

namespace XmlScript

namespace Markup

variable {s after : List Char} {p : Piece} {ps : List Piece}

/-! ## The piece that a text begins with -/

theorem isMarkup_of_readBang (h : readBang s = .ok (p, after)) (hs : s.head? ≠ some '[') :
    p.isMarkup = true := by
  unfold readBang at h
  repeat' split at h
  all_goals first
    | exact absurd rfl hs
    | cases h; rfl
    | cases h

/-- What stands behind a bracket is markup, unless a section is opened there. -/
theorem isMarkup_of_readMarkup (h : readMarkup s = .ok (p, after)) (hs : ¬ ['!', '['] <+: s) :
    p.isMarkup = true := by
  unfold readMarkup at h
  split at h
  next rest =>
    refine isMarkup_of_readBang h fun hhead => hs ?_
    obtain ⟨rest', rfl⟩ := List.head?_eq_some_iff.1 hhead
    exact ⟨rest', rfl⟩
  all_goals
    repeat' split at h
    all_goals first
      | cases h; rfl
      | cases h

/-- The first piece of a text that begins with markup. -/
theorem isMarkup_of_pieces (h : pieces s = .ok (p :: ps)) (hs : BeginsMarkup s)
    (hsection : ¬ ['<', '!', '['] <+: s) : p.isMarkup = true := by
  cases s with
  | nil => cases h
  | cons c rest =>
    have hc : c = '<' := hs c rfl
    subst hc
    unfold pieces at h
    rw [List.length_cons, piecesFrom, if_pos rfl] at h
    obtain ⟨⟨p', after⟩, hread, h⟩ := bind_eq_ok_iff.1 h
    obtain ⟨names, -, h⟩ := bind_eq_ok_iff.1 h
    obtain ⟨ps', -, he⟩ := map_eq_ok_iff.1 h
    cases he
    exact isMarkup_of_readMarkup hread fun hpre =>
      hsection (List.cons_prefix_cons.2 ⟨rfl, hpre⟩)

/-- A name opens no section, and neither do the marks of comments and instructions. -/
theorem not_section_of_written {trees : List Tree} {around : List Scope} {count next : Nat}
    {text : List Char} (hroot : ∀ t ∈ trees, t.isText = false)
    (ht : ∀ t ∈ trees, t.Every (Tree.Has Content.Taggable)) (hs : ∀ s ∈ around, s.Spellable)
    (hw : writeTrees? around count trees = some (text, next)) : ¬ ['<', '!', '['] <+: text := by
  cases trees with
  | nil =>
    rw [writeTrees?] at hw
    cases hw
    simp
  | cons t rest =>
    cases t with
    | text s isCData => cases hroot _ (List.mem_cons_self ..)
    | comment s =>
      rw [writeTrees?] at hw
      obtain ⟨⟨after, _⟩, -, hw⟩ := Option.map_eq_some_iff.1 hw
      cases hw
      intro hpre
      have hmark : ['<', '!', '['] <+: '<' :: '!' :: '-' ::
          ('-' :: s.toList ++ "-->".toList ++ after) := hpre
      simp [List.cons_prefix_cons] at hmark
    | instruction target data? =>
      rw [writeTrees?] at hw
      obtain ⟨⟨after, _⟩, -, hw⟩ := Option.map_eq_some_iff.1 hw
      cases hw
      intro hpre
      rw [writeInstruction_eq] at hpre
      have hmark : ['<', '!', '['] <+: '<' :: '?' ::
          (instructionText target data? ++ "?>".toList ++ after) := hpre
      simp [List.cons_prefix_cons] at hmark
    | element label attributes children =>
      obtain ⟨htag, -⟩ := Tree.every_element_iff.1 (ht _ (List.mem_cons_self ..))
      rw [writeTrees?] at hw
      obtain ⟨name, hname, hw⟩ := Option.bind_eq_some_iff.1 hw
      obtain ⟨written, -, hw⟩ := Option.bind_eq_some_iff.1 hw
      obtain ⟨⟨inside, _⟩, -, hw⟩ := Option.bind_eq_some_iff.1 hw
      obtain ⟨⟨after, _⟩, -, hw⟩ := Option.map_eq_some_iff.1 hw
      have hscopes : ∀ s ∈ (Scope.ofElement around count label attributes).1 :: around,
          s.Spellable :=
        List.forall_mem_cons.2 ⟨Scope.spellable_ofElement htag.content htag.attributes hs, hs⟩
      have hlegible : (Content.element label).Legible := htag.content
      have htagName := isTagName_of_writeName? hscopes hlegible.1 hlegible.2 hname
      obtain ⟨c, more, rfl⟩ := List.exists_cons_of_ne_nil htagName.ne_nil
      -- a name begins with no exclamation mark
      have hc : c ≠ '!' := by
        rintro rfl
        exact htagName.not_mem _ (List.mem_cons_self ..) (by decide)
      have htext : ∃ more', text = '<' :: c :: more' := by
        simp only at hw
        split at hw
        next =>
          cases hw
          exact ⟨_, rfl⟩
        next =>
          cases hw
          exact ⟨_, rfl⟩
      obtain ⟨more', rfl⟩ := htext
      intro hpre
      exact hc (List.cons_prefix_cons.1 (List.cons_prefix_cons.1 hpre).2).1.symm

/-! ## Layout -/

/-- Whether a layout with a width breaks a line after the declaration. -/
def lineAfter (width? : Option Nat) (s : List Char) : List Char :=
  if width?.isSome ∧ s ≠ [] then ['\n'] else []

/-- At the start of a text a piece of markup stands on a new line or not, and nothing else depends
on that. -/
theorem placeAll_breaksLine (width? : Option Nat) (hp : p.isMarkup = true) :
    placeAll width? { breaksLine := true } (p :: ps) =
      (if width?.isSome then ['\n'] else []) ++ placeAll width? {} (p :: ps) := by
  cases width? with
  | none => rw [placeAll_none, placeAll_none]; rfl
  | some width =>
    cases p with
    | text s | cdata s => cases hp
    | _ =>
      simp only [placeAll, place, lineStart]
      rfl

theorem written_ne_nil (hp : p.isMarkup = true) : p.written ≠ [] := by
  cases p with
  | text s | cdata s => cases hp
  | _ => exact List.cons_ne_nil _ _

theorem placeAll_ne_nil (width? : Option Nat) (line : Line) (hp : p.isMarkup = true) :
    placeAll width? line (p :: ps) ≠ [] := by
  intro hnil
  have hplace : p.written <:+ (place width? line p).1 := by
    cases p with
    | text s | cdata s => cases hp
    | _ => exact List.suffix_append _ _
  have hfirst : (place width? line p).1 = [] :=
    (List.append_eq_nil_iff (q := placeAll width? (place width? line p).2 ps).1 hnil).1
  rw [hfirst] at hplace
  exact written_ne_nil hp (List.eq_nil_of_suffix_nil hplace)

/-- The layout of a text with the declaration is that of the text without, fault or not. -/
theorem relayout_declaration {body : List Char} (hbegins : BeginsMarkup body)
    (hsection : ¬ ['<', '!', '['] <+: body) (encoding : Bool) (width? : Option Nat)
    (runs : List Run) :
    relayout width? runs (declaration encoding ++ body) =
      (relayout width? runs body).map fun s => declaration encoding ++ lineAfter width? s ++ s := by
  unfold relayout
  rw [declaration_eq, pieces_append (opens_declaration encoding) rfl]
  cases hpieces : pieces body with
  | error e => rfl
  | ok ps =>
    -- the declaration stands at the start, and the rest on a new line
    have hrest : placeAll width? { breaksLine := true } (withRuns width? runs ps) =
        lineAfter width? (placeAll width? {} (withRuns width? runs ps)) ++
          placeAll width? {} (withRuns width? runs ps) := by
      cases ps with
      | nil =>
        show [] = lineAfter width? [] ++ []
        rw [lineAfter, if_neg fun h => h.2 rfl]
        rfl
      | cons p ps =>
        have hp := isMarkup_of_pieces hpieces hbegins hsection
        have hruns : withRuns width? runs ([p] ++ ps) = [p] ++ withRuns width? runs ps :=
          withRuns_markup (List.forall_mem_singleton.2 (Piece.isText_of_isMarkup hp)) width? runs ps
        rw [List.singleton_append, List.singleton_append] at hruns
        have hne : placeAll width? {} (p :: withRuns width? runs ps) ≠ [] :=
          placeAll_ne_nil width? {} hp
        rw [hruns, placeAll_breaksLine width? hp, lineAfter]
        simp only [hne, ne_eq, not_false_eq_true, and_true]
    have hstart : lineStart width? false 0 = [] := by cases width? <;> rfl
    show Except.ok (lineStart width? false 0 ++ _ ++
      placeAll width? { breaksLine := true } (withRuns width? runs ps)) = Except.ok _
    rw [hstart, hrest, List.nil_append, ← List.append_assoc]

end Markup

/-! ## Documents -/

open Markup

namespace Document

variable {d : Document}

/-- Every document that there can be has names that may stand in tags. -/
theorem Reachable.taggable (h : d.Reachable) : d.Holds Content.Taggable :=
  (makeable_taggable.keptByEdits (fun _ => trivial) fun _ => trivial).of_reachable
    (Document.Holds.empty makeable_taggable.absent trivial)
    (fun hread n => (legible_of_read? hread n).taggable) h

/-- A document is rendered with the declaration as it is without, fault or not. -/
theorem Reachable.render_eq_map (h : d.Reachable) (encoding : Bool) (indent? : Option Nat) :
    d.render { declaration := true, encoding, indent? } =
      (d.render { declaration := false, encoding, indent? }).map fun s =>
        declaration encoding ++ lineAfter (indent?.filter (0 < ·)) s ++ s := by
  unfold Document.render
  simp only [if_true, Bool.false_eq_true, if_false]
  cases hwritten : write? encoding d.trees with
  | none => rfl
  | some written =>
    obtain ⟨⟨body, next⟩, hbody, rfl⟩ := Option.map_eq_some_iff.1 hwritten
    have hroot := h.linked.isText_of_mem_trees
    have hbegins := beginsMarkup_of_writeTrees? hroot hbody
    have hsection := not_section_of_written hroot (h.linked.every_has h.taggable)
      (List.forall_mem_nil _) hbody
    simp only [stripDeclaration_append hbegins]
    split
    next hflat =>
      show _ = Except.ok (declaration encoding ++ lineAfter (indent?.filter (0 < ·)) body ++ body)
      rw [Option.isNone_iff_eq_none.1 hflat.1, lineAfter,
        if_neg fun hlines => Bool.false_ne_true hlines.1, List.append_nil]
    split
    next => rfl
    next =>
      rw [relayout_declaration hbegins hsection]
      cases relayout (indent?.filter (0 < ·)) (textRuns d.trees) body <;> rfl

/-- Without the declaration nothing is left of the encoding. -/
theorem Reachable.render_bare (h : d.Reachable) (encoding encoding' : Bool)
    (indent? : Option Nat) :
    d.render { declaration := false, encoding, indent? } =
      d.render { declaration := false, encoding := encoding', indent? } := by
  unfold Document.render write?
  simp only [Bool.false_eq_true, if_false]
  cases hbody : writeTrees? [] 0 d.trees with
  | none => rfl
  | some written =>
    have hbegins := beginsMarkup_of_writeTrees? h.linked.isText_of_mem_trees hbody
    simp only [Option.map_some, stripDeclaration_append hbegins]

/-- Rendering with and without the declaration differ by the declaration only. One succeeds exactly
when the other does; then the text with it is the declaration, a line break if there are lines to
be indented, and the text without. That text does not depend on whether the encoding is named. -/
theorem render_declaration (h : d.Reachable) (encoding : Bool) (indent? : Option Nat) :
    let declared := d.render { declaration := true, encoding, indent? }
    let bare := d.render { declaration := false, encoding, indent? }
    ((∃ s, declared = .ok s) ↔ ∃ s, bare = .ok s) ∧
    (∀ s, bare = .ok s → declared = .ok (declaration encoding ++
      (if indent?.any (0 < ·) ∧ s ≠ [] then ['\n'] else []) ++ s)) ∧
    ∀ encoding', d.render { declaration := false, encoding := encoding', indent? } = bare := by
  intro declared bare
  have hmap : declared = bare.map fun s =>
      declaration encoding ++ lineAfter (indent?.filter (0 < ·)) s ++ s :=
    h.render_eq_map encoding indent?
  have hactive : (indent?.filter (0 < ·)).isSome = indent?.any (0 < ·) := by
    cases indent? with
    | none => rfl
    | some width => by_cases hw : 0 < width <;> simp [Option.filter, hw]
  refine ⟨?_, fun s hs => ?_, fun encoding' => ?_⟩
  · rw [hmap]
    constructor
    · rintro ⟨s, hs⟩
      obtain ⟨s', hs', -⟩ := map_eq_ok_iff.1 hs
      exact ⟨s', hs'⟩
    · rintro ⟨s, hs⟩
      exact ⟨_, map_eq_ok_iff.2 ⟨s, hs, rfl⟩⟩
  · rw [hmap, hs, ← hactive]
    rfl
  · exact h.render_bare encoding' encoding indent?

/-- An instruction and a comment in front of an element with text, on lines. -/
theorem render_declaration_lines :
    ∃ d, Markup.read? "<?p q?><!--c--><a><b>x</b></a>" = some d ∧ d.Reachable ∧
      let bare := "<?p q?>\n<!--c-->\n<a>\n  <b>x</b>\n</a>".toList
      d.render { declaration := false, indent? := some 2 } = .ok bare ∧
        d.render { encoding := true, indent? := some 2 } =
          .ok ("<?xml version=\"1.0\" encoding=\"UTF-8\"?>\n".toList ++ bare) := by
  let label : Label := { name := ⟨none, "a"⟩, spaces := [("xml", xmlSpace)] }
  let made : Document := ⟨#[{ content := .document, children := [1, 2, 3] },
    { content := .instruction "p" (some "q"), parent? := some 0 },
    { content := .comment "c", parent? := some 0 },
    { content := .element label, parent? := some 0, children := [4] },
    { content := .element (.plain "b"), parent? := some 3, children := [5] },
    { content := .text "x" false, parent? := some 4 }]⟩
  have hread : Markup.read? "<?p q?><!--c--><a><b>x</b></a>" = some made := by decide +kernel
  have htrees : made.trees = [.instruction "p" (some "q"), .comment "c",
      .element label [] [.element (.plain "b") [] [.text "x" false]]] := rfl
  have hwritten : write? true made.trees =
      some ("<?xml version=\"1.0\" encoding=\"UTF-8\"?>".toList ++
        "<?p q?><!--c--><a><b>x</b></a>".toList) := by
    rw [htrees]
    simp only [write?, writeTrees?]
    decide +kernel
  have hruns : textRuns made.trees = [[("x", false)]] := by
    rw [htrees]
    simp only [textRuns, runsFrom, List.flatMap_cons, List.flatMap_nil]
    decide +kernel
  have hreachable : made.Reachable := .read hread
  obtain ⟨-, hdeclared, hencoding⟩ := render_declaration hreachable true (some 2)
  have hbare : made.render { declaration := false, encoding := true, indent? := some 2 } =
      .ok "<?p q?>\n<!--c-->\n<a>\n  <b>x</b>\n</a>".toList := by
    unfold Document.render
    simp only [hwritten, hruns]
    rw [htrees]
    decide +kernel
  exact ⟨made, hread, hreachable, (hencoding false).trans hbare, hdeclared _ hbare⟩

end Document

end XmlScript
