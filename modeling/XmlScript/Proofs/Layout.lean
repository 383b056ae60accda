import XmlScript.Proofs.Sections
import XmlScript.Render

/-!
# Rendering character data

A document with character data is rendered in two steps that know nothing of each other: the writer
writes all text alike, and `relayout` puts back the sections by counting the pieces of text.
`Alignment` is what makes that right: the pieces of text are the runs of the document, in order and
none left over. What scripts make without comments and instructions is aligned
(`Engine.render_aligned`), so that nothing but runs with character data is touched.
-/

namespace XmlScript

namespace Markup

namespace Run

/-- A run as it is written, in one piece of text. -/
def plain (run : Run) : List Piece := [.text run.escaped]

/-- What is put in the place of that piece. -/
def rewritten (run : Run) : List Piece := if run.hasCData then run.pieces else run.plain

end Run

/-- Markup, then runs with markup after each. -/
def weave (pieces : Run → List Piece) (front : List Piece) (parts : List (Run × List Piece)) :
    List Piece :=
  front ++ parts.flatMap fun part => pieces part.1 ++ part.2

/-- A written text and its runs: between markup each run stands in one piece of text. -/
structure Alignment (runs : List Run) (text : List Char) where
  front : List Piece
  parts : List (Run × List Piece)
  runs_eq : parts.map (·.1) = runs
  front_markup : ∀ p ∈ front, p.isText = false
  parts_markup : ∀ part ∈ parts, ∀ p ∈ part.2, p.isText = false
  pieces_eq : pieces text = .ok (weave Run.plain front parts)
  text_eq : text = (weave Run.plain front parts).flatMap Piece.written

/-- The pieces with every run put back together. -/
def Alignment.rewritten {runs : List Run} {text : List Char} (a : Alignment runs text) :
    List Piece :=
  weave Run.rewritten a.front a.parts

/-! ## Pieces that are woven -/

theorem exists_parts_of_woven {runs : List Run} {ps : List Piece} (h : Woven runs ps) :
    ∃ (front : List Piece) (parts : List (Run × List Piece)), parts.map (·.1) = runs ∧
      (∀ p ∈ front, p.isText = false) ∧ (∀ part ∈ parts, ∀ p ∈ part.2, p.isText = false) ∧
        ps = weave Run.plain front parts := by
  induction h with
  | nil => exact ⟨[], [], rfl, List.forall_mem_nil _, List.forall_mem_nil _, rfl⟩
  | @markup _ p _ hp _ ih =>
    obtain ⟨front, parts, hruns, hfront, hparts, rfl⟩ := ih
    have hp' := Piece.isText_of_isMarkup hp
    exact ⟨p :: front, parts, hruns, List.forall_mem_cons.2 ⟨hp', hfront⟩, hparts, rfl⟩
  | @run run _ _ _ ih =>
    -- the markup after the run was in front before
    obtain ⟨front, parts, hruns, hfront, hparts, rfl⟩ := ih
    exact ⟨[], (run, front) :: parts, congrArg (run :: ·) hruns, List.forall_mem_nil _,
      List.forall_mem_cons.2 ⟨hfront, hparts⟩, rfl⟩

theorem flatMap_written_of_reads {names : List (List Char)} {s : List Char} {ps : List Piece}
    (h : Reads names s ps) : s = ps.flatMap Piece.written := by
  induction h with
  | nil => rfl
  | mark _ _ _ ih => rw [List.flatMap_cons, ← ih]
  | text _ _ _ _ ih =>
    rw [List.flatMap_cons, ← ih]
    rfl

theorem nonempty_alignment_of_reads {runs : List Run} {text : List Char} {ps : List Piece}
    (h : Reads [] text ps) (hw : Woven runs ps) : Nonempty (Alignment runs text) := by
  obtain ⟨front, parts, hruns, hfront, hparts, rfl⟩ := exists_parts_of_woven hw
  exact ⟨⟨front, parts, hruns, hfront, hparts, pieces_of_reads h, flatMap_written_of_reads h⟩⟩

/-! ## Layout without indentation -/

theorem placeAll_none (line : Line) (ps : List Piece) :
    placeAll none line ps = ps.flatMap Piece.written := by
  induction ps generalizing line with
  | nil => rfl
  | cons p rest ih =>
    have hp : (place none line p).1 = p.written := by cases p <;> rfl
    show (place none line p).1 ++ placeAll none (place none line p).2 rest = _
    rw [hp, ih, List.flatMap_cons]

theorem withRuns_markup {front : List Piece} (h : ∀ p ∈ front, p.isText = false)
    (width? : Option Nat) (runs : List Run) (ps : List Piece) :
    withRuns width? runs (front ++ ps) = front ++ withRuns width? runs ps := by
  induction front with
  | nil => rfl
  | cons p rest ih =>
    rw [List.forall_mem_cons] at h
    cases p with
    | text s => cases h.1
    | _ => exact congrArg _ (ih h.2)

theorem textPieces_none (run : Run) : textPieces none run run.escaped = run.rewritten := by
  unfold textPieces Run.rewritten
  split
  next => rfl
  next => exact if_pos rfl

/-- The runs are counted off by the pieces of text. -/
theorem withRuns_weave {front : List Piece} {parts : List (Run × List Piece)}
    (hfront : ∀ p ∈ front, p.isText = false)
    (hparts : ∀ part ∈ parts, ∀ p ∈ part.2, p.isText = false) :
    withRuns none (parts.map (·.1)) (weave Run.plain front parts) =
      weave Run.rewritten front parts := by
  unfold weave
  rw [withRuns_markup hfront]
  congr 1
  induction parts with
  | nil => rfl
  | cons part rest ih =>
    obtain ⟨run, markup⟩ := part
    rw [List.forall_mem_cons] at hparts
    rw [List.map_cons, List.flatMap_cons, Run.plain, List.append_assoc, List.singleton_append,
      withRuns, List.headD_cons, List.tail_cons, textPieces_none, withRuns_markup hparts.1,
      ih hparts.2, List.flatMap_cons, List.append_assoc]

namespace Alignment

variable {runs : List Run} {text : List Char}

/-- Laying out an aligned text does not fail, and it touches the runs alone. -/
theorem relayout_eq (a : Alignment runs text) :
    relayout none runs text = .ok (a.rewritten.flatMap Piece.written) := by
  have hruns := withRuns_weave a.front_markup a.parts_markup
  rw [a.runs_eq] at hruns
  unfold relayout
  rw [a.pieces_eq]
  show Except.ok (placeAll none {} (withRuns none runs _)) = _
  rw [hruns, placeAll_none]
  rfl

/-- Without character data nothing is touched. -/
theorem flatMap_written_rewritten (a : Alignment runs text)
    (h : runs.any Run.hasCData = false) : a.rewritten.flatMap Piece.written = text := by
  have hrewritten : ∀ part ∈ a.parts,
      part.1.rewritten ++ part.2 = part.1.plain ++ part.2 := by
    intro part hpart
    have hmem : part.1 ∈ runs := a.runs_eq ▸ List.mem_map_of_mem hpart
    unfold Run.rewritten
    rw [if_neg (List.any_eq_false.1 h part.1 hmem)]
  have hpieces : a.rewritten = weave Run.plain a.front a.parts :=
    congrArg (a.front ++ ·) (List.flatMap_congr hrewritten)
  rw [hpieces, ← a.text_eq]

end Alignment

/-! ## Documents -/

/-- At the top level there is no text, and in front of a document no run. -/
theorem textRuns_eq {trees : List Tree} (h : ∀ t ∈ trees, t.isText = false) :
    textRuns trees = runsFrom [] trees := by
  induction trees with
  | nil =>
    rw [runsFrom]
    rfl
  | cons t rest ih =>
    rw [List.forall_mem_cons] at h
    unfold textRuns at ih ⊢
    rw [List.flatMap_cons, ih h.2]
    cases t with
    | text s isCData => cases h.1
    | element label attributes children =>
      rw [runsFrom, Run.kept_nil]
      rfl
    | comment s | instruction target data? => rw [runsFrom, Run.kept_nil]

theorem beginsMarkup_of_writeTrees? {trees : List Tree} {around : List Scope} {count next : Nat}
    {text : List Char} (h : ∀ t ∈ trees, t.isText = false)
    (hw : writeTrees? around count trees = some (text, next)) : BeginsMarkup text := by
  have hlt (s : List Char) : BeginsMarkup ('<' :: s) := fun c hc => (Option.some.inj hc).symm
  cases trees with
  | nil =>
    rw [writeTrees?] at hw
    cases hw
    intro c hc
    cases hc
  | cons t rest =>
    cases t with
    | text s isCData => cases h _ (List.mem_cons_self ..)
    | element label attributes children =>
      rw [writeTrees?] at hw
      obtain ⟨tag, -, hw⟩ := Option.bind_eq_some_iff.1 hw
      obtain ⟨written, -, hw⟩ := Option.bind_eq_some_iff.1 hw
      obtain ⟨_, -, hw⟩ := Option.bind_eq_some_iff.1 hw
      obtain ⟨_, -, hw⟩ := Option.map_eq_some_iff.1 hw
      simp only at hw
      split at hw
      next =>
        cases hw
        exact hlt _
      next =>
        cases hw
        exact hlt _
    | comment s | instruction target data? =>
      rw [writeTrees?] at hw
      obtain ⟨_, -, hw⟩ := Option.map_eq_some_iff.1 hw
      cases hw
      exact hlt _

/-- What a declaration says. -/
def declarationText (encoding : Bool) : List Char :=
  if encoding then "xml version=\"1.0\" encoding=\"UTF-8\"".toList
  else "xml version=\"1.0\"".toList

theorem declaration_eq (encoding : Bool) :
    declaration encoding = (Piece.instruction (declarationText encoding)).written := by
  cases encoding <;> rfl

theorem opens_declaration (encoding : Bool) : Opens (.instruction (declarationText encoding)) := by
  have hmark : '?' ∉ declarationText encoding := by cases encoding <;> decide
  refine opens_instruction ?_ ?_ fun h => hmark (h.subset (List.mem_cons_self ..))
  · cases encoding <;> decide
  · cases encoding <;> decide

/-- A declaration ends at the first place that looks like its end. -/
theorem cutAt_declaration (encoding : Bool) (body : List Char) :
    Text.cutAt "?>".toList (declaration encoding ++ body) =
      some ('<' :: '?' :: declarationText encoding, body) := by
  have hmark : ¬ ['?', '>'] <:+: '<' :: '?' :: declarationText encoding := by
    cases encoding <;> decide +kernel
  have hsplit : declaration encoding ++ body =
      '<' :: '?' :: declarationText encoding ++ ['?', '>'] ++ body := by
    rw [declaration_eq]
    rfl
  rw [hsplit]
  exact Text.cutAt_instructionEnd hmark body

theorem stripDeclaration_append {encoding : Bool} {body : List Char} (h : BeginsMarkup body) :
    stripDeclaration (declaration encoding ++ body) = body := by
  have hfront : "<?xml".toList <+: declaration encoding := by
    cases encoding <;> decide +kernel
  unfold stripDeclaration
  rw [if_pos (List.isPrefixOf_iff_prefix.2 (hfront.trans (List.prefix_append _ _))),
    cutAt_declaration]
  cases body with
  | nil => rfl
  | cons c rest =>
    have hc := h c rfl
    subst hc
    rfl

/-- What stands in front of the pieces of a document. -/
def front (declared encoding : Bool) : List Piece :=
  if declared then [.instruction (declarationText encoding)] else []

/-- The pieces of a document read back, with the declaration and without. -/
theorem Pieced.reads_document {trees : List Tree} {ps : List Piece} {next : Nat}
    (h : Pieced [] 0 [] trees ps next) (hroot : ∀ t ∈ trees, t.isText = false)
    (ht : ∀ t ∈ trees, t.Every (Tree.Has Content.Writable)) (encoding declared : Bool) :
    ∃ written, write? encoding trees = some written ∧
      Reads [] (if declared then written else stripDeclaration written)
        (front declared encoding ++ ps) ∧
      Woven (textRuns trees) (front declared encoding ++ ps) := by
  obtain ⟨body, hbody, htext⟩ := h.write
  rw [Run.escaped_nil, List.nil_append] at htext
  have hwritten : write? encoding trees = some (declaration encoding ++ body) := by
    unfold write?
    rw [hbody]
    rfl
  have hreads : Reads [] body ps := by
    have hbody := h.reads (List.forall_mem_nil _) ht (Reads.nil []) nofun
    rwa [List.append_nil, List.append_nil, htext] at hbody
  have hwoven : Woven (textRuns trees) ps := by
    rw [textRuns_eq hroot]
    exact h.woven
  refine ⟨_, hwritten, ?_⟩
  cases declared with
  | true =>
    refine ⟨?_, hwoven.markup rfl⟩
    rw [if_pos rfl, declaration_eq]
    exact .mark (opens_declaration encoding) rfl hreads
  | false =>
    refine ⟨?_, hwoven⟩
    rw [if_neg Bool.false_ne_true, stripDeclaration_append
      (beginsMarkup_of_writeTrees? hroot hbody)]
    exact hreads

/-- What is written of trees consists of their runs and of markup, with the declaration and
without. -/
theorem exists_woven {encoding : Bool} {trees : List Tree} {written : List Char}
    (hroot : ∀ t ∈ trees, t.isText = false)
    (ht : ∀ t ∈ trees, t.Every (Tree.Has Content.Writable))
    (hw : write? encoding trees = some written) (declared : Bool) :
    ∃ ps, Reads [] (if declared then written else stripDeclaration written) ps ∧
      Woven (textRuns trees) ps := by
  obtain ⟨⟨body, next⟩, hbody, -⟩ := Option.map_eq_some_iff.1 hw
  obtain ⟨ps, hps⟩ := Pieced.exists_of_write hbody []
  obtain ⟨written', hw', hreads, hwoven⟩ := hps.reads_document hroot ht encoding declared
  cases hw.symm.trans hw'
  exact ⟨_, hreads, hwoven⟩

theorem nonempty_alignment {encoding : Bool} {trees : List Tree} {written : List Char}
    (hroot : ∀ t ∈ trees, t.isText = false)
    (ht : ∀ t ∈ trees, t.Every (Tree.Has Content.Writable))
    (hw : write? encoding trees = some written) :
    Nonempty (Alignment (textRuns trees) written) ∧
      Nonempty (Alignment (textRuns trees) (stripDeclaration written)) := by
  obtain ⟨_, hwhole, hwoven⟩ := exists_woven hroot ht hw true
  obtain ⟨_, hstripped, hwoven'⟩ := exists_woven hroot ht hw false
  exact ⟨nonempty_alignment_of_reads hwhole hwoven, nonempty_alignment_of_reads hstripped hwoven'⟩

end Markup

/-! ## What scripts make -/

open Markup

namespace Document

variable {d : Document} {options : RenderOptions} {written : List Char}

/-- Without indentation a document is laid out only where there is character data. -/
theorem render_eq (hindent : ∀ width ∈ options.indent?, width = 0)
    (hwritten : write? options.encoding d.trees = some written) :
    let text := if options.declaration then written else stripDeclaration written
    d.render options = if (textRuns d.trees).any Run.hasCData then
      (relayout none (textRuns d.trees) text).mapError .layout else .ok text := by
  have hwidth : options.indent?.filter (0 < ·) = none := by
    rw [Option.filter_eq_none_iff]
    intro width hmem
    rw [hindent width hmem]
    decide
  unfold Document.render
  simp only [hwritten, hwidth]
  by_cases hcdata : (textRuns d.trees).any Run.hasCData = true
  · rw [if_neg fun h => h.2 hcdata, if_neg fun h => Bool.false_ne_true h.1, if_pos hcdata]
  · rw [if_pos ⟨rfl, hcdata⟩, if_neg hcdata]

/-- An aligned document is rendered as it is written, but for its runs with character data. -/
theorem render_of_alignment (hindent : ∀ width ∈ options.indent?, width = 0)
    (hwritten : write? options.encoding d.trees = some written)
    (a : Alignment (textRuns d.trees)
      (if options.declaration then written else stripDeclaration written)) :
    d.render options = .ok (a.rewritten.flatMap Piece.written) := by
  rw [render_eq hindent hwritten]
  split
  next =>
    rw [a.relayout_eq]
    rfl
  next hcdata => rw [a.flatMap_written_rewritten (Bool.eq_false_iff.2 hcdata)]

end Document

namespace Engine

variable {d₀ : Document} {script : Script}

/-- A script without comments and instructions leaves a document legible. -/
theorem legible_apply (hd : d₀.Holds Content.Legible)
    (hscript : ∀ directive ∈ script, directive.keyword ≠ .comment ∧ directive.keyword ≠ .pi) :
    (apply script d₀).2.Holds Content.Legible := by
  refine Keeps.apply (fun directive hmem => keeps_holds makeable_legible directive ?_ ?_) hd
  · rintro text rfl
    exact absurd rfl (hscript _ hmem).1
  · rintro target data rfl
    exact absurd rfl (hscript _ hmem).2

/-- No script brings an apostrophe into a namespace; so there is none in what is made of the empty
document. -/
theorem unquoted_apply (hd : d₀.Holds Content.Unquoted) (script : Script) :
    (apply script d₀).2.Holds Content.Unquoted :=
  Keeps.apply (fun directive _ => keeps_holds makeable_unquoted directive (fun _ _ => trivial)
    fun _ _ _ _ => trivial) hd

/-- Without indentation a document that a script makes of the empty one or of one that was read is
rendered as it is written, but for the runs with character data. Each run is written in one piece of
text, in order and none left over; it reads back as the text of the run, and so do the pieces that
are put in its place. -/
theorem render_aligned {written : List Char}
    (hstart : d₀ = .empty ∨ ∃ text, Markup.read? text = some d₀)
    (hscript : ∀ directive ∈ script, directive.keyword ≠ .comment ∧ directive.keyword ≠ .pi)
    (hunquoted : ∀ t ∈ (apply script d₀).2.trees, t.Every (Tree.Has Content.Unquoted))
    (options : RenderOptions) (hindent : ∀ width ∈ options.indent?, width = 0)
    (hwritten : write? options.encoding (apply script d₀).2.trees = some written) :
    let d := (apply script d₀).2
    let text := if options.declaration then written else stripDeclaration written
    (∀ run ∈ textRuns d.trees,
      Literal.unescape run.escaped = .ok run.chars ∧ Stands run.pieces run.chars) ∧
    ∃ a : Alignment (textRuns d.trees) text,
      relayout none (textRuns d.trees) text = .ok (a.rewritten.flatMap Piece.written) ∧
        d.render options = .ok (a.rewritten.flatMap Piece.written) ∧
          ((textRuns d.trees).any Run.hasCData = false →
            a.rewritten.flatMap Piece.written = text) := by
  intro d text
  have hd₀ : d₀.Linked ∧ d₀.Holds Content.Legible := by
    rcases hstart with rfl | ⟨text, hread⟩
    · exact ⟨Document.Linked.ofEmpty, Document.Holds.empty makeable_legible.absent trivial⟩
    · exact ⟨Document.linked_read? hread, legible_of_read? hread⟩
  have hlinked : d.Linked := Keeps.apply (fun directive _ => keeps_linked directive) hd₀.1
  have hwritable : ∀ t ∈ d.trees, t.Every (Tree.Has Content.Writable) := by
    intro t ht
    refine (hlinked.every_has (legible_apply hd₀.2 hscript) t ht).both (hunquoted t ht) ?_
    exact fun _ hl hu =>
      ⟨⟨hl.content, hu.content⟩, fun a ha => ⟨hl.attributes a ha, hu.attributes a ha⟩⟩
  obtain ⟨hwhole, hstripped⟩ :=
    nonempty_alignment hlinked.isText_of_mem_trees hwritable hwritten
  have haligned : Nonempty (Alignment (textRuns d.trees) text) := by
    show Nonempty (Alignment _ (if options.declaration then written else stripDeclaration written))
    split
    next => exact hwhole
    next => exact hstripped
  obtain ⟨a⟩ := haligned
  exact ⟨fun run _ => ⟨run.unescape_escaped, run.stands_pieces⟩, a, a.relayout_eq,
    Document.render_of_alignment hindent hwritten a, a.flatMap_written_rewritten⟩

/-- Character data with the end of a section in it, after plain text in an element with a
namespace. -/
theorem render_aligned_mixed :
    let arg (s : String) (h : Literal.check s.toList = .ok ()) : Arg :=
      ⟨s, Literal.check_eq_ok_iff.1 h⟩
    let script : Script := [.ensureElement (arg "a" rfl), .setText (arg "y<" rfl),
      .addCData (arg "]]>" rfl), .addElement (arg "b" rfl), .setText (arg "x" rfl)]
    let text := "<?xml version=\"1.0\"?><a xmlns='u'>y&lt;]]&gt;<b>x</b></a>".toList
    ∃ d₀, Markup.read? "<a xmlns=\"u\"/>" = some d₀ ∧
      (∀ directive ∈ script, directive.keyword ≠ .comment ∧ directive.keyword ≠ .pi) ∧
      let d := (apply script d₀).2
      (∀ t ∈ d.trees, t.Every (Tree.Has Content.Unquoted)) ∧ write? false d.trees = some text ∧
        textRuns d.trees = [[("y<", false), ("]]>", true)], [("x", false)]] ∧
          ∃ a : Alignment (textRuns d.trees) (stripDeclaration text),
            d.render { declaration := false } = .ok (a.rewritten.flatMap Piece.written) ∧
              a.rewritten.flatMap Piece.written =
                "<a xmlns='u'>y&lt;<![CDATA[]]]]><![CDATA[>]]><b>x</b></a>".toList := by
  intro arg script text
  let label : Label :=
    { name := ⟨some "u", "a"⟩, defaultSpace? := some "u", spaces := [("xml", xmlSpace)] }
  let made : Document := ⟨#[{ content := .document, children := [1] },
    { content := .element label, parent? := some 0, children := [2, 3, 4] },
    { content := .text "y<" false, parent? := some 1 },
    { content := .text "]]>" true, parent? := some 1 },
    { content := .element (.plain "b"), parent? := some 1, children := [5] },
    { content := .text "x" false, parent? := some 4 }]⟩
  have hmade : (Markup.read? "<a xmlns=\"u\"/>").map (fun d => (apply script d).2) = some made := by
    decide +kernel
  obtain ⟨d₀, hread, hd⟩ := Option.map_eq_some_iff.1 hmade
  have hscript : ∀ directive ∈ script, directive.keyword ≠ .comment ∧ directive.keyword ≠ .pi := by
    decide +kernel
  have htrees : (apply script d₀).2.trees = [.element label [] [.text "y<" false,
      .text "]]>" true, .element (.plain "b") [] [.text "x" false]]] := by
    rw [hd]
    rfl
  have hwritten : write? false (apply script d₀).2.trees = some text := by
    rw [htrees]
    simp only [write?, writeTrees?]
    decide +kernel
  have hruns : textRuns (apply script d₀).2.trees =
      [[("y<", false), ("]]>", true)], [("x", false)]] := by
    rw [htrees]
    simp only [textRuns, runsFrom, List.flatMap_cons, List.flatMap_nil]
    decide +kernel
  have hlinked : (apply script d₀).2.Linked :=
    Keeps.apply (fun directive _ => keeps_linked directive) (Document.linked_read? hread)
  have hentries : (Markup.read? "<a xmlns=\"u\"/>").all (fun d =>
      ∀ n < d.size, (d.entry n).content.Unquoted) = true := by
    decide +kernel
  rw [hread] at hentries
  have hunquoted : (apply script d₀).2.Holds Content.Unquoted :=
    unquoted_apply (.of_lt makeable_unquoted.absent (of_decide_eq_true hentries)) script
  have hevery : ∀ t ∈ (apply script d₀).2.trees, t.Every (Tree.Has Content.Unquoted) :=
    hlinked.every_has hunquoted
  obtain ⟨-, a, hlayout, hrender, -⟩ := render_aligned (.inr ⟨_, hread⟩) hscript hevery
    { declaration := false } (fun width h => absurd h (Option.not_mem_none width)) hwritten
  have hout : relayout none (textRuns (apply script d₀).2.trees) (stripDeclaration text) =
      .ok "<a xmlns='u'>y&lt;<![CDATA[]]]]><![CDATA[>]]><b>x</b></a>".toList := by
    rw [hruns]
    decide +kernel
  exact ⟨d₀, hread, hscript, hevery, hwritten, hruns, a, hrender,
    Except.ok.inj (hlayout.symm.trans hout)⟩

/-- A namespace with an apostrophe ends the quotes of its declaration, and the tag is not found. -/
theorem render_quoted_space :
    let arg (s : String) (h : Literal.check s.toList = .ok ()) : Arg :=
      ⟨s, Literal.check_eq_ok_iff.1 h⟩
    let script : Script := [.ensureElement (arg "a" rfl), .addCData (arg "x" rfl)]
    ∃ d₀, Markup.read? "<a xmlns=\"it's\"/>" = some d₀ ∧
      let d := (apply script d₀).2
      (apply script d₀).1 = .ok () ∧ textRuns d.trees = [[("x", true)]] ∧
        (write? false d.trees).map stripDeclaration = some "<a xmlns='it's'>x</a>".toList ∧
          relayout none (textRuns d.trees) "<a xmlns='it's'>x</a>".toList = .error .unclosedTag ∧
            d.render { declaration := false } = .error (.layout .unclosedTag) := by
  intro arg script
  let label : Label :=
    { name := ⟨some "it's", "a"⟩, defaultSpace? := some "it's", spaces := [("xml", xmlSpace)] }
  let made : Document := ⟨#[{ content := .document, children := [1] },
    { content := .element label, parent? := some 0, children := [2] },
    { content := .text "x" true, parent? := some 1 }]⟩
  have hmade : (Markup.read? "<a xmlns=\"it's\"/>").map (apply script) = some (.ok (), made) := by
    decide +kernel
  obtain ⟨d₀, hread, hd⟩ := Option.map_eq_some_iff.1 hmade
  have htrees : made.trees = [.element label [] [.text "x" true]] := rfl
  have hwritten : write? false made.trees =
      some "<?xml version=\"1.0\"?><a xmlns='it's'>x</a>".toList := by
    rw [htrees]
    simp only [write?, writeTrees?]
    decide +kernel
  have hruns : textRuns made.trees = [[("x", true)]] := by
    rw [htrees]
    simp only [textRuns, runsFrom, List.flatMap_cons, List.flatMap_nil]
    decide +kernel
  have hout : relayout none (textRuns made.trees) "<a xmlns='it's'>x</a>".toList =
      .error .unclosedTag := by
    rw [hruns]
    decide +kernel
  have hrender : made.render { declaration := false } = .error (.layout .unclosedTag) := by
    have hindent : ∀ width ∈ ({ declaration := false } : RenderOptions).indent?, width = 0 :=
      fun width h => absurd h (Option.not_mem_none width)
    rw [Document.render_eq hindent hwritten, hruns]
    decide +kernel
  refine ⟨d₀, hread, ?_⟩
  simp only [hd]
  refine ⟨trivial, hruns, ?_, hout, hrender⟩
  rw [hwritten]
  rfl

end Engine

end XmlScript
