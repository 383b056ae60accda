import Mathlib.Data.List.DropRight
import XmlScript.Proofs.Segments

/-!
# Indentation

A document is indented by `relayout` with a width: runs without character data lose the blanks at
their ends, and a line break goes before markup unless text has been kept right before it. So
between two pieces of markup there are either the blanks of a new line or what was kept of a run
(`agrees_of_filling`), and the state of the layout only tells which of the two (`exists_gaps`).

The main statement, `Engine.render_indented`, compares what is read of a document that is rendered
with indentation and without: the markup is the same, and so is the text between but for the blanks
at its ends, while runs with character data keep these as well.
-/

namespace XmlScript

namespace Markup

/-! ## Blanks at both ends -/

/-- A text without the blanks at both ends. -/
def trimBlanks (s : List Char) : List Char :=
  Text.dropEndWhile Text.isMarkupBlank (s.dropWhile Text.isMarkupBlank)

theorem trimBlanks_of_blanks {s : List Char} (h : ∀ c ∈ s, Text.isMarkupBlank c = true) :
    trimBlanks s = [] := by
  unfold trimBlanks
  rw [List.dropWhile_eq_nil_iff.2 h]
  rfl

theorem trimBlanks_subset (s : List Char) : trimBlanks s ⊆ s := by
  intro c hc
  have hfront : trimBlanks s <+: s.dropWhile Text.isMarkupBlank := List.rdropWhile_prefix _ _
  exact (List.dropWhile_suffix _).subset (hfront.subset hc)

theorem trimBlanks_trimBlanks (s : List Char) : trimBlanks (trimBlanks s) = trimBlanks s := by
  have hend : Text.dropEndWhile Text.isMarkupBlank (trimBlanks s) = trimBlanks s :=
    List.rdropWhile_idempotent _ _
  -- what is left of the text begins where the blanks in front have ended
  have hfront : (trimBlanks s).dropWhile Text.isMarkupBlank = trimBlanks s := by
    have hprefix : trimBlanks s <+: s.dropWhile Text.isMarkupBlank := List.rdropWhile_prefix _ _
    cases hs : trimBlanks s with
    | nil => rfl
    | cons c rest =>
      rw [hs] at hprefix
      obtain ⟨t, ht⟩ := hprefix
      have hc : Text.isMarkupBlank c = false := by
        have hnot := List.head_dropWhile_not (p := Text.isMarkupBlank) (l := s)
          (by rw [← ht]; exact List.cons_ne_nil _ _)
        simpa only [← ht, List.cons_append, List.head_cons] using hnot
      rw [List.dropWhile_cons_of_neg (by rw [hc]; exact Bool.false_ne_true)]
  show Text.dropEndWhile Text.isMarkupBlank ((trimBlanks s).dropWhile Text.isMarkupBlank) = _
  rw [hfront, hend]

/-! ## Pieces on lines -/

/-- A text as a piece, if there is any. -/
def textOf (s : List Char) : List Piece := if s = [] then [] else [.text s]

theorem flatMap_written_textOf (s : List Char) : (textOf s).flatMap Piece.written = s := by
  unfold textOf
  split
  next h => rw [h]; rfl
  next => exact List.append_nil s

theorem isFiller_of_mem_textOf {s : List Char} (h : '<' ∉ s) : ∀ p ∈ textOf s, IsFiller p := by
  intro p hp
  unfold textOf at hp
  split at hp
  next => cases hp
  next hne =>
    rw [List.mem_singleton.1 hp]
    exact ⟨hne, h⟩

/-- What goes before a piece. -/
def startOf (width? : Option Nat) (line : Line) : Piece → List Char
  | .text _ | .cdata _ => []
  | .endTag _ => lineStart width? line.breaksLine (line.level - 1)
  | _ => lineStart width? line.breaksLine line.level

/-- Pieces with what goes before each of them. -/
def onLines (width? : Option Nat) (line : Line) : List Piece → List Piece
  | [] => []
  | p :: rest =>
    textOf (startOf width? line p) ++ p :: onLines width? (place width? line p).2 rest

variable {width? : Option Nat} {line : Line} {names : List (List Char)}

theorem placeAll_eq (ps : List Piece) :
    placeAll width? line ps = (onLines width? line ps).flatMap Piece.written := by
  induction ps generalizing line with
  | nil => rfl
  | cons p rest ih =>
    have hp : (place width? line p).1 = startOf width? line p ++ p.written := by cases p <;> rfl
    show (place width? line p).1 ++ placeAll width? (place width? line p).2 rest = _
    rw [hp, ih, onLines, List.flatMap_append, flatMap_written_textOf, List.flatMap_cons,
      List.append_assoc]

theorem blank_of_mem_lineStart {breaksLine : Bool} {level : Nat} :
    ∀ c ∈ lineStart width? breaksLine level, Text.isMarkupBlank c = true := by
  intro c hc
  unfold lineStart at hc
  split at hc
  next width =>
    split at hc
    next =>
      rcases List.mem_cons.1 hc with rfl | hc
      · decide
      · rw [List.eq_of_mem_replicate hc]
        decide
    next => cases hc
  next => cases hc

theorem blank_of_mem_startOf {p : Piece} :
    ∀ c ∈ startOf width? line p, Text.isMarkupBlank c = true := by
  cases p with
  | text s | cdata s => exact List.forall_mem_nil _
  | _ => exact blank_of_mem_lineStart

theorem lt_not_mem_startOf (p : Piece) : '<' ∉ startOf width? line p := by
  intro h
  exact absurd (blank_of_mem_startOf _ h) (by decide)

theorem startOf_filler {p : Piece} (h : IsFiller p) : startOf width? line p = [] := by
  cases p with
  | text s | cdata s => rfl
  | _ => cases h

/-- No line begins where none is to be broken. -/
theorem startOf_of_not_breaksLine (p : Piece) (h : line.breaksLine = false) :
    startOf width? line p = [] := by
  have hstart (level : Nat) : lineStart width? line.breaksLine level = [] := by
    rw [h]
    cases width? <;> rfl
  cases p with
  | text s | cdata s => rfl
  | _ => exact hstart _

theorem consists_onLines (width? : Option Nat) (line : Line) {ps : List Piece}
    (h : Consists names ps) : Consists names (onLines width? line ps) := by
  induction h generalizing line with
  | nil names => exact .nil names
  | @mark _ _ p _ hm hp ho _ ih =>
    exact Consists.fill_all (isFiller_of_mem_textOf (lt_not_mem_startOf p)) (.mark hm hp ho (ih _))
  | @fill _ p _ hp _ ih =>
    exact Consists.fill_all (isFiller_of_mem_textOf (lt_not_mem_startOf p)) (.fill hp (ih _))

/-- Text is put where it is, and no line is broken after it. -/
theorem onLines_fill (width? : Option Nat) (line : Line) {xs : List Piece}
    (h : ∀ p ∈ xs, IsFiller p) (ps : List Piece) :
    onLines width? line (xs ++ ps) =
      xs ++ onLines width? (if xs = [] then line else { line with breaksLine := false }) ps := by
  induction xs generalizing line with
  | nil => rfl
  | cons p rest ih =>
    rw [List.forall_mem_cons] at h
    have hnext : (place width? line p).2 = { line with breaksLine := false } := by
      cases p with
      | text s | cdata s => rfl
      | _ => cases h.1
    rw [List.cons_append, onLines, startOf_filler h.1, hnext, ih _ h.2,
      if_neg (List.cons_ne_nil _ _), ite_self]
    rfl

/-! ## Runs -/

namespace Run

/-- What is put in the place of a run where lines are indented. -/
def trimmed (run : Run) : List Piece :=
  if run.hasCData then run.pieces else textOf (trimBlanks run.escaped)

theorem isFiller_of_stands {ps : List Piece} {t : List Char} (h : Stands ps t) :
    ∀ p ∈ ps, IsFiller p := by
  induction h with
  | nil => exact List.forall_mem_nil _
  | text hne hs _ _ ih => exact List.forall_mem_cons.2 ⟨⟨hne, hs⟩, ih⟩
  | cdata hs _ ih => exact List.forall_mem_cons.2 ⟨hs, ih⟩

variable {run : Run}

theorem isFiller_trimmed : ∀ p ∈ run.trimmed, IsFiller p := by
  unfold trimmed
  split
  next => exact isFiller_of_stands run.stands_pieces
  next => exact isFiller_of_mem_textOf fun h => lt_not_mem_escaped (trimBlanks_subset _ h)

theorem isFiller_rewritten (h : run.escaped ≠ []) : ∀ p ∈ run.rewritten, IsFiller p := by
  unfold rewritten plain
  split
  next => exact isFiller_of_stands run.stands_pieces
  next =>
    intro p hp
    rw [List.mem_singleton.1 hp]
    exact ⟨h, lt_not_mem_escaped⟩

theorem pieces_ne_nil (h : run.escaped ≠ []) : run.pieces ≠ [] := by
  intro hnil
  have hstands := run.stands_pieces
  rw [hnil] at hstands
  generalize hchars : run.chars = t at hstands
  cases hstands
  exact h (by unfold escaped; rw [hchars]; rfl)

theorem textPieces_some (width : Nat) (run : Run) :
    textPieces (some width) run run.escaped = run.trimmed := by
  unfold textPieces trimmed textOf
  split
  next => rfl
  next =>
    show (if (trimBlanks run.escaped).isEmpty then []
      else [Piece.text (trimBlanks run.escaped)]) = _
    simp only [List.isEmpty_iff]

end Run

/-! ## Gaps -/

/-- What stands right before a piece of markup, or after the last one, in the two renderings of a
document; `run?` is the run that it comes from, if there is one. -/
structure Gap where
  run? : Option Run
  flat : List Char
  lines : List Char
  mark? : Option Piece

/-- Only the blanks at the ends may differ, and only where there is no character data. -/
structure Gap.Agrees (g : Gap) : Prop where
  flat_eq : g.flat = (filling Run.rewritten g.run?).flatMap Piece.written
  trim_eq : trimBlanks g.lines = trimBlanks g.flat
  kept : ∀ run ∈ g.run?, run.hasCData = true → g.lines = g.flat

/-- What was kept of a run, or else the blanks of a new line. -/
theorem agrees_of_filling {run? : Option Run} {start : List Char} (mark? : Option Piece)
    (hne : ∀ run ∈ run?, run.escaped ≠ []) (hblank : ∀ c ∈ start, Text.isMarkupBlank c = true)
    (hstart : filling Run.trimmed run? ≠ [] → start = []) :
    Gap.Agrees ⟨run?, (filling Run.rewritten run?).flatMap Piece.written,
      (filling Run.trimmed run?).flatMap Piece.written ++ start, mark?⟩ := by
  cases run? with
  | none => exact ⟨rfl, trimBlanks_of_blanks hblank, nofun⟩
  | some run =>
    have htrimmed : filling Run.trimmed (some run) = run.trimmed := List.append_nil _
    have hrewritten : filling Run.rewritten (some run) = run.rewritten := List.append_nil _
    rw [htrimmed] at hstart
    refine ⟨rfl, ?_, ?_⟩
    · show trimBlanks ((filling Run.trimmed (some run)).flatMap Piece.written ++ start) =
        trimBlanks ((filling Run.rewritten (some run)).flatMap Piece.written)
      rw [htrimmed, hrewritten]
      by_cases hdata : run.hasCData = true
      · have hpieces : run.trimmed = run.pieces := if_pos hdata
        have hempty := hstart (hpieces ▸ Run.pieces_ne_nil (hne run rfl))
        rw [hpieces, hempty, List.append_nil, Run.rewritten, if_pos hdata]
      · have hpieces : run.trimmed = textOf (trimBlanks run.escaped) := if_neg hdata
        have hplain : run.rewritten.flatMap Piece.written = run.escaped := by
          rw [Run.rewritten, if_neg hdata]
          exact List.append_nil _
        rw [hpieces, hplain, flatMap_written_textOf]
        by_cases hkept : trimBlanks run.escaped = []
        · rw [hkept]
          exact trimBlanks_of_blanks hblank
        · rw [hstart, List.append_nil, trimBlanks_trimBlanks]
          rw [hpieces, textOf, if_neg hkept]
          exact List.cons_ne_nil _ _
    · intro run' hrun' hdata
      cases hrun'
      have hpieces : run.trimmed = run.pieces := if_pos hdata
      have hempty := hstart (hpieces ▸ Run.pieces_ne_nil (hne run rfl))
      show (filling Run.trimmed (some run)).flatMap Piece.written ++ start =
        (filling Run.rewritten (some run)).flatMap Piece.written
      rw [htrimmed, hrewritten, hpieces, hempty, List.append_nil, Run.rewritten, if_pos hdata]

theorem isFiller_of_mem_filling {f : Run → List Piece} {run? : Option Run}
    (h : ∀ run ∈ run?, ∀ p ∈ f run, IsFiller p) : ∀ p ∈ filling f run?, IsFiller p := by
  intro p hp
  obtain ⟨run, hrun, hp⟩ := mem_filling hp
  exact h run hrun p hp

/-- What is put in the place of a run is all text. -/
theorem between_filling {f : Run → List Piece} {run? : Option Run}
    (h : ∀ run ∈ run?, ∀ p ∈ f run, IsFiller p) (ps : List Piece) :
    between [] (filling f run? ++ ps) = between ((filling f run?).flatMap Piece.written) ps :=
  between_fill (fun p hp => (isFiller_of_mem_filling h p hp).isMarkup_eq) [] ps

/-- The two renderings agree in every gap. The induction is along the markup, with the state that
the layout is in before it. -/
theorem exists_gaps (width : Nat) {last? : Option Run} {segments : List Segment}
    (hne : ∀ run ∈ runsOf last? segments, run.escaped ≠ [])
    (hm : ∀ x ∈ segments, x.mark.isMarkup = true) (line : Line) :
    ∃ gaps : List Gap, gaps.filterMap (·.run?) = runsOf last? segments ∧
      between [] (assemble Run.rewritten last? segments) =
        gaps.map (fun g => (g.flat, g.mark?)) ∧
      between [] (onLines (some width) line (assemble Run.trimmed last? segments)) =
        gaps.map (fun g => (g.lines, g.mark?)) ∧
      ∀ g ∈ gaps, g.Agrees := by
  have htrimmed (run? : Option Run) : ∀ run ∈ run?, ∀ p ∈ run.trimmed, IsFiller p :=
    fun run _ => run.isFiller_trimmed
  induction segments generalizing line with
  | nil =>
    have hlast : ∀ run ∈ last?, run.escaped ≠ [] := fun run hrun =>
      hne run (List.mem_append_right _ (Option.mem_toList.2 hrun))
    have hflat := between_filling (fun run hrun => Run.isFiller_rewritten (hlast run hrun)) []
    have hlines := between_filling (htrimmed last?) []
    have honlines :=
      onLines_fill (some width) line (isFiller_of_mem_filling (htrimmed last?)) []
    rw [List.append_nil] at hflat honlines
    refine ⟨[⟨last?, _, _ ++ [], none⟩], ?_, hflat, ?_, List.forall_mem_singleton.2
      (agrees_of_filling none hlast (List.forall_mem_nil _) fun _ => rfl)⟩
    · cases last? <;> rfl
    · rw [assemble, honlines, onLines, hlines]
      show [(_, none)] = [(_ ++ [], none)]
      rw [List.append_nil]
  | cons x rest ih =>
    rw [runsOf_cons] at hne
    rw [List.forall_mem_cons] at hm
    have hrun : ∀ run ∈ x.run?, run.escaped ≠ [] := fun run hrun =>
      hne run (List.mem_append_left _ (Option.mem_toList.2 hrun))
    -- after text that has been kept no line is broken
    let before : Line :=
      if filling Run.trimmed x.run? = [] then line else { line with breaksLine := false }
    obtain ⟨gaps, hruns, hflat, hlines, hagrees⟩ :=
      ih (fun run hrun => hne run (List.mem_append_right _ hrun)) hm.2
        (place (some width) before x.mark).2
    have hstart : filling Run.trimmed x.run? ≠ [] → startOf (some width) before x.mark = [] := by
      intro hkept
      refine startOf_of_not_breaksLine _ ?_
      show Line.breaksLine (if filling Run.trimmed x.run? = [] then _ else _) = false
      rw [if_neg hkept]
    refine ⟨⟨x.run?, _, _ ++ startOf (some width) before x.mark, some x.mark⟩ :: gaps, ?_, ?_, ?_,
      List.forall_mem_cons.2
        ⟨agrees_of_filling _ hrun blank_of_mem_startOf hstart, hagrees⟩⟩
    · rw [runsOf_cons, ← hruns]
      cases x.run? <;> rfl
    · rw [assemble, between_filling fun run hmem => Run.isFiller_rewritten (hrun run hmem),
        between_mark hm.1, hflat]
      rfl
    · rw [assemble, onLines_fill _ _ (isFiller_of_mem_filling (htrimmed x.run?)), onLines,
        between_filling (htrimmed x.run?), between_fill (fun p hp =>
          (isFiller_of_mem_textOf (lt_not_mem_startOf x.mark) p hp).isMarkup_eq),
        flatMap_written_textOf, between_mark hm.1, hlines]
      rfl

/-! ## Layout -/

variable {last? : Option Run} {segments : List Segment} {text : List Char}

theorem withRuns_filling (run? : Option Run) (runs : List Run) (ps : List Piece) :
    withRuns width? (run?.toList ++ runs) (filling Run.plain run? ++ ps) =
      filling (fun run => textPieces width? run run.escaped) run? ++ withRuns width? runs ps := by
  cases run? with
  | none => rfl
  | some run =>
    show textPieces width? run run.escaped ++ withRuns width? runs ps =
      textPieces width? run run.escaped ++ [] ++ withRuns width? runs ps
    rw [List.append_nil]

/-- The runs are counted off by the segments. -/
theorem withRuns_assemble (hm : ∀ x ∈ segments, x.mark.isMarkup = true) :
    withRuns width? (runsOf last? segments) (assemble Run.plain last? segments) =
      assemble (fun run => textPieces width? run run.escaped) last? segments := by
  induction segments with
  | nil =>
    have hlast : withRuns width? (last?.toList ++ []) (filling Run.plain last? ++ []) = _ :=
      withRuns_filling last? [] []
    rw [List.append_nil, List.append_nil, withRuns, List.append_nil] at hlast
    exact hlast
  | cons x rest ih =>
    rw [List.forall_mem_cons] at hm
    have hmark : ∀ p ∈ [x.mark], p.isText = false :=
      List.forall_mem_singleton.2 (Piece.isText_of_isMarkup hm.1)
    have hrest := withRuns_markup hmark width? (runsOf last? rest) (assemble Run.plain last? rest)
    rw [runsOf_cons, assemble, withRuns_filling, assemble]
    rw [List.singleton_append, List.singleton_append, ih hm.2] at hrest
    rw [hrest]

/-- Laying out what has been written does not fail. -/
theorem relayout_eq_of_reads (h : Reads [] text (assemble Run.plain last? segments))
    (hm : ∀ x ∈ segments, x.mark.isMarkup = true) :
    relayout width? (runsOf last? segments) text = .ok (placeAll width? {}
      (assemble (fun run => textPieces width? run run.escaped) last? segments)) := by
  unfold relayout
  rw [pieces_of_reads h, ← withRuns_assemble hm]
  rfl

theorem assemble_congr {f g : Run → List Piece} (h : ∀ run ∈ runsOf last? segments, f run = g run) :
    assemble f last? segments = assemble g last? segments := by
  have hfilling {run? : Option Run} (h : ∀ run ∈ run?.toList, f run = g run) :
      filling f run? = filling g run? := List.flatMap_congr h
  induction segments with
  | nil => exact hfilling fun run hrun => h run (List.mem_append_right _ hrun)
  | cons x rest ih =>
    rw [runsOf_cons] at h
    rw [assemble, assemble, hfilling fun run hrun => h run (List.mem_append_left _ hrun),
      ih fun run hrun => h run (List.mem_append_right _ hrun)]

end Markup

/-! ## Documents -/

open Markup

namespace Document

variable {d : Document} {options : RenderOptions} {written : List Char} {segments : List Segment}
  {last? : Option Run}

/-- The rendering on one line is what is written, with the runs put back together. -/
theorem render_flat (hindent : ∀ width ∈ options.indent?, width = 0)
    (hwritten : write? options.encoding d.trees = some written)
    (hreads : Reads [] (if options.declaration then written else stripDeclaration written)
      (assemble Run.plain last? segments))
    (hruns : textRuns d.trees = runsOf last? segments)
    (hm : ∀ x ∈ segments, x.mark.isMarkup = true) :
    d.render options = .ok ((assemble Run.rewritten last? segments).flatMap Piece.written) := by
  rw [render_eq hindent hwritten, hruns]
  split
  next =>
    rw [relayout_eq_of_reads hreads hm, placeAll_none, assemble_congr fun run _ =>
      textPieces_none run]
    rfl
  next hnone =>
    -- without character data every run is put back as it was
    have hplain : assemble Run.plain last? segments = assemble Run.rewritten last? segments := by
      refine assemble_congr fun run hrun => ?_
      rw [Run.rewritten, if_neg fun h => hnone (List.any_eq_true.2 ⟨run, hrun, h⟩)]
    rw [← hplain, ← flatMap_written_of_reads hreads]

/-- The rendering on many lines. -/
theorem render_lines {width : Nat} (hpos : 0 < width)
    (hwidth : ∀ t ∈ d.trees, t.hasChildren = true → width < textLimit)
    (hwritten : write? options.encoding d.trees = some written)
    (hreads : Reads [] (if options.declaration then written else stripDeclaration written)
      (assemble Run.plain last? segments))
    (hruns : textRuns d.trees = runsOf last? segments)
    (hm : ∀ x ∈ segments, x.mark.isMarkup = true) :
    d.render { options with indent? := some width } = .ok
      ((onLines (some width) {} (assemble Run.trimmed last? segments)).flatMap Piece.written) := by
  have hfilter : (some width).filter (0 < ·) = some width := by
    rw [Option.filter_some, if_pos (decide_eq_true hpos)]
  have hnarrow :
      ¬ ((some width).any (textLimit ≤ ·) = true ∧ d.trees.any Tree.hasChildren = true) := by
    rintro ⟨hwide, hany⟩
    obtain ⟨t, ht, hchildren⟩ := List.any_eq_true.1 hany
    exact absurd (of_decide_eq_true hwide) (Nat.not_le.2 (hwidth t ht hchildren))
  unfold Document.render
  simp only [hwritten, hfilter]
  rw [if_neg fun h => Bool.false_ne_true h.1, if_neg hnarrow, hruns,
    relayout_eq_of_reads hreads hm, placeAll_eq, assemble_congr fun run _ =>
      Run.textPieces_some width run]
  rfl

end Document

namespace Engine

variable {d₀ : Document} {script : Script}

/-- What a script without comments and instructions leaves can be written and read again, if no
namespace has an apostrophe in it. -/
theorem writable_apply (hstart : d₀ = .empty ∨ ∃ text, Markup.read? text = some d₀)
    (hscript : ∀ directive ∈ script, directive.keyword ≠ .comment ∧ directive.keyword ≠ .pi)
    (hunquoted : ∀ t ∈ (apply script d₀).2.trees, t.Every (Tree.Has Content.Unquoted)) :
    (apply script d₀).2.Linked ∧
      ∀ t ∈ (apply script d₀).2.trees, t.Every (Tree.Has Content.Writable) := by
  have hd₀ : d₀.Linked ∧ d₀.Holds Content.Legible := by
    rcases hstart with rfl | ⟨text, hread⟩
    · exact ⟨Document.Linked.ofEmpty, Document.Holds.empty makeable_legible.absent trivial⟩
    · exact ⟨Document.linked_read? hread, legible_of_read? hread⟩
  have hlinked : (apply script d₀).2.Linked :=
    Keeps.apply (fun directive _ => keeps_linked directive) hd₀.1
  refine ⟨hlinked, fun t ht => ?_⟩
  refine (hlinked.every_has (legible_apply hd₀.2 hscript) t ht).both (hunquoted t ht) ?_
  exact fun _ hl hu =>
    ⟨⟨hl.content, hu.content⟩, fun a ha => ⟨hl.attributes a ha, hu.attributes a ha⟩⟩

/-- Indentation only touches blanks. What a script makes of the empty document or of one that was
read is rendered with a width of indentation as it is without one, and both are read as the same
markup with text between. The text comes from the same runs; it is the same but for the blanks at
its ends, and where it comes from a run with character data it is the same. -/
theorem render_indented {written : List Char} {width : Nat}
    (hstart : d₀ = .empty ∨ ∃ text, Markup.read? text = some d₀)
    (hscript : ∀ directive ∈ script, directive.keyword ≠ .comment ∧ directive.keyword ≠ .pi)
    (hunquoted : ∀ t ∈ (apply script d₀).2.trees, t.Every (Tree.Has Content.Unquoted))
    (options : RenderOptions) (hpos : 0 < width)
    (hwidth : ∀ t ∈ (apply script d₀).2.trees, t.hasChildren = true → width < textLimit)
    (hwritten : write? options.encoding (apply script d₀).2.trees = some written) :
    let d := (apply script d₀).2
    ∃ flat lines ps qs, d.render { options with indent? := none } = .ok flat ∧
      d.render { options with indent? := some width } = .ok lines ∧
        pieces flat = .ok ps ∧ pieces lines = .ok qs ∧
          ∃ gaps : List Gap, gaps.filterMap (·.run?) = textRuns d.trees ∧
            between [] ps = gaps.map (fun g => (g.flat, g.mark?)) ∧
              between [] qs = gaps.map (fun g => (g.lines, g.mark?)) ∧ ∀ g ∈ gaps, g.Agrees := by
  intro d
  obtain ⟨hlinked, hwritable⟩ := writable_apply hstart hscript hunquoted
  obtain ⟨ps, hreads, hwoven⟩ := exists_woven hlinked.isText_of_mem_trees hwritable hwritten
    options.declaration
  obtain ⟨segments, last?, rfl, hruns, hmarks, hne⟩ := exists_segments hreads hwoven
  have hm : ∀ x ∈ segments, x.mark.isMarkup = true := fun x hx =>
    hmarks.isMarkup_of_mem (List.mem_map_of_mem hx)
  rw [hruns] at hne
  obtain ⟨gaps, hgaps, hflat, hlines, hagrees⟩ := exists_gaps width hne hm {}
  obtain ⟨ps, hps, hbetween⟩ := reads_of_consists
    (consists_assemble (fun run hrun => Run.isFiller_rewritten (hne run hrun)) hmarks)
  obtain ⟨qs, hqs, hbetween'⟩ := reads_of_consists (consists_onLines (some width) {}
    (consists_assemble (fun run _ => run.isFiller_trimmed) hmarks))
  have hflatRender : d.render { options with indent? := none } = .ok _ :=
    Document.render_flat (fun width h => absurd h (Option.not_mem_none width)) hwritten hreads hruns
      hm
  refine ⟨_, _, ps, qs, hflatRender,
    Document.render_lines hpos hwidth hwritten hreads hruns hm, pieces_of_reads hps,
    pieces_of_reads hqs, gaps, hgaps.trans hruns.symm, ?_, ?_, hagrees⟩
  · rw [hbetween, hflat]
  · rw [hbetween', hlines]

/-- Plain text loses its blanks, character data does not, and the text beside it stays as well. -/
theorem render_indented_mixed :
    let arg (s : String) (h : Literal.check s.toList = .ok ()) : Arg :=
      ⟨s, Literal.check_eq_ok_iff.1 h⟩
    let script : Script := [.ensureElement (arg "a" rfl), .ensureElement (arg "b" rfl),
      .setText (arg " x " rfl), .up, .ensureElement (arg "c" rfl), .setText (arg " y" rfl),
      .addCData (arg "<" rfl)]
    let flat := "<a><b> x </b><c> y<![CDATA[<]]></c></a>".toList
    let lines := "<a>\n  <b>x</b>\n  <c> y<![CDATA[<]]></c>\n</a>".toList
    let d := (apply script .empty).2
    (∀ directive ∈ script, directive.keyword ≠ .comment ∧ directive.keyword ≠ .pi) ∧
      (∀ t ∈ d.trees, t.Every (Tree.Has Content.Unquoted)) ∧
      (∀ t ∈ d.trees, t.hasChildren = true → 2 < textLimit) ∧
      write? false d.trees = some ("<?xml version=\"1.0\"?>".toList ++
        "<a><b> x </b><c> y&lt;</c></a>".toList) ∧
      d.render { declaration := false } = .ok flat ∧
      d.render { declaration := false, indent? := some 2 } = .ok lines ∧
      ∃ ps qs, pieces flat = .ok ps ∧ pieces lines = .ok qs ∧
        ∃ gaps : List Gap, gaps.filterMap (·.run?) = textRuns d.trees ∧
          between [] ps = gaps.map (fun g => (g.flat, g.mark?)) ∧
            between [] qs = gaps.map (fun g => (g.lines, g.mark?)) ∧ ∀ g ∈ gaps, g.Agrees := by
  intro arg script flat lines d
  have hscript : ∀ directive ∈ script, directive.keyword ≠ .comment ∧ directive.keyword ≠ .pi := by
    decide +kernel
  let made : Document := ⟨#[{ content := .document, children := [1] },
    { content := .element (.plain "a"), parent? := some 0, children := [2, 4] },
    { content := .element (.plain "b"), parent? := some 1, children := [3] },
    { content := .text " x " false, parent? := some 2 },
    { content := .element (.plain "c"), parent? := some 1, children := [5, 6] },
    { content := .text " y" false, parent? := some 4 },
    { content := .text "<" true, parent? := some 4 }]⟩
  have hmade : d = made := by decide +kernel
  have htrees : d.trees = [.element (.plain "a") [] [
      .element (.plain "b") [] [.text " x " false],
      .element (.plain "c") [] [.text " y" false, .text "<" true]]] := by
    rw [hmade]
    rfl
  have hwritten : write? false d.trees = some ("<?xml version=\"1.0\"?>".toList ++
      "<a><b> x </b><c> y&lt;</c></a>".toList) := by
    rw [htrees]
    simp only [write?, writeTrees?]
    decide +kernel
  have hruns : textRuns d.trees = [[(" x ", false)], [(" y", false), ("<", true)]] := by
    rw [htrees]
    simp only [textRuns, runsFrom, List.flatMap_cons, List.flatMap_nil]
    decide +kernel
  have hunquoted : ∀ t ∈ d.trees, t.Every (Tree.Has Content.Unquoted) :=
    (Document.Linked.every_has (Keeps.apply (fun directive _ => keeps_linked directive)
      Document.Linked.ofEmpty) (unquoted_apply (.empty makeable_unquoted.absent trivial) script))
  have hwidth : ∀ t ∈ d.trees, t.hasChildren = true → 2 < textLimit := fun _ _ _ => by decide
  have hflat : d.render { declaration := false } = .ok flat := by
    unfold Document.render
    simp only [hwritten, hruns]
    decide +kernel
  have hlines : d.render { declaration := false, indent? := some 2 } = .ok lines := by
    unfold Document.render
    simp only [hwritten, hruns]
    rw [htrees]
    decide +kernel
  obtain ⟨flat', lines', ps, qs, hflat', hlines', hps, hqs, hgaps⟩ := render_indented (.inl rfl)
    hscript hunquoted { declaration := false } (by decide) hwidth hwritten
  cases hflat.symm.trans hflat'
  cases hlines.symm.trans hlines'
  exact ⟨hscript, hunquoted, hwidth, hwritten, hflat, hlines, ps, qs, hps, hqs, hgaps⟩

/-- A namespace with an apostrophe ends the quotes of its declaration, so that what is written on
one line cannot be laid out on many. -/
theorem render_lines_quoted_space :
    ∃ d₀, Markup.read? "<a xmlns=\"it's\"><b/></a>" = some d₀ ∧
      let d := (apply [] d₀).2
      d.render { declaration := false } = .ok "<a xmlns='it's'><b/></a>".toList ∧
        d.render { declaration := false, indent? := some 2 } = .error (.layout .unclosedTag) := by
  let label : Label :=
    { name := ⟨some "it's", "a"⟩, defaultSpace? := some "it's", spaces := [("xml", xmlSpace)] }
  let inner : Label := { name := ⟨some "it's", "b"⟩ }
  let made : Document := ⟨#[{ content := .document, children := [1] },
    { content := .element label, parent? := some 0, children := [2] },
    { content := .element inner, parent? := some 1 }]⟩
  have hmade : Markup.read? "<a xmlns=\"it's\"><b/></a>" = some made := by decide +kernel
  have htrees : made.trees = [.element label [] [.element inner [] []]] := rfl
  have hwritten : write? false made.trees =
      some "<?xml version=\"1.0\"?><a xmlns='it's'><b/></a>".toList := by
    rw [htrees]
    simp only [write?, writeTrees?]
    decide +kernel
  have hruns : textRuns made.trees = [] := by
    rw [htrees]
    simp only [textRuns, runsFrom, List.flatMap_cons, List.flatMap_nil]
    decide +kernel
  refine ⟨made, hmade, ?_, ?_⟩
  · show made.render { declaration := false } = _
    unfold Document.render
    simp only [hwritten, hruns]
    decide +kernel
  · show made.render { declaration := false, indent? := some 2 } = _
    unfold Document.render
    simp only [hwritten, hruns]
    rw [htrees]
    decide +kernel

end Engine

end XmlScript
