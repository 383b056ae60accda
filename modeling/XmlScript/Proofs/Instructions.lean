import XmlScript.Proofs.Declaration
import XmlScript.Proofs.OfTrees
import XmlScript.Proofs.Sprouted
import XmlScript.Proofs.Upsert

/-!
# Instructions that survive rendering

An instruction is written as it was given, and the blanks before its data, of which the writer adds
one, are no part of it to the reader. Otherwise it is read where it was put, as long as the reader
can tell where it ends: its target has to be a name that is not reserved, and its data must not end
it. What is around it matters as well, since comments and namespaces that are not confined to their
markup can make anything of what follows. Under these conditions the text of a document with a new
instruction is accepted if the text without it was, and has all its comments and instructions where
the document has them (`Engine.instructions_survive`).
-/

namespace XmlScript

/-- What an instruction is among the marks; empty data is none. -/
def instructionMark (target data : String) : Mark :=
  .instruction target (if data.isEmpty then none else some data)

/-- The data of an instruction is read as it is if no blank stands at its front. -/
theorem instructionMark_read_iff {target data : String} :
    (instructionMark target data).read = instructionMark target data ↔
      ∀ c ∈ data.toList.head?, Text.isMarkupBlank c = false := by
  unfold instructionMark
  rw [Mark.read, Mark.instruction.injEq, and_iff_right rfl]
  split
  next hempty =>
    rw [String.isEmpty_iff.1 hempty]
    exact iff_of_true rfl (by simp)
  next =>
    rw [Option.map_some, Option.some.injEq, ← String.toList_inj, String.toList_ofList,
      Markup.skipBlanks, List.dropWhile_eq_self_iff]
    cases data.toList with
    | nil => simp
    | cons c rest => simp

namespace Engine

open Document Markup

variable {d d' : Document} {c c' : Cursor Node} {saved saved' : Stack Node} {target data : Arg}

/-- The directive puts an instruction at the end of every current node, or before the document
element where there is none. -/
theorem sprouted_of_execute (hd : d.Linked)
    (hplaces : ∀ n ∈ c.nodes, ∃ e, n = .stored e ∧ d.isElement e = true)
    (hexecute : execute (.addInstruction target data) c ⟨d, saved⟩ = (.ok c', ⟨d', saved'⟩)) :
    Sprouted (.instruction target.raw (if data.raw.isEmpty then none else some data.raw)) d d' ∧
      ∀ n < d.size,
        d'.marksIn n = d.marksWith (instructionMark target.raw data.raw) c.nodes n := by
  by_cases hempty : c.isEmpty = true
  · have hnodes : c.nodes = [] := List.isEmpty_iff.1 hempty
    unfold execute at hexecute
    simp only at hexecute
    rw [if_pos hempty] at hexecute
    split at hexecute
    next => cases hexecute
    next hinsert =>
      cases hexecute
      rw [hnodes]
      exact ⟨sprouted_insertInstruction hd hinsert rfl,
        fun n hn => marksIn_insertInstruction hd hinsert rfl hn⟩
  · obtain ⟨nodes, hnodes⟩ : c.nodes ∈ Set.range (List.map Node.stored) := by
      rw [Set.range_list_map]
      intro n hn
      obtain ⟨e, rfl, -⟩ := hplaces n hn
      exact ⟨e, rfl⟩
    have hne : nodes ≠ [] := by
      rintro rfl
      exact hempty (List.isEmpty_iff.2 hnodes.symm)
    -- the first edit did not refuse the target
    have htarget : Name.isValid target.raw = true := by
      obtain ⟨n, rest, rfl⟩ := List.exists_cons_of_ne_nil hne
      unfold execute at hexecute
      simp only at hexecute
      rw [if_neg hempty] at hexecute
      obtain ⟨made, -, hedit, -⟩ := moved_eq_ok_iff.1 hexecute
      rw [← hnodes] at hedit
      obtain ⟨m, x, hfirst, -⟩ := editEach_cons_eq_ok_iff.1 hedit
      exact (withName_eq_ok_iff.1 (keeping_eq_ok_iff.1 hfirst).2).1
    have hcontainer : ∀ p ∈ nodes, d.IsContainer p := by
      intro p hp
      obtain ⟨e, he, helement⟩ := hplaces (.stored p) (hnodes ▸ List.mem_map_of_mem hp)
      cases he
      exact .inr (isElement_iff.1 helement)
    obtain ⟨y, -, hrun, hgains⟩ := adds_addInstruction htarget hd hnodes.symm hne hcontainer
      [.addInstruction target data] rfl 0 saved
    rw [runFrom_cons_of_ok hexecute] at hrun
    cases hrun
    rw [← hnodes]
    exact ⟨hgains.sprouted, fun n hn => hgains.marksIn_eq hd rfl hne hn⟩

/-- An instruction that is put at the end of some elements, or before the document element, is in
the text where it was put. If the text was accepted without it, it is accepted with it; then the
document that is read has all comments and instructions in their places among the elements, those
that were there as well as the new one, but for the blanks at the front of their data. -/
theorem instructions_survive (hd : d.Reachable)
    (hframed : ∀ t ∈ d.trees, t.Every (Tree.Has Content.Framed))
    (hunquoted : ∀ t ∈ d.trees, t.Every (Tree.Has Content.Unquoted))
    (hinstruction : (instructionContent target.raw data.raw).Framed)
    (hplaces : ∀ n ∈ c.nodes, ∃ e ∈ d.elements, n = .stored e)
    {options : RenderOptions} {text : List Char} (hrender : d.render options = .ok text)
    (haccepted : (Markup.read? (String.ofList text)).isSome = true)
    (hexecute : execute (.addInstruction target data) c ⟨d, saved⟩ = (.ok c', ⟨d', saved'⟩))
    (options' : RenderOptions)
    (hwidth : ∀ width ∈ options'.indent?, ∀ t ∈ d'.trees, t.hasChildren = true →
      width < textLimit) :
    ∃ text' parsed, d'.render options' = .ok text' ∧
      Markup.read? (String.ofList text') = some parsed ∧
      ((root :: parsed.elements).map parsed.marksIn = (root :: d.elements).map fun n =>
        (d.marksWith (instructionMark target.raw data.raw) c.nodes n).map Mark.read) ∧
      ((instructionMark target.raw data.raw).read = instructionMark target.raw data.raw ↔
        ∀ b ∈ data.raw.toList.head?, Text.isMarkupBlank b = false) := by
  have hlinked := hd.linked
  have helement : ∀ e ∈ d.elements, d.isElement e = true := fun e he => (List.mem_filter.1 he).2
  obtain ⟨hsprouted, hmarks⟩ := sprouted_of_execute hlinked (fun n hn => by
    obtain ⟨e, he, rfl⟩ := hplaces n hn
    exact ⟨e, rfl, helement e he⟩) hexecute
  have hreachable' : d'.Reachable := by
    have hact := hd.act (.execute (.addInstruction target data) c saved)
    rwa [Action.run, hexecute] at hact
  have hlinked' := hreachable'.linked
  have hcontained : ∀ t ∈ d.trees, t.Every (Tree.Has Content.Contained) := fun t ht =>
    ((hframed t ht).both (hunquoted t ht) fun _ => And.intro).both
      (hlinked.every_has hd.taggable t ht) fun _ h htag =>
        ⟨htag.content.contained h.1.content h.2.content, fun a ha =>
          (htag.attributes a ha).contained (h.1.attributes a ha) (h.2.attributes a ha)⟩
  have haccepted : (readTrees? text).isSome = true := by
    rwa [Markup.read?, String.toList_ofList, Option.isSome_map] at haccepted
  have hinsert : IsInsert (.instruction target.raw
      (if data.raw.isEmpty then none else some data.raw)) := ⟨rfl, rfl, hinstruction⟩
  obtain ⟨text', trees, hrender', htrees, hsame, hrows⟩ :=
    exists_render_extended hlinked.isText_of_mem_trees hcontained hrender haccepted hinsert
      (hsprouted.extended hlinked rfl hlinked') hwidth
  have hparsed : Markup.read? (String.ofList text') = some (ofTrees trees) := by
    rw [Markup.read?, String.toList_ofList, htrees]
    rfl
  refine ⟨text', ofTrees trees, hrender', hparsed, ?_, instructionMark_read_iff⟩
  have hread := linked_read? hparsed
  rw [List.map_cons, List.map_cons, ← hread.marks_trees, ← hread.rows_trees (housed_read? hparsed),
    trees_of_readTrees? htrees, hsame, hrows, hlinked'.marks_trees,
    hlinked'.rows_trees hreachable'.housed, hmarks root hlinked.root_lt,
    hsprouted.elements_eq hlinked rfl hlinked' hreachable'.housed, List.map_map]
  refine congrArg _ (List.map_congr_left fun e he => ?_)
  obtain ⟨label, hlabel⟩ := isElement_iff.1 (helement e he)
  exact congrArg (List.map Mark.read) (hmarks e (lt_size_of_element hlabel))

/-- Two elements, one in the other, are given an instruction, and there is one already. -/
theorem instructions_survive_nested :
    let target : Arg := ⟨"t", Literal.check_eq_ok_iff.1 rfl⟩
    let data : Arg := ⟨"x ", Literal.check_eq_ok_iff.1 rfl⟩
    let c : Cursor Node := ⟨[.stored 3, .stored 2], by decide⟩
    ∃ d d' text' parsed, Markup.read? "<!--c--><a><b>x</b><?p q?></a>" = some d ∧
      execute (.addInstruction target data) c ⟨d, []⟩ = (.ok c, ⟨d', []⟩) ∧
        d'.render { indent? := some 2 } = .ok text' ∧
          Markup.read? (String.ofList text') = some parsed ∧
            (root :: parsed.elements).map parsed.marksIn = [[.comment "c", .element],
              [.element, .instruction "p" (some "q"), .instruction "t" (some "x ")],
              [.instruction "t" (some "x ")]] := by
  intro target data c
  let label : Label := { name := ⟨none, "a"⟩, spaces := [("xml", xmlSpace)] }
  let d : Document := ⟨#[{ content := .document, children := [1, 2] },
    { content := .comment "c", parent? := some 0 },
    { content := .element label, parent? := some 0, children := [3, 5] },
    { content := .element (.plain "b"), parent? := some 2, children := [4] },
    { content := .text "x" false, parent? := some 3 },
    { content := .instruction "p" (some "q"), parent? := some 2 }]⟩
  let d' : Document := ⟨#[{ content := .document, children := [1, 2] },
    { content := .comment "c", parent? := some 0 },
    { content := .element label, parent? := some 0, children := [3, 5, 7] },
    { content := .element (.plain "b"), parent? := some 2, children := [4, 6] },
    { content := .text "x" false, parent? := some 3 },
    { content := .instruction "p" (some "q"), parent? := some 2 },
    { content := .instruction "t" (some "x "), parent? := some 3 },
    { content := .instruction "t" (some "x "), parent? := some 2 }]⟩
  have hread : Markup.read? "<!--c--><a><b>x</b><?p q?></a>" = some d := by decide +kernel
  have hexecute : execute (.addInstruction target data) c ⟨d, []⟩ = (.ok c, ⟨d', []⟩) := by
    decide +kernel
  let text := "<?xml version=\"1.0\"?><!--c--><a><b>x</b><?p q?></a>".toList
  have htrees : d.trees = [.comment "c", .element label []
      [.element (.plain "b") [] [.text "x" false], .instruction "p" (some "q")]] := rfl
  have hwritten : Markup.write? false d.trees = some text := by
    rw [htrees]
    simp only [Markup.write?, Markup.writeTrees?]
    decide +kernel
  have hruns : Markup.textRuns d.trees = [[("x", false)]] := by
    rw [htrees]
    simp only [Markup.textRuns, Markup.runsFrom, List.flatMap_cons, List.flatMap_nil]
    decide +kernel
  have hrender : d.render {} = .ok text := by
    unfold Document.render
    simp only [hwritten, hruns]
    rfl
  have hreachable : d.Reachable := .read hread
  have hunquoted : d.Holds Content.Unquoted :=
    .of_lt trivial (by decide +kernel : ∀ n < d.size, (d.entry n).content.Unquoted)
  obtain ⟨text', parsed, hrender', hparsed, hmarks, -⟩ := instructions_survive hreachable
    (hreachable.linked.every_has (framed_of_read? hread))
    (hreachable.linked.every_has hunquoted) (by decide +kernel) (fun n hn => by
      rcases List.mem_cons.1 hn with rfl | hn
      · exact ⟨3, by decide +kernel, rfl⟩
      · exact ⟨2, by decide +kernel, List.mem_singleton.1 hn⟩)
    hrender (by decide +kernel) hexecute { indent? := some 2 } fun width hwidth _ _ _ => by
      rw [← Option.some.inj hwidth]
      decide
  refine ⟨d, d', text', parsed, hread, hexecute, hrender', hparsed, hmarks.trans ?_⟩
  decide +kernel

/-- The blanks at the front of the data are lost, and a reserved target is not accepted. -/
theorem instruction_blanks_and_reserved :
    let target : Arg := ⟨"t", Literal.check_eq_ok_iff.1 rfl⟩
    let reserved : Arg := ⟨"xml", Literal.check_eq_ok_iff.1 rfl⟩
    let data : Arg := ⟨" x", Literal.check_eq_ok_iff.1 rfl⟩
    let c : Cursor Node := .single (.stored 1)
    let before := "<?xml version=\"1.0\"?><a/>"
    let after := "<?xml version=\"1.0\"?><a><?t  x?></a>"
    let refused := "<?xml version=\"1.0\"?><a><?xml  x?></a>"
    ∃ d d' parsed d'', Markup.read? "<a/>" = some d ∧ d.elements = [1] ∧
      d.render {} = .ok before.toList ∧ (Markup.read? before).isSome = true ∧
      execute (.addInstruction target data) c ⟨d, []⟩ = (.ok c, ⟨d', []⟩) ∧
      d'.render {} = .ok after.toList ∧ Markup.read? after = some parsed ∧
      parsed.elements = [1] ∧ parsed.marksIn 1 = [.instruction "t" (some "x")] ∧
      execute (.addInstruction reserved data) c ⟨d, []⟩ = (.ok c, ⟨d'', []⟩) ∧
      d''.render {} = .ok refused.toList ∧ Markup.read? refused = none := by
  intro target reserved data c before after refused
  let label : Label := { name := ⟨none, "a"⟩, spaces := [("xml", xmlSpace)] }
  let d : Document := ⟨#[{ content := .document, children := [1] },
    { content := .element label, parent? := some 0 }]⟩
  let made (target data : String) : Document := ⟨#[{ content := .document, children := [1] },
    { content := .element label, parent? := some 0, children := [2] },
    { content := .instruction target (some data), parent? := some 1 }]⟩
  have hrender {x : Document} {text : String} (children : List Tree)
      (htrees : x.trees = [.element label [] children])
      (hwritten : Markup.write? false [.element label [] children] = some text.toList)
      (hruns : Markup.textRuns [.element label [] children] = []) :
      x.render {} = .ok text.toList := by
    unfold Document.render
    simp only [htrees, hwritten, hruns]
    rfl
  refine ⟨d, made "t" " x", made "t" "x", made "xml" " x", by decide +kernel, by decide +kernel,
    hrender [] rfl ?_ ?_, by decide +kernel, by decide +kernel,
    hrender [.instruction "t" (some " x")] rfl ?_ ?_, by decide +kernel, by decide +kernel,
    by decide +kernel, by decide +kernel,
    hrender [.instruction "xml" (some " x")] rfl ?_ ?_, by decide +kernel⟩
  all_goals
    simp only [Markup.write?, Markup.writeTrees?, Markup.textRuns, Markup.runsFrom,
      List.flatMap_cons, List.flatMap_nil]
    decide +kernel

end Engine

end XmlScript
