import Mathlib.Data.List.Nodup
import XmlScript.Proofs.Stack
import XmlScript.Proofs.WellFormed

/-!
# Instructions before the document element

With no current node, an instruction is put below the document node: right before the document
element, or behind everything else where there is none. `Prefaced contents d d'` says what has
become of a document when that was done with some contents, one after the other: the new nodes stand
in one block, in the order in which they were made, and nothing else has changed. One insertion does
so (`prefaced_insertInstruction`), and two blocks that are made one after the other are one
(`Prefaced.trans`), since the second goes between the first and the element.

The main statement is `instructions_before_document_element`.
-/

namespace XmlScript

namespace Document

variable {d x y : Document} {contents contents' : List Content}

/-! ## Where a node is inserted -/

section

variable {p : NodeId → Bool} {n e : NodeId} {above below l : List NodeId}

theorem insertBefore_append (habove : ∀ a ∈ above, p a = false) (he : p e = true) :
    insertBefore p n (above ++ e :: below) = above ++ n :: e :: below := by
  induction above with
  | nil => rw [List.nil_append, insertBefore, if_pos he, List.nil_append]
  | cons a rest ih =>
    obtain ⟨ha, hrest⟩ := List.forall_mem_cons.1 habove
    rw [List.cons_append, insertBefore, if_neg (Bool.eq_false_iff.1 ha), ih hrest, List.cons_append]

theorem insertBefore_of_none (h : ∀ a ∈ l, p a = false) : insertBefore p n l = l ++ [n] := by
  induction l with
  | nil => rfl
  | cons a rest ih =>
    obtain ⟨ha, hrest⟩ := List.forall_mem_cons.1 h
    rw [insertBefore, if_neg (Bool.eq_false_iff.1 ha), ih hrest, List.cons_append]

/-- Wherever the node is inserted, nothing before it satisfies the condition. -/
theorem insertBefore_eq : insertBefore p n l =
    l.takeWhile (fun a => !p a) ++ n :: l.dropWhile (fun a => !p a) := by
  induction l with
  | nil => rfl
  | cons a rest ih =>
    rw [insertBefore, List.takeWhile_cons, List.dropWhile_cons, ih]
    cases p a <;> rfl

end

/-- The document element is the first element below the document node. -/
theorem documentElement?_eq_some_iff {e : NodeId} : d.documentElement? = some e ↔
    d.isElement e = true ∧ ∃ above below, (d.entry root).children = above ++ e :: below ∧
      ∀ a ∈ above, d.isElement a = false := by
  rw [documentElement?, List.find?_eq_some_iff_append]
  simp only [Bool.not_eq_true']

theorem documentElement?_eq_none_iff : d.documentElement? = none ↔
    ∀ a ∈ (d.entry root).children, d.isElement a = false := by
  rw [documentElement?, List.find?_eq_none]
  simp only [Bool.not_eq_true]

/-! ## Blocks of new nodes -/

/-- Nodes of these contents have been made below the document node, in their order. They stand in
one block right before the document element, or behind everything else where there is none, and
nothing else has changed. -/
structure Prefaced (contents : List Content) (d d' : Document) : Prop where
  size_eq : d'.size = d.size + contents.length
  before : ∀ e, d.documentElement? = some e → d'.documentElement? = some e ∧
    ∃ above below, (d.entry root).children = above ++ e :: below ∧
      (d'.entry root).children = above ++ List.range' d.size contents.length ++ e :: below
  last : d.documentElement? = none → d'.documentElement? = none ∧
    (d'.entry root).children = (d.entry root).children ++ List.range' d.size contents.length
  new : ∀ i c, contents[i]? = some c →
    d'.entry (d.size + i) = { content := c, parent? := some root }
  top : d'.entry root = { d.entry root with children := (d'.entry root).children }
  others : ∀ n < d.size, n ≠ root → d'.entry n = d.entry n

namespace Prefaced

theorem refl (d : Document) : Prefaced [] d d where
  size_eq := rfl
  before e he := by
    obtain ⟨-, above, below, hchildren, -⟩ := documentElement?_eq_some_iff.1 he
    exact ⟨he, above, below, hchildren, by rw [hchildren, List.length_nil, List.range'_zero,
      List.append_nil]⟩
  last hnone := ⟨hnone, (List.append_nil _).symm⟩
  new i c hi := by cases hi
  top := rfl
  others _ _ _ := rfl

/-- The block that is made later goes between the earlier one and the document element. -/
theorem trans (h : Prefaced contents d x) (hd : d.Linked) (hx : x.Linked)
    (h' : Prefaced contents' x y) : Prefaced (contents ++ contents') d y where
  size_eq := by rw [h'.size_eq, h.size_eq, List.length_append, Nat.add_assoc]
  before e he := by
    obtain ⟨hex, above, below, hbefore, hmiddle⟩ := h.before e he
    obtain ⟨hey, above', below', hmiddle', hafter⟩ := h'.before e hex
    -- the element stands once among the children, so they part at one place
    have hnodup := hx.nodup_children root
    rw [hmiddle, List.nodup_middle, List.nodup_cons, List.mem_append, not_or] at hnodup
    obtain ⟨rfl, -, rfl⟩ :=
      (List.append_cons_inj_of_notMem hnodup.1.1 hnodup.1.2).1 (hmiddle.symm.trans hmiddle')
    refine ⟨hey, above, below, hbefore, ?_⟩
    rw [hafter, h.size_eq, List.length_append, List.append_assoc above, List.range'_append_1]
  last hnone := by
    obtain ⟨hnone', hmiddle⟩ := h.last hnone
    obtain ⟨hnone'', hafter⟩ := h'.last hnone'
    refine ⟨hnone'', ?_⟩
    rw [hafter, hmiddle, h.size_eq, List.length_append, List.append_assoc, List.range'_append_1]
  new i c hi := by
    rcases Nat.lt_or_ge i contents.length with hlt | hge
    · rw [List.getElem?_append_left hlt] at hi
      have hne : d.size + i ≠ root := Nat.ne_of_gt (Nat.add_pos_left hd.root_lt i)
      rw [h'.others _ (by rw [h.size_eq]; omega) hne, h.new i c hi]
    · rw [List.getElem?_append_right hge] at hi
      have hplace : d.size + contents.length + (i - contents.length) = d.size + i := by omega
      rw [← hplace, ← h.size_eq, h'.new _ c hi]
  top := by rw [h'.top, h.top]
  others n hn hne := by
    rw [h'.others n (by rw [h.size_eq]; omega) hne, h.others n hn hne]

end Prefaced

theorem entry_insertInstruction {target data : String} (hd : d.Linked)
    (h : d.insertInstruction target data = .ok x) (m : NodeId) : x.entry m =
      if m = d.size then { content := instructionContent target data, parent? := some root }
      else if m = root then
        { d.entry m with children := insertBefore d.isElement d.size (d.entry m).children }
      else d.entry m := by
  rw [insertInstruction_cases h, entry_create_modify hd.root_lt]

/-- One instruction is a block of one node. -/
theorem prefaced_insertInstruction {target data : String} (hd : d.Linked)
    (h : d.insertInstruction target data = .ok x) :
    Prefaced [instructionContent target data] d x := by
  have hentry := entry_insertInstruction hd h
  have hroot : root ≠ d.size := Nat.ne_of_lt hd.root_lt
  have hchildren : (x.entry root).children =
      insertBefore d.isElement d.size (d.entry root).children := by
    rw [hentry, if_neg hroot, if_pos rfl]
  have hnew : x.isElement d.size = false := by
    rw [isElement_eq, hentry, if_pos rfl]
    rfl
  have hold {m : NodeId} (hm : m ∈ (d.entry root).children) : x.isElement m = d.isElement m := by
    rw [isElement_eq, isElement_eq, hentry, if_neg (Nat.ne_of_lt (hd.lt_of_mem_children hm))]
    split <;> rfl
  refine ⟨?_, fun e he => ?_, fun hnone => ?_, fun i c hi => ?_, ?_, fun n hn hne => ?_⟩
  · rw [insertInstruction_cases h, size_modify, size_create]
    rfl
  · obtain ⟨helement, above, below, hsplit, habove⟩ := documentElement?_eq_some_iff.1 he
    rw [hsplit, insertBefore_append habove helement] at hchildren
    refine ⟨documentElement?_eq_some_iff.2 ⟨?_, above ++ [d.size], below, ?_, ?_⟩,
      above, below, hsplit, ?_⟩
    · rw [hold (hsplit ▸ List.mem_append_right _ (List.mem_cons_self ..)), helement]
    · rw [hchildren, List.append_assoc, List.singleton_append]
    · intro a ha
      rcases List.mem_append.1 ha with ha | ha
      · rw [hold (hsplit ▸ List.mem_append_left _ ha), habove a ha]
      · rw [List.mem_singleton.1 ha, hnew]
    · rw [hchildren, List.append_assoc]
      rfl
  · have hnone' := documentElement?_eq_none_iff.1 hnone
    rw [insertBefore_of_none hnone'] at hchildren
    refine ⟨documentElement?_eq_none_iff.2 fun a ha => ?_, hchildren⟩
    rw [hchildren] at ha
    rcases List.mem_append.1 ha with ha | ha
    · rw [hold ha, hnone' a ha]
    · rw [List.mem_singleton.1 ha, hnew]
  · obtain ⟨rfl, rfl⟩ : i = 0 ∧ instructionContent target data = c := by
      cases i with
      | zero => exact ⟨rfl, Option.some.inj hi⟩
      | succ i => cases hi
    exact (hentry _).trans (if_pos rfl)
  · rw [hchildren, hentry, if_neg hroot, if_pos rfl]
  · rw [hentry, if_neg (Nat.ne_of_lt hn), if_neg hne]

end Document

namespace Engine

open Document (Prefaced instructionContent)

variable {d d' : Document} {s : State} {given : List (Arg × Arg)} {target data : Arg}

/-- The directives that make instructions of these targets and data. -/
def instructions (given : List (Arg × Arg)) : Script :=
  given.map fun i => .addInstruction i.1 i.2

/-- What the instructions hold. -/
def instructionContents (given : List (Arg × Arg)) : List Content :=
  given.map fun i => instructionContent i.1.raw i.2.raw

/-! ## With no current node -/

theorem execute_instruction_of_ok
    (h : s.document.insertInstruction target.raw data.raw = .ok d') :
    execute (.addInstruction target data) .empty s = (.ok .empty, { s with document := d' }) := by
  unfold execute
  simp only [h]
  rfl

theorem execute_instruction_of_invalid (h : Name.isValid target.raw = false) :
    execute (.addInstruction target data) .empty s =
      (.error (.edit (.invalidName target.raw)), s) := by
  have hrefused : s.document.insertInstruction target.raw data.raw =
      .error (.invalidName target.raw) := if_neg (Bool.eq_false_iff.1 h)
  unfold execute
  simp only [hrefused]
  rfl

/-- One instruction after the other, the block grows behind. -/
theorem runFrom_instructions (hd : s.document.Linked)
    (hvalid : ∀ i ∈ given, Name.isValid i.1.raw = true) (position : Nat) :
    ∃ d', runFrom position (instructions given) .empty s =
        (.ok .empty, { s with document := d' }) ∧
      Prefaced (instructionContents given) s.document d' := by
  induction given generalizing position s with
  | nil => exact ⟨s.document, rfl, Prefaced.refl _⟩
  | cons i rest ih =>
    obtain ⟨hi, hrest⟩ := List.forall_mem_cons.1 hvalid
    obtain ⟨x, hx⟩ : ∃ x, s.document.insertInstruction i.1.raw i.2.raw = .ok x :=
      ⟨_, Document.withName_eq_ok_iff.2 ⟨hi, rfl⟩⟩
    have hlinked := hd.insertInstruction hx
    obtain ⟨d', hrun, hprefaced⟩ := ih (s := { s with document := x }) hlinked hrest (position + 1)
    refine ⟨d', ?_, ?_⟩
    · show runFrom position (.addInstruction i.1 i.2 :: instructions rest) .empty s = _
      rw [runFrom_cons_of_ok (execute_instruction_of_ok hx), hrun]
    · exact (Document.prefaced_insertInstruction hd hx).trans hd hlinked hprefaced

/-- Instructions that are made with no current node stand in one block, in their order, right before
the document element, or behind everything else where there is none; nothing else has changed. The
first one with a target that is no name is refused there, and the document stays what the ones
before it have made of it. -/
theorem instructions_before_document_element (hd : d.Reachable)
    (hvalid : ∀ i ∈ given, Name.isValid i.1.raw = true) (position : Nat) (saved : Stack Node) :
    ∃ d', runFrom position (instructions given) .empty ⟨d, saved⟩ = (.ok .empty, ⟨d', saved⟩) ∧
      Prefaced (instructionContents given) d d' ∧
      ∀ (target data : Arg) (after : Script), Name.isValid target.raw = false →
        runFrom position (instructions given ++ .addInstruction target data :: after) .empty
            ⟨d, saved⟩ =
          (.error ⟨position + given.length, .addInstruction target data,
            .edit (.invalidName target.raw)⟩, ⟨d', saved⟩) := by
  obtain ⟨d', hrun, hprefaced⟩ := runFrom_instructions (s := ⟨d, saved⟩) hd.linked hvalid position
  refine ⟨d', hrun, hprefaced, fun target data after htarget => ?_⟩
  rw [runFrom_append_of_ok hrun, runFrom_cons_of_error (execute_instruction_of_invalid htarget),
    instructions, List.length_map]

/-- Two instructions go between a comment and the element, and then a blank is no target. -/
theorem instructions_before_document_element_of_comments :
    let given : List (Arg × Arg) :=
      [(⟨"p", Literal.check_eq_ok_iff.1 rfl⟩, ⟨"x", Literal.check_eq_ok_iff.1 rfl⟩),
        (⟨"q", Literal.check_eq_ok_iff.1 rfl⟩, ⟨"", Literal.check_eq_ok_iff.1 rfl⟩)]
    let blank : Arg := ⟨" ", Literal.check_eq_ok_iff.1 rfl⟩
    ∃ d d', Markup.read? "<!--a--><r/><!--b-->" = some d ∧
      runFrom 1 (instructions given) .empty ⟨d, []⟩ = (.ok .empty, ⟨d', []⟩) ∧
      (d'.children (.stored Document.root)).map d'.content? = [some (.comment "a"),
        some (.instruction "p" (some "x")), some (.instruction "q" none),
        some (.element { Label.plain "r" with spaces := [("xml", xmlSpace)] }),
        some (.comment "b")] ∧
      Prefaced [.instruction "p" (some "x"), .instruction "q" none] d d' ∧
      runFrom 1 (instructions given ++ [.addInstruction blank blank]) .empty ⟨d, []⟩ =
        (.error ⟨3, .addInstruction blank blank, .edit (.invalidName " ")⟩, ⟨d', []⟩) := by
  intro given blank
  obtain ⟨d, hd⟩ := Option.isSome_iff_exists.1
    (by decide +kernel : (Markup.read? "<!--a--><r/><!--b-->").isSome = true)
  obtain ⟨d', hrun, hprefaced, hrefused⟩ := instructions_before_document_element (.read hd)
    (by decide +kernel : ∀ i ∈ given, Name.isValid i.1.raw = true) 1 []
  have hlooks : (Markup.read? "<!--a--><r/><!--b-->").all (fun d =>
      let d' := (runFrom 1 (instructions given) .empty ⟨d, []⟩).2.document
      (d'.children (.stored Document.root)).map d'.content? = [some (.comment "a"),
        some (.instruction "p" (some "x")), some (.instruction "q" none),
        some (.element { Label.plain "r" with spaces := [("xml", xmlSpace)] }),
        some (.comment "b")]) = true := by
    decide +kernel
  rw [hd, Option.all_some, hrun] at hlooks
  exact ⟨d, d', hd, hrun, of_decide_eq_true hlooks, hprefaced,
    hrefused blank blank [] (by decide +kernel)⟩

end Engine

end XmlScript
