import XmlScript.Proofs.Written

/-!
# Runs of text in a written document

A document is walked twice: by `runsFrom`, which gathers neighbouring text nodes into runs, and by
`writeTrees?`, which writes them one after the other. `Pieced` says in which pieces trees are
written; it carries the run that is pending, since a piece of text ends only where the next markup
begins. What the writer writes are these pieces (`Pieced.write`, `Pieced.exists_of_write`), they
read back (`Pieced.reads`), and they are the runs, each in one piece of text, with markup around
them (`Pieced.woven`).
-/

namespace XmlScript.Markup

def Piece.isText : Piece → Bool
  | .text _ => true
  | _ => false

/-- Whether a piece is neither text nor a section. -/
def Piece.isMarkup : Piece → Bool
  | .text _ | .cdata _ => false
  | _ => true

theorem Piece.isText_of_isMarkup {p : Piece} (h : p.isMarkup = true) : p.isText = false := by
  cases p with
  | text s => cases h
  | _ => rfl

/-- Markup begins with its bracket. -/
theorem exists_written_cons {p : Piece} (hp : p.isMarkup = true) : ∃ s, p.written = '<' :: s := by
  cases p with
  | text s | cdata s => cases hp
  | _ => exact ⟨_, rfl⟩

namespace Run

/-- The text of a run. -/
def chars (run : Run) : List Char := run.flatMap (·.1.toList)

/-- A run as it is written when it is all plain text. -/
def escaped (run : Run) : List Char := run.chars.flatMap escapeText

variable {run : Run}

theorem escaped_nil : escaped [] = [] := rfl

theorem kept_nil : kept [] = [] := rfl

theorem escaped_append {s : String} {isCData : Bool} :
    escaped (run ++ [(s, isCData)]) = run.escaped ++ s.toList.flatMap escapeText := by
  simp [escaped, chars]

theorem lt_not_mem_escaped : '<' ∉ run.escaped :=
  not_mem_flatMap (fun c => (escapes_text c).lt_not_mem) _

/-- A run that is written reads back as its text. -/
theorem unescape_escaped (run : Run) : Literal.unescape run.escaped = .ok run.chars :=
  Literal.unescape_flatMap (fun c => (escapes_text c).unescape) run.chars

/-- Nothing is written of a run whose texts are empty, and something of every other. -/
theorem kept_eq : run.kept = if run.escaped = [] then [] else [run] := by
  have hany : run.any (!·.1.isEmpty) = false ↔ run.escaped = [] := by
    rw [escaped, Literal.flatMap_eq_nil_iff fun c => (escapes_text c).unescape, chars,
      List.flatMap_eq_nil_iff, List.any_eq_false]
    simp
  unfold kept
  by_cases h : run.escaped = []
  · rw [hany.2 h, if_pos h]
    rfl
  · rw [if_pos (Bool.of_not_eq_false fun hnone => h (hany.1 hnone)), if_neg h]

end Run

/-- Pieces that consist of some runs, each in one piece of text, and of markup around them. -/
inductive Woven : List Run → List Piece → Prop
  | nil : Woven [] []
  | markup {runs : List Run} {p : Piece} {ps : List Piece} (hp : p.isMarkup = true)
    (h : Woven runs ps) : Woven runs (p :: ps)
  | run {run : Run} {runs : List Run} {ps : List Piece} (h : Woven runs ps) :
    Woven (run :: runs) (.text run.escaped :: ps)

theorem Woven.append {runs runs' : List Run} {ps ps' : List Piece} (h : Woven runs ps)
    (h' : Woven runs' ps') : Woven (runs ++ runs') (ps ++ ps') := by
  induction h with
  | nil => exact h'
  | markup hp _ ih => exact ih.markup hp
  | run _ ih => exact ih.run

theorem beginsMarkup_written {p : Piece} (hp : Opens p) (s : List Char) :
    BeginsMarkup (p.written ++ s) := by
  obtain ⟨inner, hwritten, -⟩ := hp
  rw [hwritten]
  intro c hc
  exact (Option.some.inj hc).symm

theorem beginsMarkup_of_isMarkup {p : Piece} (hp : p.isMarkup = true) (s : List Char) :
    BeginsMarkup (p.written ++ s) := by
  obtain ⟨inner, hwritten⟩ := exists_written_cons hp
  rw [hwritten]
  intro c hc
  exact (Option.some.inj hc).symm

/-- A text whose end begins no mark, before one that has none. -/
theorem not_infix_instructionEnd_append {a b : List Char} (ha : '?' ∉ a)
    (hb : ¬ ['?', '>'] <:+: b) : ¬ ['?', '>'] <:+: a ++ b := by
  induction a with
  | nil => exact hb
  | cons c rest ih =>
    rw [List.mem_cons, not_or] at ha
    rw [List.cons_append, List.infix_cons_iff, not_or]
    exact ⟨fun hpre => ha.1 (List.cons_prefix_cons.1 hpre).1, ih ha.2⟩

/-- What stands between the question marks of an instruction. -/
def instructionText (target : String) (data? : Option String) : List Char :=
  target.toList ++ match data? with
    | some data => ' ' :: data.toList
    | none => []

theorem writeInstruction_eq (target : String) (data? : Option String) :
    writeInstruction target data? = (Piece.instruction (instructionText target data?)).written := by
  cases data? with
  | none => exact congrArg (· ++ "?>".toList) (List.append_assoc ..)
  | some data => exact congrArg (· ++ "?>".toList) (List.append_assoc ..)

theorem opens_instructionText {target : String} {data? : Option String}
    (h : (Content.instruction target data?).Legible) :
    Opens (.instruction (instructionText target data?)) := by
  obtain ⟨htarget, hdata⟩ := h
  have hmark : '?' ∉ target.toList := fun hmem => htarget.not_mem _ hmem (by decide)
  unfold instructionText
  obtain ⟨c, rest, hc⟩ := List.exists_cons_of_ne_nil htarget.ne_nil
  refine opens_instruction ?_ ?_ ?_
  · rw [hc]
    intro he
    have hmem : '>' ∈ target.toList := by
      rw [hc, ← Option.some.inj he]
      exact List.mem_cons_self ..
    exact htarget.not_mem _ hmem (by decide)
  · rw [hc]
    exact List.cons_ne_nil _ _
  · refine not_infix_instructionEnd_append hmark ?_
    split
    next data => exact not_infix_instructionEnd_append (a := [' ']) (by decide) (hdata data rfl)
    next => simp

/-! ## Pieces of trees -/

/-- The piece of a run, unless nothing of it is written. -/
def Run.settled (run : Run) : List Piece := if run.escaped = [] then [] else [.text run.escaped]

/-- The pieces of an element: those of its children between its tags, or one tag. -/
def enclose (isEmpty : Bool) (tag head : List Char) (inner : List Piece) : List Piece :=
  if isEmpty then [.emptyTag head] else .startTag head :: (inner ++ [.endTag tag])

/-- The pieces in which the writer writes neighbouring trees when a run is pending before them, and
the number of the next invented prefix. -/
inductive Pieced : (around : List Scope) → (count : Nat) → Run → List Tree → List Piece →
    (next : Nat) → Prop
  | nil {around : List Scope} {count : Nat} {run : Run} :
    Pieced around count run [] run.settled count
  | text {around : List Scope} {count next : Nat} {run : Run} {s : String} {isCData : Bool}
    {rest : List Tree} {ps : List Piece}
    (h : Pieced around count (run ++ [(s, isCData)]) rest ps next) :
    Pieced around count run (.text s isCData :: rest) ps next
  | comment {around : List Scope} {count next : Nat} {run : Run} {s : String} {rest : List Tree}
    {ps : List Piece} (h : Pieced around count [] rest ps next) :
    Pieced around count run (.comment s :: rest) (run.settled ++ .comment s.toList :: ps) next
  | instruction {around : List Scope} {count next : Nat} {run : Run} {target : String}
    {data? : Option String} {rest : List Tree} {ps : List Piece}
    (h : Pieced around count [] rest ps next) :
    Pieced around count run (.instruction target data? :: rest)
      (run.settled ++ .instruction (instructionText target data?) :: ps) next
  | element {around : List Scope} {count count₁ count₂ next : Nat} {run : Run} {label : Label}
    {attributes : List Attribute} {children rest : List Tree} {scope : Scope} {tag : List Char}
    {written : List (List Char)} {inner ps : List Piece}
    (hscope : Scope.ofElement around count label attributes = (scope, count₁))
    (htag : writeName? (scope :: around) true label.name label.hint? = some tag)
    (hwritten : attributes.mapM (writeAttribute? (scope :: around)) = some written)
    (hchildren : Pieced (scope :: around) count₁ [] children inner count₂)
    (hrest : Pieced around count₂ [] rest ps next) :
    Pieced around count run (.element label attributes children :: rest)
      (run.settled ++ (enclose children.isEmpty tag
        (tag ++ written.flatten ++ writeDeclarations scope) inner ++ ps)) next

namespace Pieced

variable {around : List Scope} {count next : Nat} {run : Run} {trees : List Tree} {text : List Char}
  {ps : List Piece}

theorem flatMap_written_settled (run : Run) :
    run.settled.flatMap Piece.written = run.escaped := by
  unfold Run.settled
  split
  next hnone => exact hnone.symm
  next => exact List.append_nil _

theorem flatMap_written_enclose (isEmpty : Bool) (tag head : List Char) (inner : List Piece) :
    (enclose isEmpty tag head inner).flatMap Piece.written =
      if isEmpty then '<' :: (head ++ "/>".toList)
      else '<' :: (head ++ '>' :: inner.flatMap Piece.written ++ "</".toList ++ tag ++ ['>']) := by
  unfold enclose
  split
  next => simp [written_emptyTag]
  next => simp [written_startTag, written_endTag]

/-- What is written of trees are their pieces. -/
theorem write (h : Pieced around count run trees ps next) :
    ∃ text, writeTrees? around count trees = some (text, next) ∧
      ps.flatMap Piece.written = run.escaped ++ text := by
  induction h with
  | nil =>
    refine ⟨[], by rw [writeTrees?], ?_⟩
    rw [flatMap_written_settled, List.append_nil]
  | text _ ih =>
    obtain ⟨text, htext, hps⟩ := ih
    rw [writeTrees?, htext, Option.map_some]
    refine ⟨_, rfl, ?_⟩
    rw [hps, Run.escaped_append, List.append_assoc]
  | comment _ ih =>
    obtain ⟨text, htext, hps⟩ := ih
    rw [writeTrees?, htext, Option.map_some]
    refine ⟨_, rfl, ?_⟩
    rw [List.flatMap_append, flatMap_written_settled, List.flatMap_cons, hps]
    rfl
  | instruction _ ih =>
    obtain ⟨text, htext, hps⟩ := ih
    rw [writeTrees?, htext, Option.map_some]
    refine ⟨_, rfl, ?_⟩
    rw [List.flatMap_append, flatMap_written_settled, List.flatMap_cons, hps, writeInstruction_eq]
    rfl
  | element hscope htag hwritten _ _ ihchildren ihrest =>
    obtain ⟨inside, hinside, hinner⟩ := ihchildren
    obtain ⟨text, htext, hps⟩ := ihrest
    rw [writeTrees?]
    simp only [hscope, htag, hwritten, hinside, htext, Option.bind_some, Option.map_some]
    rw [Run.escaped_nil, List.nil_append] at hinner hps
    split
    next hempty =>
      refine ⟨_, rfl, ?_⟩
      rw [List.flatMap_append, flatMap_written_settled, List.flatMap_append,
        flatMap_written_enclose, if_pos hempty, hps]
      simp only [List.cons_append, List.append_assoc]
    next hempty =>
      refine ⟨_, rfl, ?_⟩
      rw [List.flatMap_append, flatMap_written_settled, List.flatMap_append,
        flatMap_written_enclose, if_neg hempty, hinner, hps]
      simp only [List.cons_append, List.append_assoc, List.nil_append]

/-- Whatever is written is written in pieces. -/
theorem exists_of_write (hw : writeTrees? around count trees = some (text, next)) (run : Run) :
    ∃ ps, Pieced around count run trees ps next := by
  induction around, count, trees using writeTrees?.induct generalizing text next run with
  | case1 around count =>
    rw [writeTrees?] at hw
    cases hw
    exact ⟨_, .nil⟩
  | case2 around count s isCData rest ih =>
    rw [writeTrees?] at hw
    obtain ⟨_, hrest, hw⟩ := Option.map_eq_some_iff.1 hw
    cases hw
    exact (ih hrest _).imp fun _ h => .text h
  | case3 around count s rest ih =>
    rw [writeTrees?] at hw
    obtain ⟨_, hrest, hw⟩ := Option.map_eq_some_iff.1 hw
    cases hw
    obtain ⟨ps, hps⟩ := ih hrest []
    exact ⟨_, .comment hps⟩
  | case4 around count target data? rest ih =>
    rw [writeTrees?] at hw
    obtain ⟨_, hrest, hw⟩ := Option.map_eq_some_iff.1 hw
    cases hw
    obtain ⟨ps, hps⟩ := ih hrest []
    exact ⟨_, .instruction hps⟩
  | case5 around count label attributes children rest scope count₁ hscope scopes ihchildren =>
    rename_i ihrest
    rw [writeTrees?] at hw
    simp only [hscope] at hw
    obtain ⟨tag, htag, hw⟩ := Option.bind_eq_some_iff.1 hw
    obtain ⟨written, hwritten, hw⟩ := Option.bind_eq_some_iff.1 hw
    obtain ⟨⟨inside, count₂⟩, hinside, hw⟩ := Option.bind_eq_some_iff.1 hw
    obtain ⟨⟨after, next'⟩, hrest, hw⟩ := Option.map_eq_some_iff.1 hw
    have hnext : next' = next := by
      simp only at hw
      split at hw
      next => exact congrArg Prod.snd hw
      next => exact congrArg Prod.snd hw
    subst hnext
    obtain ⟨inner, hinner⟩ := ihchildren hinside []
    obtain ⟨ps, hps⟩ := ihrest count₂ hrest []
    exact ⟨_, .element hscope htag hwritten hinner hps⟩

theorem woven_settled (run : Run) : Woven run.kept run.settled := by
  rw [Run.kept_eq, Run.settled]
  split
  next => exact .nil
  next => exact .run .nil

/-- The pieces of trees are their runs, in order, with markup around them. -/
theorem woven (h : Pieced around count run trees ps next) : Woven (runsFrom run trees) ps := by
  induction h with
  | @nil _ _ run =>
    rw [runsFrom]
    exact woven_settled run
  | text _ ih =>
    rw [runsFrom]
    exact ih
  | @comment _ _ _ run _ _ _ _ ih =>
    rw [runsFrom]
    exact (woven_settled run).append (ih.markup rfl)
  | @instruction _ _ _ run _ _ _ _ _ ih =>
    rw [runsFrom]
    exact (woven_settled run).append (ih.markup rfl)
  | @element _ _ _ _ _ run _ _ children _ _ tag _ inner _ _ _ _ hchildren _ ihchildren ihrest =>
    rw [runsFrom, List.append_assoc]
    refine (woven_settled run).append (Woven.append ?_ ihrest)
    unfold enclose
    split
    next hempty =>
      rw [List.isEmpty_iff.1 hempty, runsFrom]
      exact .markup rfl .nil
    next =>
      rw [← List.append_nil (runsFrom [] children)]
      exact .markup rfl (ihchildren.append (.markup rfl .nil))

variable {names : List (List Char)} {after : List Char} {psAfter : List Piece}

/-- A pending run ends where markup begins. -/
theorem reads_settled (run : Run) (h : Reads names after psAfter) (ha : BeginsMarkup after) :
    Reads names (run.settled.flatMap Piece.written ++ after) (run.settled ++ psAfter) := by
  rw [flatMap_written_settled, Run.settled]
  split
  next hnone =>
    rw [hnone]
    exact h
  next hsome => exact .text hsome Run.lt_not_mem_escaped ha h

/-- The tags of an element are read around its children. -/
theorem reads_enclose (isEmpty : Bool) {tag head : List Char} {inner : List Piece}
    (htag : IsTagName tag) (hbody : TagBody tag head)
    (hinner : ∀ {after psAfter}, Reads (tag :: names) after psAfter → BeginsMarkup after →
      Reads (tag :: names) (inner.flatMap Piece.written ++ after) (inner ++ psAfter))
    (h : Reads names after psAfter) :
    Reads names ((enclose isEmpty tag head inner).flatMap Piece.written ++ after)
        (enclose isEmpty tag head inner ++ psAfter) ∧
      BeginsMarkup ((enclose isEmpty tag head inner).flatMap Piece.written ++ after) := by
  unfold enclose
  split
  next =>
    have hopens := opens_emptyTag hbody
    rw [List.flatMap_singleton]
    exact ⟨.mark hopens rfl h, beginsMarkup_written hopens _⟩
  next =>
    have hopens := opens_startTag hbody
    have hopen : openAfter names (.startTag head) = .ok (tag :: names) := by
      rw [openAfter, hbody.tagName]
    -- the end tag is what the children are followed by
    have hend : Reads (tag :: names) ((Piece.endTag tag).written ++ after)
        (.endTag tag :: psAfter) :=
      .mark (opens_endTag htag) (by rw [openAfter, if_pos rfl]) h
    have hwhole := hinner hend (beginsMarkup_written (opens_endTag htag) _)
    simp only [List.flatMap_cons, List.flatMap_append, List.flatMap_nil, List.append_nil,
      List.append_assoc, List.cons_append, List.nil_append]
    exact ⟨.mark hopens hopen hwhole, beginsMarkup_written hopens _⟩

/-- A pending run before a piece of markup. -/
theorem reads_mark (run : Run) {p : Piece} (hp : Opens p) (ho : openAfter names p = .ok names)
    (h : Reads names (ps.flatMap Piece.written ++ after) (ps ++ psAfter)) :
    Reads names ((run.settled ++ p :: ps).flatMap Piece.written ++ after)
      (run.settled ++ p :: ps ++ psAfter) := by
  rw [List.flatMap_append, List.flatMap_cons, List.append_assoc, List.append_assoc,
    List.append_assoc]
  exact reads_settled run (.mark hp ho h) (beginsMarkup_written hp _)

/-- The pieces of trees read back. -/
theorem reads (h : Pieced around count run trees ps next) (hs : ∀ s ∈ around, s.Sound)
    (ht : ∀ t ∈ trees, t.Every (Tree.Has Content.Writable)) (hafter : Reads names after psAfter)
    (ha : BeginsMarkup after) :
    Reads names (ps.flatMap Piece.written ++ after) (ps ++ psAfter) := by
  induction h generalizing names after psAfter with
  | @nil _ _ run => exact reads_settled run hafter ha
  | text _ ih => exact ih hs (fun t hmem => ht t (List.mem_cons_of_mem _ hmem)) hafter ha
  | @comment _ _ _ run s _ _ _ ih =>
    have hps := ih hs (fun t hmem => ht t (List.mem_cons_of_mem _ hmem)) hafter ha
    cases ht (.comment s) (List.mem_cons_self ..) with
    | comment hwritable => exact reads_mark run (opens_comment hwritable.content.legible) rfl hps
  | @instruction _ _ _ run target data? _ _ _ ih =>
    have hps := ih hs (fun t hmem => ht t (List.mem_cons_of_mem _ hmem)) hafter ha
    cases ht (.instruction target data?) (List.mem_cons_self ..) with
    | instruction hwritable =>
    exact reads_mark run (opens_instructionText hwritable.content.legible) rfl hps
  | @element around count _ _ _ run label attributes children _ scope _ _ _ _ hscope htag hwritten
      _ _ ihchildren ihrest =>
    have hps := ihrest hs (fun t hmem => ht t (List.mem_cons_of_mem _ hmem)) hafter ha
    cases ht (.element label attributes children) (List.mem_cons_self ..) with
    | element hwritable hchildren =>
    have hscopes : ∀ s ∈ scope :: around, s.Sound := by
      have hsound : (Scope.ofElement around count label attributes).1.Sound :=
        Scope.sound_ofElement hwritable.content hwritable.attributes hs
      rw [hscope] at hsound
      exact List.forall_mem_cons.2 ⟨hsound, hs⟩
    have hhead := isHead_of_written hscopes hwritable.content hwritable.attributes htag hwritten
    obtain ⟨hwhole, hbegins⟩ := reads_enclose children.isEmpty hhead.name hhead.tagBody
      (fun hafter ha => ihchildren hscopes hchildren hafter ha) hps
    have hsettled := reads_settled run hwhole hbegins
    simpa only [List.flatMap_append, List.append_assoc] using hsettled

end Pieced

end XmlScript.Markup
