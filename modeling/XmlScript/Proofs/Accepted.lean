import XmlScript.Proofs.Reread
import XmlScript.Proofs.Taken

/-!
# Documents whose text is accepted

If the reader accepts the text of a document, then it has taken every tag where it stands. So each
tag can be read there again when there is more around it, as long as this leaves the reader where it
is: comments and instructions do (`Extended`, `IsInsert`). What the reader made of the pieces of a
document (`Taken`) is followed from the first piece to the last, and the names, prefixes and
namespaces are never looked into (`Pieced.accepted`); all that is asked of them is that nothing
breaks out of its markup (`Content.Contained`).

The main statement is `Document.exists_render_extended`: with more comments and instructions in it,
the document is rendered and accepted as well, and the text has all their marks.
-/

namespace XmlScript

/-- What stays within its markup, whether or not the reader takes it. -/
structure Content.Contained (c : Content) : Prop where
  writable : c.Writable
  framed : c.Framed

theorem Content.Taggable.contained {c : Content} (h : c.Taggable) (hframed : c.Framed)
    (hunquoted : c.Unquoted) : c.Contained := ⟨⟨h.legible hframed, hunquoted⟩, hframed⟩

theorem Tree.Every.writable {t : Tree} (h : t.Every (Tree.Has Content.Contained)) :
    t.Every (Tree.Has Content.Writable) :=
  h.both h fun _ ht _ => ⟨ht.content.writable, fun a ha => (ht.attributes a ha).writable⟩

namespace Markup

/-! ## Trees with others among them -/

/-- Neighbouring trees with some more of one tree put among them and into their elements. -/
inductive Extended (x : Tree) : List Tree → List Tree → Prop
  | nil : Extended x [] []
  | leaf {t : Tree} {trees trees' : List Tree} (ht : t.isElement = false)
    (h : Extended x trees trees') : Extended x (t :: trees) (t :: trees')
  | element {label : Label} {attributes : List Attribute}
    {children children' trees trees' : List Tree} (hc : Extended x children children')
    (h : Extended x trees trees') :
    Extended x (.element label attributes children :: trees)
      (.element label attributes children' :: trees')
  | insert {trees trees' : List Tree} (h : Extended x trees trees') : Extended x trees (x :: trees')

/-- A tree that can be put anywhere: a comment or an instruction that ends where it is meant to. -/
structure IsInsert (x : Tree) : Prop where
  isElement : x.isElement = false
  isText : x.isText = false
  framed : x.content.Framed

variable {x : Tree} {scopes : List Scope} {q q' : Place} {count next : Nat}
  {trees trees' rest : List Tree}

/-- An insert stays within its markup. -/
theorem IsInsert.every (hx : IsInsert x) : x.Every (Tree.Has Content.Contained) := by
  refine .of_leaf hx.isElement (.of_leaf hx.isElement ?_)
  obtain ⟨helement, -, hframed⟩ := hx
  cases x with
  | element => cases helement
  | text | comment | instruction => exact Content.Taggable.contained trivial hframed trivial

theorem Extended.isText (hx : IsInsert x) (h : Extended x trees trees')
    (ht : ∀ t ∈ trees, t.isText = false) : ∀ t ∈ trees', t.isText = false := by
  induction h with
  | nil => exact ht
  | leaf _ _ ih =>
    rw [List.forall_mem_cons] at ht
    exact List.forall_mem_cons.2 ⟨ht.1, ih ht.2⟩
  | element _ _ _ ih => exact List.forall_mem_cons.2 ⟨rfl, ih (List.forall_mem_cons.1 ht).2⟩
  | insert _ ih => exact List.forall_mem_cons.2 ⟨hx.isText, ih ht⟩

theorem Extended.every (hx : IsInsert x) (h : Extended x trees trees')
    (ht : ∀ t ∈ trees, t.Every (Tree.Has Content.Contained)) :
    ∀ t ∈ trees', t.Every (Tree.Has Content.Contained) := by
  induction h with
  | nil => exact ht
  | leaf _ _ ih =>
    rw [List.forall_mem_cons] at ht
    exact List.forall_mem_cons.2 ⟨ht.1, ih ht.2⟩
  | element _ _ ihchildren ih =>
    rw [List.forall_mem_cons, Tree.every_element_iff] at ht
    exact List.forall_mem_cons.2
      ⟨.element ⟨ht.1.1.content, ht.1.1.attributes⟩ (ihchildren ht.1.2), ih ht.2⟩
  | insert _ ih => exact List.forall_mem_cons.2 ⟨hx.every, ih ht⟩

/-- What is put in front of the first tree leaves the reader where it is. -/
theorem Extended.writes (hx : IsInsert x) (hq : q.stage ≠ .start) (h : Extended x trees trees')
    (hnil : trees = [] → Writes scopes q count [] q' next)
    (hleaf : ∀ t rest rest', t.isElement = false → trees = t :: rest → Extended x rest rest' →
      Writes scopes q count (t :: rest') q' next)
    (helement : ∀ label attributes children children' rest rest',
      trees = .element label attributes children :: rest → Extended x children children' →
        Extended x rest rest' →
          Writes scopes q count (.element label attributes children' :: rest') q' next) :
    Writes scopes q count trees' q' next := by
  induction h with
  | nil => exact hnil rfl
  | leaf ht h => exact hleaf _ _ _ ht rfl h
  | element hc h => exact helement _ _ _ _ _ _ rfl hc h
  | insert _ ih => exact writes_misc hx.framed hx.isElement hx.isText hq (ih hnil hleaf helement)

/-- The reader goes on from trees that have been written: their marks are what it has added, and
with more trees among them they are written and read as well. -/
structure Accepted (x : Tree) (scopes : List Scope) (p : Progress) (count : Nat)
    (trees : List Tree) (p' : Progress) (next : Nat) : Prop where
  adds : p.Adds ((Tree.marks trees).map Mark.read) ((Tree.rows trees).map (List.map Mark.read)) p'
  inside : p.spot.inner ≠ [] → p'.spot = p.spot
  writes : ∀ trees', Extended x trees trees' → Writes scopes p.spot count trees' p'.spot next

namespace Accepted

variable {p p' : Progress} {ps : List Piece}

theorem nil (hx : IsInsert x) (h : Taken p [] p') : Accepted x scopes p count [] p' count := by
  obtain ⟨hadds, hspot⟩ := h.nil
  refine ⟨by rwa [Tree.rows_nil], fun _ => hspot, fun trees' htrees' => ?_⟩
  rw [hspot]
  exact htrees'.writes hx p.spot_stage_ne_start (fun _ => writes_nil) nofun nofun

theorem text {s : String} {isCData : Bool} (hx : IsInsert x) (hp : p.spot.inner ≠ [])
    (h : Accepted x scopes p count rest p' next) :
    Accepted x scopes p count (.text s isCData :: rest) p' next where
  adds := by
    rw [Tree.rows_cons_leaf rfl]
    exact h.adds
  inside := h.inside
  writes trees' htrees' := by
    refine htrees'.writes hx p.spot_stage_ne_start nofun (fun t rest rest' _ he hrest => ?_) nofun
    cases he
    exact writes_text hp (h.writes _ hrest)

/-- A comment or an instruction, of which the reader makes a tree of its own. -/
theorem misc {t u : Tree} {m : Piece} {e : Event} (hx : IsInsert x) (ht : IsInsert t)
    (hm : m.isMarkup = true) (he : m.event? = some e) (hu : e.leaf? = some u)
    (hread : Tree.marks [u] = (Tree.marks [t]).map Mark.read) (htaken : Taken p (m :: ps) p')
    (h : ∀ q, q.spot = p.spot → Taken q ps p' → Accepted x scopes q count rest p' next) :
    Accepted x scopes p count (t :: rest) p' next := by
  obtain ⟨q, e', q', htexts, hspot, he', hstep, htaken⟩ := htaken.mark hm
  cases he.symm.trans he'
  obtain ⟨hadds, hspot'⟩ := Progress.adds_of_leaf? hu hstep
  have hspot := hspot'.trans hspot
  have hrest := h q' hspot htaken
  refine ⟨?_, fun hp => ?_, fun trees' htrees' => ?_⟩
  · have hall := (htexts.trans hadds).trans hrest.adds
    rw [hread] at hall
    rw [Tree.rows_cons_leaf ht.isElement, ← List.singleton_append, Tree.marks_append,
      List.map_append]
    exact hall
  · rw [← hspot] at hp ⊢
    exact hrest.inside hp
  · rw [← hspot]
    refine htrees'.writes hx q'.spot_stage_ne_start nofun (fun t' rest rest' _ he hrest' => ?_)
      fun _ _ _ _ _ _ he => ?_
    · cases he
      exact writes_misc ht.framed ht.isElement ht.isText q'.spot_stage_ne_start
        (hrest.writes _ hrest')
    · rw [(List.cons.inj he).1] at ht
      cases ht.isElement

/-- An element, if what is inside it is taken there. -/
theorem element {label : Label} {attributes : List Attribute} {children : List Tree}
    {scope : Scope} {count₁ count₂ : Nat} {tag : List Char} {written : List (List Char)}
    {inner : List Piece} (hx : IsInsert x)
    (hscope : Scope.ofElement scopes count label attributes = (scope, count₁))
    (htag : writeName? (scope :: scopes) true label.name label.hint? = some tag)
    (hwritten : attributes.mapM (writeAttribute? (scope :: scopes)) = some written)
    (hhead : IsHead tag (tag ++ written.flatten ++ writeDeclarations scope))
    (hempty : children.isEmpty = true → inner = [])
    (htaken : Taken p (enclose children.isEmpty tag
      (tag ++ written.flatten ++ writeDeclarations scope) inner ++ ps) p')
    (hchildren : ∀ q q', q.spot.inner ≠ [] → Taken q inner q' →
      Accepted x (scope :: scopes) q count₁ children q' count₂)
    (hrest : ∀ q, q.spot.inner = p.spot.inner → Taken q ps p' →
      Accepted x scopes q count₂ rest p' next) :
    Accepted x scopes p count (.element label attributes children :: rest) p' next := by
  obtain ⟨w, read, spaces, q, q', hopens, hcloses, hstep, hspot, hinner, hclosed⟩ :=
    htaken.enclose hhead hempty
  have hne : q.spot.inner ≠ [] := by
    rw [hspot]
    exact List.cons_ne_nil _ _
  have hbelow := hchildren q q' hne hinner
  have hstays := hbelow.inside hne
  obtain ⟨p₁, htaken, hadds, hspot₁⟩ := hclosed _ _ hbelow.adds hstays
  have hafter := hrest p₁ (by rw [hspot₁]) htaken
  refine ⟨?_, fun hp => ?_, fun trees' htrees' => ?_⟩
  · have hall := hadds.trans hafter.adds
    rw [Tree.rows_cons_element, List.map_cons, List.map_append]
    exact hall
  · have hsame : p₁.spot = p.spot := by
      rw [hspot₁, Place.stageInside, if_neg hp]
    rw [← hsame] at hp ⊢
    exact hafter.inside hp
  · refine htrees'.writes hx p.spot_stage_ne_start nofun (fun t rest rest' ht he hrest' => ?_)
      fun _ _ _ children' _ rest' he hchildren' hrest' => ?_
    · rw [← (List.cons.inj he).1] at ht
      cases ht
    · cases he
      have hinside := hbelow.writes _ hchildren'
      have hbehind := hafter.writes _ hrest'
      rw [hstays, hspot] at hinside
      rw [hspot₁] at hbehind
      exact writes_element hscope htag hwritten hopens hcloses hstep hinside hbehind

end Accepted

/-! ## Pieces that are firm -/

theorem isFirm_comment {s : String} (h : (Content.comment s).Framed) :
    IsFirm (.comment s.toList) ∧ (Piece.comment s.toList).event? = some (.comment s) := by
  have hevent := event?_comment h
  rw [String.ofList_toList] at hevent
  exact isFirm_of_event? hevent fun e he => Option.some.inj he ▸ rfl

theorem isFirm_instruction {target : String} {data? : Option String}
    (h : (Content.instruction target data?).Framed) :
    IsFirm (.instruction (instructionText target data?)) ∧
      (Piece.instruction (instructionText target data?)).event? = some (.instruction target
        (data?.map fun data => String.ofList (skipBlanks data.toList))) := by
  have hevent := event?_instruction h.1 h.2.1 h.2.2
  rw [writeInstruction_eq] at hevent
  exact isFirm_of_event? hevent fun e he => Option.some.inj he ▸ rfl

theorem isFirm_of_isHead {tag head : List Char} (h : IsHead tag head) :
    IsFirm (.startTag head) ∧ IsFirm (.emptyTag head) ∧ IsFirm (.endTag tag) := by
  obtain ⟨read?, hopens, -⟩ := h.exists_event
  have htext (isEmpty : Bool) : ∀ e ∈ read?.map fun x => Event.startTag x.1 x.2 isEmpty,
      e.isText = false := fun e he => by
    obtain ⟨x, -, rfl⟩ := Option.map_eq_some_iff.1 he
    rfl
  refine ⟨(isFirm_of_event? (fun after => ?_) (htext false)).1,
    (isFirm_of_event? (fun after => ?_) (htext true)).1, ?_⟩
  · rw [Option.map_map]
    exact hopens false after
  · rw [Option.map_map]
    exact hopens true after
  · have hevent (after : List Char) : event? ((Piece.endTag tag).written ++ after) =
        ((asWritten? (String.ofList tag)).map Event.endTag).map (·, after) := by
      rw [event?_endTag_name h.name.not_mem, Option.map_map]
      rfl
    refine (isFirm_of_event? hevent fun e he => ?_).1
    obtain ⟨w, -, rfl⟩ := Option.map_eq_some_iff.1 he
    rfl

namespace Pieced

variable {run : Run} {ps : List Piece}

theorem isHead {scope : Scope} {count₁ : Nat} {label : Label} {attributes : List Attribute}
    {children : List Tree} {tag : List Char} {written : List (List Char)}
    (hs : ∀ s ∈ scopes, s.Sound)
    (ht : Tree.Has Content.Contained (.element label attributes children))
    (hscope : Scope.ofElement scopes count label attributes = (scope, count₁))
    (htag : writeName? (scope :: scopes) true label.name label.hint? = some tag)
    (hwritten : attributes.mapM (writeAttribute? (scope :: scopes)) = some written) :
    (∀ s ∈ scope :: scopes, s.Sound) ∧
      IsHead tag (tag ++ written.flatten ++ writeDeclarations scope) := by
  have hattributes : ∀ a ∈ attributes, (Content.attribute a).Writable := fun a ha =>
    (ht.attributes a ha).writable
  have hsound : (Scope.ofElement scopes count label attributes).1.Sound :=
    Scope.sound_ofElement ht.content.writable hattributes hs
  rw [hscope] at hsound
  have hscopes := List.forall_mem_cons.2 ⟨hsound, hs⟩
  exact ⟨hscopes, isHead_of_written hscopes ht.content.writable hattributes htag hwritten⟩

theorem isFirm_settled (hps : ∀ p ∈ ps, p.isMarkup = true → IsFirm p) :
    ∀ p ∈ run.settled ++ ps, p.isMarkup = true → IsFirm p := by
  refine List.forall_mem_append.2 ⟨fun p hp hmark => ?_, hps⟩
  unfold Run.settled at hp
  split at hp
  next => cases hp
  next =>
    rw [List.mem_singleton.1 hp] at hmark
    cases hmark

/-- The pieces of trees are firm. -/
theorem isFirm (h : Pieced scopes count run trees ps next) (hs : ∀ s ∈ scopes, s.Sound)
    (ht : ∀ t ∈ trees, t.Every (Tree.Has Content.Contained)) :
    ∀ p ∈ ps, p.isMarkup = true → IsFirm p := by
  induction h with
  | nil =>
    rw [← List.append_nil (Run.settled _)]
    exact isFirm_settled (List.forall_mem_nil _)
  | text _ ih => exact ih hs (List.forall_mem_cons.1 ht).2
  | comment _ ih =>
    rw [List.forall_mem_cons] at ht
    have hframed := ht.1.self.content.framed
    exact isFirm_settled (List.forall_mem_cons.2 ⟨fun _ => (isFirm_comment hframed).1, ih hs ht.2⟩)
  | instruction _ ih =>
    rw [List.forall_mem_cons] at ht
    have hframed := ht.1.self.content.framed
    exact isFirm_settled
      (List.forall_mem_cons.2 ⟨fun _ => (isFirm_instruction hframed).1, ih hs ht.2⟩)
  | element hscope htag hwritten _ _ ihchildren ihrest =>
    rw [List.forall_mem_cons, Tree.every_element_iff] at ht
    obtain ⟨hscopes, hhead⟩ := isHead hs ht.1.1 hscope htag hwritten
    obtain ⟨hstart, hempty, hend⟩ := isFirm_of_isHead hhead
    refine isFirm_settled (List.forall_mem_append.2 ⟨?_, ihrest hs ht.2⟩)
    unfold enclose
    split
    next => exact List.forall_mem_singleton.2 fun _ => hempty
    next =>
      refine List.forall_mem_cons.2 ⟨fun _ => hstart, List.forall_mem_append.2 ⟨?_, ?_⟩⟩
      · exact ihchildren hscopes ht.1.2
      · exact List.forall_mem_singleton.2 fun _ => hend

/-- The pieces of trees that the reader takes. -/
theorem accepted {p p' : Progress} (h : Pieced scopes count run trees ps next) (hx : IsInsert x)
    (hs : ∀ s ∈ scopes, s.Sound) (ht : ∀ t ∈ trees, t.Every (Tree.Has Content.Contained))
    (htop : p.spot.inner = [] → ∀ t ∈ trees, t.isText = false) (htaken : Taken p ps p') :
    Accepted x scopes p count trees p' next := by
  induction h generalizing p p' with
  | nil =>
    rw [← List.append_nil (Run.settled _)] at htaken
    exact .nil hx htaken.settled
  | text _ ih =>
    rw [List.forall_mem_cons] at ht
    have hp : p.spot.inner ≠ [] := fun hnil =>
      Bool.false_ne_true (htop hnil _ (List.mem_cons_self ..)).symm
    exact .text hx hp (ih hs ht.2 (fun hnil => absurd hnil hp) htaken)
  | comment _ ih =>
    rw [List.forall_mem_cons] at ht
    have hframed := ht.1.self.content.framed
    refine .misc hx ⟨rfl, rfl, hframed⟩ rfl (isFirm_comment hframed).2 rfl rfl htaken.settled
      fun q hspot => ih hs ht.2 fun hnil t hmem => ?_
    rw [hspot] at hnil
    exact htop hnil t (List.mem_cons_of_mem _ hmem)
  | instruction _ ih =>
    rw [List.forall_mem_cons] at ht
    have hframed := ht.1.self.content.framed
    refine .misc hx ⟨rfl, rfl, hframed⟩ rfl (isFirm_instruction hframed).2 rfl rfl htaken.settled
      fun q hspot => ih hs ht.2 fun hnil t hmem => ?_
    rw [hspot] at hnil
    exact htop hnil t (List.mem_cons_of_mem _ hmem)
  | @element _ _ _ _ _ _ _ _ children _ _ _ _ _ _ hscope htag hwritten hchildren _ ihchildren
      ihrest =>
    rw [List.forall_mem_cons, Tree.every_element_iff] at ht
    obtain ⟨hscopes, hhead⟩ := isHead hs ht.1.1 hscope htag hwritten
    refine .element hx hscope htag hwritten hhead (fun hempty => ?_) htaken.settled
      (fun q q' hne => ihchildren hscopes ht.1.2 fun hnil => absurd hnil hne)
      fun q hspot => ihrest hs ht.2 fun hnil t hmem => ?_
    · rw [List.isEmpty_iff.1 hempty] at hchildren
      cases hchildren
      exact if_pos Run.escaped_nil
    · rw [hspot] at hnil
      exact htop hnil t (List.mem_cons_of_mem _ hmem)

end Pieced

/-! ## The front of a document -/

/-- What stands in front of the pieces of a document adds nothing. -/
theorem Taken.front {declared encoding : Bool} {p : Progress}
    (h : Taken {} (front declared encoding) p) :
    ({} : Progress).Adds [] [] p ∧ p.spot = ⟨.prolog, []⟩ := by
  cases declared with
  | false => exact h.nil
  | true =>
    obtain ⟨q, e, q', hadds, -, he, hstep, h⟩ := h.mark rfl
    have hdeclaration : e = .declaration := by
      cases encoding <;> exact (Option.some.inj he).symm
    obtain ⟨hlast, hspot⟩ := h.nil
    rw [hdeclaration] at hstep
    simp only [Progress.step?] at hstep
    split at hstep
    next hstart =>
      cases hstep
      rw [hspot]
      refine ⟨(hadds.trans (.nil q .prolog)).trans hlast, congrArg (Place.mk _) ?_⟩
      exact List.map_eq_nil_iff.2 (List.isEmpty_iff.1 hstart.1)
    next => cases hstep

/-- At the end of a document the reader is behind the document element, and what it has added are
the trees of the document. -/
theorem Progress.Adds.finish? {marks : List Mark} {rows : List (List Mark)} {p : Progress}
    {read : List Tree} (h : ({} : Progress).Adds marks rows p) (hfinish : p.finish? = some read) :
    Tree.marks read = marks ∧ Tree.rows read = rows ∧ p.spot = ⟨.epilog, []⟩ := by
  obtain ⟨trees, stage, rfl, rfl, rfl⟩ := h
  rw [foldl_add_nil, List.append_nil] at hfinish ⊢
  unfold Progress.finish? at hfinish
  split at hfinish
  next hend =>
    cases hfinish
    rw [List.reverse_reverse]
    refine ⟨rfl, rfl, ?_⟩
    rw [show stage = .epilog from hend.2]
    rfl
  next => cases hfinish

end Markup

/-! ## Documents -/

open Markup

namespace Document

variable {d d' : Document} {x : Tree} {options : RenderOptions} {text : List Char}

/-- What is rendered is written, and it is not too wide. -/
theorem exists_pieced_of_render (h : d.render options = .ok text) :
    (∃ ps next, Pieced [] 0 [] d.trees ps next) ∧
      ∀ width ∈ options.indent?, ∀ t ∈ d.trees, t.hasChildren = true → width < textLimit := by
  unfold Document.render at h
  simp only at h
  split at h
  next => cases h
  next written hwritten =>
    obtain ⟨⟨body, next⟩, hbody, -⟩ := Option.map_eq_some_iff.1 hwritten
    obtain ⟨ps, hps⟩ := Pieced.exists_of_write hbody []
    refine ⟨⟨ps, next, hps⟩, fun width hwidth t ht hchildren => ?_⟩
    by_contra hle
    have hlarge : textLimit ≤ width := Nat.le_of_not_lt hle
    have hpos : 0 < width := Nat.lt_of_lt_of_le (by decide) hlarge
    have hkept : options.indent?.filter (0 < ·) = some width :=
      Option.filter_eq_some_iff.2 ⟨hwidth, decide_eq_true hpos⟩
    rw [hkept, if_neg fun hnone => Bool.false_ne_true hnone.1, if_pos] at h
    · cases h
    · exact ⟨decide_eq_true hlarge, List.any_eq_true.2 ⟨t, ht, hchildren⟩⟩

variable (hroot : ∀ t ∈ d.trees, t.isText = false)
  (hcontained : ∀ t ∈ d.trees, t.Every (Tree.Has Content.Contained))

include hroot hcontained

/-- What the reader makes of a text that it accepts has the marks of the document. With more trees
that can stand anywhere the document can be written and read as well. -/
theorem accepted_of_render (hrender : d.render options = .ok text) {read : List Tree}
    (hread : readTrees? text = some read) :
    Tree.marks read = (Tree.marks d.trees).map Mark.read ∧
      Tree.rows read = (Tree.rows d.trees).map (List.map Mark.read) ∧
      ∀ x trees', IsInsert x → Extended x d.trees trees' →
        ∃ next, Writes [] ⟨.prolog, []⟩ 0 trees' ⟨.epilog, []⟩ next := by
  obtain ⟨⟨ps, next, hps⟩, hwidth⟩ := exists_pieced_of_render hrender
  obtain ⟨text', hrender', hmarkup⟩ := exists_render_markup hroot
    (fun t ht => (hcontained t ht).writable) hps (hps.isFirm (List.forall_mem_nil _) hcontained)
    options hwidth
  cases hrender.symm.trans hrender'
  obtain ⟨p', hp', hfinish⟩ := Option.bind_eq_some_iff.1 hread
  obtain ⟨events, hevents, hfold⟩ := Option.bind_eq_some_iff.1 hp'
  have htaken : Taken {} (front options.declaration options.encoding ++ ps) p' := by
    refine ⟨events, ?_, hfold⟩
    rw [markupOf?, hevents] at hmarkup
    rw [List.filter_append, List.mapM_append, (marked_front _ _).events]
    refine Eq.trans ?_ hmarkup.symm
    cases (ps.filter Piece.isMarkup).mapM Piece.event? <;> rfl
  obtain ⟨p, hfront, htaken⟩ := htaken.append
  obtain ⟨hadds, hspot⟩ := hfront.front
  have haccepted {x : Tree} (hx : IsInsert x) : Accepted x [] p 0 d.trees p' next :=
    hps.accepted hx (List.forall_mem_nil _) hcontained (fun _ => hroot) htaken
  have hempty : ¬ ['-', '-'] <:+: "".toList ++ ['-'] := by decide
  have hinsert : IsInsert (.comment "") := ⟨rfl, rfl, hempty⟩
  obtain ⟨hmarks, hrows, hend⟩ := (hadds.trans (haccepted hinsert).adds).finish? hfinish
  refine ⟨hmarks, hrows, fun x trees' hx htrees' => ⟨next, ?_⟩⟩
  have hwrites := (haccepted hx).writes trees' htrees'
  rwa [hspot, hend] at hwrites

omit hroot hcontained in
/-- A document whose text is accepted is rendered and accepted with more trees in it as well, and
the text has all their marks. -/
theorem exists_render_extended (hroot : ∀ t ∈ d.trees, t.isText = false)
    (hcontained : ∀ t ∈ d.trees, t.Every (Tree.Has Content.Contained))
    (hrender : d.render options = .ok text) (haccepted : (readTrees? text).isSome = true)
    (hx : IsInsert x) (hextended : Extended x d.trees d'.trees) {options' : RenderOptions}
    (hwidth : ∀ width ∈ options'.indent?, ∀ t ∈ d'.trees, t.hasChildren = true →
      width < textLimit) :
    ∃ text' read, d'.render options' = .ok text' ∧ readTrees? text' = some read ∧
      Tree.marks read = (Tree.marks d'.trees).map Mark.read ∧
      Tree.rows read = (Tree.rows d'.trees).map (List.map Mark.read) := by
  obtain ⟨before, hbefore⟩ := Option.isSome_iff_exists.1 haccepted
  obtain ⟨-, -, hwrites⟩ := accepted_of_render hroot hcontained hrender hbefore
  obtain ⟨next, hwrites⟩ := hwrites x d'.trees hx hextended
  obtain ⟨ps, hps, hadmits⟩ := hwrites [] fun _ => rfl
  have hroot' := hextended.isText hx hroot
  have hcontained' := hextended.every hx hcontained
  obtain ⟨text', hrender', haccepted'⟩ := exists_render_of_admits hroot'
    (fun t ht => (hcontained' t ht).writable) hps hadmits options' hwidth
  obtain ⟨read, hread⟩ := Option.isSome_iff_exists.1 haccepted'
  obtain ⟨hmarks, hrows, -⟩ := accepted_of_render hroot' hcontained' hrender' hread
  exact ⟨text', read, hrender', hread, hmarks, hrows⟩

end Document

end XmlScript
