import XmlScript.Proofs.Readback
import XmlScript.Proofs.StartTags
import XmlScript.Proofs.WellFormed

/-!
# Documents that are read where they are written

A document is rendered as pieces of markup with texts between. Markup leads the reader from place to
place (`Admits`), and the texts inside elements lead nowhere else, whatever the layout puts in their
places (`Leads`, `Admits.assemble`). So it is enough to follow the pieces that trees are written in:
each tree is written and read at a place, and then the trees after it (`Writes`). The induction is on
the trees, the prefixes that are known inside an element go with it.

What a script leaves can be read again if its names, comments and instructions can stand where they
are (`Tree.Proper`).
-/

namespace XmlScript

namespace Markup

/-! ## Pieces that are read -/

/-- Pieces that lead from one place to another, whatever the texts among them say. -/
inductive Admits : Place → List Piece → Place → Prop
  | nil (q : Place) : Admits q [] q
  | mark {q q' q'' : Place} {p : Piece} {e : Event} {ps : List Piece} (hp : p.isMarkup = true)
    (he : ∀ after, event? (p.written ++ after) = some (e, after)) (hs : q.Step e q')
    (h : Admits q' ps q'') : Admits q (p :: ps) q''
  | text {q q' : Place} {s : List Char} {ps : List Piece} (hq : q.inner ≠ [])
    (h : Admits q ps q') : Admits q (.text s :: ps) q'

theorem Admits.append {q q' q'' : Place} {ps ps' : List Piece} (h : Admits q ps q')
    (h' : Admits q' ps' q'') : Admits q (ps ++ ps') q'' := by
  induction h with
  | nil => exact h'
  | mark hp he hs _ ih => exact .mark hp he hs (ih h')
  | text hq _ ih => exact .text hq (ih h')

/-- The same of pieces that are laid out, where blanks may stand beside the document element. -/
inductive Leads : Place → List Piece → Place → Prop
  | nil (q : Place) : Leads q [] q
  | mark {q q' q'' : Place} {p : Piece} {e : Event} {ps : List Piece} (hp : p.isMarkup = true)
    (he : ∀ after, event? (p.written ++ after) = some (e, after)) (hs : q.Step e q')
    (h : Leads q' ps q'') : Leads q (p :: ps) q''
  | text {q q' : Place} {s : List Char} {ps : List Piece} (hs : IsSkipped q s)
    (h : Leads q ps q') : Leads q (.text s :: ps) q'
  | cdata {q q' : Place} {s : List Char} {ps : List Piece} (hq : q.inner ≠ [])
    (hs : ¬ sectionEnd <:+: s) (h : Leads q ps q') : Leads q (.cdata s :: ps) q'

namespace Leads

variable {q q' : Place} {ps : List Piece}

/-- What is written of pieces that lead somewhere leads there. -/
theorem takes (h : Leads q ps q') : Takes q (ps.flatMap Piece.written) q' := by
  -- a text goes on into the next one
  suffices hs : ∀ s, IsSkipped q s → Takes q (s ++ ps.flatMap Piece.written) q' from
    hs [] (.nil q)
  induction h with
  | nil q =>
    intro s hs
    exact takes_skipped hs nofun (.nil q)
  | @mark q q' q'' p e ps hp he hstep _ ih =>
    intro s hs
    obtain ⟨inner, hwritten⟩ := exists_written_cons hp
    rw [List.flatMap_cons]
    refine takes_skipped hs (beginsMarkup_of_isMarkup hp _)
      (.event (he _) ?_ hstep (ih [] (.nil q')))
    rw [hwritten, List.cons_append, List.length_cons, List.length_append]
    omega
  | @text q _ t ps ht _ ih =>
    intro s hs
    rw [List.flatMap_cons, ← List.append_assoc]
    exact ih _ (hs.append ht)
  | @cdata q _ t ps hq ht _ ih =>
    intro s hs
    rw [List.flatMap_cons]
    refine takes_skipped hs (beginsMarkup_written (opens_cdata ht) _) ?_
    exact .text hq (List.cons_ne_nil _ _) (event?_cdata ht _) rfl rfl (ih [] (.nil q))

/-- Inside an element anything may stand in the place of a run. -/
theorem fillers {xs : List Piece} (hq : q.inner ≠ []) (hx : ∀ x ∈ xs, IsReadable x)
    (h : Leads q ps q') : Leads q (xs ++ ps) q' := by
  induction xs with
  | nil => exact h
  | cons x xs ih =>
    rw [List.forall_mem_cons] at hx
    cases x with
    | text t => exact .text ⟨hx.1, fun hnil => absurd hnil hq⟩ (ih hx.2)
    | cdata t => exact .cdata hq hx.1 (ih hx.2)
    | _ => cases hx.1

/-- The blanks before a piece can be read, unless they would come before everything else. -/
theorem startOf {width? : Option Nat} {line : Line} {p : Piece}
    (hq : q.stage = .start → line.breaksLine = false) (h : Leads q ps q') :
    Leads q (textOf (startOf width? line p) ++ ps) q' := by
  unfold textOf
  split
  next => exact h
  next hne =>
    have hblank : ∀ c ∈ Markup.startOf width? line p, Text.isMarkupBlank c = true :=
      blank_of_mem_startOf
    refine .text ⟨smooth_of_blanks hblank, fun _ c hc => ⟨hblank c hc, fun hstage => hne ?_⟩⟩ h
    exact startOf_of_not_breaksLine p (hq hstage)

/-- Pieces can be put on lines, unless a line break would come before everything else. -/
theorem onLines {width? : Option Nat} {line : Line} (h : Leads q ps q')
    (hq : q.stage = .start → q.inner = [] ∧ line.breaksLine = false) :
    Leads q (onLines width? line ps) q' := by
  induction h generalizing line with
  | nil => exact .nil _
  | mark hp he hstep _ ih =>
    have hstage := hstep.stage_ne_start fun hne hstage => hne (hq hstage).1
    exact startOf (fun h => (hq h).2) (.mark hp he hstep (ih fun h => absurd h hstage))
  | text ht _ ih =>
    exact startOf (fun h => (hq h).2) (.text ht (ih fun hstage => ⟨(hq hstage).1, rfl⟩))
  | cdata hinner ht _ ih =>
    exact startOf (fun h => (hq h).2) (.cdata hinner ht (ih fun hstage => ⟨(hq hstage).1, rfl⟩))

end Leads

/-- The texts of pieces that lead somewhere can be rewritten. -/
theorem Admits.assemble {f : Run → List Piece} {q q' : Place} {last? : Option Run}
    {segments : List Segment} (hf : ∀ run, ∀ p ∈ f run, IsReadable p)
    (hm : ∀ x ∈ segments, x.mark.isMarkup = true)
    (h : Admits q (assemble Run.plain last? segments) q') :
    Leads q (assemble f last? segments) q' := by
  have hfilling {q q' : Place} {run? : Option Run} {ps ps' : List Piece}
      (h : Admits q (filling Run.plain run? ++ ps) q')
      (hleads : Admits q ps q' → Leads q ps' q') : Leads q (filling f run? ++ ps') q' := by
    cases run? with
    | none => exact hleads h
    | some run =>
      have hrun : filling f (some run) = f run := List.append_nil _
      rw [hrun]
      cases h with
      | mark hp => cases hp
      | text hq h => exact .fillers hq (hf run) (hleads h)
  induction segments generalizing q with
  | nil =>
    rw [Markup.assemble, ← List.append_nil (filling _ _)] at h ⊢
    refine hfilling h fun hnil => ?_
    cases hnil with
    | nil => exact .nil _
  | cons x rest ih =>
    rw [List.forall_mem_cons] at hm
    rw [Markup.assemble] at h ⊢
    refine hfilling h fun hmark => ?_
    obtain ⟨run?, mark⟩ := x
    cases hmark with
    | text => cases hm.1
    | mark hp he hstep hrest => exact .mark hp he hstep (ih hm.2 hrest)

/-- Before the document element it makes no difference whether anything has been read. -/
theorem Admits.of_prolog {q : Place} {ps : List Piece} (h : Admits ⟨.prolog, []⟩ ps q)
    (hq : q.stage ≠ .prolog) : Admits ⟨.start, []⟩ ps q := by
  cases h with
  | nil => exact absurd rfl hq
  | text hne => exact absurd rfl hne
  | mark hp he hstep h =>
    refine .mark hp he ?_ h
    cases hstep with
    | startTag isEmpty _ hadmissible => exact .startTag isEmpty (fun _ => by decide) hadmissible
    | misc ht hmisc => exact .misc (q := ⟨.start, []⟩) ht hmisc
    | text hne => exact absurd rfl hne
    | blank _ hs => exact .blank (q := ⟨.start, []⟩) rfl hs

end Markup

/-! ## Trees that are read -/

open Markup

/-- A tree whose names, comments and instructions can stand where the prefixes `bound` are known: an
element binds its prefixes for what is below it. -/
inductive Tree.Proper : (bound : List String) → Tree → Prop
  | element {bound : List String} {label : Label} {attributes : List Attribute}
    {children : List Tree} (h : ProperTag bound label attributes)
    (hc : ∀ t ∈ children, Proper ("xml" :: (boundBy label attributes ++ bound)) t) :
    Proper bound (.element label attributes children)
  | text {bound : List String} {s : String} {isCData : Bool} : Proper bound (.text s isCData)
  | comment {bound : List String} {s : String} (h : ¬ ['-', '-'] <:+: s.toList ++ ['-']) :
    Proper bound (.comment s)
  | instruction {bound : List String} {target : String} {data? : Option String}
    (ht : IsName Name.isStartChar Name.isChar target.toList)
    (hr : isReservedTarget target.toList = false)
    (hd : ∀ data ∈ data?, ¬ ['?', '>'] <:+: data.toList) : Proper bound (.instruction target data?)

theorem Tree.Proper.framed {bound : List String} {t : Tree} (h : t.Proper bound)
    (ht : t.isElement = false) : t.content.Framed := by
  cases h with
  | element => cases ht
  | text => trivial
  | comment h => exact h
  | instruction htarget hr hd => exact ⟨htarget, hr, hd⟩

/-- What every tree of a document has: its names are those that a reader or a script has made, and
no two attributes have the same one. -/
structure Tree.Sorted (around : List Label) (t : Tree) : Prop where
  default : t.InDefault around
  spelled : t.Has Content.Spelled
  unambiguous : t.Unambiguous
  nodup : (t.attributes.map (·.name)).Nodup

namespace Markup

variable {around : List Scope} {labels : List Label} {bound : List String} {q q' : Place}
  {count next : Nat} {rest : List Tree}

/-- Neighbouring trees are written, and what is written leads from one place to another, whatever
run is pending before them. At the top level there is none. -/
def Writes (around : List Scope) (q : Place) (count : Nat) (trees : List Tree) (q' : Place)
    (next : Nat) : Prop :=
  ∀ run, (q.inner = [] → run = []) → ∃ ps, Pieced around count run trees ps next ∧ Admits q ps q'

theorem admits_settled {run : Run} {ps : List Piece} (hrun : q.inner = [] → run = [])
    (h : Admits q ps q') : Admits q (run.settled ++ ps) q' := by
  unfold Run.settled
  split
  next => exact h
  next hsome => exact .text (fun hnil => hsome (by rw [hrun hnil, Run.escaped_nil])) h

theorem writes_nil : Writes around q count [] q count := by
  intro run hrun
  have hsettled := admits_settled hrun (.nil q)
  rw [List.append_nil] at hsettled
  exact ⟨_, .nil, hsettled⟩

theorem writes_text {s : String} {isCData : Bool} (hq : q.inner ≠ [])
    (h : Writes around q count rest q' next) :
    Writes around q count (.text s isCData :: rest) q' next := by
  intro run _
  obtain ⟨ps, hps, hadmits⟩ := h (run ++ [(s, isCData)]) fun hnil => absurd hnil hq
  exact ⟨ps, .text hps, hadmits⟩

/-- Markup that stands for a node leaves the reader where it is. -/
theorem admits_misc {p : Piece} {e : Event} {t : Tree} {ps : List Piece} (hq : q.stage ≠ .start)
    (hp : p.isMarkup = true) (he : ∀ after, event? (p.written ++ after) = some (e, after))
    (ht : e.leaf? = some t) (hmisc : t.isText = false) (h : Admits q ps q') :
    Admits q (p :: ps) q' := by
  have hstep := Place.Step.misc (q := q) ht hmisc
  rw [Progress.afterStart, if_neg hq] at hstep
  exact .mark hp he hstep h

theorem writes_misc {t : Tree} (ht : t.content.Framed) (helement : t.isElement = false)
    (htext : t.isText = false) (hq : q.stage ≠ .start) (h : Writes around q count rest q' next) :
    Writes around q count (t :: rest) q' next := by
  intro run hrun
  obtain ⟨ps, hps, hadmits⟩ := h [] fun _ => rfl
  cases t with
  | element => cases helement
  | text => cases htext
  | comment s =>
    refine ⟨_, .comment hps, admits_settled hrun ?_⟩
    exact admits_misc hq rfl (event?_comment ht) rfl rfl hadmits
  | instruction target data? =>
    refine ⟨_, .instruction hps, admits_settled hrun ?_⟩
    have hevent := event?_instruction ht.1 ht.2.1 ht.2.2
    rw [writeInstruction_eq] at hevent
    exact admits_misc hq rfl hevent rfl rfl hadmits

/-- An element is written and read, if its children are inside it. -/
theorem writes_element {label : Label} {attributes : List Attribute} {children : List Tree}
    {scope : Scope} {count₁ count₂ : Nat} {tag : List Char} {written : List (List Char)}
    {w : WrittenName} {read : List (WrittenName × String)} {stage : Stage}
    {spaces : List (String × String)}
    (hscope : Scope.ofElement around count label attributes = (scope, count₁))
    (htag : writeName? (scope :: around) true label.name label.hint? = some tag)
    (hwritten : attributes.mapM (writeAttribute? (scope :: around)) = some written)
    (hopens : ∀ isEmpty after, event? ('<' :: (tag ++ written.flatten ++ writeDeclarations scope ++
      tagEnd isEmpty) ++ after) = some (.startTag w read isEmpty, after))
    (hcloses : ∀ after, event? ((Piece.endTag tag).written ++ after) = some (.endTag w, after))
    (hstep : ∀ isEmpty, q.Step (.startTag w read isEmpty)
      ⟨stage, if isEmpty then q.inner else (w, spaces) :: q.inner⟩)
    (hchildren : Writes (scope :: around) ⟨stage, (w, spaces) :: q.inner⟩ count₁ children
      ⟨stage, (w, spaces) :: q.inner⟩ count₂)
    (hrest : Writes around ⟨stage, q.inner⟩ count₂ rest q' next) :
    Writes around q count (.element label attributes children :: rest) q' next := by
  intro run hrun
  obtain ⟨psInner, hpsInner, hadmitsInner⟩ := hchildren [] fun _ => rfl
  obtain ⟨ps, hps, hadmits⟩ := hrest [] fun _ => rfl
  refine ⟨_, .element hscope htag hwritten hpsInner hps, admits_settled hrun ?_⟩
  cases children with
  | nil => exact .mark rfl (hopens true) (hstep true) hadmits
  | cons t children =>
    refine .mark rfl (hopens false) (hstep false) ?_
    show Admits _ (psInner ++ [.endTag tag] ++ ps) _
    rw [List.append_assoc]
    exact hadmitsInner.append (.mark rfl hcloses .endTag hadmits)

/-- The same of an element whose start tag can be read. -/
theorem writes_tag {label : Label} {attributes : List Attribute} {children : List Tree}
    (htag : Tag around bound (q.inner.map (·.2)) label attributes)
    (hinner : q.inner ≠ [] → q.stage = .epilog) (htop : q.inner = [] → q.stage ≠ .epilog)
    (hchildren : ∀ {inner}, inner ≠ [] →
      Known (Scope.hinted around label attributes :: around)
        ("xml" :: (boundBy label attributes ++ bound)) (inner.map (·.2)) →
      Writes (Scope.hinted around label attributes :: around) ⟨.epilog, inner⟩ count children
        ⟨.epilog, inner⟩ count)
    (h : Writes around ⟨.epilog, q.inner⟩ count rest q' next) :
    Writes around q count (.element label attributes children :: rest) q' next := by
  obtain ⟨stage, inner⟩ := q
  obtain ⟨w, written, read, hw, hname, hwritten, hevent, hadmissible, hknown⟩ := htag.exists_event
  have hstart : (if inner = [] then .epilog else stage) = Stage.epilog := by
    split
    next => rfl
    next hne => exact hinner hne
  -- the reader is behind the tag, or inside the element
  have hstep (isEmpty : Bool) : Place.Step ⟨stage, inner⟩ (.startTag w read isEmpty)
      ⟨.epilog, if isEmpty then inner else
        (w, offeredSpaces inner.isEmpty (declaredSpaces read)) :: inner⟩ :=
    hstart ▸ .startTag isEmpty htop hadmissible
  refine writes_element (htag.legible.ofElement_eq count) hname hwritten hevent (event?_endTag hw)
    hstep (hchildren (List.cons_ne_nil _ _) ?_) h
  rwa [List.map_cons, ← List.isEmpty_map]

/-- Trees are written and read one after the other. -/
theorem writes_of_each {trees : List Tree}
    (h : ∀ t ∈ trees, ∀ rest, Writes around q count rest q count →
      Writes around q count (t :: rest) q count) : Writes around q count trees q count := by
  induction trees with
  | nil => exact writes_nil
  | cons t trees ih =>
    rw [List.forall_mem_cons] at h
    exact h.1 trees (ih h.2)

/-- An element that is sorted has a start tag, if it can stand where it does. -/
theorem Tag.of_sorted {label : Label} {attributes : List Attribute} {children : List Tree}
    {inner : List (List (String × String))} (hk : Known around bound inner)
    (ht : ProperTag bound label attributes)
    (hs : Tree.Sorted labels (.element label attributes children))
    (haround : Scope.activeDefault? around = defaultOf labels) :
    Tag around bound inner label attributes where
  known := hk
  proper := ht
  default := by
    rw [haround, ← defaultOf_cons]
    exact hs.default
  unambiguous := hs.unambiguous
  nodup := hs.nodup
  attributes := hs.spelled.attributes
  label := hs.spelled.content

/-- Inside an element its default namespace is the default one. -/
theorem activeDefault?_hinted (label : Label) (attributes : List Attribute)
    (haround : Scope.activeDefault? around = defaultOf labels) :
    Scope.activeDefault? (Scope.hinted around label attributes :: around) =
      defaultOf (label :: labels) := by
  rw [Scope.activeDefault?_cons, Scope.defaultSpace?_hinted, defaultOf_cons, haround]

/-- What is inside an element is written and read there. -/
theorem writes_cons {t : Tree} {inner : List (WrittenName × List (String × String))}
    (ht : t.Proper bound) (hsorted : t.Stands Tree.Sorted labels) (hinner : inner ≠ [])
    (haround : Scope.activeDefault? around = defaultOf labels)
    (hk : Known around bound (inner.map (·.2)))
    (hrest : Writes around ⟨.epilog, inner⟩ count rest ⟨.epilog, inner⟩ count) :
    Writes around ⟨.epilog, inner⟩ count (t :: rest) ⟨.epilog, inner⟩ count := by
  have hepilog : Stage.epilog ≠ .start := by decide
  induction ht generalizing around labels inner rest with
  | element hproper _ ih =>
    obtain ⟨hsorted, hchildren⟩ := hsorted.of_element
    refine writes_tag (.of_sorted hk hproper hsorted haround) (fun _ => rfl)
      (fun hnil => absurd hnil hinner) (fun hne hknown => writes_of_each fun t ht rest hrest => ?_)
      hrest
    exact ih t ht (hchildren t ht) hne (activeDefault?_hinted _ _ haround) hknown hrest
  | text => exact writes_text hinner hrest
  | comment h => exact writes_misc (t := .comment _) h rfl rfl hepilog hrest
  | instruction ht hr hd =>
    exact writes_misc (t := .instruction _ _) ⟨ht, hr, hd⟩ rfl rfl hepilog hrest

/-- So is a document element, with nodes before it and behind it. -/
theorem writes_document {label : Label} {attributes : List Attribute}
    {before children after : List Tree}
    (ht : ∀ t ∈ before ++ .element label attributes children :: after, t.Proper [])
    (hmisc : ∀ t ∈ before ++ after, t.isElement = false ∧ t.isText = false)
    (hsorted : Tree.Stands Tree.Sorted [] (.element label attributes children)) :
    Writes [] ⟨.prolog, []⟩ count (before ++ .element label attributes children :: after)
      ⟨.epilog, []⟩ count := by
  have hmiscs {stage : Stage} {trees rest : List Tree} {q' : Place} (hstage : stage ≠ .start)
      (ht : ∀ t ∈ trees, t.Proper [] ∧ t.isElement = false ∧ t.isText = false)
      (hrest : Writes [] ⟨stage, []⟩ count rest q' count) :
      Writes [] ⟨stage, []⟩ count (trees ++ rest) q' count := by
    induction trees with
    | nil => exact hrest
    | cons t trees ih =>
      rw [List.forall_mem_cons] at ht
      exact writes_misc (ht.1.1.framed ht.1.2.1) ht.1.2.1 ht.1.2.2 hstage (ih ht.2)
  refine hmiscs (by decide) (fun t hmem => ?_) ?_
  · exact ⟨ht t (List.mem_append_left _ hmem), hmisc t (List.mem_append_left _ hmem)⟩
  have hafter : Writes [] ⟨.epilog, []⟩ count (after ++ []) ⟨.epilog, []⟩ count :=
    hmiscs (by decide) (fun t hmem => ⟨ht t (List.mem_append_right _ (List.mem_cons_of_mem _ hmem)),
      hmisc t (List.mem_append_right _ hmem)⟩) writes_nil
  rw [List.append_nil] at hafter
  cases ht _ (List.mem_append_right _ (List.mem_cons_self ..)) with
  | element hproper hchildren =>
  obtain ⟨hsorted, hsortedChildren⟩ := hsorted.of_element
  have hknown : Known [] [] [] := ⟨nofun, nofun, nofun, fun h => absurd rfl h⟩
  refine writes_tag (.of_sorted hknown hproper hsorted rfl) (fun h => absurd rfl h)
    (fun _ => by decide) (fun hne hknown => writes_of_each fun t ht rest hrest => ?_) hafter
  exact writes_cons (hchildren t ht) (hsortedChildren t ht) hne
    (activeDefault?_hinted label attributes rfl) hknown hrest

/-! ## Documents that are rendered -/

/-- The local part of a name is written in a tag without ending it. -/
theorem isTagName_localPart {name : ExpandedName}
    (hplain : name.space? = none → (asWritten? name.localPart).isSome = true)
    (hspace : ∀ uri ∈ name.space?, IsPlainName name.localPart.toList) :
    IsTagName name.localPart.toList := by
  cases hs : name.space? with
  | none =>
    obtain ⟨w, hw⟩ := Option.isSome_iff_exists.1 (hplain hs)
    rw [← (legible_of_asWritten? hw).2]
    exact (legible_of_asWritten? hw).1.isTagName_text
  | some uri => exact (hspace uri hs).isTagName

/-- What can be read again can be cut into pieces. -/
theorem writable_of_proper {t : Tree} (h : t.Proper bound)
    (hs : t.Every (Tree.Has Content.Spelled)) : t.Every (Tree.Has Content.Writable) := by
  induction h with
  | @element bound label attributes children hproper _ ih =>
    cases hs with
    | element hspelled hchildren =>
    have hlabel : label.Spelled := hspelled.content
    have hattributes : ∀ a ∈ attributes, a.Spelled := hspelled.attributes
    have hclear {uri : String} (huri : uri ∈ label.defaultSpace?.toList ++
        label.name.space?.toList ++ attributes.filterMap (·.name.space?)) : '\'' ∉ uri.toList :=
      hproper.clear uri huri _ (by decide)
    refine .element ⟨⟨⟨?_, fun short hshort => (hlabel.hint short hshort).isTagName⟩, ?_, ?_⟩,
      fun a ha => ⟨⟨?_, fun short hshort => ((hattributes a ha).hint short hshort).1.isTagName⟩,
        fun uri huri => ?_⟩⟩ fun t ht => ih t ht (hchildren t ht)
    · exact isTagName_localPart (fun hnone => (hproper.name hnone).1)
        fun uri huri => (hlabel.space uri huri).2
    · intro uri huri
      exact hclear (by simp [Option.mem_def.1 huri])
    · intro uri huri
      exact hclear (by simp [Option.mem_def.1 huri])
    · exact isTagName_localPart (hproper.names a ha)
        fun uri huri => ((hattributes a ha).space uri huri).2.1
    · exact hclear (List.mem_append_right _ (List.mem_filterMap.2 ⟨a, ha, huri⟩))
  | text => exact .text ⟨⟨trivial, trivial⟩, nofun⟩
  | comment h =>
    exact .comment ⟨⟨fun hin => h (hin.trans (List.prefix_append _ _).isInfix), trivial⟩, nofun⟩
  | instruction ht _ hd =>
    exact .instruction ⟨⟨⟨ht.isTagName isNameClass_startChar isNameClass_char, hd⟩, trivial⟩, nofun⟩

end Markup

namespace Document

variable {d : Document}

/-- The trees of a document have what a document has. -/
theorem Linked.stands_sorted {table : NodeId → Option String} (h : d.Linked)
    (hs : d.Holds Content.Spelled) (hu : d.Unambiguous) (hd : d.DefaultsTo table) :
    ∀ t ∈ d.trees, t.Stands Tree.Sorted [] := by
  have hnodup : ∀ t ∈ d.trees, t.Every fun t => (t.attributes.map (·.name)).Nodup := by
    refine h.every_treesBelow fun n hn t ht => ?_
    rw [h.tree?_eq hn] at ht
    split at ht
    next =>
      cases ht
      exact h.nodup_attributesOf
    next => cases ht; exact List.nodup_nil
    next => cases ht; exact List.nodup_nil
    next => cases ht; exact List.nodup_nil
    next => cases ht
    next => cases ht
  intro t ht
  have hboth := (h.every_has hs t ht).both (h.every_unambiguous hu t ht) fun _ => And.intro
  have hevery := hboth.both (hnodup t ht) fun _ => And.intro
  exact (hd.stands_trees h t ht).both hevery fun _ _ hdefault hsun =>
    ⟨hdefault, hsun.1.1, hsun.1.2, hsun.2⟩

theorem Reachable.spelled (h : d.Reachable) : d.Holds Content.Spelled :=
  (makeable_spelled.keptByEdits (fun _ => trivial) fun _ => trivial).of_reachable
    (Holds.empty makeable_spelled.absent trivial) spelled_read? h

theorem Reachable.stands_sorted (h : d.Reachable) : ∀ t ∈ d.trees, t.Stands Tree.Sorted [] := by
  obtain ⟨-, hunambiguous⟩ := keptByEdits_unambiguous.of_reachable
    ⟨Linked.ofEmpty, unambiguous_empty⟩
    (fun hread => ⟨linked_read? hread, unambiguous_read? hread⟩) h
  obtain ⟨-, table, hdefaults⟩ := DefaultsTo.keptByEdits.of_reachable
    ⟨Linked.ofEmpty, _, defaultsTo_empty⟩
    (fun hread => ⟨linked_read? hread, defaultsTo_read? hread⟩) h
  exact h.linked.stands_sorted h.spelled hunambiguous hdefaults

/-- Beside the document element there are comments and instructions only. -/
theorem Linked.exists_split (h : d.Linked) (he : ∃ t ∈ d.trees, t.isElement = true) :
    ∃ before label attributes children after,
      d.trees = before ++ .element label attributes children :: after ∧
        ∀ t ∈ before ++ after, t.isElement = false ∧ t.isText = false := by
  have hpair : d.trees.Pairwise fun t u => ¬ (t.isElement = true ∧ u.isElement = true) := by
    unfold trees treesBelow
    rw [List.pairwise_filterMap]
    refine (h.nodup_children root).imp_of_mem fun {n m} hn hm hne t ht u hu hboth => hne ?_
    refine h.top_element hn hm ?_ ?_
    · rw [content_of_tree? ht, t.isElement_content]
      exact hboth.1
    · rw [content_of_tree? hu, u.isElement_content]
      exact hboth.2
  obtain ⟨t, hmem, helement⟩ := he
  obtain ⟨before, after, hsplit⟩ := List.append_of_mem hmem
  cases t with
  | text _ _ | comment _ | instruction _ _ => cases helement
  | element label attributes children =>
    rw [hsplit, List.pairwise_append, List.pairwise_cons] at hpair
    refine ⟨before, label, attributes, children, after, hsplit, fun t ht => ⟨?_, ?_⟩⟩
    · refine Bool.eq_false_iff.2 fun hother => ?_
      rcases List.mem_append.1 ht with ht | ht
      · exact hpair.2.2 t ht _ (List.mem_cons_self ..) ⟨hother, rfl⟩
      · exact hpair.2.1.1 t ht ⟨rfl, hother⟩
    · refine h.isText_of_mem_trees t ?_
      rw [hsplit]
      exact List.mem_append.2 ((List.mem_append.1 ht).imp_right (List.mem_cons_of_mem _))

/-- A document whose pieces lead to its end is rendered, and what is rendered is read. -/
theorem exists_render_of_admits {ps : List Piece} {next : Nat}
    (hroot : ∀ t ∈ d.trees, t.isText = false)
    (hwritable : ∀ t ∈ d.trees, t.Every (Tree.Has Content.Writable))
    (hps : Pieced [] 0 [] d.trees ps next) (hadmits : Admits ⟨.prolog, []⟩ ps ⟨.epilog, []⟩)
    (options : RenderOptions)
    (hwidth : ∀ width ∈ options.indent?, ∀ t ∈ d.trees, t.hasChildren = true →
      width < textLimit) :
    ∃ text, d.render options = .ok text ∧ (readTrees? text).isSome = true := by
  obtain ⟨written, hwritten, hreads, hwoven⟩ :=
    hps.reads_document hroot hwritable options.encoding options.declaration
  obtain ⟨segments, last?, hsegments, hruns, hmarks, -⟩ := exists_segments hreads hwoven
  have hm : ∀ x ∈ segments, x.mark.isMarkup = true := fun x hx =>
    hmarks.isMarkup_of_mem (List.mem_map_of_mem hx)
  have hall : Admits ⟨.start, []⟩ (front options.declaration options.encoding ++ ps)
      ⟨.epilog, []⟩ := by
    cases options.declaration with
    | false => exact hadmits.of_prolog (by decide)
    | true =>
      refine .mark rfl (fun after => ?_) .declaration hadmits
      rw [← declaration_eq, event?_declaration]
  rw [hsegments] at hreads hall
  by_cases hlines : ∃ width ∈ options.indent?, 0 < width
  · obtain ⟨width, hindent, hpos⟩ := hlines
    have hrender := render_lines hpos (hwidth width hindent) hwritten hreads hruns hm
    rw [show ({ options with indent? := some width } : RenderOptions) = options by
      rw [← Option.mem_def.1 hindent]] at hrender
    have hleads : Leads ⟨.start, []⟩
        (onLines (some width) {} (assemble Run.trimmed last? segments)) ⟨.epilog, []⟩ :=
      (hall.assemble Run.isReadable_trimmed hm).onLines fun _ => ⟨rfl, rfl⟩
    exact ⟨_, hrender, isSome_readTrees? hleads.takes⟩
  · have hindent : ∀ width ∈ options.indent?, width = 0 := fun width hmem =>
      Nat.eq_zero_of_not_pos fun hpos => hlines ⟨width, hmem, hpos⟩
    exact ⟨_, render_flat hindent hwritten hreads hruns hm,
      isSome_readTrees? (hall.assemble Run.isReadable_rewritten hm).takes⟩

end Document

namespace Engine

open Document

variable {d₀ : Document} {script : Script}

/-- What a script leaves can be read again: with the default options it is rendered, and the reader
takes the text. -/
theorem exists_render_read?
    (hstart : d₀ = .empty ∨ ∃ text, Markup.read? text = some d₀)
    (helement : ∃ t ∈ (apply script d₀).2.trees, t.isElement = true)
    (hproper : ∀ t ∈ (apply script d₀).2.trees, t.Proper []) :
    ∃ text, (apply script d₀).2.render {} = .ok text ∧
      (Markup.read? (String.ofList text)).isSome = true := by
  have hreachable : (apply script d₀).2.Reachable := by
    refine Reachable.apply ?_ script
    rcases hstart with rfl | ⟨text, hread⟩
    · exact .empty
    · exact .read hread
  generalize (apply script d₀).2 = d at helement hproper hreachable ⊢
  have hlinked := hreachable.linked
  have hsorted := hreachable.stands_sorted
  have hwritable : ∀ t ∈ d.trees, t.Every (Tree.Has Content.Writable) := fun t ht =>
    writable_of_proper (hproper t ht) (hlinked.every_has hreachable.spelled t ht)
  obtain ⟨before, label, attributes, children, after, hsplit, hmisc⟩ :=
    hlinked.exists_split helement
  have hwrites : Writes [] ⟨.prolog, []⟩ 0 d.trees ⟨.epilog, []⟩ 0 := by
    rw [hsplit] at hproper hsorted ⊢
    exact writes_document hproper hmisc
      (hsorted _ (List.mem_append_right _ (List.mem_cons_self ..)))
  obtain ⟨ps, hps, hadmits⟩ := hwrites [] fun _ => rfl
  obtain ⟨text, hrender, hread⟩ := exists_render_of_admits hlinked.isText_of_mem_trees hwritable hps
    hadmits {} fun width h => absurd h (Option.not_mem_none width)
  refine ⟨text, hrender, ?_⟩
  unfold Markup.read?
  rw [Option.isSome_map, String.toList_ofList]
  exact hread

/-- A prefix of the document and one that an attribute declares, with a comment and character data
inside. -/
theorem exists_render_read?_prefixed :
    let arg (s : String) (h : Literal.check s.toList = .ok ()) : Arg :=
      ⟨s, Literal.check_eq_ok_iff.1 h⟩
    let script : Script := [.ensureElement (arg "a" rfl), .addComment (arg "x-y" rfl),
      .addElement (arg "p:b" rfl), .setAttribute (arg "xmlns:q" rfl) (arg "w" rfl),
      .addElement (arg "q:c" rfl), .addCData (arg "]]>" rfl)]
    ∃ d₀, Markup.read? "<p:a xmlns:p=\"u\" p:k=\"v\"/>" = some d₀ ∧
      (∃ t ∈ (apply script d₀).2.trees, t.isElement = true) ∧
      (∀ t ∈ (apply script d₀).2.trees, t.Proper []) ∧
      ∃ text, (apply script d₀).2.render {} = .ok text ∧
        (Markup.read? (String.ofList text)).isSome = true := by
  intro arg script
  let label : Label :=
    { name := ⟨some "u", "a"⟩, hint? := some "p", spaces := [("xml", xmlSpace), ("p", "u")] }
  let k : Attribute := { name := ⟨some "u", "k"⟩, hint? := some "p", value := "v" }
  let q : Attribute := { name := .plain "xmlns:q", value := "w" }
  let made : Document := ⟨#[{ content := .document, children := [1] },
    { content := .element label, parent? := some 0, attributes := [2], children := [3, 4] },
    { content := .attribute k, parent? := some 1 },
    { content := .comment "x-y", parent? := some 1 },
    { content := .element (.plain "p:b"), parent? := some 1, attributes := [5], children := [6] },
    { content := .attribute q, parent? := some 4 },
    { content := .element (.plain "q:c"), parent? := some 4, children := [7] },
    { content := .text "]]>" true, parent? := some 6 }]⟩
  have hmade : (Markup.read? "<p:a xmlns:p=\"u\" p:k=\"v\"/>").map
      (fun d => (apply script d).2) = some made := by
    decide +kernel
  obtain ⟨d₀, hread, hd⟩ := Option.map_eq_some_iff.1 hmade
  have htrees : (apply script d₀).2.trees = [.element label [k] [.comment "x-y",
      .element (.plain "p:b") [q] [.element (.plain "q:c") [] [.text "]]>" true]]]] := by
    rw [hd]
    rfl
  have helement : ∃ t ∈ (apply script d₀).2.trees, t.isElement = true := by
    rw [htrees]
    exact ⟨_, List.mem_cons_self .., rfl⟩
  have hproper : ∀ t ∈ (apply script d₀).2.trees, t.Proper [] := by
    rw [htrees]
    refine List.forall_mem_singleton.2 (.element (by decide +kernel) ?_)
    refine List.forall_mem_cons.2 ⟨.comment (by decide +kernel), List.forall_mem_singleton.2 ?_⟩
    refine .element (by decide +kernel) (List.forall_mem_singleton.2 ?_)
    exact .element (by decide +kernel) (List.forall_mem_singleton.2 .text)
  exact ⟨d₀, hread, helement, hproper, exists_render_read? (.inr ⟨_, hread⟩) helement hproper⟩

/-- A prefix that nothing declares is written as it is given, and the reader does not know it. -/
theorem render_unknown_prefix :
    let arg (s : String) (h : Literal.check s.toList = .ok ()) : Arg :=
      ⟨s, Literal.check_eq_ok_iff.1 h⟩
    let script : Script := [.addElement (arg "x:item" rfl)]
    let text := "<?xml version=\"1.0\"?><x:item/>".toList
    (apply script .empty).1 = .ok () ∧
      (∃ t ∈ (apply script .empty).2.trees, t.isElement = true) ∧
      (apply script .empty).2.render {} = .ok text ∧
      Markup.read? (String.ofList text) = none := by
  intro arg script text
  let made : Document := ⟨#[{ content := .document, children := [1] },
    { content := .element (.plain "x:item"), parent? := some 0 }]⟩
  have hmade : apply script .empty = (.ok (), made) := by decide +kernel
  have htrees : made.trees = [.element (.plain "x:item") [] []] := rfl
  have hwritten : write? false made.trees = some text := by
    rw [htrees]
    simp only [write?, writeTrees?]
    decide +kernel
  have hruns : textRuns made.trees = [] := by
    rw [htrees]
    simp only [textRuns, runsFrom, List.flatMap_cons, List.flatMap_nil]
    decide +kernel
  rw [hmade]
  refine ⟨rfl, ⟨_, List.mem_cons_self .., rfl⟩, ?_, by decide +kernel⟩
  unfold Document.render
  simp only [hwritten, hruns]
  decide +kernel

end Engine

end XmlScript
