import XmlScript.Proofs.Elements
import XmlScript.Proofs.Readback
import XmlScript.Proofs.Reread

/-!
# Default namespaces that are declared

The start tags of a text declare default namespaces by their attributes `xmlns` (`defaultsIn`). An
element has them from two sources, the namespace that its tag declared when it was read and the
attributes of that name that scripts have set (`defaultsOf`), and all of them are written. So the
start tags of what is rendered say what the elements of the document do, in document order
(`Document.exists_render_defaults`), if every node is read where it is written
(`Content.Readable`); the nodes of a document that was read are (`readable_of_read?`).
-/

namespace XmlScript

namespace Markup

/-! ## Start tags of a text -/

/-- The default namespaces that a start tag declares, one for each of its attributes `xmlns`. -/
def Event.defaults? : Event → Option (List String)
  | .startTag _ attributes _ => some ((attributes.filter (·.1 = ⟨none, "xmlns"⟩)).map (·.2))
  | .declaration | .doctype | .chars _ | .reference _ | .cdata _ | .comment _ | .instruction _ _
  | .endTag _ => none

/-- The default namespaces that the start tags of a text declare. -/
def defaultsIn (s : List Char) : Option (List (List String)) :=
  (events? s).map fun events => events.filterMap Event.defaults?

theorem defaultsIn_eq (s : List Char) :
    defaultsIn s = (markupOf? s).map fun events => events.filterMap Event.defaults? := by
  unfold defaultsIn markupOf?
  rw [Option.map_map]
  refine Option.map_congr fun events _ => ?_
  show _ = (events.filter _).filterMap _
  rw [List.filterMap_filter]
  refine List.filterMap_congr fun e _ => ?_
  cases e <;> rfl

/-! ## Start tags of elements -/

/-- The default namespaces that an element declares: those that its attributes say, and then the one
that its tag declared when it was read. -/
def defaultsOf (label : Label) (attributes : List Attribute) : List String :=
  (attributes.filter (·.name = .plain "xmlns")).map (·.value) ++ label.defaultSpace?.toList

theorem asWritten?_of_isPlainName {name : String} (h : IsPlainName name.toList) :
    asWritten? name = some ⟨none, name⟩ := by
  have htake : Name.take? Name.isPlainStart Name.isPlainPart (name.toList ++ []) =
      some (name.toList, []) := take?_append h nofun
  unfold asWritten? writtenName?
  rw [List.append_nil] at htake
  rw [htake]
  simp

/-- An attribute is written with the name `xmlns` if that is its name. -/
theorem attributeName_eq_iff {a : Attribute} (ha : Named a (attributeName a)) :
    attributeName a = ⟨none, "xmlns"⟩ ↔ a.name = .plain "xmlns" := by
  have hxmlns : asWritten? "xmlns" = some ⟨none, "xmlns"⟩ :=
    asWritten?_of_isPlainName (by decide +kernel)
  have hname : a.name = .plain "xmlns" ↔ a.name.space? = none ∧ a.name.localPart = "xmlns" :=
    ⟨fun h => by rw [h]; exact ⟨rfl, rfl⟩, (ExpandedName.mk.injEq ..).mpr⟩
  rw [hname]
  cases ha with
  | plain hspace h =>
    refine ⟨fun he => ⟨hspace, String.toList_inj.1 ?_⟩, fun he => ?_⟩
    · rw [← (legible_of_asWritten? h).2, he]
      rfl
    · rw [he.2, hxmlns] at h
      exact (Option.some.inj h).symm
  | spaced hspace _ he =>
    refine iff_of_false (fun h => ?_) fun h => ?_
    · cases he.symm.trans h
    · cases hspace.symm.trans h.1

theorem LegibleTag.defaults_readTag {around : List Scope} {label : Label}
    {attributes : List Attribute} (h : LegibleTag around label attributes) :
    ((readTag attributeName attributes (Scope.hinted around label attributes)).filter
      (·.1 = ⟨none, "xmlns"⟩)).map (·.2) = defaultsOf label attributes := by
  unfold readTag defaultsOf
  rw [map_read_ofScope, List.filter_append, List.map_append, List.filter_append, List.map_append,
    Scope.defaultSpace?_hinted]
  congr 1
  · rw [List.filter_map, List.map_map]
    refine congrArg (List.map _) (List.filter_congr fun a ha => ?_)
    exact decide_eq_decide.2 (attributeName_eq_iff (h.named a ha))
  · have hdefault : (label.defaultSpace?.toList.map fun uri =>
        ((⟨none, "xmlns"⟩, uri) : WrittenName × String)).filter (·.1 = ⟨none, "xmlns"⟩) =
          label.defaultSpace?.toList.map fun uri => (⟨none, "xmlns"⟩, uri) := by
      rw [List.filter_eq_self]
      intro x hx
      obtain ⟨uri, -, rfl⟩ := List.mem_map.1 hx
      exact decide_eq_true rfl
    have hdeclared : ((Scope.hinted around label attributes).declared.map fun x =>
        ((⟨some "xmlns", x.1⟩, x.2) : WrittenName × String)).filter
          (·.1 = ⟨none, "xmlns"⟩) = [] := by
      rw [List.filter_eq_nil_iff]
      intro x hx
      obtain ⟨y, -, rfl⟩ := List.mem_map.1 hx
      simp
    rw [hdefault, hdeclared, List.map_nil, List.append_nil, List.map_map]
    exact List.map_id' _

end Markup

/-! ## Nodes that are read where they are written -/

open Markup

/-- A node is written so that the reader finds it, whether or not it takes it: names are names,
attributes in a namespace have kept their prefix, namespaces can be put in quotes, comments and
instructions end where they are meant to. -/
def Content.Readable : Content → Prop
  | .element label =>
    (label.name.space? = none → (asWritten? label.name.localPart).isSome = true) ∧
      ∀ uri ∈ label.defaultSpace?.toList ++ label.name.space?.toList, IsClear uri
  | .attribute a =>
    (a.name.space? = none → (asWritten? a.name.localPart).isSome = true) ∧
      (a.name.space?.isSome = true → a.hint?.isSome = true) ∧ ∀ uri ∈ a.name.space?, IsClear uri
  | .comment s => (Content.comment s).Framed
  | .instruction target data? => (Content.instruction target data?).Framed
  | .document | .text _ _ => True

/-- An attribute as documents give it: in a namespace it has kept its prefix, and it declares no
default namespace. -/
def Content.Ordinary : Content → Prop
  | .attribute a =>
    (a.name.space?.isSome = true → a.hint?.isSome = true) ∧ a.name ≠ .plain "xmlns"
  | .document | .element _ | .text _ _ | .comment _ | .instruction _ _ => True

/-- The namespaces that a node is in or declares can be put in quotes as they are. -/
def Content.Clear : Content → Prop
  | .element label =>
    ∀ uri ∈ label.defaultSpace?.toList ++ label.name.space?.toList, IsClear uri
  | .attribute a => ∀ uri ∈ a.name.space?, IsClear uri
  | .document | .text _ _ | .comment _ | .instruction _ _ => True

instance : DecidablePred Content.Clear
  | .element label => inferInstanceAs (Decidable
    (∀ uri ∈ label.defaultSpace?.toList ++ label.name.space?.toList, IsClear uri))
  | .attribute a => inferInstanceAs (Decidable (∀ uri ∈ a.name.space?, IsClear uri))
  | .document | .text _ _ | .comment _ | .instruction _ _ => isTrue trivial

/-- Its names and namespaces do not end the markup that they stand in. -/
theorem Content.Readable.writable {c : Content} (h : c.Readable) (hs : c.Spelled) :
    c.Writable := by
  have hquote {uri : String} (huri : IsClear uri) : '\'' ∉ uri.toList := huri '\'' (by decide)
  rcases c with _ | label | a | ⟨s, isCData⟩ | s | ⟨target, data?⟩
  · exact ⟨trivial, trivial⟩
  · refine ⟨⟨isTagName_localPart h.1 fun uri huri => (hs.space uri huri).2,
      fun short hshort => (hs.hint short hshort).isTagName⟩, fun uri huri => ?_, fun uri huri => ?_⟩
    · exact hquote (h.2 uri (List.mem_append_right _ (Option.mem_toList.2 huri)))
    · exact hquote (h.2 uri (List.mem_append_left _ (Option.mem_toList.2 huri)))
  · exact ⟨⟨isTagName_localPart h.1 fun uri huri => (hs.space uri huri).2.1,
      fun short hshort => (hs.hint short hshort).1.isTagName⟩,
      fun uri huri => hquote (h.2.2 uri huri)⟩
  · exact ⟨trivial, trivial⟩
  · exact ⟨Content.Taggable.legible trivial h, trivial⟩
  · exact ⟨Content.Taggable.legible trivial h, trivial⟩

namespace Markup

theorem gives_ordinary : Gives Event.Legible fun _ => Tree.Has Content.Ordinary where
  leaf {event t _} _ ht := by
    refine .of_leaf (Event.isElement_leaf? ht) ?_
    cases event <;> cases ht <;> trivial
  opened {_ _ attributes _ _} _ _ hopen children := by
    obtain ⟨-, -, -, _, resolved, -, hresolved, rfl⟩ := open?_eq_some_iff.1 hopen
    refine ⟨trivial, fun a ha => ?_⟩
    rcases mem_resolveAttributes? hresolved ha with hnone | ⟨w, hw, hfrom⟩
    · cases hnone
    · rcases hfrom with ⟨halias, rfl⟩ | ⟨short, uri, -, -, rfl⟩
      · have hplain := (List.mem_filter.1 (List.mem_mergeSort.1 hw)).2
        refine ⟨fun hspace => absurd hspace Bool.false_ne_true, fun hxmlns => ?_⟩
        have hlocal : w.1.localPart = "xmlns" := congrArg ExpandedName.localPart hxmlns
        rw [isPlainAttribute, WrittenName.declaresDefault, WrittenName.declaresSpace, halias,
          hlocal] at hplain
        cases hplain
      · refine ⟨fun _ => rfl, fun hxmlns => ?_⟩
        cases congrArg ExpandedName.space? hxmlns

variable {around : List Scope} {labels : List Label} {rest : List Tree}

theorem LegibleTag.of_sorted {label : Label} {attributes : List Attribute} {children : List Tree}
    (hs : Tree.Sorted labels (.element label attributes children))
    (hr : Tree.Has Content.Readable (.element label attributes children))
    (haround : Scope.activeDefault? around = defaultOf labels) :
    LegibleTag around label attributes where
  name := hr.content.1
  names a ha := (hr.attributes a ha).1
  prefixed a ha := (hr.attributes a ha).2.1
  clear := by
    refine List.forall_mem_append.2 ⟨hr.content.2, fun uri huri => ?_⟩
    obtain ⟨a, ha, huri⟩ := List.mem_filterMap.1 huri
    exact (hr.attributes a ha).2.2 uri huri
  default := by
    rw [haround, ← defaultOf_cons]
    exact hs.default
  unambiguous := hs.unambiguous
  attributes := hs.spelled.attributes
  label := hs.spelled.content

end Markup

/-- The default namespaces that neighbouring elements and those in them declare. -/
abbrev Tree.defaults : List Tree → List (List String) :=
  Tree.collect fun label attributes _ => defaultsOf label attributes

namespace Markup

variable {around : List Scope} {labels : List Label} {rest trees : List Tree}

/-- Neighbouring trees are written in firm pieces, whatever run is pending before them, and their
start tags declare what the elements do. -/
def Declares (around : List Scope) (trees : List Tree) : Prop :=
  ∀ count run, ∃ ps next es, Pieced around count run trees ps next ∧ Marked ps es ∧
    es.filterMap Event.defaults? = Tree.defaults trees

theorem declares_nil : Declares around [] := by
  intro count run
  have hmarked := Marked.nil.settled run
  rw [List.append_nil] at hmarked
  exact ⟨_, _, [], .nil, hmarked, by rw [Tree.defaults, Tree.collect]; rfl⟩

theorem declares_text {s : String} {isCData : Bool} (h : Declares around rest) :
    Declares around (.text s isCData :: rest) := by
  intro count run
  obtain ⟨ps, next, es, hps, hmarked, hdefaults⟩ := h count (run ++ [(s, isCData)])
  exact ⟨ps, next, es, .text hps, hmarked, by rw [hdefaults, Tree.defaults, Tree.collect]⟩

theorem declares_comment {s : String} (hs : (Content.comment s).Framed)
    (h : Declares around rest) : Declares around (.comment s :: rest) := by
  intro count run
  obtain ⟨ps, next, es, hps, hmarked, hdefaults⟩ := h count []
  refine ⟨_, next, _, .comment hps, .settled run (.cons rfl (event?_comment hs) rfl hmarked), ?_⟩
  rw [Tree.defaults, Tree.collect]
  exact hdefaults

theorem declares_instruction {target : String} {data? : Option String}
    (hi : (Content.instruction target data?).Framed) (h : Declares around rest) :
    Declares around (.instruction target data? :: rest) := by
  intro count run
  obtain ⟨ps, next, es, hps, hmarked, hdefaults⟩ := h count []
  have hevent := event?_instruction hi.1 hi.2.1 hi.2.2
  rw [writeInstruction_eq] at hevent
  refine ⟨_, next, _, .instruction hps, .settled run (.cons rfl hevent rfl hmarked), ?_⟩
  rw [Tree.defaults, Tree.collect]
  exact hdefaults

theorem declares_element {label : Label} {attributes : List Attribute} {children : List Tree}
    (htag : LegibleTag around label attributes)
    (hchildren : Declares (Scope.hinted around label attributes :: around) children)
    (h : Declares around rest) : Declares around (.element label attributes children :: rest) := by
  intro count run
  have hs := htag.ofElement_eq count
  obtain ⟨w, hw, hname, -⟩ := htag.exists_label
  obtain ⟨written, hwritten, hevent⟩ := htag.exists_written
  have hown (es : List Event) (isEmpty : Bool) :
      (Event.startTag w (readTag attributeName attributes (Scope.hinted around label attributes))
        isEmpty :: es).filterMap Event.defaults? =
          defaultsOf label attributes :: es.filterMap Event.defaults? := by
    rw [← htag.defaults_readTag]
    rfl
  cases children with
  | nil =>
    obtain ⟨ps, next, es, hps, hmarked, hdefaults⟩ := h count []
    refine ⟨_, next, _, .element hs hname hwritten .nil hps,
      .settled run (.cons rfl (hevent w hw true) rfl hmarked), ?_⟩
    rw [hown, hdefaults, Tree.defaults, Tree.collect, Tree.collect, List.nil_append]
  | cons t children =>
    obtain ⟨psInner, count', esInner, hpsInner, hmarkedInner, hinner⟩ := hchildren count []
    obtain ⟨ps, next, es, hps, hmarked, hdefaults⟩ := h count' []
    have hend : Marked (psInner ++ [.endTag w.text] ++ ps) (esInner ++ [.endTag w] ++ es) :=
      (hmarkedInner.append (Marked.nil.cons rfl (event?_endTag hw) rfl)).append hmarked
    refine ⟨_, next, _, .element hs hname hwritten hpsInner hps,
      .settled run (.cons rfl (hevent w hw false) rfl hend), ?_⟩
    rw [hown, List.filterMap_append, List.filterMap_append, hinner, hdefaults, Tree.defaults,
      Tree.collect]
    show _ :: (_ ++ [] ++ _) = _
    rw [List.append_nil]

theorem declares_of_each
    (h : ∀ t ∈ trees, ∀ rest, Declares around rest → Declares around (t :: rest)) :
    Declares around trees := by
  induction trees with
  | nil => exact declares_nil
  | cons t trees ih =>
    rw [List.forall_mem_cons] at h
    exact h.1 trees (ih h.2)

/-- A node that stands in a document and is read where it is written. -/
def StandsReadable (labels : List Label) (t : Tree) : Prop :=
  t.Sorted labels ∧ t.Has Content.Readable

theorem declares_cons {t : Tree} (ht : t.Stands StandsReadable labels)
    (haround : Scope.activeDefault? around = defaultOf labels) (hrest : Declares around rest) :
    Declares around (t :: rest) := by
  induction ht generalizing around rest with
  | @element labels label attributes children h _ ih =>
    refine declares_element (.of_sorted h.1 h.2 haround) ?_ hrest
    exact declares_of_each fun t ht rest hrest =>
      ih t ht (activeDefault?_hinted label attributes haround) hrest
  | @leaf labels t ht h =>
    cases t with
    | element _ _ _ => cases ht
    | text s isCData => exact declares_text hrest
    | comment s => exact declares_comment h.2.content hrest
    | instruction target data? => exact declares_instruction h.2.content hrest

end Markup

/-! ## Elements of a document -/

namespace Document

variable {d : Document}

/-- The default namespaces that a node declares. -/
def defaultsAt (d : Document) (n : NodeId) : List String :=
  match (d.entry n).content with
  | .element label => defaultsOf label (d.attributesOf n)
  | .document | .attribute _ | .text _ _ | .comment _ | .instruction _ _ => []

/-- The trees of a document declare what its elements do, in document order. -/
theorem Linked.defaults_trees (h : d.Linked) (hh : d.Housed) :
    Tree.defaults d.trees = d.elements.map d.defaultsAt :=
  h.collect_trees hh fun n label hc => by
    unfold defaultsAt
    rw [hc]

/-! ## Documents that are read -/

variable {text : String}

theorem ordinary_of_read? (h : read? text = some d) : d.Holds Content.Ordinary :=
  gives_ordinary.holds_of_read? trivial trivial h

/-- A document that was read is read where it is written, but for its namespaces. -/
theorem readable_of_read? (h : read? text = some d) (hclear : d.Holds Content.Clear) :
    d.Holds Content.Readable := by
  intro n
  have hnamed := named_of_read? h n
  have hframed := framed_of_read? h n
  have hordinary := ordinary_of_read? h n
  have hclear := hclear n
  have hwritten {name : ExpandedName} (hname : IsPlainName name.localPart.toList) :
      name.space? = none → (asWritten? name.localPart).isSome = true := fun _ => by
    rw [asWritten?_of_isPlainName hname]
    rfl
  generalize (d.entry n).content = content at hnamed hframed hordinary hclear ⊢
  rcases content with _ | label | a | ⟨s, isCData⟩ | s | ⟨target, data?⟩
  · trivial
  · exact ⟨hwritten hnamed.1, hclear⟩
  · exact ⟨hwritten hnamed.1, hordinary.1, hclear⟩
  · trivial
  · exact hframed
  · exact hframed

/-! ## Documents that are rendered -/

/-- The start tags of what is rendered declare the default namespaces that the elements do. -/
theorem Reachable.exists_render_defaults (hd : d.Reachable) (hr : d.Holds Content.Readable)
    (options : RenderOptions)
    (hwidth : ∀ width ∈ options.indent?, ∀ t ∈ d.trees, t.hasChildren = true →
      width < textLimit) :
    ∃ text, d.render options = .ok text ∧
      defaultsIn text = some (d.elements.map d.defaultsAt) := by
  have hreadable := hd.linked.every_has hr (n := root)
  have hwritable : ∀ t ∈ d.trees, t.Every (Tree.Has Content.Writable) := by
    refine hd.linked.every_has fun n => ?_
    exact (hr n).writable (hd.spelled n)
  have hdeclares : Declares [] d.trees := declares_of_each fun t ht rest hrest =>
    declares_cons ((hd.stands_sorted t ht).both (hreadable t ht) fun _ _ => And.intro) rfl hrest
  obtain ⟨ps, next, es, hps, hmarked, hdefaults⟩ := hdeclares 0 []
  obtain ⟨text, hrender, hmarkup⟩ := exists_render_markup hd.linked.isText_of_mem_trees hwritable
    hps hmarked.firm options hwidth
  refine ⟨text, hrender, ?_⟩
  have hfront : (frontEvents options.declaration).filterMap Event.defaults? = [] := by
    unfold frontEvents
    split <;> rfl
  rw [defaultsIn_eq, hmarkup, hmarked.events, ← hd.linked.defaults_trees hd.housed, ← hdefaults]
  show some ((frontEvents _ ++ es).filterMap _) = _
  rw [List.filterMap_append, hfront, List.nil_append]

end Document

end XmlScript
