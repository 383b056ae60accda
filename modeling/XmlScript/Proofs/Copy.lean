import Mathlib.Data.Set.List
import XmlScript.Proofs.Copied
import XmlScript.Proofs.Growth
import XmlScript.Proofs.Stack
import XmlScript.Proofs.WellFormed

/-!
# Copies of what scripts have made

`Adds commands c nodes attributes trees x` says that a script of these commands does not fail when
it is run from `c` on `x`, comes back to `c`, and gives each of the current nodes the attributes and
trees, and no other node anything. Commands that each do so do it one after the other
(`Adds.append`), single edits do it because they do it at every node (`adds_edit`), and an element
does it whose content is added at the new elements (`adds_element`). By induction over a tree, the
commands of a tree add what `Tree.copied` says (`adds_commands`).

Whatever a script makes of an empty document consists of nodes as scripts make them
(`every_isScripted`). So a copy of it makes the same again (`run_copy`).
-/

namespace XmlScript

namespace Engine

open Document

variable {x y : Document} {c : Cursor Node} {nodes : List NodeId}

/-- A script of these commands gives each of the current nodes these attributes and trees, and
comes back to where it started. -/
def Adds (commands : List (Command String)) (c : Cursor Node) (nodes : List NodeId)
    (attributes : List Attribute) (trees : List Tree) (x : Document) : Prop :=
  ∀ script : Script, script.map Directive.plain = commands → ∀ position saved, ∃ y, y.Linked ∧
    runFrom position script c ⟨x, saved⟩ = (.ok c, ⟨y, saved⟩) ∧
      Gains (onEach nodes attributes) (onEach nodes trees) x y

namespace Adds

variable {commands commands' : List (Command String)} {attributes attributes' : List Attribute}
  {trees trees' : List Tree}

theorem nil (hx : x.Linked) : Adds [] c nodes [] [] x := by
  intro script hscript position saved
  rw [List.map_eq_nil_iff.1 hscript]
  exact ⟨x, hx, rfl, (Gains.refl x).congr (fun n _ => onEach_nil.symm) fun n _ => onEach_nil.symm⟩

theorem append (h : Adds commands c nodes attributes trees x) (hnodes : ∀ n ∈ nodes, n < x.size)
    (h' : ∀ y : Document, y.Linked → Gains (onEach nodes attributes) (onEach nodes trees) x y →
      Adds commands' c nodes attributes' trees' y) :
    Adds (commands ++ commands') c nodes (attributes ++ attributes') (trees ++ trees') x := by
  intro script hscript position saved
  obtain ⟨a, b, rfl, ha, hb⟩ := List.map_eq_append_iff.1 hscript
  obtain ⟨y, hy, hrun, hgains⟩ := h a ha position saved
  obtain ⟨z, hz, hrun', hgains'⟩ := h' y hy hgains b hb (position + a.length) saved
  exact ⟨z, hz, by rw [runFrom_append_of_ok hrun, hrun'], hgains.append hy hgains' hnodes⟩

end Adds

/-! ## Single edits -/

/-- Edits that give one node something give it to several, one after the other. What allows the
edit at a node is not changed by the edits at others. -/
theorem editEach_gains {attributes : List Attribute} {trees : List Tree}
    {edit : Node → Document → Except EditError Document} {Fits : Content → List NodeId → Prop}
    (hedit : ∀ {x : Document} {p : NodeId}, x.Linked → p < x.size →
      Fits (x.entry p).content (x.entry p).children → ∃ y, edit (.stored p) x = .ok y ∧ y.Linked ∧
        Gains (onEach [p] attributes) (onEach [p] trees) x y)
    (hx : x.Linked) (hnodup : nodes.Nodup)
    (hnodes : ∀ p ∈ nodes, p < x.size ∧ Fits (x.entry p).content (x.entry p).children) :
    ∃ y, editEach (keeping edit) (nodes.map .stored) x = (.ok (nodes.map .stored), y) ∧ y.Linked ∧
      Gains (onEach nodes attributes) (onEach nodes trees) x y := by
  induction nodes generalizing x with
  | nil =>
    refine ⟨x, rfl, hx, (Gains.refl x).congr (fun n _ => ?_) fun n _ => ?_⟩
    · exact (onEach_of_not_mem List.not_mem_nil).symm
    · exact (onEach_of_not_mem List.not_mem_nil).symm
  | cons p rest ih =>
    rw [List.nodup_cons] at hnodup
    obtain ⟨hp, hfits⟩ := hnodes p (List.mem_cons_self ..)
    obtain ⟨y, hy, hly, hgains⟩ := hedit hx hp hfits
    have hrest : ∀ q ∈ rest, q < y.size ∧ Fits (y.entry q).content (y.entry q).children := by
      intro q hq
      obtain ⟨hqx, hfitsq⟩ := hnodes q (List.mem_cons_of_mem _ hq)
      have hqp : q ∉ [p] := fun h => hnodup.1 (List.mem_singleton.1 h ▸ hq)
      rw [hgains.content q hqx, hgains.children_eq hqx (onEach_of_not_mem hqp)]
      exact ⟨Nat.lt_of_lt_of_le hqx hgains.size_le, hfitsq⟩
    obtain ⟨z, hz, hlz, hgains'⟩ := ih hly hnodup.2 hrest
    refine ⟨z, ?_, hlz, hgains.cons hly hgains' hnodup.1 fun q hq =>
      (hnodes q (List.mem_cons_of_mem _ hq)).1⟩
    rw [List.map_cons, editEach, keeping, hy]
    simp only [Except.map, hz]

/-- A command that edits every current node gives each what one edit gives. -/
theorem adds_edit {command : Command String} {attributes : List Attribute} {trees : List Tree}
    (edit : Node → Document → Except EditError Document) (Fits : Content → List NodeId → Prop)
    (hexecute : ∀ directive : Directive, directive.plain = command → ∀ s,
      execute directive c s = editNodes edit c s)
    (hedit : ∀ {x : Document} {p : NodeId}, x.Linked → p < x.size →
      Fits (x.entry p).content (x.entry p).children → ∃ y, edit (.stored p) x = .ok y ∧ y.Linked ∧
        Gains (onEach [p] attributes) (onEach [p] trees) x y)
    (hx : x.Linked) (hc : c.nodes = nodes.map .stored)
    (hnodes : ∀ p ∈ nodes, p < x.size ∧ Fits (x.entry p).content (x.entry p).children) :
    Adds [command] c nodes attributes trees x := by
  intro script hscript position saved
  obtain ⟨directive, rfl, hplain⟩ := List.map_eq_singleton_iff.1 hscript
  have hnodup : nodes.Nodup := List.Nodup.of_map _ (hc ▸ c.nodup)
  obtain ⟨y, hy, hly, hgains⟩ := editEach_gains hedit hx hnodup hnodes
  refine ⟨y, hly, ?_, hgains⟩
  have hrun : execute directive c ⟨x, saved⟩ = (.ok c, ⟨y, saved⟩) := by
    rw [hexecute directive hplain, editNodes, hc, hy, ← hc]
    show (Except.ok (Cursor.ofList c.nodes), State.mk y saved) = _
    rw [Cursor.ofList_nodes]
  rw [runFrom_cons_of_ok hrun]
  rfl

/-- A command that appends a node which is no element. -/
theorem adds_leaf {command : Command String} {t : Tree}
    (edit : Node → Document → Except EditError Document) (Fits : Content → Prop)
    (hexecute : ∀ directive : Directive, directive.plain = command → ∀ s,
      execute directive c s = editNodes edit c s)
    (ht : t.isElement = false)
    (hedit : ∀ {x : Document} {p : NodeId}, Fits (x.entry p).content →
      edit (.stored p) x = .ok (x.appendChild p t.content))
    (hlinked : ∀ {x y : Document} {n : Node}, x.Linked → edit n x = .ok y → y.Linked)
    (hx : x.Linked) (hc : c.nodes = nodes.map .stored)
    (hnodes : ∀ p ∈ nodes, p < x.size ∧ Fits (x.entry p).content) :
    Adds [command] c nodes [] [t] x := by
  refine adds_edit edit (fun content _ => Fits content) hexecute ?_ hx hc hnodes
  intro x p hx hp hfits
  exact ⟨_, hedit hfits, hlinked hx (hedit hfits), Gains.appendChild hp ht⟩

theorem adds_addCData {text : String} (hx : x.Linked) (hc : c.nodes = nodes.map .stored)
    (hnodes : ∀ p ∈ nodes, ∃ label, (x.entry p).content = .element label) :
    Adds [.addCData text] c nodes [] [.text text true] x := by
  refine adds_leaf (Document.addCData text)
    (fun content => ∃ label, content = .element label) ?_ rfl ?_
    (fun hx he => hx.addCData he) hx hc fun p hp => ?_
  · intro directive h s
    cases directive with
    | addCData a =>
      have hraw : a.raw = text := Command.addCData.inj h
      rw [← hraw]
      rfl
    | _ => cases h
  · intro x p hfits
    obtain ⟨label, hlabel⟩ := hfits
    simp only [Document.addCData, content?, hlabel]
    rfl
  · obtain ⟨label, hlabel⟩ := hnodes p hp
    exact ⟨lt_size_of_element hlabel, label, hlabel⟩

theorem adds_addComment {text : String} (hx : x.Linked) (hc : c.nodes = nodes.map .stored)
    (hnodes : ∀ p ∈ nodes, x.IsContainer p) :
    Adds [.addComment text] c nodes [] [.comment text] x := by
  refine adds_leaf (Document.addComment text)
    (fun content => content = .document ∨ ∃ label, content = .element label) ?_ rfl ?_
    (fun hx he => hx.addComment he) hx hc fun p hp => ⟨(hnodes p hp).lt_size, hnodes p hp⟩
  · intro directive h s
    cases directive with
    | addComment a =>
      have hraw : a.raw = text := Command.addComment.inj h
      rw [← hraw]
      rfl
    | _ => cases h
  · intro x p hfits
    rcases hfits with hp | ⟨label, hp⟩
    · simp only [Document.addComment, content?, hp]
      rfl
    · simp only [Document.addComment, content?, hp]
      rfl

theorem adds_addInstruction {target data : String} (htarget : Name.isValid target = true)
    (hx : x.Linked) (hc : c.nodes = nodes.map .stored) (hne : nodes ≠ [])
    (hnodes : ∀ p ∈ nodes, x.IsContainer p) :
    Adds [.addInstruction target data] c nodes []
      [.instruction target (if data.isEmpty then none else some data)] x := by
  refine adds_leaf (Document.addInstruction target data)
    (fun content => content = .document ∨ ∃ label, content = .element label) ?_ rfl ?_
    (fun hx he => hx.addInstruction he) hx hc fun p hp => ⟨(hnodes p hp).lt_size, hnodes p hp⟩
  · intro directive h s
    have hfull : ¬ c.isEmpty = true := by
      rw [Cursor.isEmpty, hc]
      simpa using hne
    cases directive with
    | addInstruction a b =>
      have hraw : a.raw = target ∧ b.raw = data := Command.addInstruction.inj h
      rw [← hraw.1, ← hraw.2]
      unfold execute
      simp only
      rw [if_neg hfull]
    | _ => cases h
  · intro x p hfits
    refine withName_eq_ok_iff.2 ⟨htarget, ?_⟩
    rcases hfits with hp | ⟨label, hp⟩
    · simp only [content?, hp]
      rfl
    · simp only [content?, hp]
      rfl

/-! ## Elements -/

/-- A node that takes an element is not refused one. -/
theorem addElement_eq_ok {name : String} {p : NodeId} (hname : Name.isValid name = true)
    (hx : x.Linked) (hcontainer : x.IsContainer p) (ht : Takes x p (.element (.plain name))) :
    x.addElement name (.stored p) =
      .ok (.stored x.size, x.appendChild p (.element (.plain name))) := by
  refine withName_eq_ok_iff.2 ⟨hname, ?_⟩
  rcases hcontainer with hp | ⟨label, hp⟩
  · have hroot := (hx.document_iff p).1 hp
    have hnone : x.documentElement? = none := by
      refine List.find?_eq_none.2 fun n hn => ?_
      rw [isElement_eq, ht.notSecond hroot rfl n hn]
      exact Bool.false_ne_true
    simp only [content?, hp, hnone]
  · simp only [content?, hp]

/-- To a node that takes it an element is an element, whatever its label says. -/
theorem takes_element {label label' : Label} {p : NodeId}
    (h : Takes x p (.element label)) : Takes x p (.element label') where
  lt := h.lt
  notDocument := nofun
  notText _ := rfl
  notSecond hp _ := h.notSecond hp rfl
  notNamesake := nofun

/-- What a node takes, it still takes when another has been given an element. -/
theorem takes_appendChild {c : Content} {label : Label} {p q : NodeId} (hx : x.Linked)
    (hp : p < x.size) (hqp : q ≠ p) (ht : Takes x q c) :
    Takes (x.appendChild p (.element label)) q c where
  lt := Nat.lt_of_lt_of_le ht.lt (Earlier.appendChild hp _).size_le
  notDocument := ht.notDocument
  notText := ht.notText
  notSecond hroot he n hn := by
    have hlt : root < x.size := hroot ▸ ht.lt
    rw [entry_appendChild hp, if_neg (Nat.ne_of_lt hlt), if_neg (hroot ▸ hqp)] at hn
    rw [(Earlier.appendChild hp _).content n (hx.lt_of_mem_children hn)]
    exact ht.notSecond hroot he n hn
  notNamesake ha n hn := by
    rw [entry_appendChild hp, if_neg (Nat.ne_of_lt ht.lt), if_neg hqp] at hn
    rw [(Earlier.appendChild hp _).content n (hx.lt_of_mem_attributes hn)]
    exact ht.notNamesake ha n hn

/-- Every current node gets an element of its own. -/
theorem editEach_addElement {name : String} (hname : Name.isValid name = true) (hx : x.Linked)
    (hnodup : nodes.Nodup)
    (hnodes : ∀ p ∈ nodes, x.IsContainer p ∧ Takes x p (.element (.plain name))) :
    ∃ y made, editEach (fun n d => d.addElement name n) (nodes.map .stored) x =
      (.ok (made.map .stored), y) ∧ y.Linked ∧ Opened (.plain name) nodes made x y := by
  induction nodes generalizing x with
  | nil => exact ⟨x, [], rfl, hx, Opened.refl x⟩
  | cons p rest ih =>
    rw [List.nodup_cons] at hnodup
    obtain ⟨hcontainer, ht⟩ := hnodes p (List.mem_cons_self ..)
    have hadd := addElement_eq_ok hname hx hcontainer ht
    have hrest : ∀ q ∈ rest, (x.appendChild p (.element (.plain name))).IsContainer q ∧
        Takes (x.appendChild p (.element (.plain name))) q (.element (.plain name)) := by
      intro q hq
      obtain ⟨hcontainerq, htq⟩ := hnodes q (List.mem_cons_of_mem _ hq)
      have hqp : q ≠ p := fun h => hnodup.1 (h ▸ hq)
      refine ⟨?_, takes_appendChild hx ht.lt hqp htq⟩
      unfold IsContainer
      rw [(Earlier.appendChild ht.lt _).content q htq.lt]
      exact hcontainerq
    obtain ⟨y, made, hy, hly, hopened⟩ := ih (hx.addElement hadd) hnodup.2 hrest
    refine ⟨y, x.size :: made, ?_, hly, hopened.cons ht.lt hnodup.1 fun q hq =>
      (hnodes q (List.mem_cons_of_mem _ hq)).2.lt⟩
    rw [List.map_cons, editEach, hadd]
    simp only [hy]
    rfl

/-- The parents of elements that have been put below some nodes are these nodes. -/
theorem parents_of_opened {label : Label} {made : List NodeId} {z : Document}
    (h : Opened label nodes made x y) (hyz : Earlier y z) :
    (made.map Node.stored).mapM (parent .up z) = .ok (nodes.map .stored) := by
  refine mapM_eq_ok_iff.2 ?_
  rw [List.forall₂_map_left_iff, List.forall₂_map_right_iff]
  refine h.made.flip.imp fun q p hq => ?_
  have hp : z.parent? (.stored q) = some (.stored p) :=
    hyz.parent?_eq (Option.map_eq_some_iff.2 ⟨p, hq.2.2.2.parent?, rfl⟩)
  simp only [parent, hp]

/-- An element is appended whose content is added at the new elements. -/
theorem adds_element {name : String} {inner : List (Command String)} {attributes : List Attribute}
    {trees : List Tree} (hname : Name.isValid name = true) (hx : x.Linked)
    (hc : c.nodes = nodes.map .stored)
    (hnodes : ∀ p ∈ nodes, x.IsContainer p ∧ Takes x p (.element (.plain name)))
    (hinner : ∀ {y : Document} {c : Cursor Node} {made : List NodeId}, y.Linked →
      c.nodes = made.map .stored → made.length = nodes.length →
      (∀ p ∈ made, (∃ label, (y.entry p).content = .element label) ∧
        (y.entry p).children = []) → Adds inner c made attributes trees y) :
    Adds (.addElement name :: (inner ++ [.up])) c nodes []
      [.element (.plain name) (Attribute.putAll [] attributes) trees] x := by
  intro script hscript position saved
  obtain ⟨directive, rest, rfl, hplain, hrest⟩ := List.map_eq_cons_iff.1 hscript
  obtain ⟨a, b, rfl, ha, hb⟩ := List.map_eq_append_iff.1 hrest
  obtain ⟨last, rfl, hlast⟩ := List.map_eq_singleton_iff.1 hb
  have hnodup : nodes.Nodup := List.Nodup.of_map _ (hc ▸ c.nodup)
  obtain ⟨y, made, hy, hly, hopened⟩ := editEach_addElement hname hx hnodup hnodes
  -- the new elements are current, the content is added, and `up` leads back
  let c' : Cursor Node := ⟨made.map .stored, hopened.nodup.map fun _ _ => Node.stored.inj⟩
  have hadd : execute directive c ⟨x, saved⟩ = (.ok c', ⟨y, saved⟩) := by
    cases directive with
    | addElement a =>
      show moved _ (editEach (fun n d => d.addElement a.raw n) c.nodes x) = _
      have hname : a.raw = name := Command.addElement.inj hplain
      rw [hname, hc, hy]
      show (Except.ok (Cursor.ofList c'.nodes), State.mk y saved) = _
      rw [Cursor.ofList_nodes]
    | _ => cases hplain
  have hfilled : ∀ q ∈ made, (∃ label, (y.entry q).content = .element label) ∧
      (y.entry q).children = [] := by
    intro q hq
    obtain ⟨p, -, hp⟩ := exists_of_forall₂_of_mem hopened.made hq
    exact ⟨⟨_, hp.2.2.2.content⟩, hp.2.2.2.children⟩
  have hlength := hopened.made.length_eq.symm
  obtain ⟨z, hlz, hrun, hgains⟩ :=
    hinner hly (c := c') rfl hlength hfilled a ha (position + 1) saved
  have hback : execute last c' ⟨z, saved⟩ = (.ok c, ⟨z, saved⟩) := by
    cases last with
    | up =>
      show (((made.map Node.stored).mapM (parent .up z)).map Cursor.ofList, State.mk z saved) = _
      rw [parents_of_opened hopened hgains.toEarlier, ← hc]
      show (Except.ok (Cursor.ofList c.nodes), State.mk z saved) = _
      rw [Cursor.ofList_nodes]
    | _ => cases hlast
  refine ⟨z, hlz, ?_, hopened.fill hgains hlz⟩
  rw [runFrom_cons_of_ok hadd, runFrom_append_of_ok hrun, runFrom_cons_of_ok hback]
  rfl

/-! ## Content -/

/-- Attributes are set one after the other. -/
theorem adds_attributes {attributes : List Attribute}
    (hvalid : ∀ a ∈ attributes, Name.isValid a.name.localPart = true) (hx : x.Linked)
    (hc : c.nodes = nodes.map .stored)
    (hnodes : ∀ p ∈ nodes, ∃ label, (x.entry p).content = .element label) :
    Adds (attributes.map fun a => .setAttribute a.name.localPart a.value) c nodes
      (attributes.map Attribute.plain) [] x := by
  induction attributes generalizing x with
  | nil => exact Adds.nil hx
  | cons a rest ih =>
    have hlt : ∀ p ∈ nodes, p < x.size := fun p hp => by
      obtain ⟨label, hlabel⟩ := hnodes p hp
      exact lt_size_of_element hlabel
    have hname := hvalid a (List.mem_cons_self ..)
    have hone : Adds [.setAttribute a.name.localPart a.value] c nodes [a.plain] [] x := by
      refine adds_edit (Document.setAttribute a.name.localPart a.value)
        (fun content _ => ∃ label, content = .element label) ?_ ?_ hx hc
        fun p hp => ⟨hlt p hp, hnodes p hp⟩
      · intro directive h s
        cases directive with
        | setAttribute name value =>
          have hraw : name.raw = a.name.localPart ∧ value.raw = a.value :=
            Command.setAttribute.inj h
          rw [← hraw.1, ← hraw.2]
          rfl
        | _ => cases h
      · intro x p hx hp hfits
        obtain ⟨label, hlabel⟩ := hfits
        have hset : x.setAttribute a.name.localPart a.value (.stored p) =
            .ok (x.putAttribute p a.plain) := by
          refine withName_eq_ok_iff.2 ⟨hname, ?_⟩
          simp only [content?, hlabel]
          rfl
        exact ⟨_, hset, hx.setAttribute hset, Gains.putAttribute hx hp a.plain⟩
    have hrest : ∀ y : Document, y.Linked → Gains (onEach nodes [a.plain]) (onEach nodes []) x y →
        Adds (rest.map fun a => .setAttribute a.name.localPart a.value) c nodes
          (rest.map Attribute.plain) [] y := by
      intro y hy hgains
      refine ih (fun b hb => hvalid b (List.mem_cons_of_mem _ hb)) hy fun p hp => ?_
      rw [hgains.content p (hlt p hp)]
      exact hnodes p hp
    exact hone.append hlt hrest

/-- The text of an element that has no children is all that it then has. -/
theorem adds_setText {text : String} (hx : x.Linked) (hc : c.nodes = nodes.map .stored)
    (hnodes : ∀ p ∈ nodes, (∃ label, (x.entry p).content = .element label) ∧
      (x.entry p).children = []) :
    Adds [.setText text] c nodes [] [.text text false] x := by
  refine adds_edit (Document.setText text)
    (fun content children => (∃ label, content = .element label) ∧ children = []) ?_ ?_
    hx hc fun p hp => ?_
  · intro directive h s
    cases directive with
    | setText a =>
      have hraw : a.raw = text := Command.setText.inj h
      rw [← hraw]
      rfl
    | _ => cases h
  · intro x p hx hp hfits
    obtain ⟨⟨label, hlabel⟩, hnone⟩ := hfits
    have hset : x.setText text (.stored p) = .ok (x.appendChild p (.text text false)) := by
      simp only [Document.setText, content?, hlabel, clearChildren_eq_self hnone]
    exact ⟨_, hset, hx.setText hset, Gains.appendChild (t := .text text false) hp rfl⟩
  · obtain ⟨label, hlabel⟩ := (hnodes p hp).1
    exact ⟨lt_size_of_element hlabel, hnodes p hp⟩

/-- The commands of a tree add its copy wherever the tree may be put. -/
def AddsCopy (t : Tree) : Prop :=
  ∀ {x : Document} {c : Cursor Node} {nodes : List NodeId}, x.Linked →
    c.nodes = nodes.map .stored → nodes ≠ [] →
    (∀ p ∈ nodes, x.IsContainer p ∧ Takes x p t.content) → Adds t.commands c nodes [] t.copied x

/-- Trees may be put below a node one after the other. -/
structure Room (x : Document) (p : NodeId) (trees : List Tree) : Prop where
  container : x.IsContainer p
  notText : p = root → ∀ t ∈ trees, t.isText = false
  count_le : p = root → trees.countP Tree.isElement ≤ 1
  notSecond : p = root → trees.countP Tree.isElement = 1 →
    ∀ n ∈ (x.entry root).children, (x.entry n).content.isElement = false

namespace Room

variable {t : Tree} {trees : List Tree} {p : NodeId}

theorem of_element (hx : x.Linked) {label : Label} (hp : (x.entry p).content = .element label) :
    Room x p trees := by
  have hroot : p ≠ root := fun h => by
    rw [(hx.document_iff p).2 h] at hp
    cases hp
  exact ⟨Or.inr ⟨label, hp⟩, fun h => absurd h hroot, fun h => absurd h hroot,
    fun h => absurd h hroot⟩

theorem takes (h : Room x p (t :: trees)) : Takes x p t.content where
  lt := h.container.lt_size
  notDocument := t.content_ne_document
  notText hp := by
    rw [t.isText_content]
    exact h.notText hp t (List.mem_cons_self ..)
  notSecond hp he := by
    rw [t.isElement_content] at he
    have hle := h.count_le hp
    have hone := h.notSecond hp
    rw [List.countP_cons_of_pos he] at hle hone
    exact hone (by omega)
  notNamesake ha := by
    rw [t.isAttribute_content] at ha
    cases ha

/-- There is room for the other trees after the first. -/
theorem tail (h : Room x p (t :: trees)) (hx : x.Linked)
    (hgains : Gains (onEach nodes []) (onEach nodes t.copied) x y) : Room y p trees where
  container := by
    unfold IsContainer
    rw [hgains.content p h.container.lt_size]
    exact h.container
  notText hp u hu := h.notText hp u (List.mem_cons_of_mem _ hu)
  count_le hp := by
    have hle := h.count_le hp
    rw [List.countP_cons] at hle
    omega
  notSecond hp hone n hn := by
    -- an element is still to come, so this tree was none
    have hle := h.count_le hp
    have hnot : t.isElement = false := by
      cases ht : t.isElement with
      | false => rfl
      | true =>
        rw [List.countP_cons_of_pos ht] at hle
        omega
    have hfirst := h.notSecond hp (by rw [List.countP_cons_of_neg (by simp [hnot])]; exact hone)
    obtain ⟨new, hnew, htrees⟩ := hgains.new root hx.root_lt
    rw [hnew] at hn
    rcases List.mem_append.1 hn with hold | hn
    · rw [hgains.content n (hx.lt_of_mem_children hold)]
      exact hfirst n hold
    · obtain ⟨u, hu, -, htree⟩ := exists_of_forall₂_of_mem htrees.flip hn
      rw [content_of_tree? htree, u.isElement_content]
      by_cases hmem : root ∈ nodes
      · rw [onEach_of_mem hmem] at hu
        rw [Tree.isElement_of_mem_copied hu, hnot]
      · rw [onEach_of_not_mem hmem] at hu
        cases hu

end Room

/-- Neighbouring trees are added one after the other. -/
theorem adds_treeCommands {trees : List Tree} (ih : ∀ t ∈ trees, AddsCopy t) (hx : x.Linked)
    (hc : c.nodes = nodes.map .stored) (hne : nodes ≠ []) (hroom : ∀ p ∈ nodes, Room x p trees) :
    Adds (treeCommands trees) c nodes [] (copiedTrees trees) x := by
  induction trees generalizing x with
  | nil =>
    rw [treeCommands, copiedTrees]
    exact Adds.nil hx
  | cons t rest ihr =>
    have ht : Adds t.commands c nodes [] t.copied x :=
      ih t (List.mem_cons_self ..) hx hc hne fun p hp =>
        ⟨(hroom p hp).container, (hroom p hp).takes⟩
    rw [treeCommands, copiedTrees]
    refine ht.append (fun p hp => (hroom p hp).container.lt_size) fun y hy hgains => ?_
    exact ihr (fun u hu => ih u (List.mem_cons_of_mem _ hu)) hy fun p hp =>
      (hroom p hp).tail hx hgains

/-- The content of an element is added to elements that have none. -/
theorem adds_contentCommands {attributes : List Attribute} {children : List Tree}
    (hvalid : ∀ a ∈ attributes, Name.isValid a.name.localPart = true)
    (ih : ∀ t ∈ children, AddsCopy t) (hx : x.Linked) (hc : c.nodes = nodes.map .stored)
    (hne : nodes ≠ [])
    (hnodes : ∀ p ∈ nodes, (∃ label, (x.entry p).content = .element label) ∧
      (x.entry p).children = []) :
    Adds (contentCommands attributes children) c nodes (attributes.map Attribute.plain)
      (copiedContent children) x := by
  have hlt : ∀ p ∈ nodes, p < x.size := fun p hp => by
    obtain ⟨label, hlabel⟩ := (hnodes p hp).1
    exact lt_size_of_element hlabel
  have hset := adds_attributes hvalid hx hc fun p hp => (hnodes p hp).1
  -- attributes are no children, so the elements are still without any
  have hkept : ∀ y : Document, Gains (onEach nodes (attributes.map Attribute.plain))
      (onEach nodes []) x y → ∀ p ∈ nodes,
        (∃ label, (y.entry p).content = .element label) ∧ (y.entry p).children = [] := by
    intro y hgains p hp
    rw [hgains.content p (hlt p hp), hgains.children_eq (hlt p hp) onEach_nil]
    exact hnodes p hp
  have hboth {commands : List (Command String)} {trees : List Tree}
      (h : ∀ y : Document, y.Linked → Gains (onEach nodes (attributes.map Attribute.plain))
        (onEach nodes []) x y → Adds commands c nodes [] trees y) :
      Adds ((attributes.map fun a => .setAttribute a.name.localPart a.value) ++ commands) c nodes
        (attributes.map Attribute.plain) trees x := by
    have h := hset.append hlt h
    rwa [List.append_nil, List.nil_append] at h
  rw [contentCommands, copiedContent]
  split
  next => exact hboth fun y hy hgains => adds_setText hy hc (hkept y hgains)
  next =>
    refine hboth fun y hy hgains => adds_treeCommands ih hy hc hne fun p hp => ?_
    obtain ⟨label, hlabel⟩ := (hkept y hgains p hp).1
    exact Room.of_element hy hlabel

/-- The commands of a tree whose names are valid add its copy. -/
theorem adds_commands {t : Tree} (ht : t.Every Tree.IsCreatable) : AddsCopy t := by
  induction ht with
  | @element label attributes children h _ ih =>
    intro x c nodes hx hc hne hnodes
    rw [Tree.commands, Tree.copied]
    refine adds_element h.1 hx hc
      (fun p hp => ⟨(hnodes p hp).1, takes_element (hnodes p hp).2⟩)
      fun {_ _ made} hy hc hlength hnodes => ?_
    have hmade : made ≠ [] := by
      rintro rfl
      exact hne (List.eq_nil_of_length_eq_zero hlength.symm)
    exact adds_contentCommands h.2 ih hy hc hmade hnodes
  | @text s isCData _ =>
    intro x c nodes hx hc hne hnodes
    rw [Tree.commands, Tree.copied]
    split
    next => exact Adds.nil hx
    next =>
      refine adds_addCData hx hc fun p hp => ?_
      -- the document node takes no text
      obtain ⟨hcontainer, htakes⟩ := hnodes p hp
      refine hcontainer.resolve_left fun hdocument => ?_
      have htext := htakes.notText ((hx.document_iff p).1 hdocument)
      cases htext
  | comment _ =>
    intro x c nodes hx hc hne hnodes
    rw [Tree.commands, Tree.copied]
    exact adds_addComment hx hc fun p hp => (hnodes p hp).1
  | instruction h =>
    intro x c nodes hx hc hne hnodes
    rw [Tree.commands, Tree.copied]
    exact adds_addInstruction h hx hc hne fun p hp => (hnodes p hp).1

/-! ## Documents that scripts have made -/

theorem makeable_isScripted : Makeable Content.IsScripted where
  absent := trivial
  newElement hname := ⟨_, hname, rfl⟩
  newAttribute hname := ⟨hname, rfl⟩
  newValue h := by
    refine ⟨h.1, ?_⟩
    have hname := congrArg Attribute.name h.2
    unfold Attribute.plain at hname ⊢
    simp only at hname ⊢
    rw [hname]
  newText := trivial

theorem keeps_isScripted (directive : Directive) : Keeps (Holds Content.IsScripted) directive := by
  refine keeps_holds makeable_isScripted directive (fun _ _ => trivial) ?_
  intro target data _ htarget
  refine ⟨htarget, ?_⟩
  split
  next => exact nofun
  next hdata =>
    intro he
    rw [Option.some.inj he] at hdata
    exact hdata rfl

/-- Every node of what a script makes of the empty document is one as scripts make them. -/
theorem holds_isScripted (script : Script) :
    Holds Content.IsScripted (apply script .empty).2 := by
  refine Keeps.apply (fun directive _ => keeps_isScripted directive) fun n => ?_
  rw [Linked.entry_empty]
  split <;> trivial

theorem isScripted_of_tree? {d : Document} (hd : d.Linked) (h : d.Holds Content.IsScripted) :
    ∀ n < d.size, ∀ t, d.tree? d.size n = some t → t.IsScripted := by
  intro n hn t ht
  have hn' := h n
  rw [content_of_tree? ht] at hn'
  rw [hd.tree?_eq hn] at ht
  cases t with
  | element label attributes children =>
    refine ⟨hn', ?_⟩
    have hattributes : attributes = d.attributesOf n := by
      split at ht <;> cases ht
      rfl
    rw [hattributes]
    exact ⟨fun a ha => h.of_mem_attributesOf ha, hd.nodup_attributesOf⟩
  | text _ _ | comment _ => trivial
  | instruction _ _ => exact hn'

/-- Below a node the copy of every tree is the same tree, up to blanks and sections. -/
theorem normalContent_copied_treesBelow {d : Document} (hd : d.Linked)
    (h : d.Holds Content.IsScripted) (n : NodeId) :
    Tree.normalContent (copiedContent (d.treesBelow n)) = Tree.normalContent (d.treesBelow n) :=
  Tree.normalContent_copied fun _ ht =>
    Tree.normals_copied (hd.every_treesBelow (isScripted_of_tree? hd h) _ ht)

/-- There is room in the empty document for what the document node of another has. -/
theorem room_empty {d : Document} (hd : d.Linked) :
    Room .empty root (d.treesBelow root) where
  container := Or.inl rfl
  notText _ := hd.isText_of_mem_trees
  count_le _ := by
    have helements : ((d.entry root).children.countP d.isElement) ≤ 1 := by
      have hle := hd.length_elementChildren_root
      unfold elementChildren at hle
      rwa [List.length_map, ← List.countP_eq_length_filter] at hle
    unfold treesBelow
    rw [List.countP_filterMap]
    refine Nat.le_trans (List.countP_mono_left fun n _ hn => ?_) helements
    cases ht : d.tree? d.size n with
    | none =>
      rw [ht] at hn
      cases hn
    | some t =>
      rw [ht] at hn
      rw [isElement_eq, content_of_tree? ht, t.isElement_content]
      exact hn
  notSecond _ _ n hn := by
    rw [Linked.entry_empty, if_pos rfl] at hn
    cases hn

/-! ## The inverse -/

/-- A cursor on elements that have neither attributes nor children. -/
structure IsBare (c : Cursor Node) (x : Document) : Prop where
  element : ∀ n ∈ c.nodes, ∃ label, x.content? n = some (.element label)
  noAttributes : ∀ n ∈ c.nodes, x.attributes n = []
  noChildren : ∀ n ∈ c.nodes, x.children n = []

theorem isBare_single {n : Node} (label : Label) (h : x.content? n = some (.element label))
    (ha : x.attributes n = []) (hc : x.children n = []) : IsBare (.single n) x where
  element _ hm := List.mem_singleton.1 hm ▸ ⟨label, h⟩
  noAttributes _ hm := List.mem_singleton.1 hm ▸ ha
  noChildren _ hm := List.mem_singleton.1 hm ▸ hc

/-- A cursor on elements is on nodes of the document. -/
theorem exists_nodes_of_elements
    (h : ∀ n ∈ c.nodes, ∃ label, x.content? n = some (.element label)) :
    ∃ nodes : List NodeId, c.nodes = nodes.map .stored ∧
      ∀ id ∈ nodes, ∃ label, (x.entry id).content = .element label := by
  obtain ⟨nodes, hnodes⟩ : c.nodes ∈ Set.range (List.map Node.stored) := by
    rw [Set.range_list_map]
    intro n hn
    obtain ⟨label, hlabel⟩ := h n hn
    cases n with
    | stored id => exact ⟨id, rfl⟩
    | binding owner short uri => cases hlabel
  refine ⟨nodes, hnodes.symm, fun id hid => ?_⟩
  obtain ⟨label, hlabel⟩ := h _ (hnodes ▸ List.mem_map_of_mem hid)
  exact ⟨label, Option.some.inj hlabel⟩

theorem IsBare.exists_nodes (h : IsBare c x) : ∃ nodes : List NodeId,
    c.nodes = nodes.map .stored ∧ ∀ id ∈ nodes,
      ((∃ label, (x.entry id).content = .element label) ∧ (x.entry id).children = []) ∧
        x.attributesOf id = [] := by
  obtain ⟨nodes, hnodes, helements⟩ := exists_nodes_of_elements h.element
  refine ⟨nodes, hnodes, fun id hid => ?_⟩
  have hmem : .stored id ∈ c.nodes := hnodes ▸ List.mem_map_of_mem hid
  refine ⟨⟨helements id hid, List.map_eq_nil_iff.1 (h.noChildren _ hmem)⟩, ?_⟩
  rw [attributesOf_eq, List.map_eq_nil_iff.1 (h.noAttributes _ hmem), List.filterMap_nil]

section

variable {d : Document} {copy : Script}

/-- A copy of an element whose names are valid gives elements without attributes and children what
its commands say. -/
theorem run_copy_of_creatable {e : NodeId} {s : State} (he : d.isElement e = true)
    (hattributes : ∀ a ∈ d.attributesOf e, Name.isValid a.name.localPart = true)
    (htrees : ∀ t ∈ d.treesBelow e, t.Every Tree.IsCreatable)
    (hcopy : d.copy (.stored e) = .ok copy) (hs : s.document.Linked) (hne : c.nodes ≠ [])
    (hc : IsBare c s.document) (position : Nat) :
    ∃ y, runFrom position copy c s = (.ok c, { s with document := y }) ∧
      ∀ id, .stored id ∈ c.nodes → (y.entry id).content = (s.document.entry id).content ∧
        y.attributesOf id = Attribute.putAll [] ((d.attributesOf e).map Attribute.plain) ∧
          y.treesBelow id = copiedContent (d.treesBelow e) := by
  have hplain := (copy_element_eq_ok_iff he).1 hcopy
  obtain ⟨nodes, hnodes, hbare⟩ := hc.exists_nodes
  obtain ⟨y, -, hrun, hgains⟩ := adds_contentCommands hattributes
    (fun t ht => adds_commands (htrees t ht)) hs hnodes (fun h => hne (by rw [hnodes, h]; rfl))
    (fun id hid => (hbare id hid).1) copy hplain position s.saved
  refine ⟨y, hrun, fun id hid => ?_⟩
  have hmem : id ∈ nodes := by
    obtain ⟨id', hid', heq⟩ := List.mem_map.1 (hnodes ▸ hid)
    cases heq
    exact hid'
  obtain ⟨⟨⟨_, helement⟩, hchildren⟩, hnone⟩ := hbare id hmem
  have hlt := lt_size_of_element helement
  refine ⟨hgains.content id hlt, ?_, ?_⟩
  · rw [hgains.attributesOf id hlt, hnone, onEach_of_mem hmem]
  · rw [hgains.treesBelow_eq hlt hchildren, onEach_of_mem hmem]

theorem every_isCreatable (hd : d.Linked) (h : d.Holds Content.IsScripted) (n : NodeId) :
    ∀ t ∈ d.treesBelow n, t.Every Tree.IsCreatable :=
  hd.every_treesBelow fun m hm t ht => (isScripted_of_tree? hd h m hm t ht).isCreatable

theorem run_copy_element {e : NodeId} {s : State} (hd : d.Linked)
    (hscripted : d.Holds Content.IsScripted) (he : d.isElement e = true)
    (hcopy : d.copy (.stored e) = .ok copy) (hs : s.document.Linked) (hne : c.nodes ≠ [])
    (hc : IsBare c s.document) (position : Nat) :
    ∃ y, runFrom position copy c s = (.ok c, { s with document := y }) ∧
      ∀ id, .stored id ∈ c.nodes → y.attributesOf id = d.attributesOf e ∧
        Tree.normalContent (y.treesBelow id) = Tree.normalContent (d.treesBelow e) := by
  have hattributes : ∀ a ∈ d.attributesOf e, (Content.attribute a).IsScripted := fun a ha =>
    hscripted.of_mem_attributesOf ha
  obtain ⟨y, hrun, hy⟩ := run_copy_of_creatable he (fun a ha => (hattributes a ha).1)
    (every_isCreatable hd hscripted e) hcopy hs hne hc position
  refine ⟨y, hrun, fun id hid => ?_⟩
  obtain ⟨-, hgiven, hbelow⟩ := hy id hid
  rw [hgiven, hbelow, List.map_congr_left fun a ha => (hattributes a ha).2, List.map_id']
  exact ⟨Attribute.putAll_of_nodup hd.nodup_attributesOf,
    normalContent_copied_treesBelow hd hscripted e⟩

theorem run_copy_document (hd : d.Linked) (hscripted : d.Holds Content.IsScripted)
    (hcopy : d.copy (.stored root) = .ok copy) (position : Nat) :
    ∃ y, runFrom position copy start { document := .empty } = (.ok start, { document := y }) ∧
      Tree.normalContent y.trees = Tree.normalContent d.trees := by
  have hplain := mapM_validate_eq_ok_iff.1 hcopy
  unfold copyCommands at hplain
  simp only [(hd.document_iff root).2 rfl] at hplain
  have hroom := room_empty hd
  have hstart : start.nodes = [root].map .stored := rfl
  obtain ⟨y, -, hrun, hgains⟩ := adds_treeCommands
    (fun t ht => adds_commands (every_isCreatable hd hscripted root t ht))
    Linked.ofEmpty hstart (List.cons_ne_nil _ _)
    (fun p hp => List.mem_singleton.1 hp ▸ hroom) copy hplain position []
  refine ⟨y, hrun, ?_⟩
  rw [trees, hgains.treesBelow_eq Linked.ofEmpty.root_lt rfl,
    onEach_of_mem (List.mem_singleton.2 rfl), ← Tree.copiedContent_eq (hroom.notText rfl)]
  exact normalContent_copied_treesBelow hd hscripted root

end

/-- A copy of an element that scripts have made does not fail when it is executed at elements
without attributes and children, comes back to them, and gives each the same attributes and the
same content, up to blanks and sections; and so does a copy of the document node in the empty
document. -/
theorem run_copy (script : Script) :
    let d := (apply script .empty).2
    (∀ e copy, d.isElement e = true → d.copy (.stored e) = .ok copy →
      ∀ (position : Nat) (c : Cursor Node) (s : State), s.document.Reachable → c.nodes ≠ [] →
        IsBare c s.document →
        ∃ y, runFrom position copy c s = (.ok c, { s with document := y }) ∧
          ∀ id, .stored id ∈ c.nodes → y.attributesOf id = d.attributesOf e ∧
            Tree.normalContent (y.treesBelow id) = Tree.normalContent (d.treesBelow e)) ∧
    ∀ copy, d.copy (.stored root) = .ok copy → ∀ position,
      ∃ y, runFrom position copy start { document := .empty } = (.ok start, { document := y }) ∧
        Tree.normalContent y.trees = Tree.normalContent d.trees := by
  intro d
  have hd : d.Linked := (Reachable.empty.apply script).linked
  have hscripted : d.Holds Content.IsScripted := holds_isScripted script
  constructor
  · intro e copy he hcopy position c s hs hne hc
    exact run_copy_element hd hscripted he hcopy hs.linked hne hc position
  · intro copy hcopy position
    exact run_copy_document hd hscripted hcopy position

/-- An element with an attribute and mixed content, copied to two elements of a document that is
read, and the document around it, copied to the empty document. -/
theorem run_copy_mixed :
    let arg (s : String) (h : Literal.check s.toList = .ok ()) : Arg :=
      ⟨s, Literal.check_eq_ok_iff.1 h⟩
    let content : Script := [.setAttribute (arg "k" rfl) (arg "v" rfl), .addCData (arg "x" rfl),
      .addComment (arg "c" rfl)]
    let all : Script := .addElement (arg "a" rfl) :: (content ++ [.up])
    let d := (apply (.addElement (arg "a" rfl) :: (content ++ [.addCData (arg " " rfl)])) .empty).2
    let c : Cursor Node := ⟨[.stored 3, .stored 2], by decide⟩
    d.copy (.stored 1) = .ok content ∧ d.copy (.stored root) = .ok all ∧
      ∃ x y z, Markup.read? "<r><s/><t/></r>" = some x ∧ IsBare c x ∧
        runFrom 1 content c { document := x } = (.ok c, { document := y }) ∧
        y.attributesOf 3 = d.attributesOf 1 ∧
        Tree.normalContent (y.treesBelow 3) = Tree.normalContent (d.treesBelow 1) ∧
        runFrom 1 all start { document := .empty } = (.ok start, { document := z }) ∧
        Tree.normalContent z.trees = Tree.normalContent d.trees := by
  intro arg content all d c
  have hd : d = ⟨#[{ content := .document, children := [1] },
      { content := .element (.plain "a"), parent? := some 0, children := [3, 4, 5],
        attributes := [2] },
      { content := .attribute { name := .plain "k", value := "v" }, parent? := some 1 },
      { content := .text "x" true, parent? := some 1 },
      { content := .comment "c", parent? := some 1 },
      { content := .text " " true, parent? := some 1 }]⟩ := by decide +kernel
  have hcommands : contentCommands [{ name := .plain "k", value := "v" }]
      [.text "x" true, .comment "c", .text " " true] = content.map Directive.plain := by
    simp [contentCommands, treeCommands, Tree.commands, Tree.isText, Text.isBlank]
    rfl
  have hcontent : d.copy (.stored 1) = .ok content := by
    refine mapM_validate_eq_ok_iff.2 ?_
    rw [hd]
    exact hcommands.symm
  have hall : d.copy (.stored root) = .ok all := by
    refine mapM_validate_eq_ok_iff.2 ?_
    rw [hd]
    show _ = treeCommands [.element (.plain "a") [{ name := .plain "k", value := "v" }]
      [.text "x" true, .comment "c", .text " " true]]
    rw [treeCommands, treeCommands, Tree.commands, hcommands]
    rfl
  obtain ⟨x, hx⟩ := Option.isSome_iff_exists.1
    (by decide +kernel : (Markup.read? "<r><s/><t/></r>").isSome = true)
  have hbare : (Markup.read? "<r><s/><t/></r>").all (fun x => ∀ n ∈ c.nodes,
      (x.content? n).any (·.isElement) = true ∧
        x.attributes n = [] ∧ x.children n = []) = true := by
    decide +kernel
  rw [hx] at hbare
  have hbare := of_decide_eq_true hbare
  have hc : IsBare c x := by
    refine ⟨fun n hn => ?_, fun n hn => (hbare n hn).2.1, fun n hn => (hbare n hn).2.2⟩
    obtain ⟨content, hcontent, helement⟩ := (Option.any_eq_true ..).1 (hbare n hn).1
    cases content with
    | element label => exact ⟨label, hcontent⟩
    | _ => cases helement
  have hcopies := run_copy (.addElement (arg "a" rfl) :: (content ++ [.addCData (arg " " rfl)]))
  obtain ⟨y, hy, hcopied⟩ := hcopies.1 1 content (by decide +kernel) hcontent 1 c { document := x }
    (.read hx) (List.cons_ne_nil _ _) hc
  obtain ⟨z, hz, htrees⟩ := hcopies.2 all hall 1
  obtain ⟨hattributes, hbelow⟩ := hcopied 3 (List.mem_cons_self ..)
  exact ⟨hcontent, hall, x, y, z, hx, hc, hy, hattributes, hbelow, hz, htrees⟩

end Engine

end XmlScript
