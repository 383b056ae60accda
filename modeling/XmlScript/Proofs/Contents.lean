import XmlScript.Proofs.Attributes
import XmlScript.Proofs.Execution
import XmlScript.Proofs.Growth

/-!
# What the nodes of a document are

A property of single nodes that what scripts make has (`Makeable`) is kept by every directive
(`keeps_holds`), whatever becomes of the links between the nodes. Then it holds of the nodes of
every tree that the document shows (`Linked.every_tree?`, `Linked.every_has`), as a document that is
made of trees has it from them (`Holds.addTrees`).
-/

namespace XmlScript

/-- Every node of a tree, taken with what is below it, has a property. -/
inductive Tree.Every (P : Tree → Prop) : Tree → Prop
  | element {label : Label} {attributes : List Attribute} {children : List Tree}
    (h : P (.element label attributes children)) (hc : ∀ t ∈ children, Every P t) :
    Every P (.element label attributes children)
  | text {s : String} {isCData : Bool} (h : P (.text s isCData)) : Every P (.text s isCData)
  | comment {s : String} (h : P (.comment s)) : Every P (.comment s)
  | instruction {target : String} {data? : Option String} (h : P (.instruction target data?)) :
    Every P (.instruction target data?)

namespace Tree

theorem every_element_iff {P : Tree → Prop} {label : Label} {attributes : List Attribute}
    {children : List Tree} : (element label attributes children).Every P ↔
      P (.element label attributes children) ∧ ∀ t ∈ children, t.Every P := by
  constructor
  · intro h
    cases h with
    | element h hc => exact ⟨h, hc⟩
  · intro h
    exact .element h.1 h.2

namespace Every

variable {P Q R : Tree → Prop} {t : Tree}

theorem self (h : t.Every P) : P t := by
  cases h with
  | element h | text h | comment h | instruction h => exact h

theorem of_leaf (ht : t.isElement = false) (h : P t) : t.Every P := by
  cases t with
  | element label attributes children => cases ht
  | text s isCData => exact .text h
  | comment s => exact .comment h
  | instruction target data? => exact .instruction h

/-- Two properties of every node give a third. -/
theorem both (h : t.Every P) (h' : t.Every Q) (hR : ∀ t, P t → Q t → R t) : t.Every R := by
  induction h with
  | element hP _ ih =>
    obtain ⟨hQ, hc⟩ := every_element_iff.1 h'
    exact .element (hR _ hP hQ) fun t ht => ih t ht (hc t ht)
  | text hP => exact .text (hR _ hP h'.self)
  | comment hP => exact .comment (hR _ hP h'.self)
  | instruction hP => exact .instruction (hR _ hP h'.self)

end Every

end Tree

/-- The attributes of the topmost node of a tree. -/
def Tree.attributes : Tree → List Attribute
  | .element _ attributes _ => attributes
  | .text _ _ | .comment _ | .instruction _ _ => []

/-- The topmost node of a tree has a property, and so have its attributes. -/
structure Tree.Has (Q : Content → Prop) (t : Tree) : Prop where
  content : Q t.content
  attributes : ∀ a ∈ t.attributes, Q (.attribute a)

/-- Only elements have attributes. -/
theorem Tree.Has.of_leaf {Q : Content → Prop} {t : Tree} (ht : t.isElement = false)
    (h : Q t.content) : t.Has Q where
  content := h
  attributes a ha := by
    cases t with
    | element label attributes children => cases ht
    | text _ _ | comment _ | instruction _ _ => cases ha

namespace Document

variable {Q : Content → Prop} {d d' : Document} {n p : Nat}

/-- Every node of a document has a property. -/
def Holds (Q : Content → Prop) (d : Document) : Prop := ∀ n, Q (d.entry n).content

/-- A property that no script can break, comments and instructions apart: it allows for all names
that scripts may give and for every text, in an attribute whatever its name. -/
structure Makeable (Q : Content → Prop) : Prop where
  absent : Q (.comment "")
  newElement : ∀ {name : String}, Name.isValid name = true → Q (.element (.plain name))
  newAttribute : ∀ {name value : String}, Name.isValid name = true →
    Q (.attribute { name := .plain name, value })
  newValue : ∀ {a : Attribute} {value : String}, Q (.attribute a) →
    Q (.attribute { name := a.name, value })
  newText : ∀ {s : String} {isCData : Bool}, Q (.text s isCData)

/-! ## Single changes -/

namespace Holds

/-- What the nodes of a document are, every number beyond them is to be as well. -/
theorem of_lt (habsent : Q (.comment "")) (h : ∀ n < d.size, Q (d.entry n).content) :
    d.Holds Q := by
  intro n
  by_cases hn : n < d.size
  · exact h n hn
  · rw [entry_of_size_le (Nat.le_of_not_lt hn)]
    exact habsent

/-- The empty document has the document node and no other. -/
theorem empty (habsent : Q (.comment "")) (hroot : Q .document) : Document.empty.Holds Q :=
  of_lt habsent fun n hn => by
    rw [Nat.lt_one_iff.1 hn]
    exact hroot

/-- A change that leaves the nodes what they are. -/
theorem congr (h : d.Holds Q) (he : ∀ n, (d'.entry n).content = (d.entry n).content) :
    d'.Holds Q := by
  intro n
  rw [he]
  exact h n

theorem modify (h : d.Holds Q) {f : Entry → Entry} (hf : ∀ e, (f e).content = e.content) :
    (d.modify n f).Holds Q := by
  refine h.congr fun m => ?_
  rw [entry_modify]
  split
  next hm => rw [hf, hm.1]
  next => rfl

theorem create (h : d.Holds Q) {e : Entry} (he : Q e.content) : (d.create e).Holds Q := by
  intro m
  rw [entry_create]
  split
  next => exact he
  next => exact h m

theorem appendChild (h : d.Holds Q) {c : Content} (hc : Q c) : (d.appendChild p c).Holds Q :=
  (h.create hc).modify fun _ => rfl

theorem putAttribute (h : d.Holds Q) {a : Attribute} (ha : Q (.attribute a)) :
    (d.putAttribute p a).Holds Q := by
  unfold Document.putAttribute appendAttribute
  refine Holds.modify (Holds.create (h.modify ?_) ha) ?_
  · exact fun _ => rfl
  · exact fun _ => rfl

theorem detach (h : d.Holds Q) : (d.detach p n).Holds Q := h.congr fun _ => by rw [entry_detach]

theorem clearChildren (h : d.Holds Q) : (d.clearChildren n).Holds Q :=
  h.congr fun _ => by rw [entry_clearChildren]

theorem dropAttribute (h : d.Holds Q) {name : ExpandedName} : (d.dropAttribute p name).Holds Q :=
  h.congr fun _ => by rw [entry_dropAttribute]

theorem retext (h : d.Holds Q) {c : Content} (hc : Q c) :
    (d.modify n fun e => { e with content := c }).Holds Q := by
  intro m
  rw [entry_modify]
  split
  next => exact hc
  next => exact h m

end Holds

/-! ## Edits -/

namespace Makeable

variable (hQ : Makeable Q) {n : Node}

include hQ

theorem addElement {name : String} {made : Node} (he : d.addElement name n = .ok (made, d'))
    (h : d.Holds Q) : d'.Holds Q := by
  have hname := (withName_eq_ok_iff.1 he).1
  obtain ⟨p, -, -, rfl, -⟩ := addElement_cases he
  exact h.appendChild (hQ.newElement hname)

theorem setText {text : String} (he : d.setText text n = .ok d') (h : d.Holds Q) :
    d'.Holds Q := by
  obtain ⟨id, -, ⟨_, -, rfl⟩ | ⟨_, _, -, rfl⟩ | ⟨a, _, ha, -, rfl⟩⟩ := setText_cases he
  · exact h.clearChildren.appendChild hQ.newText
  · exact h.retext hQ.newText
  · refine h.putAttribute (hQ.newValue ?_)
    rw [← ha]
    exact h id

theorem setAttribute {name value : String} (he : d.setAttribute name value n = .ok d')
    (h : d.Holds Q) : d'.Holds Q := by
  have hname := (withName_eq_ok_iff.1 he).1
  obtain ⟨id, _, -, -, rfl⟩ := setAttribute_cases he
  exact h.putAttribute (hQ.newAttribute hname)

theorem addCData {text : String} (he : d.addCData text n = .ok d') (h : d.Holds Q) :
    d'.Holds Q := by
  obtain ⟨p, _, -, -, rfl⟩ := addCData_cases he
  exact h.appendChild hQ.newText

end Makeable

theorem Holds.remove {n : Node} (he : d.remove n = .ok d') (h : d.Holds Q) : d'.Holds Q := by
  obtain ⟨id, p, -, -, ⟨_, -, rfl⟩ | ⟨-, rfl⟩⟩ := remove_cases he
  · exact h.dropAttribute
  · exact h.detach

theorem Holds.addComment {text : String} {n : Node} (hQ : Q (.comment text))
    (he : d.addComment text n = .ok d') (h : d.Holds Q) : d'.Holds Q := by
  obtain ⟨p, -, -, rfl⟩ := addComment_cases he
  exact h.appendChild hQ

theorem Holds.addInstruction {target data : String} {n : Node}
    (hQ : Name.isValid target = true → Q (instructionContent target data))
    (he : d.addInstruction target data n = .ok d') (h : d.Holds Q) : d'.Holds Q := by
  have hname := (withName_eq_ok_iff.1 he).1
  obtain ⟨p, -, -, rfl⟩ := addInstruction_cases he
  exact h.appendChild (hQ hname)

theorem Holds.insertInstruction {target data : String}
    (hQ : Name.isValid target = true → Q (instructionContent target data))
    (he : d.insertInstruction target data = .ok d') (h : d.Holds Q) : d'.Holds Q := by
  have hname := (withName_eq_ok_iff.1 he).1
  rw [insertInstruction_cases he]
  exact (h.create (hQ hname)).modify fun _ => rfl

/-- Where comments and the instructions that scripts make have a property anyway, no edit breaks
it. -/
theorem Makeable.keptByEdits (hQ : Makeable Q) (hcomment : ∀ s, Q (.comment s))
    (hinstruction : ∀ {target data}, Name.isValid target = true →
      Q (instructionContent target data)) : KeptByEdits (Holds Q) where
  addElement he h := hQ.addElement he h
  remove he h := h.remove he
  setText he h := hQ.setText he h
  setAttribute he h := hQ.setAttribute he h
  addComment he h := h.addComment (hcomment _) he
  addCData he h := hQ.addCData he h
  addInstruction he h := h.addInstruction hinstruction he
  insertInstruction he h := h.insertInstruction hinstruction he

end Document

namespace Engine

open Document

/-- What scripts may make keeps a property, if comments and instructions are taken care of. -/
theorem keeps_holds {Q : Content → Prop} (hQ : Makeable Q) (directive : Directive)
    (hcomment : ∀ text, directive = .addComment text → Q (.comment text.raw))
    (hinstruction : ∀ target data, directive = .addInstruction target data →
      Name.isValid target.raw = true → Q (instructionContent target.raw data.raw)) :
    Keeps (Holds Q) directive :=
  .of_each hQ.addElement Holds.remove hQ.setText hQ.setAttribute hQ.addCData
    (fun hd => Holds.addComment (hcomment _ hd))
    (fun hd => Holds.addInstruction (hinstruction _ _ hd))
    (fun hd => Holds.insertInstruction (hinstruction _ _ hd))

end Engine

/-! ## The trees of a document -/

namespace Document

variable {Q : Content → Prop} {d : Document} {n : Nat}

theorem Holds.of_mem_attributesOf (h : d.Holds Q) {a : Attribute} (ha : a ∈ d.attributesOf n) :
    Q (.attribute a) := by
  rw [attributesOf_eq] at ha
  obtain ⟨id, -, hid⟩ := List.mem_filterMap.1 ha
  rw [← attributeAt?_eq_some_iff.1 hid]
  exact h id

/-- What every node of a linked document shows as, has a property at each node of it. -/
theorem Linked.every_tree? (h : d.Linked) {P : Tree → Prop}
    (hP : ∀ n < d.size, ∀ t, d.tree? d.size n = some t → P t) {t : Tree} (hn : n < d.size)
    (ht : d.tree? d.size n = some t) : t.Every P := by
  -- by induction on how many numbers are left above
  obtain ⟨k, hk⟩ : ∃ k, d.size ≤ n + k := ⟨d.size, Nat.le_add_left ..⟩
  induction k generalizing n t with
  | zero => exact absurd hn (Nat.not_lt.2 hk)
  | succ k ih =>
    have hPt := hP n hn t ht
    rw [h.tree?_eq hn] at ht
    split at ht
    next label _ =>
      cases ht
      refine .element hPt fun u hu => ?_
      obtain ⟨c, hc, hu⟩ := List.mem_filterMap.1 hu
      have hlt := h.lt_child hc
      exact ih (h.lt_of_mem_children hc) hu (by omega)
    next =>
      cases ht
      exact .text hPt
    next =>
      cases ht
      exact .comment hPt
    next =>
      cases ht
      exact .instruction hPt
    next => cases ht
    next => cases ht

theorem Linked.every_treesBelow (h : d.Linked) {P : Tree → Prop}
    (hP : ∀ n < d.size, ∀ t, d.tree? d.size n = some t → P t) :
    ∀ t ∈ d.treesBelow n, t.Every P := by
  intro t ht
  obtain ⟨c, hc, ht⟩ := List.mem_filterMap.1 ht
  exact h.every_tree? hP (h.lt_of_mem_children hc) ht

/-- Trees show what the nodes are. -/
theorem Linked.every_has (h : d.Linked) (hQ : d.Holds Q) :
    ∀ t ∈ d.treesBelow n, t.Every (Tree.Has Q) := by
  refine h.every_treesBelow fun m hm t ht => ⟨?_, ?_⟩
  · rw [← content_of_tree? ht]
    exact hQ m
  · rw [h.tree?_eq hm] at ht
    intro a ha
    split at ht
    next =>
      cases ht
      exact hQ.of_mem_attributesOf ha
    next => cases ht; cases ha
    next => cases ht; cases ha
    next => cases ht; cases ha
    next => cases ht
    next => cases ht

/-- There is no text beside the document element. -/
theorem Linked.isText_of_mem_trees (h : d.Linked) : ∀ t ∈ d.trees, t.isText = false := by
  intro t ht
  obtain ⟨n, hn, ht⟩ := List.mem_filterMap.1 ht
  rw [← t.isText_content, ← content_of_tree? ht]
  exact h.top_text hn

/-! ## Documents made of trees -/

/-- What is kept when one tree is added is kept when they all are. -/
theorem addTrees_keeps {R : Document → Prop} {p : NodeId} {trees : List Tree} (h : R d)
    (ht : ∀ t ∈ trees, ∀ {d : Document}, R d → R (d.addTree p t)) : R (d.addTrees p trees) := by
  induction trees generalizing d with
  | nil =>
    rw [addTrees]
    exact h
  | cons t rest ih =>
    rw [addTrees]
    rw [List.forall_mem_cons] at ht
    exact ih (ht.1 h) ht.2

namespace Holds

theorem appendAttribute (h : d.Holds Q) {a : Attribute} (ha : Q (.attribute a)) :
    (d.appendAttribute p a).Holds Q :=
  (h.create ha).modify fun _ => rfl

theorem appendAttributes {attributes : List Attribute} (h : d.Holds Q)
    (ha : ∀ a ∈ attributes, Q (.attribute a)) :
    (attributes.foldl (·.appendAttribute p) d).Holds Q := by
  induction attributes generalizing d with
  | nil => exact h
  | cons a rest ih =>
    exact ih (h.appendAttribute (ha a (List.mem_cons_self ..)))
      fun b hb => ha b (List.mem_cons_of_mem _ hb)

theorem addTree {t : Tree} (ht : t.Every (Tree.Has Q)) (h : d.Holds Q) :
    (d.addTree p t).Holds Q := by
  induction ht generalizing d p with
  | @element label attributes children ht _ ih =>
    rw [Document.addTree]
    exact addTrees_keeps ((h.appendChild ht.content).appendAttributes ht.attributes)
      fun t hmem _ h => ih t hmem h
  | text ht | comment ht | instruction ht =>
    rw [Document.addTree]
    exact h.appendChild ht.content

theorem addTrees {trees : List Tree} (ht : ∀ t ∈ trees, t.Every (Tree.Has Q)) (h : d.Holds Q) :
    (d.addTrees p trees).Holds Q :=
  addTrees_keeps h fun t hmem _ h => h.addTree (ht t hmem)

end Holds

end Document

end XmlScript
