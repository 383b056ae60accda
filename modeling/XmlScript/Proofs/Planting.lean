import XmlScript.Proofs.Edit
import XmlScript.Proofs.Reading

/-!
# Documents made of trees

A tree is put below a node one entry at a time, and every entry goes below an element made before
it, the top of the tree apart. So a document stays linked if the node takes the top of the tree
(`Linked.addTree`, by induction on the tree). `Frame` says what is left alone meanwhile: everything
but the one node and what is made below it.
-/

namespace XmlScript

/-- What the topmost node of a tree is. -/
def Tree.content : Tree → Content
  | .element label _ _ => .element label
  | .text s isCData => .text s isCData
  | .comment s => .comment s
  | .instruction target data? => .instruction target data?

namespace Tree

variable (t : Tree)

theorem content_ne_document : t.content ≠ .document := by cases t <;> nofun

theorem isAttribute_content : t.content.isAttribute = false := by cases t <;> rfl

theorem isText_content : t.content.isText = t.isText := by cases t <;> rfl

theorem isElement_content : t.content.isElement = t.isElement := by cases t <;> rfl

end Tree

namespace Document

/-- Of the nodes of the first document only `p` has changed, and that not in what it is. -/
structure Frame (d d' : Document) (p : NodeId) : Prop where
  size_le : d.size ≤ d'.size
  entry : ∀ m < d.size, m ≠ p → d'.entry m = d.entry m
  content : p < d.size → (d'.entry p).content = (d.entry p).content

namespace Frame

variable {d d' d'' : Document} {p q : NodeId}

theorem refl (d : Document) (p : NodeId) : Frame d d p :=
  ⟨Nat.le_refl _, fun _ _ _ => rfl, fun _ => rfl⟩

theorem trans (h : Frame d d' p) (h' : Frame d' d'' p) : Frame d d'' p where
  size_le := Nat.le_trans h.size_le h'.size_le
  entry m hm hne := by
    rw [h'.entry m (Nat.lt_of_lt_of_le hm h.size_le) hne, h.entry m hm hne]
  content hp := by rw [h'.content (Nat.lt_of_lt_of_le hp h.size_le), h.content hp]

/-- What changes below a node that is new changes no other. -/
theorem below (h : Frame d d' p) (h' : Frame d' d'' q) (hq : d.size ≤ q) : Frame d d'' p where
  size_le := Nat.le_trans h.size_le h'.size_le
  entry m hm hne := by
    rw [h'.entry m (Nat.lt_of_lt_of_le hm h.size_le) (Nat.ne_of_lt (Nat.lt_of_lt_of_le hm hq)),
      h.entry m hm hne]
  content hp := by
    rw [h'.entry p (Nat.lt_of_lt_of_le hp h.size_le) (Nat.ne_of_lt (Nat.lt_of_lt_of_le hp hq)),
      h.content hp]

/-- No node of the first document has changed in what it is. -/
theorem content_eq (h : Frame d d' p) {m : NodeId} (hm : m < d.size) :
    (d'.entry m).content = (d.entry m).content := by
  by_cases hp : m = p
  · subst hp
    exact h.content hm
  · rw [h.entry m hm hp]

theorem appendChild (hp : p < d.size) (c : Content) : Frame d (d.appendChild p c) p where
  size_le := by rw [size_appendChild]; exact Nat.le_succ _
  entry m hm hne := by rw [entry_appendChild hp, if_neg (Nat.ne_of_lt hm), if_neg hne]
  content _ := by rw [entry_appendChild hp, if_neg (Nat.ne_of_lt hp), if_pos rfl]

theorem appendAttribute (hp : p < d.size) (a : Attribute) : Frame d (d.appendAttribute p a) p where
  size_le := by rw [size_appendAttribute]; exact Nat.le_succ _
  entry m hm hne := by rw [entry_appendAttribute hp, if_neg (Nat.ne_of_lt hm), if_neg hne]
  content _ := by rw [entry_appendAttribute hp, if_neg (Nat.ne_of_lt hp), if_pos rfl]

end Frame

/-- A child of the given content, with what is below it, has been put below `p`. -/
structure Planted (d d' : Document) (p : NodeId) (c : Content) : Prop extends Frame d d' p where
  mem_children : ∀ n ∈ (d'.entry p).children,
    n ∈ (d.entry p).children ∨ (d'.entry n).content = c

theorem Planted.appendChild {d : Document} {p : NodeId} {c : Content} (hp : p < d.size)
    (hc : c.isAttribute = false) : Planted d (d.appendChild p c) p c where
  toFrame := Frame.appendChild hp c
  mem_children n hn := by
    have hgrown := grown_appendChild hp hc
    rcases (hgrown.mem_children n p).1 hn with hold | ⟨rfl, -, -⟩
    · exact Or.inl hold
    · exact Or.inr (by rw [hgrown.content, if_pos rfl])

/-- What changes below the new child changes nothing about where it was put. -/
theorem Planted.below {d d' d'' : Document} {p : NodeId} {c : Content} (h : Planted d d' p c)
    (hp : p < d.size) (hd : d'.Linked) (h' : Frame d' d'' d.size) : Planted d d'' p c where
  toFrame := h.toFrame.below h' (Nat.le_refl _)
  mem_children n hn := by
    rw [h'.entry p (Nat.lt_of_lt_of_le hp h.size_le) (Nat.ne_of_lt hp)] at hn
    rcases h.mem_children n hn with hold | hc
    · exact Or.inl hold
    · rw [h'.content_eq (hd.lt_of_mem_children hn)]
      exact Or.inr hc

/-- A node takes some trees, one after the other. -/
inductive TakesAll : Document → NodeId → List Tree → Prop
  | nil (d : Document) (p : NodeId) : TakesAll d p []
  | cons {d : Document} {p : NodeId} {t : Tree} {rest : List Tree} (ht : t.WellNamed)
    (hp : Takes d p t.content) (h : TakesAll (d.addTree p t) p rest) : TakesAll d p (t :: rest)

namespace Linked

variable {d : Document} {p : NodeId}

/-- Attributes with names of their own are given to a node that has none of these. -/
theorem appendAttributes {attributes : List Attribute} (h : d.Linked) (hp : p < d.size)
    (hn : (attributes.map (·.name)).Nodup)
    (hnew : ∀ a ∈ attributes, ∀ n ∈ (d.entry p).attributes,
      (d.entry n).content.name? ≠ some a.name) :
    (attributes.foldl (·.appendAttribute p) d).Linked ∧
      Frame d (attributes.foldl (·.appendAttribute p) d) p := by
  induction attributes generalizing d with
  | nil => exact ⟨h, Frame.refl d p⟩
  | cons a rest ih =>
    rw [List.map_cons, List.nodup_cons] at hn
    have hframe := Frame.appendAttribute hp a
    have hgrown := grown_appendAttribute (a := a) hp
    have htakes : Takes d p (.attribute a) :=
      ⟨hp, nofun, fun _ => rfl, nofun, fun _ => hnew a (List.mem_cons_self ..)⟩
    have hlinked : (d.appendAttribute p a).Linked := h.grow htakes hgrown
    -- the other new names are neither among the old ones nor that of `a`
    have hfresh : ∀ b ∈ rest, ∀ n ∈ ((d.appendAttribute p a).entry p).attributes,
        ((d.appendAttribute p a).entry n).content.name? ≠ some b.name := by
      intro b hb n hmem
      rcases (hgrown.mem_attributes n p).1 hmem with hold | ⟨rfl, -, -⟩
      · rw [hframe.content_eq (h.lt_of_mem_attributes hold)]
        exact hnew b (List.mem_cons_of_mem _ hb) n hold
      · rw [hgrown.content, if_pos rfl]
        intro hname
        exact hn.1 (Option.some.inj hname ▸ List.mem_map_of_mem hb)
    obtain ⟨hl, hf⟩ := ih hlinked (Nat.lt_of_lt_of_le hp hframe.size_le) hn.2 hfresh
    exact ⟨hl, hframe.trans hf⟩

/-- Trees are put below an element, which takes every tree. -/
theorem addTrees_of_element {trees : List Tree} {label : Label} (h : d.Linked)
    (hp : (d.entry p).content = .element label)
    (ih : ∀ t ∈ trees, ∀ {d : Document} {p : NodeId}, d.Linked → Takes d p t.content →
      (d.addTree p t).Linked ∧ Planted d (d.addTree p t) p t.content) :
    (d.addTrees p trees).Linked ∧ Frame d (d.addTrees p trees) p := by
  induction trees generalizing d with
  | nil => exact ⟨h, Frame.refl d p⟩
  | cons t rest ihr =>
    have ht : Takes d p t.content :=
      h.takes_of_element hp t.content_ne_document t.isAttribute_content
    obtain ⟨hl, hf⟩ := ih t (List.mem_cons_self ..) h ht
    have hp' : ((d.addTree p t).entry p).content = .element label := by
      rw [hf.content_eq ht.lt, hp]
    obtain ⟨hl', hf'⟩ := ihr hl hp' fun u hu => ih u (List.mem_cons_of_mem _ hu)
    exact ⟨hl', hf.toFrame.trans hf'⟩

/-- A tree is put below a node that takes the top of it. -/
theorem addTree {t : Tree} (ht : t.WellNamed) (h : d.Linked) (hp : Takes d p t.content) :
    (d.addTree p t).Linked ∧ Planted d (d.addTree p t) p t.content := by
  induction ht generalizing d p with
  | @element label attributes children hn hc ih =>
    have hmade : (d.appendChild p (.element label)).Linked := h.appendChild hp rfl
    have hsize : d.size < (d.appendChild p (.element label)).size := by
      rw [size_appendChild]
      exact Nat.lt_succ_self _
    have hentry : (d.appendChild p (.element label)).entry d.size =
        { content := .element label, parent? := some p } := by
      rw [entry_appendChild hp.lt, if_pos rfl]
    -- the new element has no attributes yet, so there is no namesake to look out for
    obtain ⟨hattr, hfattr⟩ := hmade.appendAttributes hsize hn fun a _ n hmem => by
      rw [hentry] at hmem
      cases hmem
    have hlabel : ((attributes.foldl (·.appendAttribute d.size)
        (d.appendChild p (.element label))).entry d.size).content = .element label := by
      rw [hfattr.content_eq hsize, hentry]
    obtain ⟨hl, hf⟩ := hattr.addTrees_of_element hlabel fun t ht => ih t ht
    exact ⟨hl, (Planted.appendChild hp.lt rfl).below hp.lt hmade (hfattr.trans hf)⟩
  | text s isCData => exact ⟨h.appendChild hp rfl, Planted.appendChild hp.lt rfl⟩
  | comment s => exact ⟨h.appendChild hp rfl, Planted.appendChild hp.lt rfl⟩
  | instruction target data? => exact ⟨h.appendChild hp rfl, Planted.appendChild hp.lt rfl⟩

theorem addTrees {trees : List Tree} (h : d.Linked) (ht : TakesAll d p trees) :
    (d.addTrees p trees).Linked := by
  induction ht with
  | nil => exact h
  | cons ht hp _ ih => exact ih (h.addTree ht hp).1

theorem takesAll_of_element {trees : List Tree} {label : Label} (h : d.Linked)
    (hp : (d.entry p).content = .element label) (ht : ∀ t ∈ trees, t.WellNamed) :
    TakesAll d p trees := by
  induction trees generalizing d with
  | nil => exact .nil d p
  | cons t rest ih =>
    rw [List.forall_mem_cons] at ht
    have htakes : Takes d p t.content :=
      h.takes_of_element hp t.content_ne_document t.isAttribute_content
    obtain ⟨hl, hf⟩ := h.addTree ht.1 htakes
    exact .cons ht.1 htakes (ih hl (by rw [hf.content_eq htakes.lt, hp]) ht.2)

/-- The document node takes trees that are no text, as long as there is one element in all. -/
theorem takesAll_root {trees : List Tree} (h : d.Linked)
    (ht : ∀ t ∈ trees, t.WellNamed ∧ t.isText = false)
    (hone : trees.countP Tree.isElement ≤ 1)
    (hfirst : trees.countP Tree.isElement = 1 →
      ∀ n ∈ (d.entry root).children, (d.entry n).content.isElement = false) :
    TakesAll d root trees := by
  induction trees generalizing d with
  | nil => exact .nil d root
  | cons t rest ih =>
    obtain ⟨hnamed, htext⟩ := ht t (List.mem_cons_self ..)
    rw [List.countP_cons] at hone hfirst
    have htakes : Takes d root t.content := by
      refine ⟨h.root_lt, t.content_ne_document, fun _ => ?_, fun _ he => ?_, fun ha => ?_⟩
      · rw [t.isText_content, htext]
      · rw [t.isElement_content] at he
        rw [if_pos he] at hone hfirst
        exact hfirst (by omega)
      · rw [t.isAttribute_content] at ha
        cases ha
    obtain ⟨hl, hf⟩ := addTree hnamed h htakes
    refine .cons hnamed htakes (ih hl (fun u hu => ht u (List.mem_cons_of_mem _ hu)) (by omega) ?_)
    intro hrest n hn
    -- an element is still to come, so this tree was none and no child so far is one
    have he : t.isElement = false := by
      cases he : t.isElement with
      | false => rfl
      | true =>
        rw [if_pos he] at hone
        omega
    rcases hf.mem_children n hn with hold | hc
    · rw [hf.content_eq (h.lt_of_mem_children hold)]
      refine hfirst ?_ n hold
      rw [he, hrest]
      rfl
    · rw [hc, t.isElement_content, he]

end Linked

/-- The empty document takes the trees of a text that is read. -/
theorem TakesAll.of_readTrees? {s : List Char} {trees : List Tree}
    (h : Markup.readTrees? s = some trees) : TakesAll empty root trees := by
  obtain ⟨ht, hone⟩ := Markup.readTrees?_cases h
  refine Linked.ofEmpty.takesAll_root ht (Nat.le_of_eq hone) fun _ n hn => ?_
  rw [Linked.entry_empty, if_pos rfl] at hn
  cases hn

/-- A document that is read is linked. -/
theorem linked_read? {text : String} {d : Document} (h : Markup.read? text = some d) : d.Linked := by
  obtain ⟨trees, htrees, rfl⟩ := Option.map_eq_some_iff.1 h
  exact Linked.ofEmpty.addTrees (.of_readTrees? htrees)

end Document

end XmlScript
