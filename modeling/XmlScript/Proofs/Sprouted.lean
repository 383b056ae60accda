import XmlScript.Proofs.Accepted
import XmlScript.Proofs.Copy
import XmlScript.Proofs.Prolog

/-!
# Documents with more leaves

An instruction is put at the end of every current node, or before the document element if there is
none. To what is written this is the same: the children that were there are there in their order,
and among them is one leaf (`Sprouted`). So no element comes or goes (`Sprouted.elements_eq`), and
the trees are those that were there with this leaf among them (`Sprouted.extended`).
-/

namespace XmlScript

namespace Markup

variable {x : Tree} {trees trees' rest rest' : List Tree}

theorem Extended.append (h : Extended x trees trees') (h' : Extended x rest rest') :
    Extended x (trees ++ rest) (trees' ++ rest') := by
  induction h with
  | nil => exact h'
  | leaf ht _ ih => exact .leaf ht ih
  | element hc _ _ ih => exact .element hc ih
  | insert _ ih => exact .insert ih

theorem Extended.filterMap {α : Type} {f f' : α → Option Tree} {l : List α}
    (h : ∀ a ∈ l, Extended x (f a).toList (f' a).toList) :
    Extended x (l.filterMap f) (l.filterMap f') := by
  induction l with
  | nil => exact .nil
  | cons a l ih =>
    rw [List.forall_mem_cons] at h
    have hboth := h.1.append (ih h.2)
    simp only [List.filterMap_eq_flatMap_toList, List.flatMap_cons] at hboth ⊢
    exact hboth

end Markup

open Markup

namespace Document

variable {d d' : Document} {x : Tree} {n : NodeId}

/-- A node has a leaf among its children, and otherwise those that it had. -/
structure Sprout (x : Tree) (d d' : Document) (n : NodeId) (above below : List NodeId)
    (new : NodeId) : Prop where
  before : (d.entry n).children = above ++ below
  after : (d'.entry n).children = above ++ new :: below
  size_le : d.size ≤ new
  content : (d'.entry new).content = x.content

/-- Leaves have been put among the children of some nodes, and nothing else has changed of the nodes
that were there. -/
structure Sprouted (x : Tree) (d d' : Document) : Prop where
  size_le : d.size ≤ d'.size
  content : ∀ n < d.size, (d'.entry n).content = (d.entry n).content
  attributesOf : ∀ n < d.size, d'.attributesOf n = d.attributesOf n
  children : ∀ n < d.size, (d'.entry n).children = (d.entry n).children ∨
    ∃ above below new, Sprout x d d' n above below new

namespace Sprouted

variable (h : Sprouted x d d') (hd : d.Linked)

include h hd

theorem filter_children (hn : n < d.size) :
    (d'.entry n).children.filter (· < d.size) = (d.entry n).children := by
  have hold {l : List NodeId} (hl : l ⊆ (d.entry n).children) : l.filter (· < d.size) = l :=
    List.filter_eq_self.2 fun c hc => decide_eq_true (hd.lt_of_mem_children (hl hc))
  rcases h.children n hn with hsame | ⟨above, below, new, hsprout⟩
  · rw [hsame, hold (List.Subset.refl _)]
  · have hbefore := hsprout.before
    have hnew : decide (new < d.size) = false := decide_eq_false (Nat.not_lt.2 hsprout.size_le)
    rw [hsprout.after, List.filter_append, List.filter_cons, hnew,
      hold (hbefore ▸ List.subset_append_left ..), hold (hbefore ▸ List.subset_append_right ..),
      hbefore]
    rfl

theorem content_of_size_le (hn : n < d.size) {c : NodeId} (hc : c ∈ (d'.entry n).children)
    (hge : d.size ≤ c) : (d'.entry c).content = x.content := by
  have hnew : c ∉ (d.entry n).children := fun hc => Nat.not_lt.2 hge (hd.lt_of_mem_children hc)
  rcases h.children n hn with hsame | ⟨above, below, new, hsprout⟩
  · exact absurd (hsame ▸ hc) hnew
  · rw [hsprout.before, List.mem_append, not_or] at hnew
    rw [hsprout.after, List.mem_append, List.mem_cons] at hc
    rcases hc with hc | rfl | hc
    · exact absurd hc hnew.1
    · exact hsprout.content
    · exact absurd hc hnew.2

variable (hx : x.isElement = false) (hd' : d'.Linked)

include hx hd'

/-- A leaf is no element, and nothing is below it. -/
theorem elements_eq (hh' : d'.Housed) : d'.elements = d.elements := by
  refine hd.elements_congr hd' (fun m hm => ?_) (fun m hm => h.filter_children hd hm)
    (fun m hm c hc hge => ?_) hd.root_lt (Nat.le_add_left ..) (Nat.le_add_left_of_le h.size_le)
  · rw [isElement_eq, isElement_eq, h.content m hm]
  · have hcontent := h.content_of_size_le hd hm hc hge
    have hnone : d'.isElement c = false := by
      rw [isElement_eq, hcontent, x.isElement_content, hx]
    refine ⟨hnone, hd'.children_eq_nil hh' ?_⟩
    rintro (hdocument | helement)
    · exact x.content_ne_document (hcontent.symm.trans hdocument)
    · rw [isElement_iff.2 helement] at hnone
      cases hnone

/-- The trees below a node have leaves among them. -/
theorem extended_treesBelow (bound : Nat) {n : Nat} (hn : n < d.size) (hb : d.size ≤ n + bound) :
    Extended x (d.treesBelow n) (d'.treesBelow n) := by
  induction bound generalizing n with
  | zero => omega
  | succ bound ih =>
    have hold {l : List NodeId} (hl : l ⊆ (d.entry n).children) :
        Extended x (l.filterMap (d.tree? d.size)) (l.filterMap (d'.tree? d'.size)) := by
      refine .filterMap fun (c : Nat) hc => ?_
      have hnc := hd.lt_child (hl hc)
      have hlt := hd.lt_of_mem_children (hl hc)
      rw [hd.tree?_eq hlt, hd'.tree?_eq (Nat.lt_of_lt_of_le hlt h.size_le), h.content c hlt,
        h.attributesOf c hlt]
      split
      next => exact .element (ih hlt (by omega)) .nil
      next => exact .leaf rfl .nil
      next => exact .leaf rfl .nil
      next => exact .leaf rfl .nil
      next => exact .nil
      next => exact .nil
    unfold treesBelow
    rcases h.children n hn with hsame | ⟨above, below, new, hsprout⟩
    · rw [hsame]
      exact hold (List.Subset.refl _)
    · have hbefore := hsprout.before
      have hlt : new < d'.size := hd'.lt_of_mem_children (p := n)
        (hsprout.after ▸ List.mem_append_right _ (List.mem_cons_self ..))
      have htree : d'.tree? d'.size new = some x := by
        rw [hd'.tree?_eq hlt, hsprout.content]
        cases x with
        | element => cases hx
        | text | comment | instruction => rfl
      rw [hsprout.after, hbefore, List.filterMap_append, List.filterMap_append,
        List.filterMap_cons_some htree]
      exact (hold (hbefore ▸ List.subset_append_left ..)).append
        (.insert (hold (hbefore ▸ List.subset_append_right ..)))

/-- The trees of a document have leaves among them. -/
theorem extended : Extended x d.trees d'.trees :=
  h.extended_treesBelow hd hx hd' d.size hd.root_lt (Nat.le_add_left ..)

end Sprouted

/-! ## Marks -/

/-- The marks in a node with one more at the end of each of some nodes, or, if there are none of
these, before the first element of the document node. -/
def marksWith (d : Document) (mark : Mark) (nodes : List Node) (n : NodeId) : List Mark :=
  if .stored n ∈ nodes then d.marksIn n ++ [mark]
  else if nodes = [] ∧ n = root then
    (d.marksIn n).takeWhile (· ≠ .element) ++ mark :: (d.marksIn n).dropWhile (· ≠ .element)
  else d.marksIn n

theorem not_isElement_eq (d : Document) (n : NodeId) :
    (!d.isElement n) = (d.markAt? n).all (· ≠ .element) := by
  rw [isElement_eq, markAt?]
  cases (d.entry n).content <;> rfl

/-- The marks before the first element are those of the children before it. -/
theorem takeWhile_marks (d : Document) (l : List NodeId) :
    (l.filterMap d.markAt?).takeWhile (· ≠ .element) =
        (l.takeWhile (!d.isElement ·)).filterMap d.markAt? ∧
      (l.filterMap d.markAt?).dropWhile (· ≠ .element) =
        (l.dropWhile (!d.isElement ·)).filterMap d.markAt? := by
  induction l with
  | nil => exact ⟨rfl, rfl⟩
  | cons a l ih =>
    obtain ⟨htake, hdrop⟩ := ih
    have ha := d.not_isElement_eq a
    rw [List.takeWhile_cons, List.dropWhile_cons]
    cases hmark : d.markAt? a with
    | none =>
      rw [hmark, Option.all_none] at ha
      rw [ha, List.filterMap_cons_none hmark]
      exact ⟨htake.trans (List.filterMap_cons_none hmark).symm, hdrop⟩
    | some mark =>
      rw [hmark, Option.all_some] at ha
      rw [ha, List.filterMap_cons_some hmark, List.takeWhile_cons, List.dropWhile_cons]
      split
      next => exact ⟨by rw [htake, List.filterMap_cons_some hmark], hdrop⟩
      next => exact ⟨rfl, (List.filterMap_cons_some hmark).symm⟩

namespace Sprouted

variable (h : Sprouted x d d') (hd : d.Linked)

include h hd

/-- The marks of children that were there are what they were. -/
theorem marks_eq {l : List NodeId} (hl : l ⊆ (d.entry n).children) :
    l.filterMap d'.markAt? = l.filterMap d.markAt? :=
  List.filterMap_congr fun c hc =>
    congrArg Content.mark? (h.content c (hd.lt_of_mem_children (hl hc)))

theorem marksIn_of_children (hsame : (d'.entry n).children = (d.entry n).children) :
    d'.marksIn n = d.marksIn n := by
  unfold marksIn
  rw [hsame, h.marks_eq hd (List.Subset.refl _)]

theorem marksIn_of_sprout {above below : List NodeId} {new : NodeId} {mark : Mark}
    (hsprout : Sprout x d d' n above below new) (hmark : x.content.mark? = some mark) :
    d'.marksIn n = above.filterMap d.markAt? ++ mark :: below.filterMap d.markAt? := by
  have hbefore := hsprout.before
  have hnew : d'.markAt? new = some mark := (congrArg Content.mark? hsprout.content).trans hmark
  unfold marksIn
  rw [hsprout.after, List.filterMap_append, List.filterMap_cons_some hnew,
    h.marks_eq hd (hbefore ▸ List.subset_append_left ..),
    h.marks_eq hd (hbefore ▸ List.subset_append_right ..)]

end Sprouted

/-! ## Leaves at the end -/

namespace Gains

variable {nodes : List NodeId} (h : Gains (onEach nodes []) (onEach nodes [x]) d d')

include h

/-- A node that is given a leaf has it behind its other children. -/
theorem exists_sprout (hn : n < d.size) (hmem : n ∈ nodes) :
    ∃ new, Sprout x d d' n (d.entry n).children [] new := by
  obtain ⟨new, hchildren, htrees⟩ := h.new n hn
  rw [onEach_of_mem hmem] at htrees
  obtain ⟨c, rest, hc, hnil, rfl⟩ := List.forall₂_cons_right_iff.1 htrees
  rw [List.forall₂_nil_right_iff.1 hnil] at hchildren
  exact ⟨c, (List.append_nil _).symm, hchildren, hc.1, content_of_tree? hc.2⟩

theorem sprouted : Sprouted x d d' where
  size_le := h.size_le
  content := h.content
  attributesOf n hn := by
    rw [h.attributesOf n hn, onEach_nil]
    rfl
  children n hn := by
    by_cases hmem : n ∈ nodes
    · exact .inr ⟨_, _, h.exists_sprout hn hmem⟩
    · exact .inl (h.children_eq hn (onEach_of_not_mem hmem))

theorem marksIn_eq (hd : d.Linked) {mark : Mark} (hmark : x.content.mark? = some mark)
    (hne : nodes ≠ []) (hn : n < d.size) :
    d'.marksIn n = d.marksWith mark (nodes.map .stored) n := by
  have hmem : Node.stored n ∈ nodes.map Node.stored ↔ n ∈ nodes :=
    List.mem_map_of_injective fun _ _ => Node.stored.inj
  unfold marksWith
  by_cases hn' : n ∈ nodes
  · obtain ⟨new, hsprout⟩ := h.exists_sprout hn hn'
    rw [if_pos (hmem.2 hn'), h.sprouted.marksIn_of_sprout hd hsprout hmark]
    rfl
  · rw [if_neg (mt hmem.1 hn'), if_neg fun hnil => hne (List.map_eq_nil_iff.1 hnil.1),
      h.sprouted.marksIn_of_children hd (h.children_eq hn (onEach_of_not_mem hn'))]

end Gains

/-! ## A leaf before the document element -/

section

variable {target data : String} (hd : d.Linked) (h : d.insertInstruction target data = .ok d')

include hd h

theorem sprout_insertInstruction (hx : x.content = instructionContent target data) :
    Sprout x d d' root ((d.entry root).children.takeWhile (!d.isElement ·))
      ((d.entry root).children.dropWhile (!d.isElement ·)) d.size where
  before := List.takeWhile_append_dropWhile.symm
  after := by
    rw [entry_insertInstruction hd h, if_neg (Nat.ne_of_lt hd.root_lt), if_pos rfl]
    exact insertBefore_eq
  size_le := Nat.le_refl _
  content := by
    rw [entry_insertInstruction hd h, if_pos rfl, hx]

theorem sprouted_insertInstruction (hx : x.content = instructionContent target data) :
    Sprouted x d d' := by
  have hentry := entry_insertInstruction hd h
  have hcontent : ∀ n < d.size, (d'.entry n).content = (d.entry n).content := fun n hn => by
    rw [hentry, if_neg (Nat.ne_of_lt hn)]
    split <;> rfl
  refine ⟨?_, hcontent, fun n hn => ?_, fun n hn => ?_⟩
  · rw [insertInstruction_cases h, size_modify, size_create]
    exact Nat.le_succ _
  · have hattributes : (d'.entry n).attributes = (d.entry n).attributes := by
      rw [hentry, if_neg (Nat.ne_of_lt hn)]
      split <;> rfl
    rw [attributesOf_eq, attributesOf_eq, hattributes]
    exact List.filterMap_congr fun a ha =>
      attributeAt?_congr (hcontent a (hd.lt_of_mem_attributes ha))
  · by_cases hroot : n = root
    · subst hroot
      exact .inr ⟨_, _, _, sprout_insertInstruction hd h hx⟩
    · rw [hentry, if_neg (Nat.ne_of_lt hn), if_neg hroot]
      exact .inl rfl

theorem marksIn_insertInstruction {mark : Mark}
    (hmark : (instructionContent target data).mark? = some mark) (hn : n < d.size) :
    d'.marksIn n = d.marksWith mark [] n := by
  have hx : (Tree.instruction target (if data.isEmpty then none else some data)).content =
      instructionContent target data := rfl
  have hsprouted := sprouted_insertInstruction hd h hx
  unfold marksWith
  rw [if_neg List.not_mem_nil]
  by_cases hroot : n = root
  · obtain ⟨htake, hdrop⟩ := d.takeWhile_marks (d.entry root).children
    rw [if_pos ⟨rfl, hroot⟩, hroot,
      hsprouted.marksIn_of_sprout hd (sprout_insertInstruction hd h hx) hmark, ← htake, ← hdrop]
    rfl
  · rw [if_neg fun hnil => hroot hnil.2, hsprouted.marksIn_of_children hd ?_]
    rw [entry_insertInstruction hd h, if_neg (Nat.ne_of_lt hn), if_neg hroot]

end

end Document

end XmlScript
