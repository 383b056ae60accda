import XmlScript.Proofs.Containers

/-!
# Elements in document order

The elements of a document stand in document order (`Document.elements`), and the elements of trees
in the same order (`Tree.collect`). So what can be said of an element by its tree can be said by its
number (`Linked.collect_trees`).
-/

namespace XmlScript

/-- Something of every element among neighbouring trees and in them: of an element, then of those in
it, then of those behind it. -/
def Tree.collect {α : Type} (f : Label → List Attribute → List Tree → α) : List Tree → List α
  | [] => []
  | element label attributes children :: rest =>
    f label attributes children :: (collect f children ++ collect f rest)
  | text _ _ :: rest => collect f rest
  | comment _ :: rest => collect f rest
  | instruction _ _ :: rest => collect f rest

namespace Tree

variable {α : Type} {f : Label → List Attribute → List Tree → α} {trees rest : List Tree}

theorem collect_append : collect f (trees ++ rest) = collect f trees ++ collect f rest := by
  induction trees with
  | nil => simp [collect]
  | cons t trees ih => cases t <;> simp [collect, ih]

theorem collect_filterMap {β : Type} (g : β → Option Tree) (l : List β) :
    collect f (l.filterMap g) = l.flatMap fun x => collect f (g x).toList := by
  induction l with
  | nil => rw [List.filterMap_nil, collect, List.flatMap_nil]
  | cons x l ih =>
    rw [List.flatMap_cons, ← ih, ← collect_append]
    cases hx : g x with
    | none => rw [List.filterMap_cons_none hx, Option.toList_none, List.nil_append]
    | some t => rw [List.filterMap_cons_some hx, Option.toList_some, List.singleton_append]

end Tree

namespace Document

variable {d d' : Document} {n : Nat}

/-- The elements of a document in document order. -/
def elements (d : Document) : List NodeId := (d.preorder d.size root).filter d.isElement

/-- The elements at a node and below it. -/
theorem Linked.filter_preorder (h : d.Linked) (bound : Nat) (n : NodeId) :
    (d.preorder (bound + 1) n).filter d.isElement = (if d.isElement n then [n] else []) ++
      (d.entry n).children.flatMap fun c => (d.preorder bound c).filter d.isElement := by
  have hnone : (d.entry n).attributes.reverse.filter d.isElement = [] := by
    refine List.filter_eq_nil_iff.2 fun a ha helement => ?_
    obtain ⟨x, hx⟩ := Content.isAttribute_iff.1 (h.owner (List.mem_reverse.1 ha)).1
    rw [isElement_eq, hx] at helement
    cases helement
  rw [preorder, List.filter_append, List.filter_flatMap, List.filter_cons, hnone]

theorem flatMap_filter {α β : Type} (p : α → Bool) (f : α → List β) (l : List α) :
    (l.filter p).flatMap f = l.flatMap fun x => if p x = true then f x else [] := by
  induction l with
  | nil => rfl
  | cons x l ih =>
    rw [List.filter_cons, List.flatMap_cons, ← ih]
    split <;> rfl

/-- Documents have the same elements in the same order if they have the same children, but for new
ones that are no elements and have nothing below them. Any bounds will do that are large enough. -/
theorem Linked.elements_congr (h : d.Linked) (h' : d'.Linked)
    (helement : ∀ m < d.size, d'.isElement m = d.isElement m)
    (hold : ∀ m < d.size, (d'.entry m).children.filter (· < d.size) = (d.entry m).children)
    (hnew : ∀ m < d.size, ∀ c ∈ (d'.entry m).children, d.size ≤ c →
      d'.isElement c = false ∧ (d'.entry c).children = [])
    {bound bound' : Nat} (hlt : n < d.size) (hb : d.size ≤ n + bound) (hb' : d.size ≤ n + bound') :
    (d'.preorder bound' n).filter d'.isElement = (d.preorder bound n).filter d.isElement := by
  induction bound generalizing bound' n with
  | zero => omega
  | succ bound ih =>
    cases bound' with
    | zero => omega
    | succ bound' =>
      have hone : ∀ c : Nat, c ∈ (d'.entry n).children →
          (d'.preorder bound' c).filter d'.isElement =
            if decide (c < d.size) = true then (d.preorder bound c).filter d.isElement else [] := by
        intro c hc
        split
        next hlt =>
          have hnc := h'.lt_child hc
          exact ih (of_decide_eq_true hlt) (by omega) (by omega)
        next hge =>
          obtain ⟨hnone, hnil⟩ :=
            hnew n hlt c hc (Nat.le_of_not_lt fun hlt => hge (decide_eq_true hlt))
          cases bound' with
          | zero => rfl
          | succ bound' =>
            rw [h'.filter_preorder, hnone, hnil]
            rfl
      rw [h.filter_preorder, h'.filter_preorder, helement n hlt, List.flatMap_congr hone,
        ← flatMap_filter, hold n hlt]

theorem Linked.children_eq_nil (h : d.Linked) (hh : d.Housed) (hn : ¬ d.IsContainer n) :
    (d.entry n).children = [] :=
  List.eq_nil_iff_forall_not_mem.2 fun _ hc => hn (hh.parent (h.child_iff.1 hc).1)

variable {α : Type} {f : Label → List Attribute → List Tree → α} {g : NodeId → α}

theorem collect_tree? (h : d.Linked) (hh : d.Housed)
    (hg : ∀ n label, (d.entry n).content = .element label →
      g n = f label (d.attributesOf n) (d.treesBelow n))
    {bound : Nat} (hn : n ≠ root) (hlt : n < d.size) (hb : d.size ≤ n + bound) :
    Tree.collect f (d.tree? d.size n).toList =
      ((d.preorder bound n).filter d.isElement).map g := by
  induction bound generalizing n with
  | zero => omega
  | succ bound ih =>
    have hleaf (hcontent : ∀ label, (d.entry n).content ≠ .element label) :
        (d.preorder (bound + 1) n).filter d.isElement = [] := by
      have hnone : d.isElement n = false := by
        refine Bool.eq_false_iff.2 fun helement => ?_
        obtain ⟨label, hlabel⟩ := isElement_iff.1 helement
        exact hcontent label hlabel
      have hcontainer : ¬ d.IsContainer n := by
        rintro (hdocument | ⟨label, hlabel⟩)
        · exact hn ((h.document_iff n).1 hdocument)
        · exact hcontent label hlabel
      rw [h.filter_preorder, hnone, h.children_eq_nil hh hcontainer]
      rfl
    rw [h.tree?_eq hlt]
    split
    next label hc =>
      have helement : d.isElement n = true := isElement_iff.2 ⟨label, hc⟩
      have hbelow : ∀ c : Nat, c ∈ (d.entry n).children →
          Tree.collect f (d.tree? d.size c).toList =
            ((d.preorder bound c).filter d.isElement).map g := fun c hmem => by
        have hnc : n < c := h.lt_child hmem
        exact ih (Nat.ne_of_gt (Nat.zero_lt_of_lt hnc)) (h.lt_of_mem_children hmem) (by omega)
      rw [h.filter_preorder, helement, if_pos rfl, List.map_append, List.map_flatMap,
        ← List.flatMap_congr hbelow, ← Tree.collect_filterMap, List.map_singleton, hg n label hc]
      simp [Tree.collect, treesBelow]
    all_goals
      next hc =>
        rw [hleaf fun label he => by cases hc.symm.trans he]
        simp [Tree.collect]

/-- The trees of a document say of the elements what their numbers do. -/
theorem Linked.collect_trees (h : d.Linked) (hh : d.Housed)
    (hg : ∀ n label, (d.entry n).content = .element label →
      g n = f label (d.attributesOf n) (d.treesBelow n)) :
    Tree.collect f d.trees = d.elements.map g := by
  have hroot : d.isElement root = false := by
    rw [isElement_eq, (h.document_iff root).2 rfl]
    rfl
  obtain ⟨bound, hbound⟩ : ∃ bound, d.size = bound + 1 :=
    Nat.exists_eq_add_one_of_ne_zero (Nat.ne_of_gt h.root_lt)
  have hbelow : ∀ c : Nat, c ∈ (d.entry root).children →
      Tree.collect f (d.tree? d.size c).toList =
        ((d.preorder bound c).filter d.isElement).map g := by
    intro c hc
    have hpos : 0 < c := h.lt_child hc
    exact collect_tree? h hh hg (Nat.ne_of_gt hpos) (h.lt_of_mem_children hc) (by omega)
  unfold trees treesBelow elements
  rw [Tree.collect_filterMap, List.flatMap_congr hbelow, hbound, h.filter_preorder, hroot,
    if_neg Bool.false_ne_true, List.nil_append, List.map_flatMap]

end Document

end XmlScript
