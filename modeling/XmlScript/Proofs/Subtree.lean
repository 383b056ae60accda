import XmlScript.Proofs.Linked

/-!
# Trees of a document

What a node shows as a tree depends on the nodes below it only, and in a linked document these have
larger numbers. So two documents that agree from a number on show the same trees there
(`tree?_congr`); with one document in both places this says that the bound of `Document.tree?` does
not matter as long as it is large enough, so that `Linked.tree?_eq` can say what a node shows as
without one.
-/

namespace XmlScript.Document

variable {d d' : Document} {n p : Nat}

/-- A node that two documents show in the same way, but for what is below it. -/
structure SameAt (d d' : Document) (n : NodeId) : Prop where
  content : (d'.entry n).content = (d.entry n).content
  children : (d'.entry n).children = (d.entry n).children
  attributesOf : d'.attributesOf n = d.attributesOf n

theorem SameAt.refl (d : Document) (n : NodeId) : SameAt d d n := ⟨rfl, rfl, rfl⟩

namespace Linked

theorem lt_child (h : d.Linked) {c : Nat} (hc : c ∈ (d.entry p).children) : p < c :=
  h.parent_lt (h.child_iff.1 hc).1

end Linked

/-- Documents that agree from a number on show the same trees there. -/
theorem tree?_congr {base : Nat} (h : d.Linked)
    (hsame : ∀ m : Nat, base ≤ m → m < d.size → SameAt d d' m) {bound bound' : Nat} (hn : base ≤ n)
    (hlt : n < d.size) (hb : d.size ≤ n + bound) (hb' : d.size ≤ n + bound') :
    d'.tree? bound' n = d.tree? bound n := by
  induction bound generalizing bound' n with
  | zero => omega
  | succ bound ih =>
    cases bound' with
    | zero => omega
    | succ bound' =>
      have hat := hsame n hn hlt
      -- below the node there is less left of either bound, and fewer numbers above
      have hbelow : (d.entry n).children.filterMap (d'.tree? bound') =
          (d.entry n).children.filterMap (d.tree? bound) := by
        refine List.filterMap_congr fun c hc => ?_
        have hnc := h.lt_child hc
        exact ih (by omega) (h.lt_of_mem_children hc) (by omega) (by omega)
      unfold tree?
      simp only [hat.content, hat.children, hat.attributesOf, hbelow]

/-- The trees below a node are those of its children. -/
theorem treesBelow_congr {base : Nat} (h : d.Linked) (hsize : d.size ≤ d'.size)
    (hsame : ∀ m : Nat, base ≤ m → m < d.size → SameAt d d' m)
    (hchildren : (d'.entry n).children = (d.entry n).children)
    (hbase : ∀ c ∈ (d.entry n).children, base ≤ c) : d'.treesBelow n = d.treesBelow n := by
  unfold treesBelow
  rw [hchildren]
  refine List.filterMap_congr fun c hc => ?_
  exact tree?_congr h hsame (hbase c hc) (h.lt_of_mem_children hc) (Nat.le_add_left ..)
    (Nat.le_add_left_of_le hsize)

namespace Linked

variable (h : d.Linked)

include h

/-- Any bound will do that is large enough. -/
theorem tree?_bound (bound : Nat) (hn : n < d.size) (hb : d.size ≤ n + bound) :
    d.tree? bound n = d.tree? d.size n :=
  tree?_congr h (fun m _ _ => SameAt.refl d m) (Nat.zero_le n) hn (by omega) hb

/-- What a node shows as: an element with its attributes and what is below it, everything else
alone. -/
theorem tree?_eq (hn : n < d.size) : d.tree? d.size n =
    match (d.entry n).content with
    | .element label => some (.element label (d.attributesOf n) (d.treesBelow n))
    | .text s isCData => some (.text s isCData)
    | .comment s => some (.comment s)
    | .instruction target data? => some (.instruction target data?)
    | .document | .attribute _ => none := by
  rw [← h.tree?_bound (d.size + 1) hn (by omega)]
  rfl

end Linked

end XmlScript.Document
