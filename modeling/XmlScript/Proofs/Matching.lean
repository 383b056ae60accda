import XmlScript.Proofs.Subtree
import XmlScript.Render

/-!
# Documents that differ in new nodes only

Two documents that have grown out of one need not give the same numbers to what has been made since
then. They match when all nodes that were there before are the same in both, show the same
attributes and list the same children, where a new text in one stands for a new text in the other
that says the same (`Document.Matches`). Then they show the same trees (`Matches.treesBelow_eq`) and
are written in the same way.
-/

namespace XmlScript

/-- Functions that agree on related elements keep the same of two related lists. -/
theorem filterMap_eq_of_forall₂ {α β γ : Type} {R : α → β → Prop} {f : α → Option γ}
    {g : β → Option γ} {xs : List α} {ys : List β} (h : List.Forall₂ R xs ys)
    (hfg : ∀ x ∈ xs, ∀ y ∈ ys, R x y → g y = f x) : ys.filterMap g = xs.filterMap f := by
  induction h with
  | nil => rfl
  | @cons x y xs ys hxy _ ih =>
    have hrest := ih fun x' hx' y' hy' =>
      hfg x' (List.mem_cons_of_mem _ hx') y' (List.mem_cons_of_mem _ hy')
    rw [List.filterMap_cons, List.filterMap_cons, hrest,
      hfg x (List.mem_cons_self ..) y (List.mem_cons_self ..) hxy]

namespace Document

variable {x y : Document} {base n : Nat}

/-- A node of one document that stands for a node of another: the same one if it was there before,
else a text that says the same. -/
def StandsFor (base : Nat) (x y : Document) (k m : Nat) : Prop :=
  (m = k ∧ k < base) ∨ (base ≤ k ∧ base ≤ m ∧ ∃ s isCData,
    (x.entry k).content = .text s isCData ∧ (y.entry m).content = .text s isCData)

/-- The nodes below a number are the same in two documents, but for the numbers of attributes and
texts that are not among them. -/
structure Matches (base : Nat) (x y : Document) : Prop where
  le_left : base ≤ x.size
  le_right : base ≤ y.size
  content : ∀ n < base, (y.entry n).content = (x.entry n).content
  parent? : ∀ n < base, (y.entry n).parent? = (x.entry n).parent?
  attributesOf : ∀ n < base, y.attributesOf n = x.attributesOf n
  children : ∀ n < base,
    List.Forall₂ (StandsFor base x y) (x.entry n).children (y.entry n).children

/-- A text shows as itself with any bound but zero. -/
theorem tree?_of_text {bound : Nat} {s : String} {isCData : Bool} (hb : 0 < bound)
    (h : (x.entry n).content = .text s isCData) : x.tree? bound n = some (.text s isCData) := by
  obtain ⟨bound, rfl⟩ := Nat.exists_eq_succ_of_ne_zero (Nat.ne_of_gt hb)
  unfold tree?
  simp only [h]

namespace Matches

variable (h : Matches base x y) (hx : x.Linked) (hy : y.Linked)

include h hx hy

theorem tree?_eq {bound bound' : Nat} (hn : n < base) (hb : x.size ≤ n + bound)
    (hb' : y.size ≤ n + bound') : y.tree? bound' n = x.tree? bound n := by
  have hleft := h.le_left
  have hright := h.le_right
  induction bound generalizing bound' n with
  | zero => omega
  | succ bound ih =>
    cases bound' with
    | zero => omega
    | succ bound' =>
      have hbelow : (y.entry n).children.filterMap (y.tree? bound') =
          (x.entry n).children.filterMap (x.tree? bound) := by
        refine filterMap_eq_of_forall₂ (h.children n hn) fun (k : Nat) hk (m : Nat) hm hkm => ?_
        have hnk := hx.lt_child hk
        have hkx : k < x.size := hx.lt_of_mem_children hk
        have hnm := hy.lt_child hm
        have hmy : m < y.size := hy.lt_of_mem_children hm
        rcases hkm with ⟨rfl, hold⟩ | ⟨-, -, s, isCData, hc, hc'⟩
        · exact ih hold (by omega) (by omega)
        · rw [tree?_of_text (by omega) hc, tree?_of_text (by omega) hc']
      unfold tree?
      simp only [h.content n hn, h.attributesOf n hn, hbelow]

/-- Below a common node the same is shown. -/
theorem treesBelow_eq (hn : n < base) : y.treesBelow n = x.treesBelow n := by
  unfold treesBelow
  refine filterMap_eq_of_forall₂ (h.children n hn) fun (k : Nat) hk (m : Nat) hm hkm => ?_
  have hkx : k < x.size := hx.lt_of_mem_children hk
  have hmy : m < y.size := hy.lt_of_mem_children hm
  rcases hkm with ⟨rfl, hold⟩ | ⟨-, -, s, isCData, hc, hc'⟩
  · exact h.tree?_eq hx hy hold (Nat.le_add_left ..) (Nat.le_add_left ..)
  · rw [tree?_of_text (by omega) hc, tree?_of_text (by omega) hc']

theorem trees_eq (hbase : root < base) : y.trees = x.trees := h.treesBelow_eq hx hy hbase

theorem render_eq (hbase : root < base) (options : RenderOptions) :
    y.render options = x.render options := by
  unfold render
  rw [h.trees_eq hx hy hbase]

end Matches

end Document

end XmlScript
