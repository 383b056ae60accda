import Mathlib.Data.List.Induction
import XmlScript.Proofs.Growth

/-!
# Trees that a document is made of

A document that is made of trees shows these trees (`trees_of_readTrees?`). A tree is put below a
node as its topmost node, which is then given its attributes and the trees below it. So by induction
over the tree, the node gains this tree and nothing else does (`Gains.addTree`).
-/

namespace XmlScript

namespace Document

variable {x : Document} {p : NodeId} {trees : List Tree}

theorem Earlier.appendAttribute (hp : p < x.size) (a : Attribute) :
    Earlier x (x.appendAttribute p a) ∧
      ∀ n < x.size, ((x.appendAttribute p a).entry n).children = (x.entry n).children := by
  have hentry (n : Nat) (hn : n < x.size) :
      ((x.appendAttribute p a).entry n).content = (x.entry n).content ∧
        ((x.appendAttribute p a).entry n).parent? = (x.entry n).parent? ∧
          ((x.appendAttribute p a).entry n).children = (x.entry n).children := by
    rw [entry_appendAttribute hp, if_neg (Nat.ne_of_lt hn)]
    split <;> exact ⟨rfl, rfl, rfl⟩
  refine ⟨⟨?_, fun n hn => (hentry n hn).1, fun n hn => (hentry n hn).2.1, fun n hn => ?_⟩,
    fun n hn => (hentry n hn).2.2⟩
  · rw [size_appendAttribute]
    exact Nat.le_succ _
  · exact (hentry n hn).2.2.symm ▸ List.prefix_rfl

namespace Gains

/-- An attribute of a new name is all that is given. -/
theorem appendAttribute {a : Attribute} (hx : x.Linked) (hp : p < x.size)
    (hnew : a.name ∉ (x.attributesOf p).map (·.name)) :
    Gains (onEach [p] [a]) (onEach [p] []) x (x.appendAttribute p a) where
  toEarlier := (Earlier.appendAttribute hp a).1
  attributesOf n _ := by
    rw [hx.attributesOf_appendAttribute hp]
    by_cases hn : n = p
    · have hput : Attribute.putAll (x.attributesOf p) [a] = x.attributesOf p ++ [a] := by
        refine congrArg (· ++ [a]) (List.filter_eq_self.2 fun b hb => decide_eq_true ?_)
        exact fun hname => hnew (hname ▸ List.mem_map_of_mem hb)
      rw [if_pos hn, onEach_of_mem (List.mem_singleton.2 hn), hn, hput]
    · rw [if_neg hn, onEach_of_not_mem fun h => hn (List.mem_singleton.1 h)]
      rfl
  new n hn := by
    rw [(Earlier.appendAttribute hp a).2 n hn, onEach_nil]
    exact ⟨[], (List.append_nil _).symm, List.Forall₂.nil⟩

/-- A node without attributes is given some with names of their own. -/
theorem appendAttributes {attributes : List Attribute} (hx : x.Linked) (hp : p < x.size)
    (hnone : (x.entry p).attributes = []) (hn : (attributes.map (·.name)).Nodup) :
    (attributes.foldl (·.appendAttribute p) x).Linked ∧
      Gains (onEach [p] attributes) (onEach [p] []) x
        (attributes.foldl (·.appendAttribute p) x) := by
  have hlinked {attributes : List Attribute} (hn : (attributes.map (·.name)).Nodup) :=
    (hx.appendAttributes hp hn fun a _ n hmem => by rw [hnone] at hmem; cases hmem).1
  refine ⟨hlinked hn, ?_⟩
  have hempty : x.attributesOf p = [] := by
    rw [attributesOf_eq, hnone]
    rfl
  induction attributes using List.reverseRecOn with
  | nil => exact (Gains.refl x).congr (fun n _ => onEach_nil.symm) fun n _ => onEach_nil.symm
  | append_singleton attributes a ih =>
    rw [List.map_append, List.nodup_append] at hn
    have hgains := ih hn.1
    rw [List.foldl_append]
    refine hgains.append (hlinked hn.1) ?_ fun n hn => List.mem_singleton.1 hn ▸ hp
    refine .appendAttribute (hlinked hn.1) (Nat.lt_of_lt_of_le hp hgains.size_le) ?_
    -- the attributes so far are those that have been given
    have hall : Attribute.putAll [] attributes = [] ++ attributes := Attribute.putAll_of_nodup hn.1
    rw [hgains.attributesOf p hp, hempty, onEach_of_mem (List.mem_singleton.2 rfl), hall]
    exact fun hmem => hn.2.2 _ hmem _ (List.mem_singleton.2 rfl) rfl

/-- What each tree gives, the trees give one after the other. -/
theorem addTrees (hx : x.Linked) (ht : TakesAll x p trees) (hp : p < x.size)
    (ih : ∀ t ∈ trees, ∀ {x : Document} {p : NodeId}, x.Linked → Takes x p t.content →
      Gains (onEach [p] []) (onEach [p] [t]) x (x.addTree p t)) :
    Gains (onEach [p] []) (onEach [p] trees) x (x.addTrees p trees) := by
  induction ht with
  | nil => exact (Gains.refl _).congr (fun n _ => onEach_nil.symm) fun n _ => onEach_nil.symm
  | cons ht htakes _ ihr =>
    rw [List.forall_mem_cons] at ih
    have hlinked := (hx.addTree ht htakes).1
    have hgains := ih.1 hx htakes
    have hrest := ihr hlinked (Nat.lt_of_lt_of_le hp hgains.size_le) ih.2
    exact hgains.append hlinked hrest fun n hn => List.mem_singleton.1 hn ▸ hp

/-- A node gains the tree that is put below it. -/
theorem addTree {t : Tree} (ht : t.WellNamed) (hx : x.Linked) (hp : Takes x p t.content) :
    Gains (onEach [p] []) (onEach [p] [t]) x (x.addTree p t) := by
  induction ht generalizing x p with
  | @element label attributes children hn hc ih =>
    have hmade : (x.appendChild p (.element label)).Linked := hx.appendChild hp rfl
    have hsize : x.size < (x.appendChild p (.element label)).size := by
      rw [size_appendChild]
      exact Nat.lt_succ_self _
    have hentry : (x.appendChild p (.element label)).entry x.size =
        { content := .element label, parent? := some p } := by
      rw [entry_appendChild hp.lt, if_pos rfl]
    have hopened : Opened label [p] [x.size] x (x.appendChild p (.element label)) :=
      .cons hp.lt List.not_mem_nil (List.forall_mem_nil _) (.refl _)
    obtain ⟨hlinked, hattributes⟩ := appendAttributes hmade hsize (by rw [hentry]) hn
    have hlt := Nat.lt_of_lt_of_le hsize hattributes.size_le
    have hlabel := (hattributes.content _ hsize).trans (congrArg Entry.content hentry)
    have htakes := hlinked.takesAll_of_element hlabel hc
    have hfilled := hattributes.append hlinked
      (.addTrees hlinked htakes hlt fun t ht => ih t ht)
      fun n hn => List.mem_singleton.1 hn ▸ hsize
    rw [List.append_nil, List.nil_append] at hfilled
    have hwhole := hopened.fill hfilled (hlinked.addTrees htakes)
    have hall : Attribute.putAll [] attributes = [] ++ attributes := Attribute.putAll_of_nodup hn
    rwa [hall] at hwhole
  | text s isCData => exact Gains.appendChild hp.lt rfl
  | comment s => exact Gains.appendChild hp.lt rfl
  | instruction target data? => exact Gains.appendChild hp.lt rfl

end Gains

/-- A document that is read shows the trees that it was made of. -/
theorem trees_of_readTrees? {s : List Char} (h : Markup.readTrees? s = some trees) :
    (ofTrees trees).trees = trees := by
  have hgains : Gains (onEach [root] []) (onEach [root] trees) empty (ofTrees trees) :=
    .addTrees Linked.ofEmpty (.of_readTrees? h) Linked.ofEmpty.root_lt fun t ht _ _ hx hp =>
      .addTree ((Markup.readTrees?_cases h).1 t ht).1 hx hp
  have hbelow := hgains.treesBelow_eq Linked.ofEmpty.root_lt rfl
  rwa [onEach_of_mem (List.mem_singleton.2 rfl)] at hbelow

end Document

end XmlScript
