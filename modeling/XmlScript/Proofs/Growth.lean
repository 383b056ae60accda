import XmlScript.Proofs.Attributes
import XmlScript.Proofs.Except
import XmlScript.Proofs.Planting
import XmlScript.Proofs.Subtree

/-!
# Documents that grow

`Earlier x y` says that `y` goes on from `x`: what is there stays, and children are only added at
the end. `Gains attributes trees x y` says in addition what each node has been given meanwhile:
attributes, set one after the other, and new children, which show as certain trees. What two stages
give is what they give one after the other (`Gains.trans`), as long as the second gives nothing to
the nodes that the first has made.

An element that is put below each of some nodes (`Opened`) and given something afterwards makes one
new tree of what it was given (`Opened.fill`).
-/

namespace XmlScript.Document

variable {x y z : Document} {n p q : Nat}

/-- The second document goes on from the first: it has all its nodes, and every node has its
children, with others after them. -/
structure Earlier (x y : Document) : Prop where
  size_le : x.size ≤ y.size
  content : ∀ n < x.size, (y.entry n).content = (x.entry n).content
  parent? : ∀ n < x.size, (y.entry n).parent? = (x.entry n).parent?
  children : ∀ n < x.size, (x.entry n).children <+: (y.entry n).children

namespace Earlier

theorem refl (x : Document) : Earlier x x :=
  ⟨Nat.le_refl _, fun _ _ => rfl, fun _ _ => rfl, fun _ _ => List.prefix_rfl⟩

theorem trans (h : Earlier x y) (h' : Earlier y z) : Earlier x z where
  size_le := Nat.le_trans h.size_le h'.size_le
  content n hn := by rw [h'.content n (Nat.lt_of_lt_of_le hn h.size_le), h.content n hn]
  parent? n hn := by rw [h'.parent? n (Nat.lt_of_lt_of_le hn h.size_le), h.parent? n hn]
  children n hn :=
    (h.children n hn).trans (h'.children n (Nat.lt_of_lt_of_le hn h.size_le))

/-- A later document shows at an old node what was there, whatever number it has. -/
theorem parent?_eq (h : Earlier x y) {n p : Node} (hp : x.parent? n = some p) :
    y.parent? n = some p := by
  cases n with
  | binding owner short uri => cases hp
  | stored n =>
    obtain ⟨q, hq, rfl⟩ := Option.map_eq_some_iff.1 hp
    refine Option.map_eq_some_iff.2 ⟨q, ?_, rfl⟩
    rw [h.parent? n (lt_size_of_parent? hq), hq]

theorem appendChild (hp : p < x.size) (c : Content) : Earlier x (x.appendChild p c) where
  size_le := by rw [size_appendChild]; exact Nat.le_succ _
  content n hn := by
    rw [entry_appendChild hp, if_neg (Nat.ne_of_lt hn)]
    split <;> rfl
  parent? n hn := by
    rw [entry_appendChild hp, if_neg (Nat.ne_of_lt hn)]
    split <;> rfl
  children n hn := by
    rw [entry_appendChild hp, if_neg (Nat.ne_of_lt hn)]
    split
    · exact List.prefix_append _ _
    · exact List.prefix_rfl

/-- An attribute that is set leaves all older nodes as they were, but for the attributes of its
own. -/
theorem putAttribute (hp : p < x.size) (a : Attribute) : Earlier x (x.putAttribute p a) ∧
    ∀ n < x.size, ((x.putAttribute p a).entry n).children = (x.entry n).children := by
  have hentry (n : Nat) (hn : n < x.size) :
      ((x.putAttribute p a).entry n).content = (x.entry n).content ∧
        ((x.putAttribute p a).entry n).parent? = (x.entry n).parent? ∧
          ((x.putAttribute p a).entry n).children = (x.entry n).children := by
    unfold Document.putAttribute
    rw [entry_appendAttribute (by rwa [size_modify]), size_modify, if_neg (Nat.ne_of_lt hn)]
    split <;> rw [entry_keepAttributes] <;> exact ⟨rfl, rfl, rfl⟩
  refine ⟨⟨?_, fun n hn => (hentry n hn).1, fun n hn => (hentry n hn).2.1, fun n hn => ?_⟩,
    fun n hn => (hentry n hn).2.2⟩
  · rw [size_putAttribute]
    exact Nat.le_succ _
  · exact (hentry n hn).2.2.symm ▸ List.prefix_rfl

end Earlier

/-- What a node is shows in its tree. -/
theorem content_of_tree? {bound : Nat} {t : Tree} (h : x.tree? bound n = some t) :
    (x.entry n).content = t.content := by
  cases bound with
  | zero => cases h
  | succ bound =>
    unfold tree? at h
    simp only at h
    split at h
    next hc => cases h; exact hc
    next hc => cases h; exact hc
    next hc => cases h; exact hc
    next hc => cases h; exact hc
    next => cases h
    next => cases h

/-! ## What nodes have been given -/

/-- The second document goes on from the first, and this is what each node has been given. -/
structure Gains (attributes : NodeId → List Attribute) (trees : NodeId → List Tree)
    (x y : Document) : Prop extends Earlier x y where
  attributesOf : ∀ n < x.size,
    y.attributesOf n = Attribute.putAll (x.attributesOf n) (attributes n)
  new : ∀ n < x.size, ∃ new, (y.entry n).children = (x.entry n).children ++ new ∧
    List.Forall₂ (fun c t => x.size ≤ c ∧ y.tree? y.size c = some t) new (trees n)

/-- The same for each of some nodes, and nothing for the others. -/
def onEach {α : Type} (nodes : List NodeId) (gain : List α) (n : NodeId) : List α :=
  if n ∈ nodes then gain else []

section

variable {α : Type} {nodes : List NodeId} {gain gain' : List α}

theorem onEach_of_mem (hn : n ∈ nodes) : onEach nodes gain n = gain := if_pos hn

theorem onEach_of_not_mem (hn : n ∉ nodes) : onEach nodes gain n = [] := if_neg hn

theorem onEach_nil : onEach nodes ([] : List α) n = [] := ite_self _

theorem onEach_append :
    onEach nodes gain n ++ onEach nodes gain' n = onEach nodes (gain ++ gain') n := by
  unfold onEach
  split <;> rfl

/-- What one node is given and then the others, all are given. -/
theorem onEach_cons (hp : p ∉ nodes) :
    onEach [p] gain n ++ onEach nodes gain n = onEach (p :: nodes) gain n := by
  unfold onEach
  by_cases hn : n = p
  · subst hn
    rw [if_pos (List.mem_singleton.2 rfl), if_neg hp, if_pos (List.mem_cons_self ..),
      List.append_nil]
  · rw [if_neg fun h => hn (List.mem_singleton.1 h), List.nil_append]
    simp only [List.mem_cons, hn, false_or]

end

namespace Gains

variable {a b : NodeId → List Attribute} {t u : NodeId → List Tree}

theorem congr (h : Gains a t x y) (ha : ∀ n < x.size, a n = b n) (ht : ∀ n < x.size, t n = u n) :
    Gains b u x y where
  toEarlier := h.toEarlier
  attributesOf n hn := by rw [h.attributesOf n hn, ha n hn]
  new n hn := by
    rw [← ht n hn]
    exact h.new n hn

theorem refl (x : Document) : Gains (fun _ => []) (fun _ => []) x x where
  toEarlier := Earlier.refl x
  attributesOf _ _ := rfl
  new _ _ := ⟨[], (List.append_nil _).symm, List.Forall₂.nil⟩

/-- A node that is given no tree has no new child. -/
theorem children_eq (h : Gains a t x y) (hn : n < x.size) (ht : t n = []) :
    (y.entry n).children = (x.entry n).children := by
  obtain ⟨new, hnew, htrees⟩ := h.new n hn
  rw [ht, List.forall₂_nil_right_iff] at htrees
  rw [hnew, htrees, List.append_nil]

/-- A node that is given nothing shows the same. -/
theorem sameAt (h : Gains a t x y) (hn : n < x.size) (ha : a n = []) (ht : t n = []) :
    SameAt x y n where
  content := h.content n hn
  children := h.children_eq hn ht
  attributesOf := by
    rw [h.attributesOf n hn, ha]
    rfl

/-- What is given to older nodes does not show at those made since. -/
theorem tree?_eq (h : Gains a t y z) (hy : y.Linked) {base : Nat}
    (hnone : ∀ n, base ≤ n → a n = [] ∧ t n = []) (hbase : base ≤ n) (hn : n < y.size) :
    z.tree? z.size n = y.tree? y.size n := by
  refine tree?_congr hy (fun m hm hlt => ?_) hbase hn (Nat.le_add_left ..)
    (Nat.le_add_left_of_le h.size_le)
  obtain ⟨ha, ht⟩ := hnone m hm
  exact h.sameAt hlt ha ht

/-- What is given in two stages, the second of which gives nothing to what is new. -/
theorem trans (h : Gains a t x y) (hy : y.Linked) (h' : Gains b u y z)
    (hnone : ∀ n, x.size ≤ n → b n = [] ∧ u n = []) :
    Gains (fun n => a n ++ b n) (fun n => t n ++ u n) x z where
  toEarlier := h.toEarlier.trans h'.toEarlier
  attributesOf n hn := by
    rw [h'.attributesOf n (Nat.lt_of_lt_of_le hn h.size_le), h.attributesOf n hn]
    exact (Attribute.putAll_append _).symm
  new n hn := by
    obtain ⟨new, hnew, htrees⟩ := h.new n hn
    obtain ⟨new', hnew', htrees'⟩ := h'.new n (Nat.lt_of_lt_of_le hn h.size_le)
    refine ⟨new ++ new', by rw [hnew', hnew, List.append_assoc], List.rel_append ?_ ?_⟩
    · -- the first new children still show the same
      have hlt : ∀ c ∈ new, c < y.size := fun c hc =>
        hy.lt_of_mem_children (p := n) (hnew ▸ List.mem_append_right _ hc)
      refine ((List.forall₂_and_left new (t n)).2 ⟨hlt, htrees⟩).imp fun c u hc => ?_
      rw [h'.tree?_eq hy hnone hc.2.1 hc.1]
      exact hc.2
    · exact htrees'.imp fun c u hc => ⟨Nat.le_trans h.size_le hc.1, hc.2⟩

/-- The same nodes are given something in two stages. -/
theorem append {nodes : List NodeId} {a b : List Attribute} {t u : List Tree}
    (h : Gains (onEach nodes a) (onEach nodes t) x y) (hy : y.Linked)
    (h' : Gains (onEach nodes b) (onEach nodes u) y z) (hnodes : ∀ n ∈ nodes, n < x.size) :
    Gains (onEach nodes (a ++ b)) (onEach nodes (t ++ u)) x z := by
  refine (h.trans hy h' fun n hn => ?_).congr (fun n _ => onEach_append) fun n _ => onEach_append
  have hn' : n ∉ nodes := fun hm => absurd (hnodes n hm) (Nat.not_lt.2 hn)
  exact ⟨onEach_of_not_mem hn', onEach_of_not_mem hn'⟩

/-- One node is given something, and then others are given the same. -/
theorem cons {nodes : List NodeId} {a : List Attribute} {t : List Tree}
    (h : Gains (onEach [p] a) (onEach [p] t) x y) (hy : y.Linked)
    (h' : Gains (onEach nodes a) (onEach nodes t) y z) (hp : p ∉ nodes)
    (hnodes : ∀ n ∈ nodes, n < x.size) :
    Gains (onEach (p :: nodes) a) (onEach (p :: nodes) t) x z := by
  refine (h.trans hy h' fun n hn => ?_).congr (fun n _ => onEach_cons hp) fun n _ => onEach_cons hp
  have hn' : n ∉ nodes := fun hm => absurd (hnodes n hm) (Nat.not_lt.2 hn)
  exact ⟨onEach_of_not_mem hn', onEach_of_not_mem hn'⟩

/-- A node that had no children shows what it has been given. -/
theorem treesBelow_eq (h : Gains a t x y) (hn : n < x.size) (hnone : (x.entry n).children = []) :
    y.treesBelow n = t n := by
  obtain ⟨new, hnew, htrees⟩ := h.new n hn
  rw [hnone, List.nil_append] at hnew
  unfold treesBelow
  rw [hnew]
  generalize t n = l at htrees
  clear hnew
  induction htrees with
  | nil => rfl
  | cons hc _ ih => rw [List.filterMap_cons_some hc.2, ih]

/-- A new child that is no element is one new tree. -/
theorem appendChild {t : Tree} (hp : p < x.size) (ht : t.isElement = false) :
    Gains (onEach [p] []) (onEach [p] [t]) x (x.appendChild p t.content) where
  toEarlier := Earlier.appendChild hp _
  attributesOf n _ := by
    rw [attributesOf_appendChild hp t.isAttribute_content, onEach_nil]
    rfl
  new n hn := by
    rw [entry_appendChild hp, if_neg (Nat.ne_of_lt hn)]
    by_cases hnp : n = p
    · have htree : (x.appendChild p t.content).tree? (x.size + 1) x.size = some t := by
        unfold tree?
        rw [entry_appendChild hp, if_pos rfl]
        cases t with
        | element _ _ _ => cases ht
        | text _ _ | comment _ | instruction _ _ => rfl
      refine ⟨[x.size], by rw [if_pos hnp], ?_⟩
      rw [onEach_of_mem (List.mem_singleton.2 hnp), size_appendChild]
      exact List.Forall₂.cons ⟨Nat.le_refl _, htree⟩ List.Forall₂.nil
    · refine ⟨[], by rw [if_neg hnp, List.append_nil], ?_⟩
      rw [onEach_of_not_mem fun h => hnp (List.mem_singleton.1 h)]
      exact List.Forall₂.nil

/-- An attribute that is set is all that is given. -/
theorem putAttribute (hx : x.Linked) (hp : p < x.size) (a : Attribute) :
    Gains (onEach [p] [a]) (onEach [p] []) x (x.putAttribute p a) where
  toEarlier := (Earlier.putAttribute hp a).1
  attributesOf n _ := by
    rw [hx.attributesOf_putAttribute hp]
    by_cases hn : n = p
    · rw [if_pos hn, onEach_of_mem (List.mem_singleton.2 hn), hn]
      rfl
    · rw [if_neg hn, onEach_of_not_mem fun h => hn (List.mem_singleton.1 h)]
      rfl
  new n hn := by
    rw [(Earlier.putAttribute hp a).2 n hn, onEach_nil]
    exact ⟨[], (List.append_nil _).symm, List.Forall₂.nil⟩

end Gains

/-! ## Elements that are filled afterwards -/

/-- An element below `p` that has neither attributes nor children. -/
structure EmptyElement (d : Document) (label : Label) (p q : NodeId) : Prop where
  content : (d.entry q).content = .element label
  parent? : (d.entry q).parent? = some p
  children : (d.entry q).children = []
  attributesOf : d.attributesOf q = []

/-- An empty element of the given label has been put below each of some nodes, at the end. -/
structure Opened (label : Label) (ps qs : List NodeId) (x y : Document) : Prop extends
    Earlier x y where
  attributesOf : ∀ n < x.size, y.attributesOf n = x.attributesOf n
  others : ∀ n < x.size, n ∉ ps → (y.entry n).children = (x.entry n).children
  made : List.Forall₂ (fun p q => (y.entry p).children = (x.entry p).children ++ [q] ∧
    x.size ≤ q ∧ q < y.size ∧ y.EmptyElement label p q) ps qs
  nodup : qs.Nodup

namespace Opened

variable {label : Label} {ps qs : List NodeId}

theorem refl (x : Document) : Opened label [] [] x x where
  toEarlier := Earlier.refl x
  attributesOf _ _ := rfl
  others _ _ _ := rfl
  made := List.Forall₂.nil
  nodup := List.nodup_nil

/-- One node gets its element before the others. -/
theorem cons (hp : p < x.size) (hmem : p ∉ ps) (hps : ∀ n ∈ ps, n < x.size)
    (h : Opened label ps qs (x.appendChild p (.element label)) y) :
    Opened label (p :: ps) (x.size :: qs) x y := by
  have hone := Earlier.appendChild hp (.element label)
  have hlt {n : Nat} (hn : n < x.size) : n < (x.appendChild p (.element label)).size :=
    Nat.lt_of_lt_of_le hn hone.size_le
  have hsize : x.size < (x.appendChild p (.element label)).size := by
    rw [size_appendChild]
    exact Nat.lt_succ_self _
  have hother (n : Nat) (hn : n < x.size) (hne : n ≠ p) :
      ((x.appendChild p (.element label)).entry n).children = (x.entry n).children := by
    rw [entry_appendChild hp, if_neg (Nat.ne_of_lt hn), if_neg hne]
  -- the new element is left alone by what comes after it
  have hnew : x.size ∉ ps := fun hm => Nat.lt_irrefl _ (hps _ hm)
  have hmade : y.EmptyElement label p x.size := by
    have hentry : (x.appendChild p (.element label)).entry x.size =
        { content := .element label, parent? := some p } := by
      rw [entry_appendChild hp, if_pos rfl]
    refine ⟨?_, ?_, ?_, ?_⟩
    · rw [h.content _ hsize, hentry]
    · rw [h.parent? _ hsize, hentry]
    · rw [h.others _ hsize hnew, hentry]
    · rw [h.attributesOf _ hsize, attributesOf_eq, hentry]
      rfl
  refine ⟨hone.trans h.toEarlier, fun n hn => ?_, fun n hn hne => ?_, ?_, ?_⟩
  · rw [h.attributesOf n (hlt hn), attributesOf_appendChild hp rfl]
  · rw [List.mem_cons, not_or] at hne
    rw [h.others n (hlt hn) hne.2, hother n hn hne.1]
  · refine List.Forall₂.cons ⟨?_, Nat.le_refl _, Nat.lt_of_lt_of_le hsize h.size_le, hmade⟩ ?_
    · rw [h.others p (hlt hp) hmem, entry_appendChild hp, if_neg (Nat.ne_of_lt hp), if_pos rfl]
    · have hold : ∀ r ∈ ps, r < x.size ∧ r ≠ p := fun r hr =>
        ⟨hps r hr, fun hrp => hmem (hrp ▸ hr)⟩
      refine ((List.forall₂_and_left ps qs).2 ⟨hold, h.made⟩).imp fun r q hq => ?_
      rw [hq.2.1, hother r hq.1.1 hq.1.2]
      exact ⟨rfl, Nat.le_trans hone.size_le hq.2.2.1, hq.2.2.2⟩
  · refine List.nodup_cons.2 ⟨fun hm => ?_, h.nodup⟩
    obtain ⟨r, -, hr⟩ := exists_of_forall₂_of_mem h.made hm
    exact absurd hr.2.1 (Nat.not_le.2 hsize)

/-- The new elements, filled afterwards, are one new tree each. -/
theorem fill {attributes : List Attribute} {trees : List Tree} (h : Opened label ps qs x y)
    (h' : Gains (onEach qs attributes) (onEach qs trees) y z) (hz : z.Linked) :
    Gains (onEach ps [])
      (onEach ps [.element label (Attribute.putAll [] attributes) trees]) x z := by
  have hlt {n : Nat} (hn : n < x.size) : n < y.size := Nat.lt_of_lt_of_le hn h.size_le
  -- nothing is given to the nodes that were there
  have hold (n : Nat) (hn : n < x.size) : n ∉ qs := by
    intro hm
    obtain ⟨r, -, hr⟩ := exists_of_forall₂_of_mem h.made hm
    exact absurd hn (Nat.not_lt.2 hr.2.1)
  have hsame (n : Nat) (hn : n < x.size) : SameAt y z n :=
    h'.sameAt (hlt hn) (onEach_of_not_mem (hold n hn)) (onEach_of_not_mem (hold n hn))
  refine ⟨h.toEarlier.trans h'.toEarlier, fun n hn => ?_, fun n hn => ?_⟩
  · rw [(hsame n hn).attributesOf, h.attributesOf n hn, onEach_nil]
    rfl
  · rw [(hsame n hn).children]
    by_cases hp : n ∈ ps
    · rw [onEach_of_mem hp]
      obtain ⟨q, hq, hchildren, hle, hlt', hempty⟩ := exists_of_forall₂_of_mem h.made.flip hp
      refine ⟨[q], hchildren, List.Forall₂.cons ⟨hle, ?_⟩ List.Forall₂.nil⟩
      rw [hz.tree?_eq (Nat.lt_of_lt_of_le hlt' h'.size_le), h'.content q hlt', hempty.content,
        h'.attributesOf q hlt', hempty.attributesOf, onEach_of_mem hq,
        h'.treesBelow_eq hlt' hempty.children, onEach_of_mem hq]
    · rw [onEach_of_not_mem hp, h.others n hn hp]
      exact ⟨[], (List.append_nil _).symm, List.Forall₂.nil⟩

end Opened

end XmlScript.Document
