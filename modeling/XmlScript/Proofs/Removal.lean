import XmlScript.Document.Around
import XmlScript.Proofs.Attributes
import XmlScript.Proofs.Locality
import XmlScript.Proofs.WellFormed

/-!
# Taking nodes out

What becomes of a document when nodes are taken out of it is said by one equation for all entries
(`Document.Without`): the nodes have no parent any more and are in no list, and nothing else is
different. So a node that is taken out keeps what is below it, but for what is taken out as well,
and all that stays keeps its place.

A removal asks all current nodes for their parents before the first one goes, and looks the parents
up again while nodes go. Both agree, because taking one node out changes the parent of no other
(`exists_removed`). Attributes are the exception: they are taken out by their name, so with one
whose place another has taken it is the other that goes (`Document.goneWith`).
-/

namespace XmlScript

namespace Document

variable {d d' : Document} {n m : Node} {gone gone' : List Node}

/-! ## Documents without some nodes -/

/-- Some nodes are out of the lists that they were in and have no parent, and nothing else is
different. -/
structure Without (gone : List Node) (d d' : Document) : Prop where
  size_eq : d'.size = d.size
  entry : ∀ n, d'.entry n = { d.entry n with
    parent? := if .stored n ∈ gone then none else (d.entry n).parent?
    children := (d.entry n).children.filter (.stored · ∉ gone)
    attributes := (d.entry n).attributes.filter (.stored · ∉ gone) }

namespace Without

theorem nil (d : Document) : Without [] d d where
  size_eq := rfl
  entry n := by simp

theorem congr (h : Without gone d d') (hg : ∀ n, n ∈ gone ↔ n ∈ gone') : Without gone' d d' where
  size_eq := h.size_eq
  entry n := by
    rw [h.entry]
    simp only [hg]

theorem trans {d'' : Document} (h : Without gone d d') (h' : Without gone' d' d'') :
    Without (gone ++ gone') d d'' where
  size_eq := h'.size_eq.trans h.size_eq
  entry n := by
    rw [h'.entry, h.entry]
    simp only [List.filter_filter, List.mem_append, not_or, Bool.decide_and, Bool.and_comm]
    congr 1
    by_cases hn : Node.stored n ∈ gone
    · simp [hn]
    · simp [hn]

theorem content?_eq (h : Without gone d d') (n : Node) : d'.content? n = d.content? n := by
  cases n with
  | stored n => simp only [content?, h.entry]
  | binding => rfl

theorem parent?_eq (h : Without gone d d') (hn : n ∉ gone) : d'.parent? n = d.parent? n := by
  cases n with
  | stored n => simp only [Document.parent?, h.entry, if_neg hn]
  | binding => rfl

theorem parent?_eq_none (h : Without gone d d') (hn : n ∈ gone) : d'.parent? n = none := by
  cases n with
  | stored n => simp only [Document.parent?, h.entry, if_pos hn, Option.map_none]
  | binding => rfl

theorem attributes_eq (h : Without gone d d') (n : Node) :
    d'.attributes n = (d.attributes n).filter (· ∉ gone) := by
  cases n with
  | stored n =>
    simp only [attributes, h.entry, List.filter_map]
    rfl
  | binding => rfl

end Without

/-! ## What goes with a node -/

/-- The nodes that go when one is taken out: an attribute is found by its name among those that its
element has, every other node is found itself. -/
def goneWith (d : Document) (n : Node) : List Node :=
  match d.content? n, d.parent? n with
  | some (.attribute a), some p => (d.attributes p).filter fun x => d.expandedName? x = some a.name
  | _, _ => [n]

/-- A node whose place no other has taken. Only attributes are replaced. -/
def IsCurrent (d : Document) (n : Node) : Prop :=
  d.isAttribute n = true → ∀ p ∈ d.parent? n, n ∈ d.attributes p

instance (d : Document) (n : Node) : Decidable (d.IsCurrent n) :=
  inferInstanceAs (Decidable (_ → _))

theorem isAttribute_eq_true_iff :
    d.isAttribute n = true ↔ ∃ a, d.content? n = some (.attribute a) := by
  unfold isAttribute
  constructor
  · intro h
    split at h
    next a ha => exact ⟨a, ha⟩
    next => cases h
  · intro h
    obtain ⟨a, ha⟩ := h
    rw [ha]

theorem content?_ne_attribute (h : d.isAttribute n = false) (a : Attribute) :
    d.content? n ≠ some (.attribute a) := by
  intro ha
  rw [isAttribute_eq_true_iff.2 ⟨a, ha⟩] at h
  cases h

theorem goneWith_of_not_attribute (h : d.isAttribute n = false) : d.goneWith n = [n] := by
  unfold isAttribute at h
  unfold goneWith
  split
  next hc _ =>
    rw [hc] at h
    cases h
  next => rfl

theorem mem_goneWith_attribute {a : Attribute} {p : Node} (hc : d.content? n = some (.attribute a))
    (hp : d.parent? n = some p) :
    m ∈ d.goneWith n ↔ m ∈ d.attributes p ∧ d.expandedName? m = some a.name := by
  unfold goneWith
  simp only [hc, hp, List.mem_filter, decide_eq_true_eq]

/-- With a current node nothing else goes, since two attributes of an element have two names. -/
theorem Linked.mem_goneWith (h : d.Linked) (hp : d.parent? n ≠ none) (hn : d.IsCurrent n) :
    m ∈ d.goneWith n ↔ m = n := by
  cases ha : d.isAttribute n with
  | false => rw [goneWith_of_not_attribute ha, List.mem_singleton]
  | true =>
    obtain ⟨p, hp⟩ := Option.ne_none_iff_exists'.1 hp
    obtain ⟨a, hc⟩ := isAttribute_eq_true_iff.1 ha
    rw [mem_goneWith_attribute hc hp]
    have hmem := hn ha p hp
    have hname : d.expandedName? n = some a.name := by simp only [expandedName?, hc]
    constructor
    · intro hm
      exact List.inj_on_of_nodup_map (h.nodup_names p) hm.1 hmem (hm.2.trans hname.symm)
    · intro hm
      rw [hm]
      exact ⟨hmem, hname⟩

/-- What goes with a node later is what would have gone with it before and is still there. -/
theorem Without.mem_goneWith (h : Without gone d d') (hn : n ∉ gone) :
    m ∈ d'.goneWith n ↔ m ∈ d.goneWith n ∧ m ∉ gone := by
  have hname : d'.expandedName? m = d.expandedName? m := by
    unfold expandedName?
    rw [h.content?_eq]
  have halone (hm : m = n) : m ∉ gone := hm ▸ hn
  by_cases hc : ∃ a p, d.content? n = some (.attribute a) ∧ d.parent? n = some p
  · obtain ⟨a, p, hc, hp⟩ := hc
    rw [mem_goneWith_attribute hc hp, mem_goneWith_attribute (by rw [h.content?_eq, hc])
      (by rw [h.parent?_eq hn, hp]), h.attributes_eq, hname, List.mem_filter, decide_eq_true_eq]
    exact and_right_comm
  · have hself : d'.goneWith n = [n] ∧ d.goneWith n = [n] := by
      unfold goneWith
      rw [h.content?_eq, h.parent?_eq hn]
      constructor
      all_goals
        split
        next a p hca hp => exact absurd ⟨a, p, hca, hp⟩ hc
        next => rfl
    rw [hself.1, hself.2, List.mem_singleton]
    exact (and_iff_left_of_imp halone).symm

/-! ## One node -/

/-- A node that has a parent is not refused. -/
theorem exists_remove (hp : d.parent? n ≠ none) : ∃ d', d.remove n = .ok d' := by
  cases n with
  | binding => exact absurd rfl hp
  | stored id =>
    unfold remove
    simp only
    split
    next hnone => exact absurd (parent?_stored_eq_none_iff.2 hnone) hp
    next => exact ⟨_, rfl⟩
    next => exact ⟨_, rfl⟩

theorem without_remove (h : d.Linked) (he : d.remove n = .ok d') :
    Without (d.goneWith n) d d' := by
  obtain ⟨id, p, rfl, hp, ⟨a, hc, rfl⟩ | ⟨hna, rfl⟩⟩ := remove_cases he
  · have hcn : d.content? (.stored id) = some (.attribute a) := congrArg some hc
    have hgone (m : NodeId) : .stored m ∈ d.goneWith (.stored id) ↔
        m ∈ (d.entry p).attributes ∧ d.isAttributeNamed a.name m = true := by
      rw [mem_goneWith_attribute hcn (parent?_stored hp), expandedName?_stored]
      show .stored m ∈ (d.entry p).attributes.map Node.stored ∧ _ ↔ _
      rw [List.mem_map_of_injective fun _ _ => Node.stored.inj]
      refine and_congr_right fun hm => ?_
      obtain ⟨b, hb⟩ := Content.isAttribute_iff.1 (h.owner hm).1
      rw [isAttributeNamed_of_attributeAt? _ (attributeAt?_eq_some_iff.2 hb), hb]
      simp [Content.name?]
    refine ⟨by simp [dropAttribute], fun m => ?_⟩
    -- no child is an attribute, and no other element has the attributes that go
    have hchildren : (d.entry m).children.filter (.stored · ∉ d.goneWith (.stored id)) =
        (d.entry m).children := by
      refine List.filter_eq_self.2 fun x hx => decide_eq_true fun hg => ?_
      have hna := (h.child_iff.1 hx).2
      rw [(h.owner ((hgone x).1 hg).1).1] at hna
      cases hna
    have hattributes : (d.entry m).attributes.filter (.stored · ∉ d.goneWith (.stored id)) =
        if m = p then (d.entry m).attributes.filter (!d.isAttributeNamed a.name ·)
        else (d.entry m).attributes := by
      split
      next hm =>
        refine List.filter_congr fun x hx => ?_
        rw [hm] at hx
        simp only [hgone, hx, true_and, Bool.decide_eq_true, decide_not]
      next hm =>
        refine List.filter_eq_self.2 fun x hx => decide_eq_true fun hg => hm ?_
        exact Option.some.inj ((h.owner hx).2.symm.trans (h.owner ((hgone x).1 hg).1).2)
    rw [entry_dropAttribute, hchildren, hattributes]
    simp only [hgone, List.mem_filter]
  · have hna' : d.isAttribute (.stored id) = false := by rw [isAttribute_stored, hna]
    rw [goneWith_of_not_attribute hna']
    refine ⟨by simp [detach], fun m => ?_⟩
    have hattributes : (d.entry m).attributes.filter (.stored · ∉ [Node.stored id]) =
        (d.entry m).attributes := by
      refine List.filter_eq_self.2 fun x hx => decide_eq_true fun hg => ?_
      cases List.mem_singleton.1 hg
      rw [(h.owner hx).1] at hna
      cases hna
    have hchildren : (d.entry m).children.filter (.stored · ∉ [Node.stored id]) =
        if m = p then (d.entry m).children.filter (· ≠ id) else (d.entry m).children := by
      split
      next => simp
      next hm =>
        refine List.filter_eq_self.2 fun x hx => decide_eq_true fun hg => hm ?_
        cases List.mem_singleton.1 hg
        exact Option.some.inj ((h.child_iff.1 hx).1.symm.trans hp)
    rw [entry_detach, hchildren, hattributes]
    simp

end Document

namespace Engine

open Document

variable {d : Document} {c : Cursor Node}

/-! ## Several nodes -/

/-- Nodes that have parents are taken out one after the other, unless one has gone with another
before it is its turn. -/
theorem exists_removed (h : d.Linked) {nodes : List Node}
    (hparents : ∀ n ∈ nodes, d.parent? n ≠ none)
    (hfree : nodes.Pairwise fun m n => n ∉ d.goneWith m) :
    ∃ d', editEach (keeping Document.remove) nodes d = (.ok nodes, d') ∧
      Without (nodes.flatMap d.goneWith) d d' := by
  induction nodes generalizing d with
  | nil => exact ⟨d, rfl, Without.nil d⟩
  | cons m rest ih =>
    obtain ⟨hm, hrest⟩ := List.pairwise_cons.1 hfree
    obtain ⟨d₁, he⟩ := exists_remove (hparents m (List.mem_cons_self ..))
    have hone := without_remove h he
    obtain ⟨d', hd', hothers⟩ := ih (h.remove he)
      (fun n hn => by
        rw [hone.parent?_eq (hm n hn)]
        exact hparents n (List.mem_cons_of_mem _ hn))
      (hrest.imp_of_mem fun {k n} hk _ hkn hg => hkn ((hone.mem_goneWith (hm k hk)).1 hg).1)
    refine ⟨d', ?_, (hone.trans hothers).congr fun n => ?_⟩
    · rw [editEach, keeping, he]
      simp only [Except.map, hd']
    · -- what has gone with the first node cannot go once more
      have hlater (k : Node) (hk : k ∈ rest) := hone.mem_goneWith (m := n) (hm k hk)
      rw [List.flatMap_cons, List.mem_append, List.mem_append, List.mem_flatMap, List.mem_flatMap]
      constructor
      · intro hn
        rcases hn with hn | ⟨k, hk, hn⟩
        · exact Or.inl hn
        · exact Or.inr ⟨k, hk, ((hlater k hk).1 hn).1⟩
      · intro hn
        by_cases hg : n ∈ d.goneWith m
        · exact Or.inl hg
        · obtain ⟨k, hk, hn⟩ := hn.resolve_left hg
          exact Or.inr ⟨k, hk, (hlater k hk).2 ⟨hn, hg⟩⟩

/-! ## Parents -/

theorem parents_eq_ok {ascent : Ascent} (h : ∀ n ∈ c.nodes, d.parent? n ≠ none) :
    parents ascent c d = .ok (Cursor.ofList (c.nodes.filterMap d.parent?)) := by
  have hall : ∀ nodes : List Node, (∀ n ∈ nodes, d.parent? n ≠ none) →
      nodes.mapM (parent ascent d) = .ok (nodes.filterMap d.parent?) := by
    intro nodes hnodes
    induction nodes with
    | nil => rfl
    | cons n rest ih =>
      obtain ⟨p, hp⟩ := Option.ne_none_iff_exists'.1 (hnodes n (List.mem_cons_self ..))
      have hn : parent ascent d n = .ok p := by simp only [parent, hp]
      rw [mapM_cons_eq, hn, ih fun n hn => hnodes n (List.mem_cons_of_mem _ hn),
        List.filterMap_cons_some hp]
      rfl
  rw [parents, hall c.nodes h]
  rfl

theorem parents_eq_error_of_first {ascent : Ascent} {before after : List Node} {n : Node}
    (hnodes : c.nodes = before ++ n :: after) (hbefore : ∀ m ∈ before, d.parent? m ≠ none)
    (hn : d.parent? n = none) : parents ascent c d = .error (.noParent ascent (d.path n)) := by
  have hfails : parent ascent d n = .error (.noParent ascent (d.path n)) := by
    simp only [parent, hn]
  have hasks : ∀ m ∈ before, ∃ p, parent ascent d m = .ok p := by
    intro m hm
    obtain ⟨p, hp⟩ := Option.ne_none_iff_exists'.1 (hbefore m hm)
    exact ⟨p, by simp only [parent, hp]⟩
  rw [parents, hnodes, mapM_eq_error_of_first hasks hfails]
  rfl

/-! ## The directive -/

theorem execute_remove (h : d.Linked) (saved : Stack Node)
    (hparents : ∀ n ∈ c.nodes, d.parent? n ≠ none)
    (hfree : c.nodes.Pairwise fun m n => n ∉ d.goneWith m) :
    ∃ d', execute .remove c ⟨d, saved⟩ =
        (.ok (Cursor.ofList (c.nodes.filterMap d.parent?)), ⟨d', saved⟩) ∧
      Without (c.nodes.flatMap d.goneWith) d d' := by
  obtain ⟨d', hd', hwithout⟩ := exists_removed h hparents hfree
  refine ⟨d', ?_, hwithout⟩
  unfold execute
  simp only [parents_eq_ok hparents, editNodes, hd']
  rfl

/-- A removal is refused before anything goes if a current node has no parent; the first such node
is named. Otherwise, if no attribute among the current nodes has been replaced, all of them are
taken out, whatever is above or below what, and nothing else changes; what was their parent before
becomes current. With a replaced attribute the one goes that its element has instead, and only a
node that has gone so with another is refused. -/
theorem remove_all_or_nothing (hd : d.Reachable) (c : Cursor Node) (saved : Stack Node) :
    (∀ before n after, c.nodes = before ++ n :: after →
      (∀ m ∈ before, d.parent? m ≠ none) → d.parent? n = none →
        execute .remove c ⟨d, saved⟩ = (.error (.noParent .remove (d.path n)), ⟨d, saved⟩)) ∧
    ((∀ n ∈ c.nodes, d.parent? n ≠ none) → (∀ n ∈ c.nodes, d.IsCurrent n) →
      ∃ d', execute .remove c ⟨d, saved⟩ =
          (.ok (Cursor.ofList (c.nodes.filterMap d.parent?)), ⟨d', saved⟩) ∧
        Without c.nodes d d' ∧ ∀ n ∈ c.nodes, d'.parent? n = none) ∧
    ((∀ n ∈ c.nodes, d.parent? n ≠ none) → (c.nodes.Pairwise fun m n => n ∉ d.goneWith m) →
      ∃ d', execute .remove c ⟨d, saved⟩ =
          (.ok (Cursor.ofList (c.nodes.filterMap d.parent?)), ⟨d', saved⟩) ∧
        Without (c.nodes.flatMap d.goneWith) d d') := by
  refine ⟨fun before n after hnodes hbefore hn => ?_, fun hparents hcurrent => ?_,
    execute_remove hd.linked saved⟩
  · unfold execute
    simp only [parents_eq_error_of_first hnodes hbefore hn]
  · have hgone {m n : Node} (hm : m ∈ c.nodes) : n ∈ d.goneWith m ↔ n = m :=
      hd.linked.mem_goneWith (hparents m hm) (hcurrent m hm)
    have hfree : c.nodes.Pairwise fun m n => n ∉ d.goneWith m :=
      c.nodup.imp_of_mem fun hm _ hne hg => hne ((hgone hm).1 hg).symm
    obtain ⟨d', hd', hwithout⟩ := execute_remove hd.linked saved hparents hfree
    have hsame : Without c.nodes d d' := hwithout.congr fun n => by
      rw [List.mem_flatMap]
      constructor
      · intro h
        obtain ⟨m, hm, hn⟩ := h
        rw [(hgone hm).1 hn]
        exact hm
      · intro hn
        exact ⟨n, hn, (hgone hn).2 rfl⟩
    exact ⟨d', hd', hsame, fun n hn => hsame.parent?_eq_none hn⟩

/-- A child, an attribute, their element and a comment are taken out together: the child leaves the
element as well, which keeps its text. -/
theorem remove_all_or_nothing_nested :
    let c : Cursor Node := ⟨[.stored 4, .stored 2, .stored 3, .stored 6], by decide⟩
    ∃ d, Markup.read? "<a x='1'><b><c/>t</b><!--k--><e/></a>" = some d ∧ d.Reachable ∧
      (∀ n ∈ c.nodes, d.parent? n ≠ none) ∧ (∀ n ∈ c.nodes, d.IsCurrent n) ∧
      ∃ d', execute .remove c ⟨d, []⟩ = (.ok ⟨[.stored 3, .stored 1], by decide⟩, ⟨d', []⟩) ∧
        Without c.nodes d d' ∧ (∀ n ∈ c.nodes, d'.parent? n = none) ∧
        (d'.entry 1).children = [7] ∧ (d'.entry 3).children = [5] := by
  intro c
  obtain ⟨d, hd⟩ := Option.isSome_iff_exists.1
    (by decide +kernel : (Markup.read? "<a x='1'><b><c/>t</b><!--k--><e/></a>").isSome = true)
  have hlooks : (Markup.read? "<a x='1'><b><c/>t</b><!--k--><e/></a>").all (fun d =>
      (∀ n ∈ c.nodes, d.parent? n ≠ none) ∧ (∀ n ∈ c.nodes, d.IsCurrent n) ∧
        c.nodes.filterMap d.parent? = [.stored 3, .stored 1, .stored 1, .stored 1] ∧
        (d.entry 1).children = [3, 6, 7] ∧ (d.entry 3).children = [4, 5]) = true := by
    decide +kernel
  rw [hd] at hlooks
  obtain ⟨hparents, hcurrent, habove, h₁, h₃⟩ := of_decide_eq_true hlooks
  obtain ⟨d', hd', hwithout, hnone⟩ := (remove_all_or_nothing (.read hd) c []).2.1 hparents hcurrent
  refine ⟨d, hd, .read hd, hparents, hcurrent, d', ?_, hwithout, hnone, ?_, ?_⟩
  · rw [hd', habove]
    rfl
  · rw [hwithout.entry, h₁]
    rfl
  · rw [hwithout.entry, h₃]
    rfl

/-- An attribute that was replaced when its text was set still knows its element. To take it out is
granted, but it is the new attribute that goes, which is not current, and the node that is current
keeps its parent. -/
theorem remove_replaced_attribute :
    let c : Cursor Node := ⟨[.stored 2], by decide⟩
    let text : Arg := ⟨"2", Literal.check_eq_ok_iff.1 rfl⟩
    ∃ d, Markup.read? "<a x='1'/>" = some d ∧ d.Reachable ∧
      ∃ s, execute (.setText text) c ⟨d, []⟩ = (.ok c, s) ∧ s.document.Reachable ∧
        (∀ n ∈ c.nodes, s.document.parent? n ≠ none) ∧
        s.document.attributes (.stored 1) = [.stored 3] ∧
        ∃ s', execute .remove c s = (.ok ⟨[.stored 1], by decide⟩, s') ∧
          s'.document.parent? (.stored 2) = some (.stored 1) ∧
          s'.document.attributes (.stored 1) = [] := by
  intro c text
  obtain ⟨d, hd⟩ := Option.isSome_iff_exists.1
    (by decide +kernel : (Markup.read? "<a x='1'/>").isSome = true)
  have hruns : (Markup.read? "<a x='1'/>").all (fun d =>
      let s := (execute (.setText text) c ⟨d, []⟩).2
      let s' := (execute .remove c s).2
      (execute (.setText text) c ⟨d, []⟩).1 = .ok c ∧
        (∀ n ∈ c.nodes, s.document.parent? n ≠ none) ∧
        s.document.attributes (.stored 1) = [.stored 3] ∧
        (execute .remove c s).1 = .ok ⟨[.stored 1], by decide⟩ ∧
        s'.document.parent? (.stored 2) = some (.stored 1) ∧
        s'.document.attributes (.stored 1) = []) = true := by
    decide +kernel
  rw [hd] at hruns
  obtain ⟨hset, hparents, hattributes, hremove, hparent, hnone⟩ := of_decide_eq_true hruns
  exact ⟨d, hd, .read hd, _, Prod.ext hset rfl,
    (Reachable.read hd).act (.execute (.setText text) c []), hparents, hattributes, _,
    Prod.ext hremove rfl, hparent, hnone⟩

end Engine

end XmlScript
