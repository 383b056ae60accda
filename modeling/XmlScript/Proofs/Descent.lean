import XmlScript.Proofs.Upsert

/-!
# Down to an element and back up

A directive that makes an element below every current node, or looks for one first, is undone by
going up: it comes to exactly one child of each current node, in the order of the nodes, and from
there back to the nodes (`descend_and_return`).

Each node is asked in a document in which other nodes have been given children before, and others
are given children afterwards. Neither changes what is listed below the node itself
(`Elsewhere n x y`), so what is found or made there is what would be found or made alone, and stays
(`forall₂_of_editEach`). Nodes that differ have children that differ, so none of them is lost when
repetitions are dropped (`nodes_ofList_of_parents`).
-/

namespace XmlScript

namespace Document

variable {x x' y z : Document} {n m k : Node} {name : String}

/-- The second document goes on from the first, with nothing new below this node. -/
structure Elsewhere (n : Node) (x y : Document) : Prop extends Earlier x y where
  children_eq : y.children n = x.children n

theorem Elsewhere.refl (n : Node) (x : Document) : Elsewhere n x x where
  toEarlier := Earlier.refl x
  children_eq := rfl

theorem Elsewhere.trans (h : Elsewhere n x y) (h' : Elsewhere n y z) : Elsewhere n x z where
  toEarlier := h.toEarlier.trans h'.toEarlier
  children_eq := h'.children_eq.trans h.children_eq

/-- The second document has a new element of this name, which is the last child of the node. -/
structure Appended (name : String) (n m : Node) (x y : Document) : Prop where
  new : ∃ k, m = .stored k ∧ x.size ≤ k
  content? : y.content? m = some (.element (.plain name))
  parent? : y.parent? m = some n
  children : y.children n = x.children n ++ [m]

/-- What is made below other nodes before and afterwards does not matter. -/
theorem Appended.around (h : Elsewhere n x x') (ha : Appended name n m x' y)
    (h' : Elsewhere n y z) : Appended name n m x z where
  new := by
    obtain ⟨k, hm, hk⟩ := ha.new
    exact ⟨k, hm, Nat.le_trans h.size_le hk⟩
  content? := by
    obtain ⟨k, rfl, -⟩ := ha.new
    have hc := ha.content?
    rw [← hc]
    exact congrArg some (h'.content k (lt_size_of_element (Option.some.inj hc)))
  parent? := h'.parent?_eq ha.parent?
  children := by rw [h'.children_eq, ha.children, h.children_eq]

theorem appended_addElement (h : x.addElement name n = .ok (m, y)) :
    Appended name n m x y ∧ Earlier x y ∧ ∀ k ≠ n, y.children k = x.children k := by
  obtain ⟨p, rfl, rfl, rfl, hp⟩ := addElement_cases h
  have hlt : p < x.size := by
    refine IsContainer.lt_size (d := x) ?_
    exact hp.imp And.left id
  have hentry (m : NodeId) := entry_appendChild (d := x) (m := m) hlt (.element (.plain name))
  refine ⟨⟨⟨x.size, rfl, Nat.le_refl _⟩, ?_, ?_, ?_⟩, Earlier.appendChild hlt _, fun k hk => ?_⟩
  · simp only [content?, hentry, if_true]
  · simp only [Document.parent?, hentry, if_true]
    rfl
  · simp only [Document.children, hentry, if_neg (Nat.ne_of_lt hlt), if_true, List.map_append]
    rfl
  · cases k with
    | binding => rfl
    | stored k =>
      have hkp : k ≠ p := fun he => hk (congrArg Node.stored he)
      simp only [Document.children, hentry, if_neg hkp]
      split
      next hk => rw [hk, entry_of_size_le (Nat.le_refl _)]; rfl
      next => rfl

end Document

namespace Engine

open Document

variable {x x' y : Document} {n m k : Node} {name : String}

/-! ## What is found below a node -/

/-- What is found below a node depends on its own children only. -/
theorem childNamed?_of_elsewhere (hx : x.Linked) (h : Elsewhere n x y) :
    childNamed? name n y = childNamed? name n x := by
  cases n with
  | binding => rfl
  | stored n =>
    have hsame : (y.entry n).children = (x.entry n).children :=
      List.map_injective_iff.2 (fun _ _ => Node.stored.inj) h.children_eq
    have hchildren : y.elementChildren (.stored n) = x.elementChildren (.stored n) := by
      simp only [elementChildren, hsame]
      rw [List.filter_congr fun c hc =>
        isElement_of_earlier h.toEarlier (hx.lt_of_mem_children hc)]
    unfold childNamed?
    rw [hchildren, ← List.head?_filter, ← List.head?_filter, List.filter_congr fun c hc => by
      rw [name?_of_mem_elementChildren hx h.toEarlier hc]]

theorem parent?_of_childNamed? (hx : x.Linked) (h : childNamed? name n x = some m) :
    x.parent? m = some n := by
  have hmem : m ∈ x.elementChildren n := List.mem_of_find?_eq_some h
  cases n with
  | binding => cases hmem
  | stored n =>
    obtain ⟨c, hc, rfl⟩ := List.mem_map.1 hmem
    exact parent?_stored_iff.2 ⟨n, (hx.child_iff.1 (List.mem_filter.1 hc).1).1, rfl⟩

/-- The first child of this name in the second document, with the case of ASCII letters ignored.
It was there in the first one, or there was none of the name and it is new and the last. -/
structure Ensured (name : String) (n m : Node) (x y : Document) : Prop where
  first : childNamed? name n y = some m
  parent? : y.parent? m = some n
  found_or_new : (childNamed? name n x = some m ∧ y.children n = x.children n) ∨
    (childNamed? name n x = none ∧ Appended name n m x y)

theorem Ensured.around (hx : x.Linked) (h : Elsewhere n x x') (he : Ensured name n m x' y)
    (hy : y.Linked) (h' : Elsewhere n y z) : Ensured name n m x z where
  first := childNamed?_of_earlier hy he.first h'.toEarlier
  parent? := h'.parent?_eq he.parent?
  found_or_new := by
    rcases he.found_or_new with ⟨hfound, hchildren⟩ | ⟨hnone, hnew⟩
    · refine Or.inl ⟨?_, ?_⟩
      · rw [← childNamed?_of_elsewhere hx h, hfound]
      · rw [h'.children_eq, hchildren, h.children_eq]
    · refine Or.inr ⟨?_, hnew.around h h'⟩
      rw [← childNamed?_of_elsewhere hx h, hnone]

theorem ensured_ensureElement (hx : x.Linked) (h : ensureElement name n x = .ok (m, y)) :
    Ensured name n m x y ∧ Earlier x y ∧ ∀ k ≠ n, y.children k = x.children k := by
  unfold ensureElement at h
  split at h
  next child hfound =>
    cases h
    exact ⟨⟨hfound, parent?_of_childNamed? hx hfound, Or.inl ⟨hfound, rfl⟩⟩, Earlier.refl x,
      fun _ _ => rfl⟩
  next hnone =>
    obtain ⟨hnew, hearlier, hothers⟩ := appended_addElement h
    obtain ⟨p, rfl, rfl, rfl, hp⟩ := addElement_cases h
    have hlt : p < x.size := IsContainer.lt_size (hp.imp And.left id)
    exact ⟨⟨childNamed?_appendChild hx hlt hnone, hnew.parent?, Or.inr ⟨hnone, hnew⟩⟩, hearlier,
      hothers⟩

/-! ## Node after node -/

/-- An edit that makes something new below the node it is asked of, and nowhere else. -/
structure MakesBelow (edit : Node → Document → Except EditError (Node × Document)) : Prop where
  linked : ∀ {n m x y}, x.Linked → edit n x = .ok (m, y) → y.Linked
  earlier : ∀ {n m x y}, x.Linked → edit n x = .ok (m, y) → Earlier x y
  children : ∀ {n m x y}, x.Linked → edit n x = .ok (m, y) →
    ∀ k ≠ n, y.children k = x.children k

theorem makesBelow_addElement (name : String) : MakesBelow fun n d => d.addElement name n where
  linked hx h := hx.addElement h
  earlier _ h := (appended_addElement h).2.1
  children _ h := (appended_addElement h).2.2

theorem makesBelow_ensureElement (name : String) : MakesBelow (ensureElement name) where
  linked hx h := by
    obtain ⟨hy, -⟩ := repeatable_ensureElement name _ hx h
    exact hy
  earlier hx h := (ensured_ensureElement hx h).2.1
  children hx h := (ensured_ensureElement hx h).2.2

section

variable {edit : Node → Document → Except EditError (Node × Document)} {nodes made : List Node}

/-- Every node is asked in a document that has nothing new below it, and nothing new is made below
it afterwards. -/
theorem forall₂_of_editEach (hedit : MakesBelow edit) (hx : x.Linked) (hnodup : nodes.Nodup)
    (h : editEach edit nodes x = (.ok made, y)) :
    y.Linked ∧ (∀ k ∉ nodes, Elsewhere k x y) ∧
      List.Forall₂ (fun n m => ∃ x₁ x₂, Elsewhere n x x₁ ∧ x₁.Linked ∧ edit n x₁ = .ok (m, x₂) ∧
        x₂.Linked ∧ Elsewhere n x₂ y) nodes made := by
  induction nodes generalizing x made with
  | nil =>
    cases h
    exact ⟨hx, fun k _ => Elsewhere.refl k _, .nil⟩
  | cons n rest ih =>
    obtain ⟨m, x₁, hm, ms, rfl, hrest⟩ := editEach_cons_eq_ok_iff.1 h
    obtain ⟨hn, hnodup⟩ := List.nodup_cons.1 hnodup
    have hx₁ := hedit.linked hx hm
    have hone (k : Node) (hk : k ≠ n) : Elsewhere k x x₁ :=
      ⟨hedit.earlier hx hm, hedit.children hx hm k hk⟩
    obtain ⟨hy, hothers, hall⟩ := ih hx₁ hnodup hrest
    refine ⟨hy, fun k hk => ?_, .cons ?_ ?_⟩
    · rw [List.mem_cons, not_or] at hk
      exact (hone k hk.1).trans (hothers k hk.2)
    · exact ⟨x, x₁, Elsewhere.refl n x, hx, hm, hx₁, hothers n hn⟩
    · -- the first node is none of the others
      have hne : ∀ k ∈ rest, k ≠ n := fun k hk he => hn (he ▸ hk)
      refine ((List.forall₂_and_left rest ms).2 ⟨hne, hall⟩).imp fun k m hkm => ?_
      obtain ⟨hk, x₂, x₃, hbefore, hlater⟩ := hkm
      exact ⟨x₂, x₃, (hone k hk).trans hbefore, hlater⟩

/-- Edits that only look can be made in any number. -/
theorem editEach_of_look (h : List.Forall₂ (fun n m => edit n x = .ok (m, x)) nodes made) :
    editEach edit nodes x = (.ok made, x) := by
  induction h with
  | nil => rfl
  | cons hm _ ih => exact editEach_cons_eq_ok_iff.2 ⟨_, x, hm, _, rfl, ih⟩

end

/-! ## Back up -/

/-- Nodes with different parents are different themselves. -/
theorem nodes_ofList_of_parents {nodes made : List Node} (hnodup : nodes.Nodup)
    (h : List.Forall₂ (fun n m => x.parent? m = some n) nodes made) :
    (Cursor.ofList made).nodes = made := by
  refine distinct_of_nodup ?_
  induction h with
  | nil => exact List.nodup_nil
  | cons hm hrest ih =>
    obtain ⟨hn, hnodup⟩ := List.nodup_cons.1 hnodup
    refine List.nodup_cons.2 ⟨fun hmem => ?_, ih hnodup⟩
    obtain ⟨k, hk, hkm⟩ := exists_of_forall₂_of_mem hrest hmem
    rw [hm] at hkm
    exact hn (Option.some.inj hkm ▸ hk)

/-- From one child of each current node, the way up leads to these nodes. -/
theorem execute_up_of_parents {c c' : Cursor Node} {s : State}
    (h : List.Forall₂ (fun n m => s.document.parent? m = some n) c.nodes c'.nodes) :
    execute .up c' s = (.ok c, s) := by
  have hparents : c'.nodes.mapM (parent .up s.document) = .ok c.nodes := by
    refine mapM_eq_ok_iff.2 (h.flip.imp fun m n hm => ?_)
    simp only [parent, show s.document.parent? m = some n from hm]
  show (parents .up c' s.document, s) = _
  rw [parents, hparents]
  exact Prod.ext (congrArg Except.ok (Cursor.ofList_nodes c)) rfl

/-! ## The directives -/

variable {c c' : Cursor Node} {s s' : State}

/-- What is made below each current node becomes current in its place. -/
theorem forall₂_of_moved {edit : Node → Document → Except EditError (Node × Document)}
    (hedit : MakesBelow edit) (hx : s.document.Linked)
    (h : moved s (editEach edit c.nodes s.document) = (.ok c', s'))
    {R : Node → Node → Prop}
    (hR : ∀ {n m x₁ x₂}, Elsewhere n s.document x₁ → x₁.Linked → edit n x₁ = .ok (m, x₂) →
      x₂.Linked → Elsewhere n x₂ s'.document → s'.document.parent? m = some n ∧ R n m) :
    s'.saved = s.saved ∧ s'.document.Linked ∧ List.Forall₂ R c.nodes c'.nodes ∧
      execute .up c' s' = (.ok c, s') := by
  obtain ⟨made, rfl, hmade, hsaved⟩ := moved_eq_ok_iff.1 h
  obtain ⟨hy, -, hall⟩ := forall₂_of_editEach hedit hx c.nodup hmade
  have hboth : List.Forall₂ (fun n m => s'.document.parent? m = some n ∧ R n m) c.nodes made := by
    refine hall.imp fun n m hm => ?_
    obtain ⟨x₁, x₂, hbefore, hx₁, he, hx₂, hafter⟩ := hm
    exact hR hbefore hx₁ he hx₂ hafter
  have hnodes := nodes_ofList_of_parents c.nodup (hboth.imp fun _ _ h => h.1)
  refine ⟨hsaved, hy, ?_, execute_up_of_parents ?_⟩
  · rw [hnodes]
    exact hboth.imp fun _ _ h => h.2
  · rw [hnodes]
    exact hboth.imp fun _ _ h => h.1

/-- Making an element below every current node, or looking for one first, leads to one child of
each, in their order, and going up leads back. What is made is new and stands last. What was looked
for is the first child of the name and stays so, and is made only where there was none; to look
again changes nothing and comes to the same children. -/
theorem descend_and_return {d : Document} (hd : d.Reachable) (c : Cursor Node)
    (saved : Stack Node) (name : Arg) :
    (∀ c₁ s₁, execute (.addElement name) c ⟨d, saved⟩ = (.ok c₁, s₁) →
      s₁.saved = saved ∧ c₁.size = c.size ∧
        List.Forall₂ (fun n m => Appended name.raw n m d s₁.document) c.nodes c₁.nodes ∧
        execute .up c₁ s₁ = (.ok c, s₁)) ∧
    ∀ c₁ s₁, execute (.ensureElement name) c ⟨d, saved⟩ = (.ok c₁, s₁) →
      s₁.saved = saved ∧ c₁.size = c.size ∧
        List.Forall₂ (fun n m => Ensured name.raw n m d s₁.document) c.nodes c₁.nodes ∧
        execute .up c₁ s₁ = (.ok c, s₁) ∧
        execute (.ensureElement name) c s₁ = (.ok c₁, s₁) := by
  refine ⟨fun c₁ s₁ h => ?_, fun c₁ s₁ h => ?_⟩
  · obtain ⟨hsaved, -, hall, hup⟩ := forall₂_of_moved (makesBelow_addElement name.raw) hd.linked h
      fun hbefore _ he _ hafter => by
        have hnew := (appended_addElement he).1.around hbefore hafter
        exact ⟨hnew.parent?, hnew⟩
    exact ⟨hsaved, hall.length_eq.symm, hall, hup⟩
  · obtain ⟨hsaved, -, hall, hup⟩ := forall₂_of_moved (makesBelow_ensureElement name.raw) hd.linked
      h fun hbefore hx₁ he hx₂ hafter => by
        have hfound := (ensured_ensureElement hx₁ he).1.around hd.linked hbefore hx₂ hafter
        exact ⟨hfound.parent?, hfound⟩
    have hagain : editEach (ensureElement name.raw) c.nodes s₁.document =
        (.ok c₁.nodes, s₁.document) := by
      refine editEach_of_look (hall.imp fun n m hm => ?_)
      simp only [ensureElement, hm.first]
    refine ⟨hsaved, hall.length_eq.symm, hall, hup, ?_⟩
    exact moved_eq_ok_iff.2 ⟨c₁.nodes, Cursor.ofList_nodes c₁, hagain, rfl⟩

/-- A node and its parent are current, and what is found below the parent is the node. -/
theorem descend_and_return_nested :
    let name : Arg := ⟨"b", Literal.check_eq_ok_iff.1 rfl⟩
    let c : Cursor Node := ⟨[.stored 2, .stored 1], by decide⟩
    let made : Cursor Node := ⟨[.stored 3, .stored 4], by decide⟩
    let found : Cursor Node := ⟨[.stored 3, .stored 2], by decide⟩
    ∃ d, Markup.read? "<a><B/></a>" = some d ∧ d.Reachable ∧
      (∃ s, execute (.addElement name) c ⟨d, []⟩ = (.ok made, s) ∧
        List.Forall₂ (fun n m => Appended "b" n m d s.document) c.nodes made.nodes ∧
        execute .up made s = (.ok c, s)) ∧
      ∃ s, execute (.ensureElement name) c ⟨d, []⟩ = (.ok found, s) ∧
        List.Forall₂ (fun n m => Ensured "b" n m d s.document) c.nodes found.nodes ∧
        execute .up found s = (.ok c, s) ∧ execute (.ensureElement name) c s = (.ok found, s) := by
  intro name c made found
  obtain ⟨d, hd⟩ := Option.isSome_iff_exists.1
    (by decide +kernel : (Markup.read? "<a><B/></a>").isSome = true)
  have hruns : (Markup.read? "<a><B/></a>").all (fun d =>
      (execute (.addElement name) c ⟨d, []⟩).1 = .ok made ∧
        (execute (.ensureElement name) c ⟨d, []⟩).1 = .ok found) = true := by
    decide +kernel
  rw [hd] at hruns
  obtain ⟨hmade, hfound⟩ := of_decide_eq_true hruns
  obtain ⟨hadd, hensure⟩ := descend_and_return (.read hd) c [] name
  obtain ⟨-, -, hnew, hup⟩ := hadd made _ (Prod.ext hmade rfl)
  obtain ⟨-, -, hfirst, hup', hagain⟩ := hensure found _ (Prod.ext hfound rfl)
  exact ⟨d, hd, .read hd, ⟨_, Prod.ext hmade rfl, hnew, hup⟩, _, Prod.ext hfound rfl, hfirst, hup',
    hagain⟩

end Engine

end XmlScript
