import XmlScript.Document.Edit

/-!
# Entries after a change

A document is known by its entries, so a change is described here by what every entry is
afterwards: one equation for each way of changing a document, in which all numbers that the change
does not concern keep their entry. Facts about edits are read off these equations and never unfold
the store itself.

The equations hold for numbers that no node has as well, since such a number reads as a detached
empty comment before and after (`entry_of_size_le`). Only a new node needs a parent that exists.
-/

namespace XmlScript.Document

variable {d : Document} {n m p : NodeId}

/-! ## Numbers without a node -/

theorem entry_of_size_le (h : d.size ≤ n) : d.entry n = .absent := by
  rw [entry, Array.getElem?_eq_none h]
  rfl

theorem lt_size_of_entry_ne (h : d.entry n ≠ .absent) : n < d.size := by
  by_cases hn : n < d.size
  · exact hn
  · exact absurd (entry_of_size_le (Nat.le_of_not_lt hn)) h

/-- What is no comment is there. -/
theorem lt_size_of_content (h : ∀ s, (d.entry n).content ≠ .comment s) : n < d.size := by
  apply lt_size_of_entry_ne
  intro he
  exact h "" (congrArg Entry.content he)

theorem lt_size_of_element {label : Label} (h : (d.entry n).content = .element label) :
    n < d.size :=
  lt_size_of_content fun s hs => by rw [h] at hs; cases hs

theorem lt_size_of_parent? (h : (d.entry n).parent? = some p) : n < d.size := by
  apply lt_size_of_entry_ne
  intro he
  rw [he] at h
  cases h

/-! ## Single changes -/

/-- A change that an absent entry does not show. -/
theorem entry_modify_of_absent {f : Entry → Entry} (hf : f .absent = .absent) :
    (d.modify n f).entry m = if m = n then f (d.entry m) else d.entry m := by
  rw [entry_modify]
  by_cases hm : m = n
  · subst hm
    by_cases hn : m < d.size
    · rw [if_pos ⟨rfl, hn⟩, if_pos rfl]
    · rw [if_neg fun h => hn h.2, if_pos rfl, entry_of_size_le (Nat.le_of_not_lt hn), hf]
  · rw [if_neg fun h => hm h.1, if_neg hm]

/-- A new node and a change of an older one. -/
theorem entry_create_modify (hp : p < d.size) (e : Entry) (f : Entry → Entry) :
    ((d.create e).modify p f).entry m =
      if m = d.size then e else if m = p then f (d.entry m) else d.entry m := by
  have hp' : p < (d.create e).size := by
    rw [size_create]
    exact Nat.lt_succ_of_lt hp
  have hpe : p ≠ d.size := Nat.ne_of_lt hp
  rw [entry_modify, entry_create, entry_create]
  by_cases hm : m = p
  · subst hm
    rw [if_pos ⟨rfl, hp'⟩, if_neg hpe, if_neg hpe, if_pos rfl]
  · rw [if_neg fun h => hm h.1, if_neg hm]

/-- Nodes that lose their parent. -/
theorem entry_foldl_orphan (l : List NodeId) (d : Document) (m : NodeId) :
    (l.foldl (fun d x => d.modify x fun e => { e with parent? := none }) d).entry m =
      { d.entry m with parent? := if m ∈ l then none else (d.entry m).parent? } := by
  induction l generalizing d with
  | nil => rfl
  | cons x rest ih =>
    rw [List.foldl_cons, ih, entry_modify_of_absent rfl]
    by_cases hx : m = x
    · rw [if_pos hx, if_pos (List.mem_cons.2 (Or.inl hx)), ite_self]
    · rw [if_neg hx]
      simp only [List.mem_cons, hx, false_or]

/-! ## Growing -/

theorem entry_appendChild (hp : p < d.size) (c : Content) :
    (d.appendChild p c).entry m =
      if m = d.size then { content := c, parent? := some p }
      else if m = p then { d.entry m with children := (d.entry m).children ++ [d.size] }
      else d.entry m :=
  entry_create_modify hp _ _

@[simp] theorem size_appendChild (d : Document) (p : NodeId) (c : Content) :
    (d.appendChild p c).size = d.size + 1 := by
  rw [appendChild, size_modify, size_create]

theorem entry_appendAttribute (hp : p < d.size) (a : Attribute) :
    (d.appendAttribute p a).entry m =
      if m = d.size then { content := .attribute a, parent? := some p }
      else if m = p then { d.entry m with attributes := (d.entry m).attributes ++ [d.size] }
      else d.entry m :=
  entry_create_modify hp _ _

@[simp] theorem size_appendAttribute (d : Document) (p : NodeId) (a : Attribute) :
    (d.appendAttribute p a).size = d.size + 1 := by
  rw [appendAttribute, size_modify, size_create]

/-! ## Taking away -/

theorem entry_detach :
    (d.detach p n).entry m =
      { d.entry m with
        children := if m = p then (d.entry m).children.filter (· ≠ n) else (d.entry m).children
        parent? := if m = n then none else (d.entry m).parent? } := by
  rw [detach, entry_modify_of_absent rfl, entry_modify_of_absent rfl]
  by_cases hn : m = n
  · by_cases hp : m = p
    · rw [if_pos hn, if_pos hp, if_pos hn, if_pos hp]
    · rw [if_pos hn, if_neg hp, if_pos hn, if_neg hp]
  · by_cases hp : m = p
    · rw [if_neg hn, if_pos hp, if_neg hn, if_pos hp]
    · rw [if_neg hn, if_neg hp, if_neg hn, if_neg hp]

theorem entry_clearChildren :
    (d.clearChildren n).entry m =
      { d.entry m with
        children := if m = n then [] else (d.entry m).children
        parent? := if m ∈ (d.entry n).children then none else (d.entry m).parent? } := by
  rw [clearChildren, entry_foldl_orphan, entry_modify_of_absent rfl]
  by_cases hn : m = n
  · rw [if_pos hn, if_pos hn]
  · rw [if_neg hn, if_neg hn]

@[simp] theorem size_foldl_orphan (l : List NodeId) (d : Document) :
    (l.foldl (fun d x => d.modify x fun e => { e with parent? := none }) d).size = d.size := by
  induction l generalizing d with
  | nil => rfl
  | cons x rest ih => rw [List.foldl_cons, ih, size_modify]

@[simp] theorem size_clearChildren (d : Document) (n : NodeId) :
    (d.clearChildren n).size = d.size := by
  rw [clearChildren, size_foldl_orphan, size_modify]

/-- A node without children is left as it is. -/
theorem clearChildren_eq_self (h : (d.entry n).children = []) : d.clearChildren n = d := by
  have hsame (e : Entry) (he : e.children = []) : { e with children := [] } = e := by
    cases e
    cases he
    rfl
  unfold clearChildren
  rw [h, List.foldl_nil]
  show (⟨d.entries.modify n fun e => { e with children := [] }⟩ : Document) = d
  refine congrArg Document.mk (Array.ext (Array.size_modify ..) fun i hi hi' => ?_)
  rw [Array.getElem_modify]
  split
  next hn =>
    subst hn
    have he : d.entry n = d.entries[n] := by rw [entry, Array.getElem?_eq_getElem hi']; rfl
    rw [he] at h
    exact hsame _ h
  next => rfl

/-! ## Attributes -/

theorem entry_keepAttributes (q : NodeId → Bool) :
    (d.modify p fun e => { e with attributes := (d.entry p).attributes.filter q }).entry m =
      { d.entry m with
        attributes := if m = p then (d.entry m).attributes.filter q
          else (d.entry m).attributes } := by
  rw [entry_modify]
  by_cases hm : m = p
  · subst hm
    -- a node that is not there has no attributes to keep
    by_cases hp : m < d.size
    · rw [if_pos ⟨rfl, hp⟩, if_pos rfl]
    · rw [if_neg fun h => hp h.2, if_pos rfl, entry_of_size_le (Nat.le_of_not_lt hp)]
      rfl
  · rw [if_neg fun h => hm h.1, if_neg hm]

@[simp] theorem size_putAttribute (d : Document) (p : NodeId) (a : Attribute) :
    (d.putAttribute p a).size = d.size + 1 := by
  rw [putAttribute, size_appendAttribute, size_modify]

theorem entry_dropAttribute (name : ExpandedName) :
    (d.dropAttribute p name).entry m =
      { d.entry m with
        attributes := if m = p then (d.entry m).attributes.filter (!d.isAttributeNamed name ·)
          else (d.entry m).attributes
        parent? := if m ∈ (d.entry p).attributes.filter (d.isAttributeNamed name) then none
          else (d.entry m).parent? } := by
  rw [dropAttribute, entry_foldl_orphan, entry_keepAttributes]

end XmlScript.Document
