import XmlScript.Proofs.Edit

/-!
# Attributes of an element

`Attribute.put` is the effect of one attribute that is set on the attributes of an element: the one
of that name leaves and the new one comes last. That is what `Document.putAttribute` does to the
attributes that a document shows (`Linked.attributesOf_putAttribute`), and a new child changes
nothing about them (`attributesOf_appendChild`).

Attributes that are set one after the other leave those of other names where they are, and the rest
of what they leave does not depend on what was there before (`putAll_eq`). So what is set again
later might as well not have been set before (`putAll_putAll_of_names`), and setting them all once
more changes nothing (`putAll_putAll`).
-/

namespace XmlScript

namespace Attribute

/-- Attributes with another at the end, in the place of the one of that name. -/
def put (attributes : List Attribute) (a : Attribute) : List Attribute :=
  attributes.filter (·.name ≠ a.name) ++ [a]

/-- Attributes after others have been set one after the other. -/
def putAll (attributes set : List Attribute) : List Attribute := set.foldl put attributes

variable {attributes set : List Attribute} {a : Attribute}

theorem putAll_append (set' : List Attribute) :
    putAll attributes (set ++ set') = putAll (putAll attributes set) set' :=
  List.foldl_append

/-- What is left of the attributes keeps its place, and what has been set follows. -/
theorem putAll_eq : putAll attributes set =
    attributes.filter (fun b => b.name ∉ set.map (·.name)) ++ putAll [] set := by
  induction set generalizing attributes with
  | nil => simp [putAll]
  | cons a rest ih =>
    show putAll (put attributes a) rest = _ ++ putAll (put [] a) rest
    rw [ih, @ih (put [] a)]
    unfold put
    rw [List.filter_append, List.filter_filter]
    simp only [List.filter_nil, List.nil_append, List.map_cons, List.mem_cons, not_or,
      Bool.decide_and, List.append_assoc, decide_not, Bool.and_comm]

theorem mem_of_mem_putAll (h : a ∈ putAll [] set) : a ∈ set := by
  have hsub : ∀ (set attributes : List Attribute) (a : Attribute), a ∈ putAll attributes set →
      a ∈ attributes ∨ a ∈ set := by
    intro set
    induction set with
    | nil => intro _ _ h; exact Or.inl h
    | cons b rest ih =>
      intro attributes a h
      rcases ih (put attributes b) a h with hb | hr
      · rcases List.mem_append.1 hb with hold | hnew
        · exact Or.inl (List.mem_filter.1 hold).1
        · rw [List.mem_singleton.1 hnew]
          exact Or.inr (List.mem_cons_self ..)
      · exact Or.inr (List.mem_cons_of_mem _ hr)
  exact (hsub set [] a h).resolve_left nofun

/-- An attribute that has been set has a successor of its name. -/
theorem exists_name_of_mem (h : a ∈ set) : ∃ b ∈ putAll attributes set, b.name = a.name := by
  induction set generalizing attributes a with
  | nil => cases h
  | cons c rest ih =>
    show ∃ b ∈ putAll (put attributes c) rest, b.name = a.name
    rcases List.mem_cons.1 h with rfl | hr
    · by_cases hlater : a.name ∈ rest.map (·.name)
      · obtain ⟨a', ha', hname⟩ := List.mem_map.1 hlater
        rw [← hname]
        exact ih ha'
      · refine ⟨a, ?_, rfl⟩
        rw [putAll_eq, List.mem_append, List.mem_filter]
        exact Or.inl ⟨List.mem_append_right _ (List.mem_singleton.2 rfl), by simpa using hlater⟩
    · exact ih hr

/-- Attributes of different names that are set one after the other are all there. -/
theorem putAll_of_nodup (h : (attributes.map (·.name) ++ set.map (·.name)).Nodup) :
    putAll attributes set = attributes ++ set := by
  induction set generalizing attributes with
  | nil => exact (List.append_nil _).symm
  | cons a rest ih =>
    have hput : put attributes a = attributes ++ [a] := by
      refine congrArg (· ++ [a]) (List.filter_eq_self.2 fun b hb => ?_)
      have hne := (List.nodup_append.1 h).2.2 b.name (List.mem_map_of_mem hb) a.name
        (List.mem_cons_self ..)
      simpa using hne
    show putAll (put attributes a) rest = _
    rw [hput, ih (by simpa using h), List.append_assoc]
    rfl

theorem putAll_cons : putAll [] (a :: set) =
    (if a.name ∈ set.map (·.name) then [] else [a]) ++ putAll [] set := by
  show putAll (put [] a) set = _
  rw [putAll_eq]
  refine congrArg (· ++ putAll [] set) ?_
  show [a].filter _ = _
  by_cases ha : a.name ∈ set.map (·.name)
  · rw [if_pos ha, List.filter_cons_of_neg (by simpa using ha), List.filter_nil]
  · rw [if_neg ha, List.filter_cons_of_pos (by simpa using ha), List.filter_nil]

theorem length_putAll_le : (putAll [] set).length ≤ set.length := by
  induction set with
  | nil => exact Nat.le_refl 0
  | cons a rest ih =>
    rw [putAll_cons, List.length_append, List.length_cons]
    split
    next => rw [List.length_nil]; omega
    next => rw [List.length_singleton]; omega

/-- Attributes that are all there had different names. -/
theorem nodup_of_length_putAll (h : (putAll [] set).length = set.length) :
    (set.map (·.name)).Nodup := by
  induction set with
  | nil => exact List.nodup_nil
  | cons a rest ih =>
    have hle := @length_putAll_le rest
    rw [putAll_cons, List.length_append, List.length_cons] at h
    rw [List.map_cons, List.nodup_cons]
    split at h
    next => simp only [List.length_nil] at h; omega
    next ha =>
      rw [List.length_singleton] at h
      exact ⟨ha, ih (by omega)⟩

/-- Attributes of which each is set once more do not matter. -/
theorem putAll_putAll_of_names {set' : List Attribute}
    (h : ∀ a ∈ set, ∃ b ∈ set', b.name = a.name) :
    putAll (putAll attributes set) set' = putAll attributes set' := by
  have hnone : (putAll [] set).filter (fun b => b.name ∉ set'.map (·.name)) = [] := by
    refine List.filter_eq_nil_iff.2 fun b hb => ?_
    simpa using h b (mem_of_mem_putAll hb)
  have hkept : attributes.filter (fun b => b.name ∉ set'.map (·.name) ∧
      b.name ∉ set.map (·.name)) = attributes.filter fun b => b.name ∉ set'.map (·.name) := by
    refine List.filter_congr fun b _ => decide_eq_decide.2 ?_
    refine and_iff_left_of_imp fun hb hmem => hb ?_
    obtain ⟨a, ha, hname⟩ := List.mem_map.1 hmem
    obtain ⟨b', hb', hname'⟩ := h a ha
    exact List.mem_map.2 ⟨b', hb', hname'.trans hname⟩
  rw [putAll_eq, @putAll_eq attributes, @putAll_eq attributes, List.filter_append,
    List.filter_filter, hnone, List.append_nil, ← hkept]
  simp only [Bool.decide_and]

/-- Setting some attributes a second time changes nothing. -/
theorem putAll_putAll : putAll (putAll attributes set) set = putAll attributes set :=
  putAll_putAll_of_names fun a ha => ⟨a, ha, rfl⟩

/-- An attribute stays that no other of its name follows. -/
theorem mem_putAll (ha : a ∈ set) (h : ∀ b ∈ set, b.name = a.name → b = a) :
    a ∈ putAll attributes set := by
  obtain ⟨b, hb, hname⟩ := @exists_name_of_mem attributes _ _ ha
  rw [putAll_eq, List.mem_append, List.mem_filter] at hb
  rcases hb with ⟨-, hb⟩ | hb
  · exact absurd (List.mem_map.2 ⟨a, ha, hname.symm⟩) (of_decide_eq_true hb)
  · rw [← h b (mem_of_mem_putAll hb) hname, putAll_eq]
    exact List.mem_append_right _ hb

end Attribute

namespace Document

variable {d d' : Document} {n p : NodeId}

/-- The attribute under a number. -/
def attributeAt? (d : Document) (n : NodeId) : Option Attribute :=
  match (d.entry n).content with
  | .attribute a => some a
  | _ => none

theorem attributesOf_eq (d : Document) (n : NodeId) :
    d.attributesOf n = (d.entry n).attributes.filterMap d.attributeAt? := rfl

theorem attributeAt?_eq_some_iff {a : Attribute} :
    d.attributeAt? n = some a ↔ (d.entry n).content = .attribute a := by
  unfold attributeAt?
  cases (d.entry n).content <;> simp

theorem isAttributeNamed_of_attributeAt? {a : Attribute} (name : ExpandedName)
    (h : d.attributeAt? n = some a) : d.isAttributeNamed name n = (a.name == name) := by
  rw [isAttributeNamed, attributeAt?_eq_some_iff.1 h]

theorem attributeAt?_congr (h : (d'.entry n).content = (d.entry n).content) :
    d'.attributeAt? n = d.attributeAt? n := by
  unfold attributeAt?
  rw [h]

theorem attributeAt?_eq_none (h : (d.entry n).content.isAttribute = false) :
    d.attributeAt? n = none := by
  unfold attributeAt?
  split
  next ha =>
    rw [ha] at h
    cases h
  next => rfl

/-- Attributes that are taken out of the list of a node by their name are no longer shown. -/
theorem filterMap_attributeAt? (name : ExpandedName) (l : List NodeId) :
    (l.filter (!d.isAttributeNamed name ·)).filterMap d.attributeAt? =
      (l.filterMap d.attributeAt?).filter (·.name ≠ name) := by
  induction l with
  | nil => rfl
  | cons n rest ih =>
    cases hn : d.attributeAt? n with
    | none =>
      rw [List.filterMap_cons_none hn, ← ih, List.filter_cons]
      split
      · rw [List.filterMap_cons_none hn]
      · rfl
    | some a =>
      have hname := isAttributeNamed_of_attributeAt? name hn
      rw [List.filterMap_cons_some hn, List.filter_cons, List.filter_cons, hname]
      by_cases ha : a.name = name
      · simp [ha, ih]
      · simp [ha, List.filterMap_cons_some hn, ih]

/-- A child changes nothing about the attributes of its parent or of any other node. -/
theorem attributesOf_appendChild {c : Content} (hp : p < d.size) (hc : c.isAttribute = false)
    (n : NodeId) : (d.appendChild p c).attributesOf n = d.attributesOf n := by
  have hat : (d.appendChild p c).attributeAt? = d.attributeAt? := by
    funext m
    by_cases hm : m = d.size
    · -- neither the new child nor the number before it was taken is an attribute
      rw [attributeAt?_eq_none, attributeAt?_eq_none]
      · rw [hm, entry_of_size_le (Nat.le_refl _)]
        rfl
      · rw [entry_appendChild hp, if_pos hm]
        exact hc
    · refine attributeAt?_congr ?_
      rw [entry_appendChild hp, if_neg hm]
      split <;> rfl
  have hlist : ((d.appendChild p c).entry n).attributes = (d.entry n).attributes := by
    rw [entry_appendChild hp]
    by_cases hn : n = d.size
    · rw [if_pos hn, hn, entry_of_size_le (Nat.le_refl _)]
      rfl
    · rw [if_neg hn]
      split <;> rfl
  rw [attributesOf_eq, attributesOf_eq, hat, hlist]

namespace Linked

/-- The attributes that an element shows have different names. -/
theorem nodup_attributesOf (h : d.Linked) : ((d.attributesOf n).map (·.name)).Nodup := by
  rw [attributesOf_eq, List.Nodup, List.pairwise_map, List.pairwise_filterMap]
  refine (h.nodup_attributes n).imp_of_mem fun {a b} ha hb hne x hx y hy hname => hne ?_
  rw [attributeAt?_eq_some_iff] at hx hy
  refine h.name_inj ha hb ?_
  rw [hx, hy]
  exact congrArg some hname

variable (h : d.Linked) (hp : p < d.size)

include h hp

theorem attributesOf_appendAttribute (a : Attribute) (n : NodeId) :
    (d.appendAttribute p a).attributesOf n =
      if n = p then d.attributesOf p ++ [a] else d.attributesOf n := by
  have hsize : (d.appendAttribute p a).attributeAt? d.size = some a := by
    unfold attributeAt?
    rw [entry_appendAttribute hp, if_pos rfl]
  have hat {m : NodeId} (hm : m ≠ d.size) :
      (d.appendAttribute p a).attributeAt? m = d.attributeAt? m := by
    refine attributeAt?_congr ?_
    rw [entry_appendAttribute hp, if_neg hm]
    split <;> rfl
  have hold (q : NodeId) : (d.entry q).attributes.filterMap (d.appendAttribute p a).attributeAt? =
      d.attributesOf q :=
    List.filterMap_congr fun m hm => hat (Nat.ne_of_lt (h.lt_of_mem_attributes hm))
  rw [attributesOf_eq, entry_appendAttribute hp]
  by_cases hn : n = p
  · subst hn
    rw [if_neg (Nat.ne_of_lt hp), if_pos rfl, if_pos rfl, List.filterMap_append, hold,
      List.filterMap_cons_some hsize, List.filterMap_nil]
  · rw [if_neg hn, if_neg hn]
    by_cases hs : n = d.size
    · rw [if_pos hs, hs, attributesOf_eq, entry_of_size_le (Nat.le_refl _)]
      rfl
    · rw [if_neg hs, hold]

/-- An attribute that an element is given takes the place of the one of its name, at the end. -/
theorem attributesOf_putAttribute (a : Attribute) (n : NodeId) :
    (d.putAttribute p a).attributesOf n =
      if n = p then Attribute.put (d.attributesOf p) a else d.attributesOf n := by
  have hkept := h.shrink (shrunk_keepAttributes h (p := p) (!d.isAttributeNamed a.name ·))
  unfold Document.putAttribute
  simp only
  rw [hkept.attributesOf_appendAttribute (by rwa [size_modify])]
  have hat : (d.modify p fun e =>
      { e with attributes := (d.entry p).attributes.filter (!d.isAttributeNamed a.name ·) }
      ).attributeAt? = d.attributeAt? := by
    funext m
    refine attributeAt?_congr ?_
    rw [entry_keepAttributes]
  rw [attributesOf_eq, attributesOf_eq, hat, entry_keepAttributes, entry_keepAttributes,
    if_pos rfl]
  by_cases hn : n = p
  · rw [if_pos hn, if_pos hn, filterMap_attributeAt?]
    rfl
  · simp only [if_neg hn]
    rfl

end Linked

end Document

end XmlScript
