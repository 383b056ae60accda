import XmlScript.Markup.Writer
import XmlScript.Proofs.Defaults

/-!
# Prefixes that an element takes

`Scope.ofElement` serves the prefixes that names were read with first (`Scope.hinted`), then looks
for prefixes of the other names. If the attributes in a namespace have their prefix, the element has
its own or is in its default namespace, and no prefix stands for two namespaces, then serving the
prefixes is all it does (`Scope.ofElement_eq`): it invents none, every name is written with the
prefix that it was read with (`aliasFor?_hinted`), and all of these are declared by the element or
around it (`Scope.Orderly`).
-/

namespace XmlScript.Markup

namespace Scope

variable {s : Scope} {around : List Scope} {short uri : String} {count next : Nat}
  {label : Label} {attributes : List Attribute} {x : String × String}

/-! ## Looking up -/

theorem mem_of_spaceOf? (h : s.spaceOf? short = some uri) : (short, uri) ∈ s.taken := by
  obtain ⟨l₁, l₂, htaken, -⟩ := List.lookup_eq_some_iff.1 h
  rw [htaken]
  exact List.mem_append_right _ (List.mem_cons_self ..)

theorem isSome_spaceOf?_iff : (s.spaceOf? short).isSome = true ↔ ∃ uri, (short, uri) ∈ s.taken := by
  constructor
  · intro h
    obtain ⟨uri, huri⟩ := Option.isSome_iff_exists.1 h
    exact ⟨uri, mem_of_spaceOf? huri⟩
  · rintro ⟨uri, hmem⟩
    exact List.lookup_isSome_iff.2 ⟨_, hmem, beq_self_eq_true _⟩

theorem isSome_aliasOf? (h : (short, uri) ∈ s.taken) : (s.aliasOf? uri).isSome = true := by
  unfold aliasOf?
  rw [Option.isSome_map]
  exact List.find?_isSome.2 ⟨_, h, decide_eq_true rfl⟩

/-! ## Declarations -/

/-- An element declares a prefix once, and everything that it has taken is declared by it or taken
by an element around it. -/
structure Orderly (around : List Scope) (s : Scope) : Prop where
  known : ∀ x ∈ s.taken, x ∈ s.declared ∨ ∃ o ∈ around, x ∈ o.taken
  declared : ∀ x ∈ s.declared, x ∈ s.taken
  nodup : (s.declared.map (·.1)).Nodup

namespace Orderly

theorem take (h : s.Orderly around) (hx : ∃ o ∈ around, (short, uri) ∈ o.taken) :
    (s.take short uri).Orderly around where
  known := List.forall_mem_cons.2 ⟨.inr hx, h.known⟩
  declared x hmem := List.mem_cons_of_mem _ (h.declared x hmem)
  nodup := h.nodup

theorem declare (h : s.Orderly around) (hfree : s.spaceOf? short = none) :
    (s.declare short uri).Orderly around where
  known := by
    refine List.forall_mem_cons.2 ⟨?_, fun x hmem => ?_⟩
    · exact .inl (List.mem_append_right _ (List.mem_singleton.2 rfl))
    · exact (h.known x hmem).imp_left (List.mem_append_left _)
  declared x hmem := by
    rcases List.mem_append.1 hmem with hold | hnew
    · exact List.mem_cons_of_mem _ (h.declared x hold)
    · exact List.mem_singleton.1 hnew ▸ List.mem_cons_self ..
  nodup := by
    show ((s.declared ++ [(short, uri)]).map (·.1)).Nodup
    rw [List.map_append, List.nodup_append]
    refine ⟨h.nodup, by simp, fun a ha b hb hab => ?_⟩
    obtain ⟨x, hx, rfl⟩ := List.mem_map.1 ha
    -- what has been declared has been taken, and this prefix has not
    have htaken : (s.spaceOf? x.1).isSome = true :=
      isSome_spaceOf?_iff.2 ⟨x.2, h.declared x hx⟩
    rw [hab, List.mem_singleton.1 hb, hfree] at htaken
    cases htaken

theorem useHint (h : s.Orderly around) : (s.useHint around short uri).Orderly around := by
  unfold Scope.useHint
  split
  next => exact h
  next hfree =>
    split
    next hany =>
      obtain ⟨o, ho, hspace⟩ := List.any_eq_true.1 hany
      exact h.take ⟨o, ho, mem_of_spaceOf? (of_decide_eq_true hspace)⟩
    next => exact h.declare (Option.not_isSome_iff_eq_none.1 hfree)

end Orderly

/-! ## Prefixes that names were read with -/

/-- What an element has taken once all prefixes that its names were read with are served. -/
def hinted (around : List Scope) (label : Label) (attributes : List Attribute) : Scope :=
  (uses label attributes).foldl (fun s x => s.useHint around x.1 x.2)
    { defaultSpace? := label.defaultSpace? }

theorem orderly_hinted : (hinted around label attributes).Orderly around :=
  List.foldlRecOn (motive := Orderly around) _ _ ⟨nofun, nofun, List.nodup_nil⟩
    fun _ hs _ _ => hs.useHint

theorem taken_useHint : s.taken ⊆ (s.useHint around short uri).taken ∧
    (s.useHint around short uri).taken ⊆ (short, uri) :: s.taken := by
  unfold useHint
  split
  next => exact ⟨List.Subset.refl _, List.subset_cons_self _ _⟩
  next =>
    split
    next => exact ⟨List.subset_cons_self _ _, List.Subset.refl _⟩
    next => exact ⟨List.subset_cons_self _ _, List.Subset.refl _⟩

theorem isSome_spaceOf?_useHint : ((s.useHint around short uri).spaceOf? short).isSome = true := by
  unfold useHint
  split
  next h => exact h
  next =>
    split
    next => exact isSome_spaceOf?_iff.2 ⟨uri, List.mem_cons_self ..⟩
    next => exact isSome_spaceOf?_iff.2 ⟨uri, List.mem_cons_self ..⟩

theorem mem_uses_of_mem_hinted (h : x ∈ (hinted around label attributes).taken) :
    x ∈ uses label attributes := by
  have hsub : (hinted around label attributes).taken ⊆ uses label attributes := by
    refine List.foldlRecOn (motive := fun s : Scope => s.taken ⊆ uses label attributes) _ _
      (List.nil_subset _) fun s hs y hy => ?_
    exact List.Subset.trans taken_useHint.2 (List.cons_subset.2 ⟨hy, hs⟩)
  exact hsub h

/-- A prefix that has been served stays taken. -/
theorem isSome_spaceOf?_foldl (around : List Scope) (s : Scope) {l : List (String × String)}
    (hx : x ∈ l) :
    ((l.foldl (fun s x => s.useHint around x.1 x.2) s).spaceOf? x.1).isSome = true := by
  have hkept (l : List (String × String)) {s : Scope} {short : String}
      (h : (s.spaceOf? short).isSome = true) :
      ((l.foldl (fun s x => s.useHint around x.1 x.2) s).spaceOf? short).isSome = true := by
    refine List.foldlRecOn (motive := fun s : Scope => (s.spaceOf? short).isSome = true) _ _ h ?_
    intro s hs y _
    obtain ⟨uri, huri⟩ := isSome_spaceOf?_iff.1 hs
    exact isSome_spaceOf?_iff.2 ⟨uri, taken_useHint.1 huri⟩
  induction l generalizing s with
  | nil => cases hx
  | cons y rest ih =>
    rw [List.foldl_cons]
    rcases List.mem_cons.1 hx with rfl | hx
    · exact hkept rest isSome_spaceOf?_useHint
    · exact ih _ hx

/-- If prefixes are in order, each is taken for what it stands for. -/
theorem mem_hinted_iff (around : List Scope) (hu : Unambiguous (uses label attributes)) :
    x ∈ (hinted around label attributes).taken ↔ x ∈ uses label attributes := by
  refine ⟨mem_uses_of_mem_hinted, fun hx => ?_⟩
  obtain ⟨uri, huri⟩ := isSome_spaceOf?_iff.1
    (isSome_spaceOf?_foldl around { defaultSpace? := label.defaultSpace? } hx)
  have huri : (x.1, uri) ∈ (hinted around label attributes).taken := huri
  have hspace : uri = x.2 := hu _ (mem_uses_of_mem_hinted huri) x hx rfl
  rwa [hspace] at huri

theorem spaceOf?_hinted (hu : Unambiguous (uses label attributes))
    (hx : (short, uri) ∈ uses label attributes) :
    (hinted around label attributes).spaceOf? short = some uri := by
  obtain ⟨uri', huri'⟩ := Option.isSome_iff_exists.1
    (isSome_spaceOf?_iff.2 ⟨uri, (mem_hinted_iff around hu).2 hx⟩)
  have hspace : uri = uri' := hu _ hx _ (mem_uses_of_mem_hinted (mem_of_spaceOf? huri')) rfl
  rw [huri', hspace]

theorem defaultSpace?_hinted :
    (hinted around label attributes).defaultSpace? = label.defaultSpace? := by
  refine List.foldlRecOn (motive := fun s : Scope => s.defaultSpace? = label.defaultSpace?) _ _ rfl
    fun s hs x _ => ?_
  unfold useHint
  split
  next => exact hs
  next => split <;> exact hs

theorem activeDefault?_cons (s : Scope) (around : List Scope) :
    activeDefault? (s :: around) = s.defaultSpace?.or (activeDefault? around) := by
  unfold activeDefault?
  rw [List.findSome?_cons]
  cases s.defaultSpace? <;> rfl

/-! ## Prefixes of an element -/

/-- The attributes in a namespace have the prefix that they were read with. -/
def Hinted (attributes : List Attribute) : Prop :=
  ∀ a ∈ attributes, a.name.space?.isSome = true → a.hint?.isSome = true

theorem exists_hint (hh : Hinted attributes) {a : Attribute} (ha : a ∈ attributes)
    (hspace : a.name.space? = some uri) : ∃ short, a.hint? = some short :=
  Option.isSome_iff_exists.1 (hh a ha (Option.isSome_iff_exists.2 ⟨uri, hspace⟩))

theorem uses_eq : uses label attributes =
    ((label.name, label.hint?) :: attributes.map fun a => (a.name, a.hint?)).filterMap
      fun x => useOf x.2 x.1 := by
  unfold uses
  rw [List.filterMap_cons, List.filterMap_map]
  cases useOf label.hint? label.name <;> rfl

/-- The prefixes of names are served one after the other. -/
theorem hinted_eq : hinted around label attributes =
    ((label.name, label.hint?) :: attributes.map fun a => (a.name, a.hint?)).foldl
      (fun s x => match x.2, x.1.space? with
        | some short, some uri => s.useHint around short uri
        | _, _ => s) { defaultSpace? := label.defaultSpace? } := by
  unfold hinted
  rw [uses_eq, List.foldl_filterMap]
  congr 1
  funext s x
  obtain ⟨⟨space?, localPart⟩, hint?⟩ := x
  cases hint? <;> cases space? <;> rfl

theorem ofElement_eq_foldl : ofElement around count label attributes =
    ((label.name, label.hint?) :: attributes.map fun a => (a.name, a.hint?)).foldl
      (fun s x => match x.1.space? with
        | some uri => s.1.useSpace around s.2 uri
        | none => s) (hinted around label attributes, count) := by
  rw [hinted_eq]
  rfl

/-- Nothing has to be looked for if every name has its prefix, and the element is in its default
namespace if it has none. -/
theorem ofElement_eq (hu : Unambiguous (uses label attributes)) (hh : Hinted attributes)
    (hd : label.InDefault (label.defaultSpace?.or (activeDefault? around))) :
    ofElement around count label attributes = (hinted around label attributes, count) := by
  have hserved {hint? : Option String} {name : ExpandedName} {short uri : String}
      (hshort : hint? = some short) (huri : name.space? = some uri)
      (huses : ∀ x, useOf hint? name = some x → x ∈ uses label attributes) :
      ((hinted around label attributes).aliasOf? uri).isSome = true :=
    isSome_aliasOf? ((mem_hinted_iff around hu).2
      (huses (short, uri) (useOf_eq_some_iff.2 ⟨hshort, huri⟩)))
  rw [ofElement_eq_foldl]
  refine List.foldlRecOn (motive := (· = (hinted around label attributes, count))) _ _ rfl
    fun s hs x hx => ?_
  subst hs
  split
  next uri huri =>
    unfold useSpace
    refine if_pos ?_
    rcases List.mem_cons.1 hx with rfl | hx
    · cases hhint : label.hint? with
      | none =>
        rw [activeDefault?_cons, defaultSpace?_hinted]
        exact .inl ((hd hhint (Option.isSome_iff_exists.2 ⟨uri, huri⟩)).symm.trans huri)
      | some short =>
        exact .inr (hserved hhint huri fun x hx => List.mem_append_left _ (Option.mem_toList.2 hx))
    · obtain ⟨a, ha, rfl⟩ := List.mem_map.1 hx
      obtain ⟨short, hshort⟩ := exists_hint hh ha huri
      exact .inr (hserved hshort huri fun x hx =>
        List.mem_append_right _ (List.mem_filterMap.2 ⟨a, ha, hx⟩))
  next => rfl

end Scope

/-! ## Prefixes that are written -/

open Scope

variable {around : List Scope} {short uri : String} {label : Label} {attributes : List Attribute}

/-- A name is written with the prefix that it was read with. -/
theorem aliasFor?_hinted (around : List Scope) (hu : Unambiguous (uses label attributes))
    (hx : (short, uri) ∈ uses label attributes) :
    aliasFor? (hinted around label attributes :: around) (some short) uri = some short := by
  unfold aliasFor?
  rw [Option.filter_some, if_pos, Option.some_or]
  rw [List.findSome?_cons, spaceOf?_hinted hu hx]
  exact decide_eq_true rfl

end XmlScript.Markup
