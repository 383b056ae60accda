import XmlScript.Proofs.Reproduction

/-!
# The attributes of copies

A copy sets attributes under their local names. Those of one element that share a local name, which
takes namespaces to tell them apart, replace each other then, and only the last one stays
(`map_value_putAll_plain`). So the element that is made and those in it have the values of the
element that was copied and of those in it, each in its order, exactly if no element has two
attributes of one local name (`attributeValues_copy`).
-/

namespace XmlScript

/-! ## Single elements -/

namespace Attribute

variable {attributes : List Attribute}

/-- Namespaces are not needed to tell the names of these attributes apart. -/
def DifferInLocals (attributes : List Attribute) : Prop :=
  (attributes.map (·.name.localPart)).Nodup

theorem map_value_putAll_plain :
    (putAll [] (attributes.map Attribute.plain)).map (·.value) = attributes.map (·.value) ↔
      DifferInLocals attributes := by
  have hnames : ((attributes.map Attribute.plain).map (·.name)).Nodup ↔
      DifferInLocals attributes := by
    have hplain : (attributes.map Attribute.plain).map (·.name) =
        (attributes.map (·.name.localPart)).map ExpandedName.plain := by
      simp only [List.map_map]
      rfl
    rw [hplain, List.nodup_map_iff fun _ _ h => congrArg ExpandedName.localPart h]
    exact Iff.rfl
  rw [← hnames]
  constructor
  · intro h
    refine nodup_of_length_putAll ?_
    have hlength := congrArg List.length h
    rw [List.length_map, List.length_map] at hlength
    rw [hlength, List.length_map]
  · intro h
    have hall : putAll [] (attributes.map .plain) = [] ++ attributes.map .plain := putAll_of_nodup h
    rw [hall, List.nil_append, List.map_map]
    rfl

end Attribute

/-! ## Elements within elements -/

/-- The values of the attributes of an element, and the same of each element in it. -/
inductive AttributeValues where
  | element (values : List String) (inner : List AttributeValues)

namespace Tree

variable {t : Tree} {inner trees : List Tree}

/-- The values of the attributes of neighbouring elements and of those in them. -/
def attributeValues : List Tree → List AttributeValues
  | [] => []
  | element _ attributes children :: rest =>
    .element (attributes.map (·.value)) (attributeValues children) :: attributeValues rest
  | text _ _ :: rest => attributeValues rest
  | comment _ :: rest => attributeValues rest
  | instruction _ _ :: rest => attributeValues rest

/-- No element of a tree has two attributes of one local name. -/
def DiffersInLocals (t : Tree) : Prop := t.Every fun u => Attribute.DifferInLocals u.attributes

theorem differsInLocals_element {label : Label} {attributes : List Attribute} :
    (element label attributes inner).DiffersInLocals ↔
      Attribute.DifferInLocals attributes ∧ ∀ t ∈ inner, t.DiffersInLocals :=
  every_element_iff

theorem attributeValues_append :
    attributeValues (trees ++ inner) = attributeValues trees ++ attributeValues inner := by
  induction trees with
  | nil => simp [attributeValues]
  | cons t rest ih => cases t <;> simp [attributeValues, ih]

theorem attributeValues_of_leaves (h : ∀ t ∈ trees, t.isElement = false) :
    attributeValues trees = [] := by
  induction trees with
  | nil => rw [attributeValues]
  | cons t rest ih =>
    obtain ⟨ht, hrest⟩ := List.forall_mem_cons.1 h
    cases t with
    | element _ _ _ => cases ht
    | text _ _ | comment _ | instruction _ _ => rw [attributeValues, ih hrest]

theorem differsInLocals_of_leaf (h : t.isElement = false) : t.DiffersInLocals := by
  have hnone : Attribute.DifferInLocals t.attributes := by
    cases t with
    | element _ _ _ => cases h
    | text _ _ | comment _ | instruction _ _ => exact List.nodup_nil
  exact .of_leaf h hnone

theorem isElement_eq_false_of_isText (h : t.isText = true) : t.isElement = false := by
  cases t with
  | text _ _ => rfl
  | element _ _ _ | comment _ | instruction _ _ => cases h

/-- What is no element has no copy that is one. -/
theorem attributeValues_copied_of_leaf (h : t.isElement = false) :
    attributeValues t.copied = attributeValues [t] := by
  rw [attributeValues_of_leaves fun u hu => (isElement_of_mem_copied hu).trans h,
    attributeValues_of_leaves fun u hu => List.mem_singleton.1 hu ▸ h]

/-- A copy has as many elements at its top as the tree. -/
theorem length_attributeValues_copied (t : Tree) :
    (attributeValues t.copied).length = (attributeValues [t]).length := by
  cases t with
  | element _ _ _ =>
    rw [copied]
    simp only [attributeValues]
    rfl
  | text _ _ | comment _ | instruction _ _ => rw [attributeValues_copied_of_leaf rfl]

/-- Neighbouring trees are copied one by one, so the values of a copy stand for those of its tree. -/
theorem attributeValues_copiedTrees
    (h : ∀ t ∈ trees, attributeValues t.copied = attributeValues [t] ↔ t.DiffersInLocals) :
    attributeValues (copiedTrees trees) = attributeValues trees ↔
      ∀ t ∈ trees, t.DiffersInLocals := by
  induction trees with
  | nil =>
    rw [copiedTrees]
    exact iff_of_true rfl (List.forall_mem_nil _)
  | cons t rest ih =>
    have hrest := ih fun u hu => h u (List.mem_cons_of_mem _ hu)
    rw [copiedTrees, ← List.singleton_append, attributeValues_append, attributeValues_append,
      List.singleton_append, List.forall_mem_cons, ← h t (List.mem_cons_self ..), ← hrest]
    constructor
    · intro he
      exact List.append_inj he (length_attributeValues_copied t)
    · intro he
      rw [he.1, he.2]

theorem attributeValues_copiedContent
    (h : ∀ t ∈ inner, attributeValues t.copied = attributeValues [t] ↔ t.DiffersInLocals) :
    attributeValues (copiedContent inner) = attributeValues inner ↔
      ∀ t ∈ inner, t.DiffersInLocals := by
  unfold copiedContent
  split
  next htexts =>
    rw [Bool.and_eq_true, List.all_eq_true] at htexts
    have hleaf : ∀ t ∈ inner, t.isElement = false := fun t ht =>
      isElement_eq_false_of_isText (htexts.2 t ht)
    refine iff_of_true ?_ fun t ht => differsInLocals_of_leaf (hleaf t ht)
    rw [attributeValues_of_leaves hleaf, attributeValues, attributeValues]
  next => exact attributeValues_copiedTrees h

theorem attributeValues_copied (h : t.Every fun _ => True) :
    attributeValues t.copied = attributeValues [t] ↔ t.DiffersInLocals := by
  induction h with
  | @element label attributes inner _ _ ih =>
    have hinner := attributeValues_copiedContent ih
    rw [copied]
    simp only [attributeValues, List.cons.injEq, AttributeValues.element.injEq, and_true]
    rw [hinner, Attribute.map_value_putAll_plain, differsInLocals_element]
  | text _ | comment _ | instruction _ =>
    exact iff_of_true (attributeValues_copied_of_leaf rfl) (differsInLocals_of_leaf rfl)

end Tree

namespace Engine

open Document

variable {d : Document} {copy : Script} {e : NodeId} {c c' : Cursor Node} {s s' : State}

/-- What a copy of an element makes, if it does not fail, has the attributes of the element, as they
are when they are set one after the other under their local names. Their values are those of the
element, in their order, and so at every element below it, exactly if no two attributes of one
element have one local name. -/
theorem attributeValues_copy (hd : d.Reachable) (he : d.isElement e = true)
    (hcopy : d.copy (.stored e) = .ok copy) (hs : s.document.Reachable) (hne : c.nodes ≠ [])
    (hc : IsBare c s.document) {position : Nat}
    (hrun : runFrom position copy c s = (.ok c', s')) :
    c' = c ∧ ∀ id, .stored id ∈ c.nodes →
      s'.document.attributesOf id =
          Attribute.putAll [] ((d.attributesOf e).map Attribute.plain) ∧
        ((s'.document.attributesOf id).map (·.value) = (d.attributesOf e).map (·.value) ∧
            Tree.attributeValues (s'.document.treesBelow id) =
              Tree.attributeValues (d.treesBelow e) ↔
          Attribute.DifferInLocals (d.attributesOf e) ∧
            ∀ t ∈ d.treesBelow e, t.DiffersInLocals) := by
  obtain ⟨rfl, hmade⟩ := runFrom_copy_eq_ok hd.linked he hcopy hs.linked hne hc hrun
  refine ⟨rfl, fun id hid => ?_⟩
  obtain ⟨-, hattributes, hbelow⟩ := hmade id hid
  have hevery := hd.linked.every_treesBelow (n := e) (P := fun _ => True) fun _ _ _ _ => trivial
  have hinner := Tree.attributeValues_copiedContent fun t ht =>
    Tree.attributeValues_copied (hevery t ht)
  rw [hattributes, hbelow, hinner, Attribute.map_value_putAll_plain]
  exact ⟨rfl, Iff.rfl⟩

/-- Prefixes are lost and values are not, of an element and of one in it. -/
theorem attributeValues_copy_prefixed :
    let arg (s : String) (h : Literal.check s.toList = .ok ()) : Arg :=
      ⟨s, Literal.check_eq_ok_iff.1 h⟩
    let copy : Script := [.setAttribute (arg "x" rfl) (arg "1" rfl), .addElement (arg "b" rfl),
      .setAttribute (arg "x" rfl) (arg "2" rfl), .up]
    let fresh : Document := (apply [.addElement (arg "a" rfl)] .empty).2
    ∃ d s', Markup.read? "<a p:x='1' xmlns:p='u'><b x='2'/></a>" = some d ∧
      d.copy (.stored 1) = .ok copy ∧
      runFrom 1 copy (.single (.stored 1)) ⟨fresh, []⟩ = (.ok (.single (.stored 1)), s') ∧
      (s'.document.attributesOf 1).map (·.value) = ["1"] ∧
      Tree.attributeValues (s'.document.treesBelow 1) = [.element ["2"] []] := by
  intro arg copy fresh
  let d : Document := ⟨#[{ content := .document, children := [1] },
    { content := .element { Label.plain "a" with spaces := [("xml", xmlSpace), ("p", "u")] },
      parent? := some 0, children := [3], attributes := [2] },
    { content := .attribute { name := ⟨some "u", "x"⟩, hint? := some "p", value := "1" },
      parent? := some 1 },
    { content := .element (.plain "b"), parent? := some 1, attributes := [4] },
    { content := .attribute { name := .plain "x", value := "2" }, parent? := some 3 }]⟩
  have hread : Markup.read? "<a p:x='1' xmlns:p='u'><b x='2'/></a>" = some d := by
    decide +kernel
  have hbelow : d.treesBelow 1 =
    [.element (.plain "b") [{ name := .plain "x", value := "2" }] []] := rfl
  have hcopy : d.copy (.stored 1) = .ok copy := by
    refine (copy_element_eq_ok_iff (by decide)).2 ?_
    rw [hbelow]
    simp [contentCommands, treeCommands, Tree.commands, Tree.isText]
    rfl
  have hrun : runFrom 1 copy (.single (.stored 1)) ⟨fresh, []⟩ =
      (.ok (.single (.stored 1)), (runFrom 1 copy (.single (.stored 1)) ⟨fresh, []⟩).2) :=
    Prod.ext (by decide +kernel) rfl
  have hfresh : fresh.Reachable := Reachable.empty.apply _
  have hbare : IsBare (.single (.stored 1)) fresh :=
    isBare_single (.plain "a") (by decide +kernel) (by decide +kernel) (by decide +kernel)
  have hlocals : ∀ t ∈ d.treesBelow 1, t.DiffersInLocals := by
    intro t ht
    rw [hbelow] at ht
    rw [List.mem_singleton.1 ht]
    exact .element (List.nodup_singleton _) (List.forall_mem_nil _)
  obtain ⟨-, hmade⟩ := attributeValues_copy (s := ⟨fresh, []⟩) (.read hread)
    (by decide : d.isElement 1 = true) hcopy hfresh (List.cons_ne_nil _ _) hbare hrun
  obtain ⟨hvalues, hinner⟩ :=
    (hmade 1 (List.mem_cons_self ..)).2.2 ⟨List.nodup_singleton _, hlocals⟩
  refine ⟨d, _, hread, hcopy, hrun, hvalues, hinner.trans ?_⟩
  rw [hbelow]
  simp [Tree.attributeValues]

/-- Of two attributes that differ in their namespaces only, a copy keeps one. -/
theorem attributeValues_copy_of_one_local :
    let arg (s : String) (h : Literal.check s.toList = .ok ()) : Arg :=
      ⟨s, Literal.check_eq_ok_iff.1 h⟩
    let copy : Script := [.setAttribute (arg "x" rfl) (arg "1" rfl),
      .setAttribute (arg "x" rfl) (arg "2" rfl)]
    let fresh : Document := (apply [.addElement (arg "a" rfl)] .empty).2
    ∃ d s', Markup.read? "<a x='1' p:x='2' xmlns:p='u'/>" = some d ∧
      d.copy (.stored 1) = .ok copy ∧ IsBare (.single (.stored 1)) fresh ∧
      runFrom 1 copy (.single (.stored 1)) ⟨fresh, []⟩ = (.ok (.single (.stored 1)), s') ∧
      (d.attributesOf 1).map (·.value) = ["1", "2"] ∧
      (s'.document.attributesOf 1).map (·.value) = ["2"] := by
  intro arg copy fresh
  let written : List (Markup.WrittenName × String) :=
    [(⟨none, "x"⟩, "1"), (⟨some "p", "x"⟩, "2"), (⟨some "xmlns", "p"⟩, "u")]
  have hsorted : (written.filter Markup.isPlainAttribute).mergeSort Markup.attributeLe =
      written.filter Markup.isPlainAttribute := List.mergeSort_of_pairwise (by decide +kernel)
  let read : Markup.OpenElement :=
    { written := ⟨none, "a"⟩
      label := { Label.plain "a" with spaces := [("xml", xmlSpace), ("p", "u")] }
      attributes := [{ name := .plain "x", value := "1" },
        { name := ⟨some "u", "x"⟩, hint? := some "p", value := "2" }]
      children := [] }
  have hopen : Markup.open? [] ⟨none, "a"⟩ written = some read := by
    refine Markup.open?_eq_some_iff.2 ⟨by decide +kernel, by decide +kernel, by decide +kernel,
      .plain "a", _, rfl, ?_, rfl⟩
    rw [hsorted]
    decide +kernel
  have hread : Markup.read? "<a x='1' p:x='2' xmlns:p='u'/>" = some (ofTrees [read.close]) := by
    rw [Markup.read?, Markup.readTrees?_of_startTag (by decide +kernel) hopen]
    rfl
  refine ⟨_, (runFrom 1 copy (.single (.stored 1)) ⟨fresh, []⟩).2, hread, ?_,
    isBare_single (.plain "a") (by decide +kernel) (by decide +kernel) (by decide +kernel),
    Prod.ext (by decide +kernel) rfl, by decide +kernel, by decide +kernel⟩
  have hattributes : (ofTrees [read.close]).attributesOf 1 = read.attributes := by decide +kernel
  have hbelow : (ofTrees [read.close]).treesBelow 1 = [] := by decide +kernel
  refine (copy_element_eq_ok_iff (by decide +kernel)).2 ?_
  rw [hattributes, hbelow]
  simp [contentCommands, treeCommands]
  rfl

end Engine

end XmlScript
