import Mathlib.Tactic.MkIffOfInductiveProp
import XmlScript.Proofs.Places
import XmlScript.Proofs.Scopes

/-!
# Start tags that are read where they are written

A start tag holds names from two sources. Those of a document that was read are in namespaces, and
the writer finds prefixes for them and declares these. Those that scripts give are in none: they are
written as they are, so a prefix in them means what the tags around say, and an attribute of them
may be a declaration. `ProperTag` asks that the latter can stand among the former. Then the reader
takes the tag (`Tag.exists_event`), and what is below it may use the prefixes of the tag (`Known`).
-/

namespace XmlScript.Markup

variable {s rest : List Char} {name : WrittenName} {short uri : String}

/-! ## Names that scripts give -/

/-- The attributes in no namespace, as they are written. -/
def scripted (attributes : List Attribute) : List (WrittenName × String) :=
  attributes.filterMap fun a =>
    if a.name.space? = none then (asWritten? a.name.localPart).map (·, a.value) else none

/-- The prefixes that an element makes known to what is below it: those of its names and those that
its attributes declare. -/
def boundBy (label : Label) (attributes : List Attribute) : List String :=
  (uses label attributes).map (·.1) ++ (declaredSpaces (scripted attributes)).map (·.1)

/-- A namespace that can be written between apostrophes as it is. -/
def IsClear (uri : String) : Prop := ∀ c ∈ ['\'', '<', '&'], c ∉ uri.toList

/-- An element whose start tag can be read, where the prefixes `bound` are known: what a script has
named is understood there, and nothing is said twice. -/
@[mk_iff]
structure ProperTag (bound : List String) (label : Label) (attributes : List Attribute) : Prop where
  /-- The name of the element is a name, and its prefix is known. -/
  name : label.name.space? = none → (asWritten? label.name.localPart).isSome = true ∧
    ∀ w ∈ asWritten? label.name.localPart, ∀ short ∈ w.alias?,
      short ∈ boundBy label attributes ++ bound
  /-- The names of attributes are names. -/
  names : ∀ a ∈ attributes, a.name.space? = none → (asWritten? a.name.localPart).isSome = true
  /-- Their prefixes are known; `xml` is to every attribute. -/
  prefixes : ∀ x ∈ scripted attributes, isPlainAttribute x = true → ∀ short ∈ x.1.alias?,
    short = "xml" ∨ short ∈ boundBy label attributes ++ bound
  /-- No prefix is declared for nothing. -/
  spaces : ∀ x ∈ declaredSpaces (scripted attributes), x.2 ≠ ""
  /-- No attribute declares a prefix that the tag has already. -/
  fresh : ∀ x ∈ declaredSpaces (scripted attributes), x.1 ∉ (uses label attributes).map (·.1)
  /-- The default namespace is declared once. -/
  defaults : label.defaultSpace?.toList.length + (declaredDefaults (scripted attributes)).length ≤ 1
  /-- No attribute has the written name of one that is in a namespace. -/
  apart : ∀ a ∈ attributes, a.name.space?.isSome = true → ∀ x ∈ scripted attributes,
    x.1 ≠ ⟨a.hint?, a.name.localPart⟩
  /-- Attributes in a namespace have kept their prefix. -/
  hinted : Scope.Hinted attributes
  clear : ∀ uri ∈ label.defaultSpace?.toList ++ label.name.space?.toList ++
    attributes.filterMap (·.name.space?), IsClear uri

instance (uri : String) : Decidable (IsClear uri) :=
  List.decidableBAll _ _

instance (attributes : List Attribute) : Decidable (Scope.Hinted attributes) :=
  inferInstanceAs (Decidable
    (∀ a ∈ attributes, a.name.space?.isSome = true → a.hint?.isSome = true))

instance (bound : List String) (label : Label) (attributes : List Attribute) :
    Decidable (ProperTag bound label attributes) :=
  decidable_of_iff' _ (properTag_iff bound label attributes)

/-! ## Prefixes that are known -/

theorem isSome_spaceOf?_cons {spaces : List (String × String)}
    {outer : List (List (String × String))} :
    (spaceOf? short (spaces :: outer)).isSome = true ↔
      short ∈ spaces.map (·.1) ∨ (spaceOf? short outer).isSome = true := by
  rw [spaceOf?, Option.isSome_or, Bool.or_eq_true, List.lookup_isSome_iff, List.mem_map]
  simp only [beq_iff_eq]
  exact or_congr_left (exists_congr fun x => and_congr_right fun _ => eq_comm)

/-- An element offers the prefixes that its tag declares. -/
theorem isSome_spaceOf?_offered {spaces : List (String × String)}
    {outer : List (List (String × String))} {isTop : Bool}
    (h : (spaceOf? short (spaces :: outer)).isSome = true) :
    (spaceOf? short (offeredSpaces isTop spaces :: outer)).isSome = true := by
  rw [isSome_spaceOf?_cons] at h ⊢
  refine h.imp_left fun hmem => ?_
  obtain ⟨x, hx, rfl⟩ := List.mem_map.1 hmem
  unfold offeredSpaces
  split
  next =>
    rw [List.map_cons, List.mem_cons]
    by_cases hxml : x.1 = "xml"
    · exact .inl hxml
    · exact .inr (List.mem_map_of_mem (List.mem_filter.2 ⟨hx, decide_eq_true hxml⟩))
  next => exact hmem

/-- A prefix and its namespace that can be declared. -/
structure IsDeclarable (x : String × String) : Prop where
  short : IsPlainName x.1.toList
  ne_empty : x.2 ≠ ""
  clear : IsClear x.2

/-- What the writer and the scripts take for known inside some elements means something to the
reader there. -/
structure Known (around : List Scope) (bound : List String)
    (inner : List (List (String × String))) : Prop where
  declarable : ∀ o ∈ around, ∀ x ∈ o.taken, IsDeclarable x
  taken : ∀ o ∈ around, ∀ x ∈ o.taken, (spaceOf? x.1 inner).isSome = true
  bound : ∀ short ∈ bound, (spaceOf? short inner).isSome = true
  xml : inner ≠ [] → (spaceOf? "xml" inner).isSome = true

/-! ## Attributes and declarations -/

namespace Quoted

/-- An attribute as the writer writes it. -/
def ofAttribute (name : WrittenName) (value : String) : Quoted :=
  ⟨name, '"', value.toList.flatMap escapeValue, value⟩

/-- A declaration as the writer writes it. -/
def ofSpace (name : WrittenName) (uri : String) : Quoted := ⟨name, '\'', uri.toList, uri⟩

theorem sound_ofAttribute (h : name.Legible) (value : String) : (ofAttribute name value).Sound where
  name := h
  quote := .inl rfl
  raw := not_mem_flatMap quote_not_mem_escapeValue _
  value := expand?_flatMap (fun c => (escapes_value c).spells) _ _ (Nat.le_refl _)

theorem sound_ofSpace (h : name.Legible) (huri : IsClear uri) : (ofSpace name uri).Sound where
  name := h
  quote := .inr rfl
  raw := huri '\'' (by decide)
  value := by
    refine expand?_plain (fun c hc hmark => ?_) _ (Nat.le_refl _)
    rcases List.mem_cons.1 hmark with rfl | hmark
    · exact huri '<' (by decide) hc
    · exact huri '&' (by decide) (List.mem_singleton.1 hmark ▸ hc)

/-- The declarations of an element. -/
def ofScope (s : Scope) : List Quoted :=
  s.defaultSpace?.toList.map (ofSpace ⟨none, "xmlns"⟩) ++
    s.declared.map fun x => ofSpace ⟨some "xmlns", x.1⟩ x.2

theorem map_item_ofScope (s : Scope) : (ofScope s).map item = Item.ofScope s := by
  unfold ofScope Item.ofScope
  rw [List.map_append, List.map_map, List.map_map]
  rfl

theorem nodup_ofScope {s : Scope} (h : (s.declared.map (·.1)).Nodup) :
    ((ofScope s).map (·.name)).Nodup := by
  unfold ofScope
  rw [List.map_append, List.map_map, List.map_map, List.nodup_append]
  refine ⟨?_, ?_, ?_⟩
  · cases s.defaultSpace? with
    | none => exact List.nodup_nil
    | some uri => exact List.pairwise_singleton _ _
  · rw [List.Nodup, List.pairwise_map] at h ⊢
    refine h.imp fun hne he => hne ?_
    exact (WrittenName.mk.inj he).2
  · intro name hname name' hname' he
    obtain ⟨_, -, rfl⟩ := List.mem_map.1 hname
    obtain ⟨_, -, rfl⟩ := List.mem_map.1 hname'
    cases (WrittenName.mk.inj he).1

end Quoted

/-- The name that an attribute is written with. -/
inductive Named (a : Attribute) (name : WrittenName) : Prop
  | plain (hspace : a.name.space? = none) (h : asWritten? a.name.localPart = some name)
  | spaced {uri short : String} (hspace : a.name.space? = some uri) (hshort : a.hint? = some short)
    (h : name = ⟨some short, a.name.localPart⟩)

section

variable {label : Label} {attributes : List Attribute} {bound : List String} {a a' : Attribute}

theorem mem_scripted (ha : a ∈ attributes) (hspace : a.name.space? = none)
    (h : asWritten? a.name.localPart = some name) : (name, a.value) ∈ scripted attributes := by
  refine List.mem_filterMap.2 ⟨a, ha, ?_⟩
  rw [if_pos hspace, h]
  rfl

namespace Named

theorem legible (h : Named a name) (ha : a.Spelled) : name.Legible := by
  cases h with
  | plain _ h => exact (legible_of_asWritten? h).1
  | spaced hspace hshort h =>
    subst h
    refine ⟨(ha.space _ hspace).2.1, fun short h => ?_⟩
    rw [← Option.some.inj h]
    exact (ha.hint _ hshort).1

/-- An attribute in a namespace declares nothing. -/
theorem isPlainAttribute (h : Named a name) (ha : a.Spelled) (hspace : a.name.space? ≠ none)
    (value : String) : isPlainAttribute (name, value) = true := by
  cases h with
  | plain hnone => exact absurd hnone hspace
  | spaced hspace hshort h =>
    subst h
    have hlocal := (ha.space _ hspace).2.2
    have hxmlns := (ha.hint _ hshort).2
    simp [Markup.isPlainAttribute, WrittenName.declaresSpace, WrittenName.declaresDefault, hlocal,
      hxmlns]

/-- A name that a script gives is not written like one in a namespace. -/
theorem ne_of_plain (ht : ProperTag bound label attributes) (ha : a ∈ attributes)
    (hspace : a.name.space? = none) (h : asWritten? a.name.localPart = some name)
    (ha' : a' ∈ attributes) (h' : Named a' name) : a'.name.space? = none := by
  cases h' with
  | plain hspace' => exact hspace'
  | spaced hspace' hshort he =>
    refine absurd ?_ (ht.apart a' ha' ?_ _ (mem_scripted ha hspace h))
    · rw [hshort, he]
    · rw [hspace']
      rfl

/-- Attributes are written with different names. -/
theorem name_eq (ht : ProperTag bound label attributes) (hu : Unambiguous (uses label attributes))
    (ha : a ∈ attributes) (ha' : a' ∈ attributes) (h : Named a name) (h' : Named a' name) :
    a.name = a'.name := by
  suffices hboth : a.name.space? = a'.name.space? ∧ a.name.localPart = a'.name.localPart from
    (ExpandedName.mk.injEq ..).mpr hboth
  cases h with
  | plain hnone h =>
    -- both names are given by scripts, and they are read alike
    have hnone' := ne_of_plain ht ha hnone h ha' h'
    cases h' with
    | spaced hspace' => rw [hnone'] at hspace'; cases hspace'
    | plain _ h' =>
      refine ⟨hnone.trans hnone'.symm, String.toList_inj.1 ?_⟩
      rw [← (legible_of_asWritten? h).2, ← (legible_of_asWritten? h').2]
  | @spaced uri short huri hshort he =>
    cases h' with
    | plain hnone' h' =>
      have hnone := ne_of_plain ht ha' hnone' h' ha (.spaced huri hshort he)
      rw [huri] at hnone
      cases hnone
    | @spaced uri' short' huri' hshort' he' =>
      -- and one prefix stands for one namespace
      obtain ⟨hs, hl⟩ := WrittenName.mk.inj (he.symm.trans he')
      have hsame : uri = uri' := hu _ (mem_uses_of_attribute ha hshort huri) _
        (mem_uses_of_attribute ha' hshort' huri') (Option.some.inj hs)
      exact ⟨by rw [huri, huri', hsame], hl⟩

end Named

end

/-! ## What is read of a tag -/

section

variable {s : Scope} {label : Label} {attributes : List Attribute} {bound : List String}
  {named : Attribute → WrittenName}

/-- What is read of the attributes and the declarations of an element. -/
def readTag (named : Attribute → WrittenName) (attributes : List Attribute) (s : Scope) :
    List (WrittenName × String) :=
  attributes.map (fun a => (named a, a.value)) ++ (Quoted.ofScope s).map Quoted.read

theorem map_read_ofScope (s : Scope) : (Quoted.ofScope s).map Quoted.read =
    s.defaultSpace?.toList.map (fun uri => (⟨none, "xmlns"⟩, uri)) ++
      s.declared.map fun x => (⟨some "xmlns", x.1⟩, x.2) := by
  unfold Quoted.ofScope
  rw [List.map_append, List.map_map, List.map_map]
  rfl

/-- Among the attributes only those that scripts name may declare anything. -/
theorem filter_map_named {p : WrittenName × String → Bool}
    (hn : ∀ a ∈ attributes, Named a (named a))
    (hp : ∀ a ∈ attributes, a.name.space? ≠ none → p (named a, a.value) = false) :
    (attributes.map fun a => (named a, a.value)).filter p = (scripted attributes).filter p := by
  have hall : ∀ l ⊆ attributes,
      (l.map fun a => (named a, a.value)).filter p = (scripted l).filter p := by
    intro l hl
    induction l with
    | nil => rfl
    | cons a l ih =>
      obtain ⟨ha, hl⟩ := List.cons_subset.1 hl
      have hrest := ih hl
      unfold scripted at hrest ⊢
      cases hn a ha with
      | plain hspace hread =>
        rw [List.map_cons, List.filterMap_cons_some (b := (named a, a.value)) (by
          rw [if_pos hspace, hread]
          rfl), List.filter_cons, List.filter_cons, hrest]
      | spaced hspace =>
        have hsome : a.name.space? ≠ none := by
          rw [hspace]
          exact Option.some_ne_none _
        rw [List.map_cons, List.filterMap_cons_none (by exact if_neg hsome),
          List.filter_cons_of_neg (by rw [hp a ha hsome]; exact Bool.false_ne_true), hrest]
  exact hall attributes (List.Subset.refl _)

/-- What is read of a tag and declares something is named so by scripts, or is a declaration. -/
theorem filter_readTag {p : WrittenName → Bool} (hn : ∀ a ∈ attributes, Named a (named a))
    (hp : ∀ a ∈ attributes, a.name.space? ≠ none → p (named a) = false) :
    (readTag named attributes s).filter (p ·.1) = (scripted attributes).filter (p ·.1) ++
      ((s.defaultSpace?.toList.map fun uri => (⟨none, "xmlns"⟩, uri)).filter (p ·.1) ++
        (s.declared.map fun x => (⟨some "xmlns", x.1⟩, x.2)).filter (p ·.1)) := by
  unfold readTag
  rw [map_read_ofScope, List.filter_append, filter_map_named hn hp, List.filter_append]

theorem declaredSpaces_readTag (hn : ∀ a ∈ attributes, Named a (named a))
    (ha : ∀ a ∈ attributes, a.Spelled) :
    declaredSpaces (readTag named attributes s) =
      declaredSpaces (scripted attributes) ++ s.declared := by
  have hspaced : ∀ a ∈ attributes, a.name.space? ≠ none → (named a).declaresSpace = false := by
    intro a hmem hspace
    have hplain := (hn a hmem).isPlainAttribute (ha a hmem) hspace a.value
    rw [isPlainAttribute, Bool.and_eq_true, Bool.not_eq_true'] at hplain
    exact hplain.1
  have hdefault : (s.defaultSpace?.toList.map fun uri =>
      ((⟨none, "xmlns"⟩, uri) : WrittenName × String)).filter (·.1.declaresSpace) = [] := by
    rw [List.filter_eq_nil_iff]
    intro x hx
    obtain ⟨uri, -, rfl⟩ := List.mem_map.1 hx
    exact Bool.false_ne_true
  have hdeclared : (s.declared.map fun x =>
      ((⟨some "xmlns", x.1⟩, x.2) : WrittenName × String)).filter (·.1.declaresSpace) =
        s.declared.map fun x => (⟨some "xmlns", x.1⟩, x.2) := by
    rw [List.filter_eq_self]
    intro x hx
    obtain ⟨y, -, rfl⟩ := List.mem_map.1 hx
    rfl
  unfold declaredSpaces
  rw [filter_readTag hn hspaced, hdefault, hdeclared, List.nil_append, List.map_append,
    List.map_map]
  exact congrArg _ (List.map_id' _)

theorem declaredDefaults_readTag (hn : ∀ a ∈ attributes, Named a (named a))
    (ha : ∀ a ∈ attributes, a.Spelled) :
    declaredDefaults (readTag named attributes s) =
      declaredDefaults (scripted attributes) ++ s.defaultSpace?.toList := by
  have hspaced : ∀ a ∈ attributes, a.name.space? ≠ none → (named a).declaresDefault = false := by
    intro a hmem hspace
    have hplain := (hn a hmem).isPlainAttribute (ha a hmem) hspace a.value
    rw [isPlainAttribute, Bool.and_eq_true, Bool.not_eq_true', Bool.not_eq_true'] at hplain
    exact hplain.2
  have hdefault : (s.defaultSpace?.toList.map fun uri =>
      ((⟨none, "xmlns"⟩, uri) : WrittenName × String)).filter (·.1.declaresDefault) =
        s.defaultSpace?.toList.map fun uri => (⟨none, "xmlns"⟩, uri) := by
    rw [List.filter_eq_self]
    intro x hx
    obtain ⟨uri, -, rfl⟩ := List.mem_map.1 hx
    rfl
  have hdeclared : (s.declared.map fun x =>
      ((⟨some "xmlns", x.1⟩, x.2) : WrittenName × String)).filter (·.1.declaresDefault) = [] := by
    rw [List.filter_eq_nil_iff]
    intro x hx
    obtain ⟨y, -, rfl⟩ := List.mem_map.1 hx
    exact Bool.false_ne_true
  unfold declaredDefaults
  rw [filter_readTag hn hspaced, hdefault, hdeclared, List.append_nil, List.map_append,
    List.map_map]
  exact congrArg _ (List.map_id' _)

end

/-! ## Tags that are events -/

/-- The name that an attribute is written with. -/
def attributeName (a : Attribute) : WrittenName :=
  if a.name.space? = none then (asWritten? a.name.localPart).getD ⟨none, a.name.localPart⟩
  else ⟨a.hint?, a.name.localPart⟩

theorem mapM_writeAttribute? {scopes : List Scope} {attributes : List Attribute}
    {named : Attribute → WrittenName}
    (h : ∀ a ∈ attributes, writeName? scopes false a.name a.hint? = some (named a).text) :
    attributes.mapM (writeAttribute? scopes) =
      some (attributes.map fun a => (Quoted.ofAttribute (named a) a.value).item.text) := by
  induction attributes with
  | nil => rfl
  | cons a rest ih =>
    rw [List.forall_mem_cons] at h
    have ha : writeAttribute? scopes a =
        some (Quoted.ofAttribute (named a) a.value).item.text := by
      unfold writeAttribute?
      rw [h.1, Option.map_some]
      simp [Item.text, Quoted.item, Quoted.ofAttribute]
    rw [List.mapM_cons, ha, ih h.2]
    rfl

/-- A start tag that is an event where it is written: its names are names, and what it declares can
stand in quotes. The reader need not take it. -/
structure LegibleTag (around : List Scope) (label : Label) (attributes : List Attribute) :
    Prop where
  name : label.name.space? = none → (asWritten? label.name.localPart).isSome = true
  names : ∀ a ∈ attributes, a.name.space? = none → (asWritten? a.name.localPart).isSome = true
  prefixed : Scope.Hinted attributes
  clear : ∀ uri ∈ label.defaultSpace?.toList ++ label.name.space?.toList ++
    attributes.filterMap (·.name.space?), IsClear uri
  default : label.InDefault (label.defaultSpace?.or (Scope.activeDefault? around))
  unambiguous : Unambiguous (uses label attributes)
  attributes : ∀ a ∈ attributes, a.Spelled
  label : label.Spelled

namespace LegibleTag

open Scope (hinted orderly_hinted defaultSpace?_hinted mem_uses_of_mem_hinted)

variable {around : List Scope} {label : Label} {attributes : List Attribute} {a : Attribute}
  {x : String × String}

section

variable (h : LegibleTag around label attributes)

include h

/-- An element takes the prefixes that its names were read with, and no others. -/
theorem ofElement_eq (count : Nat) :
    Scope.ofElement around count label attributes = (hinted around label attributes, count) :=
  Scope.ofElement_eq h.unambiguous h.prefixed h.default

/-- The namespaces of names can be declared with the prefixes that they were read with. -/
theorem declarable (hx : x ∈ uses label attributes) : IsDeclarable x := by
  rcases List.mem_append.1 hx with hx | hx
  · obtain ⟨hhint, hspace⟩ := useOf_eq_some_iff.1 (Option.mem_toList.1 hx)
    refine ⟨h.label.hint _ hhint, (h.label.space _ hspace).1, h.clear _ ?_⟩
    simp [hspace]
  · obtain ⟨a, ha, hx⟩ := List.mem_filterMap.1 hx
    obtain ⟨hhint, hspace⟩ := useOf_eq_some_iff.1 hx
    refine ⟨((h.attributes a ha).hint _ hhint).1, ((h.attributes a ha).space _ hspace).1,
      h.clear _ (List.mem_append_right _ (List.mem_filterMap.2 ⟨a, ha, hspace⟩))⟩

/-- The writer finds a name for the element: the one that a script has given it, or one with a
prefix that the element uses, if with any. -/
theorem exists_label : ∃ w : WrittenName, w.Legible ∧
    writeName? (hinted around label attributes :: around) true label.name label.hint? =
      some w.text ∧
    (label.name.space? = none ∧ asWritten? label.name.localPart = some w ∨
      ∀ short ∈ w.alias?, ∃ uri, (short, uri) ∈ uses label attributes) := by
  unfold writeName?
  cases hspace : label.name.space? with
  | none =>
    obtain ⟨w, hw⟩ := Option.isSome_iff_exists.1 (h.name hspace)
    refine ⟨w, (legible_of_asWritten? hw).1, ?_, .inl ⟨rfl, hw⟩⟩
    rw [(legible_of_asWritten? hw).2]
  | some uri =>
    have hlocal := (h.label.space _ hspace).2
    simp only [true_and]
    by_cases hdefault : Scope.activeDefault? (hinted around label attributes :: around) = some uri
    · rw [if_pos hdefault]
      exact ⟨⟨none, label.name.localPart⟩, ⟨hlocal, fun _ hshort => by cases hshort⟩, rfl,
        .inr fun _ hshort => by cases hshort⟩
    · rw [if_neg hdefault]
      cases hhint : label.hint? with
      | none =>
        -- it would be in its default namespace
        refine absurd ?_ hdefault
        rw [Scope.activeDefault?_cons, defaultSpace?_hinted,
          ← h.default hhint (Option.isSome_iff_exists.2 ⟨uri, hspace⟩), hspace]
      | some short =>
        have huse : (short, uri) ∈ uses label attributes :=
          List.mem_append_left _ (Option.mem_toList.2 (useOf_eq_some_iff.2 ⟨hhint, hspace⟩))
        rw [aliasFor?_hinted around h.unambiguous huse]
        refine ⟨⟨some short, label.name.localPart⟩, ⟨hlocal, fun short' hshort' => ?_⟩, rfl,
          .inr fun short' hshort' => ?_⟩
        · rw [← Option.some.inj hshort']
          exact (h.declarable huse).short
        · rw [← Option.some.inj hshort']
          exact ⟨uri, huse⟩

/-- The writer finds a name for every attribute. -/
theorem named_attributeName (ha : a ∈ attributes) : Named a (attributeName a) ∧
    writeName? (hinted around label attributes :: around) false a.name a.hint? =
      some (attributeName a).text := by
  unfold attributeName writeName?
  cases hspace : a.name.space? with
  | none =>
    obtain ⟨w, hw⟩ := Option.isSome_iff_exists.1 (h.names a ha hspace)
    simp only [hw, Option.getD_some, if_true]
    refine ⟨.plain hspace hw, ?_⟩
    rw [(legible_of_asWritten? hw).2]
  | some uri =>
    obtain ⟨short, hshort⟩ := Scope.exists_hint h.prefixed ha hspace
    have huse : (short, uri) ∈ uses label attributes := mem_uses_of_attribute ha hshort hspace
    simp only [hshort, Option.some_ne_none, if_false, aliasFor?_hinted around h.unambiguous huse]
    refine ⟨.spaced hspace hshort rfl, ?_⟩
    rw [if_neg fun hdefault => Bool.false_ne_true hdefault.1]
    rfl

theorem named : ∀ a ∈ attributes, Named a (attributeName a) :=
  fun _ ha => (h.named_attributeName ha).1

/-- Every attribute and every declaration is read as it is written. -/
theorem sound_items :
    ∀ x ∈ attributes.map (fun a => Quoted.ofAttribute (attributeName a) a.value) ++
      Quoted.ofScope (hinted around label attributes), x.Sound := by
  refine List.forall_mem_append.2 ⟨fun x hx => ?_, fun x hx => ?_⟩
  · obtain ⟨a, ha, rfl⟩ := List.mem_map.1 hx
    exact Quoted.sound_ofAttribute ((h.named a ha).legible (h.attributes a ha)) a.value
  · have hxmlns : IsPlainName "xmlns".toList := by decide +kernel
    rcases List.mem_append.1 hx with hx | hx
    · obtain ⟨uri, huri, rfl⟩ := List.mem_map.1 hx
      rw [defaultSpace?_hinted] at huri
      refine Quoted.sound_ofSpace ⟨hxmlns, fun _ hshort => by cases hshort⟩ (h.clear _ ?_)
      exact List.mem_append_left _ (List.mem_append_left _ huri)
    · obtain ⟨y, hy, rfl⟩ := List.mem_map.1 hx
      have hdeclarable := h.declarable (mem_uses_of_mem_hinted (orderly_hinted.declared y hy))
      refine Quoted.sound_ofSpace ⟨hdeclarable.short, fun short hshort => ?_⟩ hdeclarable.clear
      rwa [← Option.some.inj hshort]

/-- The attributes of the element are written, and with its declarations they are what is read of
the tag, whatever follows. -/
theorem exists_written : ∃ written : List (List Char),
    attributes.mapM (writeAttribute? (hinted around label attributes :: around)) = some written ∧
    ∀ w : WrittenName, w.Legible → ∀ isEmpty after,
      event? ('<' :: (w.text ++ written.flatten ++
        writeDeclarations (hinted around label attributes) ++ tagEnd isEmpty) ++ after) =
          some (.startTag w (readTag attributeName attributes (hinted around label attributes))
            isEmpty, after) := by
  have hwritten := mapM_writeAttribute? fun a ha => (h.named_attributeName ha).2
  refine ⟨_, hwritten, fun w hlegible isEmpty after => ?_⟩
  have hevent := event?_startTag hlegible h.sound_items isEmpty after
  rw [List.map_append, Quoted.map_item_ofScope, List.flatMap_append, Item.flatMap_text_ofScope,
    List.map_map, List.flatMap_map, List.map_append, List.map_map] at hevent
  rw [List.append_assoc w.text, ← List.flatMap_def]
  exact hevent

end

end LegibleTag

/-! ## Tags inside others -/

/-- A start tag that is to be written and read inside some elements. -/
structure Tag (around : List Scope) (bound : List String) (inner : List (List (String × String)))
    (label : Label) (attributes : List Attribute) : Prop where
  known : Known around bound inner
  proper : ProperTag bound label attributes
  default : label.InDefault (label.defaultSpace?.or (Scope.activeDefault? around))
  unambiguous : Unambiguous (uses label attributes)
  nodup : (attributes.map (·.name)).Nodup
  attributes : ∀ a ∈ attributes, a.Spelled
  label : label.Spelled

namespace Tag

open Scope (hinted orderly_hinted defaultSpace?_hinted mem_hinted_iff mem_uses_of_mem_hinted)

variable {around : List Scope} {bound : List String} {inner : List (List (String × String))}
  {label : Label} {attributes : List Attribute} {a : Attribute} {short : String}
  {x : String × String}

/-- The prefixes that a tag declares. -/
def declares (around : List Scope) (label : Label) (attributes : List Attribute) :
    List (String × String) :=
  declaredSpaces (scripted attributes) ++ (hinted around label attributes).declared

section

variable (h : Tag around bound inner label attributes)

include h

/-- It is an event where it is written. -/
theorem legible : LegibleTag around label attributes where
  name hspace := (h.proper.name hspace).1
  names := h.proper.names
  prefixed := h.proper.hinted
  clear := h.proper.clear
  default := h.default
  unambiguous := h.unambiguous
  attributes := h.attributes
  label := h.label

/-! ### Prefixes -/

/-- A prefix that the tag uses is declared by it or around it. -/
theorem isSome_of_mem_uses (hx : x ∈ uses label attributes) :
    (spaceOf? x.1 (declares around label attributes :: inner)).isSome = true := by
  refine isSome_spaceOf?_cons.2 ?_
  have hx := (mem_hinted_iff around h.unambiguous).2 hx
  rcases orderly_hinted.known x hx with hdeclared | ⟨o, ho, hmem⟩
  · exact .inl (List.mem_map_of_mem (List.mem_append_right _ hdeclared))
  · exact .inr (h.known.taken o ho x hmem)

/-- Every prefix that scripts may use is declared. -/
theorem isSome_of_mem_bound (hshort : short ∈ boundBy label attributes ++ bound) :
    (spaceOf? short (declares around label attributes :: inner)).isSome = true := by
  rcases List.mem_append.1 hshort with hby | hbound
  · rcases List.mem_append.1 hby with huse | hdeclared
    · obtain ⟨x, hx, rfl⟩ := List.mem_map.1 huse
      exact h.isSome_of_mem_uses hx
    · refine isSome_spaceOf?_cons.2 (.inl ?_)
      unfold declares
      rw [List.map_append]
      exact List.mem_append_left _ hdeclared
  · exact isSome_spaceOf?_cons.2 (.inr (h.known.bound short hbound))

/-! ### Names -/

/-- The writer finds a name for the element, and its prefix is declared. -/
theorem exists_label : ∃ w : WrittenName, w.Legible ∧
    writeName? (hinted around label attributes :: around) true label.name label.hint? =
      some w.text ∧
    ∀ short ∈ w.alias?,
      (spaceOf? short (declares around label attributes :: inner)).isSome = true := by
  obtain ⟨w, hlegible, hname, ⟨hspace, hw⟩ | huses⟩ := h.legible.exists_label
  · exact ⟨w, hlegible, hname, fun short hshort =>
      h.isSome_of_mem_bound ((h.proper.name hspace).2 w hw short hshort)⟩
  · refine ⟨w, hlegible, hname, fun short hshort => ?_⟩
    obtain ⟨uri, huse⟩ := huses short hshort
    exact h.isSome_of_mem_uses huse

/-! ### What is read -/

/-- No attribute is written like a declaration of the tag. -/
theorem attributeName_ne (ha : a ∈ attributes) {x : Quoted}
    (hx : x ∈ Quoted.ofScope (hinted around label attributes)) : attributeName a ≠ x.name := by
  intro he
  have hnamed := h.legible.named a ha
  rw [he] at hnamed
  rcases List.mem_append.1 hx with hx | hx
  · obtain ⟨uri, huri, rfl⟩ := List.mem_map.1 hx
    cases hnamed with
    | spaced _ _ h => cases h
    | plain hspace hread =>
      have hdefaults := h.proper.defaults
      have hmem : a.value ∈ declaredDefaults (scripted attributes) :=
        List.mem_map_of_mem (f := (·.2)) (List.mem_filter.2 ⟨mem_scripted ha hspace hread, rfl⟩)
      have hpos := List.length_pos_of_mem hmem
      have hpos' := List.length_pos_of_mem huri
      rw [defaultSpace?_hinted] at hpos'
      omega
  · obtain ⟨y, hy, rfl⟩ := List.mem_map.1 hx
    cases hnamed with
    | spaced _ hshort he' =>
      have hxmlns := ((h.attributes _ ha).hint _ hshort).2
      exact hxmlns (Option.some.inj (WrittenName.mk.inj he').1).symm
    | plain hspace hread =>
      have hmem : (y.1, a.value) ∈ declaredSpaces (scripted attributes) :=
        List.mem_map.2 ⟨_, List.mem_filter.2 ⟨mem_scripted ha hspace hread, rfl⟩, rfl⟩
      have huse := mem_uses_of_mem_hinted (orderly_hinted.declared y hy)
      exact h.proper.fresh _ hmem (List.mem_map_of_mem (f := (·.1)) huse)

/-- No attribute and no declaration is read twice. -/
theorem nodup_readTag :
    ((readTag attributeName attributes (hinted around label attributes)).map (·.1)).Nodup := by
  unfold readTag
  rw [List.map_append, List.map_map, List.map_map, List.nodup_append]
  refine ⟨?_, ?_, ?_⟩
  · have hnodup := h.nodup
    rw [List.Nodup, List.pairwise_map] at hnodup ⊢
    refine hnodup.imp_of_mem fun {a b} ha hb hne he => hne ?_
    have hb' := h.legible.named b hb
    rw [← show attributeName a = attributeName b from he] at hb'
    exact Named.name_eq h.proper h.unambiguous ha hb (h.legible.named a ha) hb'
  · exact Quoted.nodup_ofScope orderly_hinted.nodup
  · intro name hname name' hname' he
    obtain ⟨a, ha, rfl⟩ := List.mem_map.1 hname
    obtain ⟨x, hx, rfl⟩ := List.mem_map.1 hname'
    exact h.attributeName_ne ha hx he

/-- Below the element `xml` is known as well. -/
theorem isSome_spaceOf?_xml (spaces : List (String × String)) :
    (spaceOf? "xml" (offeredSpaces inner.isEmpty spaces :: inner)).isSome = true := by
  rw [isSome_spaceOf?_cons]
  cases hinner : inner with
  | nil => exact .inl (List.mem_cons_self ..)
  | cons own outer =>
    rw [← hinner]
    exact .inr (h.known.xml (by rw [hinner]; exact List.cons_ne_nil _ _))

/-- A prefix that is understood with the tag is understood by its attributes as well. -/
theorem isSome_spaceOf?_plain
    (hshort : short = "xml" ∨
      (spaceOf? short (declares around label attributes :: inner)).isSome = true) :
    (spaceOf? short (declares around label attributes ::
      offeredSpaces inner.isEmpty (declares around label attributes) :: inner)).isSome = true := by
  rw [isSome_spaceOf?_cons]
  rcases hshort with rfl | hmeant
  · exact .inr (h.isSome_spaceOf?_xml _)
  · exact .inr (isSome_spaceOf?_offered hmeant)

/-- The reader takes the start tag for the tag of an element. -/
theorem admissible {w : WrittenName} (hw : ∀ short ∈ w.alias?,
    (spaceOf? short (declares around label attributes :: inner)).isSome = true) :
    Admissible inner w (readTag attributeName attributes (hinted around label attributes)) where
  nodup := h.nodup_readTag
  space := by
    rw [declaredSpaces_readTag h.legible.named h.attributes]
    refine List.forall_mem_append.2 ⟨h.proper.spaces, fun x hx => ?_⟩
    exact (h.legible.declarable (mem_uses_of_mem_hinted (orderly_hinted.declared x hx))).ne_empty
  default := by
    rw [declaredDefaults_readTag h.legible.named h.attributes, List.length_append,
      defaultSpace?_hinted, Nat.add_comm]
    exact h.proper.defaults
  name := by
    rw [declaredSpaces_readTag h.legible.named h.attributes]
    exact hw
  plain x hx hplain short hshort := by
    rw [declaredSpaces_readTag h.legible.named h.attributes]
    refine h.isSome_spaceOf?_plain ?_
    rcases List.mem_append.1 hx with hx | hx
    · obtain ⟨a, ha, rfl⟩ := List.mem_map.1 hx
      cases h.legible.named a ha with
      | plain hspace hread =>
        refine (h.proper.prefixes _ (mem_scripted ha hspace hread) hplain short hshort).imp_right ?_
        exact fun hbound => h.isSome_of_mem_bound hbound
      | spaced hspace hhint he =>
        rw [he] at hshort
        rw [← Option.some.inj hshort]
        exact .inr (h.isSome_of_mem_uses (mem_uses_of_attribute ha hhint hspace))
    · -- declarations are no attributes
      rw [map_read_ofScope] at hx
      rcases List.mem_append.1 hx with hx | hx
      · obtain ⟨uri, -, rfl⟩ := List.mem_map.1 hx
        cases hshort
      · obtain ⟨y, -, rfl⟩ := List.mem_map.1 hx
        cases hplain

/-- What is below the element may use its prefixes as well. -/
theorem known_below : Known (hinted around label attributes :: around)
    ("xml" :: (boundBy label attributes ++ bound))
    (offeredSpaces inner.isEmpty (declares around label attributes) :: inner) := by
  refine ⟨?_, ?_, ?_, fun _ => h.isSome_spaceOf?_xml _⟩
  · exact List.forall_mem_cons.2
      ⟨fun x hx => h.legible.declarable (mem_uses_of_mem_hinted hx), h.known.declarable⟩
  · refine List.forall_mem_cons.2 ⟨fun x hx => ?_, fun o ho x hx => ?_⟩
    · exact isSome_spaceOf?_offered (h.isSome_of_mem_uses (mem_uses_of_mem_hinted hx))
    · exact isSome_spaceOf?_cons.2 (.inr (h.known.taken o ho x hx))
  · refine List.forall_mem_cons.2 ⟨h.isSome_spaceOf?_xml _, fun short hshort => ?_⟩
    exact isSome_spaceOf?_offered (h.isSome_of_mem_bound hshort)

/-- The start tag of an element is written, and it is read where it is written. -/
theorem exists_event : ∃ (w : WrittenName) (written : List (List Char))
    (read : List (WrittenName × String)), w.Legible ∧
      writeName? (hinted around label attributes :: around) true label.name label.hint? =
        some w.text ∧
      attributes.mapM (writeAttribute? (hinted around label attributes :: around)) =
        some written ∧
      (∀ isEmpty after, event? ('<' :: (w.text ++ written.flatten ++
        writeDeclarations (hinted around label attributes) ++ tagEnd isEmpty) ++ after) =
          some (.startTag w read isEmpty, after)) ∧
      Admissible inner w read ∧
      Known (hinted around label attributes :: around)
        ("xml" :: (boundBy label attributes ++ bound))
        (offeredSpaces inner.isEmpty (declaredSpaces read) :: inner) := by
  obtain ⟨w, hlegible, hname, hbound⟩ := h.exists_label
  obtain ⟨written, hwritten, hevent⟩ := h.legible.exists_written
  refine ⟨w, written, readTag attributeName attributes (hinted around label attributes), hlegible,
    hname, hwritten, hevent w hlegible, h.admissible hbound, ?_⟩
  rw [declaredSpaces_readTag h.legible.named h.attributes]
  exact h.known_below

end

end Tag

end XmlScript.Markup
