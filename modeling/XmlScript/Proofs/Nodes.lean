import XmlScript.Proofs.Contents

/-!
# Nodes that are read

What has a property in everything that is read, where it stands: the nodes that single events stand
for, and elements, which their start tag makes what they are whatever their children will be
(`Gives`). Then every node of the trees that are read has the property
(`Gives.stands_of_readTrees?`); the induction is on the events, and every element that is open or
closed carries it (`Progress.Stands`). A property may ask for the elements around a node; one that
does not is a property of its own (`Gives.every_of_readTrees?`).
-/

namespace XmlScript

namespace Tree

/-- Every node of a tree has a property among the elements around it, whose labels are given, the
nearest first. -/
inductive Stands (P : List Label → Tree → Prop) : (around : List Label) → Tree → Prop
  | element {around : List Label} {label : Label} {attributes : List Attribute}
    {children : List Tree} (h : P around (.element label attributes children))
    (hc : ∀ t ∈ children, Stands P (label :: around) t) :
    Stands P around (.element label attributes children)
  | leaf {around : List Label} {t : Tree} (ht : t.isElement = false) (h : P around t) :
    Stands P around t

theorem Stands.of_element {P : List Label → Tree → Prop} {around : List Label} {label : Label}
    {attributes : List Attribute} {children : List Tree}
    (h : Stands P around (.element label attributes children)) :
    P around (.element label attributes children) ∧
      ∀ t ∈ children, t.Stands P (label :: around) := by
  cases h with
  | element h hc => exact ⟨h, hc⟩
  | leaf ht => cases ht

/-- A property of every node may be added. -/
theorem Stands.both {P R : List Label → Tree → Prop} {Q : Tree → Prop} {around : List Label}
    {t : Tree} (h : t.Stands P around) (h' : t.Every Q)
    (hR : ∀ around t, P around t → Q t → R around t) : t.Stands R around := by
  induction h with
  | element hP _ ih =>
    obtain ⟨hQ, hc⟩ := every_element_iff.1 h'
    exact .element (hR _ _ hP hQ) fun t ht => ih t ht (hc t ht)
  | leaf ht hP => exact .leaf ht (hR _ _ hP h'.self)

/-- A property that does not ask for the elements around. -/
theorem Stands.every {P : Tree → Prop} {around : List Label} {t : Tree}
    (h : t.Stands (fun _ => P) around) : t.Every P := by
  induction h with
  | element h _ ih => exact .element h ih
  | leaf ht h => exact .of_leaf ht h

end Tree

namespace Markup

variable {P : List Label → Tree → Prop} {E : Event → Prop} {e : OpenElement}
  {outer : List OpenElement}

/-- The elements around a node that is inside open elements. -/
def labels (inner : List OpenElement) : List Label := inner.map (·.label)

/-- An element has a property inside others, whatever its children will be. -/
def OpenElement.Bears (P : List Label → Tree → Prop) (outer : List OpenElement) (e : OpenElement) :
    Prop :=
  ∀ children, P (labels outer) (.element e.label e.attributes children)

/-- Events of one kind make nodes with a property. -/
structure Gives (E : Event → Prop) (P : List Label → Tree → Prop) : Prop where
  leaf : ∀ {event t around}, E event → event.leaf? = some t → P around t
  opened : ∀ {around name attributes isEmpty e}, E (.startTag name attributes isEmpty) →
    (∀ o ∈ around, ∃ outer, o.Bears P outer) → open? around name attributes = some e →
      e.Bears P around

/-- Open elements have a property, and so has what they have been given. -/
inductive Open (P : List Label → Tree → Prop) : List OpenElement → Prop
  | nil : Open P []
  | cons {e : OpenElement} {outer : List OpenElement} (he : e.Bears P outer)
    (hc : ∀ t ∈ e.children, t.Stands P (labels (e :: outer))) (h : Open P outer) :
    Open P (e :: outer)

theorem Open.exists_bears {inner : List OpenElement} (h : Open P inner) :
    ∀ o ∈ inner, ∃ outer, o.Bears P outer := by
  induction h with
  | nil => exact List.forall_mem_nil _
  | cons he _ _ ih => exact List.forall_mem_cons.2 ⟨⟨_, he⟩, ih⟩

/-- Every node that has been read so far has a property. -/
structure Progress.Stands (P : List Label → Tree → Prop) (p : Progress) : Prop where
  top : ∀ t ∈ p.top, t.Stands P []
  inner : Open P p.inner

namespace Progress.Stands

variable {p p' : Progress} {t : Tree} {event : Event}

theorem withStage (h : p.Stands P) (stage : Stage) : ({ p with stage } : Progress).Stands P :=
  ⟨h.top, h.inner⟩

theorem add (h : p.Stands P) (ht : t.Stands P (labels p.inner)) : (p.add t).Stands P := by
  obtain ⟨stage, top, inner⟩ := p
  obtain ⟨htop, hinner⟩ := h
  cases hinner with
  | nil => exact ⟨List.forall_mem_cons.2 ⟨ht, htop⟩, .nil⟩
  | cons he hc houter => exact ⟨htop, .cons he (List.forall_mem_cons.2 ⟨ht, hc⟩) houter⟩

/-- What is closed has been given all its children. -/
theorem close (he : e.Bears P outer) (hc : ∀ t ∈ e.children, t.Stands P (labels (e :: outer))) :
    e.close.Stands P (labels outer) :=
  .element (he _) fun t ht => hc t (List.mem_reverse.1 ht)

theorem startTag? {name : WrittenName} {attributes : List (WrittenName × String)} {isEmpty : Bool}
    (hg : Gives E P) (h : p.Stands P) (he : E (.startTag name attributes isEmpty))
    (hp : p.startTag? name attributes isEmpty = some p') : p'.Stands P := by
  unfold Progress.startTag? at hp
  split at hp
  next => cases hp
  next =>
    obtain ⟨e, hopen, rfl⟩ := Option.map_eq_some_iff.1 hp
    have hbears := hg.opened he h.inner.exists_bears hopen
    have hnone : ∀ t ∈ e.children, t.Stands P (labels (e :: p.inner)) := by
      rw [(open?_cases hopen).2]
      exact List.forall_mem_nil _
    cases isEmpty with
    | true => exact (h.withStage _).add (close hbears hnone)
    | false => exact ⟨h.top, .cons hbears hnone h.inner⟩

theorem step? (hg : Gives E P) (h : p.Stands P) (he : E event) (hp : p.step? event = some p') :
    p'.Stands P := by
  rcases step?_cases hp with ⟨name, attributes, isEmpty, rfl, hp⟩ | ⟨e, outer, hinner, rfl⟩ |
    ⟨stage, -, rfl | ⟨t, ht, -, rfl⟩⟩
  · exact startTag? hg h he hp
  · have hopen := h.inner
    rw [hinner] at hopen
    cases hopen with
    | cons hbears hchildren houter => exact add ⟨h.top, houter⟩ (close hbears hchildren)
  · exact h.withStage stage
  · exact (h.withStage stage).add (.leaf (Event.isElement_leaf? ht) (hg.leaf he ht))

theorem foldlM {events : List Event} (hg : Gives E P) (h : p.Stands P) (he : ∀ e ∈ events, E e)
    (hp : events.foldlM Progress.step? p = some p') : p'.Stands P := by
  induction events generalizing p with
  | nil =>
    cases hp
    exact h
  | cons event rest ih =>
    rw [List.foldlM_cons] at hp
    obtain ⟨q, hq, hp⟩ := Option.bind_eq_some_iff.1 hp
    obtain ⟨hevent, hrest⟩ := List.forall_mem_cons.1 he
    exact ih (h.step? hg hevent hq) hrest hp

end Progress.Stands

variable {s : List Char} {trees : List Tree}

/-- Every node of what is read has the property that the events give. -/
theorem Gives.stands_of_readTrees? (hg : Gives E P)
    (he : ∀ events, events? s = some events → ∀ e ∈ events, E e)
    (h : readTrees? s = some trees) : ∀ t ∈ trees, t.Stands P [] := by
  obtain ⟨p, hp, hfinish⟩ := Option.bind_eq_some_iff.1 h
  obtain ⟨events, hevents, hp⟩ := Option.bind_eq_some_iff.1 hp
  have hstart : ({} : Progress).Stands P := ⟨List.forall_mem_nil _, .nil⟩
  have hstands := hstart.foldlM hg (he events hevents) hp
  unfold Progress.finish? at hfinish
  split at hfinish
  next =>
    cases hfinish
    exact fun t ht => hstands.top t (List.mem_reverse.1 ht)
  next => cases hfinish

theorem Gives.every_of_readTrees? {P : Tree → Prop} (hg : Gives E fun _ => P)
    (he : ∀ events, events? s = some events → ∀ e ∈ events, E e)
    (h : readTrees? s = some trees) : ∀ t ∈ trees, t.Every P :=
  fun t ht => (hg.stands_of_readTrees? he h t ht).every

/-! ## Attributes -/

/-- Where an attribute of an element comes from: one in no namespace is written without a prefix,
and the prefix of every other means its namespace. -/
theorem mem_resolveAttributes? {space? : String → Option String}
    {written : List (WrittenName × String)} {done resolved : List Attribute} {a : Attribute}
    (h : resolveAttributes? space? written done = some resolved) (ha : a ∈ resolved) :
    a ∈ done ∨ ∃ w ∈ written,
      (w.1.alias? = none ∧ a = { name := .plain w.1.localPart, value := w.2 }) ∨
      ∃ short uri, w.1.alias? = some short ∧ space? short = some uri ∧
        a = { name := ⟨some uri, w.1.localPart⟩, hint? := some short, value := w.2 } := by
  induction written generalizing done with
  | nil =>
    cases h
    exact .inl ha
  | cons w rest ih =>
    obtain ⟨b, hb, h⟩ := Option.bind_eq_some_iff.1 h
    rcases ih h with hdone | ⟨w', hw', hresolved⟩
    · rcases List.mem_append.1 hdone with hold | hnew
      · exact .inl (List.mem_filter.1 hold).1
      · refine .inr ⟨w, List.mem_cons_self .., ?_⟩
        rw [List.mem_singleton.1 hnew]
        split at hb
        next hnone =>
          cases hb
          exact .inl ⟨hnone, rfl⟩
        next short hshort =>
          obtain ⟨uri, huri, rfl⟩ := Option.map_eq_some_iff.1 hb
          exact .inr ⟨short, uri, hshort, huri, rfl⟩
    · exact .inr ⟨w', List.mem_cons_of_mem _ hw', hresolved⟩

theorem localPart_of_resolveName? {around : List OpenElement} {spaces : List (String × String)}
    {declared? : Option String} {name : WrittenName} {expanded : ExpandedName}
    (h : resolveName? around spaces declared? name = some expanded) :
    expanded.localPart = name.localPart := by
  unfold resolveName? at h
  split at h
  next =>
    obtain ⟨uri, -, rfl⟩ := Option.map_eq_some_iff.1 h
    rfl
  next =>
    split at h
    next => cases h; rfl
    next => cases h; rfl

end Markup

end XmlScript
