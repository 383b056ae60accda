import XmlScript.Proofs.Legible

/-!
# Prefixes of names

Names are in a namespace only where a document was read, so they are what the reader has made sure
of: the parts of such a name are plain, and its namespace is not empty (`Content.Spelled`). And one
prefix does not stand for two namespaces in one start tag (`Unambiguous`), which is a property of an
element together with its attributes. A document of trees has it from them
(`Document.Unambiguous.addTrees`), and an edit keeps it, since what it makes has no prefix
(`Document.Edited`).
-/

namespace XmlScript

open Markup (IsPlainName WrittenName OpenElement)

/-! ## Names in a namespace -/

/-- What is certain of the name of an element and of what its start tag declares. -/
structure Label.Spelled (label : Label) : Prop where
  space : ∀ uri ∈ label.name.space?, uri ≠ "" ∧ IsPlainName label.name.localPart.toList
  hint : ∀ short ∈ label.hint?, IsPlainName short.toList
  default : ∀ uri ∈ label.defaultSpace?, uri ≠ ""
  spaces : ∀ p ∈ label.spaces, p.2 ≠ ""

/-- The same for an attribute, which is no declaration. -/
structure Attribute.Spelled (a : Attribute) : Prop where
  space : ∀ uri ∈ a.name.space?,
    uri ≠ "" ∧ IsPlainName a.name.localPart.toList ∧ a.name.localPart ≠ "xmlns"
  hint : ∀ short ∈ a.hint?, IsPlainName short.toList ∧ short ≠ "xmlns"

def Content.Spelled : Content → Prop
  | .element label => label.Spelled
  | .attribute a => a.Spelled
  | .document | .text _ _ | .comment _ | .instruction _ _ => True

theorem makeable_spelled : Document.Makeable Content.Spelled where
  absent := trivial
  newElement _ := ⟨nofun, nofun, nofun, nofun⟩
  newAttribute _ := ⟨nofun, nofun⟩
  newValue ha := ⟨ha.space, nofun⟩
  newText := trivial

namespace Markup

variable {around : List OpenElement} {name : WrittenName} {attributes : List (WrittenName × String)}
  {e : OpenElement} {short uri : String}

theorem exists_mem_of_spaceOf? {spaces : List (List (String × String))}
    (h : spaceOf? short spaces = some uri) : ∃ l ∈ spaces, (short, uri) ∈ l := by
  induction spaces with
  | nil => cases h
  | cons l outer ih =>
    rw [spaceOf?, Option.or_eq_some_iff] at h
    rcases h with hfound | ⟨-, houter⟩
    · obtain ⟨l₁, l₂, rfl, -⟩ := List.lookup_eq_some_iff.1 hfound
      exact ⟨_, List.mem_cons_self .., List.mem_append_right _ (List.mem_cons_self ..)⟩
    · obtain ⟨l', hmem, hpair⟩ := ih houter
      exact ⟨l', List.mem_cons_of_mem _ hmem, hpair⟩

theorem ne_empty_of_mem_offeredSpaces {isTop : Bool} {spaces : List (String × String)}
    (h : ∀ p ∈ spaces, p.2 ≠ "") : ∀ p ∈ offeredSpaces isTop spaces, p.2 ≠ "" := by
  unfold offeredSpaces
  split
  next =>
    refine List.forall_mem_cons.2 ⟨by decide, fun p hp => ?_⟩
    exact h p (List.mem_filter.1 hp).1
  next => exact h

theorem ne_empty_of_mem_filter {uri? : Option String} (h : uri ∈ uri?.filter (· ≠ "")) :
    uri ≠ "" := by
  simpa using (Option.mem_filter_iff.1 h).2

/-- The namespace of the name of an element is declared with it or around it. -/
theorem ne_empty_of_resolveName? {spaces : List (String × String)} {declared? : Option String}
    {expanded : ExpandedName} (ha : ∀ o ∈ around, o.label.Spelled) (hs : ∀ p ∈ spaces, p.2 ≠ "")
    (h : resolveName? around spaces declared? name = some expanded) :
    ∀ uri ∈ expanded.space?, uri ≠ "" := by
  unfold resolveName? at h
  intro uri huri
  split at h
  next short _ =>
    obtain ⟨uri', hfound, rfl⟩ := Option.map_eq_some_iff.1 h
    rw [← Option.some.inj huri]
    obtain ⟨l, hl, hpair⟩ := exists_mem_of_spaceOf? hfound
    rcases List.mem_cons.1 hl with rfl | hl
    · exact hs _ hpair
    · obtain ⟨o, ho, rfl⟩ := List.mem_map.1 hl
      exact (ha o ho).spaces _ hpair
  next =>
    split at h
    next =>
      cases h
      exact ne_empty_of_mem_filter (show uri ∈ Option.filter (· ≠ "") (some _) from huri)
    next =>
      cases h
      obtain ⟨o, ho, hdefault⟩ := List.exists_of_findSome?_eq_some huri
      exact (ha o ho).default uri hdefault

/-- What the reader makes of a start tag is spelled as it was written. -/
theorem spelled_of_open? (ha : ∀ o ∈ around, o.label.Spelled) (hname : name.Legible)
    (hattributes : ∀ a ∈ attributes, a.1.Legible) (h : open? around name attributes = some e) :
    e.label.Spelled ∧ ∀ a ∈ e.attributes, a.Spelled := by
  obtain ⟨-, hspaces, -, expanded, resolved, hexpanded, hresolved, rfl⟩ := open?_eq_some_iff.1 h
  refine ⟨⟨fun uri huri => ⟨?_, ?_⟩, hname.alias?, fun uri huri => ?_, ?_⟩, fun a hmem => ?_⟩
  · exact ne_empty_of_resolveName? ha hspaces hexpanded uri huri
  · show IsPlainName expanded.localPart.toList
    rw [localPart_of_resolveName? hexpanded]
    exact hname.localPart
  · simp only at huri
    split at huri
    next => exact ne_empty_of_mem_filter huri
    next => cases huri
  · exact ne_empty_of_mem_offeredSpaces hspaces
  · rcases mem_resolveAttributes? hresolved hmem with hnone | ⟨w, hw, hfrom⟩
    · cases hnone
    · obtain ⟨hw, hplain⟩ := List.mem_filter.1 (List.mem_mergeSort.1 hw)
      have hlegible := hattributes w hw
      rcases hfrom with ⟨-, rfl⟩ | ⟨short, uri, hshort, huri, rfl⟩
      · exact ⟨nofun, nofun⟩
      · simp only [isPlainAttribute, WrittenName.declaresDefault, WrittenName.declaresSpace, hshort,
          Bool.and_eq_true, Bool.not_eq_true', beq_eq_false_iff_ne, ne_eq, Option.some.injEq,
          Bool.and_eq_false_iff, Bool.not_eq_false', beq_iff_eq] at hplain
        refine ⟨fun uri' h' => ⟨?_, hlegible.localPart, ?_⟩, fun short' h' => ?_⟩
        · rw [← Option.some.inj h']
          obtain ⟨l, hl, hpair⟩ := exists_mem_of_spaceOf? huri
          rcases List.mem_cons.1 hl with rfl | hl
          · exact hspaces _ hpair
          rcases List.mem_cons.1 hl with rfl | hl
          · exact ne_empty_of_mem_offeredSpaces hspaces _ hpair
          · obtain ⟨o, ho, rfl⟩ := List.mem_map.1 hl
            exact (ha o ho).spaces _ hpair
        · exact hplain.2.resolve_left hplain.1
        · rw [← Option.some.inj h']
          exact ⟨hlegible.alias? short hshort, hplain.1⟩

theorem gives_spelled : Gives Event.Legible fun _ => Tree.Has Content.Spelled where
  leaf {event t _} _ ht := by
    refine .of_leaf (Event.isElement_leaf? ht) ?_
    cases event with
    | chars _ | cdata _ | reference _ | comment _ | instruction _ _ =>
      cases ht
      trivial
    | declaration | doctype | startTag _ _ _ | endTag _ => cases ht
  opened {around _ _ _ _} he ha hopen children := by
    have haround : ∀ o ∈ around, o.label.Spelled := by
      intro o ho
      obtain ⟨outer, hbears⟩ := ha o ho
      exact (hbears []).content
    obtain ⟨hlabel, hattributes⟩ := spelled_of_open? haround he.1 he.2 hopen
    exact ⟨hlabel, hattributes⟩

end Markup

/-! ## Prefixes in a start tag -/

/-- The prefix that a name was read with, and the namespace that it stands for. -/
def useOf (hint? : Option String) (name : ExpandedName) : Option (String × String) :=
  hint?.bind fun short => name.space?.map fun uri => (short, uri)

theorem useOf_eq_some_iff {hint? : Option String} {name : ExpandedName} {short uri : String} :
    useOf hint? name = some (short, uri) ↔ hint? = some short ∧ name.space? = some uri := by
  simp [useOf, Option.bind_eq_some_iff]

/-- The prefixes that a start tag uses. -/
def uses (label : Label) (attributes : List Attribute) : List (String × String) :=
  (useOf label.hint? label.name).toList ++ attributes.filterMap fun a => useOf a.hint? a.name

theorem mem_uses_of_attribute {label : Label} {attributes : List Attribute} {a : Attribute}
    {short uri : String} (ha : a ∈ attributes) (hshort : a.hint? = some short)
    (huri : a.name.space? = some uri) : (short, uri) ∈ uses label attributes :=
  List.mem_append_right _ (List.mem_filterMap.2 ⟨a, ha, useOf_eq_some_iff.2 ⟨hshort, huri⟩⟩)

/-- No prefix stands for two namespaces. -/
def Unambiguous (bindings : List (String × String)) : Prop :=
  ∀ x ∈ bindings, ∀ y ∈ bindings, x.1 = y.1 → x.2 = y.2

theorem Unambiguous.subset {l l' : List (String × String)} (h : Unambiguous l) (hl : l' ⊆ l) :
    Unambiguous l' :=
  fun x hx y hy => h x (hl hx) y (hl hy)

/-- The same of an element among trees. -/
def Tree.Unambiguous : Tree → Prop
  | .element label attributes _ => XmlScript.Unambiguous (uses label attributes)
  | .text _ _ | .comment _ | .instruction _ _ => True

namespace Markup

/-- The prefix of an element means what the same prefix of an attribute means. -/
theorem spaceOf?_offered {isTop : Bool} {spaces : List (String × String)}
    {outer : List (List (String × String))} {short uri : String} (ht : isTop = outer.isEmpty)
    (h : spaceOf? short (spaces :: outer) = some uri) :
    spaceOf? short (spaces :: offeredSpaces isTop spaces :: outer) = some uri := by
  rw [spaceOf?, Option.or_eq_some_iff] at h ⊢
  rcases h with hfound | ⟨hnone, houter⟩
  · exact .inl hfound
  · refine .inr ⟨hnone, ?_⟩
    cases outer with
    | nil => cases houter
    | cons l rest =>
      rw [ht, offeredSpaces, List.isEmpty_cons, if_neg Bool.false_ne_true, spaceOf?, hnone]
      exact houter

/-- A start tag says once what a prefix stands for. -/
theorem gives_unambiguous : Gives (fun _ => True) fun _ => Tree.Unambiguous where
  leaf {event t _} _ ht := by
    cases event with
    | chars _ | cdata _ | reference _ | comment _ | instruction _ _ =>
      cases ht
      trivial
    | declaration | doctype | startTag _ _ _ | endTag _ => cases ht
  opened {around name attributes isEmpty e} _ _ hopen children := by
    obtain ⟨-, -, -, expanded, resolved, hexpanded, hresolved, rfl⟩ := open?_eq_some_iff.1 hopen
    -- the meaning of every prefix of the tag is what the reader looks up for it
    have hmeans : ∀ x ∈ uses { name := expanded, hint? := name.alias? } resolved,
        spaceOf? x.1 (declaredSpaces attributes ::
          offeredSpaces around.isEmpty (declaredSpaces attributes) ::
            around.map (·.label.spaces)) = some x.2 := by
      intro x hx
      rcases List.mem_append.1 hx with hlabel | hattribute
      · obtain ⟨hhint, hspace⟩ := useOf_eq_some_iff.1 (Option.mem_toList.1 hlabel)
        have halias : name.alias? = some x.1 := hhint
        simp only [resolveName?, halias] at hexpanded
        obtain ⟨uri, huri, rfl⟩ := Option.map_eq_some_iff.1 hexpanded
        rw [← Option.some.inj hspace]
        exact spaceOf?_offered List.isEmpty_map.symm huri
      · obtain ⟨a, ha, hx⟩ := List.mem_filterMap.1 hattribute
        obtain ⟨hhint, hspace⟩ := useOf_eq_some_iff.1 hx
        rcases mem_resolveAttributes? hresolved ha with hnone | ⟨w, -, ⟨-, rfl⟩ |
          ⟨short, uri, -, huri, rfl⟩⟩
        · cases hnone
        · cases hhint
        · rw [← Option.some.inj hhint, ← Option.some.inj hspace]
          exact huri
    intro x hx y hy hxy
    have hx' := hmeans x hx
    rw [hxy, hmeans y hy] at hx'
    exact (Option.some.inj hx').symm

end Markup

/-! ## Prefixes of a document -/

/-- The same for a node. -/
def Content.use? : Content → Option (String × String)
  | .element label => useOf label.hint? label.name
  | .attribute a => useOf a.hint? a.name
  | .document | .text _ _ | .comment _ | .instruction _ _ => none

theorem Content.Alike.use?_eq {c c' : Content} (h : Alike c c') : c'.use? = c.use? := by
  cases h <;> rfl

/-- What scripts make: nothing has a prefix, and no element is in a namespace. -/
structure Content.IsBare (c : Content) : Prop where
  use? : c.use? = none
  space? : ∀ {label}, c = .element label → label.name.space? = none

namespace Document

variable {d d' : Document} {n p : Nat} {c : Content} {x : String × String}

/-- The prefixes that a node and its attributes use. -/
def usesAt (d : Document) (n : NodeId) : List (String × String) :=
  (n :: (d.entry n).attributes).filterMap fun m => (d.entry m).content.use?

theorem mem_usesAt : x ∈ d.usesAt n ↔
    ∃ m, (m = n ∨ m ∈ (d.entry n).attributes) ∧ (d.entry m).content.use? = some x := by
  rw [usesAt, List.mem_filterMap]
  simp only [List.mem_cons]

/-- No prefix of an element stands for two namespaces. -/
def Unambiguous (d : Document) : Prop := ∀ n, XmlScript.Unambiguous (d.usesAt n)

/-- No node that is still to come has been taken for an attribute or for a parent. -/
structure Ahead (d : Document) : Prop where
  attributes : ∀ {n a}, a ∈ (d.entry n).attributes → a < d.size
  parent : ∀ {n p}, (d.entry n).parent? = some p → p < d.size

theorem Linked.ahead (h : d.Linked) : d.Ahead where
  attributes := h.lt_of_mem_attributes
  parent hp := h.parent_lt_size hp

theorem Ahead.grow (h : d.Ahead) (hg : Grown d d' p c) (hp : p < d.size)
    (hsize : d'.size = d.size + 1) : d'.Ahead where
  attributes {n a} ha := by
    rw [hsize]
    rcases (hg.mem_attributes a n).1 ha with hold | ⟨rfl, -⟩
    · exact Nat.lt_succ_of_lt (h.attributes hold)
    · exact Nat.lt_succ_self _
  parent {n q} hq := by
    rw [hg.parent?] at hq
    rw [hsize]
    split at hq
    next => exact Option.some.inj hq ▸ Nat.lt_succ_of_lt hp
    next => exact Nat.lt_succ_of_lt (h.parent hq)

namespace Unambiguous

theorem shrink (h : d.Unambiguous) (hs : Shrunk d d') : d'.Unambiguous := by
  intro n
  refine (h n).subset fun x hx => ?_
  obtain ⟨m, hm, hx⟩ := mem_usesAt.1 hx
  rw [(hs.alike m).use?_eq] at hx
  exact mem_usesAt.2 ⟨m, hm.imp_right fun ha => (hs.attributes n).subset ha, hx⟩

/-- A new node adds its prefix to itself, or to the element whose attribute it is. -/
theorem mem_usesAt_of_grown (ha : d.Ahead) (hg : Grown d d' p c) (hx : x ∈ d'.usesAt n) :
    x ∈ d.usesAt n ∨ c.use? = some x ∧ (n = d.size ∨ n = p ∧ c.isAttribute = true) := by
  obtain ⟨m, hm, hx⟩ := mem_usesAt.1 hx
  rw [hg.content] at hx
  split at hx
  next hsize =>
    refine .inr ⟨hx, hm.imp (fun h => h.symm.trans hsize) fun hattr => ?_⟩
    rcases (hg.mem_attributes m n).1 hattr with hold | ⟨-, hn, hc⟩
    · exact absurd hsize (Nat.ne_of_lt (ha.attributes hold))
    · exact ⟨hn, hc⟩
  next hsize =>
    refine .inl (mem_usesAt.2 ⟨m, hm.imp_right fun hattr => ?_, hx⟩)
    exact ((hg.mem_attributes m n).1 hattr).resolve_right fun h => hsize h.1

theorem usesAt_size (d : Document) : d.usesAt d.size = [] := by
  rw [usesAt, entry_of_size_le (Nat.le_refl _)]
  simp [Entry.absent, entry_of_size_le (Nat.le_refl _), Content.use?]

/-- A new attribute has to agree with its element and the attributes that are there. -/
theorem grow (h : d.Unambiguous) (ha : d.Ahead) (hg : Grown d d' p c) (hp : p < d.size)
    (hc : c.isAttribute = true → XmlScript.Unambiguous (d.usesAt p ++ c.use?.toList)) :
    d'.Unambiguous := by
  intro n x hx y hy
  have hx' := mem_usesAt_of_grown ha hg hx
  have hy' := mem_usesAt_of_grown ha hg hy
  by_cases hn : n = d.size
  · -- the new node by itself
    rw [hn, usesAt_size] at hx' hy'
    obtain ⟨hx, -⟩ := hx'.resolve_left nofun
    obtain ⟨hy, -⟩ := hy'.resolve_left nofun
    rw [hx] at hy
    rw [Option.some.inj hy]
    exact fun _ => rfl
  by_cases hnew : n = p ∧ c.isAttribute = true
  · obtain ⟨rfl, hattr⟩ := hnew
    refine hc hattr x ?_ y ?_
    · exact List.mem_append.2 (hx'.imp_right fun h => Option.mem_toList.2 h.1)
    · exact List.mem_append.2 (hy'.imp_right fun h => Option.mem_toList.2 h.1)
  · refine h n x ?_ y ?_
    · exact hx'.resolve_right fun h => h.2.elim hn hnew
    · exact hy'.resolve_right fun h => h.2.elim hn hnew

end Unambiguous

/-! ## Scripts -/

/-- What an edit can do: links go, and then one node may come, which has no prefix and, if it is an
element, no namespace. -/
inductive Edited (d d' : Document) : Prop
  | shrunk (h : Shrunk d d')
  | grown {d₁ : Document} {p : NodeId} {c : Content} (hs : Shrunk d d₁) (hp : p < d₁.size)
    (hg : Grown d₁ d' p c) (hc : c.IsBare)

namespace Edited

variable {n : Node}

theorem appendChild (h : d.Linked) (hp : p < d.size) (ha : c.isAttribute = false)
    (hc : c.IsBare) : Edited d (d.appendChild p c) :=
  .grown (.refl h) hp (grown_appendChild hp ha) hc

theorem putAttribute (h : d.Linked) (hp : p < d.size) {a : Attribute} (ha : a.hint? = none) :
    Edited d (d.putAttribute p a) := by
  refine .grown (shrunk_keepAttributes h (p := p) (!d.isAttributeNamed a.name ·)) ?_
    (grown_appendAttribute ?_) ?_
  · rwa [size_modify]
  · rwa [size_modify]
  · refine ⟨?_, nofun⟩
    show useOf a.hint? a.name = none
    rw [ha]
    rfl

theorem addElement (h : d.Linked) {name : String} {made : Node}
    (he : Document.addElement name n d = .ok (made, d')) : Edited d d' := by
  obtain ⟨p, -, -, rfl, hp⟩ := addElement_cases he
  have hp' : d.IsContainer p := hp.imp (·.1) id
  exact appendChild h hp'.lt_size rfl ⟨rfl, fun he => by cases he; rfl⟩

theorem remove (h : d.Linked) (he : Document.remove n d = .ok d') : Edited d d' := by
  obtain ⟨id, p, -, hp, ⟨a, -, rfl⟩ | ⟨hna, rfl⟩⟩ := remove_cases he
  · exact .shrunk (shrunk_dropAttribute h a.name)
  · exact .shrunk (shrunk_detach h (h.child_iff.2 ⟨hp, hna⟩))

theorem setText (h : d.Linked) {text : String} (he : Document.setText text n d = .ok d') :
    Edited d d' := by
  obtain ⟨id, -, ⟨label, hc, rfl⟩ | ⟨s, isCData, hc, rfl⟩ | ⟨a, owner, -, ho, rfl⟩⟩ :=
    setText_cases he
  · have hid : id < (d.clearChildren id).size := by
      rw [size_clearChildren]
      exact lt_size_of_element hc
    exact .grown (shrunk_clearChildren h) hid (grown_appendChild hid rfl) ⟨rfl, nofun⟩
  · exact .shrunk (shrunk_rewrite h hc)
  · exact putAttribute h (h.parent_lt_size ho) rfl

theorem setAttribute (h : d.Linked) {name value : String}
    (he : Document.setAttribute name value n d = .ok d') : Edited d d' := by
  obtain ⟨id, label, -, hc, rfl⟩ := setAttribute_cases he
  exact putAttribute h (lt_size_of_element hc) rfl

theorem insertInstruction (h : d.Linked) {target data : String}
    (he : Document.insertInstruction target data d = .ok d') : Edited d d' :=
  .grown (.refl h) h.root_lt (h.grown_insertInstruction he) ⟨rfl, nofun⟩

end Edited

/-- What is kept where links go and one node comes, no edit breaks. -/
theorem keptByEdits_of_edited {P : Document → Prop}
    (hP : ∀ {d d'}, d.Linked → Edited d d' → P d → P d') :
    KeptByEdits fun d => d.Linked ∧ P d where
  addElement he h := ⟨h.1.addElement he, hP h.1 (.addElement h.1 he) h.2⟩
  remove he h := ⟨h.1.remove he, hP h.1 (.remove h.1 he) h.2⟩
  setText he h := ⟨h.1.setText he, hP h.1 (.setText h.1 he) h.2⟩
  setAttribute he h := ⟨h.1.setAttribute he, hP h.1 (.setAttribute h.1 he) h.2⟩
  addComment he h := by
    obtain ⟨p, -, hp, rfl⟩ := addComment_cases he
    exact ⟨h.1.addComment he, hP h.1 (.appendChild h.1 hp.lt_size rfl ⟨rfl, nofun⟩) h.2⟩
  addCData he h := by
    obtain ⟨p, label, -, hp, rfl⟩ := addCData_cases he
    have hlt := lt_size_of_element hp
    exact ⟨h.1.addCData he, hP h.1 (.appendChild h.1 hlt rfl ⟨rfl, nofun⟩) h.2⟩
  addInstruction he h := by
    obtain ⟨p, -, hp, rfl⟩ := addInstruction_cases he
    exact ⟨h.1.addInstruction he, hP h.1 (.appendChild h.1 hp.lt_size rfl ⟨rfl, nofun⟩) h.2⟩
  insertInstruction he h := ⟨h.1.insertInstruction he, hP h.1 (.insertInstruction h.1 he) h.2⟩

theorem Unambiguous.edit (hu : d.Unambiguous) (h : d.Linked) (he : Edited d d') :
    d'.Unambiguous := by
  cases he with
  | shrunk hs => exact hu.shrink hs
  | @grown d₁ p c hs hp hg hc =>
    refine (hu.shrink hs).grow (h.shrink hs).ahead hg hp fun _ => ?_
    rw [hc.use?, Option.toList_none, List.append_nil]
    exact hu.shrink hs p

/-- What scripts make has no prefix, so they keep the prefixes of a document in order. -/
theorem keptByEdits_unambiguous : KeptByEdits fun d => d.Linked ∧ d.Unambiguous :=
  keptByEdits_of_edited fun h he hu => hu.edit h he

/-! ## Trees and their documents -/

section

variable {d : Document} {n p k : Nat}

/-- What an element shows, is in order. -/
theorem Linked.every_unambiguous (h : d.Linked) (hu : d.Unambiguous) :
    ∀ t ∈ d.treesBelow n, t.Every Tree.Unambiguous := by
  refine h.every_treesBelow fun m hm t ht => ?_
  rw [h.tree?_eq hm] at ht
  split at ht
  next label hlabel =>
    cases ht
    refine (hu m).subset fun x hx => mem_usesAt.2 ?_
    rcases List.mem_append.1 hx with hx | hx
    · refine ⟨m, .inl rfl, ?_⟩
      rw [hlabel]
      exact Option.mem_toList.1 hx
    · obtain ⟨a, ha, hx⟩ := List.mem_filterMap.1 hx
      rw [attributesOf_eq] at ha
      obtain ⟨id, hid, ha⟩ := List.mem_filterMap.1 ha
      refine ⟨id, .inr hid, ?_⟩
      rw [attributeAt?_eq_some_iff.1 ha]
      exact hx
  next => cases ht; trivial
  next => cases ht; trivial
  next => cases ht; trivial
  next => cases ht
  next => cases ht

/-- A document in the making: it has so many nodes at least, and its prefixes are in order. -/
structure Tidy (k : Nat) (d : Document) : Prop where
  le : k ≤ d.size
  ahead : d.Ahead
  unambiguous : d.Unambiguous

namespace Tidy

theorem grow {d' : Document} {c : Content} (h : d.Tidy k) (hg : Grown d d' p c) (hp : p < d.size)
    (hsize : d'.size = d.size + 1)
    (hc : c.isAttribute = true → XmlScript.Unambiguous (d.usesAt p ++ c.use?.toList)) :
    d'.Tidy (d.size + 1) where
  le := Nat.le_of_eq hsize.symm
  ahead := h.ahead.grow hg hp hsize
  unambiguous := h.unambiguous.grow h.ahead hg hp hc

theorem mono {k' : Nat} (h : d.Tidy k) (hk : k' ≤ k) : d.Tidy k' :=
  ⟨Nat.le_trans hk h.le, h.ahead, h.unambiguous⟩

/-- Attributes that agree with each other and with what is there. -/
theorem appendAttributes {attributes : List Attribute} (h : d.Tidy k) (hp : p < k)
    (ha : XmlScript.Unambiguous
      (d.usesAt p ++ attributes.filterMap fun a => useOf a.hint? a.name)) :
    (attributes.foldl (·.appendAttribute p) d).Tidy k := by
  induction attributes generalizing d with
  | nil => exact h
  | cons a rest ih =>
    have hp' : p < d.size := Nat.lt_of_lt_of_le hp h.le
    have hg := grown_appendAttribute (a := a) hp'
    have hmade := h.grow hg hp' (size_appendAttribute d p a) fun _ => ha.subset fun x hx => ?_
    · refine ih (hmade.mono (Nat.le_succ_of_le h.le)) (ha.subset fun x hx => ?_)
      rcases List.mem_append.1 hx with hx | hx
      · rcases Unambiguous.mem_usesAt_of_grown h.ahead hg hx with hold | ⟨hnew, -⟩
        · exact List.mem_append_left _ hold
        · exact List.mem_append_right _ (List.mem_filterMap.2 ⟨a, List.mem_cons_self .., hnew⟩)
      · obtain ⟨b, hb, hx⟩ := List.mem_filterMap.1 hx
        exact List.mem_append_right _ (List.mem_filterMap.2 ⟨b, List.mem_cons_of_mem _ hb, hx⟩)
    · rcases List.mem_append.1 hx with hold | hnew
      · exact List.mem_append_left _ hold
      · refine List.mem_append_right _ (List.mem_filterMap.2 ⟨a, List.mem_cons_self .., ?_⟩)
        exact Option.mem_toList.1 hnew

theorem appendChild {c : Content} (h : d.Tidy k) (hp : p < k) (hc : c.isAttribute = false) :
    (d.appendChild p c).Tidy (d.size + 1) := by
  have hp' : p < d.size := Nat.lt_of_lt_of_le hp h.le
  refine h.grow (grown_appendChild hp' hc) hp' (size_appendChild d p c) fun hattr => ?_
  rw [hc] at hattr
  cases hattr

theorem addTree {t : Tree} (ht : t.Every Tree.Unambiguous) (h : d.Tidy k) (hp : p < k) :
    (d.addTree p t).Tidy k := by
  induction ht generalizing d p k with
  | @element label attributes children ht _ ih =>
    rw [Document.addTree]
    have hp' : p < d.size := Nat.lt_of_lt_of_le hp h.le
    have hmade : (d.appendChild p (.element label)).Tidy (d.size + 1) := h.appendChild hp rfl
    -- so far the new element uses its own prefix only
    have huses : (d.appendChild p (.element label)).usesAt d.size ⊆
        (useOf label.hint? label.name).toList := by
      intro x hx
      rcases Unambiguous.mem_usesAt_of_grown h.ahead (grown_appendChild hp' rfl) hx with
        hold | ⟨hnew, -⟩
      · rw [Unambiguous.usesAt_size] at hold
        cases hold
      · exact Option.mem_toList.2 hnew
    have hattributes := hmade.appendAttributes (Nat.lt_succ_self _)
      (XmlScript.Unambiguous.subset ht fun x hx =>
        List.mem_append.2 ((List.mem_append.1 hx).imp_left (@huses x)))
    refine mono (addTrees_keeps hattributes fun t hmem _ h => ih t hmem h ?_) ?_
    · exact Nat.lt_succ_self _
    · exact Nat.le_succ_of_le h.le
  | text | comment | instruction =>
    rw [Document.addTree]
    exact (h.appendChild hp rfl).mono (Nat.le_succ_of_le h.le)

end Tidy

theorem unambiguous_empty : Document.empty.Unambiguous := by
  intro n
  have hnone : Document.empty.usesAt n = [] := by
    refine List.eq_nil_iff_forall_not_mem.2 fun x hx => ?_
    obtain ⟨m, -, hx⟩ := mem_usesAt.1 hx
    rw [Linked.entry_empty] at hx
    split at hx
    next => cases hx
    next => cases hx
  rw [hnone]
  exact fun x hx => absurd hx List.not_mem_nil

theorem unambiguous_read? {text : String} (h : Markup.read? text = some d) : d.Unambiguous := by
  obtain ⟨trees, htrees, rfl⟩ := Option.map_eq_some_iff.1 h
  have hevery := Markup.gives_unambiguous.every_of_readTrees? (fun _ _ _ _ => trivial) htrees
  have hempty : Document.empty.Tidy 1 := ⟨Nat.le_refl _, Linked.ofEmpty.ahead, unambiguous_empty⟩
  have htidy := addTrees_keeps hempty fun t ht _ h => Tidy.addTree (hevery t ht) h Nat.zero_lt_one
  exact htidy.unambiguous

theorem spelled_read? {text : String} (h : Markup.read? text = some d) :
    d.Holds Content.Spelled :=
  Markup.gives_spelled.holds_of_read? makeable_spelled.absent trivial h

end

end Document

end XmlScript
