import XmlScript.Proofs.Prefixes

/-!
# Default namespaces

A name that was read without a prefix is in the default namespace that its tag declares, or else in
that of the nearest element around that declares one (`Markup.gives_inDefault`). This is a property
of an element among those around it, so a document keeps it as a table of the default namespace at
every node (`Document.DefaultsTo`): the table grows with the nodes, and it stays right when links
go, since no node ever comes to another parent.
-/

namespace XmlScript

/-- The default namespace inside some elements, the nearest first. -/
def defaultOf (around : List Label) : Option String := around.findSome? (·.defaultSpace?)

theorem defaultOf_cons (label : Label) (around : List Label) :
    defaultOf (label :: around) = label.defaultSpace?.or (defaultOf around) := by
  unfold defaultOf
  rw [List.findSome?_cons]
  cases label.defaultSpace? <;> rfl

/-- An element without a prefix, if it is in a namespace, is in the default one. -/
def Label.InDefault (label : Label) (default? : Option String) : Prop :=
  label.hint? = none → label.name.space?.isSome = true → label.name.space? = default?

/-- The same of an element among trees. -/
def Tree.InDefault (around : List Label) : Tree → Prop
  | .element label _ _ => label.InDefault (defaultOf (label :: around))
  | .text _ _ | .comment _ | .instruction _ _ => True

theorem Tree.InDefault.of_leaf {around : List Label} {t : Tree} (ht : t.isElement = false) :
    t.InDefault around := by
  cases t with
  | element label attributes children => cases ht
  | text _ _ | comment _ | instruction _ _ => trivial

namespace Markup

theorem gives_inDefault : Gives (fun _ => True) Tree.InDefault where
  leaf _ ht := .of_leaf (Event.isElement_leaf? ht)
  opened {around _ attributes _ _} _ _ hopen children := by
    obtain ⟨-, -, -, expanded, _, hexpanded, -, rfl⟩ := open?_eq_some_iff.1 hopen
    intro hhint hspace
    have halias := show WrittenName.alias? _ = none from hhint
    have haround : defaultOf (labels around) = around.findSome? (·.label.defaultSpace?) := by
      unfold defaultOf labels
      rw [List.findSome?_map]
      rfl
    rw [defaultOf_cons, haround]
    simp only [resolveName?, halias, Option.isNone_none, if_true] at hexpanded hspace ⊢
    cases hdefaults : (declaredDefaults attributes).head? with
    | none =>
      rw [hdefaults] at hexpanded
      cases hexpanded
      rfl
    | some uri =>
      -- a default that is taken back leaves the name in no namespace
      rw [hdefaults] at hexpanded
      cases hexpanded
      exact (Option.or_of_isSome hspace).symm

end Markup

/-! ## Tables of default namespaces -/

/-- The default namespace at a node, if the one around it is given. -/
def Content.defaultIn (around? : Option String) : Content → Option String
  | .element label => label.defaultSpace?.or around?
  | .document | .attribute _ | .text _ _ | .comment _ | .instruction _ _ => around?

theorem Content.Alike.defaultIn_eq {c c' : Content} (h : Alike c c') (around? : Option String) :
    c'.defaultIn around? = c.defaultIn around? := by
  cases h <;> rfl

theorem Content.Alike.element_eq {c : Content} {label : Label} (h : Alike c (.element label)) :
    c = .element label := by
  cases h
  rfl

namespace Document

variable {d d' d'' : Document} {table table' table'' : NodeId → Option String} {p : Nat}
  {c : Content}

/-- The default namespace at every node, which is the one that its element is in without a prefix.
Nodes that have been detached keep what they had. -/
structure DefaultsTo (d : Document) (table : NodeId → Option String) : Prop where
  root : table root = none
  below : ∀ {n p}, (d.entry n).parent? = some p →
    table n = (d.entry n).content.defaultIn (table p)
  named : ∀ {n label}, (d.entry n).content = .element label → label.InDefault (table n)

/-- A document has grown, and the table of the one before is the start of its own. -/
structure Extends (d : Document) (table : NodeId → Option String) (d' : Document)
    (table' : NodeId → Option String) : Prop where
  le : d.size ≤ d'.size
  agree : ∀ n < d.size, table' n = table n
  ahead : d'.Ahead
  defaults : d'.DefaultsTo table'

namespace Extends

theorem refl (ha : d.Ahead) (h : d.DefaultsTo table) : Extends d table d table :=
  ⟨Nat.le_refl _, fun _ _ => rfl, ha, h⟩

theorem trans (h : Extends d table d' table') (h' : Extends d' table' d'' table'') :
    Extends d table d'' table'' where
  le := Nat.le_trans h.le h'.le
  agree n hn := (h'.agree n (Nat.lt_of_lt_of_le hn h.le)).trans (h.agree n hn)
  ahead := h'.ahead
  defaults := h'.defaults

end Extends

namespace DefaultsTo

theorem shrink (h : d.DefaultsTo table) (hs : Shrunk d d') : d'.DefaultsTo table where
  root := h.root
  below hp := by rw [(hs.alike _).defaultIn_eq, h.below (hs.parent? hp)]
  named {n label} hc := by
    have halike := hs.alike n
    rw [hc] at halike
    exact h.named halike.element_eq

/-- A new element has to be in the default namespace where it comes. -/
theorem grow (h : d.DefaultsTo table) (ha : d.Ahead) (hg : Grown d d' p c) (hp : p < d.size)
    (hc : ∀ {label}, c = .element label → label.InDefault (c.defaultIn (table p))) :
    ∃ table', d'.DefaultsTo table' ∧ (∀ n < d.size, table' n = table n) ∧
      table' d.size = c.defaultIn (table p) := by
  let table' : NodeId → Option String := fun n =>
    if n = d.size then c.defaultIn (table p) else table n
  have hold : ∀ n < d.size, table' n = table n := fun n hn => if_neg (Nat.ne_of_lt hn)
  have hnew : table' d.size = c.defaultIn (table p) := if_pos rfl
  refine ⟨table', ⟨?_, ?_, ?_⟩, hold, hnew⟩
  · exact (hold _ (Nat.lt_of_le_of_lt (Nat.zero_le _) hp)).trans h.root
  · intro n q hq
    rw [hg.parent?] at hq
    rw [hg.content]
    split at hq
    next hn => rw [if_pos hn, hn, hnew, ← Option.some.inj hq, hold p hp]
    next hn =>
      rw [if_neg hn, hold q (ha.parent hq), ← h.below hq]
      exact if_neg hn
  · intro n label hn
    rw [hg.content] at hn
    split at hn
    next hsize =>
      rw [hsize, hnew]
      exact hc hn
    next hsize =>
      rw [show table' n = table n from if_neg hsize]
      exact h.named hn

/-! ### Scripts -/

/-- No edit puts an element in a namespace. -/
theorem edit (hd : d.DefaultsTo table) (h : d.Linked) (he : Edited d d') :
    ∃ table', d'.DefaultsTo table' := by
  cases he with
  | shrunk hs => exact ⟨table, hd.shrink hs⟩
  | @grown d₁ p c hs hp hg hc =>
    have hbare {label : Label} (hlabel : c = .element label) {default? : Option String} :
        label.InDefault default? := by
      intro _ hspace
      rw [hc.space? hlabel] at hspace
      cases hspace
    obtain ⟨table', h', -⟩ := (hd.shrink hs).grow (h.shrink hs).ahead hg hp fun he => hbare he
    exact ⟨table', h'⟩

/-- Scripts put no element in a namespace, so all that are in one stay in their default ones. -/
theorem keptByEdits : KeptByEdits fun d => d.Linked ∧ ∃ table, d.DefaultsTo table :=
  keptByEdits_of_edited fun h he ⟨_, hd⟩ => hd.edit h he

/-! ### Trees -/

/-- What an element shows, stands in its default namespaces. -/
theorem stands_tree? (hd : d.DefaultsTo table) (h : d.Linked) {bound n : Nat} {t : Tree}
    {around : List Label} (ht : d.tree? bound n = some t) (hp : (d.entry n).parent? = some p)
    (htable : table p = defaultOf around) : t.Stands Tree.InDefault around := by
  induction bound generalizing n p t around with
  | zero => cases ht
  | succ bound ih =>
    rw [tree?] at ht
    split at ht
    next label hlabel =>
      cases ht
      have hown : table n = defaultOf (label :: around) := by
        rw [hd.below hp, hlabel, htable, defaultOf_cons]
        rfl
      refine .element ?_ fun t ht => ?_
      · show label.InDefault (defaultOf (label :: around))
        rw [← hown]
        exact hd.named hlabel
      · obtain ⟨m, hm, ht⟩ := List.mem_filterMap.1 ht
        exact ih ht (h.child_iff.1 hm).1 hown
    all_goals cases ht
    all_goals exact .leaf rfl trivial

theorem stands_trees (hd : d.DefaultsTo table) (h : d.Linked) :
    ∀ t ∈ d.trees, t.Stands Tree.InDefault [] := by
  intro t ht
  obtain ⟨n, hn, ht⟩ := List.mem_filterMap.1 ht
  exact hd.stands_tree? h ht (h.child_iff.1 hn).1 hd.root

end DefaultsTo

/-! ## Documents that are read -/

namespace Extends

variable {around : List Label}

theorem grow (h : d.DefaultsTo table) (ha : d.Ahead) (hg : Grown d d' p c) (hp : p < d.size)
    (hsize : d'.size = d.size + 1)
    (hc : ∀ {label}, c = .element label → label.InDefault (c.defaultIn (table p))) :
    ∃ table', Extends d table d' table' ∧ table' d.size = c.defaultIn (table p) := by
  obtain ⟨table', h', hold, hnew⟩ := h.grow ha hg hp hc
  exact ⟨table', ⟨hsize ▸ Nat.le_succ _, hold, ha.grow hg hp hsize, h'⟩, hnew⟩

theorem appendLeaf (h : d.DefaultsTo table) (ha : d.Ahead) (hp : p < d.size)
    (hattr : c.isAttribute = false) (helement : c.isElement = false) :
    ∃ table', Extends d table (d.appendChild p c) table' := by
  obtain ⟨table', h', -⟩ := grow h ha (grown_appendChild hp hattr) hp (size_appendChild d p c)
    fun he => by
      rw [he] at helement
      cases helement
  exact ⟨table', h'⟩

theorem appendAttributes (attributes : List Attribute) (h : d.DefaultsTo table) (ha : d.Ahead)
    (hp : p < d.size) :
    ∃ table', Extends d table (attributes.foldl (·.appendAttribute p) d) table' := by
  induction attributes generalizing d table with
  | nil => exact ⟨table, .refl ha h⟩
  | cons a rest ih =>
    obtain ⟨table₁, h₁, -⟩ := grow h ha (grown_appendAttribute (a := a) hp) hp
      (size_appendAttribute d p a) fun he => by cases he
    obtain ⟨table₂, h₂⟩ := ih h₁.defaults h₁.ahead (Nat.lt_of_lt_of_le hp h₁.le)
    exact ⟨table₂, h₁.trans h₂⟩

/-- Trees below one node, if each of them may be added to it. -/
theorem addTrees_of_each {trees : List Tree} (h : d.DefaultsTo table) (ha : d.Ahead)
    (hp : p < d.size) (htable : table p = defaultOf around)
    (ih : ∀ t ∈ trees, ∀ {d table}, DefaultsTo d table → d.Ahead → p < d.size →
      table p = defaultOf around → ∃ table', Extends d table (d.addTree p t) table') :
    ∃ table', Extends d table (d.addTrees p trees) table' := by
  refine addTrees_keeps (R := fun d' => ∃ table', Extends d table d' table') ⟨table, refl ha h⟩ ?_
  rintro t ht d₁ ⟨table₁, h₁⟩
  obtain ⟨table₂, h₂⟩ := ih t ht h₁.defaults h₁.ahead (Nat.lt_of_lt_of_le hp h₁.le)
    ((h₁.agree p hp).trans htable)
  exact ⟨table₂, h₁.trans h₂⟩

theorem addTree {t : Tree} (ht : t.Stands Tree.InDefault around) (h : d.DefaultsTo table)
    (ha : d.Ahead) (hp : p < d.size) (htable : table p = defaultOf around) :
    ∃ table', Extends d table (d.addTree p t) table' := by
  induction ht generalizing d p table with
  | @element around label attributes children hlabel _ ih =>
    rw [Document.addTree]
    have hown : (Content.element label).defaultIn (table p) = defaultOf (label :: around) := by
      rw [htable, defaultOf_cons]
      rfl
    obtain ⟨table₁, h₁, hnew⟩ := grow h ha (grown_appendChild hp rfl) hp
      (size_appendChild d p _) (c := .element label) fun he => by
        cases he
        rw [hown]
        exact hlabel
    have hlt : d.size < (d.appendChild p (.element label)).size := by
      rw [size_appendChild]
      exact Nat.lt_succ_self _
    obtain ⟨table₂, h₂⟩ := appendAttributes attributes h₁.defaults h₁.ahead hlt
    obtain ⟨table₃, h₃⟩ := addTrees_of_each h₂.defaults h₂.ahead (Nat.lt_of_lt_of_le hlt h₂.le)
      ((h₂.agree _ hlt).trans (hnew.trans hown)) fun t ht {d table} h ha hp => ih t ht h ha hp
    exact ⟨table₃, h₁.trans (h₂.trans h₃)⟩
  | @leaf around t hleaf _ =>
    cases t with
    | element label attributes children => cases hleaf
    | text s isCData | comment s | instruction target data? =>
      rw [Document.addTree]
      exact appendLeaf h ha hp rfl rfl

theorem addTrees {trees : List Tree} (ht : ∀ t ∈ trees, t.Stands Tree.InDefault around)
    (h : d.DefaultsTo table) (ha : d.Ahead) (hp : p < d.size)
    (htable : table p = defaultOf around) : ∃ table', Extends d table (d.addTrees p trees) table' :=
  addTrees_of_each h ha hp htable fun t hmem _ _ h ha hp htable =>
    addTree (ht t hmem) h ha hp htable

end Extends

theorem defaultsTo_empty : Document.empty.DefaultsTo fun _ => none where
  root := rfl
  below {n p} hp := by
    rw [Linked.entry_empty] at hp
    split at hp <;> cases hp
  named {n label} hn := by
    rw [Linked.entry_empty] at hn
    split at hn <;> cases hn

theorem defaultsTo_read? {text : String} (h : Markup.read? text = some d) :
    ∃ table, d.DefaultsTo table := by
  obtain ⟨trees, htrees, rfl⟩ := Option.map_eq_some_iff.1 h
  have hstands := Markup.gives_inDefault.stands_of_readTrees? (fun _ _ _ _ => trivial) htrees
  obtain ⟨table, h⟩ :=
    Extends.addTrees hstands defaultsTo_empty Linked.ofEmpty.ahead Nat.zero_lt_one rfl
  exact ⟨table, h.defaults⟩

end Document

end XmlScript
