import Mathlib.Data.List.Basic
import XmlScript.Proofs.Entry

/-!
# Linked documents

`Document.Linked` is what ties the entries of a document together: children know their parent and a
parent its children, attributes belong to their element, and the document node keeps to what it may
hold. Parents are smaller numbers than their children, because a node is numbered when it is made
and is only ever put below a node that is there; so no chain of parents can close.

A change of a document either puts one new node below a node that is there (`Document.Grown`) or
lets nodes go and rewrites texts (`Document.Shrunk`). A linked document stays linked when it grows
by a node that its parent takes (`Linked.grow`) and whenever it shrinks (`Linked.shrink`); the rest
of the module says of every change which of the two it is.
-/

namespace XmlScript

namespace Content

/-- Whether a node is an element. -/
def isElement : Content → Bool
  | .element _ => true
  | _ => false

/-- Whether a node is a piece of text. -/
def isText : Content → Bool
  | .text _ _ => true
  | _ => false

/-- Whether a node is an attribute. -/
def isAttribute : Content → Bool
  | .attribute _ => true
  | _ => false

theorem isAttribute_iff {c : Content} : c.isAttribute = true ↔ ∃ a, c = .attribute a := by
  constructor
  · intro h
    unfold isAttribute at h
    split at h
    next a => exact ⟨a, rfl⟩
    next => cases h
  · intro h
    obtain ⟨a, rfl⟩ := h
    rfl

/-- The name of an element or attribute with its namespace. -/
def name? : Content → Option ExpandedName
  | .element label => some label.name
  | .attribute a => some a.name
  | _ => none

/-- The same but for the wording of a text. -/
inductive Alike : Content → Content → Prop
  | refl (c : Content) : Alike c c
  | text (s s' : String) (isCData isCData' : Bool) : Alike (.text s isCData) (.text s' isCData')

namespace Alike

variable {c c' : Content}

theorem document_iff (h : Alike c c') : c' = .document ↔ c = .document := by
  cases h with
  | refl => exact Iff.rfl
  | text => exact iff_of_false nofun nofun

theorem isElement_eq (h : Alike c c') : c'.isElement = c.isElement := by cases h <;> rfl

theorem isText_eq (h : Alike c c') : c'.isText = c.isText := by cases h <;> rfl

theorem isAttribute_eq (h : Alike c c') : c'.isAttribute = c.isAttribute := by cases h <;> rfl

theorem name?_eq (h : Alike c c') : c'.name? = c.name? := by cases h <;> rfl

end Alike

end Content

namespace Document

theorem isElement_eq (d : Document) (n : NodeId) : d.isElement n = (d.entry n).content.isElement := by
  unfold isElement
  cases (d.entry n).content <;> rfl

theorem isElement_iff {d : Document} {n : NodeId} :
    d.isElement n = true ↔ ∃ label, (d.entry n).content = .element label := by
  unfold isElement
  cases (d.entry n).content <;> simp

/-- The entries of a document fit together. -/
structure Linked (d : Document) : Prop where
  /-- There is one document node. -/
  document_iff : ∀ n, (d.entry n).content = .document ↔ n = root
  parent_lt : ∀ {n p}, (d.entry n).parent? = some p → p < n
  /-- The children of a node are the nodes, attributes apart, whose parent it is. -/
  child_iff : ∀ {n p}, n ∈ (d.entry p).children ↔
    (d.entry n).parent? = some p ∧ (d.entry n).content.isAttribute = false
  nodup_children : ∀ p, (d.entry p).children.Nodup
  owner : ∀ {a p}, a ∈ (d.entry p).attributes →
    (d.entry a).content.isAttribute = true ∧ (d.entry a).parent? = some p
  nodup_attributes : ∀ p, (d.entry p).attributes.Nodup
  /-- Two attributes of an element have two names. -/
  name_inj : ∀ {a b p}, a ∈ (d.entry p).attributes → b ∈ (d.entry p).attributes →
    (d.entry a).content.name? = (d.entry b).content.name? → a = b
  top_text : ∀ {n}, n ∈ (d.entry root).children → (d.entry n).content.isText = false
  /-- There is one document element at most. -/
  top_element : ∀ {n m}, n ∈ (d.entry root).children → m ∈ (d.entry root).children →
    (d.entry n).content.isElement = true → (d.entry m).content.isElement = true → n = m

namespace Linked

variable {d d' : Document} {n p : NodeId}

/-! ## The first document -/

theorem entry_empty (n : NodeId) :
    empty.entry n = if n = root then { content := .document } else .absent := by
  cases n with
  | zero => rfl
  | succ n => rfl

theorem ofEmpty : empty.Linked := by
  have hparent (n : NodeId) : (empty.entry n).parent? = none := by
    rw [entry_empty]; split <;> rfl
  have hchildren (n : NodeId) : (empty.entry n).children = [] := by
    rw [entry_empty]; split <;> rfl
  have hattributes (n : NodeId) : (empty.entry n).attributes = [] := by
    rw [entry_empty]; split <;> rfl
  constructor
  case document_iff =>
    intro n
    rw [entry_empty]
    by_cases h : n = root
    · simp only [h, if_true]
    · simp only [h, if_false, Entry.absent, reduceCtorEq]
  all_goals simp [hparent, hchildren, hattributes]

/-! ## Numbers that are not taken yet -/

theorem lt_of_mem_children (h : d.Linked) (hn : n ∈ (d.entry p).children) : n < d.size :=
  lt_size_of_parent? (h.child_iff.1 hn).1

theorem parent_lt_size (h : d.Linked) (hp : (d.entry n).parent? = some p) : p < d.size :=
  Nat.lt_trans (h.parent_lt hp) (lt_size_of_parent? hp)

theorem lt_of_mem_attributes (h : d.Linked) (hn : n ∈ (d.entry p).attributes) : n < d.size :=
  lt_size_of_parent? (h.owner hn).2

theorem root_lt (h : d.Linked) : root < d.size := by
  apply lt_size_of_content
  intro s hs
  rw [(h.document_iff root).2 rfl] at hs
  cases hs

/-! ## Growing -/

end Linked

/-- A new node may go below another. -/
structure Takes (d : Document) (p : NodeId) (c : Content) : Prop where
  lt : p < d.size
  notDocument : c ≠ .document
  notText : p = root → c.isText = false
  notSecond : p = root → c.isElement = true →
    ∀ n ∈ (d.entry root).children, (d.entry n).content.isElement = false
  notNamesake : c.isAttribute = true →
    ∀ n ∈ (d.entry p).attributes, (d.entry n).content.name? ≠ c.name?

/-- The second document is the first with a new node below `p`. -/
structure Grown (d d' : Document) (p : NodeId) (c : Content) : Prop where
  content : ∀ n, (d'.entry n).content = if n = d.size then c else (d.entry n).content
  parent? : ∀ n, (d'.entry n).parent? = if n = d.size then some p else (d.entry n).parent?
  mem_children : ∀ n q, n ∈ (d'.entry q).children ↔
    n ∈ (d.entry q).children ∨ (n = d.size ∧ q = p ∧ c.isAttribute = false)
  nodup_children : ∀ q, (d.entry q).children.Nodup → d.size ∉ (d.entry q).children →
    (d'.entry q).children.Nodup
  mem_attributes : ∀ n q, n ∈ (d'.entry q).attributes ↔
    n ∈ (d.entry q).attributes ∨ (n = d.size ∧ q = p ∧ c.isAttribute = true)
  nodup_attributes : ∀ q, (d.entry q).attributes.Nodup → d.size ∉ (d.entry q).attributes →
    (d'.entry q).attributes.Nodup

/-- The second document is the first less some links, but for the wording of texts. -/
structure Shrunk (d d' : Document) : Prop where
  alike : ∀ n, Content.Alike (d.entry n).content (d'.entry n).content
  parent? : ∀ {n p}, (d'.entry n).parent? = some p → (d.entry n).parent? = some p
  children : ∀ p, (d'.entry p).children.Sublist (d.entry p).children
  attributes : ∀ p, (d'.entry p).attributes.Sublist (d.entry p).attributes
  /-- A child leaves its parent and forgets it at once. -/
  mem_children : ∀ {n p}, (d.entry n).parent? = some p →
    (d.entry n).content.isAttribute = false →
    (n ∈ (d'.entry p).children ↔ (d'.entry n).parent? = some p)
  /-- An attribute that forgets its element has left it. -/
  owner : ∀ {a p}, a ∈ (d'.entry p).attributes → (d'.entry a).parent? = some p

namespace Linked

theorem grow {c : Content} (h : d.Linked) (ht : Takes d p c) (hg : Grown d d' p c) : d'.Linked := by
  have hold {m q : NodeId} (hm : m ∈ (d.entry q).children) : m ≠ d.size :=
    Nat.ne_of_lt (h.lt_of_mem_children hm)
  have holda {m q : NodeId} (hm : m ∈ (d.entry q).attributes) : m ≠ d.size :=
    Nat.ne_of_lt (h.lt_of_mem_attributes hm)
  constructor
  case document_iff =>
    intro m
    rw [hg.content]
    by_cases hm : m = d.size
    · rw [if_pos hm, hm]
      exact iff_of_false ht.notDocument (Nat.ne_of_gt h.root_lt)
    · rw [if_neg hm, h.document_iff]
  case parent_lt =>
    intro m q hq
    rw [hg.parent?] at hq
    by_cases hm : m = d.size
    · rw [if_pos hm] at hq
      cases hq
      rw [hm]
      exact ht.lt
    · rw [if_neg hm] at hq
      exact h.parent_lt hq
  case child_iff =>
    intro m q
    rw [hg.mem_children, hg.parent?, hg.content]
    by_cases hm : m = d.size
    · rw [if_pos hm, if_pos hm]
      constructor
      · intro h
        rcases h with hc | ⟨-, rfl, hc⟩
        · exact absurd hm (hold hc)
        · exact ⟨rfl, hc⟩
      · intro h
        obtain ⟨hq, hc⟩ := h
        exact Or.inr ⟨hm, (Option.some.inj hq).symm, hc⟩
    · rw [if_neg hm, if_neg hm, ← h.child_iff, or_iff_left fun hc => hm hc.1]
  case nodup_children =>
    intro q
    exact hg.nodup_children q (h.nodup_children q) fun hm => hold hm rfl
  case owner =>
    intro m q hm
    rw [hg.content, hg.parent?]
    rcases (hg.mem_attributes m q).1 hm with hm | ⟨rfl, rfl, hc⟩
    · rw [if_neg (holda hm), if_neg (holda hm)]
      exact h.owner hm
    · rw [if_pos rfl, if_pos rfl]
      exact ⟨hc, rfl⟩
  case nodup_attributes =>
    intro q
    exact hg.nodup_attributes q (h.nodup_attributes q) fun hm => holda hm rfl
  case name_inj =>
    intro m k q hm hk
    rw [hg.content, hg.content]
    rcases (hg.mem_attributes m q).1 hm with hm | ⟨rfl, rfl, hc⟩ <;>
      rcases (hg.mem_attributes k q).1 hk with hk | ⟨rfl, hq, hc'⟩
    · rw [if_neg (holda hm), if_neg (holda hk)]
      exact h.name_inj hm hk
    · -- the new attribute has a name that no other of the node has
      rw [if_neg (holda hm), if_pos rfl]
      intro hname
      exact absurd hname (ht.notNamesake hc' m (hq ▸ hm))
    · rw [if_neg (holda hk), if_pos rfl]
      intro hname
      exact absurd hname.symm (ht.notNamesake hc k hk)
    · intro _
      rfl
  case top_text =>
    intro m hm
    rw [hg.content]
    rcases (hg.mem_children m root).1 hm with hm | ⟨rfl, hp, -⟩
    · rw [if_neg (hold hm)]
      exact h.top_text hm
    · rw [if_pos rfl]
      exact ht.notText hp.symm
  case top_element =>
    intro m k hm hk
    rw [hg.content, hg.content]
    rcases (hg.mem_children m root).1 hm with hm | ⟨rfl, hp, -⟩ <;>
      rcases (hg.mem_children k root).1 hk with hk | ⟨rfl, hp', -⟩
    · rw [if_neg (hold hm), if_neg (hold hk)]
      exact h.top_element hm hk
    · -- a new document element comes only where there was none
      rw [if_neg (hold hm), if_pos rfl]
      intro hem hek
      rw [ht.notSecond hp'.symm hek m hm] at hem
      cases hem
    · rw [if_neg (hold hk), if_pos rfl]
      intro hem hek
      rw [ht.notSecond hp.symm hem k hk] at hek
      cases hek
    · intro _ _
      rfl

/-! ## Shrinking -/

theorem shrink (h : d.Linked) (hs : Shrunk d d') : d'.Linked := by
  have hchild {m q : NodeId} (hm : m ∈ (d'.entry q).children) : m ∈ (d.entry q).children :=
    (hs.children q).subset hm
  have hattr {m q : NodeId} (hm : m ∈ (d'.entry q).attributes) : m ∈ (d.entry q).attributes :=
    (hs.attributes q).subset hm
  constructor
  case document_iff =>
    intro m
    rw [(hs.alike m).document_iff, h.document_iff]
  case parent_lt =>
    intro m q hq
    exact h.parent_lt (hs.parent? hq)
  case child_iff =>
    intro m q
    rw [(hs.alike m).isAttribute_eq]
    constructor
    · intro hm
      obtain ⟨hq, hna⟩ := h.child_iff.1 (hchild hm)
      exact ⟨(hs.mem_children hq hna).1 hm, hna⟩
    · intro h
      obtain ⟨hq, hna⟩ := h
      exact (hs.mem_children (hs.parent? hq) hna).2 hq
  case nodup_children =>
    intro q
    exact (h.nodup_children q).sublist (hs.children q)
  case owner =>
    intro a q ha
    rw [(hs.alike a).isAttribute_eq]
    exact ⟨(h.owner (hattr ha)).1, hs.owner ha⟩
  case nodup_attributes =>
    intro q
    exact (h.nodup_attributes q).sublist (hs.attributes q)
  case name_inj =>
    intro a b q ha hb
    rw [(hs.alike a).name?_eq, (hs.alike b).name?_eq]
    exact h.name_inj (hattr ha) (hattr hb)
  case top_text =>
    intro m hm
    rw [(hs.alike m).isText_eq]
    exact h.top_text (hchild hm)
  case top_element =>
    intro m k hm hk
    rw [(hs.alike m).isElement_eq, (hs.alike k).isElement_eq]
    exact h.top_element (hchild hm) (hchild hk)

end Linked

/-! ## Changes that grow -/

/-- A list with a new element somewhere in it, if `b`. -/
def Added (b : Bool) (new : NodeId) (old l : List NodeId) : Prop :=
  l.Perm (old ++ if b then [new] else [])

section

variable {b : Bool} {new : NodeId} {old l : List NodeId}

theorem Added.none : Added false new old old := by
  rw [Added, if_neg Bool.false_ne_true, List.append_nil]

theorem Added.last : Added true new old (old ++ [new]) := List.Perm.refl _

theorem Added.mem_iff (h : Added b new old l) : n ∈ l ↔ n ∈ old ∨ (n = new ∧ b = true) := by
  rw [List.Perm.mem_iff h]
  cases b <;> simp

theorem Added.nodup (h : Added b new old l) (hold : old.Nodup) (hnew : new ∉ old) : l.Nodup := by
  rw [List.Perm.nodup_iff h, List.nodup_append]
  refine ⟨hold, by cases b <;> simp, ?_⟩
  intro x hx y hy hxy
  subst hxy
  cases b with
  | false => cases hy
  | true => exact hnew (List.mem_singleton.1 hy ▸ hx)

end

/-- A new node may stand anywhere among the children or the attributes of its parent. -/
theorem grown_of_entry {c : Content} (children attributes : List NodeId) (hp : p < d.size)
    (hc : Added (!c.isAttribute) d.size (d.entry p).children children)
    (ha : Added c.isAttribute d.size (d.entry p).attributes attributes)
    (he : ∀ m, d'.entry m = if m = d.size then { content := c, parent? := some p }
      else if m = p then { d.entry m with children, attributes } else d.entry m) :
    Grown d d' p c := by
  have hps : p ≠ d.size := Nat.ne_of_lt hp
  have hp' : d'.entry p = { d.entry p with children, attributes } := by
    rw [he, if_neg hps, if_pos rfl]
  -- the lists of all other nodes are the old ones, those of the new node empty as before
  have hother {q : NodeId} (hq : q ≠ p) : (d'.entry q).children = (d.entry q).children ∧
      (d'.entry q).attributes = (d.entry q).attributes := by
    rw [he, if_neg hq]
    by_cases hqs : q = d.size
    · rw [if_pos hqs, hqs, entry_of_size_le (Nat.le_refl _)]
      exact ⟨rfl, rfl⟩
    · rw [if_neg hqs]
      exact ⟨rfl, rfl⟩
  constructor
  case content =>
    intro n
    rw [he]
    split
    · rfl
    · split <;> rfl
  case parent? =>
    intro n
    rw [he]
    split
    · rfl
    · split <;> rfl
  case mem_children =>
    intro n q
    by_cases hq : q = p
    · subst hq
      rw [hp']
      simpa using hc.mem_iff
    · rw [(hother hq).1]
      simp [hq]
  case nodup_children =>
    intro q hold hnew
    by_cases hq : q = p
    · subst hq
      rw [hp']
      exact hc.nodup hold hnew
    · rw [(hother hq).1]
      exact hold
  case mem_attributes =>
    intro n q
    by_cases hq : q = p
    · subst hq
      rw [hp']
      simpa using ha.mem_iff
    · rw [(hother hq).2]
      simp [hq]
  case nodup_attributes =>
    intro q hold hnew
    by_cases hq : q = p
    · subst hq
      rw [hp']
      exact ha.nodup hold hnew
    · rw [(hother hq).2]
      exact hold

theorem grown_appendChild {c : Content} (hp : p < d.size) (hc : c.isAttribute = false) :
    Grown d (d.appendChild p c) p c := by
  refine grown_of_entry ((d.entry p).children ++ [d.size]) (d.entry p).attributes hp ?_ ?_
    fun m => ?_
  · rw [hc]
    exact Added.last
  · rw [hc]
    exact Added.none
  · rw [entry_appendChild hp]
    by_cases hm : m = p
    · subst hm
      rfl
    · rw [if_neg hm, if_neg hm]

theorem grown_appendAttribute {a : Attribute} (hp : p < d.size) :
    Grown d (d.appendAttribute p a) p (.attribute a) := by
  refine grown_of_entry (d.entry p).children ((d.entry p).attributes ++ [d.size]) hp ?_ ?_
    fun m => ?_
  · exact Added.none
  · exact Added.last
  · rw [entry_appendAttribute hp]
    by_cases hm : m = p
    · subst hm
      rfl
    · rw [if_neg hm, if_neg hm]

theorem perm_insertBefore (q : NodeId → Bool) (n : NodeId) (l : List NodeId) :
    (insertBefore q n l).Perm (l ++ [n]) := by
  induction l with
  | nil => exact List.Perm.refl _
  | cons x rest ih =>
    rw [insertBefore]
    split
    · exact (List.perm_append_singleton n (x :: rest)).symm
    · exact ih.cons x

/-! ## Changes that shrink -/

/-- A node lets some of its children and attributes go. All these children and some of these
attributes, which make up `gone`, have no parent any more. -/
theorem shrunk_of_entry (h : d.Linked) (p : NodeId) (keep keepAttribute : NodeId → Bool)
    (gone : List NodeId)
    (hgone : ∀ n ∈ gone, (n ∈ (d.entry p).children ∧ keep n = false) ∨
      (n ∈ (d.entry p).attributes ∧ keepAttribute n = false))
    (hkeep : ∀ n ∈ (d.entry p).children, keep n = false → n ∈ gone)
    (he : ∀ m, d'.entry m = { d.entry m with
      children := if m = p then (d.entry m).children.filter keep else (d.entry m).children
      attributes :=
        if m = p then (d.entry m).attributes.filter keepAttribute else (d.entry m).attributes
      parent? := if m ∈ gone then none else (d.entry m).parent? }) : Shrunk d d' := by
  have hparent {n q : NodeId} : (d'.entry n).parent? = some q ↔
      (d.entry n).parent? = some q ∧ n ∉ gone := by
    rw [he]
    show (if _ then none else _) = _ ↔ _
    split
    next hn => exact iff_of_false nofun fun hq => hq.2 hn
    next hn => exact (and_iff_left hn).symm
  have hgone_parent {n : NodeId} (hn : n ∈ gone) : (d.entry n).parent? = some p := by
    rcases hgone n hn with ⟨hc, -⟩ | ⟨ha, -⟩
    · exact (h.child_iff.1 hc).1
    · exact (h.owner ha).2
  constructor
  case alike =>
    intro n
    rw [he]
    exact Content.Alike.refl _
  case parent? =>
    intro n q hq
    exact (hparent.1 hq).1
  case children =>
    intro q
    rw [he]
    show List.Sublist (if q = p then _ else _) _
    split
    · exact List.filter_sublist
    · exact List.Sublist.refl _
  case attributes =>
    intro q
    rw [he]
    show List.Sublist (if q = p then _ else _) _
    split
    · exact List.filter_sublist
    · exact List.Sublist.refl _
  case mem_children =>
    intro n q hq hna
    have hn : n ∈ (d.entry q).children := h.child_iff.2 ⟨hq, hna⟩
    rw [hparent, and_iff_right hq, he]
    show n ∈ (if q = p then _ else _) ↔ _
    by_cases hqp : q = p
    · -- what `p` keeps is what is not gone, as attributes are no children
      subst hqp
      rw [if_pos rfl, List.mem_filter, and_iff_right hn]
      constructor
      · intro hk hg
        rcases hgone n hg with ⟨-, hk'⟩ | ⟨ha, -⟩
        · rw [hk] at hk'
          cases hk'
        · rw [(h.owner ha).1] at hna
          cases hna
      · intro hg
        cases hk : keep n with
        | true => rfl
        | false => exact absurd (hkeep n hn hk) hg
    · rw [if_neg hqp]
      exact iff_of_true hn fun hg => hqp (Option.some.inj (hq.symm.trans (hgone_parent hg)))
  case owner =>
    intro a q ha
    have hold : a ∈ (d.entry q).attributes ∧ (q = p → keepAttribute a = true) := by
      rw [he] at ha
      change a ∈ (if q = p then _ else _) at ha
      split at ha
      next => exact ⟨(List.mem_filter.1 ha).1, fun _ => (List.mem_filter.1 ha).2⟩
      next hqp => exact ⟨ha, fun h => absurd h hqp⟩
    obtain ⟨hattr, hq⟩ := h.owner hold.1
    -- an attribute that were gone would be one that `p` has not kept
    refine hparent.2 ⟨hq, fun hg => ?_⟩
    rcases hgone a hg with ⟨hc, -⟩ | ⟨ha', hk⟩
    · rw [(h.child_iff.1 hc).2] at hattr
      cases hattr
    · rw [hold.2 (Option.some.inj (hq.symm.trans (h.owner ha').2))] at hk
      cases hk

theorem Shrunk.refl (h : d.Linked) : Shrunk d d where
  alike _ := .refl _
  parent? := id
  children _ := List.Sublist.refl _
  attributes _ := List.Sublist.refl _
  mem_children hp ha := iff_of_true (h.child_iff.2 ⟨hp, ha⟩) hp
  owner ha := (h.owner ha).2

theorem shrunk_detach (h : d.Linked) (hn : n ∈ (d.entry p).children) : Shrunk d (d.detach p n) := by
  refine shrunk_of_entry h p (· ≠ n) (fun _ => true) [n] ?_ ?_ fun m => ?_
  · intro m hm
    rw [List.mem_singleton.1 hm]
    exact Or.inl ⟨hn, by simp⟩
  · intro m _ hm
    simpa using hm
  · rw [entry_detach]
    simp

theorem shrunk_clearChildren (h : d.Linked) : Shrunk d (d.clearChildren n) := by
  refine shrunk_of_entry h n (fun _ => false) (fun _ => true) (d.entry n).children ?_ ?_
    fun m => ?_
  · intro m hm
    exact Or.inl ⟨hm, rfl⟩
  · intro m hm _
    exact hm
  · rw [entry_clearChildren]
    simp

theorem shrunk_keepAttributes (h : d.Linked) (keep : NodeId → Bool) :
    Shrunk d (d.modify p fun e => { e with attributes := (d.entry p).attributes.filter keep }) := by
  refine shrunk_of_entry h p (fun _ => true) keep [] ?_ ?_ fun m => ?_
  · intro m hm
    cases hm
  · intro m _ hm
    cases hm
  · rw [entry_keepAttributes]
    simp

theorem shrunk_dropAttribute (h : d.Linked) (name : ExpandedName) :
    Shrunk d (d.dropAttribute p name) := by
  refine shrunk_of_entry h p (fun _ => true) (!d.isAttributeNamed name ·)
    ((d.entry p).attributes.filter (d.isAttributeNamed name)) ?_ ?_ fun m => ?_
  · intro m hm
    rw [List.mem_filter] at hm
    exact Or.inr ⟨hm.1, by rw [hm.2]; rfl⟩
  · intro m _ hm
    cases hm
  · rw [entry_dropAttribute]
    simp

theorem shrunk_rewrite (h : d.Linked) {s text : String} {isCData : Bool}
    (hn : (d.entry n).content = .text s isCData) :
    Shrunk d (d.modify n fun e => { e with content := .text text isCData }) := by
  have hn' : n < d.size := lt_size_of_content fun s' hs => by rw [hn] at hs; cases hs
  have he (m : NodeId) : (d.modify n fun e => { e with content := .text text isCData }).entry m =
      { d.entry m with content := if m = n then .text text isCData else (d.entry m).content } := by
    rw [entry_modify]
    by_cases hm : m = n
    · rw [if_pos ⟨hm, hn'⟩, if_pos hm, hm]
    · rw [if_neg fun h => hm h.1, if_neg hm]
  constructor
  case alike =>
    intro m
    rw [he]
    show Content.Alike _ (if m = n then _ else _)
    split
    next hm =>
      rw [hm, hn]
      exact Content.Alike.text _ _ _ _
    next => exact Content.Alike.refl _
  case parent? =>
    intro m q hq
    rwa [he] at hq
  case children =>
    intro q
    rw [he]
  case attributes =>
    intro q
    rw [he]
  case mem_children =>
    intro m q hq hna
    rw [he, he]
    exact iff_of_true (h.child_iff.2 ⟨hq, hna⟩) hq
  case owner =>
    intro a q ha
    rw [he] at ha ⊢
    exact (h.owner ha).2

end Document

end XmlScript
