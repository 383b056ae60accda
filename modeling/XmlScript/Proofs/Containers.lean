import XmlScript.Proofs.Contents
import XmlScript.Proofs.WellFormed

/-!
# What nodes are below

Only the document node and elements have other nodes below them, attributes included
(`Document.Housed`). Nothing that is done to a document makes a container anything else, and every
new node goes below one (`Document.Rehoused`), whether the document grows, shrinks or is made of
trees; so all documents that there can be are housed (`Reachable.housed`).
-/

namespace XmlScript.Document

variable {d d' d'' : Document} {n p : NodeId} {c : Content}

/-- Every parent is the document node or an element. -/
structure Housed (d : Document) : Prop where
  root : d.IsContainer root
  parent : ∀ {n p}, (d.entry n).parent? = some p → d.IsContainer p

/-- Containers stay containers, and a parent that is new to its node is one. -/
structure Rehoused (d d' : Document) : Prop where
  container : ∀ {p}, d.IsContainer p → d'.IsContainer p
  parent : ∀ {n p}, (d'.entry n).parent? = some p →
    (d.entry n).parent? = some p ∨ d'.IsContainer p

theorem Housed.rehoused (h : d.Housed) (h' : Rehoused d d') : d'.Housed where
  root := h'.container h.root
  parent hp := (h'.parent hp).elim (fun hold => h'.container (h.parent hold)) id

namespace Rehoused

theorem refl (d : Document) : Rehoused d d := ⟨id, Or.inl⟩

theorem trans (h : Rehoused d d') (h' : Rehoused d' d'') : Rehoused d d'' where
  container hp := h'.container (h.container hp)
  parent hp := (h'.parent hp).elim (fun hmid => (h.parent hmid).imp_right h'.container) Or.inr

theorem of_grown (hp : d.IsContainer p) (hg : Grown d d' p c) : Rehoused d d' := by
  have hkept {q : NodeId} (hq : d.IsContainer q) : d'.IsContainer q := by
    rwa [IsContainer, hg.content, if_neg (Nat.ne_of_lt hq.lt_size)]
  refine ⟨hkept, fun {n q} hq => ?_⟩
  rw [hg.parent?] at hq
  split at hq
  next => exact Or.inr (Option.some.inj hq ▸ hkept hp)
  next => exact Or.inl hq

theorem of_shrunk (hs : Shrunk d d') : Rehoused d d' where
  container {p} hp := by
    have halike := hs.alike p
    rcases hp with hp | ⟨label, hp⟩
    · rw [hp] at halike
      exact Or.inl (halike.document_iff.2 rfl)
    · rw [hp] at halike
      exact Or.inr (isElement_iff.1 (by rw [isElement_eq, halike.isElement_eq]; rfl))
  parent hp := Or.inl (hs.parent? hp)

theorem appendChild (hp : d.IsContainer p) (hc : c.isAttribute = false) :
    Rehoused d (d.appendChild p c) :=
  of_grown hp (grown_appendChild hp.lt_size hc)

theorem appendAttribute (hp : d.IsContainer p) (a : Attribute) :
    Rehoused d (d.appendAttribute p a) :=
  of_grown hp (grown_appendAttribute hp.lt_size)

theorem putAttribute (h : d.Linked) (hp : d.IsContainer p) (a : Attribute) :
    Rehoused d (d.putAttribute p a) := by
  have hkept := of_shrunk (shrunk_keepAttributes h (p := p) (!d.isAttributeNamed a.name ·))
  exact hkept.trans (appendAttribute (hkept.container hp) a)

end Rehoused

/-! ## Edits -/

theorem keptByEdits_housed : KeptByEdits fun d => d.Linked ∧ d.Housed where
  addElement he h := by
    refine ⟨h.1.addElement he, h.2.rehoused ?_⟩
    obtain ⟨p, -, -, rfl, hp⟩ := addElement_cases he
    exact .appendChild (hp.imp_left And.left) rfl
  remove he h := by
    refine ⟨h.1.remove he, h.2.rehoused (.of_shrunk ?_)⟩
    obtain ⟨id, p, -, hp, ⟨a, -, rfl⟩ | ⟨hna, rfl⟩⟩ := remove_cases he
    · exact shrunk_dropAttribute h.1 a.name
    · exact shrunk_detach h.1 (h.1.child_iff.2 ⟨hp, hna⟩)
  setText he h := by
    refine ⟨h.1.setText he, h.2.rehoused ?_⟩
    obtain ⟨id, -, ⟨label, hc, rfl⟩ | ⟨s, isCData, hc, rfl⟩ | ⟨a, owner, -, ho, rfl⟩⟩ :=
      setText_cases he
    · have hcleared := Rehoused.of_shrunk (shrunk_clearChildren h.1 (n := id))
      exact hcleared.trans (.appendChild (hcleared.container (Or.inr ⟨label, hc⟩)) rfl)
    · exact .of_shrunk (shrunk_rewrite h.1 hc)
    · exact .putAttribute h.1 (h.2.parent ho) _
  setAttribute he h := by
    refine ⟨h.1.setAttribute he, h.2.rehoused ?_⟩
    obtain ⟨id, label, -, hc, rfl⟩ := setAttribute_cases he
    exact .putAttribute h.1 (Or.inr ⟨label, hc⟩) _
  addComment he h := by
    refine ⟨h.1.addComment he, h.2.rehoused ?_⟩
    obtain ⟨p, -, hp, rfl⟩ := addComment_cases he
    exact .appendChild hp rfl
  addCData he h := by
    refine ⟨h.1.addCData he, h.2.rehoused ?_⟩
    obtain ⟨p, label, -, hp, rfl⟩ := addCData_cases he
    exact .appendChild (Or.inr ⟨label, hp⟩) rfl
  addInstruction he h := by
    refine ⟨h.1.addInstruction he, h.2.rehoused ?_⟩
    obtain ⟨p, -, hp, rfl⟩ := addInstruction_cases he
    exact .appendChild hp rfl
  insertInstruction he h :=
    ⟨h.1.insertInstruction he, h.2.rehoused (.of_grown h.2.root (h.1.grown_insertInstruction he))⟩

/-! ## Documents that are read -/

theorem Housed.ofEmpty : empty.Housed where
  root := Or.inl rfl
  parent {n p} hp := by
    rw [Linked.entry_empty] at hp
    split at hp
    next => cases hp
    next => cases hp

namespace Rehoused

theorem appendAttributes {attributes : List Attribute} (hp : d.IsContainer p) :
    Rehoused d (attributes.foldl (·.appendAttribute p) d) := by
  induction attributes generalizing d with
  | nil => exact refl d
  | cons a rest ih =>
    have hone := appendAttribute hp a
    exact hone.trans (ih (hone.container hp))

/-- What is below the top of a tree goes below an element that was made for it. -/
theorem addTree {t : Tree} (ht : t.WellNamed) (hp : d.IsContainer p) :
    Rehoused d (d.addTree p t) := by
  induction ht generalizing d p with
  | @element label attributes children _ _ ih =>
    have hmade : Rehoused d (d.appendChild p (.element label)) := appendChild hp rfl
    have hlabel : (d.appendChild p (.element label)).IsContainer d.size :=
      Or.inr ⟨label, by rw [entry_appendChild hp.lt_size, if_pos rfl]⟩
    rw [Document.addTree]
    exact hmade.trans (addTrees_keeps (appendAttributes hlabel)
      fun t ht {x} hx => hx.trans (ih t ht (hx.container hlabel)))
  | text _ _ | comment _ | instruction _ _ => exact appendChild hp rfl

end Rehoused

theorem housed_read? {text : String} (h : Markup.read? text = some d) : d.Housed := by
  obtain ⟨trees, htrees, rfl⟩ := Option.map_eq_some_iff.1 h
  obtain ⟨ht, -⟩ := Markup.readTrees?_cases htrees
  refine Housed.ofEmpty.rehoused (addTrees_keeps (Rehoused.refl _) fun t hmem {x} hx => ?_)
  exact hx.trans (.addTree (ht t hmem).1 (hx.container Housed.ofEmpty.root))

theorem Reachable.housed (h : d.Reachable) : d.Housed :=
  (keptByEdits_housed.of_reachable ⟨Linked.ofEmpty, Housed.ofEmpty⟩
    (fun h => ⟨linked_read? h, housed_read? h⟩) h).2

end XmlScript.Document
