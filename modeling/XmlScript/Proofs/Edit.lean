import XmlScript.Proofs.Linked

/-!
# What edits do

One lemma for each edit says everything that it can have done when it is not refused: which node it
was asked of, what that node is, and which change of the document it made (`addElement_cases` and
its companions). From these, every edit keeps a document linked, whatever node it is asked of
(`keptByEdits_linked`).
-/

namespace XmlScript.Document

variable {d d' : Document} {n : Node}

/-- A document or an element, which comments and instructions can be put in. -/
def IsContainer (d : Document) (p : NodeId) : Prop :=
  (d.entry p).content = .document ∨ ∃ label, (d.entry p).content = .element label

theorem IsContainer.lt_size {p : NodeId} (h : d.IsContainer p) : p < d.size := by
  rcases h with hp | ⟨label, hp⟩
  · exact lt_size_of_content fun s hs => by rw [hp] at hs; cases hs
  · exact lt_size_of_element hp

/-! ## What a granted edit has done -/

theorem withName_eq_ok_iff {α : Type} {name : String} {edit : Except EditError α} {r : α} :
    withName name edit = .ok r ↔ Name.isValid name = true ∧ edit = .ok r := by
  unfold withName
  split
  next h => exact (and_iff_right h).symm
  next h => exact iff_of_false nofun fun hr => h hr.1

theorem refuse_ne_ok {α : Type} {operation : Operation} {r : α} :
    d.refuse operation n ≠ .ok r := nofun

theorem addElement_cases {name : String} {made : Node}
    (h : addElement name n d = .ok (made, d')) :
    ∃ p, n = .stored p ∧ made = .stored d.size ∧
      d' = d.appendChild p (.element (.plain name)) ∧
      (((d.entry p).content = .document ∧ d.documentElement? = none) ∨
        ∃ label, (d.entry p).content = .element label) := by
  replace h := (withName_eq_ok_iff.1 h).2
  simp only at h
  split at h
  next p hp =>
    split at h
    next => cases h
    next hnone =>
      cases h
      exact ⟨p, rfl, rfl, rfl, Or.inl ⟨Option.some.inj hp, hnone⟩⟩
  next p label hp =>
    cases h
    exact ⟨p, rfl, rfl, rfl, Or.inr ⟨label, Option.some.inj hp⟩⟩
  next => exact absurd h refuse_ne_ok

theorem remove_cases (h : remove n d = .ok d') :
    ∃ id p, n = .stored id ∧ (d.entry id).parent? = some p ∧
      ((∃ a, (d.entry id).content = .attribute a ∧ d' = d.dropAttribute p a.name) ∨
        ((d.entry id).content.isAttribute = false ∧ d' = d.detach p id)) := by
  unfold remove at h
  split at h
  next => cases h
  next id =>
    split at h
    next => cases h
    next p a hp ha =>
      cases h
      exact ⟨id, p, rfl, hp, Or.inl ⟨a, ha, rfl⟩⟩
    next p hp hna =>
      cases h
      refine ⟨id, p, rfl, hp, Or.inr ⟨Bool.eq_false_iff.2 fun ha => ?_, rfl⟩⟩
      obtain ⟨a, ha⟩ := Content.isAttribute_iff.1 ha
      exact hna a ha

theorem setText_cases {text : String} (h : setText text n d = .ok d') :
    ∃ id, n = .stored id ∧
      ((∃ label, (d.entry id).content = .element label ∧
          d' = (d.clearChildren id).appendChild id (.text text false)) ∨
        (∃ s isCData, (d.entry id).content = .text s isCData ∧
          d' = d.modify id fun e => { e with content := .text text isCData }) ∨
        ∃ a owner, (d.entry id).content = .attribute a ∧ (d.entry id).parent? = some owner ∧
          d' = d.putAttribute owner { name := a.name, value := text }) := by
  unfold setText at h
  split at h
  next id label hc =>
    cases h
    exact ⟨id, rfl, Or.inl ⟨label, Option.some.inj hc, rfl⟩⟩
  next id s isCData hc =>
    cases h
    exact ⟨id, rfl, Or.inr (Or.inl ⟨s, isCData, Option.some.inj hc, rfl⟩)⟩
  next id a hc =>
    split at h
    next owner ho =>
      cases h
      exact ⟨id, rfl, Or.inr (Or.inr ⟨a, owner, Option.some.inj hc, ho, rfl⟩)⟩
    next => cases h
  next => exact absurd h refuse_ne_ok

theorem setAttribute_cases {name value : String} (h : setAttribute name value n d = .ok d') :
    ∃ id label, n = .stored id ∧ (d.entry id).content = .element label ∧
      d' = d.putAttribute id { name := .plain name, value } := by
  replace h := (withName_eq_ok_iff.1 h).2
  split at h
  next id label hc =>
    cases h
    exact ⟨id, label, rfl, Option.some.inj hc, rfl⟩
  next => exact absurd h refuse_ne_ok

theorem addComment_cases {text : String} (h : addComment text n d = .ok d') :
    ∃ p, n = .stored p ∧ d.IsContainer p ∧ d' = d.appendChild p (.comment text) := by
  unfold addComment at h
  split at h
  next p hc =>
    cases h
    exact ⟨p, rfl, Or.inl (Option.some.inj hc), rfl⟩
  next p label hc =>
    cases h
    exact ⟨p, rfl, Or.inr ⟨label, Option.some.inj hc⟩, rfl⟩
  next => exact absurd h refuse_ne_ok

theorem addCData_cases {text : String} (h : addCData text n d = .ok d') :
    ∃ p label, n = .stored p ∧ (d.entry p).content = .element label ∧
      d' = d.appendChild p (.text text true) := by
  unfold addCData at h
  split at h
  next p label hc =>
    cases h
    exact ⟨p, label, rfl, Option.some.inj hc, rfl⟩
  next => exact absurd h refuse_ne_ok

theorem addInstruction_cases {target data : String} (h : addInstruction target data n d = .ok d') :
    ∃ p, n = .stored p ∧ d.IsContainer p ∧
      d' = d.appendChild p (instructionContent target data) := by
  replace h := (withName_eq_ok_iff.1 h).2
  split at h
  next p hc =>
    cases h
    exact ⟨p, rfl, Or.inl (Option.some.inj hc), rfl⟩
  next p label hc =>
    cases h
    exact ⟨p, rfl, Or.inr ⟨label, Option.some.inj hc⟩, rfl⟩
  next => exact absurd h refuse_ne_ok

theorem insertInstruction_cases {target data : String}
    (h : insertInstruction target data d = .ok d') :
    d' = (d.create { content := instructionContent target data, parent? := some root }).modify root
      fun e => { e with children := insertBefore d.isElement d.size e.children } := by
  replace h := (withName_eq_ok_iff.1 h).2
  exact (Except.ok.inj h).symm

/-! ## Edits keep a document linked -/

namespace Linked

variable {p : NodeId} {c : Content}

/-- An element is not the document node, so it takes everything that may be below a node. -/
theorem takes_of_element (h : d.Linked) {label : Label}
    (hp : (d.entry p).content = .element label) (hd : c ≠ .document)
    (ha : c.isAttribute = false) : Takes d p c where
  lt := lt_size_of_element hp
  notDocument := hd
  notText hr := by
    rw [hr, (h.document_iff root).2 rfl] at hp
    cases hp
  notSecond hr := by
    rw [hr, (h.document_iff root).2 rfl] at hp
    cases hp
  notNamesake hc := by
    rw [ha] at hc
    cases hc

/-- What is no element, text or attribute may be below every container. -/
theorem takes_of_container (hp : d.IsContainer p) (hd : c ≠ .document)
    (he : c.isElement = false) (ht : c.isText = false) (ha : c.isAttribute = false) :
    Takes d p c where
  lt := hp.lt_size
  notDocument := hd
  notText _ := ht
  notSecond _ hc := by
    rw [he] at hc
    cases hc
  notNamesake hc := by
    rw [ha] at hc
    cases hc

theorem appendChild (h : d.Linked) (ht : Takes d p c) (ha : c.isAttribute = false) :
    (d.appendChild p c).Linked :=
  h.grow ht (grown_appendChild ht.lt ha)

/-- The attribute that has the name leaves the list first, so the new one has no namesake. -/
theorem putAttribute (h : d.Linked) (hp : p < d.size) (a : Attribute) :
    (d.putAttribute p a).Linked := by
  unfold Document.putAttribute
  have hkept := h.shrink (shrunk_keepAttributes h (p := p) (!d.isAttributeNamed a.name ·))
  refine hkept.grow ?_ (grown_appendAttribute (by rwa [size_modify]))
  constructor
  case lt => rwa [size_modify]
  case notDocument => nofun
  case notText => intro _; rfl
  case notSecond => nofun
  case notNamesake =>
    intro _ m hm hname
    rw [entry_keepAttributes, if_pos rfl, List.mem_filter] at hm
    rw [entry_keepAttributes] at hname
    -- what is left of the attributes has other names
    obtain ⟨b, hb⟩ := Content.isAttribute_iff.1 (h.owner hm.1).1
    rw [hb] at hname
    rw [isAttributeNamed, hb] at hm
    have hne : b.name ≠ a.name := by simpa using hm.2
    exact hne (Option.some.inj hname)

theorem addElement (h : d.Linked) {name : String} {made : Node}
    (he : Document.addElement name n d = .ok (made, d')) : d'.Linked := by
  obtain ⟨p, -, -, rfl, hp⟩ := addElement_cases he
  rcases hp with ⟨hp, hnone⟩ | ⟨label, hp⟩
  · refine h.appendChild ⟨?_, nofun, fun _ => rfl, ?_, nofun⟩ rfl
    · exact (h.document_iff p).1 hp ▸ h.root_lt
    · intro _ _ m hm
      rw [← isElement_eq]
      simpa using List.find?_eq_none.1 hnone m hm
  · exact h.appendChild (h.takes_of_element hp nofun rfl) rfl

theorem remove (h : d.Linked) (he : Document.remove n d = .ok d') : d'.Linked := by
  obtain ⟨id, p, -, hp, ⟨a, -, rfl⟩ | ⟨hna, rfl⟩⟩ := remove_cases he
  · exact h.shrink (shrunk_dropAttribute h a.name)
  · exact h.shrink (shrunk_detach h (h.child_iff.2 ⟨hp, hna⟩))

theorem setText (h : d.Linked) {text : String} (he : Document.setText text n d = .ok d') :
    d'.Linked := by
  obtain ⟨id, -, ⟨label, hc, rfl⟩ | ⟨s, isCData, hc, rfl⟩ | ⟨a, owner, -, ho, rfl⟩⟩ :=
    setText_cases he
  · have hcleared := h.shrink (shrunk_clearChildren h (n := id))
    have hc' : ((d.clearChildren id).entry id).content = .element label := by
      rw [entry_clearChildren]
      exact hc
    exact hcleared.appendChild (hcleared.takes_of_element hc' nofun rfl) rfl
  · exact h.shrink (shrunk_rewrite h hc)
  · exact h.putAttribute (h.parent_lt_size ho) _

theorem setAttribute (h : d.Linked) {name value : String}
    (he : Document.setAttribute name value n d = .ok d') : d'.Linked := by
  obtain ⟨id, label, -, hc, rfl⟩ := setAttribute_cases he
  refine h.putAttribute (lt_size_of_content fun s hs => ?_) _
  rw [hc] at hs
  cases hs

theorem addComment (h : d.Linked) {text : String} (he : Document.addComment text n d = .ok d') :
    d'.Linked := by
  obtain ⟨p, -, hp, rfl⟩ := addComment_cases he
  exact h.appendChild (takes_of_container hp nofun rfl rfl rfl) rfl

theorem addCData (h : d.Linked) {text : String} (he : Document.addCData text n d = .ok d') :
    d'.Linked := by
  obtain ⟨p, label, -, hp, rfl⟩ := addCData_cases he
  exact h.appendChild (h.takes_of_element hp nofun rfl) rfl

theorem addInstruction (h : d.Linked) {target data : String}
    (he : Document.addInstruction target data n d = .ok d') : d'.Linked := by
  obtain ⟨p, -, hp, rfl⟩ := addInstruction_cases he
  exact h.appendChild (takes_of_container hp nofun rfl rfl rfl) rfl

/-- The new instruction has a place of its own among the children of the document node. -/
theorem grown_insertInstruction (h : d.Linked) {target data : String}
    (he : Document.insertInstruction target data d = .ok d') :
    Grown d d' root (instructionContent target data) := by
  rw [insertInstruction_cases he]
  refine grown_of_entry (insertBefore d.isElement d.size (d.entry root).children)
    (d.entry root).attributes h.root_lt (perm_insertBefore _ _ _) Added.none fun m => ?_
  rw [entry_create_modify h.root_lt]
  by_cases hm : m = root
  · subst hm
    rfl
  · rw [if_neg hm, if_neg hm]

theorem insertInstruction (h : d.Linked) {target data : String}
    (he : Document.insertInstruction target data d = .ok d') : d'.Linked := by
  have hroot : d.IsContainer root := Or.inl ((h.document_iff root).2 rfl)
  have ht : Takes d root (instructionContent target data) :=
    takes_of_container hroot nofun rfl rfl rfl
  exact h.grow ht (h.grown_insertInstruction he)

end Linked

/-! ## What no edit breaks -/

/-- A property that a document keeps in every edit. -/
structure KeptByEdits (P : Document → Prop) : Prop where
  addElement : ∀ {name n made d d'}, addElement name n d = .ok (made, d') → P d → P d'
  remove : ∀ {n d d'}, remove n d = .ok d' → P d → P d'
  setText : ∀ {text n d d'}, setText text n d = .ok d' → P d → P d'
  setAttribute : ∀ {name value n d d'}, setAttribute name value n d = .ok d' → P d → P d'
  addComment : ∀ {text n d d'}, addComment text n d = .ok d' → P d → P d'
  addCData : ∀ {text n d d'}, addCData text n d = .ok d' → P d → P d'
  addInstruction : ∀ {target data n d d'}, addInstruction target data n d = .ok d' → P d → P d'
  insertInstruction : ∀ {target data d d'}, insertInstruction target data d = .ok d' → P d → P d'

theorem keptByEdits_linked : KeptByEdits Linked where
  addElement he h := h.addElement he
  remove he h := h.remove he
  setText he h := h.setText he
  setAttribute he h := h.setAttribute he
  addComment he h := h.addComment he
  addCData he h := h.addCData he
  addInstruction he h := h.addInstruction he
  insertInstruction he h := h.insertInstruction he

end XmlScript.Document
