import XmlScript.Proofs.Execution

/-!
# Edits stay where they are asked for

An edit shows at the node that it is asked of and at no other node that was there before, except
that a node is taken out of its parent, and that the text of an attribute is replaced in its element
(`keptAt_of_editAt`). The parents that are met in the course of a directive are those that the
current nodes had when it began, or have lost since (`above_of_editAt`), so this holds of a whole
directive (`execute_local`): it leaves every node alone that is neither current nor such a parent,
whether it succeeds or fails. An instruction without a current node goes below the document node.
-/

namespace XmlScript

namespace Document

variable {d d' : Document} {n m p : NodeId}

/-- A node that keeps what is its own. Its parent is not, and may let it go. -/
structure KeptAt (d d' : Document) (n : NodeId) : Prop where
  content : (d'.entry n).content = (d.entry n).content
  children : (d'.entry n).children = (d.entry n).children
  attributes : (d'.entry n).attributes = (d.entry n).attributes

theorem keptAt_of_entry_eq (h : d'.entry n = d.entry n) : KeptAt d d' n := by
  constructor <;> rw [h]

theorem KeptAt.trans {d'' : Document} (h : KeptAt d d' n) (h' : KeptAt d' d'' n) :
    KeptAt d d'' n where
  content := h'.content.trans h.content
  children := h'.children.trans h.children
  attributes := h'.attributes.trans h.attributes

/-! ## Single changes -/

/-- A node that is made, and a change of another, as the nodes before show it. -/
theorem entry_create_modify_of_lt (hn : n < d.size) (e : Entry) (f : Entry → Entry) :
    ((d.create e).modify p f).entry n = if n = p then f (d.entry n) else d.entry n := by
  have hlt : n < (d.create e).size := by
    rw [size_create]
    exact Nat.lt_succ_of_lt hn
  rw [entry_modify, entry_create, entry_create, if_neg (Nat.ne_of_lt hn)]
  by_cases hp : n = p
  · subst hp
    rw [if_pos ⟨rfl, hlt⟩, if_neg (Nat.ne_of_lt hn), if_pos rfl]
  · rw [if_neg fun h => hp h.1, if_neg hp]

theorem keptAt_appendChild (hn : n < d.size) (hp : n ≠ p) (c : Content) :
    KeptAt d (d.appendChild p c) n := by
  refine keptAt_of_entry_eq ?_
  rw [appendChild, entry_create_modify_of_lt hn, if_neg hp]

theorem keptAt_modify (hp : n ≠ p) (f : Entry → Entry) : KeptAt d (d.modify p f) n := by
  refine keptAt_of_entry_eq ?_
  rw [entry_modify, if_neg fun h => hp h.1]

theorem keptAt_putAttribute (hn : n < d.size) (hp : n ≠ p) (a : Attribute) :
    KeptAt d (d.putAttribute p a) n := by
  refine keptAt_of_entry_eq ?_
  unfold putAttribute appendAttribute
  rw [entry_create_modify_of_lt (by rwa [size_modify]), if_neg hp, entry_modify,
    if_neg fun h => hp h.1]

theorem keptAt_detach (hp : n ≠ p) : KeptAt d (d.detach p m) n := by
  constructor <;> rw [entry_detach]
  exact if_neg hp

theorem keptAt_clearChildren (hp : n ≠ p) : KeptAt d (d.clearChildren p) n := by
  constructor <;> rw [entry_clearChildren]
  exact if_neg hp

theorem keptAt_dropAttribute (hp : n ≠ p) (name : ExpandedName) :
    KeptAt d (d.dropAttribute p name) n := by
  constructor <;> rw [entry_dropAttribute]
  exact if_neg hp

/-! ## Contents and parents -/

theorem content_modify {f : Entry → Entry} (hf : ∀ e, (f e).content = e.content) :
    ((d.modify p f).entry n).content = (d.entry n).content := by
  rw [entry_modify]
  split
  next h => rw [hf, h.1]
  next => rfl

theorem parent?_modify {f : Entry → Entry} (hf : ∀ e, (f e).parent? = e.parent?) :
    ((d.modify p f).entry n).parent? = (d.entry n).parent? := by
  rw [entry_modify]
  split
  next h => rw [hf, h.1]
  next => rfl

theorem content_appendChild (c : Content) : ((d.appendChild p c).entry n).content =
    if n = d.size then c else (d.entry n).content := by
  rw [appendChild, content_modify, entry_create]
  · split <;> rfl
  · intro _
    rfl

theorem parent?_appendChild (c : Content) : ((d.appendChild p c).entry n).parent? =
    if n = d.size then some p else (d.entry n).parent? := by
  rw [appendChild, parent?_modify, entry_create]
  · split <;> rfl
  · intro _
    rfl

theorem content_putAttribute (a : Attribute) : ((d.putAttribute p a).entry n).content =
    if n = d.size then .attribute a else (d.entry n).content := by
  rw [putAttribute, appendAttribute, content_modify, entry_create, size_modify]
  · split
    next => rfl
    next =>
      rw [content_modify]
      intro _
      rfl
  · intro _
    rfl

theorem parent?_putAttribute (a : Attribute) : ((d.putAttribute p a).entry n).parent? =
    if n = d.size then some p else (d.entry n).parent? := by
  rw [putAttribute, appendAttribute, parent?_modify, entry_create, size_modify]
  · split
    next => rfl
    next =>
      rw [parent?_modify]
      intro _
      rfl
  · intro _
    rfl

theorem isAttribute_stored (d : Document) (n : NodeId) :
    d.isAttribute (.stored n) = (d.entry n).content.isAttribute := by
  unfold isAttribute
  rw [show d.content? (.stored n) = some (d.entry n).content from rfl]
  cases (d.entry n).content <;> rfl

theorem stored_of_parent? {x : Node} (h : d.parent? x = some (.stored p)) :
    ∃ n, x = .stored n ∧ (d.entry n).parent? = some p := by
  cases x with
  | stored n =>
    obtain ⟨q, hq, he⟩ := Option.map_eq_some_iff.1 h
    exact ⟨n, rfl, Node.stored.inj he ▸ hq⟩
  | binding => cases h

theorem parent?_stored (h : (d.entry n).parent? = some p) :
    d.parent? (.stored n) = some (.stored p) :=
  congrArg (Option.map Node.stored) h

/-- What takes a node away gives no node another parent. -/
theorem parent?_of_remove {x : Node} (h : d.remove x = .ok d')
    (hp : (d'.entry n).parent? = some p) : (d.entry n).parent? = some p := by
  obtain ⟨id, q, -, -, ⟨a, -, rfl⟩ | ⟨-, rfl⟩⟩ := remove_cases h
  · rw [entry_dropAttribute] at hp
    exact (Option.ite_none_left_eq_some.1 hp).2
  · rw [entry_detach] at hp
    exact (Option.ite_none_left_eq_some.1 hp).2

/-- The only attribute that comes with a text is the one that has it, and it has the parent of the
one before. -/
theorem parent?_of_setText {x : Node} {text : String} (h : d.setText text x = .ok d')
    (ha : (d'.entry n).content.isAttribute = true) (hp : (d'.entry n).parent? = some p) :
    ((d.entry n).content.isAttribute = true ∧ (d.entry n).parent? = some p) ∨
      (d.isAttribute x = true ∧ d.parent? x = some (.stored p)) := by
  obtain ⟨id, rfl, ⟨label, hc, rfl⟩ | ⟨s, isCData, hc, rfl⟩ | ⟨a, owner, hc, ho, rfl⟩⟩ :=
    setText_cases h
  · rw [content_appendChild] at ha
    rw [parent?_appendChild] at hp
    by_cases hn : n = (d.clearChildren id).size
    · -- the new node is a text
      rw [if_pos hn] at ha
      cases ha
    · rw [if_neg hn, entry_clearChildren] at ha hp
      exact Or.inl ⟨ha, (Option.ite_none_left_eq_some.1 hp).2⟩
  · rw [entry_modify] at ha hp
    by_cases hn : n = id ∧ id < d.size
    · -- a text it was and is
      rw [if_pos hn] at ha
      cases ha
    · rw [if_neg hn] at ha hp
      exact Or.inl ⟨ha, hp⟩
  · rw [content_putAttribute] at ha
    rw [parent?_putAttribute] at hp
    by_cases hn : n = d.size
    · rw [if_pos hn] at hp
      refine Or.inr ⟨by rw [isAttribute_stored, hc]; rfl, ?_⟩
      rw [parent?_stored ho, Option.some.inj hp]
    · rw [if_neg hn] at ha hp
      exact Or.inl ⟨ha, hp⟩

end Document

namespace Engine

open Document (KeptAt root)

variable {d d' : Document} {directive : Directive} {origin : Document} {m : Node} {n p : NodeId}

/-- Whether a directive changes the parent of a node: what takes nodes away does, and what sets
texts does at attributes. -/
def editsParent (directive : Directive) (d : Document) (m : Node) : Bool :=
  match directive with
  | .remove => true
  | .setText _ | .computeText _ => d.isAttribute m
  | _ => false

/-- A directive may change a node if it is to edit at it, or at a node of which it edits the
parent. -/
def Concerns (directive : Directive) (d : Document) (m : Node) (n : NodeId) : Prop :=
  m = .stored n ∨ (editsParent directive d m = true ∧ d.parent? m = some (.stored n))

instance : Decidable (Concerns directive d m n) :=
  inferInstanceAs (Decidable (_ ∨ (_ ∧ _)))

/-- Whether a directive looks at a document or at saved cursors only. -/
def looksOnly : Directive → Bool
  | .up | .select _ | .expect _ | .push | .pop => true
  | _ => false

/-- Whether a directive is an instruction that goes before the document element. -/
def insertsAtTop (directive : Directive) (c : Cursor Node) : Bool :=
  c.isEmpty && match directive with
    | .addInstruction _ _ => true
    | _ => false

/-! ## Single edits -/

theorem keptAt_of_addElement {name : String} {made : Node}
    (h : d.addElement name m = .ok (made, d')) (hn : n < d.size) (hm : m ≠ .stored n) :
    KeptAt d d' n := by
  obtain ⟨p, rfl, -, rfl, -⟩ := Document.addElement_cases h
  exact Document.keptAt_appendChild hn (fun he => hm (congrArg _ he.symm)) _

theorem keptAt_of_setAttribute {name value : String} (h : d.setAttribute name value m = .ok d')
    (hn : n < d.size) (hm : m ≠ .stored n) : KeptAt d d' n := by
  obtain ⟨p, label, rfl, -, rfl⟩ := Document.setAttribute_cases h
  exact Document.keptAt_putAttribute hn (fun he => hm (congrArg _ he.symm)) _

theorem keptAt_of_setText {text : String} (h : d.setText text m = .ok d') (hn : n < d.size)
    (hm : m ≠ .stored n)
    (hp : d.isAttribute m = true → d.parent? m ≠ some (.stored n)) : KeptAt d d' n := by
  obtain ⟨id, rfl, ⟨label, hc, rfl⟩ | ⟨s, isCData, hc, rfl⟩ | ⟨a, owner, hc, ho, rfl⟩⟩ :=
    Document.setText_cases h
  · have hne : n ≠ id := fun he => hm (congrArg _ he.symm)
    refine (Document.keptAt_clearChildren hne).trans (Document.keptAt_appendChild ?_ hne _)
    rwa [Document.size_clearChildren]
  · exact Document.keptAt_modify (fun he => hm (congrArg _ he.symm)) _
  · refine Document.keptAt_putAttribute hn (fun he => ?_) _
    refine hp (by rw [Document.isAttribute_stored, hc]; rfl) ?_
    rw [Document.parent?_stored ho, he]

theorem keptAt_of_remove (h : d.remove m = .ok d') (hp : d.parent? m ≠ some (.stored n)) :
    KeptAt d d' n := by
  obtain ⟨id, p, rfl, ho, hd⟩ := Document.remove_cases h
  have hne : n ≠ p := by
    intro he
    rw [he] at hp
    exact hp (Document.parent?_stored ho)
  rcases hd with ⟨a, -, rfl⟩ | ⟨-, rfl⟩
  · exact Document.keptAt_dropAttribute hne _
  · exact Document.keptAt_detach hne

/-- An edit leaves every node alone that it does not concern. -/
theorem keptAt_of_editAt (h : editAt directive origin m d = .ok d') (hn : n < d.size)
    (hc : ¬ Concerns directive d m n) : KeptAt d d' n := by
  obtain ⟨hm, hp⟩ := not_or.1 hc
  cases directive with
  | addElement name =>
    obtain ⟨⟨made, d₁⟩, hadd, rfl⟩ := map_eq_ok_iff.1 (mapError_eq_ok_iff.1 h)
    exact keptAt_of_addElement hadd hn hm
  | ensureElement name =>
    obtain ⟨⟨made, d₁⟩, hensure, rfl⟩ := map_eq_ok_iff.1 (mapError_eq_ok_iff.1 h)
    rcases ensureElement_cases hensure with ⟨-, rfl⟩ | ⟨-, hadd⟩
    · exact Document.keptAt_of_entry_eq rfl
    · exact keptAt_of_addElement hadd hn hm
  | remove => exact keptAt_of_remove (mapError_eq_ok_iff.1 h) fun hpm => hp ⟨rfl, hpm⟩
  | setText text =>
    exact keptAt_of_setText (mapError_eq_ok_iff.1 h) hn hm fun ha hpm => hp ⟨ha, hpm⟩
  | computeText query =>
    obtain ⟨text, he⟩ := edit_of_computed h
    exact keptAt_of_setText he hn hm fun ha hpm => hp ⟨ha, hpm⟩
  | setAttribute name value => exact keptAt_of_setAttribute (mapError_eq_ok_iff.1 h) hn hm
  | computeAttribute name query =>
    obtain ⟨text, he⟩ := edit_of_computed h
    exact keptAt_of_setAttribute he hn hm
  | setNamespace uri => exact keptAt_of_setAttribute (mapError_eq_ok_iff.1 h) hn hm
  | addComment text =>
    obtain ⟨p, rfl, -, rfl⟩ := Document.addComment_cases (mapError_eq_ok_iff.1 h)
    exact Document.keptAt_appendChild hn (fun he => hm (congrArg _ he.symm)) _
  | addCData text =>
    obtain ⟨p, label, rfl, -, rfl⟩ := Document.addCData_cases (mapError_eq_ok_iff.1 h)
    exact Document.keptAt_appendChild hn (fun he => hm (congrArg _ he.symm)) _
  | addInstruction target data =>
    obtain ⟨p, rfl, -, rfl⟩ := Document.addInstruction_cases (mapError_eq_ok_iff.1 h)
    exact Document.keptAt_appendChild hn (fun he => hm (congrArg _ he.symm)) _
  | up | select _ | expect _ | push | pop =>
    cases h
    exact Document.keptAt_of_entry_eq rfl

theorem above_of_setText {text : String} (h : d.setText text m = .ok d') {x : Node}
    (hx : d'.isAttribute x = true) (hp : d'.parent? x = some (.stored p)) :
    (d.isAttribute x = true ∧ d.parent? x = some (.stored p)) ∨
      (d.isAttribute m = true ∧ d.parent? m = some (.stored p)) := by
  obtain ⟨k, rfl, hk⟩ := Document.stored_of_parent? hp
  rw [Document.isAttribute_stored] at hx ⊢
  rcases Document.parent?_of_setText h hx hk with ⟨ha, hpk⟩ | hm
  · exact Or.inl ⟨ha, Document.parent?_stored hpk⟩
  · exact Or.inr hm

/-- A parent that a directive would change after an edit is one that it would have changed
before. -/
theorem above_of_editAt (h : editAt directive origin m d = .ok d') {x : Node}
    (hx : editsParent directive d' x = true) (hp : d'.parent? x = some (.stored p)) :
    (editsParent directive d x = true ∧ d.parent? x = some (.stored p)) ∨
      (editsParent directive d m = true ∧ d.parent? m = some (.stored p)) := by
  cases directive with
  | remove =>
    obtain ⟨k, rfl, hk⟩ := Document.stored_of_parent? hp
    have hpk := Document.parent?_of_remove (mapError_eq_ok_iff.1 h) hk
    exact Or.inl ⟨rfl, Document.parent?_stored hpk⟩
  | setText text => exact above_of_setText (mapError_eq_ok_iff.1 h) hx hp
  | computeText query =>
    obtain ⟨text, he⟩ := edit_of_computed h
    exact above_of_setText he hx hp
  | addElement _ | ensureElement _ | setAttribute _ _ | computeAttribute _ _ | addComment _
  | addCData _ | addInstruction _ _ | setNamespace _ | up | select _ | expect _ | push | pop =>
    cases hx

/-- No edit forgets a node. -/
theorem keptByEdits_size (k : Nat) : Document.KeptByEdits fun d => k ≤ d.size where
  addElement he h := by
    obtain ⟨p, -, -, rfl, -⟩ := Document.addElement_cases he
    rw [Document.size_appendChild]
    exact Nat.le_succ_of_le h
  remove he h := by
    obtain ⟨id, p, -, -, ⟨a, -, rfl⟩ | ⟨-, rfl⟩⟩ := Document.remove_cases he
    · rwa [Document.dropAttribute, Document.size_foldl_orphan, Document.size_modify]
    · rwa [Document.detach, Document.size_modify, Document.size_modify]
  setText he h := by
    obtain ⟨id, -, ⟨label, -, rfl⟩ | ⟨s, isCData, -, rfl⟩ | ⟨a, owner, -, -, rfl⟩⟩ :=
      Document.setText_cases he
    · rw [Document.size_appendChild, Document.size_clearChildren]
      exact Nat.le_succ_of_le h
    · rwa [Document.size_modify]
    · rw [Document.size_putAttribute]
      exact Nat.le_succ_of_le h
  setAttribute he h := by
    obtain ⟨p, label, -, -, rfl⟩ := Document.setAttribute_cases he
    rw [Document.size_putAttribute]
    exact Nat.le_succ_of_le h
  addComment he h := by
    obtain ⟨p, -, -, rfl⟩ := Document.addComment_cases he
    rw [Document.size_appendChild]
    exact Nat.le_succ_of_le h
  addCData he h := by
    obtain ⟨p, label, -, -, rfl⟩ := Document.addCData_cases he
    rw [Document.size_appendChild]
    exact Nat.le_succ_of_le h
  addInstruction he h := by
    obtain ⟨p, -, -, rfl⟩ := Document.addInstruction_cases he
    rw [Document.size_appendChild]
    exact Nat.le_succ_of_le h
  insertInstruction he h := by
    rw [Document.insertInstruction_cases he, Document.size_modify, Document.size_create]
    exact Nat.le_succ_of_le h

theorem size_le_of_editAt (h : editAt directive origin m d = .ok d') : d.size ≤ d'.size :=
  (Keeps.of_edits (keptByEdits_size d.size) directive).edit h (Nat.le_refl _)

/-! ## Directives -/

/-- What a directive has done to a document so far is confined to the nodes that it concerned when
it began, and will be. -/
structure Confined (directive : Directive) (c : Cursor Node) (origin d : Document) : Prop where
  size_le : origin.size ≤ d.size
  kept : ∀ n < origin.size, (∀ m ∈ c.nodes, ¬ Concerns directive origin m n) → KeptAt origin d n
  above : ∀ m ∈ c.nodes, ∀ p, Concerns directive d m p →
    ∃ m ∈ c.nodes, Concerns directive origin m p

theorem Confined.refl (directive : Directive) (c : Cursor Node) (d : Document) :
    Confined directive c d d where
  size_le := Nat.le_refl _
  kept _ _ _ := Document.keptAt_of_entry_eq rfl
  above m hm _ h := ⟨m, hm, h⟩

theorem Confined.edit {c : Cursor Node} {start : Document} (h : Confined directive c start d)
    (hm : m ∈ c.nodes) (he : editAt directive origin m d = .ok d') :
    Confined directive c start d' where
  size_le := Nat.le_trans h.size_le (size_le_of_editAt he)
  kept n hn hnone := by
    have hfree : ¬ Concerns directive d m n := by
      intro hc
      obtain ⟨m', hm', hc'⟩ := h.above m hm n hc
      exact hnone m' hm' hc'
    exact (h.kept n hn hnone).trans
      (keptAt_of_editAt he (Nat.lt_of_lt_of_le hn h.size_le) hfree)
  above x hx p hc := by
    rcases hc with rfl | ⟨ha, hp⟩
    · exact ⟨_, hx, Or.inl rfl⟩
    · rcases above_of_editAt he ha hp with hbefore | hnow
      · exact h.above x hx p (Or.inr hbefore)
      · exact h.above m hm p (Or.inr hnow)

/-- What edits at the current nodes do is confined. -/
theorem confined_execute (directive : Directive) (c : Cursor Node) (s : State)
    (h : insertsAtTop directive c = false) :
    Confined directive c s.document (execute directive c s).2.document := by
  refine execute_keeps (fun m hm {d d'} he hd => hd.edit hm he) ?_ (Confined.refl ..)
  intro target data d' hd hempty _
  rw [hd, insertsAtTop, hempty] at h
  cases h

/-- What is inserted at the top shows among the children of the document node. -/
theorem entry_of_insertInstruction {target data : String}
    (h : d.insertInstruction target data = .ok d') (hn : n < d.size) :
    (d'.entry n).content = (d.entry n).content ∧ (d'.entry n).attributes = (d.entry n).attributes ∧
      (n ≠ root → (d'.entry n).children = (d.entry n).children) := by
  rw [Document.insertInstruction_cases h, Document.entry_create_modify_of_lt hn]
  split
  next hroot => exact ⟨rfl, rfl, fun hne => absurd hroot hne⟩
  next => exact ⟨rfl, rfl, fun _ => rfl⟩

theorem entry_of_insertsAtTop (c : Cursor Node) (s : State)
    (h : insertsAtTop directive c = true) (hn : n < s.document.size) :
    let d' := (execute directive c s).2.document
    (d'.entry n).content = (s.document.entry n).content ∧
      (d'.entry n).attributes = (s.document.entry n).attributes ∧
      (n ≠ root → (d'.entry n).children = (s.document.entry n).children) := by
  obtain ⟨hempty, hd⟩ := Bool.and_eq_true_iff.1 h
  cases directive with
  | addInstruction target data =>
    unfold execute
    simp only [if_pos hempty]
    split
    next => exact ⟨rfl, rfl, fun _ => rfl⟩
    next he => exact entry_of_insertInstruction he hn
  | addElement _ | ensureElement _ | remove | setText _ | setAttribute _ _ | computeAttribute _ _
  | computeText _ | addComment _ | addCData _ | setNamespace _ | up | select _ | expect _ | push
  | pop => cases hd

theorem document_of_looksOnly (c : Cursor Node) (s : State) (h : looksOnly directive = true) :
    (execute directive c s).2.document = s.document := by
  refine execute_keeps (P := (· = s.document)) (fun m _ {d d'} he hd => ?_) ?_ rfl
  · cases directive <;> first | cases h; done | (cases he; exact hd)
  · intro _ _ _ hd
    rw [hd] at h
    cases h

/-- A directive, whether it succeeds or fails, leaves every node that was there as it is, unless it
is to edit at the node or is one that takes nodes or their texts out of it; an instruction without a
current node only gives the document node another child. A directive that looks at the document
changes nothing. -/
theorem execute_local (directive : Directive) (c : Cursor Node) (s : State) :
    let d := s.document
    let d' := (execute directive c s).2.document
    (∀ n < d.size, (∀ m ∈ c.nodes, ¬ Concerns directive d m n) →
      (insertsAtTop directive c = true → n ≠ root) → KeptAt d d' n) ∧
    (insertsAtTop directive c = true → ∀ n < d.size,
      (d'.entry n).content = (d.entry n).content ∧
        (d'.entry n).attributes = (d.entry n).attributes) ∧
    (looksOnly directive = true → d' = d) := by
  intro d d'
  refine ⟨fun n hn hnone htop => ?_, fun hi n hn => ?_, document_of_looksOnly c s⟩
  · cases hi : insertsAtTop directive c with
    | false => exact (confined_execute directive c s hi).kept n hn hnone
    | true =>
      obtain ⟨hcontent, hattributes, hchildren⟩ := entry_of_insertsAtTop c s hi hn
      exact ⟨hcontent, hchildren (htop hi), hattributes⟩
  · obtain ⟨hcontent, hattributes, -⟩ := entry_of_insertsAtTop c s hi hn
    exact ⟨hcontent, hattributes⟩

/-- The text of an attribute and of an element beside it: the element that has the attribute
changes, but not what was below the other one, nor what is beside and above them. -/
theorem execute_local_attribute :
    let s : State := { document := .ofTrees [.element (.plain "a")
      [{ name := .plain "x", value := "1" }]
      [.element (.plain "b") [] [.text "t" false], .comment "k"]] }
    let c : Cursor Node := ⟨[.stored 2, .stored 3], by decide⟩
    let directive : Directive := .setText ⟨"n", Literal.check_eq_ok_iff.1 rfl⟩
    let d' := (execute directive c s).2.document
    KeptAt s.document d' 4 ∧ KeptAt s.document d' 5 ∧ KeptAt s.document d' root ∧
      (d'.entry 1).attributes ≠ (s.document.entry 1).attributes := by
  intro s c directive d'
  have hlocal := (execute_local directive c s).1
  refine ⟨hlocal 4 ?_ ?_ ?_, hlocal 5 ?_ ?_ ?_, hlocal root ?_ ?_ ?_, ?_⟩ <;> decide +kernel

end Engine

end XmlScript
