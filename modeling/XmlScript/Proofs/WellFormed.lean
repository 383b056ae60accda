import Mathlib.Data.List.Count
import Mathlib.Data.List.Nodup
import XmlScript.Document.Around
import XmlScript.Proofs.Execution
import XmlScript.Proofs.Planting

/-!
# Documents stay well formed

`Document.WellFormed` says what a reader of a document may count on, in terms of what can be asked
of it: where a node is listed, what the document node holds, which names attributes have, and that
every way up ends. `Document.Reachable` are the documents that there can be: the empty one, those
that are read, and what any operation or directive makes of one, granted or refused, on any nodes
whatever; so a number may be that of a node that has been detached, or of none at all.

The main statement, `wellFormed_of_reachable`, is that these are well formed. It goes through
`Document.Linked`, which single edits are known to keep; what no edit breaks holds of all these
documents (`KeptByEdits.of_reachable`).
-/

namespace XmlScript

/-! ## Runs -/

namespace Document

/-- What can be done to a document: an operation on a node, or a directive with any cursor and any
cursors saved. -/
inductive Action where
  | addElement (name : String) (parent : Node)
  | remove (n : Node)
  | setText (text : String) (n : Node)
  | setAttribute (name value : String) (n : Node)
  | addComment (text : String) (n : Node)
  | addCData (text : String) (n : Node)
  | addInstruction (target data : String) (n : Node)
  | insertInstruction (target data : String)
  | execute (directive : Directive) (c : Cursor Node) (saved : Stack Node)

/-- The document after an edit, which is the one before if the edit was refused. -/
def orSame (d : Document) (r : Except EditError Document) : Document := r.toOption.getD d

/-- The document after an action, which may have failed. -/
def Action.run (d : Document) : Action → Document
  | addElement name parent => d.orSame ((d.addElement name parent).map (·.2))
  | remove n => d.orSame (d.remove n)
  | setText text n => d.orSame (d.setText text n)
  | setAttribute name value n => d.orSame (d.setAttribute name value n)
  | addComment text n => d.orSame (d.addComment text n)
  | addCData text n => d.orSame (d.addCData text n)
  | addInstruction target data n => d.orSame (d.addInstruction target data n)
  | insertInstruction target data => d.orSame (d.insertInstruction target data)
  | execute directive c saved => (Engine.execute directive c { document := d, saved }).2.document

/-- The documents that some sequence of actions leads to. -/
inductive Reachable : Document → Prop
  | empty : Reachable .empty
  | read {text : String} {d : Document} (h : Markup.read? text = some d) : Reachable d
  | act {d : Document} (h : Reachable d) (a : Action) : Reachable (a.run d)

/-! ## Well-formed documents -/

/-- The node that is reached after a number of steps up. -/
def ancestor? (d : Document) : (steps : Nat) → Node → Option Node
  | 0, n => some n
  | k + 1, n => (d.parent? n).bind (d.ancestor? k)

/-- Going up from a node and noting a step of the path at every turn ends with these steps. -/
inductive Climb (d : Document) : Node → List String → Prop
  | top {n : Node} (h : d.parent? n = none) : Climb d n []
  | up {n p : Node} {steps : List String} (h : d.parent? n = some p) (hp : Climb d p steps) :
    Climb d n (steps ++ [d.pathStep p n])

/-- Whether a node is an element, a text, a comment or an instruction. -/
def canBeChild (d : Document) (n : Node) : Bool :=
  match d.content? n with
  | some (.element _) | some (.text _ _) | some (.comment _) | some (.instruction _ _) => true
  | _ => false

/-- What can be counted on in a document. -/
structure WellFormed (d : Document) : Prop where
  /-- A node is listed once by its parent, and nowhere else. -/
  count_children : ∀ n p, d.canBeChild n = true →
    (d.children p).count n = if d.parent? n = some p then 1 else 0
  /-- Nothing but such nodes is listed. -/
  canBeChild_of_mem : ∀ p, ∀ n ∈ d.children p, d.canBeChild n = true
  parent?_root : d.parent? (.stored root) = none
  length_elementChildren_root : (d.elementChildren (.stored root)).length ≤ 1
  not_text_root : ∀ n ∈ d.children (.stored root), ∀ s isCData,
    d.content? n ≠ some (.text s isCData)
  nodup_names : ∀ n, ((d.attributes n).map d.expandedName?).Nodup
  isAttribute_of_mem : ∀ n, ∀ a ∈ d.attributes n, d.isAttribute a = true ∧ d.parent? a = some n
  /-- Every way up comes to a node without parent. -/
  ascent : ∀ n, ∃ k top, d.ancestor? k n = some top ∧ d.parent? top = none
  /-- The steps of a path are those of the whole way up. -/
  climb : ∀ n, d.Climb n (d.pathSteps d.size n)

end Document

namespace Document

variable {d : Document}

/-! ## What a linked document shows -/

theorem parent?_stored_iff {n : NodeId} {m : Node} :
    d.parent? (.stored n) = some m ↔ ∃ p, (d.entry n).parent? = some p ∧ .stored p = m :=
  Option.map_eq_some_iff

theorem parent?_stored_eq_none_iff {n : NodeId} :
    d.parent? (.stored n) = none ↔ (d.entry n).parent? = none :=
  Option.map_eq_none_iff

theorem mem_children_iff {n : Node} {p : NodeId} :
    n ∈ d.children (.stored p) ↔ ∃ c ∈ (d.entry p).children, .stored c = n :=
  List.mem_map

theorem expandedName?_stored (n : NodeId) :
    d.expandedName? (.stored n) = (d.entry n).content.name? := by
  cases hc : (d.entry n).content <;> simp [expandedName?, content?, hc, Content.name?]

theorem canBeChild_iff {n : NodeId} : d.canBeChild (.stored n) = true ↔
    (d.entry n).content ≠ .document ∧ (d.entry n).content.isAttribute = false := by
  cases hc : (d.entry n).content <;> simp [canBeChild, content?, hc, Content.isAttribute]

namespace Linked

theorem parent?_root (h : d.Linked) : (d.entry root).parent? = none := by
  cases hp : (d.entry root).parent? with
  | none => rfl
  | some p => exact absurd (h.parent_lt hp) (Nat.not_lt_zero p)

theorem count_children (h : d.Linked) (n p : Node) (hn : d.canBeChild n = true) :
    (d.children p).count n = if d.parent? n = some p then 1 else 0 := by
  cases n with
  | binding owner short uri => cases hn
  | stored n =>
    have hna := (canBeChild_iff.1 hn).2
    have hmem : .stored n ∈ d.children p ↔ d.parent? (.stored n) = some p := by
      rw [parent?_stored_iff]
      cases p with
      | binding owner short uri => exact iff_of_false nofun nofun
      | stored p =>
        rw [mem_children_iff]
        constructor
        · intro h
          obtain ⟨c, hc, hcn⟩ := h
          cases hcn
          exact ⟨p, (h.child_iff.1 hc).1, rfl⟩
        · intro h
          obtain ⟨q, hq, hqp⟩ := h
          cases hqp
          exact ⟨n, h.child_iff.2 ⟨hq, hna⟩, rfl⟩
    have hnodup : (d.children p).Nodup := by
      cases p with
      | binding owner short uri => exact List.nodup_nil
      | stored p => exact (h.nodup_children p).map fun _ _ => Node.stored.inj
    by_cases hp : d.parent? (.stored n) = some p
    · rw [if_pos hp]
      exact List.count_eq_one_of_mem hnodup (hmem.2 hp)
    · rw [if_neg hp]
      exact List.count_eq_zero_of_not_mem fun hm => hp (hmem.1 hm)

theorem canBeChild_of_mem (h : d.Linked) (p : Node) :
    ∀ n ∈ d.children p, d.canBeChild n = true := by
  intro n hn
  cases p with
  | binding owner short uri => cases hn
  | stored p =>
    obtain ⟨c, hc, rfl⟩ := mem_children_iff.1 hn
    obtain ⟨hp, hna⟩ := h.child_iff.1 hc
    refine canBeChild_iff.2 ⟨fun hdoc => ?_, hna⟩
    rw [(h.document_iff c).1 hdoc, h.parent?_root] at hp
    cases hp

theorem length_elementChildren_root (h : d.Linked) :
    (d.elementChildren (.stored root)).length ≤ 1 := by
  show (((d.entry root).children.filter d.isElement).map Node.stored).length ≤ 1
  rw [List.length_map]
  have hnodup := (h.nodup_children root).filter d.isElement
  have hone : ∀ n ∈ (d.entry root).children.filter d.isElement,
      ∀ m ∈ (d.entry root).children.filter d.isElement, n = m := by
    intro n hn m hm
    rw [List.mem_filter, isElement_eq] at hn hm
    exact h.top_element hn.1 hm.1 hn.2 hm.2
  -- two elements of the list would be one, and stand there twice
  match hl : (d.entry root).children.filter d.isElement with
  | [] => exact Nat.zero_le 1
  | [n] => exact Nat.le_refl 1
  | n :: m :: rest =>
    rw [hl] at hnodup hone
    have hnm : n = m := hone n (List.mem_cons_self ..) m (by simp)
    subst hnm
    simp at hnodup

theorem nodup_names (h : d.Linked) (n : Node) : ((d.attributes n).map d.expandedName?).Nodup := by
  cases n with
  | binding owner short uri => exact List.nodup_nil
  | stored n =>
    show (((d.entry n).attributes.map Node.stored).map d.expandedName?).Nodup
    rw [List.map_map]
    refine List.Nodup.map_on ?_ (h.nodup_attributes n)
    intro a ha b hb hname
    refine h.name_inj ha hb ?_
    rw [← expandedName?_stored, ← expandedName?_stored]
    exact hname

theorem isAttribute_of_mem (h : d.Linked) (n : Node) :
    ∀ a ∈ d.attributes n, d.isAttribute a = true ∧ d.parent? a = some n := by
  intro a hmem
  cases n with
  | binding owner short uri => cases hmem
  | stored n =>
    obtain ⟨a, ha, rfl⟩ := List.mem_map.1 hmem
    obtain ⟨hattr, hp⟩ := h.owner ha
    refine ⟨?_, parent?_stored_iff.2 ⟨n, hp, rfl⟩⟩
    obtain ⟨b, hb⟩ := Content.isAttribute_iff.1 hattr
    simp only [isAttribute, content?, hb]

/-- Parents are smaller numbers, so as many turns as the number says are enough. -/
theorem climb_pathSteps (h : d.Linked) (bound : Nat) (n : NodeId) (hn : n < bound) :
    d.Climb (.stored n) (d.pathSteps bound (.stored n)) := by
  induction bound generalizing n with
  | zero => exact absurd hn (Nat.not_lt_zero n)
  | succ bound ih =>
    cases hp : (d.entry n).parent? with
    | none =>
      have hp' := parent?_stored_eq_none_iff.2 hp
      unfold pathSteps
      rw [hp']
      exact Climb.top hp'
    | some p =>
      have hp' : d.parent? (.stored n) = some (.stored p) := parent?_stored_iff.2 ⟨p, hp, rfl⟩
      have hlt := h.parent_lt hp
      unfold pathSteps
      rw [hp']
      exact Climb.up hp' (ih p (Nat.lt_of_lt_of_le hlt (Nat.le_of_lt_succ hn)))

theorem climb (h : d.Linked) (n : Node) : d.Climb n (d.pathSteps d.size n) := by
  have htop {n : Node} (hn : d.parent? n = none) : d.Climb n (d.pathSteps d.size n) := by
    obtain ⟨k, hk⟩ := Nat.exists_eq_succ_of_ne_zero (Nat.ne_of_gt h.root_lt)
    rw [hk, pathSteps, hn]
    exact Climb.top hn
  cases n with
  | binding owner short uri => exact htop rfl
  | stored n =>
    by_cases hn : n < d.size
    · exact h.climb_pathSteps d.size n hn
    · refine htop (parent?_stored_eq_none_iff.2 ?_)
      rw [entry_of_size_le (Nat.le_of_not_lt hn)]
      rfl

end Linked

/-- A way up that ends comes to a node without parent. -/
theorem Climb.ascent {n : Node} {steps : List String} (h : d.Climb n steps) :
    ∃ k top, d.ancestor? k n = some top ∧ d.parent? top = none := by
  induction h with
  | @top n h => exact ⟨0, n, rfl, h⟩
  | up h hp ih =>
    obtain ⟨k, top, hk, htop⟩ := ih
    exact ⟨k + 1, top, by rw [ancestor?, h]; exact hk, htop⟩

theorem Linked.wellFormed (h : d.Linked) : d.WellFormed where
  count_children := h.count_children
  canBeChild_of_mem := h.canBeChild_of_mem
  parent?_root := parent?_stored_eq_none_iff.2 h.parent?_root
  length_elementChildren_root := h.length_elementChildren_root
  not_text_root := by
    intro n hn s isCData hc
    obtain ⟨c, hmem, rfl⟩ := mem_children_iff.1 hn
    have htext := h.top_text hmem
    rw [Option.some.inj hc] at htext
    cases htext
  nodup_names := h.nodup_names
  isAttribute_of_mem := h.isAttribute_of_mem
  ascent n := (h.climb n).ascent
  climb := h.climb

/-! ## Everything that can be reached -/

namespace KeptByEdits

variable {P : Document → Prop} (hP : KeptByEdits P)

theorem orSame {r : Except EditError Document} (h : P d) (hr : ∀ {d'}, r = .ok d' → P d → P d') :
    P (d.orSame r) := by
  cases r with
  | error e => exact h
  | ok d' => exact hr rfl h

include hP

/-- What no edit breaks, no action breaks. -/
theorem run (h : P d) (a : Action) : P (a.run d) := by
  cases a with
  | addElement name parent =>
    refine orSame h fun hr => ?_
    obtain ⟨⟨made, d'⟩, he, rfl⟩ := map_eq_ok_iff.1 hr
    exact hP.addElement he
  | remove n => exact orSame h hP.remove
  | setText text n => exact orSame h hP.setText
  | setAttribute name value n => exact orSame h hP.setAttribute
  | addComment text n => exact orSame h hP.addComment
  | addCData text n => exact orSame h hP.addCData
  | addInstruction target data n => exact orSame h hP.addInstruction
  | insertInstruction target data => exact orSame h hP.insertInstruction
  | execute directive c saved =>
    exact (Engine.Keeps.of_edits hP directive).execute (s := { document := d, saved }) c h

/-- What no edit breaks holds of every document that there can be, if it holds of those that are
read. -/
theorem of_reachable (hempty : P .empty)
    (hread : ∀ {text d}, Markup.read? text = some d → P d) (h : d.Reachable) : P d := by
  induction h with
  | empty => exact hempty
  | read h => exact hread h
  | act _ a ih => exact hP.run ih a

end KeptByEdits

theorem Reachable.linked (h : d.Reachable) : d.Linked :=
  keptByEdits_linked.of_reachable Linked.ofEmpty linked_read? h

/-- A script is one directive after the other, each with the cursor that the one before it left. -/
theorem Reachable.apply (h : d.Reachable) (script : Script) :
    (Engine.apply script d).2.Reachable := by
  -- any cursor may be current on the way, so any is allowed at the start
  have hrun : ∀ (script : Script) (position : Nat) (c : Cursor Node) (s : Engine.State),
      s.document.Reachable → (Engine.runFrom position script c s).2.document.Reachable := by
    intro script
    induction script with
    | nil => intro _ _ _ hs; exact hs
    | cons directive rest ih =>
      intro position c s hs
      have hstep : (Engine.execute directive c s).2.document.Reachable :=
        hs.act (.execute directive c s.saved)
      unfold Engine.runFrom
      split
      next he =>
        rw [he] at hstep
        exact ih _ _ _ hstep
      next he =>
        rw [he] at hstep
        exact hstep
  exact hrun script 1 Engine.start { document := d } h

/-- Whatever is done to the empty document or to one that is read, granted or refused, on attached
or detached nodes, the document stays well formed, and so it does under every script. -/
theorem wellFormed_of_reachable (h : d.Reachable) :
    d.WellFormed ∧ ∀ script : Script, (Engine.apply script d).2.WellFormed :=
  ⟨h.linked.wellFormed, fun script => (h.apply script).linked.wellFormed⟩

/-- An element that is taken out of a document that was read still takes a child. -/
theorem wellFormed_of_detached :
    ∃ d, Markup.read? "<a><c/></a>" = some d ∧
      let d' := (Action.addElement "e" (.stored 2)).run ((Action.remove (.stored 2)).run d)
      d'.parent? (.stored 2) = none ∧ d'.parent? (.stored 3) = some (.stored 2) ∧
        d'.Reachable ∧ d'.WellFormed := by
  obtain ⟨d, hd⟩ := Option.isSome_iff_exists.1
    (by decide +kernel : (Markup.read? "<a><c/></a>").isSome = true)
  have hreach := ((Reachable.read hd).act (.remove (.stored 2))).act (.addElement "e" (.stored 2))
  have hparents : (Markup.read? "<a><c/></a>").all (fun d =>
      let d' := (Action.addElement "e" (.stored 2)).run ((Action.remove (.stored 2)).run d)
      d'.parent? (.stored 2) = none ∧ d'.parent? (.stored 3) = some (.stored 2)) = true := by
    decide +kernel
  rw [hd] at hparents
  obtain ⟨h₂, h₃⟩ := of_decide_eq_true hparents
  exact ⟨d, hd, h₂, h₃, hreach, (wellFormed_of_reachable hreach).1⟩

end Document

end XmlScript
