import XmlScript.Proofs.Growth
import XmlScript.Proofs.Stack
import XmlScript.Proofs.WellFormed
import XmlScript.Render

/-!
# Scripts that can be run again

A script that only looks for elements, makes those that are missing and sets attributes can be run
again on what it has made, and nothing changes. The proof follows both runs at once. `Earlier x y`
says that `y` goes on from `x`: children have only been added at the end, so that what was found
first in `x` is found first in `y`. A step is `Repeatable` if, once it has led from `x` to `x'`, it
has the same answer in every document that goes on from `x'`, where it then makes nothing but
attributes, the same as before and in the same order. Single edits are repeatable, and with them
sequences of edits, directives and scripts (`repeatable_runFrom`).

The second run goes on from the document that the first one ends with. It sets the attributes of
every element that the first run has set there, in the same order, which changes none of them
(`Attribute.putAll_putAll`). So the document is the same but for the numbers of attributes, which no
tree shows (`upsert_again`).
-/

namespace XmlScript

/-- Whether a command looks for what it needs before it makes it, or makes nothing. -/
def Command.isUpsert {α : Type} : Command α → Bool
  | .ensureElement _ | .setAttribute _ _ | .setNamespace _ | .up | .push | .pop | .expect _ => true
  | .addElement _ | .remove | .setText _ | .computeAttribute _ _ | .computeText _ | .addComment _
  | .addCData _ | .addInstruction _ _ | .select _ => false

namespace Document

/-! ## Later documents -/

/-- The second document goes on from the first, and `writes` are the attributes that have been set
on each node. -/
structure Upserted (writes : NodeId → List Attribute) (x y : Document) : Prop extends
    Earlier x y where
  attributesOf : ∀ n, y.attributesOf n = Attribute.putAll (x.attributesOf n) (writes n)

/-- Nothing but these attributes has been made. -/
structure Rewritten (writes : NodeId → List Attribute) (x y : Document) : Prop extends
    Upserted writes x y where
  children_eq : ∀ n < x.size, (y.entry n).children = (x.entry n).children
  made : ∀ n < y.size, x.size ≤ n →
    ∃ p, ∃ a ∈ writes p, (y.entry n).content = .attribute a ∧ (y.entry n).parent? = some p

/-- The attributes that are set on each node by two steps. -/
def bothWrites (w w' : NodeId → List Attribute) (n : NodeId) : List Attribute := w n ++ w' n

/-- No attribute is set. -/
def noWrites (_ : NodeId) : List Attribute := []

variable {x y z : Document} {w w' : NodeId → List Attribute}

theorem Rewritten.refl (x : Document) : Rewritten noWrites x x where
  toEarlier := Earlier.refl x
  attributesOf _ := rfl
  children_eq _ _ := rfl
  made _ hn hle := absurd hn (Nat.not_lt.2 hle)

theorem Upserted.trans (h : Upserted w x y) (h' : Upserted w' y z) :
    Upserted (bothWrites w w') x z where
  toEarlier := h.toEarlier.trans h'.toEarlier
  attributesOf n := by
    rw [h'.attributesOf, h.attributesOf]
    exact (Attribute.putAll_append _).symm

theorem Rewritten.trans (h : Rewritten w x y) (h' : Rewritten w' y z) :
    Rewritten (bothWrites w w') x z where
  toUpserted := h.toUpserted.trans h'.toUpserted
  children_eq n hn := by
    rw [h'.children_eq n (Nat.lt_of_lt_of_le hn h.size_le), h.children_eq n hn]
  made n hn hle := by
    by_cases hy : n < y.size
    · obtain ⟨p, a, ha, hc, hp⟩ := h.made n hy hle
      refine ⟨p, a, List.mem_append_left _ ha, ?_, ?_⟩
      · rw [h'.content n hy, hc]
      · rw [h'.parent? n hy, hp]
    · obtain ⟨p, a, ha, hc⟩ := h'.made n hn (Nat.le_of_not_lt hy)
      exact ⟨p, a, List.mem_append_right _ ha, hc⟩

/-! ## Single changes -/

/-- An attribute that is set is all that is made. -/
theorem Linked.rewritten_putAttribute {p : NodeId} (h : x.Linked) (hp : p < x.size)
    (a : Attribute) :
    Rewritten (fun n => if n = p then [a] else []) x (x.putAttribute p a) := by
  obtain ⟨hearlier, hchildren⟩ := Earlier.putAttribute hp a
  refine ⟨⟨hearlier, fun n => ?_⟩, hchildren, fun n hn hle => ?_⟩
  · rw [h.attributesOf_putAttribute hp]
    by_cases hn : n = p
    · rw [if_pos hn, if_pos hn, hn]
      rfl
    · rw [if_neg hn, if_neg hn]
      rfl
  · -- the one new number is that of the attribute
    have hn' : n = x.size := by
      rw [size_putAttribute] at hn
      exact Nat.le_antisymm (Nat.le_of_lt_succ hn) hle
    refine ⟨p, a, by rw [if_pos rfl]; exact List.mem_singleton.2 rfl, ?_⟩
    unfold Document.putAttribute
    rw [entry_appendAttribute (by rwa [size_modify]), size_modify, if_pos hn']
    exact ⟨rfl, rfl⟩

/-! ## Steps that can be taken again -/

/-- Once a step has been taken from one document to another, it has the same answer in every
document that goes on from the second, and makes nothing there but the attributes that it made
before. -/
def Repeatable {ρ : Type} (Step : Document → ρ → Document → Prop) : Prop :=
  ∀ ⦃x x' : Document⦄ ⦃r : ρ⦄, x.Linked → Step x r x' →
    x'.Linked ∧ ∃ writes, Upserted writes x x' ∧
      ∀ ⦃y : Document⦄, y.Linked → Earlier x' y →
        ∃ y', Step y r y' ∧ y'.Linked ∧ Rewritten writes y y'

namespace Repeatable

variable {ρ σ : Type}

theorem congr {Step Step' : Document → ρ → Document → Prop}
    (h : ∀ x r x', Step' x r x' ↔ Step x r x') (hs : Repeatable Step) : Repeatable Step' := by
  have heq : Step' = Step := by
    funext x r x'
    exact propext (h x r x')
  rw [heq]
  exact hs

/-- A step that only looks, and still sees later what it has seen. -/
theorem of_look {Step : Document → ρ → Document → Prop}
    (h : ∀ {x r x'}, Step x r x' → x' = x ∧ ∀ {y}, Earlier x y → Step y r y) :
    Repeatable Step := by
  intro x x' r hx hstep
  obtain ⟨rfl, hlook⟩ := h hstep
  exact ⟨hx, noWrites, (Rewritten.refl x').toUpserted,
    fun y hy hxy => ⟨y, hlook hxy, hy, Rewritten.refl y⟩⟩

/-- Two steps one after the other. The second run of the first step finds what the first run of
both has left. -/
theorem comp {Step : Document → ρ → Document → Prop}
    {Next : ρ → Document → σ → Document → Prop} (hstep : Repeatable Step)
    (hnext : ∀ r, Repeatable (Next r)) :
    Repeatable fun x s x' => ∃ r x₁, Step x r x₁ ∧ Next r x₁ s x' := by
  intro x x' s hx h
  obtain ⟨r, x₁, h₁, h₂⟩ := h
  obtain ⟨hx₁, w, hw, hagain⟩ := hstep hx h₁
  obtain ⟨hx', w', hw', hagain'⟩ := hnext r hx₁ h₂
  refine ⟨hx', bothWrites w w', hw.trans hw', fun y hy hxy => ?_⟩
  obtain ⟨y₁, hy₁, hl₁, hr₁⟩ := hagain hy (hw'.toEarlier.trans hxy)
  obtain ⟨y', hy', hl', hr'⟩ := hagain' hl₁ (hxy.trans hr₁.toEarlier)
  exact ⟨y', ⟨r, y₁, hy₁, hy'⟩, hl', hr₁.trans hr'⟩

/-- A step whose answer is used in some way. -/
theorem map {Step : Document → ρ → Document → Prop} (f : ρ → σ) (hs : Repeatable Step) :
    Repeatable fun x s x' => ∃ r, f r = s ∧ Step x r x' := by
  intro x x' s hx h
  obtain ⟨r, rfl, hr⟩ := h
  obtain ⟨hx', w, hw, hagain⟩ := hs hx hr
  refine ⟨hx', w, hw, fun y hy hxy => ?_⟩
  obtain ⟨y', hy', hrest⟩ := hagain hy hxy
  exact ⟨y', ⟨r, rfl, hy'⟩, hrest⟩

end Repeatable

end Document

namespace Engine

open Document

/-! ## Single edits -/

variable {x x' y : Document}

theorem isElement_of_earlier {n : NodeId} (h : Earlier x y) (hn : n < x.size) :
    y.isElement n = x.isElement n := by
  rw [isElement_eq, isElement_eq, h.content n hn]

theorem name?_of_earlier {n : NodeId} (h : Earlier x y) (hn : n < x.size) :
    y.name? (.stored n) = x.name? (.stored n) := by
  simp only [name?, content?, h.content n hn]

theorem childNamed?_eq_some_iff {d : Document} {name : String} {n child : Node} :
    childNamed? name n d = some child ↔
      (d.name? child).any (Text.eqIgnoringCase · name) = true ∧
        ∃ before after, d.elementChildren n = before ++ child :: after ∧
          ∀ c ∈ before, (d.name? c).any (Text.eqIgnoringCase · name) = false := by
  unfold childNamed?
  rw [List.find?_eq_some_iff_append]
  simp only [Bool.not_eq_true']

/-- Element children stay the first ones. -/
theorem elementChildren_of_earlier {n : NodeId} (hx : x.Linked) (h : Earlier x y)
    (hn : n < x.size) :
    ∃ more, y.elementChildren (.stored n) = x.elementChildren (.stored n) ++ more := by
  obtain ⟨more, hmore⟩ := h.children n hn
  refine ⟨(more.filter y.isElement).map .stored, ?_⟩
  show ((y.entry n).children.filter y.isElement).map Node.stored = _
  rw [← hmore, List.filter_append, List.map_append,
    List.filter_congr fun c hc => isElement_of_earlier h (hx.lt_of_mem_children hc)]
  rfl

theorem name?_of_mem_elementChildren {n : NodeId} {c : Node} (hx : x.Linked) (h : Earlier x y)
    (hc : c ∈ x.elementChildren (.stored n)) : y.name? c = x.name? c := by
  obtain ⟨c, hmem, rfl⟩ := List.mem_map.1 hc
  exact name?_of_earlier h (hx.lt_of_mem_children (List.mem_filter.1 hmem).1)

/-- The child that was the first of its name is so in every later document. -/
theorem childNamed?_of_earlier {name : String} {n child : Node} (hx : x.Linked)
    (h : childNamed? name n x = some child) (hy : Earlier x y) :
    childNamed? name n y = some child := by
  obtain ⟨hchild, before, after, hsplit, hbefore⟩ := childNamed?_eq_some_iff.1 h
  cases n with
  | binding owner short uri => exact absurd hsplit (by simp [elementChildren])
  | stored n =>
    have hmem : ∀ c ∈ before ++ child :: after, y.name? c = x.name? c := by
      intro c hc
      exact name?_of_mem_elementChildren hx hy (hsplit ▸ hc)
    have hn : n < x.size := by
      refine lt_size_of_entry_ne fun he => ?_
      have hnone : x.elementChildren (.stored n) = [] := by
        simp [elementChildren, he, Entry.absent]
      rw [hnone] at hsplit
      simp at hsplit
    obtain ⟨more, hmore⟩ := elementChildren_of_earlier hx hy hn
    refine childNamed?_eq_some_iff.2 ⟨?_, before, after ++ more, ?_, fun c hc => ?_⟩
    · rw [hmem child (by simp), hchild]
    · rw [hmore, hsplit, List.append_assoc, List.cons_append]
    · rw [hmem c (List.mem_append_left _ hc), hbefore c hc]

/-- A child that is made because there was none of its name is the first one. -/
theorem childNamed?_appendChild {name : String} {p : NodeId} (hx : x.Linked) (hp : p < x.size)
    (h : childNamed? name (.stored p) x = none) :
    childNamed? name (.stored p) (x.appendChild p (.element (.plain name))) =
      some (.stored x.size) := by
  have hearlier := Earlier.appendChild hp (.element (.plain name))
  have hmade : ((x.appendChild p (.element (.plain name))).entry x.size).content =
      .element (.plain name) := by
    rw [entry_appendChild hp, if_pos rfl]
  have hchildren : ((x.appendChild p (.element (.plain name))).entry p).children =
      (x.entry p).children ++ [x.size] := by
    rw [entry_appendChild hp, if_neg (Nat.ne_of_lt hp), if_pos rfl]
  refine childNamed?_eq_some_iff.2 ⟨?_, x.elementChildren (.stored p), [], ?_, fun c hc => ?_⟩
  · have hname : (x.appendChild p (.element (.plain name))).name? (.stored x.size) = some name := by
      simp only [name?, content?, hmade]
      rfl
    rw [hname, Option.any_some, Text.eqIgnoringCase, beq_self_eq_true]
  · show ((_ : List NodeId).filter _).map Node.stored = _
    rw [hchildren, List.filter_append, List.map_append,
      List.filter_congr fun c hc => isElement_of_earlier hearlier (hx.lt_of_mem_children hc)]
    rw [List.filter_cons_of_pos (by rw [isElement_eq, hmade]; rfl)]
    rfl
  · rw [name?_of_mem_elementChildren hx hearlier hc]
    simpa using List.find?_eq_none.1 h c hc

/-- What is looked for and made where it is missing is found the second time. -/
theorem repeatable_ensureElement (name : String) (n : Node) :
    Repeatable fun x made x' => ensureElement name n x = .ok (made, x') := by
  intro x x' made hx h
  have hagain {y : Document} (hx' : x'.Linked) (hfound : childNamed? name n x' = some made)
      (hy : Earlier x' y) : ensureElement name n y = .ok (made, y) := by
    unfold ensureElement
    rw [childNamed?_of_earlier hx' hfound hy]
  unfold ensureElement at h
  split at h
  next child hfound =>
    cases h
    exact ⟨hx, noWrites, (Rewritten.refl x).toUpserted,
      fun y hy hxy => ⟨y, hagain hx hfound hxy, hy, Rewritten.refl y⟩⟩
  next hnone =>
    have hx' := hx.addElement h
    obtain ⟨p, rfl, rfl, rfl, hp⟩ := addElement_cases h
    have hlt : p < x.size := by
      refine lt_size_of_content fun s hs => ?_
      rcases hp with ⟨hp, -⟩ | ⟨label, hp⟩
      · rw [hp] at hs; cases hs
      · rw [hp] at hs; cases hs
    refine ⟨hx', noWrites, ⟨Earlier.appendChild hlt _, fun n => ?_⟩, fun y hy hxy => ?_⟩
    · exact attributesOf_appendChild hlt rfl n
    · exact ⟨y, hagain hx' (childNamed?_appendChild hx hlt hnone) hxy, hy, Rewritten.refl y⟩

theorem repeatable_setAttribute (name value : String) (n : Node) :
    Repeatable fun x made x' =>
      keeping (Document.setAttribute name value) n x = .ok (made, x') := by
  intro x x' made hx h
  obtain ⟨x₁, h₁, heq⟩ := map_eq_ok_iff.1 h
  cases heq
  have hx' := hx.setAttribute h₁
  have hname := (withName_eq_ok_iff.1 h₁).1
  obtain ⟨id, label, rfl, hc, rfl⟩ := setAttribute_cases h₁
  have hlt : id < x.size := lt_size_of_content fun s hs => by rw [hc] at hs; cases hs
  have hwritten := hx.rewritten_putAttribute hlt { name := .plain name, value }
  refine ⟨hx', _, hwritten.toUpserted, fun y hy hxy => ?_⟩
  -- the node is the same element in the later document
  have hlt' : id < y.size :=
    Nat.lt_of_lt_of_le hlt (Nat.le_trans hwritten.size_le hxy.size_le)
  have hcy : (y.entry id).content = .element label := by
    rw [(hwritten.toEarlier.trans hxy).content id hlt, hc]
  have hset : y.setAttribute name value (.stored id) =
      .ok (y.putAttribute id { name := .plain name, value }) := by
    refine withName_eq_ok_iff.2 ⟨hname, ?_⟩
    simp only [content?, hcy]
  refine ⟨_, ?_, hy.setAttribute hset, hy.rewritten_putAttribute hlt' _⟩
  exact map_eq_ok_iff.2 ⟨_, hset, rfl⟩

/-! ## Directives and scripts -/

theorem editEach_cons_eq_ok_iff {α β : Type}
    {edit : α → Document → Except EditError (β × Document)} {a : α} {rest : List α}
    {made : List β} : editEach edit (a :: rest) x = (.ok made, x') ↔
      ∃ b x₁, edit a x = .ok (b, x₁) ∧
        ∃ bs, b :: bs = made ∧ editEach edit rest x₁ = (.ok bs, x') := by
  rw [editEach]
  cases edit a x with
  | error e => exact iff_of_false (by simp) (by simp)
  | ok made₁ =>
    obtain ⟨b, x₁⟩ := made₁
    rcases hrest : editEach edit rest x₁ with ⟨r, d⟩
    constructor
    · intro h
      simp only [hrest] at h
      obtain ⟨hmade, rfl⟩ := Prod.mk.inj h
      obtain ⟨bs, rfl, rfl⟩ := map_eq_ok_iff.1 hmade
      exact ⟨b, x₁, rfl, bs, rfl, hrest⟩
    · intro h
      obtain ⟨b', x₂, he, bs, rfl, hbs⟩ := h
      cases he
      rw [hrest] at hbs
      cases hbs
      simp only [hrest]
      rfl

/-- Edits that are repeatable one by one are so one after the other. -/
theorem repeatable_editEach {α β : Type}
    {edit : α → Document → Except EditError (β × Document)}
    (hedit : ∀ a, Repeatable fun x made x' => edit a x = .ok (made, x')) (l : List α) :
    Repeatable fun x made x' => editEach edit l x = (.ok made, x') := by
  induction l with
  | nil =>
    refine Repeatable.of_look fun {x r x'} h => ?_
    cases h
    exact ⟨rfl, fun _ => rfl⟩
  | cons a rest ih =>
    exact Repeatable.congr (fun x r x' => editEach_cons_eq_ok_iff)
      ((hedit a).comp fun b => ih.map (b :: ·))

/-- What a directive answers with when it does not fail: the next cursor, and the cursors saved. -/
def Executes (directive : Directive) (c : Cursor Node) (saved : Stack Node) (x : Document)
    (r : Cursor Node × Stack Node) (x' : Document) : Prop :=
  execute directive c ⟨x, saved⟩ = (.ok r.1, ⟨x', r.2⟩)

theorem moved_eq_ok_iff {r : Except EditError (List Node) × Document} {s s' : State}
    {c : Cursor Node} : moved s r = (.ok c, s') ↔
      ∃ made, Cursor.ofList made = c ∧ r = (.ok made, s'.document) ∧ s'.saved = s.saved := by
  obtain ⟨r, d⟩ := r
  obtain ⟨d', saved'⟩ := s'
  cases r with
  | error e => exact iff_of_false nofun (by simp)
  | ok made =>
    constructor
    · intro h
      cases h
      exact ⟨made, rfl, rfl, rfl⟩
    · intro h
      obtain ⟨made', rfl, hr, hsaved⟩ := h
      cases hr
      cases hsaved
      rfl

theorem repeatable_moved {edit : Node → Document → Except EditError (Node × Document)}
    (hedit : ∀ n, Repeatable fun x made x' => edit n x = .ok (made, x')) (c : Cursor Node)
    (saved : Stack Node) :
    Repeatable fun x (r : Cursor Node × Stack Node) x' =>
      moved ⟨x, saved⟩ (editEach edit c.nodes x) = (.ok r.1, ⟨x', r.2⟩) := by
  refine Repeatable.congr (fun x r x' => ?_)
    ((repeatable_editEach hedit c.nodes).map fun made => (Cursor.ofList made, saved))
  rw [moved_eq_ok_iff]
  constructor
  · intro h
    obtain ⟨made, hc, hmade, hsaved⟩ := h
    exact ⟨made, Prod.ext hc hsaved.symm, hmade⟩
  · intro h
    obtain ⟨made, rfl, hmade⟩ := h
    exact ⟨made, rfl, hmade, rfl⟩

/-- The parents of some nodes are the same in every later document. -/
theorem parents_of_earlier {ascent : Ascent} {c c' : Cursor Node} (h : parents ascent c x = .ok c')
    (hxy : Earlier x y) : parents ascent c y = .ok c' := by
  obtain ⟨above, habove, rfl⟩ := map_eq_ok_iff.1 h
  refine map_eq_ok_iff.2 ⟨above, mapM_eq_ok_iff.2 ((mapM_eq_ok_iff.1 habove).imp ?_), rfl⟩
  intro n p hp
  unfold parent at hp ⊢
  split at hp
  next q hq =>
    cases hp
    rw [hxy.parent?_eq hq]
  next => cases hp

theorem repeatable_execute {directive : Directive} (h : directive.isUpsert = true)
    (c : Cursor Node) (saved : Stack Node) : Repeatable (Executes directive c saved) := by
  cases directive with
  | ensureElement name => exact repeatable_moved (repeatable_ensureElement name.raw) c saved
  | setAttribute name value =>
    exact repeatable_moved (repeatable_setAttribute name.raw value.raw) c saved
  | setNamespace uri => exact repeatable_moved (repeatable_setAttribute "xmlns" uri.raw) c saved
  | up =>
    refine Repeatable.of_look fun {x r x'} hx => ?_
    obtain ⟨hc, hs⟩ := Prod.mk.inj hx
    cases hs
    exact ⟨rfl, fun hxy => Prod.ext (parents_of_earlier hc hxy) rfl⟩
  | expect count =>
    refine Repeatable.of_look fun {x r x'} hx => ?_
    obtain ⟨c', saved'⟩ := r
    unfold Executes execute at hx ⊢
    simp only at hx ⊢
    split at hx
    next hsize =>
      cases hx
      exact ⟨rfl, fun _ => by rw [if_pos hsize]⟩
    next => cases hx
  | push =>
    refine Repeatable.of_look fun {x r x'} hx => ?_
    obtain ⟨c', saved'⟩ := r
    simp only [Executes, execute_push] at hx
    cases hx
    exact ⟨rfl, fun _ => rfl⟩
  | pop =>
    refine Repeatable.of_look fun {x r x'} hx => ?_
    obtain ⟨c', saved'⟩ := r
    cases saved with
    | nil => cases hx
    | cons top rest =>
      simp only [Executes] at hx
      cases hx
      exact ⟨rfl, fun _ => rfl⟩
  | _ => cases h

/-- What a script ends with when it does not fail. -/
def Runs (position : Nat) (script : Script) (c : Cursor Node) (saved : Stack Node) (x : Document)
    (r : Cursor Node × Stack Node) (x' : Document) : Prop :=
  runFrom position script c ⟨x, saved⟩ = (.ok r.1, ⟨x', r.2⟩)

theorem runs_cons_iff {position : Nat} {directive : Directive} {rest : Script} {c : Cursor Node}
    {saved : Stack Node} {r : Cursor Node × Stack Node} :
    Runs position (directive :: rest) c saved x r x' ↔
      ∃ r₁ x₁, Executes directive c saved x r₁ x₁ ∧
        Runs (position + 1) rest r₁.1 r₁.2 x₁ r x' := by
  unfold Runs Executes
  rw [runFrom_cons_eq_ok_iff]
  constructor
  · intro h
    obtain ⟨c₁, s₁, he, h⟩ := h
    exact ⟨(c₁, s₁.saved), s₁.document, he, h⟩
  · intro h
    obtain ⟨r₁, x₁, he, h⟩ := h
    exact ⟨r₁.1, ⟨x₁, r₁.2⟩, he, h⟩

/-- A script of such directives is repeatable, and so is each part that it begins with. -/
theorem repeatable_runFrom {script : Script} (h : ∀ directive ∈ script, directive.isUpsert = true)
    (position : Nat) (c : Cursor Node) (saved : Stack Node) :
    Repeatable (Runs position script c saved) := by
  induction script generalizing position c saved with
  | nil =>
    refine Repeatable.of_look fun {x r x'} hx => ?_
    obtain ⟨c', saved'⟩ := r
    simp only [Runs, runFrom] at hx
    cases hx
    exact ⟨rfl, fun _ => rfl⟩
  | cons directive rest ih =>
    have hrest := ih fun directive hd => h directive (List.mem_cons_of_mem _ hd)
    exact Repeatable.congr (fun x r x' => runs_cons_iff)
      ((repeatable_execute (h directive (List.mem_cons_self ..)) c saved).comp
        fun r => hrest (position + 1) r.1 r.2)

end Engine

/-! ## The second run -/

namespace Document

/-- The second document is the first with some attributes replaced by others of the same name and
value: every node is what it was, where it was, and shows the same attributes in the same order. -/
structure Renewed (d d' : Document) : Prop where
  size_le : d.size ≤ d'.size
  content : ∀ n < d.size, (d'.entry n).content = (d.entry n).content
  parent? : ∀ n < d.size, (d'.entry n).parent? = (d.entry n).parent?
  children : ∀ n < d.size, (d'.entry n).children = (d.entry n).children
  attributesOf : ∀ n, d'.attributesOf n = d.attributesOf n
  /-- A node that has been made is an attribute with a predecessor. -/
  made : ∀ n < d'.size, d.size ≤ n → ∃ p a, (d'.entry n).content = .attribute a ∧
    (d'.entry n).parent? = some p ∧ ∃ b ∈ d.attributesOf p, b.name = a.name

variable {d d' : Document}

/-- What is shown of a document does not tell which numbers its attributes have. -/
theorem Renewed.trees_eq (h : Renewed d d') (hd : d.Linked) : d'.trees = d.trees := by
  have hsame : ∀ n : Nat, 0 ≤ n → n < d.size → SameAt d d' n := fun n _ hn =>
    ⟨h.content n hn, h.children n hn, h.attributesOf n⟩
  exact treesBelow_congr hd h.size_le hsame (h.children root hd.root_lt) fun _ _ => Nat.zero_le _

theorem Renewed.render_eq (h : Renewed d d') (hd : d.Linked) (options : RenderOptions) :
    d'.render options = d.render options := by
  unfold render
  rw [h.trees_eq hd]

/-- What a step has made of a document, it leaves as it is when it is taken again. -/
theorem Rewritten.renewed {d₀ d₁ d₂ : Document} {writes : NodeId → List Attribute}
    (h₁ : Upserted writes d₀ d₁) (h₂ : Rewritten writes d₁ d₂) : Renewed d₁ d₂ where
  size_le := h₂.size_le
  content := h₂.content
  parent? := h₂.parent?
  children := h₂.children_eq
  attributesOf n := by
    rw [h₂.attributesOf, h₁.attributesOf]
    exact Attribute.putAll_putAll
  made n hn hle := by
    obtain ⟨p, a, ha, hc, hp⟩ := h₂.made n hn hle
    refine ⟨p, a, hc, hp, ?_⟩
    rw [h₁.attributesOf]
    exact Attribute.exists_name_of_mem ha

end Document

namespace Engine

open Document

/-- A script that looks for elements, makes those that are missing, sets attributes, moves up and
saves cursors, and that has not failed on a document, does not fail when it is run again on the
result. It comes to the same nodes after every directive, and the document stays the same but for
attributes that are replaced by equal ones; so it has the same trees and the same text. -/
theorem upsert_again {script : Script} {d : Document} (hd : d.Reachable)
    (hscript : ∀ directive ∈ script, directive.isUpsert = true)
    (h : (apply script d).1 = .ok ()) :
    let d₁ := (apply script d).2
    let d₂ := (apply script d₁).2
    (apply script d₁).1 = .ok () ∧
      (∀ a, a <+: script → ∃ c saved x y,
        runFrom 1 a start { document := d } = (.ok c, ⟨x, saved⟩) ∧
          runFrom 1 a start { document := d₁ } = (.ok c, ⟨y, saved⟩)) ∧
      Renewed d₁ d₂ ∧ d₂.trees = d₁.trees ∧
      ∀ options, d₂.render options = d₁.render options := by
  intro d₁ d₂
  obtain ⟨c, s, hrun⟩ := apply_eq_ok_iff.1 h
  have hd₁ : d₁ = s.document := congrArg (fun r => r.2.document) hrun
  have hlinked := hd.linked
  -- the whole script, run again on what it has made
  have hrun' : Runs 1 script start [] d (c, s.saved) d₁ := by
    rw [hd₁]
    exact hrun
  obtain ⟨hl₁, writes, hfirst, hagain⟩ := repeatable_runFrom hscript 1 start [] hlinked hrun'
  obtain ⟨y, hy, -, hsecond⟩ := hagain hl₁ (Earlier.refl d₁)
  have hd₂ : d₂ = y := congrArg (fun r => r.2.document) hy
  have hrenewed : Renewed d₁ d₂ := by
    rw [hd₂]
    exact hsecond.renewed hfirst
  refine ⟨apply_eq_ok_iff.2 ⟨c, _, hy⟩, fun a ha => ?_, hrenewed, hrenewed.trees_eq hl₁,
    hrenewed.render_eq hl₁⟩
  -- the document that a part of the script has led to comes before the last one
  obtain ⟨b, rfl⟩ := ha
  obtain ⟨c₁, s₁, ha⟩ := runFrom_of_prefix (List.prefix_append a b) hrun
  have hrest : Runs (1 + a.length) b c₁ s₁.saved s₁.document (c, s.saved) d₁ := by
    rw [runFrom_append_of_ok ha] at hrun
    rw [hd₁]
    exact hrun
  have hscript_a : ∀ directive ∈ a, directive.isUpsert = true := fun directive hm =>
    hscript directive (List.mem_append_left _ hm)
  have hscript_b : ∀ directive ∈ b, directive.isUpsert = true := fun directive hm =>
    hscript directive (List.mem_append_right _ hm)
  have ha' : Runs 1 a start [] d (c₁, s₁.saved) s₁.document := ha
  obtain ⟨hl, _, -, hagain⟩ := repeatable_runFrom hscript_a 1 start [] hlinked ha'
  obtain ⟨-, _, hlater, -⟩ := repeatable_runFrom hscript_b _ c₁ s₁.saved hl hrest
  obtain ⟨y', hy', -⟩ := hagain hl₁ hlater.toEarlier
  exact ⟨c₁, s₁.saved, s₁.document, y', ha, hy'⟩

/-- An element that is there in another case, one that is made, and an attribute that is set twice,
with another one between. -/
theorem upsert_again_nested :
    let name (s : String) (h : Literal.check s.toList = .ok ()) : Arg :=
      ⟨s, Literal.check_eq_ok_iff.1 h⟩
    let script : Script := [.ensureElement (name "A" rfl),
      .setAttribute (name "x" rfl) (name "2" rfl), .push, .ensureElement (name "b" rfl),
      .setNamespace (name "u" rfl), .up, .ensureElement (name "c" rfl), .expect 1, .pop,
      .setAttribute (name "y" rfl) (name "3" rfl), .setAttribute (name "x" rfl) (name "4" rfl)]
    ∃ d, Markup.read? "<a><B/></a>" = some d ∧ d.Reachable ∧
      (∀ directive ∈ script, directive.isUpsert = true) ∧ (apply script d).1 = .ok () ∧
      let d₁ := (apply script d).2
      let d₂ := (apply script d₁).2
      (apply script d₁).1 = .ok () ∧ Renewed d₁ d₂ ∧ d₂.trees = d₁.trees ∧
        d₁.elementChildren (.stored 1) = [.stored 2, .stored 5] ∧ d₁.size < d₂.size := by
  intro name script
  obtain ⟨d, hd⟩ := Option.isSome_iff_exists.1
    (by decide +kernel : (Markup.read? "<a><B/></a>").isSome = true)
  have hruns : (Markup.read? "<a><B/></a>").all (fun d =>
      let d₁ := (apply script d).2
      (apply script d).1 = .ok () ∧ d₁.elementChildren (.stored 1) = [.stored 2, .stored 5] ∧
        d₁.size < (apply script d₁).2.size) = true := by
    decide +kernel
  rw [hd] at hruns
  obtain ⟨hok, hchildren, hsize⟩ := of_decide_eq_true hruns
  have hscript : ∀ directive ∈ script, directive.isUpsert = true := by decide +kernel
  obtain ⟨hagain, -, hrenewed, htrees, -⟩ := upsert_again (.read hd) hscript hok
  exact ⟨d, hd, .read hd, hscript, hok, hagain, hrenewed, htrees, hchildren, hsize⟩

end Engine

end XmlScript
