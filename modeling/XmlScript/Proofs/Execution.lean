import XmlScript.Engine
import XmlScript.Proofs.Edit
import XmlScript.Proofs.Except

/-!
# What directives keep

A directive changes a document by single edits, one node after the other, and by nothing else;
`editAt` is the edit that it makes at one node. `ComesTo` says all that a directive can come to in
terms of these edits (`comesTo_execute`): they are granted at every current node, or the directive
is `Stopped` at one of them, or it is refused before the first.

So what every edit keeps, a directive keeps, however it ends (`execute_keeps`, which asks about the
edits at the current nodes only), and a script keeps what its directives keep (`Keeps.apply`). A
property that no edit of `XmlScript.Proofs.Edit` breaks is kept by every directive
(`Keeps.of_edits`), so directives keep a document linked (`keeps_linked`).
-/

namespace XmlScript

namespace Engine

variable {d d' : Document}

/-- What a directive does to a document at one node. Queries are asked in the document `origin`, in
which the directive starts. -/
def editAt (directive : Directive) (origin : Document) (n : Node) (d : Document) :
    Except ExecutionError Document :=
  let computed (query : String) (edit : String → Node → Document → Except EditError Document) :=
    ((Query.evaluateText query n origin).mapError .query).bind fun text =>
      (edit text n d).mapError .edit
  match directive with
  | .addElement name => ((d.addElement name.raw n).map (·.2)).mapError .edit
  | .ensureElement name => ((ensureElement name.raw n d).map (·.2)).mapError .edit
  | .remove => (d.remove n).mapError .edit
  | .setText text => (d.setText text.raw n).mapError .edit
  | .setAttribute name value => (d.setAttribute name.raw value.raw n).mapError .edit
  | .computeAttribute name query => computed query.raw (Document.setAttribute name.raw)
  | .computeText query => computed query.raw Document.setText
  | .addComment text => (d.addComment text.raw n).mapError .edit
  | .addCData text => (d.addCData text.raw n).mapError .edit
  | .addInstruction target data => (d.addInstruction target.raw data.raw n).mapError .edit
  | .setNamespace uri => (d.setAttribute "xmlns" uri.raw n).mapError .edit
  | .up | .select _ | .expect _ | .push | .pop => .ok d

/-- Every edit that a directive may make keeps a property. -/
structure Keeps (P : Document → Prop) (directive : Directive) : Prop where
  edit : ∀ {origin n d d'}, editAt directive origin n d = .ok d' → P d → P d'
  /-- With no current node an instruction goes before the document element. -/
  insert : ∀ {target data d d'}, directive = .addInstruction target data →
    d.insertInstruction target.raw data.raw = .ok d' → P d → P d'

/-! ## Sequences of edits -/

/-- A directive was refused at one of the current nodes: `d` shows its edits at the nodes before
that one and no other. -/
def Stopped (directive : Directive) (c : Cursor Node) (origin d : Document) (e : ExecutionError) :
    Prop :=
  ∃ before n after, c.nodes = before ++ n :: after ∧
    before.foldlM (fun d n => editAt directive origin n d) origin = .ok d ∧
      editAt directive origin n d = .error e

/-- What the edits at some nodes keep, they keep together. -/
theorem foldlM_keeps {P : Document → Prop} {directive : Directive} {origin : Document}
    {nodes : List Node}
    (hedit : ∀ n ∈ nodes, ∀ {d d'}, editAt directive origin n d = .ok d' → P d → P d')
    (h : nodes.foldlM (fun d n => editAt directive origin n d) d = .ok d') (hd : P d) : P d' := by
  induction nodes generalizing d with
  | nil =>
    cases h
    exact hd
  | cons n rest ih =>
    rw [foldlM_cons_eq] at h
    obtain ⟨d₁, h₁, h⟩ := bind_eq_ok_iff.1 h
    exact ih (fun n hn => hedit n (List.mem_cons_of_mem _ hn)) h
      (hedit n (List.mem_cons_self ..) h₁ hd)

/-- A directive that edits nothing at any node leaves the document as it is. -/
theorem foldlM_of_look {directive : Directive} {origin : Document}
    (hlook : ∀ n, editAt directive origin n d = .ok d) (nodes : List Node) :
    nodes.foldlM (fun d n => editAt directive origin n d) d = .ok d := by
  induction nodes with
  | nil => rfl
  | cons n rest ih => rw [foldlM_cons_eq, hlook n]; exact ih

/-- A sequence of edits makes all of them, or those before the first refused one. The elements stand
for nodes, at which a directive makes these edits. -/
theorem editEach_cases {α β : Type} {directive : Directive} {origin : Document}
    {edit : α → Document → Except EditError (β × Document)} {xs : List α} (node : α → Node)
    (hedit : ∀ x ∈ xs, ∀ d, editAt directive origin (node x) d =
      ((edit x d).map (·.2)).mapError .edit) (d : Document) :
    (∃ made d', editEach edit xs d = (.ok made, d') ∧
      (xs.map node).foldlM (fun d n => editAt directive origin n d) d = .ok d') ∨
    ∃ e d', editEach edit xs d = (.error e, d') ∧
      ∃ before n after, xs.map node = before ++ n :: after ∧
        before.foldlM (fun d n => editAt directive origin n d) d = .ok d' ∧
          editAt directive origin n d' = .error (.edit e) := by
  induction xs generalizing d with
  | nil => exact Or.inl ⟨[], d, rfl, rfl⟩
  | cons x rest ih =>
    have hx := hedit x (List.mem_cons_self ..) d
    rw [List.map_cons]
    cases he : edit x d with
    | error e =>
      rw [he] at hx
      exact Or.inr ⟨e, d, by rw [editEach, he], [], node x, rest.map node, rfl, rfl, hx⟩
    | ok answer =>
      obtain ⟨y, d₁⟩ := answer
      rw [he] at hx
      rcases ih (fun x' hx' => hedit x' (List.mem_cons_of_mem _ hx')) d₁ with
        ⟨made, d', hmade, hrest⟩ | ⟨e, d', hstop, before, n, after, hsplit, hbefore, hn⟩
      · refine Or.inl ⟨y :: made, d', ?_, ?_⟩
        · rw [editEach, he]
          simp only [hmade]
          rfl
        · rw [foldlM_cons_eq, hx]
          exact hrest
      · refine Or.inr ⟨e, d', ?_, node x :: before, n, after, ?_, ?_, hn⟩
        · rw [editEach, he]
          simp only [hstop]
          rfl
        · rw [hsplit, List.cons_append]
        · rw [foldlM_cons_eq, hx]
          exact hbefore

theorem map_keeping {α : Type} {edit : α → Document → Except EditError Document} {x : α} :
    (keeping edit x d).map (·.2) = edit x d := by
  unfold keeping
  cases edit x d <;> rfl

theorem keeping_eq_ok_iff {α : Type} {edit : α → Document → Except EditError Document} {x y : α} :
    keeping edit x d = .ok (y, d') ↔ x = y ∧ edit x d = .ok d' := by
  unfold keeping
  rw [map_eq_ok_iff]
  constructor
  · intro h
    obtain ⟨r, hr, he⟩ := h
    obtain ⟨rfl, rfl⟩ := Prod.mk.inj he
    exact ⟨rfl, hr⟩
  · intro h
    obtain ⟨rfl, hr⟩ := h
    exact ⟨d', hr, rfl⟩

/-- The texts of a query are those that it has at the nodes, in their order. -/
theorem texts_of_mapM {query : String} {nodes : List Node} {pairs : List (Node × String)}
    (h : nodes.mapM (fun n => (Query.evaluateText query n d).map fun text => (n, text)) =
      .ok pairs) :
    pairs.map (·.1) = nodes ∧ ∀ x ∈ pairs, Query.evaluateText query x.1 d = .ok x.2 := by
  have htexts := mapM_eq_ok_iff.1 h
  clear h
  induction htexts with
  | nil => exact ⟨rfl, nofun⟩
  | cons hx _ ih =>
    obtain ⟨text, htext, rfl⟩ := map_eq_ok_iff.1 hx
    refine ⟨by rw [List.map_cons, ih.1], fun x hx => ?_⟩
    rcases List.mem_cons.1 hx with rfl | hx
    · exact htext
    · exact ih.2 x hx

/-! ## Directives -/

/-- What a directive can come to: it is refused before it edits anything, it makes its edits at all
the current nodes, or it is stopped at one of them. Only an instruction without a current node edits
elsewhere. -/
inductive ComesTo (directive : Directive) (c : Cursor Node) (s : State) : Outcome → Prop
  | refused {e : ExecutionError} (he : ∀ e', e ≠ .edit e') : ComesTo directive c s (.error e, s)
  | edited {c' : Cursor Node} {s' : State}
    (h : c.nodes.foldlM (fun d n => editAt directive s.document n d) s.document =
      .ok s'.document) : ComesTo directive c s (.ok c', s')
  | stopped {e : EditError} {d : Document} (h : Stopped directive c s.document d (.edit e)) :
    ComesTo directive c s (.error (.edit e), { s with document := d })
  | inserted {target data : Arg} {c' : Cursor Node} {d : Document}
    (hd : directive = .addInstruction target data) (hempty : c.isEmpty = true)
    (h : s.document.insertInstruction target.raw data.raw = .ok d) :
    ComesTo directive c s (.ok c', { s with document := d })
  | misnamed {target data : Arg} {e : EditError} (hd : directive = .addInstruction target data)
    (hempty : c.isEmpty = true)
    (h : s.document.insertInstruction target.raw data.raw = .error e) :
    ComesTo directive c s (.error (.edit e), s)

section

variable {P : Document → Prop} {directive : Directive} {c : Cursor Node} {s : State}

/-- Which nodes become current makes no difference. -/
theorem ComesTo.map {r : Except ExecutionError (Cursor Node)} {s' : State}
    (h : ComesTo directive c s (r, s')) (f : Cursor Node → Cursor Node) :
    ComesTo directive c s (r.map f, s') := by
  cases h with
  | refused he => exact .refused he
  | edited h => exact .edited h
  | stopped h => exact .stopped h
  | inserted hd hempty h => exact .inserted hd hempty h
  | misnamed hd hempty h => exact .misnamed hd hempty h

/-- Edits whose elements stand for the current nodes. -/
theorem comesTo_editEach {α β : Type} {edit : α → Document → Except EditError (β × Document)}
    {xs : List α} {node : α → Node} (hnodes : xs.map node = c.nodes)
    (hedit : ∀ x ∈ xs, ∀ d, editAt directive s.document (node x) d =
      ((edit x d).map (·.2)).mapError .edit) (answer : List β → List Node) :
    ComesTo directive c s (moved s ((editEach edit xs s.document).1.map answer,
      (editEach edit xs s.document).2)) := by
  rcases editEach_cases node hedit s.document with
    ⟨made, d', hmade, hall⟩ | ⟨e, d', hstop, before, n, after, hsplit, hbefore, hn⟩
  · rw [hmade]
    rw [hnodes] at hall
    exact .edited hall
  · rw [hstop]
    rw [hnodes] at hsplit
    exact .stopped ⟨before, n, after, hsplit, hbefore, hn⟩

theorem comesTo_moved {edit : Node → Document → Except EditError (Node × Document)}
    (hedit : ∀ n d, editAt directive s.document n d = ((edit n d).map (·.2)).mapError .edit) :
    ComesTo directive c s (moved s (editEach edit c.nodes s.document)) := by
  have h := comesTo_editEach (List.map_id' c.nodes) (fun n _ => hedit n) fun made => made
  rcases hr : editEach edit c.nodes s.document with ⟨r, d⟩
  rw [hr] at h
  cases r with
  | error e => exact h
  | ok made => exact h

theorem comesTo_editNodes {edit : Node → Document → Except EditError Document}
    (hedit : ∀ n d, editAt directive s.document n d = (edit n d).mapError .edit) :
    ComesTo directive c s (editNodes edit c s) :=
  comesTo_moved fun n d => by rw [hedit, map_keeping]

theorem comesTo_editComputed {query : String}
    {edit : String → Node → Document → Except EditError Document}
    (hedit : ∀ n d, editAt directive s.document n d =
      ((Query.evaluateText query n s.document).mapError .query).bind fun text =>
        (edit text n d).mapError .edit) :
    ComesTo directive c s (editComputed query edit c s) := by
  unfold editComputed
  simp only
  split
  next => exact .refused nofun
  next pairs hpairs =>
    obtain ⟨hnodes, htexts⟩ := texts_of_mapM hpairs
    refine comesTo_editEach hnodes (fun x hx d => ?_) _
    rw [hedit, htexts x hx, map_keeping]
    rfl

theorem parents_eq_error {ascent : Ascent} {e : ExecutionError}
    (h : parents ascent c d = .error e) : ∃ path, e = .noParent ascent path := by
  obtain ⟨n, -, hn⟩ := exists_of_mapM_eq_error (map_eq_error_iff.1 h)
  unfold parent at hn
  split at hn
  next => cases hn
  next =>
    cases hn
    exact ⟨_, rfl⟩

/-- A directive that edits nothing either fails for another reason or leaves the document as it
is. -/
theorem comesTo_look (hlook : ∀ n, editAt directive s.document n s.document = .ok s.document)
    {r : Except ExecutionError (Cursor Node)} (hr : ∀ e', r ≠ .error (.edit e')) :
    ComesTo directive c s (r, s) := by
  cases r with
  | error e => exact .refused fun e' he => hr e' (he ▸ rfl)
  | ok c' => exact .edited (foldlM_of_look hlook _)

/-- Whatever comes of a directive is one of these. -/
theorem comesTo_execute (directive : Directive) (c : Cursor Node) (s : State) :
    ComesTo directive c s (execute directive c s) := by
  cases directive with
  | addElement _ | ensureElement _ => exact comesTo_moved fun _ _ => rfl
  | setText _ | setAttribute _ _ | addComment _ | addCData _ | setNamespace _ =>
    exact comesTo_editNodes fun _ _ => rfl
  | computeAttribute _ _ | computeText _ => exact comesTo_editComputed fun _ _ => rfl
  | remove =>
    simp only [execute]
    split
    next e he =>
      obtain ⟨path, rfl⟩ := parents_eq_error he
      exact .refused nofun
    next above _ => exact (comesTo_editNodes fun _ _ => rfl).map fun _ => above
  | addInstruction target data =>
    simp only [execute]
    split
    next hempty =>
      split
      next he => exact .misnamed rfl hempty he
      next he => exact .inserted rfl hempty he
    next => exact comesTo_editNodes fun _ _ => rfl
  | up =>
    refine comesTo_look (fun _ => rfl) fun e' he => ?_
    obtain ⟨path, hpath⟩ := parents_eq_error he
    cases hpath
  | select query =>
    refine comesTo_look (fun _ => rfl) fun e' he => ?_
    obtain ⟨q, -, hq⟩ := mapError_eq_error_iff.1 (map_eq_error_iff.1 he)
    cases hq
  | expect count =>
    simp only [execute]
    split
    next => exact .edited (foldlM_of_look (fun _ => rfl) _)
    next => exact .refused nofun
  | push => exact .edited (foldlM_of_look (fun _ => rfl) _)
  | pop =>
    simp only [execute]
    split
    next => exact .edited (foldlM_of_look (fun _ => rfl) _)
    next => exact .refused nofun

/-- What its edits at the current nodes keep, a directive keeps, however it ends. -/
theorem execute_keeps
    (hedit : ∀ n ∈ c.nodes, ∀ {d d'}, editAt directive s.document n d = .ok d' → P d → P d')
    (hinsert : ∀ target data d', directive = .addInstruction target data → c.isEmpty = true →
      s.document.insertInstruction target.raw data.raw = .ok d' → P d')
    (hs : P s.document) : P (execute directive c s).2.document := by
  have h := comesTo_execute directive c s
  generalize execute directive c s = out at h ⊢
  cases h with
  | refused | misnamed => exact hs
  | edited h => exact foldlM_keeps hedit h hs
  | stopped h =>
    obtain ⟨before, n, after, hsplit, hbefore, -⟩ := h
    refine foldlM_keeps (fun n hn {_ _} => hedit n ?_) hbefore hs
    rw [hsplit]
    exact List.mem_append_left _ hn
  | inserted hd hempty h => exact hinsert _ _ _ hd hempty h

end

namespace Keeps

variable {P : Document → Prop} {directive : Directive} {s : State}

/-- What its edits keep, a directive keeps, however it ends. -/
theorem execute (h : Keeps P directive) (c : Cursor Node) (hs : P s.document) :
    P (Engine.execute directive c s).2.document :=
  execute_keeps (fun _ _ {_ _} => h.edit) (fun _ _ _ hd _ he => h.insert hd he hs) hs

/-- What the edits of all its directives keep, a script keeps, however far it comes. -/
theorem runFrom {script : Script} (h : ∀ directive ∈ script, Keeps P directive) (position : Nat)
    (c : Cursor Node) (hs : P s.document) : P (Engine.runFrom position script c s).2.document := by
  induction script generalizing position c s with
  | nil => exact hs
  | cons directive rest ih =>
    have hstep := (h directive (List.mem_cons_self ..)).execute c hs
    unfold Engine.runFrom
    split
    next he =>
      rw [he] at hstep
      exact ih (fun d hd => h d (List.mem_cons_of_mem _ hd)) _ _ hstep
    next he =>
      rw [he] at hstep
      exact hstep

theorem apply {script : Script} (h : ∀ directive ∈ script, Keeps P directive) (hd : P d) :
    P (Engine.apply script d).2 :=
  runFrom (s := { document := d }) h 1 start hd

end Keeps

/-! ## What no edit breaks -/

/-- What an edit keeps does not depend on the text that a query has. -/
theorem edit_of_computed {query : String} {n : Node} {origin : Document}
    {edit : String → Node → Document → Except EditError Document}
    (h : (((Query.evaluateText query n origin).mapError ExecutionError.query).bind fun text =>
      (edit text n d).mapError .edit) = .ok d') : ∃ text, edit text n d = .ok d' := by
  obtain ⟨text, -, ht⟩ := bind_eq_ok_iff.1 h
  exact ⟨text, mapError_eq_ok_iff.1 ht⟩

/-- An element that is looked for is there, or is made. -/
theorem ensureElement_cases {name : String} {n made : Node}
    (h : ensureElement name n d = .ok (made, d')) :
    (childNamed? name n d = some made ∧ d' = d) ∨
      (childNamed? name n d = none ∧ d.addElement name n = .ok (made, d')) := by
  unfold ensureElement at h
  split at h
  next hc =>
    cases h
    exact Or.inl ⟨hc, rfl⟩
  next hc => exact Or.inr ⟨hc, h⟩

/-- What no edit that it may make breaks, a directive does not break. Only of comments and
instructions it matters which ones these are. -/
theorem Keeps.of_each {P : Document → Prop} {directive : Directive}
    (haddElement : ∀ {name n made d d'}, Document.addElement name n d = .ok (made, d') →
      P d → P d')
    (hremove : ∀ {n d d'}, Document.remove n d = .ok d' → P d → P d')
    (hsetText : ∀ {text n d d'}, Document.setText text n d = .ok d' → P d → P d')
    (hsetAttribute : ∀ {name value n d d'}, Document.setAttribute name value n d = .ok d' →
      P d → P d')
    (haddCData : ∀ {text n d d'}, Document.addCData text n d = .ok d' → P d → P d')
    (haddComment : ∀ {text n d d'}, directive = .addComment text →
      Document.addComment text.raw n d = .ok d' → P d → P d')
    (haddInstruction : ∀ {target data n d d'}, directive = .addInstruction target data →
      Document.addInstruction target.raw data.raw n d = .ok d' → P d → P d')
    (hinsert : ∀ {target data d d'}, directive = .addInstruction target data →
      Document.insertInstruction target.raw data.raw d = .ok d' → P d → P d') :
    Keeps P directive where
  insert := hinsert
  edit {origin n d d'} he h := by
    cases directive with
    | addElement name =>
      obtain ⟨⟨made, d₁⟩, hadd, rfl⟩ := map_eq_ok_iff.1 (mapError_eq_ok_iff.1 he)
      exact haddElement hadd h
    | ensureElement name =>
      obtain ⟨⟨made, d₁⟩, hensure, rfl⟩ := map_eq_ok_iff.1 (mapError_eq_ok_iff.1 he)
      rcases ensureElement_cases hensure with ⟨-, rfl⟩ | ⟨-, hadd⟩
      · exact h
      · exact haddElement hadd h
    | remove => exact hremove (mapError_eq_ok_iff.1 he) h
    | setText text => exact hsetText (mapError_eq_ok_iff.1 he) h
    | setAttribute name value => exact hsetAttribute (mapError_eq_ok_iff.1 he) h
    | computeAttribute name query =>
      obtain ⟨text, he⟩ := edit_of_computed he
      exact hsetAttribute he h
    | computeText query =>
      obtain ⟨text, he⟩ := edit_of_computed he
      exact hsetText he h
    | addComment text => exact haddComment rfl (mapError_eq_ok_iff.1 he) h
    | addCData text => exact haddCData (mapError_eq_ok_iff.1 he) h
    | addInstruction target data => exact haddInstruction rfl (mapError_eq_ok_iff.1 he) h
    | setNamespace uri => exact hsetAttribute (mapError_eq_ok_iff.1 he) h
    | up | select _ | expect _ | push | pop =>
      cases he
      exact h

/-- What no edit breaks, no directive breaks. -/
theorem Keeps.of_edits {P : Document → Prop} (hP : Document.KeptByEdits P) (directive : Directive) :
    Keeps P directive :=
  .of_each hP.addElement hP.remove hP.setText hP.setAttribute hP.addCData
    (fun _ => hP.addComment) (fun _ => hP.addInstruction) (fun _ => hP.insertInstruction)

theorem keeps_linked (directive : Directive) : Keeps Document.Linked directive :=
  .of_edits Document.keptByEdits_linked directive

end Engine

end XmlScript
