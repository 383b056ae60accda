import XmlScript.Proofs.Execution

/-!
# Directives that fail

A directive that edits stops at the first node where its edit is refused, and then `Stopped` says
what is left of its run over the current nodes. Of these refusals, that of a name is the same at
every node, because names are looked at first; where an edit can do without the name it changes
nothing (`eq_of_invalidName`). So a directive whose name is refused has changed nothing either, and
of all that a directive can come to (`ComesTo`), the failures either leave no trace or leave the
edits before them (`execute_error_cases`), which `failure_leaves_edits_before` sorts by their
errors.
-/

namespace XmlScript

/-- Whether some nodes may have been edited before a failure: it is a refusal that depends on the
node. -/
def ExecutionError.mayFollowEdits : ExecutionError → Bool
  | edit (.unsupported _ _) | edit (.duplicateDocumentElement _) | edit (.detached _) => true
  | edit (.invalidName _) | noParent _ _ | emptyStack | cardinality _ _ | query _ => false

namespace Engine

variable {directive : Directive} {c : Cursor Node} {s s' : State} {e : ExecutionError}
  {d d' : Document}

/-! ## Names -/

section

variable {name found : String} {n : Node}

/-- Only a name that is none is refused as such, and then the edit is not begun. -/
theorem isValid_of_withName {α : Type} {edit : Except EditError α}
    (hedit : edit ≠ .error (.invalidName found))
    (h : Document.withName name edit = .error (.invalidName found)) :
    Name.isValid name = false := by
  unfold Document.withName at h
  split at h
  next => exact absurd h hedit
  next hn => exact Bool.eq_false_iff.2 hn

theorem isValid_of_addElement (h : d.addElement name n = .error (.invalidName found)) :
    Name.isValid name = false := by
  refine isValid_of_withName (fun he => ?_) h
  simp only at he
  split at he
  next =>
    split at he
    next => cases he
    next => cases he
  next => cases he
  next => cases he

theorem isValid_of_setAttribute {value : String}
    (h : d.setAttribute name value n = .error (.invalidName found)) :
    Name.isValid name = false := by
  refine isValid_of_withName (fun he => ?_) h
  split at he
  next => cases he
  next => cases he

theorem isValid_of_addInstruction {data : String}
    (h : d.addInstruction name data n = .error (.invalidName found)) :
    Name.isValid name = false := by
  refine isValid_of_withName (fun he => ?_) h
  split at he
  next => cases he
  next => cases he
  next => cases he

theorem remove_ne_invalidName : d.remove n ≠ .error (.invalidName found) := by
  intro h
  unfold Document.remove at h
  split at h
  next => cases h
  next =>
    split at h
    next => cases h
    next => cases h
    next => cases h

theorem setText_ne_invalidName {text : String} :
    d.setText text n ≠ .error (.invalidName found) := by
  intro h
  unfold Document.setText at h
  split at h
  next => cases h
  next => cases h
  next =>
    split at h
    next => cases h
    next => cases h
  next => cases h

theorem addComment_ne_invalidName {text : String} :
    d.addComment text n ≠ .error (.invalidName found) := by
  intro h
  unfold Document.addComment at h
  split at h
  next => cases h
  next => cases h
  next => cases h

theorem addCData_ne_invalidName {text : String} :
    d.addCData text n ≠ .error (.invalidName found) := by
  intro h
  unfold Document.addCData at h
  split at h
  next => cases h
  next => cases h

/-- The name that a directive gives to what it makes. -/
def nameOf? : Directive → Option String
  | .addElement name | .ensureElement name | .setAttribute name _ | .computeAttribute name _ =>
    some name.raw
  | .addInstruction target _ => some target.raw
  | .setNamespace _ => some "xmlns"
  | .remove | .setText _ | .computeText _ | .addComment _ | .addCData _ | .up | .select _
  | .expect _ | .push | .pop => none

theorem mapError_edit_eq {r : Except EditError Document} {e' : EditError}
    (h : r.mapError ExecutionError.edit = .error (.edit e')) : r = .error e' := by
  obtain ⟨e₁, h₁, he⟩ := mapError_eq_error_iff.1 h
  rw [h₁, ExecutionError.edit.inj he]

/-- A refused name is that of the directive, which is no name then. -/
theorem isValid_of_editAt {origin : Document}
    (h : editAt directive origin n d = .error (.edit (.invalidName found))) :
    ∃ name, nameOf? directive = some name ∧ Name.isValid name = false := by
  cases directive with
  | addElement name =>
    exact ⟨_, rfl, isValid_of_addElement (map_eq_error_iff.1 (mapError_edit_eq h))⟩
  | ensureElement name =>
    have he := map_eq_error_iff.1 (mapError_edit_eq h)
    unfold ensureElement at he
    split at he
    next => cases he
    next => exact ⟨_, rfl, isValid_of_addElement he⟩
  | setAttribute name value => exact ⟨_, rfl, isValid_of_setAttribute (mapError_edit_eq h)⟩
  | addInstruction target data => exact ⟨_, rfl, isValid_of_addInstruction (mapError_edit_eq h)⟩
  | setNamespace uri => exact ⟨_, rfl, isValid_of_setAttribute (mapError_edit_eq h)⟩
  | computeAttribute name query =>
    rcases bind_eq_error_iff.1 h with hq | ⟨text, -, ht⟩
    · obtain ⟨q, -, hq⟩ := mapError_eq_error_iff.1 hq
      cases hq
    · exact ⟨_, rfl, isValid_of_setAttribute (mapError_edit_eq ht)⟩
  | computeText query =>
    rcases bind_eq_error_iff.1 h with hq | ⟨text, -, ht⟩
    · obtain ⟨q, -, hq⟩ := mapError_eq_error_iff.1 hq
      cases hq
    · exact absurd (mapError_edit_eq ht) setText_ne_invalidName
  | remove => exact absurd (mapError_edit_eq h) remove_ne_invalidName
  | setText text => exact absurd (mapError_edit_eq h) setText_ne_invalidName
  | addComment text => exact absurd (mapError_edit_eq h) addComment_ne_invalidName
  | addCData text => exact absurd (mapError_edit_eq h) addCData_ne_invalidName
  | up | select _ | expect _ | push | pop => cases h

theorem withName_ne_ok {α : Type} {edit : Except EditError α} {r : α}
    (hn : Name.isValid name = false) : Document.withName name edit ≠ .ok r := by
  intro h
  rw [(Document.withName_eq_ok_iff.1 h).1] at hn
  cases hn

/-- A directive that has no name to give changes nothing where it is granted. -/
theorem eq_of_not_isValid {origin : Document} (hname : nameOf? directive = some name)
    (hn : Name.isValid name = false) (h : editAt directive origin n d = .ok d') : d' = d := by
  cases directive with
  | addElement _ =>
    cases hname
    obtain ⟨r, hr, -⟩ := map_eq_ok_iff.1 (mapError_eq_ok_iff.1 h)
    exact absurd hr (withName_ne_ok hn)
  | ensureElement _ =>
    cases hname
    obtain ⟨r, hr, rfl⟩ := map_eq_ok_iff.1 (mapError_eq_ok_iff.1 h)
    unfold ensureElement at hr
    split at hr
    next =>
      -- the child that is looked for is there already
      cases hr
      rfl
    next => exact absurd hr (withName_ne_ok hn)
  | setAttribute _ _ | addInstruction _ _ | setNamespace _ =>
    cases hname
    exact absurd (mapError_eq_ok_iff.1 h) (withName_ne_ok hn)
  | computeAttribute _ _ =>
    cases hname
    obtain ⟨text, -, ht⟩ := bind_eq_ok_iff.1 h
    exact absurd (mapError_eq_ok_iff.1 ht) (withName_ne_ok hn)
  | remove | setText _ | computeText _ | addComment _ | addCData _ | up | select _ | expect _
  | push | pop => cases hname

/-- A directive whose name is refused has changed nothing before. -/
theorem Stopped.eq_of_invalidName {origin : Document}
    (h : Stopped directive c origin d (.edit (.invalidName found))) : d = origin := by
  obtain ⟨before, n, after, -, hbefore, hn⟩ := h
  obtain ⟨name, hname, hvalid⟩ := isValid_of_editAt hn
  exact foldlM_keeps (P := (· = origin))
    (fun _ _ {_ _} he hd => (eq_of_not_isValid hname hvalid he).trans hd) hbefore rfl

end

/-! ## Every way to fail -/

theorem insertInstruction_eq_error {target data : String} {e : EditError}
    (h : d.insertInstruction target data = .error e) : e = .invalidName target := by
  unfold Document.insertInstruction Document.withName at h
  split at h
  next => cases h
  next =>
    cases h
    rfl

theorem mayFollowEdits_eq_false (he : ∀ e', e ≠ .edit e') : e.mayFollowEdits = false := by
  cases e with
  | edit e' => exact absurd rfl (he e')
  | noParent _ _ | emptyStack | cardinality _ _ | query _ => rfl

/-- A directive that fails leaves the saved cursors alone, and of the document it has changed
nothing, or what its edits at the nodes before the refused one change. -/
theorem execute_error_cases (h : execute directive c s = (.error e, s')) :
    s'.saved = s.saved ∧ ((s'.document = s.document ∧ e.mayFollowEdits = false) ∨
      ∃ e', e = .edit e' ∧ Stopped directive c s.document s'.document e) := by
  have hout := comesTo_execute directive c s
  rw [h] at hout
  cases hout with
  | refused he => exact ⟨rfl, .inl ⟨rfl, mayFollowEdits_eq_false he⟩⟩
  | @stopped e' d hstopped => exact ⟨rfl, .inr ⟨e', rfl, hstopped⟩⟩
  | misnamed _ _ hinsert =>
    rw [insertInstruction_eq_error hinsert]
    exact ⟨rfl, .inl ⟨rfl, rfl⟩⟩

/-- A directive that fails leaves the saved cursors as they were. Unless it fails for a refusal that
depends on the node it leaves the document as it was too; otherwise the document is what its edits
at the current nodes before the first refused one make of it, in their order. -/
theorem failure_leaves_edits_before (h : execute directive c s = (.error e, s')) :
    s'.saved = s.saved ∧ (e.mayFollowEdits = false → s'.document = s.document) ∧
      (e.mayFollowEdits = true → Stopped directive c s.document s'.document e) := by
  obtain ⟨hsaved, ⟨hd, he⟩ | ⟨e', rfl, hstopped⟩⟩ := execute_error_cases h
  · refine ⟨hsaved, fun _ => hd, fun he' => ?_⟩
    rw [he] at he'
    cases he'
  · refine ⟨hsaved, fun he => ?_, fun _ => hstopped⟩
    cases e' with
    | invalidName name => exact hstopped.eq_of_invalidName
    | unsupported _ _ | duplicateDocumentElement _ | detached _ => cases he

/-- A comment goes into the element and is refused at its text, before it comes to the document
node. -/
theorem failure_at_second_node :
    let s : State := { document := .ofTrees [.element (.plain "a") [] [.text "x" false]] }
    let c : Cursor Node := ⟨[.stored 1, .stored 2, .stored 0], by decide⟩
    let comment : Directive := .addComment ⟨"c", Literal.check_eq_ok_iff.1 rfl⟩
    let refusal : ExecutionError := .edit (.unsupported .addComment "/a/node()")
    ∃ s', execute comment c s = (.error refusal, s') ∧ refusal.mayFollowEdits = true ∧
      s'.saved = s.saved ∧ Stopped comment c s.document s'.document refusal ∧
        s'.document ≠ s.document := by
  intro s c comment refusal
  rcases hr : execute comment c s with ⟨r, s'⟩
  have hfailed : (execute comment c s).1 = .error refusal := by decide +kernel
  have hedited : (execute comment c s).2.document ≠ s.document := by decide +kernel
  rw [hr] at hfailed hedited
  cases hfailed
  obtain ⟨hsaved, -, hstopped⟩ := failure_leaves_edits_before hr
  exact ⟨s', rfl, rfl, hsaved, hstopped rfl, hedited⟩

end Engine

end XmlScript
