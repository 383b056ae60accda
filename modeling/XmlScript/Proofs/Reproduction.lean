import XmlScript.Proofs.Copy
import XmlScript.Proofs.Upsert

/-!
# Copies that run

A copy of an element is executed without failure exactly if scripts may give every name in it, and
then it makes what its commands say, whatever namespaces and names the element had
(`runFrom_copy_eq_ok`). None of its commands leaves a cursor without nodes (`execute_copying`), so a
run comes to each of them with a node to act on, and then a name is looked at.
-/

namespace XmlScript

namespace Command

/-- The name that a command gives, if any. -/
def name? {α : Type} : Command α → Option α
  | addElement name | setAttribute name _ | addInstruction name _ => some name
  | _ => none

/-- A command of one of the kinds that copies are made of. -/
def IsCopying {α : Type} : Command α → Prop
  | addElement _ | setText _ | setAttribute _ _ | addComment _ | addCData _ | addInstruction _ _
  | up => True
  | _ => False

end Command

/-- Scripts may give every name in these commands. -/
def HaveValidNames (commands : List (Command String)) : Prop :=
  ∀ command ∈ commands, ∀ name ∈ command.name?, Name.isValid name = true

/-! ## Commands of trees -/

section

variable {t : Tree} {attributes : List Attribute} {children trees : List Tree}
  {command : Command String}

theorem mem_treeCommands : command ∈ treeCommands trees ↔ ∃ t ∈ trees, command ∈ t.commands := by
  induction trees with
  | nil => simp [treeCommands]
  | cons t rest ih => simp [treeCommands, ih]

theorem mem_contentCommands (h : command ∈ contentCommands attributes children) :
    (∃ a ∈ attributes, .setAttribute a.name.localPart a.value = command) ∨
      (∃ text, .setText text = command) ∨ ∃ t ∈ children, command ∈ t.commands := by
  rw [contentCommands] at h
  split at h
  next =>
    rcases List.mem_append.1 h with h | h
    · exact Or.inl (List.mem_map.1 h)
    · exact Or.inr (Or.inl ⟨_, (List.mem_singleton.1 h).symm⟩)
  next =>
    rcases List.mem_append.1 h with h | h
    · exact Or.inl (List.mem_map.1 h)
    · exact Or.inr (Or.inr (mem_treeCommands.1 h))

theorem isCopying_of_mem_commands (ht : t.Every fun _ => True) :
    ∀ command ∈ t.commands, command.IsCopying := by
  induction ht with
  | element _ _ ih =>
    intro command h
    rw [Tree.commands, List.mem_cons, List.mem_append, List.mem_singleton] at h
    rcases h with rfl | h | rfl
    · trivial
    · rcases mem_contentCommands h with ⟨a, -, rfl⟩ | ⟨text, rfl⟩ | ⟨t, ht, h⟩
      · trivial
      · trivial
      · exact ih t ht command h
    · trivial
  | text _ =>
    intro command h
    rw [Tree.commands] at h
    split at h
    next => cases h
    next =>
      rw [List.mem_singleton.1 h]
      trivial
  | comment _ | instruction _ =>
    intro command h
    rw [Tree.commands] at h
    rw [List.mem_singleton.1 h]
    trivial

/-- The names in the commands of a content are those of its attributes and of its trees. A text has
none. -/
theorem HaveValidNames.of_content (h : HaveValidNames (contentCommands attributes children)) :
    (∀ a ∈ attributes, Name.isValid a.name.localPart = true) ∧
      ∀ t ∈ children, t.isText = true ∨ HaveValidNames t.commands := by
  rw [contentCommands] at h
  have hset {more : List (Command String)}
      (h : HaveValidNames ((attributes.map fun a => .setAttribute a.name.localPart a.value) ++ more)) :
      ∀ a ∈ attributes, Name.isValid a.name.localPart = true := fun a ha =>
    h _ (List.mem_append_left _ (List.mem_map_of_mem ha)) _ rfl
  split at h
  next htexts =>
    rw [Bool.and_eq_true] at htexts
    exact ⟨hset h, fun t ht => Or.inl (List.all_eq_true.1 htexts.2 t ht)⟩
  next =>
    exact ⟨hset h, fun t ht => Or.inr fun command hc =>
      h command (List.mem_append_right _ (mem_treeCommands.2 ⟨t, ht, hc⟩))⟩

/-- What is no text has to be asked for its names. -/
theorem isCreatable_of_isText_or (h : t.isText = true ∨ HaveValidNames t.commands)
    (ht : HaveValidNames t.commands → t.Every Tree.IsCreatable) : t.Every Tree.IsCreatable := by
  rcases h with htext | hvalid
  · cases t with
    | text _ _ => exact .text trivial
    | element _ _ _ | comment _ | instruction _ _ => cases htext
  · exact ht hvalid

theorem isCreatable_of_commands (ht : t.Every fun _ => True) (h : HaveValidNames t.commands) :
    t.Every Tree.IsCreatable := by
  induction ht with
  | @element label attributes children _ hc ih =>
    rw [Tree.commands] at h
    obtain ⟨hattributes, hchildren⟩ := HaveValidNames.of_content fun command hc =>
      h command (List.mem_cons_of_mem _ (List.mem_append_left _ hc))
    refine .element ⟨h _ (List.mem_cons_self ..) _ rfl, hattributes⟩ fun t ht => ?_
    exact isCreatable_of_isText_or (hchildren t ht) (ih t ht)
  | text _ => exact .text trivial
  | comment _ => exact .comment trivial
  | instruction _ =>
    rw [Tree.commands] at h
    exact .instruction (h _ (List.mem_singleton.2 rfl) _ rfl)

end

/-! ## Runs -/

namespace Engine

open Document

variable {directive : Directive} {c c' : Cursor Node} {s s' : State}

/-- Edits at the nodes of a cursor that has any are made at the first, and give it a successor. -/
theorem moved_ne_nil {edit : Node → Document → Except EditError (Node × Document)}
    (hne : c.nodes ≠ []) (h : moved s (editEach edit c.nodes s.document) = (.ok c', s')) :
    c'.nodes ≠ [] ∧ ∃ n r, edit n s.document = .ok r := by
  obtain ⟨made, rfl, hmade, -⟩ := moved_eq_ok_iff.1 h
  obtain ⟨n, rest, hcons⟩ := List.exists_cons_of_ne_nil hne
  rw [hcons] at hmade
  obtain ⟨m, x₁, hm, ms, rfl, -⟩ := editEach_cons_eq_ok_iff.1 hmade
  exact ⟨List.ne_nil_of_mem (Cursor.mem_ofList.2 (List.mem_cons_self ..)), n, _, hm⟩

/-- A command of a copy leaves no cursor without nodes, and has seen that its name is valid. -/
theorem execute_copying (hcopying : directive.plain.IsCopying) (hne : c.nodes ≠ [])
    (h : execute directive c s = (.ok c', s')) :
    c'.nodes ≠ [] ∧ ∀ name ∈ directive.plain.name?, Name.isValid name = true := by
  have hnamed {name : String} {edit : Node → Document → Except EditError Document}
      (hedit : ∀ {n d d'}, edit n d = .ok d' → Name.isValid name = true)
      (h : editNodes edit c s = (.ok c', s')) :
      c'.nodes ≠ [] ∧ ∀ name' ∈ some name, Name.isValid name' = true := by
    obtain ⟨hne', n, ⟨m, d'⟩, hr⟩ := moved_ne_nil hne h
    exact ⟨hne', fun name' he => Option.some.inj he ▸ hedit (keeping_eq_ok_iff.1 hr).2⟩
  cases directive with
  | addElement name =>
    obtain ⟨hne', n, r, hr⟩ := moved_ne_nil hne h
    exact ⟨hne', fun name' he => Option.some.inj he ▸ (withName_eq_ok_iff.1 hr).1⟩
  | setAttribute name value => exact hnamed (fun hr => (withName_eq_ok_iff.1 hr).1) h
  | addInstruction target data =>
    unfold execute at h
    simp only at h
    rw [if_neg (by rw [Cursor.isEmpty]; simpa using hne)] at h
    exact hnamed (fun hr => (withName_eq_ok_iff.1 hr).1) h
  | setText _ | addComment _ | addCData _ =>
    exact ⟨(moved_ne_nil hne h).1, fun name' he => absurd he (Option.not_mem_none name')⟩
  | up =>
    refine ⟨?_, fun name' he => absurd he (Option.not_mem_none name')⟩
    obtain ⟨hr, -⟩ := Prod.mk.inj h
    obtain ⟨above, habove, rfl⟩ := map_eq_ok_iff.1 hr
    obtain ⟨n, rest, hcons⟩ := List.exists_cons_of_ne_nil hne
    rw [hcons] at habove
    obtain ⟨p, above', -, -, rfl⟩ := List.forall₂_cons_left_iff.1 (mapM_eq_ok_iff.1 habove)
    exact List.ne_nil_of_mem (Cursor.mem_ofList.2 (List.mem_cons_self ..))
  | _ => exact absurd hcopying id

/-- A script of such commands that comes to its end has come to all of them. -/
theorem haveValidNames_of_run {script : Script} {position : Nat}
    (hcopying : ∀ command ∈ script.map Directive.plain, command.IsCopying) (hne : c.nodes ≠ [])
    (h : runFrom position script c s = (.ok c', s')) :
    HaveValidNames (script.map Directive.plain) := by
  induction script generalizing position c s with
  | nil => nofun
  | cons directive rest ih =>
    rw [List.map_cons, List.forall_mem_cons] at hcopying
    obtain ⟨c₁, s₁, he, h⟩ := runFrom_cons_eq_ok_iff.1 h
    obtain ⟨hne₁, hname⟩ := execute_copying hcopying.1 hne he
    exact List.forall_mem_cons.2 ⟨hname, ih hcopying.2 hne₁ h⟩

section

variable {d : Document} {copy : Script} {e : NodeId} {position : Nat}

/-- The commands of a copy give the names of what is copied. -/
theorem names_of_copy (hd : d.Linked) (he : d.isElement e = true)
    (hcopy : d.copy (.stored e) = .ok copy) :
    (∀ command ∈ copy.map Directive.plain, command.IsCopying) ∧
      (HaveValidNames (copy.map Directive.plain) →
        (∀ a ∈ d.attributesOf e, Name.isValid a.name.localPart = true) ∧
          ∀ t ∈ d.treesBelow e, t.Every Tree.IsCreatable) := by
  have hevery := hd.every_treesBelow (n := e) (P := fun _ => True) fun _ _ _ _ => trivial
  rw [(copy_element_eq_ok_iff he).1 hcopy]
  refine ⟨fun command hc => ?_, fun hvalid => ?_⟩
  · rcases mem_contentCommands hc with ⟨a, -, rfl⟩ | ⟨text, rfl⟩ | ⟨t, ht, hc⟩
    · trivial
    · trivial
    · exact isCopying_of_mem_commands (hevery t ht) command hc
  · obtain ⟨hattributes, hchildren⟩ := hvalid.of_content
    exact ⟨hattributes, fun t ht =>
      isCreatable_of_isText_or (hchildren t ht) (isCreatable_of_commands (hevery t ht))⟩

/-- What makes a copy fail is a name that scripts may not give. -/
theorem exists_runFrom_copy_iff (hd : d.Linked) (he : d.isElement e = true)
    (hcopy : d.copy (.stored e) = .ok copy) (hs : s.document.Linked) (hne : c.nodes ≠ [])
    (hc : IsBare c s.document) :
    (∃ c' s', runFrom position copy c s = (.ok c', s')) ↔
      (∀ a ∈ d.attributesOf e, Name.isValid a.name.localPart = true) ∧
        ∀ t ∈ d.treesBelow e, t.Every Tree.IsCreatable := by
  constructor
  · intro h
    obtain ⟨c', s', hrun⟩ := h
    obtain ⟨hcopying, hnames⟩ := names_of_copy hd he hcopy
    exact hnames (haveValidNames_of_run hcopying hne hrun)
  · intro h
    obtain ⟨y, hy, -⟩ := run_copy_of_creatable he h.1 h.2 hcopy hs hne hc position
    exact ⟨c, _, hy⟩

/-- A copy that does not fail comes back to where it started and gives elements without attributes
and children what its commands say. -/
theorem runFrom_copy_eq_ok (hd : d.Linked) (he : d.isElement e = true)
    (hcopy : d.copy (.stored e) = .ok copy) (hs : s.document.Linked) (hne : c.nodes ≠ [])
    (hc : IsBare c s.document) (hrun : runFrom position copy c s = (.ok c', s')) :
    c' = c ∧ ∀ id, .stored id ∈ c.nodes →
      (s'.document.entry id).content = (s.document.entry id).content ∧
        s'.document.attributesOf id =
          Attribute.putAll [] ((d.attributesOf e).map Attribute.plain) ∧
        s'.document.treesBelow id = copiedContent (d.treesBelow e) := by
  obtain ⟨hattributes, htrees⟩ :=
    (exists_runFrom_copy_iff hd he hcopy hs hne hc).1 ⟨c', s', hrun⟩
  obtain ⟨y, hy, hmade⟩ := run_copy_of_creatable he hattributes htrees hcopy hs hne hc position
  rw [hrun] at hy
  cases hy
  exact ⟨rfl, hmade⟩

end

end Engine

end XmlScript
