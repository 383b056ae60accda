import XmlScript.Proofs.Attributes
import XmlScript.Proofs.Contents
import XmlScript.Proofs.Literal
import XmlScript.Proofs.Normal
import XmlScript.Script.Copy

/-!
# What copies make

`Tree.copied` are the trees that the commands of a tree append when they are executed, worked out
from the tree alone: names lose their namespaces, texts that stand alone become one, other texts
become character data if they are not blank. Of a tree that scripts can have made this is the same
tree up to blanks and sections (`Tree.normals_copied`).

A copy is a script only if its texts are legal; `Directive.plain` forgets that they are, and the
directives of a copy say what its commands say (`mapM_validate_eq_ok_iff`).
-/

namespace XmlScript

/-! ## Scripts and their texts -/

/-- The command with other texts. -/
def Command.map {α β : Type} (f : α → β) : Command α → Command β
  | addElement name => addElement (f name)
  | ensureElement name => ensureElement (f name)
  | remove => remove
  | setText text => setText (f text)
  | setAttribute name value => setAttribute (f name) (f value)
  | computeAttribute name query => computeAttribute (f name) (f query)
  | computeText query => computeText (f query)
  | addComment text => addComment (f text)
  | addCData text => addCData (f text)
  | addInstruction target data => addInstruction (f target) (f data)
  | setNamespace uri => setNamespace (f uri)
  | up => up
  | select query => select (f query)
  | expect count => expect count
  | push => push
  | pop => pop

/-- What a directive says, whether a script can carry it or not. -/
def Directive.plain (directive : Directive) : Command String := directive.map (·.raw)

/-- A command is valid if it says the same as a directive. -/
theorem Command.validate_eq_ok_iff {command : Command String} {directive : Directive} :
    command.validate = .ok directive ↔ directive.plain = command := by
  constructor
  · intro h
    cases command with
    | remove | up | push | pop | expect count =>
      cases h
      rfl
    | addElement a | ensureElement a | setText a | computeText a | addComment a | addCData a
    | setNamespace a | select a =>
      obtain ⟨x, hx, rfl⟩ := map_eq_ok_iff.1 h
      rw [← Arg.ofText_eq_ok_iff.1 hx]
      rfl
    | setAttribute a b | computeAttribute a b | addInstruction a b =>
      obtain ⟨x, hx, h⟩ := bind_eq_ok_iff.1 h
      obtain ⟨y, hy, rfl⟩ := map_eq_ok_iff.1 h
      rw [← Arg.ofText_eq_ok_iff.1 hx, ← Arg.ofText_eq_ok_iff.1 hy]
      rfl
  · intro h
    rw [← h]
    have hraw (a : Arg) : Arg.ofText a.raw = .ok a := Arg.ofText_eq_ok_iff.2 rfl
    cases directive with
    | remove | up | push | pop | expect count => rfl
    | addElement a | ensureElement a | setText a | computeText a | addComment a | addCData a
    | setNamespace a | select a => exact map_eq_ok_iff.2 ⟨a, hraw a, rfl⟩
    | setAttribute a b | computeAttribute a b | addInstruction a b =>
      exact bind_eq_ok_iff.2 ⟨a, hraw a, map_eq_ok_iff.2 ⟨b, hraw b, rfl⟩⟩

/-- Commands are a script if its directives say the same. -/
theorem mapM_validate_eq_ok_iff {commands : List (Command String)} {script : Script} :
    commands.mapM Command.validate = .ok script ↔ script.map Directive.plain = commands := by
  rw [mapM_eq_ok_iff]
  constructor
  · intro h
    induction h with
    | nil => rfl
    | cons hc _ ih => rw [List.map_cons, ih, Command.validate_eq_ok_iff.1 hc]
  · intro h
    rw [← h, List.forall₂_map_left_iff]
    exact List.forall₂_same.2 fun _ _ => Command.validate_eq_ok_iff.2 rfl

theorem copy_element_eq_ok_iff {d : Document} {e : NodeId} {script : Script}
    (he : d.isElement e = true) : d.copy (.stored e) = .ok script ↔
      script.map Directive.plain = contentCommands (d.attributesOf e) (d.treesBelow e) := by
  obtain ⟨label, hlabel⟩ := Document.isElement_iff.1 he
  have hcommands : d.copyCommands (.stored e) =
      contentCommands (d.attributesOf e) (d.treesBelow e) := by
    simp only [Document.copyCommands, hlabel]
  rw [Document.copy, mapM_validate_eq_ok_iff, hcommands]

/-! ## What a copy makes -/

/-- An attribute without its namespace. -/
def Attribute.plain (a : Attribute) : Attribute :=
  { name := .plain a.name.localPart, value := a.value }

mutual

/-- The trees that the commands of a tree append. -/
def Tree.copied : Tree → List Tree
  | .element label attributes children =>
    [.element (.plain label.name.localPart) (Attribute.putAll [] (attributes.map Attribute.plain))
      (copiedContent children)]
  | .text s _ => if Text.isBlank s.toList then [] else [.text s true]
  | .comment s => [.comment s]
  | .instruction target data? =>
    let data := data?.getD ""
    [.instruction target (if data.isEmpty then none else some data)]

/-- The trees that the commands of neighbouring trees append. -/
def copiedTrees : List Tree → List Tree
  | [] => []
  | t :: rest => Tree.copied t ++ copiedTrees rest

/-- The children that the commands of a content give. -/
def copiedContent (children : List Tree) : List Tree :=
  if !children.isEmpty && children.all Tree.isText then [.text (Tree.textBelow children) false]
  else copiedTrees children

end

/-- A node as scripts make it: names are valid and without namespaces, and the data of an
instruction is not empty. -/
def Content.IsScripted : Content → Prop
  | .element label => ∃ name, Name.isValid name = true ∧ label = .plain name
  | .attribute a => Name.isValid a.name.localPart = true ∧ a.plain = a
  | .instruction target data? => Name.isValid target = true ∧ data? ≠ some ""
  | .document | .text _ _ | .comment _ => True

/-- A tree whose top is a node as scripts make it. Its attributes have different names. -/
def Tree.IsScripted : Tree → Prop
  | .element label attributes _ =>
    (Content.element label).IsScripted ∧ (∀ a ∈ attributes, (Content.attribute a).IsScripted) ∧
      (attributes.map (·.name)).Nodup
  | .text _ _ | .comment _ => True
  | .instruction target data? => (Content.instruction target data?).IsScripted

/-- A tree whose top scripts can make, if not with the namespaces it may have. -/
def Tree.IsCreatable : Tree → Prop
  | .element label attributes _ =>
    Name.isValid label.name.localPart = true ∧
      ∀ a ∈ attributes, Name.isValid a.name.localPart = true
  | .text _ _ | .comment _ => True
  | .instruction target _ => Name.isValid target = true

namespace Tree

variable {t : Tree} {children : List Tree}

theorem IsScripted.isCreatable (h : t.IsScripted) : t.IsCreatable := by
  cases t with
  | element label attributes children =>
    obtain ⟨⟨name, hname, rfl⟩, hattributes, -⟩ := h
    exact ⟨hname, fun a ha => (hattributes a ha).1⟩
  | text _ _ | comment _ => trivial
  | instruction target data? => exact h.1

/-- The copy of an element is an element, and no other copy is one. -/
theorem isElement_of_mem_copied {u : Tree} (h : u ∈ t.copied) : u.isElement = t.isElement := by
  cases t with
  | text s isCData =>
    rw [copied] at h
    split at h
    next => cases h
    next =>
      rw [List.mem_singleton.1 h]
      rfl
  | element _ _ _ | instruction _ _ =>
    rw [copied] at h
    rw [List.mem_singleton.1 h]
    rfl
  | comment _ =>
    rw [copied] at h
    rw [List.mem_singleton.1 h]

theorem normals_append (u : List Tree) :
    normals (children ++ u) = normals children ++ normals u := by
  rw [normals_eq_map, normals_eq_map, normals_eq_map, List.map_append]

/-- The copy of a content is the same content, if the copies of its trees are the same trees. -/
theorem normalContent_copied
    (h : ∀ t ∈ children, normals t.copied = normals ([t].filter (!·.isBlankText))) :
    normalContent (copiedContent children) = normalContent children := by
  have hall : normals (copiedTrees children) = normals (children.filter (!·.isBlankText)) := by
    induction children with
    | nil => rw [copiedTrees, List.filter_nil]
    | cons t rest ih =>
      rw [copiedTrees, normals_append, h t (List.mem_cons_self ..),
        ih fun u hu => h u (List.mem_cons_of_mem _ hu), ← normals_append, ← List.filter_append]
      rfl
  unfold copiedContent
  split
  next htexts =>
    rw [Bool.and_eq_true] at htexts
    exact normalContent_text htexts.2
  next htexts =>
    refine normalContent_of_filter (fun htext => ?_) hall
    rw [htext, Bool.and_true] at htexts
    simpa using htexts

/-- Without any text there is no text to be set. -/
theorem copiedContent_eq (h : ∀ t ∈ children, t.isText = false) :
    copiedContent children = copiedTrees children := by
  unfold copiedContent
  rw [if_neg]
  cases children with
  | nil => exact Bool.false_ne_true
  | cons t rest => simp [h t (List.mem_cons_self ..)]

theorem normals_copied_text (s : String) (isCData : Bool) :
    normals (text s isCData).copied = normals ([text s isCData].filter (!·.isBlankText)) := by
  unfold copied
  by_cases hs : Text.isBlank s.toList = true
  · rw [if_pos hs, List.filter_cons_of_neg (by simpa [isBlankText] using hs)]
    rfl
  · rw [if_neg hs, List.filter_cons_of_pos (by simpa [isBlankText] using hs)]
    rfl

/-- The copy of a tree is the same tree, or nothing if it is a blank text. -/
theorem normals_copied (h : t.Every IsScripted) :
    normals t.copied = normals ([t].filter (!·.isBlankText)) := by
  induction h with
  | @element label attributes children h hc ih =>
    obtain ⟨⟨name, -, rfl⟩, hplain, hnodup⟩ := h
    have hattributes : Attribute.putAll [] (attributes.map Attribute.plain) = attributes := by
      rw [List.map_congr_left fun a ha => (hplain a ha).2, List.map_id']
      exact Attribute.putAll_of_nodup hnodup
    have hcontent := normalContent_copied ih
    unfold normalContent at hcontent
    rw [copied, hattributes, List.filter_cons_of_pos rfl, List.filter_nil, normals_eq_map,
      normals_eq_map, List.map_singleton, List.map_singleton, normal, normal, hcontent]
    rfl
  | @text s isCData h => exact normals_copied_text s isCData
  | comment h => rw [copied, List.filter_cons_of_pos rfl, List.filter_nil]
  | @instruction target data? h =>
    have hdata : (if (data?.getD "").isEmpty then none else some (data?.getD "")) = data? := by
      cases data? with
      | none => rfl
      | some data =>
        have hne : ¬ data.isEmpty = true := fun he => h.2 (congrArg some (by simpa using he))
        rw [Option.getD_some, if_neg hne]
    rw [copied, List.filter_cons_of_pos rfl, List.filter_nil, hdata]

end Tree

end XmlScript
