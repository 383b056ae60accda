import XmlScript.Document.Around
import XmlScript.Proofs.Reproduction

/-!
# The text of copies

A copy leaves out the blank texts that stand beside nodes which are no text, at every depth, and
keeps all other text in its order; so the string value of what it makes is that of the normal form
(`textBelow_copiedContent`). That is the whole text of the element exactly if none of these blanks
has a character in it (`IsTight`). `Shortened` carries both through the trees: what is left is
never longer, and as long only if nothing was left out.

The main statement is `stringValue_copy`.
-/

namespace XmlScript

/-- The second text is the first one with something left out, unless `P` holds: then nothing is. -/
structure Shortened (s s' : String) (P : Prop) : Prop where
  length_le : s'.length ≤ s.length
  eq_iff : s' = s ↔ P

namespace Shortened

variable {s s' t t' : String} {P Q : Prop}

theorem refl (s : String) : Shortened s s True := ⟨Nat.le_refl _, iff_true_intro rfl⟩

theorem nothing (s : String) : Shortened s "" (s = "") := ⟨Nat.zero_le _, eq_comm⟩

theorem congr (h : Shortened s s' P) (hPQ : P ↔ Q) : Shortened s s' Q :=
  ⟨h.length_le, h.eq_iff.trans hPQ⟩

theorem append (h : Shortened s s' P) (h' : Shortened t t' Q) :
    Shortened (s ++ t) (s' ++ t') (P ∧ Q) where
  length_le := by
    rw [String.length_append, String.length_append]
    exact Nat.add_le_add h.length_le h'.length_le
  eq_iff := by
    rw [← h.eq_iff, ← h'.eq_iff]
    constructor
    · intro he
      -- neither part is longer than what it is left of, so both are as long
      have hlength := congrArg String.length he
      have hle := h.length_le
      have hle' := h'.length_le
      rw [String.length_append, String.length_append] at hlength
      have hparts := congrArg String.toList he
      rw [String.toList_append, String.toList_append] at hparts
      obtain ⟨hs, ht⟩ := List.append_inj hparts (by
        rw [String.length_toList, String.length_toList]
        omega)
      exact ⟨String.toList_inj.1 hs, String.toList_inj.1 ht⟩
    · intro he
      rw [he.1, he.2]

end Shortened

/-! ## Texts of trees -/

namespace Tree

/-- The children of the topmost node of a tree. -/
def children : Tree → List Tree
  | element _ _ children => children
  | text _ _ | comment _ | instruction _ _ => []

/-- There is no blank text beside a node which is no text, but for empty ones. -/
def IsTight (trees : List Tree) : Prop :=
  trees.all isText = true ∨ ∀ t ∈ trees, t.isBlankText = true → t.stringValue = ""

/-- A tree with no such blank in it at any depth. -/
def TightBelow (t : Tree) : Prop := t.Every fun u => IsTight u.children

variable {t : Tree} {inner trees : List Tree}

theorem tightBelow_element {label : Label} {attributes : List Attribute} :
    (element label attributes inner).TightBelow ↔
      IsTight inner ∧ ∀ t ∈ inner, t.TightBelow :=
  every_element_iff

theorem textBelow_cons (t : Tree) (rest : List Tree) :
    textBelow (t :: rest) = textBelow [t] ++ textBelow rest := by
  cases t <;> simp [textBelow]

theorem textBelow_append : textBelow (trees ++ inner) = textBelow trees ++ textBelow inner := by
  induction trees with
  | nil => rw [List.nil_append, textBelow, String.empty_append]
  | cons t rest ih =>
    rw [List.cons_append, textBelow_cons t (rest ++ inner), ih, textBelow_cons t rest,
      String.append_assoc]

/-- The element with its text alone. -/
theorem textBelow_element {label : Label} {attributes : List Attribute} :
    textBelow [.element label attributes inner] = textBelow inner := by
  rw [textBelow, textBelow, String.append_empty]

/-- Joining texts changes nothing about what they say. -/
theorem textBelow_joinTexts : textBelow (joinTexts trees) = textBelow trees := by
  induction trees with
  | nil => rfl
  | cons t rest ih =>
    cases t with
    | text s isCData =>
      rw [joinTexts, textBelow, ← ih]
      split
      next h => rw [h, textBelow, textBelow, String.append_assoc]
      next =>
        split
        next hs => rw [hs, String.empty_append]
        next => rw [textBelow]
    | element _ _ _ | comment _ | instruction _ _ =>
      simp only [joinTexts]
      rw [textBelow_cons, ih, ← textBelow_cons]

/-- What is left of a text where blanks are left out, and of a content of more than text. -/
theorem textBelow_normalContent (hall : inner.all isText = true → inner = []) :
    textBelow (normalContent inner) = textBelow (normals (inner.filter (!·.isBlankText))) := by
  rw [normalContent, textBelow_joinTexts, dropBlanks, all_isText_normals]
  split
  next h => rw [hall h]; rfl
  next => rw [filter_normals]

theorem textBelow_normalContent_of_all (hall : inner.all isText = true) :
    textBelow (normalContent inner) = textBelow inner := by
  rw [normalContent_of_all hall]
  split
  next h => rw [h, textBelow]
  next => rw [textBelow, textBelow, String.append_empty]

/-! ## What copies keep -/

/-- A copy of a content has the text of its normal form, if the copies of its trees have theirs. -/
theorem textBelow_copiedContent_of
    (h : ∀ t ∈ inner, textBelow t.copied = textBelow (normals ([t].filter (!·.isBlankText)))) :
    textBelow (copiedContent inner) = textBelow (normalContent inner) := by
  have htrees : textBelow (copiedTrees inner) =
      textBelow (normals (inner.filter (!·.isBlankText))) := by
    induction inner with
    | nil =>
      rw [copiedTrees]
      rfl
    | cons t rest ih =>
      rw [copiedTrees, textBelow_append, h t (List.mem_cons_self ..),
        ih fun u hu => h u (List.mem_cons_of_mem _ hu), ← textBelow_append, ← normals_append,
        ← List.filter_append]
      rfl
  unfold copiedContent
  split
  next htexts =>
    rw [Bool.and_eq_true] at htexts
    rw [textBelow_normalContent_of_all htexts.2, textBelow, textBelow, String.append_empty]
  next htexts =>
    rw [htrees, textBelow_normalContent fun hall => ?_]
    rw [hall, Bool.and_true] at htexts
    simpa using htexts

theorem textBelow_copied (h : t.Every fun _ => True) :
    textBelow t.copied = textBelow (normals ([t].filter (!·.isBlankText))) := by
  induction h with
  | element _ _ ih =>
    rw [copied, List.filter_cons_of_pos rfl, List.filter_nil, normals_eq_map, List.map_singleton,
      normal, textBelow_element, textBelow_element]
    exact textBelow_copiedContent_of ih
  | @text s isCData _ =>
    have hall : (text s isCData).copied.all isText = true := by
      unfold copied
      split <;> rfl
    rw [← textBelow_normals hall, normals_copied_text]
  | comment _ =>
    rw [copied, List.filter_cons_of_pos rfl, List.filter_nil, normals_eq_map, List.map_singleton,
      normal]
  | instruction _ =>
    rw [copied, List.filter_cons_of_pos rfl, List.filter_nil, normals_eq_map, List.map_singleton,
      normal]
    simp only [textBelow]

/-! ## What copies leave out -/

/-- Blanks are left out among neighbouring trees, and below them. -/
theorem shortened_trees
    (h : ∀ t ∈ trees, Shortened (textBelow [t]) (textBelow [t.normal]) t.TightBelow) :
    Shortened (textBelow trees) (textBelow (normals (trees.filter (!·.isBlankText))))
      ((∀ t ∈ trees, t.isBlankText = true → t.stringValue = "") ∧ ∀ t ∈ trees, t.TightBelow) := by
  induction trees with
  | nil =>
    refine (Shortened.refl (textBelow [])).congr (iff_of_true trivial ?_)
    exact ⟨List.forall_mem_nil _, List.forall_mem_nil _⟩
  | cons t rest ih =>
    have hrest := ih fun u hu => h u (List.mem_cons_of_mem _ hu)
    rw [textBelow_cons t rest, List.forall_mem_cons, List.forall_mem_cons]
    by_cases ht : t.isBlankText = true
    · rw [List.filter_cons_of_neg (by simp [ht])]
      cases t with
      | text s isCData =>
        have hone := (Shortened.nothing s).append hrest
        rw [String.empty_append] at hone
        rw [textBelow, textBelow, String.append_empty]
        refine hone.congr ?_
        have htight : (text s isCData).TightBelow := .text (Or.inl rfl)
        rw [forall_prop_of_true ht, and_iff_right htight, and_assoc]
        exact Iff.rfl
      | element _ _ _ | comment _ | instruction _ _ => cases ht
    · rw [List.filter_cons_of_pos (by simp [ht]), normals, textBelow_cons t.normal]
      refine ((h t (List.mem_cons_self ..)).append hrest).congr ?_
      rw [and_iff_right (fun hblank => absurd hblank ht), and_left_comm]

/-- Blanks are left out of a content if there is anything but text in it. -/
theorem shortened_content
    (h : ∀ t ∈ inner, Shortened (textBelow [t]) (textBelow [t.normal]) t.TightBelow) :
    Shortened (textBelow inner) (textBelow (normalContent inner))
      (IsTight inner ∧ ∀ t ∈ inner, t.TightBelow) := by
  by_cases hall : inner.all isText = true
  · rw [textBelow_normalContent_of_all hall]
    refine (Shortened.refl _).congr (iff_of_true trivial ⟨Or.inl hall, fun t ht => ?_⟩)
    have htext := List.all_eq_true.1 hall t ht
    cases t with
    | text s isCData => exact .text (Or.inl rfl)
    | element _ _ _ | comment _ | instruction _ _ => cases htext
  · rw [textBelow_normalContent fun h => absurd h hall]
    refine (shortened_trees h).congr ?_
    rw [IsTight, or_iff_right hall]

theorem shortened_normal (h : t.Every fun _ => True) :
    Shortened (textBelow [t]) (textBelow [t.normal]) t.TightBelow := by
  induction h with
  | @element label attributes inner _ _ ih =>
    rw [normal, textBelow_element, textBelow_element]
    exact (shortened_content ih).congr tightBelow_element.symm
  | @text s isCData _ =>
    have hsame : textBelow [(text s isCData).normal] = textBelow [text s isCData] := by
      simp only [normal, textBelow]
    rw [hsame]
    exact (Shortened.refl _).congr (iff_of_true trivial (.text (Or.inl rfl)))
  | comment _ =>
    rw [normal]
    exact (Shortened.refl _).congr (iff_of_true trivial (.comment (Or.inl rfl)))
  | instruction _ =>
    rw [normal]
    exact (Shortened.refl _).congr (iff_of_true trivial (.instruction (Or.inl rfl)))

end Tree

namespace Engine

open Document

variable {d : Document} {copy : Script} {e : NodeId} {c c' : Cursor Node} {s s' : State}

/-- What a copy of an element makes, if it does not fail, has the text of the element with the
blanks left out that stand beside nodes which are no text; that is all of its text exactly if no
such blank has a character in it. -/
theorem stringValue_copy (hd : d.Reachable) (he : d.isElement e = true)
    (hcopy : d.copy (.stored e) = .ok copy) (hs : s.document.Reachable) (hne : c.nodes ≠ [])
    (hc : IsBare c s.document) {position : Nat}
    (hrun : runFrom position copy c s = (.ok c', s')) :
    c' = c ∧ ∀ n ∈ c.nodes,
      s'.document.stringValue n = Tree.textBelow (Tree.normalContent (d.treesBelow e)) ∧
        (s'.document.stringValue n = d.stringValue (.stored e) ↔
          Tree.IsTight (d.treesBelow e) ∧ ∀ t ∈ d.treesBelow e, t.TightBelow) := by
  obtain ⟨rfl, hmade⟩ := runFrom_copy_eq_ok hd.linked he hcopy hs.linked hne hc hrun
  refine ⟨rfl, fun n hn => ?_⟩
  obtain ⟨label, hlabel⟩ := isElement_iff.1 he
  have hevery := hd.linked.every_treesBelow (n := e) (P := fun _ => True) fun _ _ _ _ => trivial
  obtain ⟨new, hnew⟩ := hc.element n hn
  cases n with
  | binding owner short uri => cases hnew
  | stored id =>
    obtain ⟨hcontent, -, hbelow⟩ := hmade id hn
    have hold : d.stringValue (.stored e) = Tree.textBelow (d.treesBelow e) := by
      simp only [stringValue, hlabel]
    have hkept : s'.document.stringValue (.stored id) =
        Tree.textBelow (Tree.normalContent (d.treesBelow e)) := by
      rw [← Tree.textBelow_copiedContent_of fun t ht => Tree.textBelow_copied (hevery t ht), ← hbelow]
      simp only [stringValue, hcontent, Option.some.inj hnew]
    rw [hkept, hold]
    exact ⟨rfl, (Tree.shortened_content fun t ht => Tree.shortened_normal (hevery t ht)).eq_iff⟩

/-- A blank that is all of an element is kept, and one between two elements is not. -/
theorem stringValue_copy_mixed :
    let arg (s : String) (h : Literal.check s.toList = .ok ()) : Arg :=
      ⟨s, Literal.check_eq_ok_iff.1 h⟩
    let copy : Script := [.addCData (arg "a" rfl), .addElement (arg "b" rfl),
      .setText (arg " " rfl), .up, .addElement (arg "i" rfl), .up]
    let fresh : Document := (apply [.addElement (arg "p" rfl)] .empty).2
    ∃ d s', Markup.read? "<p>a<b> </b>&#x20;<i/></p>" = some d ∧ d.copy (.stored 1) = .ok copy ∧
      runFrom 1 copy (.single (.stored 1)) ⟨fresh, []⟩ = (.ok (.single (.stored 1)), s') ∧
        s'.document.stringValue (.stored 1) = "a " ∧ d.stringValue (.stored 1) = "a  " ∧
          ¬ (Tree.IsTight (d.treesBelow 1) ∧ ∀ t ∈ d.treesBelow 1, t.TightBelow) := by
  intro arg copy fresh
  let d : Document := ⟨#[{ content := .document, children := [1] },
    { content := .element { Label.plain "p" with spaces := [("xml", xmlSpace)] },
      parent? := some 0, children := [2, 3, 5, 6] },
    { content := .text "a" false, parent? := some 1 },
    { content := .element (.plain "b"), parent? := some 1, children := [4] },
    { content := .text " " false, parent? := some 3 },
    { content := .text " " false, parent? := some 1 },
    { content := .element (.plain "i"), parent? := some 1 }]⟩
  have hread : Markup.read? "<p>a<b> </b>&#x20;<i/></p>" = some d := by decide +kernel
  have hbelow : d.treesBelow 1 = [.text "a" false, .element (.plain "b") [] [.text " " false],
    .text " " false, .element (.plain "i") [] []] := rfl
  have hcopy : d.copy (.stored 1) = .ok copy := by
    refine (copy_element_eq_ok_iff (by decide)).2 ?_
    rw [hbelow]
    simp [contentCommands, treeCommands, Tree.commands, Tree.isText, Tree.textBelow]
    rfl
  have hrun : runFrom 1 copy (.single (.stored 1)) ⟨fresh, []⟩ =
      (.ok (.single (.stored 1)), (runFrom 1 copy (.single (.stored 1)) ⟨fresh, []⟩).2) :=
    Prod.ext (by decide +kernel) rfl
  have hbare : IsBare (.single (.stored 1)) fresh :=
    isBare_single (.plain "p") (by decide +kernel) (by decide +kernel) (by decide +kernel)
  have hfresh : fresh.Reachable := Reachable.empty.apply _
  obtain ⟨-, hmade⟩ := stringValue_copy (s := ⟨fresh, []⟩) (.read hread)
    (by decide : d.isElement 1 = true) hcopy hfresh (List.cons_ne_nil _ _) hbare hrun
  obtain ⟨hkept, htight⟩ := hmade (.stored 1) (List.mem_cons_self ..)
  have hold : d.stringValue (.stored 1) = "a  " := by
    show Tree.textBelow (d.treesBelow 1) = _
    rw [hbelow]
    simp [Tree.textBelow]
  have hleft : (d.treesBelow 1).filter (!·.isBlankText) = [.text "a" false,
      .element (.plain "b") [] [.text " " false], .element (.plain "i") [] []] := rfl
  have hnew : Tree.textBelow (Tree.normalContent (d.treesBelow 1)) = "a " := by
    rw [Tree.textBelow_normalContent (by simp [hbelow, Tree.isText]), hleft]
    simp [Tree.normals, Tree.normal, Tree.joinTexts, Tree.dropBlanks, Tree.isText, Tree.textBelow]
  rw [hnew] at hkept
  exact ⟨d, _, hread, hcopy, hrun, hkept, hold, fun h => absurd (htight.2 h) (by
    rw [hkept, hold]
    decide)⟩

/-- A blank between two elements is text of the element, and is not text of its copy. -/
theorem stringValue_copy_of_blank :
    let arg (s : String) (h : Literal.check s.toList = .ok ()) : Arg :=
      ⟨s, Literal.check_eq_ok_iff.1 h⟩
    let copy : Script := [.addElement (arg "b" rfl), .up, .addElement (arg "i" rfl), .up]
    let fresh : Document := (apply [.addElement (arg "p" rfl)] .empty).2
    ∃ d s', Markup.read? "<p><b/> <i/></p>" = some d ∧ d.copy (.stored 1) = .ok copy ∧
      fresh.name? (.stored 1) = d.name? (.stored 1) ∧ IsBare (.single (.stored 1)) fresh ∧
      runFrom 1 copy (.single (.stored 1)) ⟨fresh, []⟩ = (.ok (.single (.stored 1)), s') ∧
      s'.document.stringValue (.stored 1) = "" ∧ d.stringValue (.stored 1) = " " := by
  intro arg copy fresh
  let d : Document := ⟨#[{ content := .document, children := [1] },
    { content := .element { Label.plain "p" with spaces := [("xml", xmlSpace)] },
      parent? := some 0, children := [2, 3, 4] },
    { content := .element (.plain "b"), parent? := some 1 },
    { content := .text " " false, parent? := some 1 },
    { content := .element (.plain "i"), parent? := some 1 }]⟩
  let d' : Document := ⟨#[{ content := .document, children := [1] },
    { content := .element (.plain "p"), parent? := some 0, children := [2, 3] },
    { content := .element (.plain "b"), parent? := some 1 },
    { content := .element (.plain "i"), parent? := some 1 }]⟩
  have hbelow : d.treesBelow 1 = [.element (.plain "b") [] [], .text " " false,
    .element (.plain "i") [] []] := rfl
  have hbelow' : d'.treesBelow 1 = [.element (.plain "b") [] [], .element (.plain "i") [] []] := rfl
  refine ⟨d, ⟨d', []⟩, by decide +kernel, ?_, by decide +kernel, ?_, by decide +kernel, ?_, ?_⟩
  · refine (copy_element_eq_ok_iff (by decide)).2 ?_
    rw [hbelow]
    simp [contentCommands, treeCommands, Tree.commands, Tree.isText]
    rfl
  · exact isBare_single (.plain "p") (by decide +kernel) (by decide +kernel) (by decide +kernel)
  · show Tree.textBelow (d'.treesBelow 1) = _
    rw [hbelow']
    simp [Tree.textBelow]
  · show Tree.textBelow (d.treesBelow 1) = _
    rw [hbelow]
    simp [Tree.textBelow]

end Engine

end XmlScript
