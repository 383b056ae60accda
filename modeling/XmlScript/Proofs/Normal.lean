import XmlScript.Text.Blank
import XmlScript.Tree

/-!
# Content up to blanks and sections

Two contents are the same for most readers if they differ only in where text is cut into nodes, in
which of it is character data, and in the blanks between the nodes of an element that holds more
than text. `normalContent` takes these differences away, at every depth: blank texts go where there
are other nodes, then texts that stand together become one and empty ones vanish.
-/

namespace XmlScript.Tree

/-- Whether a tree is a text of blanks only. -/
def isBlankText : Tree → Bool
  | text s _ => Text.isBlank s.toList
  | _ => false

/-- Texts that stand together become one, and empty ones are left out. -/
def joinTexts : List Tree → List Tree
  | [] => []
  | text s _ :: rest =>
    match joinTexts rest with
    | text s' _ :: rest' => text (s ++ s') false :: rest'
    | rest' => if s = "" then rest' else text s false :: rest'
  | t :: rest => t :: joinTexts rest

/-- Blank texts are left out where there is anything but text. -/
def dropBlanks (trees : List Tree) : List Tree :=
  if trees.all isText then trees else trees.filter (!·.isBlankText)

mutual

/-- A tree with its content in normal form, and with no text marked as character data. -/
def normal : Tree → Tree
  | element label attributes children =>
    element label attributes (joinTexts (dropBlanks (normals children)))
  | text s _ => text s false
  | comment s => comment s
  | instruction target data? => instruction target data?

/-- Neighbouring trees, each in normal form. -/
def normals : List Tree → List Tree
  | [] => []
  | t :: rest => normal t :: normals rest

end

/-- The normal form of what is below a node. -/
def normalContent (children : List Tree) : List Tree := joinTexts (dropBlanks (normals children))

variable {t : Tree} {trees children : List Tree}

theorem normals_eq_map : normals trees = trees.map normal := by
  induction trees with
  | nil => rfl
  | cons t rest ih => rw [normals, ih, List.map_cons]

theorem isText_normal : t.normal.isText = t.isText := by cases t <;> rfl

theorem isBlankText_normal : t.normal.isBlankText = t.isBlankText := by cases t <;> rfl

theorem all_isText_normals : (normals trees).all isText = trees.all isText := by
  rw [normals_eq_map, List.all_map]
  exact congrArg trees.all (funext fun _ => isText_normal)

theorem filter_normals :
    (normals trees).filter (!·.isBlankText) = normals (trees.filter (!·.isBlankText)) := by
  rw [normals_eq_map, normals_eq_map, List.filter_map]
  refine congrArg (List.map normal) (List.filter_congr fun t _ => ?_)
  exact congrArg (!·) isBlankText_normal

/-- Nothing but text is one text. -/
theorem joinTexts_of_all (h : trees.all isText = true) :
    joinTexts trees = if textBelow trees = "" then [] else [text (textBelow trees) false] := by
  induction trees with
  | nil => rw [joinTexts, textBelow, if_pos rfl]
  | cons t rest ih =>
    rw [List.all_cons, Bool.and_eq_true] at h
    cases t with
    | text s isCData =>
      rw [joinTexts, ih h.2, textBelow]
      by_cases hr : textBelow rest = ""
      · rw [if_pos hr, hr, String.append_empty]
      · have hne : s ++ textBelow rest ≠ "" := by
          intro he
          exact hr (String.append_eq_empty_iff.1 he).2
        rw [if_neg hr, if_neg hne]
    | element _ _ _ | comment _ | instruction _ _ => cases h.1

theorem textBelow_normals (h : trees.all isText = true) :
    textBelow (normals trees) = textBelow trees := by
  induction trees with
  | nil => rfl
  | cons t rest ih =>
    rw [List.all_cons, Bool.and_eq_true] at h
    cases t with
    | text s isCData =>
      rw [normals, normal, textBelow, textBelow, ih h.2]
    | element _ _ _ | comment _ | instruction _ _ => cases h.1

theorem normalContent_of_all (h : children.all isText = true) : normalContent children =
    if textBelow children = "" then [] else [text (textBelow children) false] := by
  have hall : (normals children).all isText = true := all_isText_normals.trans h
  unfold normalContent dropBlanks
  rw [if_pos hall, joinTexts_of_all hall, textBelow_normals h]

/-- A content of texts only is the same as one text. -/
theorem normalContent_text {isCData : Bool} (h : children.all isText = true) :
    normalContent [text (textBelow children) isCData] = normalContent children := by
  have hone : textBelow [text (textBelow children) isCData] = textBelow children := by
    rw [textBelow, textBelow, String.append_empty]
  rw [normalContent_of_all h, normalContent_of_all rfl, hone]

/-- A content is the same without its blank texts, if there is anything but text in it. -/
theorem normalContent_of_filter (hc : children.all isText = true → children = [])
    (h : normals trees = normals (children.filter (!·.isBlankText))) :
    normalContent trees = normalContent children := by
  unfold normalContent
  rw [h]
  by_cases hall : children.all isText = true
  · rw [hc hall]
    rfl
  · have hkept : ¬ (children.filter (!·.isBlankText)).all isText = true := by
      obtain ⟨t, ht, htext⟩ : ∃ t ∈ children, ¬ t.isText = true := by simpa using hall
      have hblank : (!t.isBlankText) = true := by
        cases t with
        | text s isCData => exact absurd rfl htext
        | element _ _ _ | comment _ | instruction _ _ => rfl
      exact fun hk => htext (List.all_eq_true.1 hk t (List.mem_filter.2 ⟨ht, hblank⟩))
    unfold dropBlanks
    rw [all_isText_normals, all_isText_normals, if_neg hall, if_neg hkept, filter_normals,
      filter_normals, List.filter_filter]
    simp only [Bool.and_self]

end XmlScript.Tree
