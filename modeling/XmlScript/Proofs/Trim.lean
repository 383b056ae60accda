import Mathlib.Data.List.TakeWhile
import XmlScript.Text.Blank

/-!
# Trimmed texts

Trimming takes spaces from both ends and nothing else (`exists_trim`), and what is left has no
space at either end (`isTrimmed_trim`). The two fix the trimmed text (`trim_eq`), so spaces that are
added to a text do not change what it is trimmed to, and a text that is trimmed stays as it is.
-/

namespace XmlScript.Text

/-- A text with no space at either end. -/
structure IsTrimmed (s : List Char) : Prop where
  head : ∀ c ∈ s.head?, isSpace c = false
  last : ∀ c ∈ s.getLast?, isSpace c = false

theorem dropWhile_isSpace_of_head {s : List Char} (h : ∀ c ∈ s.head?, isSpace c = false) :
    s.dropWhile isSpace = s := by
  cases s with
  | nil => rfl
  | cons c rest => exact List.dropWhile_cons_of_neg (by simp [h c rfl])

/-- A trimmed text between spaces is what they are trimmed to. -/
theorem trim_eq {a t b : List Char} (ha : ∀ c ∈ a, isSpace c = true) (ht : IsTrimmed t)
    (hb : ∀ c ∈ b, isSpace c = true) : trim (a ++ (t ++ b)) = t := by
  have hback : (t ++ b).reverse.dropWhile isSpace = t.reverse := by
    have hb' : ∀ c ∈ b.reverse, isSpace c = true := fun c hc => hb c (List.mem_reverse.mp hc)
    rw [List.reverse_append, List.dropWhile_append_of_pos hb']
    apply dropWhile_isSpace_of_head
    rw [List.head?_reverse]
    exact ht.last
  rw [trim, List.dropWhile_append_of_pos ha]
  cases t with
  | nil =>
    have hnil : b.dropWhile isSpace = [] := List.dropWhile_eq_nil_iff.mpr hb
    rw [List.nil_append, hnil]
    rfl
  | cons c rest =>
    rw [dropWhile_isSpace_of_head (by simpa using ht.head c rfl), trimEnd, dropEndWhile, hback,
      List.reverse_reverse]

/-- A text with no space at either end is not changed by trimming. -/
theorem trim_eq_self {s : List Char} (hh : ∀ c ∈ s.head?, isSpace c = false)
    (hl : ∀ c ∈ s.getLast?, isSpace c = false) : trim s = s := by
  have h := trim_eq (a := []) (b := []) (by simp) ⟨hh, hl⟩ (by simp)
  rwa [List.nil_append, List.append_nil] at h

/-- What is taken from the ends of a text are spaces. -/
theorem exists_trim (s : List Char) : ∃ a b, (∀ c ∈ a, isSpace c = true) ∧
    (∀ c ∈ b, isSpace c = true) ∧ s = a ++ (trim s ++ b) := by
  refine ⟨s.takeWhile isSpace, ((s.dropWhile isSpace).reverse.takeWhile isSpace).reverse,
    fun _ => List.mem_takeWhile_imp, ?_, ?_⟩
  · intro c hc
    exact List.mem_takeWhile_imp (List.mem_reverse.mp hc)
  · rw [trim, trimEnd, dropEndWhile, ← List.reverse_append, List.takeWhile_append_dropWhile,
      List.reverse_reverse, List.takeWhile_append_dropWhile]

theorem isTrimmed_trim (s : List Char) : IsTrimmed (trim s) := by
  constructor
  · intro c hc
    -- the front of the text is what was left when the spaces before it were dropped
    have hhead := List.head?_dropWhile_not isSpace s
    have hrest := List.takeWhile_append_dropWhile (p := isSpace) (l := (s.dropWhile isSpace).reverse)
    rw [← List.reverse_inj, List.reverse_append, List.reverse_reverse] at hrest
    change c ∈ ((s.dropWhile isSpace).reverse.dropWhile isSpace).reverse.head? at hc
    rw [← hrest, List.head?_append, hc] at hhead
    exact hhead
  · intro c hc
    change c ∈ ((s.dropWhile isSpace).reverse.dropWhile isSpace).reverse.getLast? at hc
    rw [List.getLast?_reverse] at hc
    have hhead := List.head?_dropWhile_not isSpace (s.dropWhile isSpace).reverse
    rw [hc] at hhead
    exact hhead

/-- Spaces behind a text do not change what it is trimmed to. -/
theorem trim_append_spaces {b : List Char} (hb : ∀ c ∈ b, isSpace c = true) (s : List Char) :
    trim (s ++ b) = trim s := by
  obtain ⟨a, b', ha, hb', hs⟩ := exists_trim s
  have hboth : ∀ c ∈ b' ++ b, isSpace c = true := by
    intro c hc
    rcases List.mem_append.mp hc with hc | hc
    · exact hb' c hc
    · exact hb c hc
  calc trim (s ++ b) = trim (a ++ (trim s ++ (b' ++ b))) := by
        rw [← List.append_assoc (trim s), ← List.append_assoc a, ← hs]
    _ = trim s := trim_eq ha (isTrimmed_trim s) hboth

/-- A trimmed text is a part of the text. -/
theorem infix_trim (s : List Char) : trim s <:+: s := by
  obtain ⟨a, b, -, -, hs⟩ := exists_trim s
  exact ⟨a, b, by rw [List.append_assoc, ← hs]⟩

/-- Nothing is left of a text exactly when it is made of spaces. -/
theorem trim_eq_nil_iff {s : List Char} : trim s = [] ↔ ∀ c ∈ s, isSpace c = true := by
  constructor
  · intro h c hc
    obtain ⟨a, b, ha, hb, hs⟩ := exists_trim s
    rw [h, List.nil_append] at hs
    rw [hs] at hc
    rcases List.mem_append.mp hc with hc | hc
    · exact ha c hc
    · exact hb c hc
  · intro h
    have hall := trim_eq (t := []) h ⟨nofun, nofun⟩ (b := []) (by simp)
    rwa [List.append_nil, List.append_nil] at hall

end XmlScript.Text
