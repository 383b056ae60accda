/-!
# First occurrences

`distinct` keeps of every element of a list its first occurrence only, in the order of the list
(`nodup_distinct`, `mem_distinct`); a list without repetitions stays as it is
(`distinct_of_nodup`).
-/

namespace XmlScript

variable {α : Type} [DecidableEq α]

/-- The first occurrences in a list. -/
def distinct : List α → List α
  | [] => []
  | x :: rest => x :: (distinct rest).filter (· ≠ x)

@[simp] theorem mem_distinct {x : α} {xs : List α} : x ∈ distinct xs ↔ x ∈ xs := by
  induction xs with
  | nil => simp [distinct]
  | cons y rest ih => by_cases h : x = y <;> simp [distinct, ih, h]

theorem nodup_distinct (xs : List α) : (distinct xs).Nodup := by
  induction xs with
  | nil => simp [distinct]
  | cons x rest ih =>
    rw [distinct, List.nodup_cons]
    exact ⟨by simp, List.Pairwise.filter _ ih⟩

theorem distinct_of_nodup {xs : List α} (h : xs.Nodup) : distinct xs = xs := by
  induction xs with
  | nil => rfl
  | cons x rest ih =>
    rw [List.nodup_cons] at h
    rw [distinct, ih h.2, List.filter_eq_self.2]
    intro y hy
    have : y ≠ x := fun he => h.1 (he ▸ hy)
    simp [this]

end XmlScript
