/-!
# Classes of characters

A class of characters is given by its runs: the first and last code points of neighbours that are
all in it. `within_iff` says which code points some runs hold.
-/

namespace XmlScript.Text

/-- Whether a code point lies in one of some runs. -/
def within (runs : List (Nat × Nat)) (n : Nat) : Bool :=
  runs.any fun run => run.1 ≤ n && n ≤ run.2

theorem within_iff {runs : List (Nat × Nat)} {n : Nat} :
    within runs n = true ↔ ∃ run ∈ runs, run.1 ≤ n ∧ n ≤ run.2 := by
  simp [within]

end XmlScript.Text
