import Mathlib.Data.List.Forall2

/-!
# Steps that may fail

When a chain of steps succeeds: each step does, with the value that the next one gets
(`bind_eq_ok_iff`, `map_eq_ok_iff`). A step taken for every element of a list succeeds exactly
when it does so at each of them, and the answers stand in the order of the elements
(`mapM_eq_ok_iff`); it fails for what it fails for at one of them (`exists_of_mapM_eq_error`), which
is the first one where it does (`mapM_eq_error_of_first`).
-/

namespace XmlScript

variable {ε α β : Type}

/-- Two relations that agree on the elements of a list relate it to the same lists. -/
theorem forall₂_congr_left {R S : α → β → Prop} {xs : List α} {ys : List β}
    (h : ∀ x ∈ xs, ∀ y, R x y ↔ S x y) : List.Forall₂ R xs ys ↔ List.Forall₂ S xs ys := by
  constructor
  · intro hr
    exact ((List.forall₂_and_left xs ys).2 ⟨h, hr⟩).imp fun _ y hxy => (hxy.1 y).1 hxy.2
  · intro hs
    exact ((List.forall₂_and_left xs ys).2 ⟨h, hs⟩).imp fun _ y hxy => (hxy.1 y).2 hxy.2

/-- What is in the second of two related lists is related to something in the first. -/
theorem exists_of_forall₂_of_mem {R : α → β → Prop} {xs : List α} {ys : List β}
    (h : List.Forall₂ R xs ys) {y : β} (hy : y ∈ ys) : ∃ x ∈ xs, R x y := by
  induction h with
  | nil => cases hy
  | cons hxy _ ih =>
    rcases List.mem_cons.1 hy with rfl | hy
    · exact ⟨_, List.mem_cons_self .., hxy⟩
    · obtain ⟨x, hx, hR⟩ := ih hy
      exact ⟨x, List.mem_cons_of_mem _ hx, hR⟩

theorem bind_eq_ok_iff {x : Except ε α} {f : α → Except ε β} {y : β} :
    x.bind f = .ok y ↔ ∃ a, x = .ok a ∧ f a = .ok y := by
  cases x with
  | error e => simp [Except.bind]
  | ok a => simp [Except.bind]

theorem map_eq_ok_iff {x : Except ε α} {f : α → β} {y : β} :
    x.map f = .ok y ↔ ∃ a, x = .ok a ∧ f a = y := by
  cases x with
  | error e => simp [Except.map]
  | ok a => simp [Except.map]

theorem toOption_eq_some_iff {x : Except ε α} {a : α} : x.toOption = some a ↔ x = .ok a := by
  cases x with
  | error e => simp [Except.toOption]
  | ok b => simp [Except.toOption]

theorem foldlM_cons_eq {f : β → α → Except ε β} {b : β} {x : α} {xs : List α} :
    (x :: xs).foldlM f b = (f b x).bind fun b => xs.foldlM f b := rfl

theorem mapM_cons_eq {f : α → Except ε β} {x : α} {xs : List α} :
    (x :: xs).mapM f = (f x).bind fun y => (xs.mapM f).map (y :: ·) := by
  rw [List.mapM_cons]
  cases f x with
  | error e => rfl
  | ok y => cases xs.mapM f <;> rfl

/-- A step succeeds along a list exactly when it does at every element. -/
theorem mapM_eq_ok_iff {f : α → Except ε β} {xs : List α} {ys : List β} :
    xs.mapM f = .ok ys ↔ List.Forall₂ (fun x y => f x = .ok y) xs ys := by
  induction xs generalizing ys with
  | nil =>
    rw [List.mapM_nil, List.forall₂_nil_left_iff]
    show Except.ok [] = Except.ok ys ↔ ys = []
    rw [Except.ok.injEq]
    exact eq_comm
  | cons x rest ih =>
    rw [mapM_cons_eq, bind_eq_ok_iff, List.forall₂_cons_left_iff]
    constructor
    · intro h
      obtain ⟨y, hy, h⟩ := h
      obtain ⟨zs, hzs, rfl⟩ := map_eq_ok_iff.1 h
      exact ⟨y, zs, hy, ih.1 hzs, rfl⟩
    · intro h
      obtain ⟨y, zs, hy, hzs, rfl⟩ := h
      exact ⟨y, hy, map_eq_ok_iff.2 ⟨zs, ih.2 hzs, rfl⟩⟩

theorem map_eq_error_iff {x : Except ε α} {f : α → β} {e : ε} :
    x.map f = .error e ↔ x = .error e := by
  cases x with
  | error e' => simp [Except.map]
  | ok a => exact iff_of_false nofun nofun

theorem mapError_eq_ok_iff {ε' : Type} {x : Except ε α} {f : ε → ε'} {y : α} :
    x.mapError f = .ok y ↔ x = .ok y := by
  cases x with
  | error e => exact iff_of_false nofun nofun
  | ok a => simp [Except.mapError]

theorem mapError_eq_error_iff {ε' : Type} {x : Except ε α} {f : ε → ε'} {e : ε'} :
    x.mapError f = .error e ↔ ∃ e', x = .error e' ∧ f e' = e := by
  cases x with
  | error e' => simp [Except.mapError]
  | ok a => exact iff_of_false nofun nofun

theorem bind_eq_error_iff {x : Except ε α} {f : α → Except ε β} {e : ε} :
    x.bind f = .error e ↔ x = .error e ∨ ∃ a, x = .ok a ∧ f a = .error e := by
  cases x with
  | error e' => simp [Except.bind]
  | ok a => simp [Except.bind]

/-- A step fails along a list for what it fails for at one of the elements. -/
theorem exists_of_mapM_eq_error {f : α → Except ε β} {xs : List α} {e : ε}
    (h : xs.mapM f = .error e) : ∃ x ∈ xs, f x = .error e := by
  induction xs with
  | nil => cases h
  | cons x rest ih =>
    rw [mapM_cons_eq] at h
    cases hf : f x with
    | error e' =>
      rw [hf] at h
      cases h
      exact ⟨x, List.mem_cons_self .., hf⟩
    | ok y =>
      rw [hf] at h
      obtain ⟨x', hx', he⟩ := ih (map_eq_error_iff.1 h)
      exact ⟨x', List.mem_cons_of_mem _ hx', he⟩

theorem mapM_eq_error_of_first {f : α → Except ε β} {before after : List α} {x : α} {e : ε}
    (hbefore : ∀ y ∈ before, ∃ z, f y = .ok z) (hx : f x = .error e) :
    (before ++ x :: after).mapM f = .error e := by
  induction before with
  | nil =>
    rw [List.nil_append, mapM_cons_eq, hx]
    rfl
  | cons y rest ih =>
    obtain ⟨z, hz⟩ := hbefore y (List.mem_cons_self ..)
    rw [List.cons_append, mapM_cons_eq, hz, ih fun y hy => hbefore y (List.mem_cons_of_mem _ hy)]
    rfl

end XmlScript
