import XmlScript.Proofs.Execution

/-!
# Saved cursors

Only `push` and `pop` touch the saved cursors, and only `pop` can find that there are none
(`saved_execute`, `execute_eq_emptyStack_iff`). So the number of saved cursors is the number of
pushes less that of pops, and a script runs out of them at the first place where it has asked for
more than it saved, if nothing fails before; and what a balanced block saves it also takes back, so
that whatever was saved before the block lies under it untouched (`saved_runFrom`).
-/

namespace XmlScript

namespace Script

/-- How often a script saves the current nodes. -/
def pushes (s : Script) : Nat := s.count .push

/-- How often a script returns to saved nodes. -/
def pops (s : Script) : Nat := s.count .pop

/-- A block in which no prefix returns more often than it saves, and the whole as often. -/
structure Balanced (b : Script) : Prop where
  pops_le : ∀ a, a <+: b → pops a ≤ pushes a
  pops_eq : pops b = pushes b

/-- The first place of a script, counted from one, up to which it returns more often than it
saves. -/
structure UnderflowsAt (s : Script) (position : Nat) : Prop where
  exceeds : pushes (s.take position) < pops (s.take position)
  first : ∀ q < position, pops (s.take q) ≤ pushes (s.take q)

/-! ## Counting -/

variable {d : Directive} {a s : Script}

theorem pushes_append : pushes (a ++ s) = pushes a + pushes s := List.count_append

theorem pops_append : pops (a ++ s) = pops a + pops s := List.count_append

theorem pushes_pop : pushes (.pop :: s) = pushes s := List.count_cons_of_ne (by decide)

theorem pops_pop : pops (.pop :: s) = pops s + 1 := List.count_cons_self

theorem pushes_of_ne (h : d ≠ .push) : pushes (d :: s) = pushes s := List.count_cons_of_ne h

theorem pops_of_ne (h : d ≠ .pop) : pops (d :: s) = pops s := List.count_cons_of_ne h

/-- A script runs out of saved cursors at a `pop` that comes when as many were taken as saved. -/
theorem underflowsAt_append (h : ∀ a', a' <+: a → pops a' ≤ pushes a') (heq : pops a = pushes a) :
    UnderflowsAt (a ++ .pop :: s) (1 + a.length) where
  exceeds := by
    rw [List.take_append, List.take_of_length_le (by omega), Nat.add_sub_cancel]
    show pushes (a ++ [.pop]) < pops (a ++ [.pop])
    rw [pushes_append, pops_append, pushes_pop, pops_pop, heq]
    exact Nat.lt_succ_self _
  first q hq := by
    rw [List.take_append_of_le_length (by omega)]
    exact h _ (List.take_prefix q a)

/-- The first place where a script returns too often is such a `pop`. -/
theorem UnderflowsAt.exists_append {position : Nat} (h : UnderflowsAt s position) :
    ∃ b, s = s.take (position - 1) ++ .pop :: b ∧
      position = 1 + (s.take (position - 1)).length ∧
      pops (s.take (position - 1)) = pushes (s.take (position - 1)) := by
  obtain ⟨hexceeds, hfirst⟩ := h
  have hle : position ≤ s.length := by
    by_cases hle : position ≤ s.length
    · exact hle
    · have hall := hfirst s.length (by omega)
      rw [List.take_of_length_le (Nat.le_refl _)] at hall
      rw [List.take_of_length_le (by omega)] at hexceeds
      omega
  cases position with
  | zero => exact absurd hexceeds (Nat.lt_irrefl 0)
  | succ n =>
    have hn : n < s.length := hle
    have hbefore := hfirst n (Nat.lt_succ_self n)
    rw [List.take_succ_eq_append_getElem hn, pushes_append, pops_append] at hexceeds
    -- up to here there was enough, so this directive is what takes too much
    have hpop : s[n] = .pop := by
      by_cases hpop : s[n] = .pop
      · exact hpop
      · rw [pops_of_ne hpop] at hexceeds
        exact absurd hexceeds (Nat.not_lt.2 (Nat.le_add_right_of_le hbefore))
    rw [hpop, pushes_pop, pops_pop] at hexceeds
    refine ⟨s.drop (n + 1), ?_, ?_, ?_⟩
    · show s = s.take n ++ .pop :: s.drop (n + 1)
      rw [← hpop, ← List.drop_eq_getElem_cons hn, List.take_append_drop]
    · show n + 1 = 1 + (s.take n).length
      rw [List.length_take]
      omega
    · exact Nat.le_antisymm hbefore (Nat.le_of_lt_succ hexceeds)

end Script

namespace Engine

open Script (pushes pops Balanced UnderflowsAt)

variable {directive : Directive} {c c' : Cursor Node} {s s' : State}

/-! ## One directive -/

theorem moved_ne_emptyStack (r : Except EditError (List Node) × Document) :
    (moved s r).1 ≠ .error .emptyStack := by
  obtain ⟨r, d⟩ := r
  cases r <;> nofun

theorem parents_ne_emptyStack (ascent : Ascent) (d : Document) :
    parents ascent c d ≠ .error .emptyStack := by
  intro h
  obtain ⟨path, hpath⟩ := parents_eq_error h
  cases hpath

theorem selected_ne_emptyStack (r : Except QueryError (List Node)) :
    (r.mapError ExecutionError.query).map Cursor.ofList ≠ .error .emptyStack := by
  cases r <;> nofun

/-- A directive other than `push` and `pop` leaves the saved cursors alone and does not ask for
them. -/
theorem saved_execute (hpush : directive ≠ .push) (hpop : directive ≠ .pop) :
    (execute directive c s).2.saved = s.saved ∧
      (execute directive c s).1 ≠ .error .emptyStack := by
  cases directive with
  | addElement _ | ensureElement _ | setText _ | setAttribute _ _ | addComment _ | addCData _
  | setNamespace _ => exact ⟨rfl, moved_ne_emptyStack _⟩
  | computeAttribute _ query | computeText query =>
    simp only [execute, editComputed]
    split
    next => exact ⟨rfl, by simp⟩
    next => exact ⟨rfl, moved_ne_emptyStack _⟩
  | remove =>
    simp only [execute]
    split
    next e he =>
      refine ⟨rfl, fun h => ?_⟩
      cases h
      exact parents_ne_emptyStack _ _ he
    next => exact ⟨rfl, fun h => moved_ne_emptyStack _ (map_eq_error_iff.1 h)⟩
  | addInstruction target data =>
    simp only [execute]
    split
    next =>
      split
      next => exact ⟨rfl, by simp⟩
      next => exact ⟨rfl, by simp⟩
    next => exact ⟨rfl, moved_ne_emptyStack _⟩
  | up => exact ⟨rfl, parents_ne_emptyStack _ _⟩
  | select query => exact ⟨rfl, selected_ne_emptyStack _⟩
  | expect count =>
    simp only [execute]
    split
    next => exact ⟨rfl, by simp⟩
    next => exact ⟨rfl, by simp⟩
  | push => exact absurd rfl hpush
  | pop => exact absurd rfl hpop

theorem execute_push : execute .push c s = (.ok c, { s with saved := c :: s.saved }) := rfl

theorem execute_pop_cons {rest : Stack Node} (h : s.saved = c' :: rest) :
    execute .pop c s = (.ok c', { s with saved := rest }) := by
  unfold execute
  rw [h]
  rfl

theorem execute_pop_nil (h : s.saved = []) : execute .pop c s = (.error .emptyStack, s) := by
  unfold execute
  rw [h]
  rfl

/-- Saved cursors are missed by `pop` only, when there are none. -/
theorem execute_eq_emptyStack_iff :
    (execute directive c s).1 = .error .emptyStack ↔ directive = .pop ∧ s.saved = [] := by
  by_cases hpop : directive = .pop
  · subst hpop
    cases hs : s.saved with
    | nil => rw [execute_pop_nil hs]; simp
    | cons c' rest => rw [execute_pop_cons hs]; simp
  · refine iff_of_false ?_ fun h => hpop h.1
    by_cases hpush : directive = .push
    · subst hpush
      nofun
    · exact (saved_execute hpush hpop).2

/-- What a directive adds to the saved cursors is what it counts for. -/
theorem length_saved_execute (h : execute directive c s = (.ok c', s')) :
    s'.saved.length + pops [directive] = s.saved.length + pushes [directive] := by
  by_cases hpop : directive = .pop
  · subst hpop
    cases hs : s.saved with
    | nil =>
      rw [execute_pop_nil hs] at h
      cases h
    | cons c' rest =>
      rw [execute_pop_cons hs] at h
      cases h
      rfl
  · by_cases hpush : directive = .push
    · subst hpush
      cases h
      rfl
    · have hsaved := (saved_execute (c := c) (s := s) hpush hpop).1
      rw [h] at hsaved
      rw [Script.pops_of_ne hpop, Script.pushes_of_ne hpush, hsaved]
      rfl

/-- Cursors that a directive has others to take before stay where they are. -/
theorem suffix_saved_execute {under : Stack Node} (c : Cursor Node) (h : under <:+ s.saved)
    (hroom : under.length + pops [directive] ≤ s.saved.length + pushes [directive]) :
    under <:+ (execute directive c s).2.saved := by
  by_cases hpop : directive = .pop
  · subst hpop
    cases hs : s.saved with
    | nil =>
      rw [execute_pop_nil hs]
      exact h
    | cons c' rest =>
      rw [execute_pop_cons hs]
      rw [hs] at h hroom
      -- there is room, so the cursor that is taken is none of those below
      rcases List.suffix_cons_iff.1 h with rfl | h
      · exact absurd hroom (by simp [pops, pushes])
      · exact h
  · by_cases hpush : directive = .push
    · subst hpush
      exact h.trans (List.suffix_cons ..)
    · rw [(saved_execute hpush hpop).1]
      exact h

/-! ## Scripts -/

section

variable {p : Nat} {rest : Script} {s₁ : State}

theorem runFrom_cons_of_ok (h : execute directive c s = (.ok c', s')) :
    runFrom p (directive :: rest) c s = runFrom (p + 1) rest c' s' := by
  rw [runFrom, h]

theorem runFrom_cons_of_error {cause : ExecutionError}
    (h : execute directive c s = (.error cause, s')) :
    runFrom p (directive :: rest) c s = (.error ⟨p, directive, cause⟩, s') := by
  rw [runFrom, h]

/-- A script that does not fail has come past its first directive. -/
theorem runFrom_cons_eq_ok_iff : runFrom p (directive :: rest) c s = (.ok c', s') ↔
    ∃ c₁ s₁, execute directive c s = (.ok c₁, s₁) ∧
      runFrom (p + 1) rest c₁ s₁ = (.ok c', s') := by
  rcases he : execute directive c s with ⟨r, s₁⟩
  cases r with
  | error cause =>
    rw [runFrom_cons_of_error he]
    exact iff_of_false nofun (by simp)
  | ok c₁ =>
    rw [runFrom_cons_of_ok he]
    constructor
    · intro h
      exact ⟨c₁, s₁, rfl, h⟩
    · intro h
      obtain ⟨c₂, s₂, he₂, h⟩ := h
      cases he₂
      exact h

/-- A script in two parts runs the second where the first has led. -/
theorem runFrom_append_of_ok {a : Script} (h : runFrom p a c s = (.ok c', s')) :
    runFrom p (a ++ rest) c s = runFrom (p + a.length) rest c' s' := by
  induction a generalizing p c s with
  | nil =>
    cases h
    rfl
  | cons d tail ih =>
    obtain ⟨c₁, s₁, he, h⟩ := runFrom_cons_eq_ok_iff.1 h
    rw [List.cons_append, runFrom_cons_of_ok he, ih h, List.length_cons, Nat.add_assoc p 1,
      Nat.add_comm 1]

/-- A script that does not fail has not failed earlier. -/
theorem runFrom_of_prefix {a b : Script} (hab : a <+: b) (h : runFrom p b c s = (.ok c', s')) :
    ∃ c₁ s₁, runFrom p a c s = (.ok c₁, s₁) := by
  induction a generalizing b p c s with
  | nil => exact ⟨c, s, rfl⟩
  | cons d tail ih =>
    obtain ⟨b, rfl, htail⟩ := List.cons_prefix_iff.1 hab
    obtain ⟨c₁, s₁, he, h⟩ := runFrom_cons_eq_ok_iff.1 h
    obtain ⟨c₂, s₂, hrest⟩ := ih htail h
    exact ⟨c₂, s₂, runFrom_cons_eq_ok_iff.2 ⟨c₁, s₁, he, hrest⟩⟩

/-- A script fails at a directive that fails where those before it have led. -/
theorem runFrom_eq_error_iff {script : Script} {e : ApplyError} :
    (runFrom p script c s).1 = .error e ↔
      ∃ a b c₁ s₁, script = a ++ e.directive :: b ∧ e.position = p + a.length ∧
        runFrom p a c s = (.ok c₁, s₁) ∧ (execute e.directive c₁ s₁).1 = .error e.cause := by
  constructor
  · intro h
    induction script generalizing p c s with
    | nil => cases h
    | cons d tail ih =>
      rcases he : execute d c s with ⟨r, s₁⟩
      cases r with
      | error cause =>
        rw [runFrom_cons_of_error he] at h
        cases h
        exact ⟨[], tail, c, s, rfl, rfl, rfl, congrArg Prod.fst he⟩
      | ok c₁ =>
        rw [runFrom_cons_of_ok he] at h
        obtain ⟨a, b, c₂, s₂, rfl, hp, ha, hcause⟩ := ih h
        refine ⟨d :: a, b, c₂, s₂, rfl, ?_, ?_, hcause⟩
        · rw [hp, List.length_cons]
          omega
        · rw [runFrom_cons_of_ok he, ha]
  · intro h
    obtain ⟨a, b, c₁, s₁, rfl, hp, ha, hcause⟩ := h
    rw [runFrom_append_of_ok ha]
    rcases he : execute e.directive c₁ s₁ with ⟨r, s₂⟩
    rw [he] at hcause
    cases hcause
    rw [runFrom_cons_of_error he, ← hp]

/-- A script that does not fail ends with as many cursors saved as it counts for. -/
theorem length_saved_runFrom {a : Script} (h : runFrom p a c s = (.ok c', s')) :
    s'.saved.length + pops a = s.saved.length + pushes a := by
  induction a generalizing p c s with
  | nil =>
    cases h
    rfl
  | cons d tail ih =>
    obtain ⟨c₁, s₁, he, h⟩ := runFrom_cons_eq_ok_iff.1 h
    have hstep := length_saved_execute he
    have hrest := ih h
    rw [← List.singleton_append, Script.pops_append, Script.pushes_append]
    omega

/-- Cursors that a block never gets down to stay where they are, whether the block fails or
not. -/
theorem suffix_saved_runFrom {b : Script} {under : Stack Node} (c : Cursor Node)
    (h : under <:+ s.saved)
    (hb : ∀ a, a <+: b → under.length + pops a ≤ s.saved.length + pushes a) :
    under <:+ (runFrom p b c s).2.saved := by
  induction b generalizing p c s with
  | nil => exact h
  | cons d tail ih =>
    have hstep := suffix_saved_execute c h (hb [d] (by simp))
    rcases he : execute d c s with ⟨r, s₁⟩
    rw [he] at hstep
    cases r with
    | error cause =>
      rw [runFrom_cons_of_error he]
      exact hstep
    | ok c₁ =>
      rw [runFrom_cons_of_ok he]
      refine ih c₁ hstep fun a ha => ?_
      have hroom := hb (d :: a) (by simpa using ha)
      have hlength := length_saved_execute he
      rw [← List.singleton_append, Script.pops_append, Script.pushes_append] at hroom
      omega

end

/-! ## Blocks and whole scripts -/

/-- What is saved before a block that never asks for it stays under what the block saves. -/
theorem suffix_saved_push {b : Script} {p : Nat} (hb : ∀ a, a <+: b → pops a ≤ pushes a) :
    c :: s.saved <:+ (runFrom p (.push :: b) c s).2.saved := by
  rw [runFrom_cons_of_ok execute_push]
  exact suffix_saved_runFrom c (List.suffix_refl _) fun a ha => Nat.add_le_add_left (hb a ha) _

/-- A balanced block between `push` and `pop` that does not fail restores what it started from. -/
theorem runFrom_push_pop {b : Script} {p : Nat} (hb : Balanced b)
    (h : runFrom p (.push :: (b ++ [.pop])) c s = (.ok c', s')) :
    c' = c ∧ s'.saved = s.saved := by
  rw [runFrom_cons_of_ok execute_push] at h
  obtain ⟨c₁, s₁, h₁⟩ := runFrom_of_prefix (List.prefix_append b [.pop]) h
  have hunder : c :: s.saved <:+ (runFrom p (.push :: b) c s).2.saved :=
    suffix_saved_push hb.pops_le
  rw [runFrom_cons_of_ok execute_push, h₁] at hunder
  replace hunder : c :: s.saved <:+ s₁.saved := hunder
  -- nothing is left above the frame, so this is what `pop` returns to
  have hlength := length_saved_runFrom h₁
  have hsaved : s₁.saved = c :: s.saved := by
    refine (hunder.eq_of_length ?_).symm
    have hpops := hb.pops_eq
    change s₁.saved.length + pops b = (c :: s.saved).length + pushes b at hlength
    omega
  rw [runFrom_append_of_ok h₁, runFrom_cons_of_ok (execute_pop_cons hsaved)] at h
  cases h
  exact ⟨rfl, rfl⟩

theorem apply_eq_error_iff {script : Script} {d : Document} {e : ApplyError} :
    (apply script d).1 = .error e ↔ (runFrom 1 script start { document := d }).1 = .error e :=
  map_eq_error_iff

theorem apply_eq_ok_iff {script : Script} {d : Document} : (apply script d).1 = .ok () ↔
    ∃ c s, runFrom 1 script start { document := d } = (.ok c, s) := by
  constructor
  · intro h
    obtain ⟨c, hc, -⟩ := map_eq_ok_iff.1 h
    exact ⟨c, _, Prod.ext hc rfl⟩
  · intro h
    obtain ⟨c, s, h⟩ := h
    exact map_eq_ok_iff.2 ⟨c, congrArg Prod.fst h, rfl⟩

/-- A script that does not fail has nowhere returned more often than it had saved. -/
theorem pops_le_of_apply {a b : Script} {d : Document} (hab : a <+: b)
    (h : (apply b d).1 = .ok ()) : pops a ≤ pushes a := by
  obtain ⟨c, s, h⟩ := apply_eq_ok_iff.1 h
  obtain ⟨c₁, s₁, h₁⟩ := runFrom_of_prefix hab h
  have hlength := length_saved_runFrom h₁
  change s₁.saved.length + pops a = 0 + pushes a at hlength
  omega

theorem apply_emptyStack_iff {script : Script} {d : Document} {position : Nat} :
    (∃ directive, (apply script d).1 = .error ⟨position, directive, .emptyStack⟩) ↔
      (apply (script.take (position - 1)) d).1 = .ok () ∧ UnderflowsAt script position := by
  constructor
  · intro h
    obtain ⟨directive, h⟩ := h
    obtain ⟨a, b, c₁, s₁, rfl, rfl, ha, he⟩ := runFrom_eq_error_iff.1 (apply_eq_error_iff.1 h)
    obtain ⟨rfl, hempty⟩ := execute_eq_emptyStack_iff.1 he
    have hok : (apply a d).1 = .ok () := apply_eq_ok_iff.2 ⟨c₁, s₁, ha⟩
    have hlength := length_saved_runFrom ha
    rw [hempty] at hlength
    have heq : pops a = pushes a := Nat.add_left_cancel hlength
    show (apply ((a ++ .pop :: b).take (1 + a.length - 1)) d).1 = .ok () ∧ _
    rw [Nat.add_sub_cancel_left, List.take_left]
    exact ⟨hok, Script.underflowsAt_append (fun a' ha' => pops_le_of_apply ha' hok) heq⟩
  · intro h
    obtain ⟨hok, hunder⟩ := h
    obtain ⟨b, hscript, hposition, hcount⟩ := hunder.exists_append
    obtain ⟨c₁, s₁, ha⟩ := apply_eq_ok_iff.1 hok
    have hlength := length_saved_runFrom ha
    rw [hcount] at hlength
    -- as many were taken as saved, so none is left for `pop`
    have hempty : s₁.saved = [] := List.eq_nil_of_length_eq_zero (Nat.add_right_cancel hlength)
    refine ⟨.pop, apply_eq_error_iff.2 (runFrom_eq_error_iff.2 ?_)⟩
    exact ⟨_, b, c₁, s₁, hscript, hposition, ha, execute_eq_emptyStack_iff.2 ⟨rfl, hempty⟩⟩

/-- A balanced block between `push` and `pop` that does not fail ends with the cursor and the saved
cursors that it started with, and at no point of it, fail as it may, has any of these changed. A
script fails for want of a saved cursor exactly at the first place where it has returned more often
than it saved, if it comes so far. -/
theorem stack_discipline :
    (∀ (b : Script) (p : Nat) (c : Cursor Node) (s : State), Balanced b →
      (∀ c' s', runFrom p (.push :: (b ++ [.pop])) c s = (.ok c', s') →
        c' = c ∧ s'.saved = s.saved) ∧
      ∀ a, a <+: b → c :: s.saved <:+ (runFrom p (.push :: a) c s).2.saved) ∧
    ∀ (script : Script) (d : Document) (position : Nat),
      (∃ directive, (apply script d).1 = .error ⟨position, directive, .emptyStack⟩) ↔
        (apply (script.take (position - 1)) d).1 = .ok () ∧ UnderflowsAt script position := by
  refine ⟨fun b p c s hb => ⟨fun c' s' h => runFrom_push_pop hb h, fun a ha => ?_⟩,
    fun script d position => apply_emptyStack_iff⟩
  exact suffix_saved_push fun a' ha' => hb.pops_le a' (ha'.trans ha)

/-- A nested block that takes its element out again, and a script that returns once too often. -/
theorem stack_discipline_nested :
    let b : Script := [.addElement ⟨"a", Literal.check_eq_ok_iff.1 rfl⟩, .push, .remove, .pop]
    let s : State := { document := .empty }
    Balanced b ∧
      (∃ s', runFrom 1 (.push :: (b ++ [.pop])) start s = (.ok start, s') ∧ s'.saved = []) ∧
      UnderflowsAt [.push, .pop, .pop] 3 ∧
      ∃ directive, (apply [.push, .pop, .pop] .empty).1 = .error ⟨3, directive, .emptyStack⟩ := by
  intro b s
  have hb : Balanced b := by
    refine ⟨fun a ha => ?_, by decide⟩
    rw [List.prefix_iff_eq_take.1 ha]
    exact (by decide : ∀ n < 5, pops (b.take n) ≤ pushes (b.take n)) _
      (Nat.lt_succ_of_le ha.length_le)
  have hunder : UnderflowsAt [.push, .pop, .pop] 3 := ⟨by decide, by decide⟩
  rcases hr : runFrom 1 (.push :: (b ++ [.pop])) start s with ⟨r, s'⟩
  cases r with
  | error e =>
    have hok : (runFrom 1 (.push :: (b ++ [.pop])) start s).1.isOk = true := by decide +kernel
    rw [hr] at hok
    cases hok
  | ok c' =>
    obtain ⟨rfl, hsaved⟩ := (stack_discipline.1 b 1 start s hb).1 c' s' hr
    exact ⟨hb, ⟨s', hr, hsaved⟩, hunder,
      (stack_discipline.2 [.push, .pop, .pop] .empty 3).2 ⟨by decide +kernel, hunder⟩⟩

end Engine

end XmlScript
