import XmlScript.Proofs.Locality

/-!
# Every node once

`distinct` is what one pass over a list keeps that remembers what it has seen (`fresh_eq`). It keeps
the elements of the list in the order of their first places (`pairwise_idxOf_distinct`), and of two
lists, one behind the other, it keeps what it keeps of the first and then what is new in the second
(`distinct_append`).

Cursors are collected in this way, so none of those that a script comes to or saves has a node
twice. A directive edits at the current nodes one after the other, up to the first refusal, whatever
it comes to (`editedOnce_of_ok`, `editedOnce_of_error`); hence it makes no edit twice at one node.
-/

namespace XmlScript

section

variable {α : Type} [DecidableEq α]

/-- What a pass over a list keeps: of every element that it has not seen, the first. -/
def fresh (seen : List α) : List α → List α
  | [] => []
  | x :: rest => if x ∈ seen then fresh seen rest else x :: fresh (x :: seen) rest

/-- What a pass keeps is what is distinct, but for what had been seen before. -/
theorem fresh_eq (seen xs : List α) : fresh seen xs = (distinct xs).filter (· ∉ seen) := by
  induction xs generalizing seen with
  | nil => rfl
  | cons x rest ih =>
    unfold fresh distinct
    split
    next hx =>
      -- an element that has been seen is left out, here and further on
      rw [ih, List.filter_cons_of_neg (by simpa using hx), List.filter_filter]
      refine List.filter_congr fun y _ => ?_
      by_cases hy : y = x
      · simp [hy, hx]
      · simp [hy]
    next hx =>
      rw [ih, List.filter_cons_of_pos (by simpa using hx), List.filter_filter]
      refine congrArg (x :: ·) (List.filter_congr fun y _ => ?_)
      simp [Bool.and_comm]

theorem distinct_append (xs ys : List α) :
    distinct (xs ++ ys) = distinct xs ++ (distinct ys).filter (· ∉ xs) := by
  induction xs with
  | nil => simp [distinct]
  | cons x rest ih =>
    rw [List.cons_append, distinct, ih, List.filter_append, List.filter_filter, distinct,
      List.cons_append]
    congr 2
    refine List.filter_congr fun y _ => ?_
    simp

/-- What is kept stands in the order of the first places. -/
theorem pairwise_idxOf_distinct (xs : List α) :
    (distinct xs).Pairwise fun x y => xs.idxOf x < xs.idxOf y := by
  induction xs with
  | nil => exact List.Pairwise.nil
  | cons x rest ih =>
    have hlater {y : α} (hy : y ∈ (distinct rest).filter (· ≠ x)) :
        (x :: rest).idxOf y = rest.idxOf y + 1 := by
      have hne : y ≠ x := of_decide_eq_true (List.mem_filter.1 hy).2
      exact List.idxOf_cons_ne rest hne.symm
    refine List.pairwise_cons.2 ⟨fun y hy => ?_, ?_⟩
    · rw [List.idxOf_cons_self, hlater hy]
      exact Nat.succ_pos _
    · refine (ih.filter _).imp_of_mem fun {y z} hy hz hlt => ?_
      rw [hlater hy, hlater hz]
      exact Nat.succ_lt_succ hlt

end

namespace Engine

variable {directive : Directive} {c c' : Cursor Node} {s s' : State} {d d' : Document}

/-! ## What a directive has edited -/

/-- What a directive has done to the document are its edits at these nodes: the first of the current
nodes, in their order, and each of them once. -/
structure EditedOnce (directive : Directive) (c : Cursor Node) (s s' : State) (nodes : List Node) :
    Prop where
  isPrefix : nodes <+: c.nodes
  nodup : nodes.Nodup
  edits : nodes.foldlM (fun d n => editAt directive s.document n d) s.document = .ok s'.document

theorem EditedOnce.of_front {nodes : List Node} (h : nodes <+: c.nodes)
    (hedits : nodes.foldlM (fun d n => editAt directive s.document n d) s.document =
      .ok s'.document) : EditedOnce directive c s s' nodes :=
  ⟨h, h.sublist.nodup c.nodup, hedits⟩

/-- A directive that succeeds has edited at every current node, unless it is an instruction that
goes before the document element. -/
theorem editedOnce_of_ok (hinside : insertsAtTop directive c = false)
    (h : execute directive c s = (.ok c', s')) : EditedOnce directive c s s' c.nodes := by
  have hout := comesTo_execute directive c s
  rw [h] at hout
  cases hout with
  | edited hedits => exact .of_front List.prefix_rfl hedits
  | inserted hd hempty =>
    rw [hd, insertsAtTop, hempty] at hinside
    cases hinside

theorem editedOnce_of_error {e : ExecutionError} (h : execute directive c s = (.error e, s')) :
    ∃ nodes, EditedOnce directive c s s' nodes := by
  have hout := comesTo_execute directive c s
  rw [h] at hout
  cases hout with
  | refused | misnamed => exact ⟨[], .of_front List.nil_prefix rfl⟩
  | stopped hstopped =>
    obtain ⟨before, n, after, hsplit, hbefore, -⟩ := hstopped
    exact ⟨before, .of_front (hsplit ▸ List.prefix_append ..) hbefore⟩

/-! ## Runs -/

/-- A cursor that is collected from a list has what one pass keeps that remembers what it has seen:
the elements of the list, each once, in the order of their first places; of two lists, one behind
the other, it has the cursor of the first and then what is new in that of the second. So in whatever
state a script arrives, neither the current nodes nor the cursors saved have a node twice, and what
a directive does there are its edits at the current nodes, up to the first that is refused and each
of them once; only an instruction without a current node is put elsewhere. -/
theorem every_node_once :
    (∀ {α : Type} [DecidableEq α] (xs ys : List α),
      let kept := (Cursor.ofList xs).nodes
      kept = fresh [] xs ∧ kept.Nodup ∧ (∀ x, x ∈ kept ↔ x ∈ xs) ∧
        kept.Pairwise (fun x y => xs.idxOf x < xs.idxOf y) ∧
        (Cursor.ofList (xs ++ ys)).nodes = kept ++ (Cursor.ofList ys).nodes.filter (· ∉ xs)) ∧
    ∀ (script : Script) (d : Document) (r : Except ApplyError (Cursor Node)) (s : State),
      runFrom 1 script start { document := d } = (r, s) →
        (∀ saved ∈ s.saved, saved.nodes.Nodup) ∧
        ∀ c, r = .ok c → c.nodes.Nodup ∧ ∀ directive, insertsAtTop directive c = false →
          ∃ nodes, EditedOnce directive c s (execute directive c s).2 nodes ∧
            ∀ c', (execute directive c s).1 = .ok c' → nodes = c.nodes := by
  refine ⟨fun {α} _ xs ys => ⟨?_, nodup_distinct xs, fun x => mem_distinct,
    pairwise_idxOf_distinct xs, distinct_append xs ys⟩, fun script d r s _ => ?_⟩
  · show distinct xs = fresh [] xs
    rw [fresh_eq]
    exact (List.filter_eq_self.2 fun x _ => by simp).symm
  · refine ⟨fun saved _ => saved.nodup, fun c _ => ⟨c.nodup, fun directive hinside => ?_⟩⟩
    rcases hr : execute directive c s with ⟨r', s'⟩
    cases r' with
    | ok c' => exact ⟨c.nodes, editedOnce_of_ok hinside hr, fun _ _ => rfl⟩
    | error e =>
      obtain ⟨nodes, hnodes⟩ := editedOnce_of_error hr
      exact ⟨nodes, hnodes, nofun⟩

/-- An element is saved, and one below it is current and saved, when it gets a text; a list with
repetitions is collected. -/
theorem every_node_once_nested :
    let script : Script := [.addElement ⟨"a", Literal.check_eq_ok_iff.1 rfl⟩, .push,
      .addElement ⟨"b", Literal.check_eq_ok_iff.1 rfl⟩, .push]
    let text : Directive := .setText ⟨"t", Literal.check_eq_ok_iff.1 rfl⟩
    let c : Cursor Node := .single (.stored 2)
    (Cursor.ofList [3, 1, 3, 2, 1]).nodes = fresh [] [3, 1, 3, 2, 1] ∧
      ∃ s, runFrom 1 script start { document := .empty } = (.ok c, s) ∧
        s.saved = [c, .single (.stored 1)] ∧ (∀ saved ∈ s.saved, saved.nodes.Nodup) ∧
        EditedOnce text c s (execute text c s).2 c.nodes := by
  intro script text c
  obtain ⟨hlists, hruns⟩ := every_node_once
  rcases hr : runFrom 1 script start { document := .empty } with ⟨r, s⟩
  have hend : (runFrom 1 script start { document := .empty }).1 = .ok c ∧
      (runFrom 1 script start { document := .empty }).2.saved = [c, .single (.stored 1)] ∧
      (execute text c (runFrom 1 script start { document := .empty }).2).1 = .ok c := by
    decide +kernel
  rw [hr] at hend
  obtain ⟨hc, hsaved, htext⟩ := hend
  cases hc
  obtain ⟨hframes, hcursor⟩ := hruns script .empty _ s hr
  obtain ⟨-, hedits⟩ := hcursor c rfl
  obtain ⟨nodes, hnodes, hall⟩ := hedits text rfl
  rw [hall c htext] at hnodes
  exact ⟨(hlists [3, 1, 3, 2, 1] []).1, s, rfl, hsaved, hframes, hnodes⟩

end Engine

end XmlScript
