import XmlScript.Proofs.Layout

/-!
# Text between markup

A text of some pieces is markup with text between: `between` cuts a list of pieces there, so that it
does not matter how the text between two pieces of markup is divided. That is what can be known of
pieces that are written one after the other and read again (`reads_of_consists`), since neighbouring
texts are then one.

A written document is a list of `Segment`s, pieces of markup with the run right before each, if
there is one (`exists_segments`). Its markup reads back whatever else is put in the places of the
runs (`consists_assemble`).
-/

namespace XmlScript.Markup

open Text (cutAt)

/-! ## Cutting at markup -/

/-- The pieces of markup, each after the text right before it, and the text after the last one.
`gap` is the text since the markup before. -/
def between (gap : List Char) : List Piece → List (List Char × Option Piece)
  | [] => [(gap, none)]
  | p :: rest =>
    if p.isMarkup then (gap, some p) :: between [] rest else between (gap ++ p.written) rest

theorem between_mark {p : Piece} (hp : p.isMarkup = true) (gap : List Char) (rest : List Piece) :
    between gap (p :: rest) = (gap, some p) :: between [] rest := by
  rw [between, if_pos hp]

theorem between_fill {xs : List Piece} (h : ∀ p ∈ xs, p.isMarkup = false) (gap : List Char)
    (rest : List Piece) :
    between gap (xs ++ rest) = between (gap ++ xs.flatMap Piece.written) rest := by
  induction xs generalizing gap with
  | nil => rw [List.nil_append, List.flatMap_nil, List.append_nil]
  | cons p xs ih =>
    rw [List.forall_mem_cons] at h
    rw [List.cons_append, between, if_neg (by rw [h.1]; exact Bool.false_ne_true), ih h.2,
      List.flatMap_cons, List.append_assoc]

/-! ## Pieces that may be written next to each other -/

/-- A text that opens no markup, or a section that does not hold its own end. -/
def IsFiller : Piece → Prop
  | .text s => s ≠ [] ∧ '<' ∉ s
  | .cdata s => ¬ sectionEnd <:+: s
  | _ => False

theorem IsFiller.isMarkup_eq {p : Piece} (h : IsFiller p) : p.isMarkup = false := by
  cases p with
  | text s | cdata s => rfl
  | _ => cases h

/-- Markup that is found where it is written, inside the open elements. -/
inductive Marks : (openNames : List (List Char)) → List Piece → Prop
  | nil (openNames : List (List Char)) : Marks openNames []
  | cons {openNames openNames' : List (List Char)} {p : Piece} {ps : List Piece}
    (hm : p.isMarkup = true) (hp : Opens p) (ho : openAfter openNames p = .ok openNames')
    (h : Marks openNames' ps) : Marks openNames (p :: ps)

theorem Marks.isMarkup_of_mem {openNames : List (List Char)} {ps : List Piece} {p : Piece}
    (h : Marks openNames ps) (hmem : p ∈ ps) : p.isMarkup = true := by
  induction h with
  | nil => cases hmem
  | cons hm _ _ _ ih =>
    rcases List.mem_cons.1 hmem with rfl | hmem
    · exact hm
    · exact ih hmem

/-- Such markup with fillers between. -/
inductive Consists : (openNames : List (List Char)) → List Piece → Prop
  | nil (openNames : List (List Char)) : Consists openNames []
  | mark {openNames openNames' : List (List Char)} {p : Piece} {ps : List Piece}
    (hm : p.isMarkup = true) (hp : Opens p) (ho : openAfter openNames p = .ok openNames')
    (h : Consists openNames' ps) : Consists openNames (p :: ps)
  | fill {openNames : List (List Char)} {p : Piece} {ps : List Piece} (hp : IsFiller p)
    (h : Consists openNames ps) : Consists openNames (p :: ps)

variable {names : List (List Char)} {ps : List Piece} {s : List Char}

theorem Consists.fill_all {xs : List Piece} (hx : ∀ p ∈ xs, IsFiller p)
    (h : Consists names ps) : Consists names (xs ++ ps) := by
  induction xs with
  | nil => exact h
  | cons p rest ih =>
    rw [List.forall_mem_cons] at hx
    exact .fill hx.1 (ih hx.2)

theorem opens_cdata (h : ¬ sectionEnd <:+: s) : Opens (.cdata s) := by
  refine ⟨'!' :: ("[CDATA[".toList ++ s ++ "]]>".toList), rfl, fun after => ?_⟩
  have hcut := Text.cutAt_sectionEnd h after
  show readBang ('[' :: ("CDATA[".toList ++ (s ++ [']', ']', '>']) ++ after)) = _
  have hfront :
      "CDATA[".toList.isPrefixOf ("CDATA[".toList ++ (s ++ [']', ']', '>']) ++ after) := by
    rw [List.append_assoc]
    exact List.isPrefixOf_iff_prefix.2 (List.prefix_append _ _)
  have hdrop : ("CDATA[".toList ++ (s ++ [']', ']', '>']) ++ after).drop 6 =
      s ++ [']', ']', '>'] ++ after := rfl
  unfold readBang
  simp only [if_pos hfront, hdrop, show "]]>".toList = [']', ']', '>'] from rfl, hcut]

/-- A text in front of pieces that have been read becomes one with a text that they begin with. -/
theorem reads_text_append {t : List Char} (hs : s ≠ []) (hlt : '<' ∉ s) (h : Reads names t ps) :
    ∃ qs, Reads names (s ++ t) qs ∧ ∀ gap, between gap qs = between (gap ++ s) ps := by
  cases h with
  | nil => exact ⟨[.text s], .text hs hlt nofun (.nil names), fun _ => rfl⟩
  | mark hp ho h =>
    exact ⟨.text s :: _ :: _, .text hs hlt (beginsMarkup_written hp _) (.mark hp ho h),
      fun _ => rfl⟩
  | @text _ s' after ps hs' hlt' ha h =>
    refine ⟨.text (s ++ s') :: ps, ?_, fun gap => ?_⟩
    · rw [← List.append_assoc]
      refine .text (fun he => hs (List.append_eq_nil_iff.1 he).1) (fun hmem => ?_) ha h
      rcases List.mem_append.1 hmem with hmem | hmem
      · exact hlt hmem
      · exact hlt' hmem
    · show between (gap ++ (s ++ s')) ps = between (gap ++ s ++ s') ps
      rw [List.append_assoc]

/-- What is written of such pieces is read as them, but for the division of the texts. -/
theorem reads_of_consists (h : Consists names ps) :
    ∃ qs, Reads names (ps.flatMap Piece.written) qs ∧ ∀ gap, between gap qs = between gap ps := by
  induction h with
  | nil names => exact ⟨[], .nil names, fun _ => rfl⟩
  | @mark _ _ p _ hm hp ho _ ih =>
    obtain ⟨qs, hqs, hbetween⟩ := ih
    refine ⟨p :: qs, .mark hp ho hqs, fun gap => ?_⟩
    rw [between_mark hm, between_mark hm, hbetween]
  | @fill _ p _ hp _ ih =>
    obtain ⟨qs, hqs, hbetween⟩ := ih
    cases p with
    | text s =>
      obtain ⟨qs', hqs', hbetween'⟩ := reads_text_append hp.1 hp.2 hqs
      exact ⟨qs', hqs', fun gap => (hbetween' gap).trans (hbetween _)⟩
    | cdata s => exact ⟨.cdata s :: qs, .mark (opens_cdata hp) rfl hqs, fun gap => hbetween _⟩
    | _ => cases hp

/-! ## Segments -/

/-- A piece of markup, and the run right before it. -/
structure Segment where
  run? : Option Run
  mark : Piece

/-- What is put in the place of a run, if there is one. -/
def filling (f : Run → List Piece) (run? : Option Run) : List Piece := run?.toList.flatMap f

/-- The pieces of some segments, and of the run after the last one. -/
def assemble (f : Run → List Piece) (last? : Option Run) : List Segment → List Piece
  | [] => filling f last?
  | x :: rest => filling f x.run? ++ x.mark :: assemble f last? rest

/-- The runs of some segments, and the run after the last one. -/
def runsOf (last? : Option Run) (segments : List Segment) : List Run :=
  segments.filterMap (·.run?) ++ last?.toList

variable {last? : Option Run} {segments : List Segment}

theorem runsOf_cons (x : Segment) :
    runsOf last? (x :: segments) = x.run?.toList ++ runsOf last? segments := by
  unfold runsOf
  cases hx : x.run? with
  | none => rw [List.filterMap_cons_none hx]; rfl
  | some run => rw [List.filterMap_cons_some hx]; rfl

theorem mem_filling {f : Run → List Piece} {run? : Option Run} {p : Piece}
    (h : p ∈ filling f run?) : ∃ run ∈ run?, p ∈ f run := by
  obtain ⟨run, hrun, hp⟩ := List.mem_flatMap.1 h
  exact ⟨run, Option.mem_toList.1 hrun, hp⟩

/-- Whatever is put in the places of the runs, the markup stays what it is. -/
theorem consists_assemble {f : Run → List Piece}
    (hf : ∀ run ∈ runsOf last? segments, ∀ p ∈ f run, IsFiller p)
    (hm : Marks names (segments.map (·.mark))) : Consists names (assemble f last? segments) := by
  induction segments generalizing names with
  | nil =>
    rw [assemble, ← List.append_nil (filling f last?)]
    refine (Consists.nil names).fill_all fun p hp => ?_
    obtain ⟨run, hrun, hp⟩ := mem_filling hp
    exact hf run (List.mem_append_right _ (Option.mem_toList.2 hrun)) p hp
  | cons x rest ih =>
    rw [runsOf_cons] at hf
    cases hm with
    | cons hmark hp ho h =>
    have hrest := ih (fun run hrun => hf run (List.mem_append_right _ hrun)) h
    refine Consists.fill_all (fun p hp => ?_) (.mark hmark hp ho hrest)
    obtain ⟨run, hrun, hp⟩ := mem_filling hp
    exact hf run (List.mem_append_left _ (Option.mem_toList.2 hrun)) p hp

/-! ## Written documents -/

theorem isText_of_readBang {p : Piece} {after : List Char} (h : readBang s = .ok (p, after)) :
    p.isText = false := by
  unfold readBang at h
  repeat' split at h
  all_goals first
    | cases h; rfl
    | cases h

/-- What stands behind a bracket is no text. -/
theorem isText_of_opens {p : Piece} (h : Opens p) : p.isText = false := by
  obtain ⟨inner, -, hread⟩ := h
  have hp := hread []
  unfold readMarkup at hp
  repeat' split at hp
  all_goals first
    | exact isText_of_readBang hp
    | cases hp; rfl
    | cases hp

/-- A text that begins with markup is not read as one that begins with text. -/
theorem not_beginsMarkup_of_reads_text {t : List Char} (h : Reads names s (.text t :: ps)) :
    ¬ BeginsMarkup s := by
  intro hs
  cases h with
  | mark hp =>
    have htext := isText_of_opens hp
    cases htext
  | text ht hlt =>
    obtain ⟨c, rest, rfl⟩ := List.exists_cons_of_ne_nil ht
    exact hlt (hs c rfl ▸ List.mem_cons_self ..)

/-- What is read of runs and markup is a list of segments, in which no run is empty. -/
theorem exists_segments {runs : List Run} (h : Reads names s ps) (hw : Woven runs ps) :
    ∃ segments last?, ps = assemble Run.plain last? segments ∧ runs = runsOf last? segments ∧
      Marks names (segments.map (·.mark)) ∧ ∀ run ∈ runs, run.escaped ≠ [] := by
  induction h generalizing runs with
  | nil names =>
    cases hw
    exact ⟨[], none, rfl, rfl, .nil names, List.forall_mem_nil _⟩
  | @mark _ _ p _ _ hp ho _ ih =>
    cases hw with
    | markup hm hw =>
      obtain ⟨segments, last?, rfl, hruns, hmarks, hne⟩ := ih hw
      exact ⟨⟨none, p⟩ :: segments, last?, rfl, hruns.trans (runsOf_cons ⟨none, p⟩).symm,
        .cons hm hp ho hmarks, hne⟩
    | run hw =>
      have htext := isText_of_opens hp
      cases htext
  | @text _ _ _ _ hs _ ha h ih =>
    cases hw with
    | markup hm hw => cases hm
    | @run run runs _ hw =>
      obtain ⟨segments, last?, rfl, hruns, hmarks, hne⟩ := ih hw
      -- the run goes to the markup that the rest begins with
      cases segments with
      | nil =>
        cases last? with
        | some run' => exact absurd ha (not_beginsMarkup_of_reads_text h)
        | none =>
          refine ⟨[], some run, rfl, ?_, hmarks, List.forall_mem_cons.2 ⟨hs, hne⟩⟩
          rw [hruns]
          rfl
      | cons x rest =>
        obtain ⟨run?, mark⟩ := x
        cases run? with
        | some run' => exact absurd ha (not_beginsMarkup_of_reads_text h)
        | none =>
          refine ⟨⟨some run, mark⟩ :: rest, last?, rfl, ?_, hmarks,
            List.forall_mem_cons.2 ⟨hs, hne⟩⟩
          rw [hruns, runsOf_cons, runsOf_cons]
          rfl

end XmlScript.Markup
