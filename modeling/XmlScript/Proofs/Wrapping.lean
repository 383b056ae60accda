import XmlScript.Proofs.Canonical
import XmlScript.Proofs.Cut

/-!
# Lines of canonical text

Canonical text is broken into lines by a greedy rule: a line takes statements until they have more
than `margin` characters, and no statement after that. `Script.Wrapped` says this of a division of a
script into lines, without any loop, and there is only one such division (`Wrapped.unique`).

The writer carries the width of the open line along, and the width nought stands for a line that has
not begun. So the text is followed line by line: from anywhere in a line it first goes on to the end
of that line (`exists_line`), and then come the other lines, each with its number
(`exists_lines`). `canonical_wrapped` puts the first line before them.
-/

namespace XmlScript.Script

/-! ## Greedy lines -/

/-- How many characters the statements of a line have, without labels and semicolons. -/
def statementWidth (line : Script) : Nat := (line.flatMap Directive.statement).length

/-- The statements of a line, each with its semicolon. -/
def lineBody (line : Script) : List Char := line.flatMap fun d => Directive.statement d ++ [';']

/-- The text of line number `k`. Every line but the first is labelled with the number of its first
directive, which is how many stand in the lines before it. -/
def lineText (lines : List Script) (k : Nat) (line : Script) : List Char :=
  if k = 0 then lineBody line
  else Nat.toDigits 10 (lines.take k).flatten.length ++ ':' :: lineBody line

/-- A division of a script into lines, each but the last just as long as it takes to pass the
margin. -/
structure Wrapped (s : Script) (lines : List Script) : Prop where
  directives : lines.flatten = s
  nonempty : ∀ line ∈ lines, line ≠ []
  full : ∀ line ∈ lines.dropLast, margin < statementWidth line
  greedy : ∀ line ∈ lines, statementWidth line.dropLast ≤ margin

theorem statementWidth_cons (d : Directive) (line : Script) :
    statementWidth (d :: line) = (Directive.statement d).length + statementWidth line := by
  rw [statementWidth, List.flatMap_cons, List.length_append, statementWidth]

theorem length_statement_pos (d : Directive) : 0 < (Directive.statement d).length := by
  have hkeyword : 0 < d.keyword.text.toList.length := by cases d.keyword <;> decide
  unfold Directive.statement
  split
  next => exact hkeyword
  next =>
    rw [List.length_append]
    omega

theorem statementWidth_append (a b : Script) :
    statementWidth (a ++ b) = statementWidth a + statementWidth b := by
  rw [statementWidth, List.flatMap_append, List.length_append, statementWidth, statementWidth]

namespace Wrapped

variable {s later line : Script} {lines others : List Script}

theorem nil : Wrapped [] [] := ⟨rfl, by simp, by simp, by simp⟩

theorem eq_nil_iff (h : Wrapped s lines) : lines = [] ↔ s = [] := by
  constructor
  · intro hlines
    rw [← h.directives, hlines]
    rfl
  · intro hs
    cases hlines : lines with
    | nil => rfl
    | cons line rest =>
      have hline := h.nonempty line (by rw [hlines]; exact List.mem_cons_self ..)
      have hflat := h.directives
      rw [hs, hlines, List.flatten_cons, List.append_eq_nil_iff] at hflat
      exact absurd hflat.1 hline

/-- A line that is as long as it has to be goes before the lines of what follows it. -/
theorem cons (h : Wrapped later lines) (hline : line ≠ [])
    (hfull : later ≠ [] → margin < statementWidth line)
    (hgreedy : statementWidth line.dropLast ≤ margin) : Wrapped (line ++ later) (line :: lines) := by
  refine ⟨by rw [List.flatten_cons, h.directives], List.forall_mem_cons.2 ⟨hline, h.nonempty⟩, ?_,
    List.forall_mem_cons.2 ⟨hgreedy, h.greedy⟩⟩
  by_cases hlines : lines = []
  · rw [hlines]
    simp
  · rw [List.dropLast_cons_of_ne_nil hlines]
    exact List.forall_mem_cons.2 ⟨hfull fun hlater => hlines (h.eq_nil_iff.2 hlater), h.full⟩

/-- What follows the first line is wrapped too. -/
theorem tail (h : Wrapped s (line :: lines)) : Wrapped lines.flatten lines := by
  refine ⟨rfl, (List.forall_mem_cons.1 h.nonempty).2, fun l hl => h.full l ?_,
    (List.forall_mem_cons.1 h.greedy).2⟩
  cases lines with
  | nil => cases hl
  | cons second rest =>
    rw [List.dropLast_cons_of_ne_nil (by simp)]
    exact List.mem_cons_of_mem _ hl

/-- No first line is longer than another one. -/
theorem eq_nil_of_append {more : Script} (h : Wrapped s (line :: lines))
    (h' : Wrapped s ((line ++ more) :: others)) : more = [] := by
  by_contra hmore
  have hflat := h.directives.trans h'.directives.symm
  rw [List.flatten_cons, List.flatten_cons, List.append_assoc] at hflat
  have hrest := List.append_cancel_left hflat
  have hlines : lines ≠ [] := by
    rintro rfl
    rw [List.flatten_nil, eq_comm, List.append_eq_nil_iff] at hrest
    exact hmore hrest.1
  have hfull := h.full line (by
    rw [List.dropLast_cons_of_ne_nil hlines]
    exact List.mem_cons_self ..)
  have hgreedy := h'.greedy _ (List.mem_cons_self ..)
  rw [List.dropLast_append_of_ne_nil hmore, statementWidth_append] at hgreedy
  omega

/-- A script is wrapped in one way only. -/
theorem unique (h : Wrapped s lines) (h' : Wrapped s others) : lines = others := by
  induction lines generalizing s others with
  | nil => exact (h'.eq_nil_iff.2 (h.eq_nil_iff.1 rfl)).symm
  | cons line lines ih =>
    cases others with
    | nil => exact h.eq_nil_iff.2 (h'.eq_nil_iff.1 rfl)
    | cons other others =>
      have hflat := h.directives.trans h'.directives.symm
      rw [List.flatten_cons, List.flatten_cons] at hflat
      have hline : line = other := by
        rcases List.append_eq_append_iff.1 hflat with ⟨more, hmore, -⟩ | ⟨more, hmore, -⟩
        · rw [hmore] at h'
          rw [hmore, h.eq_nil_of_append h', List.append_nil]
        · rw [hmore] at h
          rw [hmore, h'.eq_nil_of_append h, List.append_nil]
      rw [hline] at hflat ⊢
      have htail := h'.tail
      rw [← List.append_cancel_left hflat] at htail
      rw [ih h.tail htail]

end Wrapped

/-! ## From line to line -/

/-- What is written before a statement: a line feed and a label where a line begins that is not the
first. -/
def lineStart (index width : Nat) : List Char :=
  if 0 < index ∧ width = 0 then '\n' :: (Nat.toDigits 10 index ++ [':']) else []

theorem canonicalFrom_cons (d : Directive) (rest : Script) (index width : Nat) :
    canonicalFrom index width (d :: rest) = lineStart index width ++ (lineBody [d] ++
      canonicalFrom (index + 1) (if margin < width + (Directive.statement d).length then 0
        else width + (Directive.statement d).length) rest) := by
  rw [canonicalFrom]
  simp [lineStart, lineBody]

theorem lineBody_cons (d : Directive) (line : Script) :
    lineBody (d :: line) = lineBody [d] ++ lineBody line := by
  simp [lineBody]

/-- What is written from within a line goes on to the end of the line, and then with the next one. -/
theorem exists_line (d : Directive) (rest : Script) (index width : Nat) (hwidth : width ≤ margin) :
    ∃ line later, rest = line ++ later ∧
      canonicalFrom index width (d :: rest) = lineStart index width ++ (lineBody (d :: line) ++
        canonicalFrom (index + (d :: line).length) 0 later) ∧
      (later ≠ [] → margin < width + statementWidth (d :: line)) ∧
      width + statementWidth (d :: line).dropLast ≤ margin := by
  induction rest generalizing d index width with
  | nil =>
    refine ⟨[], [], rfl, ?_, by simp, hwidth⟩
    rw [canonicalFrom_cons]
    rfl
  | cons e rest ih =>
    rw [canonicalFrom_cons]
    by_cases hfull : margin < width + (Directive.statement d).length
    · refine ⟨[], e :: rest, rfl, ?_, fun _ => ?_, hwidth⟩
      · rw [if_pos hfull]
        rfl
      · rw [statementWidth_cons]
        omega
    · -- the line is open still, and the next statement gets no label
      obtain ⟨line, later, rfl, htext, hover, hgreedy⟩ := ih e (index + 1)
        (width + (Directive.statement d).length) (by omega)
      have hpos := length_statement_pos d
      have hstart : lineStart (index + 1) (width + (Directive.statement d).length) = [] :=
        if_neg (by omega)
      refine ⟨e :: line, later, rfl, ?_, fun hlater => ?_, ?_⟩
      · rw [if_neg hfull, htext, hstart, lineBody_cons d (e :: line), List.nil_append,
          List.append_assoc, List.length_cons, List.length_cons, Nat.add_assoc index,
          Nat.add_comm 1]
        rfl
      · have := hover hlater
        rw [statementWidth_cons]
        omega
      · rw [List.dropLast_cons_of_ne_nil (by simp), statementWidth_cons]
        omega

/-- The text of a line that is not the first one, when `index` directives stand before all lines. -/
def labelledLine (index : Nat) (lines : List Script) (k : Nat) (line : Script) : List Char :=
  Nat.toDigits 10 (index + (lines.take k).flatten.length) ++ ':' :: lineBody line

theorem mapIdx_labelledLine (index : Nat) (line : Script) (lines : List Script) :
    (line :: lines).mapIdx (labelledLine index (line :: lines)) =
      (Nat.toDigits 10 index ++ ':' :: lineBody line) ::
        lines.mapIdx (labelledLine (index + line.length) lines) := by
  rw [List.mapIdx_cons]
  congr 1
  refine congrArg (fun f => lines.mapIdx f) (funext fun k => funext fun l => ?_)
  rw [labelledLine, labelledLine, List.take_succ_cons, List.flatten_cons, List.length_append,
    Nat.add_assoc]

/-- Lines behind others are written each behind a line feed and with the number of its first
directive. -/
theorem exists_lines (s : Script) (index : Nat) (hindex : 0 < index) :
    ∃ lines, Wrapped s lines ∧ canonicalFrom index 0 s =
      (lines.mapIdx (labelledLine index lines)).flatMap ('\n' :: ·) := by
  induction hlength : s.length using Nat.strong_induction_on generalizing s index with
  | _ n ih =>
    cases s with
    | nil => exact ⟨[], Wrapped.nil, rfl⟩
    | cons d rest =>
      obtain ⟨line, later, rfl, htext, hover, hgreedy⟩ := exists_line d rest index 0 (Nat.zero_le _)
      obtain ⟨lines, hwrapped, hlater⟩ := ih later.length
        (by rw [← hlength, List.length_cons, List.length_append]; omega) later
        (index + (d :: line).length) (by omega) rfl
      rw [Nat.zero_add] at hover hgreedy
      refine ⟨(d :: line) :: lines, hwrapped.cons (by simp) hover hgreedy, ?_⟩
      rw [mapIdx_labelledLine, List.flatMap_cons, htext, hlater, lineStart, if_pos ⟨hindex, rfl⟩]
      simp only [List.cons_append, List.append_assoc, List.nil_append]

theorem mapIdx_lineText (line : Script) (lines : List Script) :
    (line :: lines).mapIdx (lineText (line :: lines)) =
      lineBody line :: lines.mapIdx (labelledLine line.length lines) := by
  rw [List.mapIdx_cons]
  congr 1
  refine congrArg (fun f => lines.mapIdx f) (funext fun k => funext fun l => ?_)
  rw [lineText, if_neg (Nat.succ_ne_zero k), labelledLine, List.take_succ_cons, List.flatten_cons,
    List.length_append]

/-- A statement stands on one line. -/
theorem lineFeed_not_mem_statement (d : Directive) : '\n' ∉ Directive.statement d := by
  have hkeyword : '\n' ∉ d.keyword.text.toList := by cases d.keyword <;> decide
  intro hmem
  unfold Directive.statement at hmem
  split at hmem
  next => exact hkeyword hmem
  next =>
    rcases List.mem_append.mp hmem with hmem | hmem
    · exact hkeyword hmem
    rcases List.mem_cons.mp hmem with hmem | hmem
    · exact absurd hmem (by decide)
    rcases Text.mem_of_mem_intercalate hmem with hmem | ⟨literal, hliteral, hmem⟩
    · exact absurd hmem (by decide)
    · -- a literal has no control characters
      obtain ⟨operand, -, rfl⟩ := List.mem_map.mp hliteral
      exact absurd (Literal.le_of_mem_quoted (Or.inl rfl) hmem) (by decide)

/-- Canonical text is broken into lines by a greedy rule, and trimming takes nothing from it. The
lines are separated by single line feeds, since there is none in a statement; on them stand the
statements in their order, each with its semicolon. Every line but the first begins with the number
of its first directive, every line but the last has more than `margin` characters in its statements,
and no line has that many without its last statement. No other lines are like that. -/
theorem canonical_wrapped (s : Script) :
    Text.trim (canonicalFrom 0 0 s) = canonicalFrom 0 0 s ∧
    (∀ d ∈ s, '\n' ∉ Directive.statement d) ∧
    ∃ lines, Wrapped s lines ∧ (∀ others, Wrapped s others → others = lines) ∧
      (canonical s).toList = ['\n'].intercalate (lines.mapIdx (lineText lines)) := by
  refine ⟨trim_canonicalFrom s, fun d _ => lineFeed_not_mem_statement d, ?_⟩
  rw [canonical, trim_canonicalFrom, String.toList_ofList]
  cases s with
  | nil => exact ⟨[], Wrapped.nil, fun _ h => h.unique Wrapped.nil, rfl⟩
  | cons d rest =>
    obtain ⟨line, later, rfl, htext, hover, hgreedy⟩ := exists_line d rest 0 0 (Nat.zero_le _)
    obtain ⟨lines, hwrapped, hlater⟩ := exists_lines later (d :: line).length (by simp)
    rw [Nat.zero_add] at htext hover hgreedy
    have hall := hwrapped.cons (List.cons_ne_nil d line) hover hgreedy
    refine ⟨(d :: line) :: lines, hall, fun _ h => h.unique hall, ?_⟩
    rw [mapIdx_lineText, Text.intercalate_cons, htext, hlater]
    rfl

end XmlScript.Script
