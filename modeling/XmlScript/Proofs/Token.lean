import Mathlib.Data.List.TakeWhile
import XmlScript.Proofs.Cut
import XmlScript.Proofs.Numeral
import XmlScript.Token

/-!
# Which characters form which token

`Token.Spells` gives the five patterns of the script language. Scanning and the patterns agree in
both directions: whatever `scan` takes for a token is spelled by its pattern
(`spells_of_mem_scan`), and the spelling of a token after blanks is scanned as that token alone,
as long as what follows cannot lengthen it (`scan_of_spells`). Only a word can be lengthened,
since every other token has an end of its own.
-/

namespace XmlScript

namespace Token

/-- The characters that form a token. -/
inductive Spells : Token → List Char → Prop
  | semicolon : Spells .semicolon [';']
  | comma : Spells .comma [',']
  | ordinal {digits : List Char} (nonempty : digits ≠ [])
      (digit : ∀ c ∈ digits, c.isDigit = true) : Spells .ordinal (digits ++ [':'])
  | literal {q : Char} {body : List Char} (quote : q = '"' ∨ q = '\'') (inside : q ∉ body) :
      Spells (.literal (String.ofList (q :: (body ++ [q])))) (q :: (body ++ [q]))
  | word {c : Char} {rest : List Char} (start : isWordStart c = true)
      (part : ∀ x ∈ rest, isWordPart x = true) :
      Spells (.word (String.ofList (c :: rest))) (c :: rest)

/-- Whether a text after a token leaves the token as it is. -/
def EndsBefore : Token → List Char → Prop
  | .word _, c :: _ => isWordPart c = false
  | _, _ => True

/-- A word ends where word characters do. -/
theorem endsBefore_dropWhile (t : Token) (s : List Char) : t.EndsBefore (s.dropWhile isWordPart) := by
  have hhead := List.head?_dropWhile_not isWordPart s
  cases hs : s.dropWhile isWordPart with
  | nil => cases t <;> trivial
  | cons c rest =>
    rw [hs] at hhead
    cases t with
    | word w => exact hhead
    | semicolon | comma | ordinal | literal _ => trivial

theorem Spells.ne_nil {t : Token} {text : List Char} (h : t.Spells text) : text ≠ [] := by
  cases h <;> simp

end Token

namespace Lexeme

/-- Behind the blanks of a lexeme come its text and what is left. -/
theorem text_append_read (gap : List Char) (c : Char) (rest : List Char) :
    (read gap c rest).1.text ++ (read gap c rest).2 = c :: rest := by
  have h := source_read gap c rest
  rw [source, gap_read, List.append_assoc] at h
  exact List.append_cancel_left h

theorem head?_text_read (gap : List Char) (c : Char) (rest : List Char) :
    (read gap c rest).1.text.head? = some c := by
  obtain ⟨d, text, ht⟩ := List.exists_cons_of_ne_nil (text_read_ne_nil gap c rest)
  have htext := text_append_read gap c rest
  rw [ht, List.cons_append, List.cons_eq_cons] at htext
  rw [ht, List.head?_cons, htext.1]

/-! ## What is read is spelled by its pattern -/

/-- A lexeme that is a token is spelled by the pattern of the token. -/
theorem spells_read {gap rest : List Char} {c : Char} {t : Token}
    (h : (read gap c rest).1.token? = some t) : t.Spells (read gap c rest).1.text := by
  unfold read at h ⊢
  -- one kind of lexeme after the other, in the order in which they are tried
  split at h
  next hc =>
    rw [if_pos hc, hc]
    cases h
    exact Token.Spells.semicolon
  next hc =>
  rw [if_neg hc]
  split at h
  next hc =>
    rw [if_pos hc, hc]
    cases h
    exact Token.Spells.comma
  next hc =>
  rw [if_neg hc]
  split at h
  next hd =>
    rw [if_pos hd]
    split at h
    next after he =>
      cases h
      refine Token.Spells.ordinal (by simp) ?_
      intro x hx
      rcases List.mem_cons.mp hx with rfl | hx'
      · exact hd
      · exact List.mem_takeWhile_imp hx'
    next => cases h
  next hd =>
  rw [if_neg hd]
  split at h
  next hq =>
    rw [if_pos hq]
    split at h
    next quote after he =>
      cases h
      -- what stops the body is the quote that opened it
      have hquote : quote = c := by
        have := List.head?_dropWhile_not (fun x => decide (x ≠ c)) rest
        rw [he] at this
        simpa using this
      subst hquote
      refine Token.Spells.literal hq ?_
      intro hm
      have := List.mem_takeWhile_imp hm
      simp at this
    next => cases h
  next hq =>
  rw [if_neg hq]
  split at h
  next hw =>
    rw [if_pos hw]
    cases h
    exact Token.Spells.word hw (fun x hx => List.mem_takeWhile_imp hx)
  next => cases h

/-! ## What is spelled by a pattern is read -/

theorem read_ordinal {digits : List Char} {d : Char} (gap rest : List Char)
    (h : ∀ c ∈ d :: digits, c.isDigit = true) :
    read gap d (digits ++ ':' :: rest) = (⟨gap, d :: digits ++ [':'], some .ordinal⟩, rest) := by
  have hd : d.isDigit = true := h d (List.mem_cons_self ..)
  have hs : ∀ c ∈ digits, c.isDigit = true := fun c hc => h c (List.mem_cons_of_mem _ hc)
  have hsemi : d ≠ ';' := Text.ne_of_class hd (by decide)
  have hcomma : d ≠ ',' := Text.ne_of_class hd (by decide)
  have hcolon : ∀ x ∈ (':' :: rest).head?, x.isDigit = false := fun x hx => by
    cases hx
    rfl
  obtain ⟨htake, hdrop⟩ := Text.span_append hs hcolon
  rw [read, if_neg hsemi, if_neg hcomma, if_pos hd]
  simp only [htake, hdrop]

theorem read_literal {q : Char} {body : List Char} (gap rest : List Char)
    (hq : q = '"' ∨ q = '\'') (h : q ∉ body) :
    read gap q (body ++ q :: rest) =
      (⟨gap, q :: (body ++ [q]), some (.literal (String.ofList (q :: (body ++ [q]))))⟩, rest) := by
  have hb : ∀ x ∈ body, decide (x ≠ q) = true := by
    intro x hx
    exact decide_eq_true fun he => h (he ▸ hx)
  have hq' : ∀ x ∈ (q :: rest).head?, decide (x ≠ q) = false := fun x hx =>
    decide_eq_false fun hne => hne (Option.some.inj hx).symm
  obtain ⟨htake, hdrop⟩ := Text.span_append hb hq'
  have hsemi : q ≠ ';' := by rcases hq with rfl | rfl <;> decide
  have hcomma : q ≠ ',' := by rcases hq with rfl | rfl <;> decide
  have hdigit : ¬ q.isDigit = true := by rcases hq with rfl | rfl <;> decide
  rw [read, if_neg hsemi, if_neg hcomma, if_neg hdigit, if_pos hq]
  simp only [htake, hdrop]

theorem le_toNat_of_isAlpha {c : Char} (h : c.isAlpha = true) : 0x41 ≤ c.toNat := by
  rcases (Bool.or_eq_true c.isUpper c.isLower).mp h with h | h
  · have hupper : c.val ≥ 'A'.val ∧ c.val ≤ 'Z'.val := of_decide_eq_true h
    exact hupper.1
  · have hlower : (decide (c.val ≥ 'a'.val) && decide (c.val ≤ 'z'.val)) = true := h
    have hle : c.val ≥ 'a'.val := of_decide_eq_true ((Bool.and_eq_true ..).mp hlower).1
    exact Nat.le_trans (by decide) hle

theorem isDigit_eq_false_of_isWordStart {c : Char} (h : Token.isWordStart c = true) :
    c.isDigit = false := by
  rcases (Bool.or_eq_true _ _).mp h with h | h
  · have hle := le_toNat_of_isAlpha h
    refine Bool.eq_false_iff.2 fun hd => ?_
    have hdigit := Text.isDigit_iff_toNat.1 hd
    omega
  · rw [beq_iff_eq.1 h]
    rfl

theorem read_word {c : Char} {part rest : List Char} (gap : List Char)
    (hc : Token.isWordStart c = true) (hp : ∀ x ∈ part, Token.isWordPart x = true)
    (hr : (Token.word (String.ofList (c :: part))).EndsBefore rest) :
    read gap c (part ++ rest) =
      (⟨gap, c :: part, some (.word (String.ofList (c :: part)))⟩, rest) := by
  have hsemi : c ≠ ';' := Text.ne_of_class hc (by decide)
  have hcomma : c ≠ ',' := Text.ne_of_class hc (by decide)
  have hquote : ¬ (c = '"' ∨ c = '\'') := by
    intro h
    rcases h with h | h
    · exact Text.ne_of_class hc (by decide) h
    · exact Text.ne_of_class hc (by decide) h
  have hdigit : ¬ c.isDigit = true := by simp [isDigit_eq_false_of_isWordStart hc]
  -- nothing after the word belongs to it
  have hend : ∀ x ∈ rest.head?, Token.isWordPart x = false := by
    cases rest with
    | nil => nofun
    | cons x rest =>
      intro y hy
      cases hy
      exact hr
  obtain ⟨htake, hdrop⟩ := Text.span_append hp hend
  rw [read, if_neg hsemi, if_neg hcomma, if_neg hdigit, if_neg hquote, if_pos hc]
  simp only [htake, hdrop]

/-- The spelling of a token is read as that token when nothing after it lengthens it. -/
theorem read_of_spells {t : Token} {c : Char} {text rest : List Char} (gap : List Char)
    (h : t.Spells (c :: text)) (hr : t.EndsBefore rest) :
    read gap c (text ++ rest) = (⟨gap, c :: text, some t⟩, rest) := by
  generalize hs : c :: text = s at h
  cases h with
  | semicolon => cases hs; rfl
  | comma => cases hs; rfl
  | @ordinal digits hn hd =>
    cases digits with
    | nil => exact absurd rfl hn
    | cons d ds =>
      cases hs
      show read gap c (ds ++ [':'] ++ rest) = _
      rw [List.append_assoc]
      exact read_ordinal gap rest hd
  | literal hq hb =>
    cases hs
    rw [List.append_assoc]
    exact read_literal gap rest hq hb
  | word hc hp =>
    cases hs
    exact read_word gap hc hp hr

end Lexeme

/-! ## Scanning -/

namespace Lexing

/-- The tokens of a source in their order; none stands for a fault. -/
def tokens (l : Lexing) : List (Option Token) := l.lexemes.map (·.token?)

end Lexing

/-- What follows the blanks at the front of a text starts with no blank. -/
theorem Token.split_gap {s rest : List Char} {c : Char} (h : s.dropWhile isGap = c :: rest) :
    s = s.takeWhile isGap ++ c :: rest ∧ isGap c = false := by
  have hc := List.head?_dropWhile_not isGap s
  rw [h] at hc
  refine ⟨?_, hc⟩
  rw [← h, List.takeWhile_append_dropWhile]

theorem scan_blank {g : List Char} (hg : ∀ x ∈ g, Token.isGap x = true) : scan g = ⟨[], g⟩ := by
  rw [scan]
  split
  next => rfl
  next c rest h =>
    rw [List.dropWhile_eq_nil_iff.mpr hg] at h
    cases h

/-- Blanks and the lexeme after them are scanned first. -/
theorem scan_gap {g : List Char} {c : Char} (hg : ∀ x ∈ g, Token.isGap x = true)
    (hc : Token.isGap c = false) (rest : List Char) :
    scan (g ++ c :: rest) =
      ⟨(Lexeme.read g c rest).1 :: (scan (Lexeme.read g c rest).2).lexemes,
        (scan (Lexeme.read g c rest).2).tail⟩ := by
  have hc' : ∀ x ∈ (c :: rest).head?, Token.isGap x = false := fun x hx => by
    cases hx
    exact hc
  obtain ⟨htake, hdrop⟩ := Text.span_append hg hc'
  rw [scan]
  split
  next h =>
    rw [hdrop] at h
    cases h
  next c' rest' h =>
    rw [hdrop] at h
    cases h
    simp only [htake]

theorem Token.eq_of_isGap {c : Char} (h : Token.isGap c = true) :
    c = ' ' ∨ c = '\t' ∨ c = '\r' ∨ c = '\n' ∨ c = '\x0c' := by
  simpa only [Token.isGap, Bool.or_eq_true, beq_iff_eq, or_assoc] using h

/-- No token starts with a blank. -/
theorem Token.Spells.isGap_head {t : Token} {c : Char} {text : List Char}
    (h : t.Spells (c :: text)) : Token.isGap c = false := by
  generalize hs : c :: text = s at h
  cases h with
  | semicolon => cases hs; decide
  | comma => cases hs; decide
  | @ordinal digits hn hd =>
    cases digits with
    | nil => exact absurd rfl hn
    | cons d ds =>
      cases hs
      -- the five blanks are neither digits nor letters
      have hc := hd c (List.mem_cons_self ..)
      rw [← Bool.not_eq_true]
      intro hg
      rcases Token.eq_of_isGap hg with rfl | rfl | rfl | rfl | rfl <;>
        exact absurd hc (by decide)
  | literal hq hb =>
    cases hs
    rcases hq with rfl | rfl <;> decide
  | word hc hp =>
    cases hs
    rw [← Bool.not_eq_true]
    intro hg
    rcases Token.eq_of_isGap hg with rfl | rfl | rfl | rfl | rfl <;> exact absurd hc (by decide)

/-- The spelling of a token after blanks is scanned as that token, and scanning goes on behind
it. -/
theorem scan_of_spells {t : Token} {g text rest : List Char}
    (hg : ∀ x ∈ g, Token.isGap x = true) (h : t.Spells text) (hr : t.EndsBefore rest) :
    scan (g ++ (text ++ rest)) =
      ⟨⟨g, text, some t⟩ :: (scan rest).lexemes, (scan rest).tail⟩ := by
  cases text with
  | nil => exact absurd rfl h.ne_nil
  | cons c text =>
    rw [List.cons_append, scan_gap hg h.isGap_head, Lexeme.read_of_spells g h hr]

theorem tokens_scan_of_spells {t : Token} {g text rest : List Char}
    (hg : ∀ x ∈ g, Token.isGap x = true) (h : t.Spells text) (hr : t.EndsBefore rest) :
    (scan (g ++ (text ++ rest))).tokens = some t :: (scan rest).tokens := by
  rw [scan_of_spells hg h hr]
  rfl

/-- What is left behind the last lexeme are blanks. -/
theorem isGap_tail_scan (s : List Char) : ∀ c ∈ (scan s).tail, Token.isGap c = true := by
  fun_induction scan s with
  | case1 s h => exact List.dropWhile_eq_nil_iff.mp h
  | case2 s c rest h x l ih => exact ih

/-- Whatever is scanned as a token is spelled by its pattern. -/
theorem spells_of_mem_scan {s : List Char} {x : Lexeme} {t : Token}
    (hx : x ∈ (scan s).lexemes) (ht : x.token? = some t) : t.Spells x.text := by
  fun_induction scan s with
  | case1 s h => cases hx
  | case2 s c rest h y l ih =>
    rcases List.mem_cons.mp hx with rfl | hl
    · exact Lexeme.spells_read ht
    · exact ih hl

end XmlScript
