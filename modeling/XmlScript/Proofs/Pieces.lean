import Mathlib.Data.List.TakeWhile
import XmlScript.Markup.Layout
import XmlScript.Proofs.Cut
import XmlScript.Proofs.Except

/-!
# Pieces that read back

`Reads` is what it means that a text consists of some pieces inside some open elements, piece after
piece and without the bound that `piecesFrom` counts down; what `Reads` says, `pieces` finds
(`pieces_of_reads`). A piece of markup is found where it is written if nothing inside looks like its
end (`Opens`): for tags that is a matter of quotes (`TagBody`), for comments and instructions of
their marks. Whatever a text goes on with, such a piece in front of it is the first one
(`pieces_append`).
-/

namespace XmlScript.Markup

open Text (cutAt)

/-! ## Names in tags -/

/-- The characters that mean something in a tag, besides the equals sign. -/
def reserved : List Char := [' ', '\t', '\n', '\r', '<', '>', '/', '!', '?', '\'', '"']

/-- A text without such characters, and not empty. -/
structure IsTagName (s : List Char) : Prop where
  ne_nil : s ≠ []
  not_mem : ∀ c ∈ s, c ∉ reserved

/-- A class without such characters has none of them. -/
theorem not_mem_reserved {p : Char → Bool} (hp : ∀ c ∈ reserved, p c = false) {c : Char}
    (h : p c = true) : c ∉ reserved := by
  intro hc
  rw [hp c hc] at h
  cases h

theorem not_mem_reserved_of_all {s : List Char} (h : s.all (· ∉ reserved) = true) :
    ∀ c ∈ s, c ∉ reserved :=
  fun c hc => of_decide_eq_true (List.all_eq_true.1 h c hc)

theorem isMarkupBlank_eq_false {c : Char} (h : c ∉ reserved) : Text.isMarkupBlank c = false := by
  simp only [reserved, List.mem_cons, not_or] at h
  simp only [Text.isMarkupBlank, Bool.or_eq_false_iff, beq_eq_false_iff_ne]
  exact ⟨⟨⟨h.1, h.2.1⟩, h.2.2.1⟩, h.2.2.2.1⟩

/-! ## Quotes in tags -/

/-- The quote that is open after a text in a tag, where `quote?` is open before it; nothing if the
tag has been closed. -/
def quoteAfter : (quote? : Option Char) → List Char → Option (Option Char)
  | quote?, [] => some quote?
  | none, c :: rest =>
    if c = '>' then none else quoteAfter (if c = '"' ∨ c = '\'' then some c else none) rest
  | some q, c :: rest => quoteAfter (if c = q then none else some q) rest

variable {quote? : Option Char} {s t : List Char}

theorem quoteAfter_append :
    quoteAfter quote? (s ++ t) = (quoteAfter quote? s).bind (quoteAfter · t) := by
  induction s generalizing quote? with
  | nil => rw [quoteAfter]; rfl
  | cons c rest ih =>
    cases quote? with
    | none =>
      rw [List.cons_append, quoteAfter, quoteAfter]
      split
      · rfl
      · exact ih
    | some q =>
      rw [List.cons_append, quoteAfter, quoteAfter]
      exact ih

/-- A tag is cut at a bracket outside quotes. -/
theorem cutTag_append (h : quoteAfter quote? s = some none) (after : List Char) :
    cutTag quote? (s ++ '>' :: after) = some (s, after) := by
  induction s generalizing quote? with
  | nil =>
    rw [quoteAfter] at h
    cases h
    rw [List.nil_append, cutTag, if_pos rfl]
  | cons c rest ih =>
    cases quote? with
    | none =>
      rw [quoteAfter] at h
      split at h
      next => cases h
      next hc =>
        rw [List.cons_append, cutTag, if_neg hc]
        simp only [ih h]
        rfl
    | some q =>
      rw [quoteAfter] at h
      rw [List.cons_append, cutTag, ih h]
      rfl

theorem quoteAfter_plain (h : ∀ c ∈ s, c ∉ reserved) : quoteAfter none s = some none := by
  induction s with
  | nil => rfl
  | cons c rest ih =>
    have hc := h c (List.mem_cons_self ..)
    simp only [reserved, List.mem_cons, not_or] at hc
    rw [quoteAfter, if_neg hc.2.2.2.2.2.1, if_neg fun hq => ?_,
      ih fun x hx => h x (List.mem_cons_of_mem _ hx)]
    rcases hq with rfl | rfl
    · simp at hc
    · simp at hc

theorem quoteAfter_quoted {q : Char} (h : q ∉ s) : quoteAfter (some q) s = some (some q) := by
  induction s with
  | nil => rfl
  | cons c rest ih =>
    rw [List.mem_cons, not_or] at h
    rw [quoteAfter, if_neg fun hc => h.1 hc.symm, ih h.2]

/-! ## Start tags -/

/-- The inside of a start tag: its name, and nothing that looks like the end of the tag. -/
structure TagBody (name s : List Char) : Prop where
  tagName : tagName s = name
  head : ∃ c rest, s = c :: rest ∧ c ∉ reserved
  quotes : quoteAfter none s = some none
  last : s.getLast? ≠ some '/'

namespace TagBody

variable {name key value : List Char} {q : Char}

theorem of_name (h : IsTagName name) : TagBody name name where
  tagName := by
    unfold Markup.tagName
    rw [List.takeWhile_eq_self_iff]
    intro c hc
    rw [isMarkupBlank_eq_false (h.not_mem c hc)]
    rfl
  head := by
    obtain ⟨c, rest, rfl⟩ := List.exists_cons_of_ne_nil h.ne_nil
    exact ⟨c, rest, rfl, h.not_mem c (List.mem_cons_self ..)⟩
  quotes := quoteAfter_plain h.not_mem
  last hlast := h.not_mem _ (List.mem_of_getLast? hlast) (by decide)

/-- An attribute or a declaration in quotes that its value does not hold. -/
theorem add (h : TagBody name s) (hkey : ∀ c ∈ key, c ∉ reserved) (hq : q = '"' ∨ q = '\'')
    (hvalue : q ∉ value) : TagBody name (s ++ ' ' :: (key ++ '=' :: q :: (value ++ [q]))) where
  tagName := by
    have hname := h.tagName
    unfold Markup.tagName at hname ⊢
    rw [List.takeWhile_append, hname]
    split
    next hlen =>
      -- the blank ends the name
      rw [List.takeWhile_cons_of_neg (by decide), List.append_nil]
      rw [← hname] at hlen ⊢
      exact (List.takeWhile_prefix _).eq_of_length hlen |>.symm
    next => rfl
  head := by
    obtain ⟨c, rest, rfl, hc⟩ := h.head
    exact ⟨c, _, rfl, hc⟩
  quotes := by
    have hopen : quoteAfter none ('=' :: q :: (value ++ [q])) = some none := by
      rw [quoteAfter, if_neg (by decide), if_neg (by decide), quoteAfter, if_neg ?_, if_pos hq,
        quoteAfter_append, quoteAfter_quoted hvalue, Option.bind_some, quoteAfter, if_pos rfl]
      · rfl
      · rcases hq with rfl | rfl <;> decide
    rw [quoteAfter_append, h.quotes, Option.bind_some, quoteAfter, if_neg (by decide),
      if_neg (by decide), quoteAfter_append, quoteAfter_plain hkey, Option.bind_some, hopen]
  last := by
    have hlast : (s ++ ' ' :: (key ++ '=' :: q :: (value ++ [q]))).getLast? = some q := by
      simp [List.getLast?_append, List.getLast?_cons]
    rw [hlast]
    rcases hq with rfl | rfl <;> decide

end TagBody

/-! ## Pieces of markup -/

theorem written_startTag (s : List Char) : (Piece.startTag s).written = '<' :: (s ++ ['>']) := rfl

theorem written_emptyTag (s : List Char) :
    (Piece.emptyTag s).written = '<' :: (s ++ "/>".toList) := rfl

theorem written_endTag (name : List Char) :
    (Piece.endTag name).written = "</".toList ++ name ++ ['>'] := rfl

/-- A piece of markup that is found where it is written, whatever follows. -/
def Opens (p : Piece) : Prop :=
  ∃ inner, p.written = '<' :: inner ∧ ∀ after, readMarkup (inner ++ after) = .ok (p, after)

/-- What opens with none of the three marks is a start tag. -/
theorem readMarkup_tag {c : Char} {rest : List Char} (hc : c ∉ reserved) :
    readMarkup (c :: rest) =
      match cutTag none (c :: rest) with
      | some (inside, after) =>
        if inside.getLast? = some '/' then .ok (.emptyTag inside.dropLast, after)
        else .ok (.startTag inside, after)
      | none => .error .unclosedTag := by
  simp only [reserved, List.mem_cons, not_or] at hc
  unfold readMarkup
  split
  next he =>
    cases he
    simp at hc
  next he =>
    cases he
    simp at hc
  next he =>
    cases he
    simp at hc
  next he =>
    cases he
    simp at hc
  next => rfl

theorem opens_startTag {name : List Char} (h : TagBody name s) : Opens (.startTag s) := by
  refine ⟨s ++ ['>'], rfl, fun after => ?_⟩
  obtain ⟨c, rest, rfl, hc⟩ := h.head
  have hcut := cutTag_append h.quotes after
  rw [List.append_assoc, List.singleton_append]
  rw [List.cons_append] at hcut ⊢
  rw [readMarkup_tag hc, hcut]
  simp only [if_neg h.last]

theorem opens_emptyTag {name : List Char} (h : TagBody name s) : Opens (.emptyTag s) := by
  refine ⟨s ++ ['/', '>'], rfl, fun after => ?_⟩
  obtain ⟨c, rest, rfl, hc⟩ := h.head
  have hquotes : quoteAfter none (c :: rest ++ ['/']) = some none := by
    rw [quoteAfter_append, h.quotes]
    rfl
  have hcut := cutTag_append hquotes after
  have hsplit : c :: rest ++ ['/', '>'] ++ after = c :: rest ++ ['/'] ++ '>' :: after := by simp
  rw [hsplit]
  rw [List.cons_append, List.cons_append] at hcut ⊢
  rw [readMarkup_tag hc, hcut]
  simp only [List.getLast?_concat, ← List.cons_append, List.dropLast_concat, if_pos]

theorem opens_endTag {name : List Char} (h : IsTagName name) : Opens (.endTag name) := by
  refine ⟨'/' :: (name ++ ['>']), rfl, fun after => ?_⟩
  have hcut := cutTag_append (quoteAfter_plain h.not_mem) after
  -- a name does not end with a blank that would be dropped
  have htrim : Text.dropEndWhile Text.isMarkupBlank name = name := by
    unfold Text.dropEndWhile
    have hne : name.reverse ≠ [] := by simpa using h.ne_nil
    obtain ⟨c, rest, hrev⟩ := List.exists_cons_of_ne_nil hne
    have hc : c ∈ name := by
      rw [← List.mem_reverse, hrev]
      exact List.mem_cons_self ..
    have hblank := isMarkupBlank_eq_false (h.not_mem c hc)
    rw [hrev, List.dropWhile_cons_of_neg (by simp [hblank]), ← hrev, List.reverse_reverse]
  rw [List.cons_append, List.append_assoc, List.singleton_append]
  unfold readMarkup
  simp only [hcut, htrim]
  rw [if_neg (by simpa using h.ne_nil)]

theorem opens_comment (h : ¬ ['-', '-'] <:+: s) : Opens (.comment s) := by
  refine ⟨'!' :: '-' :: '-' :: (s ++ "-->".toList), rfl, fun after => ?_⟩
  show readBang ('-' :: '-' :: (s ++ ['-', '-', '>'] ++ after)) = _
  unfold readBang
  simp only
  rw [show "-->".toList = ['-', '-', '>'] from rfl, Text.cutAt_commentEnd h]

theorem opens_instruction (hs : s.head? ≠ some '>') (hne : s ≠ []) (h : ¬ ['?', '>'] <:+: s) :
    Opens (.instruction s) := by
  refine ⟨'?' :: (s ++ "?>".toList), rfl, fun after => ?_⟩
  have hcut := Text.cutAt_instructionEnd h after
  show readMarkup ('?' :: (s ++ ['?', '>'] ++ after)) = _
  unfold readMarkup
  split
  next he => cases he
  next he =>
    -- the first character is no bracket
    obtain ⟨c, rest, rfl⟩ := List.exists_cons_of_ne_nil hne
    simp only [List.cons_append, List.cons.injEq] at he
    exact absurd (congrArg some he.2.1) hs
  next he =>
    cases he
    rw [show "?>".toList = ['?', '>'] from rfl, hcut]
  next he => cases he
  next hnone _ => exact absurd rfl (hnone _)

/-! ## Reading -/

/-- A text that is at its end or goes on with markup. -/
def BeginsMarkup (s : List Char) : Prop := ∀ c ∈ s.head?, c = '<'

/-- A text that consists of some pieces inside the open elements. -/
inductive Reads : (openNames : List (List Char)) → List Char → List Piece → Prop
  | nil (openNames : List (List Char)) : Reads openNames [] []
  | mark {openNames openNames' : List (List Char)} {p : Piece} {after : List Char}
    {ps : List Piece} (hp : Opens p) (ho : openAfter openNames p = .ok openNames')
    (h : Reads openNames' after ps) : Reads openNames (p.written ++ after) (p :: ps)
  | text {openNames : List (List Char)} {s after : List Char} {ps : List Piece} (hs : s ≠ [])
    (hlt : '<' ∉ s) (ha : BeginsMarkup after) (h : Reads openNames after ps) :
    Reads openNames (s ++ after) (.text s :: ps)

/-- The pieces of a text are found in it, with any bound that is large enough. -/
theorem piecesFrom_of_reads {openNames : List (List Char)} {ps : List Piece}
    (h : Reads openNames s ps) {bound : Nat} (hb : s.length ≤ bound) :
    piecesFrom bound openNames s = .ok ps := by
  induction h generalizing bound with
  | nil => cases bound <;> rfl
  | @mark openNames openNames' p after ps hp ho _ ih =>
    obtain ⟨inner, hwritten, hread⟩ := hp
    rw [hwritten, List.cons_append] at hb ⊢
    cases bound with
    | zero => cases hb
    | succ bound =>
      have hafter : after.length ≤ bound := by
        rw [List.length_cons, List.length_append] at hb
        omega
      rw [piecesFrom, if_pos rfl, hread]
      simp only [Except.bind, ho, ih hafter]
      rfl
  | @text openNames s after ps hs hlt ha _ ih =>
    obtain ⟨c, rest, rfl⟩ := List.exists_cons_of_ne_nil hs
    cases bound with
    | zero => cases hb
    | succ bound =>
      have hc : c ≠ '<' := fun hc => hlt (hc ▸ List.mem_cons_self ..)
      have htext : ∀ x ∈ c :: rest, decide (x ≠ '<') = true := fun x hx =>
        decide_eq_true fun he => hlt (he ▸ hx)
      have htake : (c :: rest ++ after).takeWhile (· ≠ '<') = c :: rest ∧
          (c :: rest ++ after).dropWhile (· ≠ '<') = after :=
        Text.span_append htext fun x hx => decide_eq_false fun hne => hne (ha x hx)
      rw [List.cons_append] at hb htake ⊢
      rw [piecesFrom, if_neg hc]
      simp only [htake]
      rw [ih ?_]
      · rfl
      · rw [List.length_cons, List.length_append] at hb
        omega

theorem pieces_of_reads {ps : List Piece} (h : Reads [] s ps) : pieces s = .ok ps :=
  piecesFrom_of_reads h (Nat.le_refl _)

/-! ## The bound -/

variable {inside after : List Char}

/-- What follows a cut does not depend on the characters before it. -/
theorem length_lt_of_later {c : Char} {rest : List Char} {cut? : Option (List Char × List Char)}
    (hrest : ∀ {inside}, cut? = some (inside, after) → after.length < rest.length)
    (h : cut?.map (fun cut => (c :: cut.1, cut.2)) = some (inside, after)) :
    after.length < (c :: rest).length := by
  obtain ⟨⟨inside', after'⟩, hcut, he⟩ := Option.map_eq_some_iff.1 h
  cases he
  exact Nat.lt_succ_of_lt (hrest hcut)

/-- What follows a tag is shorter than the text that it is cut from. -/
theorem length_lt_of_cutTag (h : cutTag quote? s = some (inside, after)) :
    after.length < s.length := by
  induction s generalizing quote? inside with
  | nil => cases quote? <;> cases h
  | cons c rest ih =>
    cases quote? with
    | none =>
      rw [cutTag] at h
      split at h
      next =>
        cases h
        exact Nat.lt_succ_self _
      next => exact length_lt_of_later ih h
    | some q =>
      rw [cutTag] at h
      exact length_lt_of_later ih h

theorem length_lt_of_cutDoctype {depth : Nat} (h : cutDoctype depth s = some (inside, after)) :
    after.length < s.length := by
  induction s generalizing depth inside with
  | nil => cases depth <;> cases h
  | cons c rest ih =>
    unfold cutDoctype at h
    simp only at h
    split at h
    next => exact length_lt_of_later ih h
    next =>
      split at h
      next =>
        split at h
        next =>
          cases h
          exact Nat.lt_succ_self _
        next => exact length_lt_of_later ih h
      next => exact length_lt_of_later ih h

theorem length_lt_of_readBang {p : Piece} (h : readBang s = .ok (p, after)) :
    after.length < s.length := by
  unfold readBang at h
  split at h
  next rest =>
    split at h
    next body =>
      split at h
      next hcut =>
        cases h
        have hlt := Text.length_lt_of_cutAt (by decide) hcut
        exact Nat.lt_succ_of_lt (Nat.lt_succ_of_lt hlt)
      next => cases h
    next => cases h
  next rest =>
    split at h
    next =>
      split at h
      next hcut =>
        cases h
        have hlt := Text.length_lt_of_cutAt (by decide) hcut
        rw [List.length_drop] at hlt
        rw [List.length_cons]
        omega
      next => cases h
    next => cases h
  next c rest _ _ =>
    split at h
    next =>
      split at h
      next hcut =>
        split at h
        next =>
          split at h
          next => cases h
          next =>
            cases h
            exact length_lt_of_cutDoctype hcut
        next => cases h
      next => cases h
    next => cases h
  next => cases h

/-- Every piece uses characters. -/
theorem length_lt_of_readMarkup {p : Piece} (h : readMarkup s = .ok (p, after)) :
    after.length < s.length := by
  unfold readMarkup at h
  split at h
  next => exact Nat.lt_succ_of_lt (length_lt_of_readBang h)
  next => cases h
  next =>
    split at h
    next hcut =>
      cases h
      exact Nat.lt_succ_of_lt (Text.length_lt_of_cutAt (by decide) hcut)
    next => cases h
  next =>
    split at h
    next hcut =>
      cases h
      exact Nat.lt_succ_of_lt (length_lt_of_cutTag hcut)
    next => cases h
  next =>
    split at h
    next hcut =>
      split at h
      next =>
        cases h
        exact length_lt_of_cutTag hcut
      next =>
        cases h
        exact length_lt_of_cutTag hcut
    next => cases h

/-- Any bound will do that is large enough. -/
theorem piecesFrom_congr {openNames : List (List Char)} {bound bound' : Nat}
    (hb : s.length ≤ bound) (hb' : s.length ≤ bound') :
    piecesFrom bound openNames s = piecesFrom bound' openNames s := by
  induction bound generalizing bound' openNames s with
  | zero =>
    rw [List.eq_nil_of_length_eq_zero (Nat.le_zero.1 hb)]
    cases bound' <;> rfl
  | succ bound ih =>
    cases s with
    | nil => cases bound' <;> rfl
    | cons c rest =>
      cases bound' with
      | zero => cases hb'
      | succ bound' =>
        rw [List.length_cons, Nat.succ_le_succ_iff] at hb hb'
        rw [piecesFrom, piecesFrom]
        split
        next =>
          cases hread : readMarkup rest with
          | error e => rfl
          | ok x =>
            obtain ⟨p, after⟩ := x
            have hlt := length_lt_of_readMarkup hread
            simp only [Except.bind]
            cases openAfter openNames p with
            | error e => rfl
            | ok openNames' =>
              have hrest : piecesFrom bound openNames' after = piecesFrom bound' openNames' after :=
                ih (by omega) (by omega)
              simp only [hrest]
        next hc =>
          have hdrop : (c :: rest).dropWhile (· ≠ '<') = rest.dropWhile (· ≠ '<') :=
            List.dropWhile_cons_of_pos (decide_eq_true hc)
          have hlen : (rest.dropWhile (· ≠ '<')).length ≤ rest.length :=
            (List.dropWhile_suffix _).length_le
          simp only [hdrop, ih (hlen.trans hb) (hlen.trans hb')]

/-- A piece of markup in front of a text is found, and then the pieces of the text. -/
theorem pieces_append {p : Piece} (hp : Opens p) (ho : openAfter [] p = .ok []) (s : List Char) :
    pieces (p.written ++ s) = (pieces s).map (p :: ·) := by
  obtain ⟨inner, hwritten, hread⟩ := hp
  have hlen : s.length ≤ (inner ++ s).length := by
    rw [List.length_append]
    omega
  unfold pieces
  rw [hwritten, List.cons_append, List.length_cons, piecesFrom, if_pos rfl, hread,
    piecesFrom_congr (Nat.le_refl s.length) hlen]
  simp only [Except.bind, ho]

end XmlScript.Markup
