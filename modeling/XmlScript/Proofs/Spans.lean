import XmlScript.Proofs.Position

/-!
# Spans of a scanned source

Scanning is greedy: whatever matches the pattern of a token at some place, a token at least as long
is read there (`Lexeme.exists_token_of_spells`). So every token is the longest match at its place, a
fault stands only where nothing matches, and it reaches no further than `Token.IsFault` says. Both
are facts about one lexeme and what follows it (`Lexeme.reads_read`), which scanning hands on to all
lexemes of a source (`reads_of_mem_scan`).

The offsets of lexemes follow from the gaps and texts before them, so the spans cover the source as
the lexemes do: between them stand the blanks of gaps and nothing else (`Lexeme.blank_of_uncovered`).
`scan_lossless_greedy` is all of it for the spans and tokens of a source.
-/

namespace XmlScript

namespace Text

/-- An offset in bytes at which no character of a text is cut in two. -/
def IsBoundary (s : List Char) (offset : Nat) : Prop := ∃ a b, s = a ++ b ∧ byteCount a = offset

/-- Spans of a text that follow one another and leave out only blanks. -/
structure Covers (s : List Char) (spans : List (Nat × Nat)) : Prop where
  nonempty : ∀ p ∈ spans, p.1 < p.2
  ordered : spans.Pairwise fun p q => p.2 ≤ q.1
  boundary : ∀ p ∈ spans, IsBoundary s p.1 ∧ IsBoundary s p.2
  blank : ∀ before c after, s = before ++ c :: after →
    (∀ p ∈ spans, ¬ (p.1 ≤ byteCount before ∧ byteCount before < p.2)) →
    c = ' ' ∨ c = '\t' ∨ c = '\r' ∨ c = '\n' ∨ c = '\x0c'

/-- A character of two texts joined stands in one of them. -/
theorem split_of_append_eq {a b before after : List Char} {c : Char}
    (h : a ++ b = before ++ c :: after) :
    (∃ more, a = before ++ c :: more) ∨ ∃ within, before = a ++ within ∧ b = within ++ c :: after := by
  rcases List.append_eq_append_iff.1 h with ⟨within, hbefore, hb⟩ | ⟨more, ha, hmore⟩
  · exact Or.inr ⟨within, hbefore, hb⟩
  · cases more with
    | nil => exact Or.inr ⟨[], by simpa using ha.symm, by simpa using hmore.symm⟩
    | cons d more =>
      obtain ⟨rfl, -⟩ := List.cons_eq_cons.1 hmore
      exact Or.inl ⟨more, ha⟩

end Text

namespace Token

/-! ## What is read at a place -/

/-- A text that matches the pattern of some token. -/
def IsSpelling (text : List Char) : Prop := ∃ t : Token, t.Spells text

/-- A token that is read from the front of a text: no longer part of the front would be one. -/
structure Longest (ahead : List Char) (t : Token) (text : List Char) : Prop where
  front : text <+: ahead
  spells : t.Spells text
  longest : ∀ other, other <+: ahead → IsSpelling other → other.length ≤ text.length

/-- A fault and what follows it: a character, digits without a colon, or a quote that stays open
up to the end. -/
inductive IsFault : (text after : List Char) → Prop
  | character {c : Char} {after : List Char} (digit : c.isDigit = false)
      (quote : c ≠ '"' ∧ c ≠ '\'') : IsFault [c] after
  | digits {digits after : List Char} (nonempty : digits ≠ [])
      (digit : ∀ c ∈ digits, c.isDigit = true)
      (ended : ∀ c ∈ after.head?, c.isDigit = false ∧ c ≠ ':') : IsFault digits after
  | openQuote {q : Char} {body : List Char} (quote : q = '"' ∨ q = '\'') (inside : q ∉ body) :
      IsFault (q :: body) []

/-- A fault that is read from the front of a text: no token can be read there. -/
structure Stuck (ahead text : List Char) : Prop where
  extent : ∃ after, ahead = text ++ after ∧ IsFault text after
  unmatched : ∀ other, other <+: ahead → ¬ IsSpelling other

/-- What is read from the front of a text, a token or a fault. -/
def Reads (ahead : List Char) : Option Token → List Char → Prop
  | some t, text => Longest ahead t text
  | none, text => Stuck ahead text

/-- Word characters behind a word make it a longer word. -/
theorem Spells.word_append {w : String} {text more : List Char} (h : (Token.word w).Spells text)
    (hmore : ∀ c ∈ more, isWordPart c = true) :
    (Token.word (String.ofList (text ++ more))).Spells (text ++ more) := by
  cases h with
  | word hstart hpart =>
    refine Spells.word hstart fun c hc => ?_
    rcases List.mem_append.mp hc with hc | hc
    · exact hpart c hc
    · exact hmore c hc

/-- The text of a word or a literal is what spells it. -/
theorem Spells.text_eq {t : Token} {text : List Char} {w : String} (h : t.Spells text)
    (ht : t = .word w ∨ t = .literal w) : w.toList = text := by
  cases h with
  | semicolon | comma | ordinal => rcases ht with ht | ht <;> cases ht
  | literal | word =>
    rcases ht with ht | ht <;> cases ht
    exact String.toList_ofList

end Token

namespace Lexeme

open Token (IsSpelling)

/-- Where a text matches the pattern of a token, a token is read that is at least as long. -/
theorem exists_token_of_spells {rest other : List Char} {c : Char} (gap : List Char)
    (h : IsSpelling other) (hfront : other <+: c :: rest) :
    ∃ t, (read gap c rest).1.token? = some t ∧
      other.length ≤ (read gap c rest).1.text.length := by
  obtain ⟨t, ht⟩ := h
  obtain ⟨after, hafter⟩ := hfront
  cases other with
  | nil => exact absurd rfl ht.ne_nil
  | cons d text =>
    rw [List.cons_append] at hafter
    obtain ⟨rfl, rfl⟩ := List.cons_eq_cons.1 hafter
    by_cases hends : t.EndsBefore after
    · rw [Lexeme.read_of_spells gap ht hends]
      exact ⟨t, rfl, Nat.le_refl _⟩
    · cases t with
      | semicolon | comma | ordinal | literal _ => exact absurd trivial hends
      | word w =>
        -- the word is read with all the word characters behind it
        have hmore : ∀ c ∈ after.takeWhile Token.isWordPart, Token.isWordPart c = true :=
          fun _ => List.mem_takeWhile_imp
        have hlong := ht.word_append hmore
        rw [List.cons_append] at hlong
        have hread := read_of_spells gap hlong (Token.endsBefore_dropWhile _ after)
        rw [List.append_assoc, List.takeWhile_append_dropWhile] at hread
        rw [hread]
        refine ⟨_, rfl, ?_⟩
        simp only [List.length_cons, List.length_append]
        omega

/-- How far a fault reaches that is read. -/
theorem isFault_read {gap rest : List Char} {c : Char} (h : (read gap c rest).1.token? = none) :
    Token.IsFault (read gap c rest).1.text (read gap c rest).2 := by
  unfold read at h ⊢
  split at h
  next => cases h
  next hsemi =>
  split at h
  next => cases h
  next hcomma =>
  rw [if_neg hsemi, if_neg hcomma]
  split at h
  next hdigit =>
    have hdigits : ∀ d ∈ c :: rest.takeWhile Char.isDigit, d.isDigit = true := by
      intro d hd
      rcases List.mem_cons.mp hd with rfl | hd
      · exact hdigit
      · exact List.mem_takeWhile_imp hd
    have hended := List.head?_dropWhile_not Char.isDigit rest
    split at h
    next => cases h
    next hcolon =>
      simp only [if_pos hdigit]
      refine Token.IsFault.digits (by simp) hdigits fun d hd => ?_
      obtain ⟨after, hafter⟩ := List.head?_eq_some_iff.1 hd
      rw [hafter] at hended
      refine ⟨hended, ?_⟩
      rintro rfl
      exact hcolon after hafter
  next hdigit =>
  rw [if_neg hdigit]
  split at h
  next hquote =>
    rw [if_pos hquote]
    split at h
    next => cases h
    next hnil =>
      refine Token.IsFault.openQuote hquote fun hmem => ?_
      have := List.mem_takeWhile_imp hmem
      simp at this
  next hquote =>
  rw [if_neg hquote]
  split at h
  next => cases h
  next hstart =>
    rw [if_neg hstart]
    exact Token.IsFault.character (by simpa using hdigit) (not_or.1 hquote)

/-- What is read is the longest match, or a fault where there is none. -/
theorem reads_read (gap : List Char) (c : Char) (rest : List Char) :
    Token.Reads (c :: rest) (read gap c rest).1.token? (read gap c rest).1.text := by
  have htext := text_append_read gap c rest
  cases htoken : (read gap c rest).1.token? with
  | some t =>
    refine ⟨⟨_, htext⟩, spells_read htoken, fun other hfront hother => ?_⟩
    obtain ⟨-, -, hlength⟩ := exists_token_of_spells gap hother hfront
    exact hlength
  | none =>
    refine ⟨⟨_, htext.symm, isFault_read htoken⟩, fun other hfront hother => ?_⟩
    obtain ⟨t, ht, -⟩ := exists_token_of_spells gap hother hfront
    rw [htoken] at ht
    cases ht

end Lexeme

/-- Every lexeme of a source is what is read from its text and what follows it. -/
theorem reads_of_mem_scan (s : List Char) : ∀ (seen later : List Lexeme) (x : Lexeme),
    (scan s).lexemes = seen ++ x :: later →
      Token.Reads (x.text ++ (later.flatMap Lexeme.source ++ (scan s).tail)) x.token? x.text := by
  fun_induction scan s with
  | case1 s hs =>
    intro seen later x h
    cases seen <;> cases h
  | case2 s c rest hs y l ih =>
    intro seen later x h
    cases seen with
    | nil =>
      obtain ⟨rfl, rfl⟩ := List.cons_eq_cons.1 h
      have hrest : l.lexemes.flatMap Lexeme.source ++ l.tail = y.2 := source_scan y.2
      rw [hrest, Lexeme.text_append_read]
      exact Lexeme.reads_read ..
    | cons z seen => exact ih seen later x (List.cons_eq_cons.1 h).2

/-! ## Offsets -/

namespace Lexeme

/-- A placed token is one of the lexemes, behind those before it. -/
theorem exists_of_mem_placedFrom (offset : Nat) {xs : List Lexeme} {p : Option Token × Nat × Nat}
    (h : p ∈ placedFrom offset xs) : ∃ seen x later, xs = seen ++ x :: later ∧
      p = (x.token?, offset + bytes seen + Text.byteCount x.gap,
        offset + bytes seen + Text.byteCount x.gap + Text.byteCount x.text) := by
  induction xs generalizing offset with
  | nil => cases h
  | cons y ys ih =>
    rcases List.mem_cons.mp (placedFrom_cons offset y ys ▸ h) with rfl | h
    · exact ⟨[], y, ys, rfl, rfl⟩
    · obtain ⟨seen, x, later, rfl, rfl⟩ := ih _ h
      refine ⟨y :: seen, x, later, rfl, ?_⟩
      rw [bytes_cons]
      simp only [Nat.add_assoc]

theorem map_placedFrom (offset : Nat) (xs : List Lexeme) :
    (placedFrom offset xs).map (·.2) = Lexing.spans.go offset xs := by
  induction xs generalizing offset with
  | nil => rfl
  | cons x xs ih =>
    rw [placedFrom_cons, List.map_cons, ih]
    rfl

/-- Lexemes are placed one behind the other. -/
theorem pairwise_placedFrom {offset : Nat} {xs : List Lexeme} (hx : ∀ x ∈ xs, x.Proper) :
    (placedFrom offset xs).Pairwise fun p q => p.2.2 ≤ q.2.1 := by
  induction xs generalizing offset with
  | nil => exact List.Pairwise.nil
  | cons x xs ih =>
    have hxs : ∀ y ∈ xs, y.Proper := fun y hy => hx y (List.mem_cons_of_mem _ hy)
    rw [placedFrom_cons]
    exact List.Pairwise.cons (fun q hq => (placedFrom_bounds hxs q hq).1) (ih hxs)

/-- A character of lexemes and what follows them that stands in no text of a lexeme stands in a gap
or behind them all. -/
theorem blank_of_uncovered (offset : Nat) {xs : List Lexeme} {tail before after : List Char}
    {c : Char} (hx : ∀ x ∈ xs, ∀ d ∈ x.gap, Token.isGap d = true)
    (htail : ∀ d ∈ tail, Token.isGap d = true)
    (hs : xs.flatMap source ++ tail = before ++ c :: after)
    (h : ∀ p ∈ Lexing.spans.go offset xs,
      ¬ (p.1 ≤ offset + Text.byteCount before ∧ offset + Text.byteCount before < p.2)) :
    Token.isGap c = true := by
  induction xs generalizing offset before with
  | nil =>
    rw [List.flatMap_nil, List.nil_append] at hs
    exact htail c (by rw [hs]; simp)
  | cons x xs ih =>
    rw [List.flatMap_cons, source, List.append_assoc, List.append_assoc] at hs
    rcases Text.split_of_append_eq hs with ⟨more, hgap⟩ | ⟨behind, rfl, hbehind⟩
    · exact hx x (List.mem_cons_self ..) c (by rw [hgap]; simp)
    rcases Text.split_of_append_eq hbehind with ⟨more, htext⟩ | ⟨later, rfl, hlater⟩
    · -- the character is in the text of the lexeme, and so in its span
      have hspan := h _ (List.mem_cons_self ..)
      have hpos := c.utf8Size_pos
      rw [htext] at hspan
      simp only [Text.byteCount_append, Text.byteCount] at hspan
      omega
    · refine ih (offset + Text.byteCount x.gap + Text.byteCount x.text)
        (fun y hy => hx y (List.mem_cons_of_mem _ hy)) hlater fun p hp hcovered => ?_
      refine h p (List.mem_cons_of_mem _ hp) ?_
      simp only [Text.byteCount_append]
      omega

/-- The text of a lexeme is what stands in its span. -/
theorem map_slice_spans {s after : List Char} (before : List Char) {xs : List Lexeme}
    (h : s = before ++ (xs.flatMap source ++ after)) :
    (Lexing.spans.go (Text.byteCount before) xs).map (fun p => Text.slice s p.1 p.2) =
      xs.map (·.text) := by
  induction xs generalizing before with
  | nil => rfl
  | cons x xs ih =>
    have hx : s = (before ++ x.gap) ++ (x.text ++ (xs.flatMap source ++ after)) := by
      rw [h, List.flatMap_cons, source]
      simp only [List.append_assoc]
    have hxs : s = ((before ++ x.gap) ++ x.text) ++ (xs.flatMap source ++ after) := by
      rw [hx, List.append_assoc (before ++ x.gap)]
    have hslice : Text.slice s (Text.byteCount before + Text.byteCount x.gap)
        (Text.byteCount before + Text.byteCount x.gap + Text.byteCount x.text) = x.text := by
      rw [hx, ← Text.byteCount_append]
      exact Text.slice_append ..
    have hrest := ih _ hxs
    rw [Text.byteCount_append, Text.byteCount_append] at hrest
    rw [Lexing.spans.go, List.map_cons, List.map_cons, hslice, hrest]

/-- There are no more lexemes than characters. -/
theorem length_le_length_flatMap {xs : List Lexeme} (hx : ∀ x ∈ xs, x.Proper) :
    xs.length ≤ (xs.flatMap source).length := by
  induction xs with
  | nil => exact Nat.le_refl _
  | cons x xs ih =>
    obtain ⟨c, rest, ht, -⟩ := (hx x (List.mem_cons_self ..)).text
    have hrest := ih fun y hy => hx y (List.mem_cons_of_mem _ hy)
    simp only [List.flatMap_cons, source, ht, List.length_append, List.length_cons]
    omega

end Lexeme

namespace Lexing

variable {s : List Char}

/-- The source around a placed token: what is before it, its text, and what follows. -/
theorem exists_of_mem_placed {t : Option Token} {start stop : Nat}
    (h : (t, start, stop) ∈ (scan s).placed) : ∃ before text after,
      s = before ++ (text ++ after) ∧ start = Text.byteCount before ∧
      stop = Text.byteCount before + Text.byteCount text ∧ Token.Reads (text ++ after) t text := by
  obtain ⟨seen, x, later, hsplit, hp⟩ := Lexeme.exists_of_mem_placedFrom 0 h
  cases hp
  refine ⟨seen.flatMap Lexeme.source ++ x.gap, x.text,
    later.flatMap Lexeme.source ++ (scan s).tail, ?_, ?_, ?_, reads_of_mem_scan s seen later x hsplit⟩
  · refine (source_scan s).symm.trans ?_
    rw [source, hsplit, List.flatMap_append, List.flatMap_cons, Lexeme.source]
    simp only [List.append_assoc]
  · rw [Nat.zero_add, Text.byteCount_append]
    rfl
  · rw [Nat.zero_add, Text.byteCount_append]
    rfl

theorem map_placed (l : Lexing) : l.placed.map (·.2) = l.spans :=
  Lexeme.map_placedFrom 0 l.lexemes

/-- Every span of a source is that of a token or a fault. -/
theorem exists_mem_placed {p : Nat × Nat} (h : p ∈ (scan s).spans) :
    ∃ t, (t, p) ∈ (scan s).placed := by
  rw [← map_placed] at h
  obtain ⟨⟨t, p'⟩, hmem, rfl⟩ := List.mem_map.mp h
  exact ⟨t, hmem⟩

/-- The spans of a source cover it but for blanks. -/
theorem covers_spans (s : List Char) : Text.Covers s (scan s).spans := by
  have hproper := proper_scan s
  refine ⟨fun p hp => ?_, ?_, fun p hp => ?_, ?_⟩
  · obtain ⟨t, ht⟩ := exists_mem_placed hp
    exact (Lexeme.placedFrom_bounds hproper.lexemes _ ht).2.1
  · rw [← map_placed]
    exact List.pairwise_map.2 (Lexeme.pairwise_placedFrom hproper.lexemes)
  · obtain ⟨t, ht⟩ := exists_mem_placed hp
    obtain ⟨before, text, after, hs, hstart, hstop, -⟩ := exists_of_mem_placed ht
    exact ⟨⟨before, text ++ after, hs, hstart.symm⟩,
      ⟨before ++ text, after, by rw [hs, List.append_assoc], by rw [hstop, Text.byteCount_append]⟩⟩
  · intro before c after hs huncovered
    refine Token.eq_of_isGap (Lexeme.blank_of_uncovered 0
      (fun x hx => (hproper.lexemes x hx).gap) hproper.tail ((source_scan s).trans hs) ?_)
    rw [Nat.zero_add]
    exact huncovered

/-- Scanning loses nothing and is greedy. The spans of what it reads follow one another, end between
characters, and leave out blanks only. In the span of a token stands the longest text of that place
that matches the pattern of any token, and a word or a literal carries it; a fault stands where no
pattern matches, and reaches over a character, over digits, or from an open quote to the end. So gaps
and spans make up the source, and there are no more of them than characters. -/
theorem scan_lossless_greedy (s : List Char) :
    Text.Covers s (scan s).spans ∧
    (∀ t start stop, (t, start, stop) ∈ (scan s).placed →
      Token.Reads (Text.dropBytes start s) t (Text.slice s start stop) ∧
      ∀ w, t = some (.word w) ∨ t = some (.literal w) → w.toList = Text.slice s start stop) ∧
    (scan s).lexemes.map (·.text) = (scan s).spans.map (fun p => Text.slice s p.1 p.2) ∧
    (scan s).source = s ∧ (scan s).lexemes.length ≤ s.length := by
  refine ⟨covers_spans s, fun t start stop h => ?_, ?_, source_scan s, ?_⟩
  · obtain ⟨before, text, after, hs, rfl, rfl, hreads⟩ := exists_of_mem_placed h
    rw [hs, Text.dropBytes_append, Text.slice_append]
    refine ⟨hreads, fun w hw => ?_⟩
    cases t with
    | none => rcases hw with hw | hw <;> cases hw
    | some t => exact hreads.spells.text_eq (by simpa using hw)
  · exact (Lexeme.map_slice_spans [] (source_scan s).symm).symm
  · have hlength := Lexeme.length_le_length_flatMap (proper_scan s).lexemes
    have hsource := congrArg List.length (source_scan s)
    rw [source, List.length_append] at hsource
    omega

/-- A word goes on as far as it can, digits without a colon and an open quote are faults. -/
example : (scan "12x_3 4:\n'a".toList).placed = [(none, 0, 2), (some (.word "x_3"), 2, 5),
    (some .ordinal, 6, 8), (none, 9, 11)] := by decide +kernel

end Lexing

end XmlScript
