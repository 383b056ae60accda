import XmlScript.Proofs.Parser

/-!
# Joined scripts

The text of a script is closed: its last token is a semicolon, or it has none at all. No token
reaches over the end of a closed text, so what is scanned of the text with another one behind it
are the lexemes of the first and then those of the second (`scan_append`; only the blanks at the
seam come to stand together, which leaves no trace in the tokens). Derivations of the grammar part
at the same place (`Clause.Derives.of_append`), and so do the directives (`Script.parse_append`).
-/

namespace XmlScript

namespace Lexeme

/-! ## Reading with more behind -/

/-- What follows a token that is read does not lengthen it. -/
theorem endsBefore_read {gap rest : List Char} {c : Char} {t : Token}
    (h : (read gap c rest).1.token? = some t) : t.EndsBefore (read gap c rest).2 := by
  cases t with
  | word w =>
    unfold read at h ⊢
    split at h
    next => cases h
    split at h
    next => cases h
    split at h
    next =>
      split at h
      next => cases h
      next => cases h
    split at h
    next =>
      split at h
      next => cases h
      next => cases h
    split at h
    next hsemi hcomma hdigit hquote hstart =>
      rw [if_neg hsemi, if_neg hcomma, if_neg hdigit, if_neg hquote, if_pos hstart]
      -- a word goes on as long as it can
      exact Token.endsBefore_dropWhile _ rest
    next => cases h
  | semicolon | comma | ordinal | literal _ => trivial

/-- A token that is read at the front of a text is read there when more follows, as long as that
does not lengthen the token. -/
theorem read_append {gap rest more : List Char} {c : Char} {t : Token}
    (h : (read gap c rest).1.token? = some t)
    (hmore : t.EndsBefore ((read gap c rest).2 ++ more)) :
    read gap c (rest ++ more) = ((read gap c rest).1, (read gap c rest).2 ++ more) := by
  have hspells := spells_read h
  have hgap := gap_read gap c rest
  have htext := text_append_read gap c rest
  generalize read gap c rest = x at h hmore hspells hgap htext ⊢
  obtain ⟨⟨g, text, t?⟩, after⟩ := x
  cases h
  cases hgap
  cases text with
  | nil => exact absurd rfl hspells.ne_nil
  | cons c' text =>
    obtain ⟨rfl, rfl⟩ := List.cons_eq_cons.1 (List.cons_append ▸ htext)
    show read g c' (text ++ after ++ more) = _
    rw [List.append_assoc]
    exact read_of_spells g hspells hmore

/-- The blanks before a lexeme do not matter for what is read. -/
theorem read_gap (gap gap' : List Char) (c : Char) (rest : List Char) :
    (read gap c rest).1.token? = (read gap' c rest).1.token? ∧
      (read gap c rest).2 = (read gap' c rest).2 := by
  unfold read
  repeat' split
  all_goals exact ⟨rfl, rfl⟩

end Lexeme

/-! ## Scanning joined texts -/

/-- Blanks before a text leave its tokens as they are. -/
theorem tokens_scan_gap {g : List Char} (hg : ∀ c ∈ g, Token.isGap c = true) (s : List Char) :
    (scan (g ++ s)).tokens = (scan s).tokens := by
  cases hs : s.dropWhile Token.isGap with
  | nil =>
    have hblank := List.dropWhile_eq_nil_iff.mp hs
    have hall : ∀ c ∈ g ++ s, Token.isGap c = true := by
      intro c hc
      rcases List.mem_append.mp hc with hc | hc
      · exact hg c hc
      · exact hblank c hc
    rw [scan_blank hall, scan_blank hblank]
    rfl
  | cons c rest =>
    obtain ⟨hsplit, hc⟩ := Token.split_gap hs
    have hhere : ∀ c ∈ s.takeWhile Token.isGap, Token.isGap c = true := fun _ =>
      List.mem_takeWhile_imp
    have hboth : ∀ c ∈ g ++ s.takeWhile Token.isGap, Token.isGap c = true := by
      intro c hc
      rcases List.mem_append.mp hc with hc | hc
      · exact hg c hc
      · exact hhere c hc
    generalize s.takeWhile Token.isGap = g' at hsplit hhere hboth
    rw [hsplit, ← List.append_assoc, scan_gap hboth hc, scan_gap hhere hc]
    obtain ⟨htoken, hrest⟩ := Lexeme.read_gap (g ++ g') g' c rest
    simp only [Lexing.tokens, List.map_cons, htoken, hrest]

/-- A lexing that nothing can change that follows: its lexemes are tokens, and the last of them is
a semicolon. -/
structure Lexing.IsClosed (l : Lexing) : Prop where
  isSome : ∀ x ∈ l.lexemes, x.token?.isSome
  semicolon : ∀ x ∈ l.lexemes.getLast?, x.token? = some .semicolon

/-- A closed text is scanned first, and then what follows it with the last blanks before it. -/
theorem scan_append {s : List Char} (h : (scan s).IsClosed) (t : List Char) :
    scan (s ++ t) = ⟨(scan s).lexemes ++ (scan ((scan s).tail ++ t)).lexemes,
      (scan ((scan s).tail ++ t)).tail⟩ := by
  fun_induction scan s with
  | case1 s hs => rfl
  | case2 s c rest hs x l ih =>
    obtain ⟨hsplit, hc⟩ := Token.split_gap hs
    have hgap : ∀ c ∈ s.takeWhile Token.isGap, Token.isGap c = true := fun _ =>
      List.mem_takeWhile_imp
    obtain ⟨token, htoken⟩ := Option.isSome_iff_exists.mp (h.isSome x.1 (List.mem_cons_self ..))
    -- only a word can be lengthened, and behind a word there is more of the text
    have hmore : token.EndsBefore (x.2 ++ t) := by
      have hends := Lexeme.endsBefore_read htoken
      cases hx : x.2 with
      | cons d after =>
        rw [show (Lexeme.read _ c rest).2 = d :: after from hx] at hends
        cases token <;> exact hends
      | nil =>
        have hnone : l.lexemes = [] := by
          show (scan x.2).lexemes = []
          rw [hx, scan_blank (g := []) (by simp)]
        have hlast := h.semicolon x.1 (by simp [hnone])
        rw [htoken, Option.some.injEq] at hlast
        rw [hlast]
        trivial
    have hclosed : l.IsClosed := by
      refine ⟨fun y hy => h.isSome y (List.mem_cons_of_mem _ hy), fun y hy => h.semicolon y ?_⟩
      rw [List.getLast?_cons, hy]
      rfl
    have hjoined : s ++ t = s.takeWhile Token.isGap ++ c :: (rest ++ t) := by
      rw [← List.cons_append, ← List.append_assoc, ← hsplit]
    rw [hjoined, scan_gap hgap hc, Lexeme.read_append htoken hmore, ih hclosed]
    rfl

theorem tokens_scan_append {s : List Char} (h : (scan s).IsClosed) (t : List Char) :
    (scan (s ++ t)).tokens = (scan s).tokens ++ (scan t).tokens := by
  rw [scan_append h, ← tokens_scan_gap (isGap_tail_scan s) t]
  exact List.map_append ..

/-- A derived sequence of tokens ends with a semicolon. -/
theorem Clause.Derives.getLast? {ts : List Token} {cs : List Clause} (h : Derives ts cs) :
    ∀ t ∈ ts.getLast?, t = .semicolon := by
  induction h with
  | nil => intro t ht; cases ht
  | @cons label tokens rest c cs hlabel hl hr ih =>
    intro t ht
    rw [← List.cons_append, ← List.append_assoc, List.getLast?_append, List.getLast?_cons] at ht
    cases hrest : rest.getLast? with
    | none =>
      rw [hrest] at ht
      cases ht
      rfl
    | some last =>
      rw [hrest] at ht
      cases ht
      exact ih last hrest

/-- A derived text is closed. -/
theorem isClosed_of_derives {s : List Char} {ts : List Token} {cs : List Clause}
    (hs : (scan s).tokens = ts.map some) (hd : Clause.Derives ts cs) : (scan s).IsClosed := by
  refine ⟨Script.AreTokens.isSome hs, fun x hx => ?_⟩
  have hlast : (scan s).tokens.getLast? = (scan s).lexemes.getLast?.map (·.token?) :=
    List.getLast?_map ..
  rw [hx, hs, List.getLast?_map, Option.map_some, Option.map_eq_some_iff] at hlast
  obtain ⟨t, ht, hx⟩ := hlast
  rw [← hx, hd.getLast? t ht]

/-! ## Directives -/

namespace Script

/-- Behind the text of a script, the tokens of a text are those that it has alone. -/
theorem tokens_append_of_derives {source : String} {ts : List Token} {cs : List Clause}
    (hts : (scan source.toList).tokens = ts.map some) (hd : Clause.Derives ts cs)
    (more : String) : (scan (source ++ more).toList).tokens =
      ts.map some ++ (scan more.toList).tokens := by
  rw [String.toList_append, tokens_scan_append (isClosed_of_derives hts hd), hts]

theorem parse_append_of_ok {source more : String} {ds es : Script} (h : parse source = .ok ds)
    (h' : parse more = .ok es) : parse (source ++ more) = .ok (ds ++ es) := by
  obtain ⟨ts, cs, hts, hd, hds⟩ := parse_ok_iff.1 h
  obtain ⟨us, cs', hus, hd', hes⟩ := parse_ok_iff.1 h'
  refine parse_ok_iff.2 ⟨ts ++ us, cs ++ cs', ?_, hd.append hd', List.rel_append hds hes⟩
  rw [tokens_append_of_derives hts hd, hus, List.map_append]

/-- What is read of a text behind that of a script is read of it alone. -/
theorem exists_of_parse_append {source more : String} {ds r : Script} (h : parse source = .ok ds)
    (hr : parse (source ++ more) = .ok r) : ∃ es, parse more = .ok es ∧ r = ds ++ es := by
  obtain ⟨ts, cs, hts, hd, hds⟩ := parse_ok_iff.1 h
  obtain ⟨us, cs', hus, hd', hall⟩ := parse_ok_iff.1 hr
  -- the tokens part at the seam, then the clauses, then the directives
  rw [tokens_append_of_derives hts hd] at hus
  obtain ⟨vs, ws, rfl, hvs, hws⟩ := List.map_eq_append_iff.1 hus.symm
  obtain rfl : vs = ts := (List.map_inj_right fun _ _ => Option.some.inj).1 hvs
  obtain ⟨cs₂, hd₂, rfl⟩ := hd.of_append hd'
  have hleft := List.forall₂_take cs.length hall
  have hright := List.forall₂_drop cs.length hall
  rw [List.take_left] at hleft
  rw [List.drop_left] at hright
  -- what the first clauses denote was read of the first text already
  have hds' : parse source = .ok (r.take cs.length) := parse_ok_iff.2 ⟨vs, cs, hts, hd, hleft⟩
  rw [h, Except.ok.injEq] at hds'
  refine ⟨r.drop cs.length, parse_ok_iff.2 ⟨ws, cs₂, hws.symm, hd₂, hright⟩, ?_⟩
  rw [hds', List.take_append_drop]

/-- Reading is compositional: behind the text of a script, a text is accepted exactly when it is
accepted alone, and the directives of the two stand one behind the other. So what is rejected alone
is rejected there too, and the texts of two scripts joined are the text of the joined scripts. -/
theorem parse_append {source : String} {ds : Script} (h : parse source = .ok ds) (more : String) :
    (∀ r, parse (source ++ more) = .ok r ↔ ∃ es, parse more = .ok es ∧ r = ds ++ es) ∧
    (∀ e, parse more = .error e → ∃ e', parse (source ++ more) = .error e') ∧
    ∀ es, parse more = .ok es → parse (source ++ more) = .ok (ds ++ es) := by
  refine ⟨fun r => ⟨exists_of_parse_append h, ?_⟩, ?_, fun es => parse_append_of_ok h⟩
  · intro hes
    obtain ⟨es, hes, rfl⟩ := hes
    exact parse_append_of_ok h hes
  · intro e he
    cases hr : parse (source ++ more) with
    | error e' => exact ⟨e', rfl⟩
    | ok r =>
      obtain ⟨es, hes, -⟩ := exists_of_parse_append h hr
      rw [he] at hes
      cases hes

/-- A text that ends in blanks, with a semicolon in a literal: a labelled statement is read behind
it, and one that is not closed is rejected there. -/
theorem parse_append_labelled :
    parse "ADD 'a;' ;\n" = .ok [.addElement ⟨"a;", Literal.check_eq_ok_iff.1 rfl⟩] ∧
    parse ("ADD 'a;' ;\n" ++ "1:UP;") =
      .ok ([.addElement ⟨"a;", Literal.check_eq_ok_iff.1 rfl⟩] ++ [.up]) ∧
    ∃ e, parse ("ADD 'a;' ;\n" ++ "UP") = .error e := by
  have h : parse "ADD 'a;' ;\n" = .ok [.addElement ⟨"a;", Literal.check_eq_ok_iff.1 rfl⟩] := by
    decide +kernel
  have hlabelled : parse "1:UP;" = .ok [.up] := by decide +kernel
  have hopen : parse "UP" = .error ⟨"UP", .unexpectedEnd⟩ := by decide +kernel
  exact ⟨h, (parse_append h "1:UP;").2.2 _ hlabelled, (parse_append h "UP").2.1 _ hopen⟩

end Script

end XmlScript
