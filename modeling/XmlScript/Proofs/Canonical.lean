import XmlScript.Proofs.Parser
import XmlScript.Proofs.Trim
import XmlScript.Script.Draft

/-!
# Canonical text parses back

The canonical text of a script is scanned piece by piece: a keyword ends before a blank or a
semicolon, a quoted literal ends by itself, and what precedes a statement is a line feed and an
ordinal or nothing. So the tokens of the text are those of the directives one after the other
(`exists_derives_canonicalFrom`, by induction on the script, for every number and width that the
text may go on from), and each clause denotes its directive (`denotes_clause`).
-/

namespace XmlScript

open Token (Spells)

/-! ## Spellings -/

theorem spells_keyword (k : Keyword) : (Token.word k.text).Spells k.text.toList := by
  have hword : ∃ c rest, k.text.toList = c :: rest ∧ Token.isWordStart c = true ∧
      ∀ x ∈ rest, Token.isWordPart x = true := by
    cases k <;> exact ⟨_, _, rfl, by decide, Text.forall_mem_of_all (by decide)⟩
  obtain ⟨c, rest, hs, hc, hr⟩ := hword
  have h := Spells.word hc hr
  rwa [← hs, String.ofList_toList] at h

theorem spells_encode (s : List Char) :
    (Token.literal (String.ofList (Literal.encode s))).Spells (Literal.encode s) :=
  Literal.spells_quoted (Or.inl rfl) s

theorem spells_label (n : Nat) : Token.ordinal.Spells (Nat.toDigits 10 n ++ [':']) :=
  Spells.ordinal Nat.toDigits_ne_nil
    fun _ hc => Text.isDigit_of_mem_toDigits hc

/-! ## The tokens of a directive -/

/-- An argument in double quotes stands for itself. -/
theorem isWritten_encode (a : Arg) :
    Arg.IsWritten (String.ofList (Literal.encode a.raw.toList)) a :=
  ⟨'"', Literal.escape a.raw.toList, Or.inl rfl, String.toList_ofList, Literal.unescape_escape _⟩

/-- The argument that a count is written as. -/
def argOfCount (count : UInt64) : Arg where
  raw := String.ofList (Nat.toDigits 10 count.toNat)
  legal := by
    intro c hc
    rw [String.toList_ofList] at hc
    exact Literal.isLegal_of_isDigit (Text.isDigit_of_mem_toDigits hc)

namespace Directive

/-- A directive as a word with its literals. -/
def clause (d : Directive) : Clause :=
  ⟨d.keyword.text, (operands d).map fun s => String.ofList (Literal.encode s)⟩

/-- Literals with commas between. -/
def literalTokens : List String → List Token
  | [] => []
  | [a] => [.literal a]
  | a :: rest => .literal a :: .comma :: literalTokens rest

/-- The tokens that a directive is written with, its semicolon included. -/
def tokens (d : Directive) : List Token :=
  .word d.keyword.text :: (literalTokens (clause d).literals ++ [.semicolon])

theorem operands_cases (d : Directive) :
    operands d = [] ∨ (∃ a, operands d = [a]) ∨ ∃ a b, operands d = [a, b] := by
  cases d with
  | remove | up | push | pop => exact Or.inl rfl
  | addElement _ | ensureElement _ | setText _ | computeText _ | addComment _ | addCData _
  | setNamespace _ | select _ | expect _ => exact Or.inr (Or.inl ⟨_, rfl⟩)
  | setAttribute _ _ | computeAttribute _ _ | addInstruction _ _ =>
    exact Or.inr (Or.inr ⟨_, _, rfl⟩)

theorem literals_literalTokens (d : Directive) :
    Clause.Literals (literalTokens (clause d).literals) (clause d).literals := by
  unfold clause
  rcases operands_cases d with h | ⟨a, h⟩ | ⟨a, b, h⟩
  · rw [h]; exact Clause.Literals.none
  · rw [h]; exact Clause.Literals.one _
  · rw [h]; exact Clause.Literals.two _ _

theorem tokens_semicolon (rest : List Char) :
    (scan (';' :: rest)).tokens = some .semicolon :: (scan rest).tokens :=
  tokens_scan_of_spells (g := []) (by simp) Spells.semicolon trivial

theorem tokens_comma (rest : List Char) :
    (scan (',' :: rest)).tokens = some .comma :: (scan rest).tokens :=
  tokens_scan_of_spells (g := []) (by simp) Spells.comma trivial

/-- A blank and a literal in double quotes are scanned as the literal. -/
theorem tokens_encode (s rest : List Char) :
    (scan (' ' :: (Literal.encode s ++ rest))).tokens =
      some (.literal (String.ofList (Literal.encode s))) :: (scan rest).tokens :=
  tokens_scan_of_spells (g := [' ']) (Text.forall_mem_of_all (by decide)) (spells_encode s) trivial

/-- A statement and its semicolon are scanned as the tokens of the directive. -/
theorem tokens_statement (d : Directive) (rest : List Char) :
    (scan (statement d ++ ';' :: rest)).tokens = (tokens d).map some ++ (scan rest).tokens := by
  have hword (c : Char) (after : List Char) (hc : Token.isWordPart c = false) :
      (scan (d.keyword.text.toList ++ c :: after)).tokens =
        some (.word d.keyword.text) :: (scan (c :: after)).tokens :=
    tokens_scan_of_spells (g := []) (by simp) (spells_keyword d.keyword) hc
  unfold statement tokens clause
  -- a keyword alone ends at the semicolon, any other at the blank before its operands
  rcases operands_cases d with h | ⟨a, h⟩ | ⟨a, b, h⟩
  · simp only [h]
    rw [hword ';' _ (by decide), tokens_semicolon]
    rfl
  · simp only [h, List.map_cons, List.map_nil, List.intercalate_singleton, List.append_assoc]
    rw [List.cons_append, hword ' ' _ (by decide), tokens_encode, tokens_semicolon]
    rfl
  · have hjoin : [',', ' '].intercalate [Literal.encode a, Literal.encode b] =
        Literal.encode a ++ ',' :: ' ' :: Literal.encode b := by
      simp [List.intercalate]
    simp only [h, List.map_cons, List.map_nil, hjoin, List.append_assoc, List.cons_append]
    rw [hword ' ' _ (by decide), tokens_encode, tokens_comma, tokens_encode, tokens_semicolon]
    rfl

/-- The clause of a directive denotes it. -/
theorem denotes_clause (d : Directive) : (clause d).Denotes d := by
  have harity : (clause d).literals.length = d.keyword.arity := by
    rw [← length_operands d]
    exact List.length_map ..
  suffices h : ∃ arguments : List Arg, operands d = arguments.map (·.raw.toList) ∧
      Carries d arguments by
    obtain ⟨arguments, hops, hc⟩ := h
    refine ⟨arguments, rfl, harity, ?_, hc⟩
    show List.Forall₂ Arg.IsWritten
      ((operands d).map fun s => String.ofList (Literal.encode s)) arguments
    rw [hops, List.map_map, List.forall₂_map_left_iff, List.forall₂_same]
    exact fun a _ => isWritten_encode a
  cases d with
  | remove | up | push | pop => exact ⟨[], rfl, rfl⟩
  | addElement a | ensureElement a | setText a | computeText a | addComment a | addCData a
  | setNamespace a | select a => exact ⟨[a], rfl, rfl⟩
  | setAttribute a b | computeAttribute a b | addInstruction a b => exact ⟨[a, b], rfl, rfl⟩
  | expect count =>
    refine ⟨[argOfCount count], ?_, argOfCount count, rfl, ?_⟩
    · simp only [operands, argOfCount, List.map_cons, List.map_nil, String.toList_ofList]
    · rw [argOfCount, String.toList_ofList]
      exact Text.isNumeral_toDigits _

end Directive

namespace Script

/-! ## Whole texts -/

/-- The text of the directives from any number on scans into the tokens of a derivation. -/
theorem exists_derives_canonicalFrom (s : Script) (index width : Nat) :
    ∃ ts, (scan (canonicalFrom index width s)).tokens = ts.map some ∧
      Clause.Derives ts (s.map Directive.clause) := by
  induction s generalizing index width with
  | nil => exact ⟨[], congrArg Lexing.tokens (scan_blank (g := []) (by simp)), Clause.Derives.nil⟩
  | cons d rest ih =>
    unfold canonicalFrom
    extract_lets label total
    obtain ⟨ts, hts, hd⟩ := ih (index + 1) (if margin < total then 0 else total)
    -- whatever precedes the statement is scanned as an ordinal or as nothing
    have hlabel : ∃ ordinal, Clause.Label ordinal ∧ ∀ after,
        (scan (label ++ after)).tokens = ordinal.map some ++ (scan after).tokens := by
      by_cases h : 0 < index ∧ width = 0
      · refine ⟨[.ordinal], Clause.Label.ordinal, fun after => ?_⟩
        rw [show label = ['\n'] ++ (Nat.toDigits 10 index ++ [':']) from if_pos h,
          List.append_assoc]
        exact tokens_scan_of_spells (Text.forall_mem_of_all (by decide)) (spells_label index)
          trivial
      · refine ⟨[], Clause.Label.none, fun after => ?_⟩
        rw [show label = [] from if_neg h]
        rfl
    obtain ⟨ordinal, hordinal, hscan⟩ := hlabel
    refine ⟨ordinal ++ (Directive.tokens d ++ ts), ?_, ?_⟩
    · rw [List.append_assoc, hscan, Directive.tokens_statement, hts, List.map_append,
        List.map_append]
    · have h := Clause.Derives.cons hordinal (Directive.literals_literalTokens d) hd
      rw [Directive.tokens, List.cons_append, List.append_assoc]
      exact h

theorem getLast?_canonicalFrom (d : Directive) (rest : Script) (index width : Nat) :
    (canonicalFrom index width (d :: rest)).getLast? = some ';' := by
  induction rest generalizing d index width with
  | nil => simp [canonicalFrom]
  | cons e rest ih =>
    rw [canonicalFrom, List.getLast?_append, List.getLast?_cons, ih]
    rfl

/-- Canonical text has no spaces at its ends: it starts with a keyword and ends with a
semicolon. -/
theorem trim_canonicalFrom (s : Script) : Text.trim (canonicalFrom 0 0 s) = canonicalFrom 0 0 s := by
  cases s with
  | nil => rfl
  | cons d rest =>
    apply Text.trim_eq_self
    · intro c hc
      -- the first statement has no label, so its keyword comes first
      have hkey : ∃ x k, d.keyword.text.toList = x :: k ∧ Text.isSpace x = false := by
        cases d.keyword <;> exact ⟨_, _, rfl, by decide⟩
      obtain ⟨x, k, hx, hspace⟩ := hkey
      have hhead : (Directive.statement d).head? = some x := by
        unfold Directive.statement
        split
        next => rw [hx]; rfl
        next => rw [hx]; rfl
      rw [canonicalFrom, if_neg (by omega), List.nil_append, List.head?_append, hhead] at hc
      cases hc
      exact hspace
    · intro c hc
      rw [getLast?_canonicalFrom] at hc
      cases hc
      decide

/-- Canonical text parses back to its script. -/
theorem parse_canonical_eq (s : Script) : parse (canonical s) = .ok s := by
  obtain ⟨ts, hts, hd⟩ := exists_derives_canonicalFrom s 0 0
  refine parse_ok_iff.2 ⟨ts, s.map Directive.clause, ?_, hd, ?_⟩
  · rw [canonical, trim_canonicalFrom, String.toList_ofList]
    exact hts
  · rw [List.forall₂_map_left_iff, List.forall₂_same]
    exact fun d _ => Directive.denotes_clause d

/-- The canonical text of a script parses back to that script, and so does the text of a draft to
what the draft holds. Hence no two scripts have one canonical text, and what is parsed of a
canonical text is written as that text again. -/
theorem parse_canonical :
    (∀ s : Script, parse (canonical s) = .ok s) ∧
    (∀ d : Draft, parse d.text = .ok d.directives) ∧
    Function.Injective canonical ∧
    ∀ s : Script, (parse (canonical s)).map canonical = .ok (canonical s) := by
  refine ⟨parse_canonical_eq, fun d => parse_canonical_eq d.directives, ?_, ?_⟩
  · intro s s' h
    have hs := parse_canonical_eq s
    rw [h, parse_canonical_eq s'] at hs
    exact (Except.ok.inj hs).symm
  · intro s
    rw [parse_canonical_eq]
    rfl

end Script

end XmlScript
