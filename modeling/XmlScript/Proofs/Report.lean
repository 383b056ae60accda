import XmlScript.Proofs.Parser
import XmlScript.Proofs.Position
import XmlScript.Proofs.Viable

/-!
# Reports where the grammar cannot go on

When all of a source are tokens but the grammar has no place for one of them, the report names the
statement around the first such token, or around the end of the source
(`Script.structural_error_located`). Two facts meet in that: reading stops behind the longest viable
part of the tokens (`Statement.isGreatest_viable`), and the lexemes that the parser names are those
of the statement around the offset of the token (`Lexing.parts_around`).

A statement without tokens is the exception. It shows only when the token is a semicolon too many,
and then the statement before it is named, which has tokens of its own, since it was read
(`Statement.readAll_ends`).
-/

namespace XmlScript

namespace Token

/-! ## Tokens are no spaces -/

theorem isSpace_eq_false_of_isWordStart {c : Char} (h : isWordStart c = true) :
    Text.isSpace c = false := by
  have hn : 0x41 ≤ c.toNat ∧ c.toNat ≤ 0x7A := by
    rcases (Bool.or_eq_true _ _).mp h with h | h
    · refine ⟨Lexeme.le_toNat_of_isAlpha h, ?_⟩
      rcases (Bool.or_eq_true c.isUpper c.isLower).mp h with h | h
      · have hupper : c.val ≥ 'A'.val ∧ c.val ≤ 'Z'.val := of_decide_eq_true h
        exact Nat.le_trans hupper.2 (by decide)
      · have hlower : (decide (c.val ≥ 'a'.val) && decide (c.val ≤ 'z'.val)) = true := h
        exact of_decide_eq_true ((Bool.and_eq_true ..).mp hlower).2
    · rw [beq_iff_eq.1 h]
      decide
  simp only [Text.isSpace, Bool.or_eq_false_iff, Bool.and_eq_false_iff, decide_eq_false_iff_not,
    beq_eq_false_iff_ne]
  omega

/-- Every token has a character that trimming leaves. -/
theorem Spells.exists_not_space {t : Token} {text : List Char} (h : t.Spells text) :
    ∃ c ∈ text, Text.isSpace c = false := by
  cases h with
  | semicolon => exact ⟨';', by simp, by decide⟩
  | comma => exact ⟨',', by simp, by decide⟩
  | ordinal _ _ => exact ⟨':', by simp, by decide⟩
  | @literal q body hq _ => exact ⟨q, by simp, by rcases hq with rfl | rfl <;> decide⟩
  | word hc _ => exact ⟨_, List.mem_cons_self .., isSpace_eq_false_of_isWordStart hc⟩

end Token

theorem AreTokens.isSemicolon_eq_false {xs : List Lexeme} {ts : List Token} (h : AreTokens xs ts)
    (hts : Token.semicolon ∉ ts) : ∀ x ∈ xs, x.isSemicolon = false := by
  intro x hx
  have hm : x.token? ∈ ts.map some := h ▸ List.mem_map_of_mem hx
  obtain ⟨t, ht, hxt⟩ := List.mem_map.mp hm
  rw [Lexeme.isSemicolon, ← hxt]
  refine beq_eq_false_iff_ne.mpr fun he => hts ?_
  rwa [← Option.some.inj he]

namespace Script

/-! ## Fragments -/

/-- The fragment of lexemes is empty when they are made of spaces. -/
theorem fragment_eq_empty_iff {xs : List Lexeme} :
    fragment xs = "" ↔ ∀ c ∈ xs.flatMap Lexeme.source, Text.isSpace c = true := by
  rw [← Text.trim_eq_nil_iff, fragment, ← String.toList_inj, String.toList_ofList]
  rfl

/-- Something is left of lexemes that are tokens. -/
theorem fragment_ne_empty {s : List Char} {xs : List Lexeme} (hne : xs ≠ [])
    (hx : ∀ x ∈ xs, x ∈ (scan s).lexemes ∧ x.token?.isSome) : fragment xs ≠ "" := by
  obtain ⟨x, rest, rfl⟩ := List.exists_cons_of_ne_nil hne
  obtain ⟨hmem, hsome⟩ := hx x (List.mem_cons_self ..)
  obtain ⟨t, ht⟩ := Option.isSome_iff_exists.mp hsome
  obtain ⟨c, hc, hspace⟩ := (spells_of_mem_scan hmem ht).exists_not_space
  rw [Ne, fragment_eq_empty_iff]
  intro hall
  have hc' : c ∈ (x :: rest).flatMap Lexeme.source :=
    List.mem_flatMap.mpr ⟨x, List.mem_cons_self .., List.mem_append_right _ hc⟩
  rw [hall c hc'] at hspace
  cases hspace

/-! ## The open statement -/

theorem openStatement_append {front inside : List Lexeme}
    (hf : ∀ x ∈ front.getLast?, x.isSemicolon = true) (hi : ∀ x ∈ inside, x.isSemicolon = false) :
    openStatement (front ++ inside) = inside := by
  have hopen : ∀ x ∈ inside.reverse, (!x.isSemicolon) = true := by
    intro x hx
    rw [hi x (List.mem_reverse.mp hx)]
    rfl
  rw [openStatement, List.reverse_append, List.takeWhile_append_of_pos hopen]
  rw [← List.head?_reverse] at hf
  cases hfront : front.reverse with
  | nil => rw [List.takeWhile_nil, List.append_nil, List.reverse_reverse]
  | cons x rest =>
    have hx := hf x (by rw [hfront]; rfl)
    rw [List.takeWhile_cons_of_neg (by simp [hx]), List.append_nil, List.reverse_reverse]

theorem closedStatements?_append {earlier inside : List Lexeme} {semi : Lexeme}
    (hs : semi.isSemicolon = true) (hi : ∀ x ∈ inside, x.isSemicolon = false) :
    closedStatements? (earlier ++ semi :: inside) = some earlier := by
  have hopen : ∀ x ∈ inside.reverse, (!x.isSemicolon) = true := by
    intro x hx
    rw [hi x (List.mem_reverse.mp hx)]
    rfl
  have hdrop : (earlier ++ semi :: inside).reverse.dropWhile (!·.isSemicolon) =
      semi :: earlier.reverse := by
    rw [List.reverse_append, List.reverse_cons, List.append_assoc,
      List.dropWhile_append_of_pos hopen, List.singleton_append,
      List.dropWhile_cons_of_neg (by simp [hs])]
  rw [closedStatements?, hdrop]
  simp only [List.reverse_reverse]

end Script

/-! ## The last statement that was read -/

/-- Lexemes that are read as statements end with a statement that is not empty. -/
theorem Statement.readAll_ends {xs : List Lexeme} {ss : List Statement} (h : readAll xs = .ok ss) :
    xs = [] ∨ ∃ front used semi, xs = front ++ (used ++ [semi]) ∧
      (∀ x ∈ front.getLast?, x.isSemicolon = true) ∧ used ≠ [] ∧
      (∀ x ∈ used, x.isSemicolon = false) ∧ semi.isSemicolon = true := by
  fun_induction readAll xs generalizing ss with
  | case1 => exact Or.inl rfl
  | case2 x rest s after hread ih =>
    cases hall : readAll after with
    | error stuck =>
      rw [hall] at h
      cases h
    | ok ss' =>
      obtain ⟨semi, hx, hs, hd⟩ := read_eq_ok_iff.1 hread
      have hsemi : semi.isSemicolon = true := by rw [Lexeme.isSemicolon, hs]; rfl
      refine Or.inr ?_
      rcases ih hall with rfl | ⟨front, used, last, rfl, hfront, hused, hopen, hlast⟩
      · have hne := hd.lexemes_ne_nil
        obtain ⟨label, tokens, hlabel, hl, hu⟩ := hd
        have hbegun : Clause.Begun (label ++ .word s.keyword :: tokens) :=
          ⟨s.clause, label, tokens, [], hlabel, hl, List.append_nil _⟩
        exact ⟨[], s.lexemes, semi, hx, by simp, hne,
          hu.isSemicolon_eq_false hbegun.semicolon_not_mem, hsemi⟩
      · refine ⟨s.lexemes ++ semi :: front, used, last, ?_, ?_, hused, hopen, hlast⟩
        · rw [hx, List.append_assoc, List.cons_append]
        · intro y hy
          rw [List.getLast?_append, List.getLast?_cons, Option.some_or, Option.mem_some_iff] at hy
          cases hlast' : front.getLast? with
          | none =>
            rw [hlast', Option.getD_none] at hy
            exact hy ▸ hsemi
          | some z =>
            rw [hlast', Option.getD_some] at hy
            exact hy ▸ hfront z hlast'
  | case3 => cases h

theorem Statement.isSemicolon_getLast?_of_readAll {xs : List Lexeme} {ss : List Statement}
    (h : readAll xs = .ok ss) : ∀ x ∈ xs.getLast?, x.isSemicolon = true := by
  intro x hx
  rcases readAll_ends h with rfl | ⟨front, used, semi, rfl, -, -, -, hsemi⟩
  · cases hx
  · rw [List.getLast?_append, List.getLast?_concat, Option.some_or, Option.mem_some_iff] at hx
    exact hx ▸ hsemi

namespace Script

/-! ## What a report says -/

/-- What is said of a token that the grammar has no place for, or of the end of a script. -/
def unexpected (found : Option Token) : SyntaxFault := found.elim .unexpectedEnd .unexpectedToken

/-- What is said of a statement with its first token that is no ordinal. -/
def structuralFault (leading found : Option Token) : SyntaxFault :=
  match leading with
  | some (.word w) => if (Keyword.ofText? w).isNone then .unknownCommand w else unexpected found
  | _ => unexpected found

theorem structuralError_append (seen stuck : List Lexeme) :
    structuralError (seen ++ stuck) stuck =
      let inside := openStatement seen ++ stuck.takeWhile (!·.isSemicolon)
      ⟨if fragment inside = "" then emptyFragment seen else fragment inside,
        structuralFault ((inside.find? (·.token? != some .ordinal)).bind (·.token?))
          (stuck.head?.bind (·.token?))⟩ := by
  have hseen : (seen ++ stuck).take ((seen ++ stuck).length - stuck.length) = seen := by
    rw [List.length_append, Nat.add_sub_cancel, List.take_left]
  unfold structuralError
  simp only [hseen]
  generalize ((openStatement seen ++ stuck.takeWhile (!·.isSemicolon)).find?
    (·.token? != some .ordinal)).bind (·.token?) = leading
  generalize stuck.head?.bind (·.token?) = found
  -- one case a kind of token
  rcases leading with _ | (_ | _ | _ | _ | w) <;> cases found <;> rfl

theorem message_unexpected (found : Option Token) : (unexpected found).message =
    found.elim "unexpected end of script" fun t => "unexpected " ++ t.describe := by
  cases found <;> rfl

/-- The words for an unexpected token are no words for an unknown command. -/
theorem message_unexpected_ne (found : Option Token) (w : String) :
    (unexpected found).message ≠ "unknown command '" ++ w ++ "'" := by
  intro h
  have hthird := congrArg (fun s => s.toList[2]?) h
  rw [message_unexpected] at hthird
  simp only [String.toList_append] at hthird
  cases found with
  | none =>
    simp at hthird
  | some t =>
    simp at hthird

/-- What stands between two texts is fixed by the whole. -/
theorem middle_inj {a b w w' : String} (h : a ++ w ++ b = a ++ w' ++ b) : w = w' := by
  have h := congrArg String.toList h
  rw [String.toList_append, String.toList_append, String.toList_append, String.toList_append] at h
  exact String.toList_inj.1 (List.append_cancel_left (List.append_cancel_right h))

theorem message_structuralFault_iff {leading found : Option Token} {w : String} :
    (structuralFault leading found).message = "unknown command '" ++ w ++ "'" ↔
      leading = some (.word w) ∧ Keyword.ofText? w = none := by
  unfold structuralFault
  split
  next w' =>
    by_cases hw : Keyword.ofText? w' = none
    · rw [if_pos (by simp [hw])]
      constructor
      · intro h
        obtain rfl := middle_inj h
        exact ⟨rfl, hw⟩
      · intro h
        cases h.1
        rfl
    · rw [if_neg (by simpa using hw)]
      refine iff_of_false (message_unexpected_ne found w) fun h => hw ?_
      cases h.1
      exact h.2
  next hn => exact iff_of_false (message_unexpected_ne found w) fun h => hn w h.1

theorem structuralFault_of_known {leading : Option Token} (found : Option Token)
    (h : ∀ w, leading = some (.word w) → (Keyword.ofText? w).isSome) :
    structuralFault leading found = unexpected found := by
  unfold structuralFault
  split
  next w =>
    have hw := h w rfl
    rw [Option.isSome_iff_ne_none] at hw
    rw [if_neg (by simpa using hw)]
  next => rfl

/-! ## Reports by position -/

/-- The report of a place in a source: which statement it names, and in which words. At the place
stands the token `found`, or the source ends. -/
structure ReportsAt (l : Lexing) (found : Option Token) (position : Nat) (e : SyntaxError) :
    Prop where
  /-- It names the statement around the place. -/
  fragment : l.statementText position ≠ "" → e.fragment = l.statementText position
  /-- An empty statement means a semicolon too many; the statement before it is named, or the
  semicolon when there is none. -/
  stray : l.statementText position = "" → found = some .semicolon ∧ e.fragment =
    (l.semicolonBefore? position).elim ";" fun semicolon => l.statementText semicolon.1
  preceding : l.statementText position = "" →
    ∀ semicolon ∈ l.semicolonBefore? position, l.statementText semicolon.1 ≠ ""
  unknown : ∀ w, e.fault.message = "unknown command '" ++ w ++ "'" ↔
    l.leadingToken? (l.statementRange position) = some (.word w) ∧ Keyword.ofText? w = none
  unexpected : (∀ w, l.leadingToken? (l.statementRange position) = some (.word w) →
      (Keyword.ofText? w).isSome) →
    e.fault.message = found.elim "unexpected end of script" fun t => "unexpected " ++ t.describe

end Script

theorem AreTokens.getElem?_append {xs ys : List Lexeme} {ts : List Token}
    (h : AreTokens (xs ++ ys) ts) : ts[xs.length]? = ys.head?.bind (·.token?) := by
  obtain ⟨us, vs, rfl, hu, hv⟩ := h.split
  rw [hu.length_eq, List.getElem?_append_right (Nat.le_refl _), Nat.sub_self]
  cases vs with
  | nil =>
    rw [areTokens_nil_iff.1 hv]
    rfl
  | cons t vs =>
    obtain ⟨g, s, rest, rfl, -⟩ := areTokens_cons_iff.1 hv
    rfl

namespace Script

/-- An empty statement is named by the one before it, which has tokens. -/
theorem emptyFragment_eq {s : List Char} {done inside back : List Lexeme} {ss : List Statement}
    {position : Nat} (hp : (scan s).Parts done inside back)
    (hpos : Lexing.Parts.Holds done inside back position) (hread : Statement.readAll done = .ok ss)
    (hsome : ∀ x ∈ done, x.token?.isSome) :
    (emptyFragment done = ((scan s).semicolonBefore? position).elim ";"
      fun semicolon => (scan s).statementText semicolon.1) ∧
    ∀ semicolon ∈ (scan s).semicolonBefore? position, (scan s).statementText semicolon.1 ≠ "" := by
  have hl := proper_scan s
  rcases Statement.readAll_ends hread with rfl | ⟨front, used, semi, rfl, hfront, hne, hopen, hsemi⟩
  · rw [hp.semicolonBefore?_of_nil hl hpos]
    exact ⟨rfl, nofun⟩
  · rw [← List.append_assoc] at hp hpos hsome ⊢
    have hsplit : (scan s).lexemes = (front ++ used) ++ semi :: (inside ++ back) := by
      rw [hp.split, List.append_assoc (front ++ used), List.singleton_append]
    -- the statement around the start of the semicolon is the one that it closes
    obtain ⟨front', -, hp', hpos'⟩ := Lexing.parts_around hsplit
    have htext := hp'.statementText_eq hl hpos'
    rw [openStatement_append hfront hopen, List.takeWhile_cons_of_neg (by simp [hsemi]),
      List.append_nil] at htext
    have hused : fragment used ≠ "" := by
      refine fragment_ne_empty (s := s) hne fun x hx => ⟨?_, hsome x (by simp [hx])⟩
      rw [hp.split]
      simp [hx]
    rw [hp.semicolonBefore?_of_concat hl hpos]
    refine ⟨?_, ?_⟩
    · rw [emptyFragment, closedStatements?_append hsemi (by simp)]
      simp only [openStatement_append hfront hopen, if_neg hused, Option.elim_some, htext]
    · intro semicolon hmem
      cases hmem
      exact htext ▸ hused

/-! ## Where reading stops -/

/-- Reading the tokens of a source stops at the lexemes `stuck`, behind complete statements and the
front of another one. -/
structure Halts (s : List Char) (ts : List Token) (done used stuck : List Lexeme) : Prop where
  tokens : (scan s).tokens = ts.map some
  split : (scan s).lexemes = (done ++ used) ++ stuck
  complete : ∃ ss, Statement.readAll done = .ok ss
  begun : ∃ begun, AreTokens used begun ∧ Clause.Begun begun
  nonempty : stuck = [] → used ≠ []

theorem exists_halts {s : List Char} {ts : List Token} {stuck : List Lexeme}
    (hts : (scan s).tokens = ts.map some)
    (hread : Statement.readAll (scan s).lexemes = .error stuck) :
    ∃ done used, Halts s ts done used stuck := by
  obtain ⟨done, used, ss, begun, hdone, hu, hb, hstops⟩ := Statement.readAll_stops hread
  refine ⟨done, used, hts, hstops.split, ⟨ss, hdone⟩, ⟨begun, hu, hb⟩, ?_⟩
  -- at the end of the source, something of a statement was begun, or it would have been read
  rintro rfl rfl
  rw [hstops.split, List.append_nil, List.append_nil, hdone] at hread
  cases hread

namespace Halts

variable {s : List Char} {ts : List Token} {done used stuck : List Lexeme}

/-- The token that is found is the one behind those that were read. -/
theorem found (h : Halts s ts done used stuck) :
    ts[(done ++ used).length]? = stuck.head?.bind (·.token?) := by
  have hlexemes : AreTokens ((done ++ used) ++ stuck) ts := h.split ▸ h.tokens
  exact hlexemes.getElem?_append

/-- An empty statement has no tokens before the place and none behind it. -/
theorem stray (h : Halts s ts done used stuck)
    (hempty : fragment (openStatement (done ++ used) ++ stuck.takeWhile (!·.isSemicolon)) = "") :
    used = [] ∧ openStatement (done ++ used) = [] ∧
      ts[(done ++ used).length]? = some .semicolon := by
  have hnil : openStatement (done ++ used) ++ stuck.takeWhile (!·.isSemicolon) = [] := by
    obtain ⟨front, -, hp, -⟩ := Lexing.parts_around h.split
    by_contra hne
    refine fragment_ne_empty (s := s) hne (fun x hx => ?_) hempty
    have hmem : x ∈ (scan s).lexemes := by
      rw [hp.split]
      exact List.mem_append_right _ (List.mem_append_left _ hx)
    exact ⟨hmem, AreTokens.isSome h.tokens x hmem⟩
  obtain ⟨hnone, hnext⟩ := List.append_eq_nil_iff.1 hnil
  have hused : used = [] := by
    obtain ⟨ss, hdone⟩ := h.complete
    obtain ⟨begun, hu, hb⟩ := h.begun
    have hends := Statement.isSemicolon_getLast?_of_readAll hdone
    have hopen := openStatement_append hends (hu.isSemicolon_eq_false hb.semicolon_not_mem)
    rw [← hopen, hnone]
  refine ⟨hused, hnone, ?_⟩
  rw [h.found]
  cases stuck with
  | nil => exact absurd hused (h.nonempty rfl)
  | cons x rest =>
    by_cases hx : x.isSemicolon = true
    · exact beq_iff_eq.1 hx
    · rw [List.takeWhile_cons_of_pos (by simp [hx])] at hnext
      cases hnext

/-- The report names the statement around the place. -/
theorem reportsAt (h : Halts s ts done used stuck) :
    ReportsAt (scan s) ts[(done ++ used).length]? ((scan s).startOf (done ++ used).length)
      (structuralError (scan s).lexemes stuck) := by
  have hl := proper_scan s
  obtain ⟨front, hseen, hp, hpos⟩ := Lexing.parts_around h.split
  have htext := hp.statementText_eq hl hpos
  have hleading := hp.leadingToken?_eq hl hpos
  have hpreceding (hempty : (scan s).statementText ((scan s).startOf (done ++ used).length) = "") :
      emptyFragment (done ++ used) =
        ((scan s).semicolonBefore? ((scan s).startOf (done ++ used).length)).elim ";"
          (fun semicolon => (scan s).statementText semicolon.1) ∧
      ∀ semicolon ∈ (scan s).semicolonBefore? ((scan s).startOf (done ++ used).length),
        (scan s).statementText semicolon.1 ≠ "" := by
    obtain ⟨hused, hnone, -⟩ := h.stray (htext ▸ hempty)
    obtain ⟨ss, hdone⟩ := h.complete
    have hread : Statement.readAll (done ++ used) = .ok ss := by rwa [hused, List.append_nil]
    have hfront : front = done ++ used := by rw [hseen, hnone, List.append_nil]
    exact emptyFragment_eq (hfront ▸ hp) (hfront ▸ hpos) hread fun x hx =>
      AreTokens.isSome h.tokens x (h.split ▸ List.mem_append_left _ hx)
  rw [h.split, structuralError_append, ← h.found]
  refine ⟨fun hne => ?_, fun hempty => ?_, fun hempty => ?_, fun w => ?_, fun hknown => ?_⟩
  · rw [htext] at hne ⊢
    simp only [if_neg hne]
  · refine ⟨(h.stray (htext ▸ hempty)).2.2, ?_⟩
    rw [← (hpreceding hempty).1]
    rw [htext] at hempty
    simp only [if_pos hempty]
  · exact (hpreceding hempty).2
  · rw [hleading]
    exact message_structuralFault_iff
  · rw [hleading] at hknown
    show (structuralFault _ _).message = _
    rw [structuralFault_of_known _ hknown, message_unexpected]

end Halts

/-- A script whose lexemes are all tokens, but no derivation, is reported at its first token that no
derivation has behind those before it: token `k` when the first `k` tokens are the longest part that
some derivation starts with, and the end of the source when that part is all of them. -/
theorem structural_error_located {source : String} {ts : List Token}
    (hts : (scan source.toList).tokens = ts.map some) (hn : ∀ cs, ¬ Clause.Derives ts cs) :
    ∃ k, IsGreatest {j | j ≤ ts.length ∧ Clause.Viable (ts.take j)} k ∧
      Statement.readAll (scan source.toList).lexemes =
        .error ((scan source.toList).lexemes.drop k) ∧
      ∃ e, parse source = .error e ∧
        ReportsAt (scan source.toList) ts[k]? ((scan source.toList).startOf k) e := by
  cases hread : Statement.readAll (scan source.toList).lexemes with
  | ok ss =>
    obtain ⟨us, hus, hd⟩ := Statement.readAll_sound hread
    obtain rfl := AreTokens.unique hus hts
    exact absurd hd (hn _)
  | error stuck =>
    have hparse : parse source =
        .error (structuralError (scan source.toList).lexemes stuck) := by
      unfold parse ofLexing
      rw [lexicalError?_eq_none_iff.2 (AreTokens.isSome hts)]
      simp only [hread]
    obtain ⟨done, used, h⟩ := exists_halts hts hread
    have hgreatest := Statement.isGreatest_viable hts hread
    rw [h.split, List.length_append, Nat.add_sub_cancel] at hgreatest
    refine ⟨(done ++ used).length, hgreatest, ?_, _, hparse, h.reportsAt⟩
    rw [h.split, List.drop_left]

/-- A statement that lacks a comma, between two others and with a semicolon in a literal: the place
is that of the second literal, and all of the statement is named. -/
theorem structural_error_located_comma :
    let source := "UP; ADD 'a' 'b; c'; UP;"
    let ts : List Token := [.word "UP", .semicolon, .word "ADD", .literal "'a'", .literal "'b; c'",
      .semicolon, .word "UP", .semicolon]
    (scan source.toList).tokens = ts.map some ∧ (∀ cs, ¬ Clause.Derives ts cs) ∧
      IsGreatest {j | j ≤ 8 ∧ Clause.Viable (ts.take j)} 4 ∧
      ∃ e, parse source = .error e ∧ e.fragment = "ADD 'a' 'b; c'" ∧
        e.fault.message = "unexpected literal 'b; c'" := by
  intro source ts
  have hts : (scan source.toList).tokens = ts.map some := by decide +kernel
  have hread : Statement.readAll (scan source.toList).lexemes =
      .error ((scan source.toList).lexemes.drop 4) := by decide +kernel
  have hn : ∀ cs, ¬ Clause.Derives ts cs := by
    intro cs hd
    obtain ⟨ss, hss, -⟩ := Statement.readAll_complete hd hts
    rw [hread] at hss
    cases hss
  obtain ⟨k, hk, hread', e, he, hreport⟩ := structural_error_located hts hn
  have hlength : (scan source.toList).lexemes.length = 8 := by decide +kernel
  have hfour : k = 4 := by
    rw [hread, Except.error.injEq] at hread'
    have hdrop := congrArg List.length hread'
    rw [List.length_drop, List.length_drop, hlength] at hdrop
    have hle : k ≤ 8 := hk.1.1
    omega
  subst hfour
  refine ⟨hts, hn, hk, e, he, ?_, ?_⟩
  · rw [hreport.fragment (by decide +kernel)]
    decide +kernel
  · rw [hreport.unexpected ?_]
    · decide +kernel
    · intro w hw
      have hword : (scan source.toList).leadingToken? ((scan source.toList).statementRange
          ((scan source.toList).startOf 4)) = some (.word "ADD") := by decide +kernel
      rw [hword] at hw
      cases hw
      decide

end Script

end XmlScript
