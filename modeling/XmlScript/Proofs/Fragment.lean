import XmlScript.Proofs.Report
import XmlScript.Proofs.Spans

/-!
# Fragments of rejected texts

Where the characters of a source form no token, the report names the source from the start of the
statement up to the next semicolon, which is looked for as a character (`Lexing.textToSemicolon`).
That is the text of the statement exactly when no lexeme between the fault and the end of the
statement has a semicolon in it (`Script.stray_text_located`). A literal may have one, and then the
fragment stops inside the literal.

Every fragment is a trimmed part of the source, but not every one has something in it
(`Script.fragment_of_rejected`). What trimming takes away are more characters than the blanks that
are skipped between tokens. One of these others is a fault, and when nothing stands beside it in its
statement, nothing is left of the statement.
-/

namespace XmlScript

namespace Text

/-! ## Parts of texts -/

theorem suffix_dropBytes (n : Nat) (s : List Char) : dropBytes n s <:+ s := by
  induction s generalizing n with
  | nil => exact List.suffix_rfl
  | cons c rest ih =>
    rw [dropBytes]
    split
    · exact List.suffix_rfl
    · exact (ih _).trans (List.suffix_cons c rest)

theorem prefix_takeBytes (n : Nat) (s : List Char) : takeBytes n s <+: s := by
  induction s generalizing n with
  | nil => exact List.prefix_rfl
  | cons c rest ih =>
    rw [takeBytes]
    split
    · exact List.nil_prefix
    · exact List.cons_prefix_cons.2 ⟨rfl, ih _⟩

theorem infix_slice (s : List Char) (start stop : Nat) : slice s start stop <:+: s :=
  (prefix_takeBytes _ _).isInfix.trans (suffix_dropBytes start s).isInfix

/-- Trimming leaves as many of a character that is no space as there were. -/
theorem count_trim {c : Char} (hc : isSpace c = false) (s : List Char) :
    (trim s).count c = s.count c := by
  have hnone {a : List Char} (ha : ∀ c ∈ a, isSpace c = true) : a.count c = 0 := by
    refine List.count_eq_zero.2 fun hmem => ?_
    rw [ha c hmem] at hc
    cases hc
  obtain ⟨a, b, ha, hb, hs⟩ := exists_trim s
  conv_rhs => rw [hs]
  rw [List.count_append, List.count_append, hnone ha, hnone hb, Nat.zero_add, Nat.add_zero]

end Text

/-! ## Characters of faults -/

theorem Token.ne_semicolon_of_isGap {c : Char} (h : isGap c = true) : c ≠ ';' := by
  rintro rfl
  cases h

/-- No fault but an open quote has a semicolon in it. -/
theorem semicolon_not_mem_of_fault {s : List Char} {x : Lexeme} (hx : x ∈ (scan s).lexemes)
    (h : x.token? = none) (hq : ∀ q ∈ x.text.head?, q ≠ '"' ∧ q ≠ '\'') : ';' ∉ x.text := by
  obtain ⟨seen, later, hsplit⟩ := List.append_of_mem hx
  have hstuck := reads_of_mem_scan s seen later x hsplit
  rw [h] at hstuck
  obtain ⟨⟨after, -, hfault⟩, hunmatched⟩ := hstuck
  generalize x.text = text at hq hfault hunmatched
  intro hmem
  cases hfault with
  | character digit quote =>
    -- a semicolon is a token, so it would have been read
    rw [← List.mem_singleton.1 hmem] at hunmatched
    exact hunmatched [';'] (List.prefix_append ..) ⟨.semicolon, .semicolon⟩
  | digits nonempty digit ended => exact absurd (digit _ hmem) (by decide)
  | openQuote quote inside => exact absurd quote (not_or.2 (hq _ rfl))

theorem text_of_semicolon {s : List Char} {x : Lexeme} (hx : x ∈ (scan s).lexemes)
    (h : x.token? = some .semicolon) : x.text = [';'] := by
  have hspells := spells_of_mem_scan hx h
  generalize x.text = text at hspells
  cases hspells
  rfl

namespace Lexing

/-! ## Up to the next semicolon character -/

/-- Where the first semicolon stands at or behind a position, be it a token or a part of one, and
where the source ends when there is none. -/
def semicolonCharacter (l : Lexing) (position : Nat) : Nat :=
  position + Text.byteCount ((Text.dropBytes position l.source).takeWhile (· ≠ ';'))

/-- The trimmed source from the start of the statement around a position up to the next semicolon
character. -/
def textToSemicolon (l : Lexing) (position : Nat) : String :=
  String.ofList (Text.trim
    (Text.slice l.source (l.statementRange position).1 (l.semicolonCharacter position)))

variable {l : Lexing} {seen later : List Lexeme} {x : Lexeme}

theorem slice_to_semicolon (hl : l.Proper) (h : l.lexemes = seen ++ x :: later) :
    Text.slice l.source (l.statementRange (l.startOf seen.length)).1
        (l.semicolonCharacter (l.startOf seen.length)) =
      ((Script.openStatement seen).flatMap Lexeme.source ++ x.gap) ++
        (x.text ++ later.flatMap Lexeme.source ++ l.tail).takeWhile (· ≠ ';') := by
  obtain ⟨front, hseen, hp, hpos⟩ := parts_around h
  have hstart : l.startOf seen.length =
      Text.byteCount (seen.flatMap Lexeme.source ++ x.gap) := by
    rw [startOf_eq h, Text.byteCount_append]
    rfl
  have hsource : l.source = (seen.flatMap Lexeme.source ++ x.gap) ++
      (x.text ++ later.flatMap Lexeme.source ++ l.tail) := by
    rw [source, h, List.flatMap_append, List.flatMap_cons, Lexeme.source]
    simp only [List.append_assoc]
  rw [hp.statementRange_eq hl hpos, semicolonCharacter, hstart, hsource, Text.dropBytes_append]
  generalize x.text ++ later.flatMap Lexeme.source ++ l.tail = after
  have hfront : seen.flatMap Lexeme.source = front.flatMap Lexeme.source ++
      (Script.openStatement seen).flatMap Lexeme.source := by
    rw [← List.flatMap_append, ← hseen]
  generalize (Script.openStatement seen).flatMap Lexeme.source = before at hfront ⊢
  have hparts : (seen.flatMap Lexeme.source ++ x.gap) ++ after = front.flatMap Lexeme.source ++
      ((before ++ x.gap ++ after.takeWhile (· ≠ ';')) ++ after.dropWhile (· ≠ ';')) := by
    rw [hfront]
    simp only [List.append_assoc, List.takeWhile_append_dropWhile]
  have hstop : Text.byteCount (seen.flatMap Lexeme.source ++ x.gap) +
      Text.byteCount (after.takeWhile (· ≠ ';')) = Text.byteCount (front.flatMap Lexeme.source) +
        Text.byteCount (before ++ x.gap ++ after.takeWhile (· ≠ ';')) := by
    rw [hfront]
    simp only [Text.byteCount_append, Nat.add_assoc]
  rw [hstop, hparts]
  exact Text.slice_append ..

/-! ## The first fault -/

/-- Where the first lexeme is that is no token. -/
structure FaultAt (l : Lexing) (seen : List Lexeme) (x : Lexeme) (later : List Lexeme) : Prop where
  split : l.lexemes = seen ++ x :: later
  tokens : ∀ y ∈ seen, y.token?.isSome
  fault : x.token? = none

/-- The first fault comes first in its statement, and from there up to the next semicolon all are
spaces. So the fault itself is one, but none of the blanks between tokens. -/
structure BlankFaultAt (l : Lexing) (seen : List Lexeme) (x : Lexeme) (later : List Lexeme) :
    Prop extends FaultAt l seen x later where
  first : ∀ y ∈ seen.getLast?, y.isSemicolon = true
  blank : ∀ c ∈ (x.text ++ later.flatMap Lexeme.source ++ l.tail).takeWhile (· ≠ ';'),
    Text.isSpace c = true

end Lexing

namespace Script

open Lexing (FaultAt)

variable {seen later : List Lexeme} {x : Lexeme}

theorem exists_faultAt {l : Lexing} {e : SyntaxError} (h : lexicalError? l = some e) :
    ∃ seen x later, l.FaultAt seen x later := by
  have hsplit := List.takeWhile_append_dropWhile (p := fun x : Lexeme => x.token?.isSome)
    (l := l.lexemes)
  have hhead := List.head?_dropWhile_not (fun x : Lexeme => x.token?.isSome) l.lexemes
  cases hdrop : l.lexemes.dropWhile (·.token?.isSome) with
  | nil =>
    have hall := lexicalError?_eq_none_iff.2 (List.dropWhile_eq_nil_iff.mp hdrop)
    rw [hall] at h
    cases h
  | cons x later =>
    rw [hdrop] at hsplit hhead
    refine ⟨_, x, later, hsplit.symm, ?_, by simpa using hhead⟩
    intro y hy
    exact List.mem_takeWhile_imp (p := fun x : Lexeme => x.token?.isSome) hy

/-- A text with a fault is rejected for the first one. -/
theorem parse_of_faultAt {source : String} (h : (scan source.toList).FaultAt seen x later) :
    ∃ fault, parse source = .error
        ⟨(scan source.toList).textToSemicolon ((scan source.toList).startOf seen.length), fault⟩ ∧
      ((∀ q ∈ x.text.head?, q ≠ '"' ∧ q ≠ '\'') →
        fault = .unexpectedText (String.ofList x.text)) := by
  have hslice := Lexing.slice_to_semicolon (proper_scan source.toList) h.split
  have hfault : ∀ y ∈ (x :: later).head?, y.token?.isSome = false := fun y hy => by
    cases hy
    rw [h.fault]
    rfl
  obtain ⟨htake, hdrop⟩ := Text.span_append h.tokens hfault
  rw [← h.split] at htake hdrop
  unfold parse ofLexing lexicalError? Lexing.textToSemicolon
  simp only [htake, hdrop, hslice]
  refine ⟨_, rfl, fun hq => ?_⟩
  split
  next ht => exact absurd rfl (hq '"' (by rw [ht]; rfl)).1
  next ht => exact absurd rfl (hq '\'' (by rw [ht]; rfl)).2
  next => rfl

/-! ## Stray text -/

/-- Up to the first semicolon character stand the lexemes before a semicolon, when their own texts
have none in them, and blanks. -/
theorem exists_takeWhile_eq {s : List Char} {front inside back : List Lexeme}
    (hsplit : (scan s).lexemes = front ++ (inside ++ back))
    (hinside : ∀ y ∈ inside, ';' ∉ y.text) (hback : ∀ y ∈ back.head?, y.isSemicolon = true) :
    ∃ blanks, (∀ c ∈ blanks, Token.isGap c = true) ∧
      ((inside ++ back).flatMap Lexeme.source ++ (scan s).tail).takeWhile (· ≠ ';') =
        inside.flatMap Lexeme.source ++ blanks := by
  have hproper := proper_scan s
  have hmem {y : Lexeme} (hy : y ∈ inside ++ back) : y ∈ (scan s).lexemes := by
    rw [hsplit]
    exact List.mem_append_right _ hy
  have hgap {g : List Char} (hg : ∀ c ∈ g, Token.isGap c = true) :
      ∀ c ∈ g, decide (c ≠ ';') = true := fun c hc =>
    decide_eq_true (Token.ne_semicolon_of_isGap (hg c hc))
  have hfront : ∀ c ∈ inside.flatMap Lexeme.source, decide (c ≠ ';') = true := by
    intro c hc
    obtain ⟨y, hy, hc⟩ := List.mem_flatMap.mp hc
    rcases List.mem_append.mp hc with hc | hc
    · exact hgap (hproper.lexemes y (hmem (List.mem_append_left _ hy))).gap c hc
    · refine decide_eq_true ?_
      rintro rfl
      exact hinside y hy hc
  rw [List.flatMap_append, List.append_assoc, List.takeWhile_append_of_pos hfront]
  cases back with
  | nil =>
    refine ⟨(scan s).tail, hproper.tail, ?_⟩
    rw [List.flatMap_nil, List.nil_append, List.takeWhile_eq_self_iff.2 (hgap hproper.tail)]
  | cons semi rest =>
    have hsemi := hmem (List.mem_append_right inside (List.mem_cons_self ..))
    have htext := text_of_semicolon hsemi (beq_iff_eq.1 (hback semi rfl))
    refine ⟨semi.gap, (hproper.lexemes semi hsemi).gap, ?_⟩
    rw [List.flatMap_cons, Lexeme.source, htext, List.append_assoc, List.append_assoc,
      List.takeWhile_append_of_pos (hgap (hproper.lexemes semi hsemi).gap), List.singleton_append,
      List.takeWhile_cons_of_neg (by simp), List.append_nil]

/-- What runs up to the next semicolon character is the text of the statement around a fault exactly
when there is no semicolon in the texts of the lexemes behind the fault. -/
theorem textToSemicolon_eq_iff {s : List Char} (h : (scan s).FaultAt seen x later)
    (hq : ∀ q ∈ x.text.head?, q ≠ '"' ∧ q ≠ '\'') :
    (scan s).textToSemicolon ((scan s).startOf seen.length) =
        (scan s).statementText ((scan s).startOf seen.length) ↔
      ∀ y ∈ later.takeWhile (!·.isSemicolon), ';' ∉ y.text := by
  have hl := proper_scan s
  have hx : ';' ∉ x.text := semicolon_not_mem_of_fault (by rw [h.split]; simp) h.fault hq
  have hsemi : x.isSemicolon = false := by rw [Lexeme.isSemicolon, h.fault]; rfl
  obtain ⟨front, -, hp, hpos⟩ := Lexing.parts_around h.split
  have hlater := List.takeWhile_append_dropWhile (p := fun y : Lexeme => !y.isSemicolon) (l := later)
  rw [hp.statementText_eq hl hpos, Lexing.textToSemicolon, fragment,
    Lexing.slice_to_semicolon hl h.split, List.takeWhile_cons_of_pos (by simp [hsemi]),
    List.flatMap_append, List.flatMap_cons, Lexeme.source, String.ofList_inj]
  have hback := hp.back
  rw [List.dropWhile_cons_of_pos (by simp [hsemi])] at hback
  generalize (openStatement seen).flatMap Lexeme.source = before
  generalize later.takeWhile (!·.isSemicolon) = inside at hlater ⊢
  generalize later.dropWhile (!·.isSemicolon) = back at hlater hback
  subst hlater
  constructor
  · intro heq y hy hmem
    -- the text of the statement has a semicolon more
    have hcount := congrArg (List.count ';') heq
    have hnone : ((x.text ++ (inside ++ back).flatMap Lexeme.source ++ (scan s).tail).takeWhile
        (· ≠ ';')).count ';' = 0 :=
      List.count_eq_zero.2 fun hc => absurd (List.mem_takeWhile_imp hc) (by decide)
    have hsome : 0 < (inside.flatMap Lexeme.source).count ';' :=
      List.count_pos_iff.2 (List.mem_flatMap.mpr ⟨y, hy, List.mem_append_right _ hmem⟩)
    rw [Text.count_trim (by decide), Text.count_trim (by decide), List.count_append, hnone,
      List.count_append, List.count_append, List.count_append, List.count_append] at hcount
    omega
  · intro hinside
    have htext : ∀ c ∈ x.text, decide (c ≠ ';') = true := by
      intro c hc
      refine decide_eq_true ?_
      rintro rfl
      exact hx hc
    have hsplit : (scan s).lexemes = (seen ++ [x]) ++ (inside ++ back) := by
      rw [h.split, List.append_assoc, List.singleton_append]
    obtain ⟨blanks, hblanks, htake⟩ := exists_takeWhile_eq hsplit hinside hback
    have hspaces : ∀ c ∈ blanks, Text.isSpace c = true := fun c hc =>
      Token.isSpace_of_isGap (hblanks c hc)
    rw [List.append_assoc x.text, List.takeWhile_append_of_pos htext, htake, ← List.append_assoc,
      ← List.append_assoc, Text.trim_append_spaces hspaces, List.append_assoc, List.append_assoc,
      List.append_assoc]

/-- Text that is no token is reported with its statement up to the first semicolon behind it. That
is all of the statement exactly when no literal, and no open quote, between the text and the end of
the statement has a semicolon in it. -/
theorem stray_text_located {source : String} (h : (scan source.toList).FaultAt seen x later)
    (hq : ∀ q ∈ x.text.head?, q ≠ '"' ∧ q ≠ '\'') :
    ∃ e, parse source = .error e ∧ e.fault = .unexpectedText (String.ofList x.text) ∧
      e.fragment =
        (scan source.toList).textToSemicolon ((scan source.toList).startOf seen.length) ∧
      (e.fragment = (scan source.toList).statementText ((scan source.toList).startOf seen.length) ↔
        ∀ y ∈ later.takeWhile (!·.isSemicolon), ';' ∉ y.text) := by
  obtain ⟨fault, hparse, hfault⟩ := parse_of_faultAt h
  exact ⟨_, hparse, hfault hq, rfl, textToSemicolon_eq_iff h hq⟩

/-- Another fault and a literal without a semicolon behind stray text: all of the statement is
named. -/
theorem stray_text_located_twice :
    let source := "UP; @ 'b' # ; ADD 'c;';"
    let l := scan source.toList
    l.FaultAt (l.lexemes.take 2) ⟨[' '], ['@'], none⟩ (l.lexemes.drop 3) ∧
      ∃ e, parse source = .error e ∧ e.fault = .unexpectedText "@" ∧
        e.fragment = l.statementText (l.startOf 2) ∧ e.fragment = "@ 'b' #" := by
  intro source l
  have hfault : l.FaultAt (l.lexemes.take 2) ⟨[' '], ['@'], none⟩ (l.lexemes.drop 3) :=
    ⟨by decide +kernel, by decide +kernel, rfl⟩
  have hq : ∀ q ∈ ['@'].head?, q ≠ '"' ∧ q ≠ '\'' := by
    intro q hq
    cases hq
    decide
  obtain ⟨e, hparse, he, -, hiff⟩ := stray_text_located hfault hq
  have hlength : (l.lexemes.take 2).length = 2 := by decide +kernel
  have htext := hiff.2 (by decide +kernel)
  rw [hlength] at htext
  exact ⟨hfault, e, hparse, he, htext, htext.trans (by decide +kernel)⟩

/-- A literal behind stray text is cut at the semicolon in it. -/
theorem stray_text_cut :
    let source := "ADD 'a'; @ 'b;c';"
    let l := scan source.toList
    l.FaultAt (l.lexemes.take 3) ⟨[' '], ['@'], none⟩ (l.lexemes.drop 4) ∧
      parse source = .error ⟨"@ 'b", .unexpectedText "@"⟩ ∧
      l.statementText (l.startOf 3) = "@ 'b;c'" := by
  intro source l
  refine ⟨⟨?_, ?_, rfl⟩, ?_, ?_⟩ <;> decide +kernel

/-! ## Every fragment -/

/-- A fragment that is a trimmed part of a source with something in it. -/
structure Names (source : List Char) (fragment : String) : Prop where
  trimmed : Text.IsTrimmed fragment.toList
  part : fragment.toList <:+: source
  nonempty : fragment ≠ ""

theorem names_statementText {l : Lexing} {position : Nat} (h : l.statementText position ≠ "") :
    Names l.source (l.statementText position) := by
  refine ⟨?_, ?_, h⟩ <;> rw [Lexing.statementText, String.toList_ofList]
  · exact Text.isTrimmed_trim _
  · exact (Text.infix_trim _).trans (Text.infix_slice ..)

theorem names_fragment {l : Lexing} {xs : List Lexeme} (hxs : xs <:+: l.lexemes)
    (h : fragment xs ≠ "") : Names l.source (fragment xs) := by
  refine ⟨?_, ?_, h⟩ <;> rw [fragment, String.toList_ofList]
  · exact Text.isTrimmed_trim _
  · obtain ⟨front, back, hsplit⟩ := hxs
    refine (Text.infix_trim _).trans ⟨front.flatMap Lexeme.source,
      back.flatMap Lexeme.source ++ l.tail, ?_⟩
    rw [Lexing.source, ← hsplit, List.flatMap_append, List.flatMap_append]
    simp only [List.append_assoc]

theorem names_semicolon {s : List Char} (h : some .semicolon ∈ (scan s).tokens) : Names s ";" := by
  obtain ⟨x, hx, hsemi⟩ := List.mem_map.mp h
  have htrimmed : Text.IsTrimmed ";".toList := by
    constructor <;>
    · intro c hc
      cases hc
      decide
  refine ⟨htrimmed, ?_, by decide⟩
  have htext : x.source = x.gap ++ [';'] := by rw [Lexeme.source, text_of_semicolon hx hsemi]
  obtain ⟨front, back, hsplit⟩ := List.append_of_mem hx
  refine ⟨front.flatMap Lexeme.source ++ x.gap, back.flatMap Lexeme.source ++ (scan s).tail, ?_⟩
  conv_rhs => rw [← source_scan s, Lexing.source, hsplit]
  rw [List.flatMap_append, List.flatMap_cons, htext]
  simp only [List.append_assoc]
  rfl

/-- The report of a place names a part of the source. -/
theorem ReportsAt.names {l : Lexing} {found : Option Token} {position : Nat} {e : SyntaxError}
    (h : ReportsAt l found position e) (hfound : found = some .semicolon → Names l.source ";") :
    Names l.source e.fragment := by
  by_cases hempty : l.statementText position = ""
  · obtain ⟨hsemi, hfragment⟩ := h.stray hempty
    rw [hfragment]
    cases hbefore : l.semicolonBefore? position with
    | none => exact hfound hsemi
    | some semicolon => exact names_statementText (h.preceding hempty semicolon hbefore)
  · rw [h.fragment hempty]
    exact names_statementText hempty

theorem names_structuralError {s : List Char} {ts : List Token} {stuck : List Lexeme}
    (hts : (scan s).tokens = ts.map some)
    (hread : Statement.readAll (scan s).lexemes = .error stuck) :
    Names s (structuralError (scan s).lexemes stuck).fragment := by
  obtain ⟨done, used, h⟩ := exists_halts hts hread
  have hnames := h.reportsAt.names fun hfound => by
    rw [source_scan]
    refine names_semicolon ?_
    rw [hts]
    exact List.mem_map_of_mem (List.mem_of_getElem? hfound)
  rwa [source_scan] at hnames

/-- A statement that denotes no directive is named by its own lexemes. -/
theorem fragment_of_interpret {s : Statement} {e : SyntaxError} (h : interpret s = .error e) :
    e.fragment = fragment s.lexemes := by
  unfold interpret at h
  split at h
  next => cases h; rfl
  split at h
  next => cases h; rfl
  split at h
  next => cases h; rfl
  split at h
  next => cases h; rfl
  next => cases h

theorem names_of_mapM {s : List Char} {ss : List Statement} {e : SyntaxError}
    (hsome : ∀ x ∈ (scan s).lexemes, x.token?.isSome)
    (hread : Statement.readAll (scan s).lexemes = .ok ss) (h : ss.mapM interpret = .error e) :
    Names s e.fragment := by
  obtain ⟨statement, hmem, he⟩ := exists_of_mapM_eq_error h
  obtain ⟨hpart, hne⟩ := Statement.lexemes_infix_of_readAll hread statement hmem
  rw [fragment_of_interpret he]
  have hnames := names_fragment hpart
    (fragment_ne_empty hne fun x hx => ⟨hpart.subset hx, hsome x (hpart.subset hx)⟩)
  rwa [source_scan] at hnames

/-- A text whose lexemes are all tokens is rejected with a part of it named. -/
theorem names_of_tokens {source : String} {e : SyntaxError}
    (hsome : ∀ x ∈ (scan source.toList).lexemes, x.token?.isSome)
    (h : parse source = .error e) : Names source.toList e.fragment := by
  unfold parse ofLexing at h
  rw [lexicalError?_eq_none_iff.2 hsome] at h
  cases hread : Statement.readAll (scan source.toList).lexemes with
  | error stuck =>
    simp only [hread, Except.error.injEq] at h
    obtain ⟨ts, hts⟩ := exists_areTokens hsome
    rw [← h]
    exact names_structuralError hts hread
  | ok ss =>
    simp only [hread] at h
    exact names_of_mapM hsome hread h

/-- Nothing is left of the statement around a fault when the fault is blank. -/
theorem textToSemicolon_eq_empty_iff {s : List Char} (h : (scan s).FaultAt seen x later) :
    (scan s).textToSemicolon ((scan s).startOf seen.length) = "" ↔
      (scan s).BlankFaultAt seen x later := by
  have hl := proper_scan s
  have hgap : ∀ c ∈ x.gap, Text.isSpace c = true := fun c hc =>
    Token.isSpace_of_isGap ((hl.lexemes x (by rw [h.split]; simp)).gap c hc)
  rw [Lexing.textToSemicolon, ← String.toList_inj, String.toList_ofList,
    Lexing.slice_to_semicolon hl h.split]
  refine Text.trim_eq_nil_iff.trans ⟨fun hall => ⟨h, ?_, ?_⟩, fun hblank => ?_⟩
  · obtain ⟨front, hseen, hfront, -⟩ := Lexing.exists_front seen
    -- a token before the fault would be left
    have hopen : openStatement seen = [] := by
      by_contra hne
      refine fragment_ne_empty (s := s) hne (fun y hy => ?_) (fragment_eq_empty_iff.2 fun c hc => ?_)
      · have hy : y ∈ seen := by
          rw [hseen]
          exact List.mem_append_right _ hy
        exact ⟨by rw [h.split]; exact List.mem_append_left _ hy, h.tokens y hy⟩
      · exact hall c (List.mem_append_left _ (List.mem_append_left _ hc))
    rw [hopen, List.append_nil] at hseen
    rwa [hseen]
  · exact fun c hc => hall c (List.mem_append_right _ hc)
  · have hopen : openStatement seen = [] := by
      have happend := @openStatement_append seen [] hblank.first (by simp)
      rwa [List.append_nil] at happend
    rw [hopen, List.flatMap_nil, List.nil_append]
    intro c hc
    rcases List.mem_append.mp hc with hc | hc
    · exact hgap c hc
    · exact hblank.blank c hc


/-- Where a fault is blank, the source has a space that is no blank between tokens. -/
theorem exists_space_of_blankFaultAt {s : List Char} (h : (scan s).BlankFaultAt seen x later) :
    ∃ c ∈ s, Text.isSpace c = true ∧ Token.isGap c = false := by
  have hmem : x ∈ (scan s).lexemes := by rw [h.split]; simp
  obtain ⟨c, rest, htext, hc⟩ := ((proper_scan s).lexemes x hmem).text
  have hne : c ≠ ';' := by
    rintro rfl
    refine semicolon_not_mem_of_fault hmem h.fault ?_ (by rw [htext]; simp)
    rw [htext]
    intro q hq
    cases hq
    decide
  refine ⟨c, ?_, h.blank c ?_, hc⟩
  · rw [← source_scan s, Lexing.source]
    refine List.mem_append_left _ (List.mem_flatMap.mpr ⟨x, hmem, List.mem_append_right _ ?_⟩)
    rw [htext]
    exact List.mem_cons_self ..
  · rw [htext, List.cons_append, List.cons_append, List.takeWhile_cons_of_pos (by simpa using hne)]
    exact List.mem_cons_self ..

/-- A report names nothing exactly when the first fault is blank. -/
theorem fragment_eq_empty_iff_blankFaultAt {source : String} {e : SyntaxError}
    (h : parse source = .error e) :
    e.fragment = "" ↔ ∃ seen x later, (scan source.toList).BlankFaultAt seen x later := by
  constructor
  · intro hempty
    cases hlex : lexicalError? (scan source.toList) with
    | none => exact absurd hempty (names_of_tokens (lexicalError?_eq_none_iff.1 hlex) h).nonempty
    | some e' =>
      obtain ⟨seen, x, later, hfault⟩ := exists_faultAt hlex
      obtain ⟨fault, hparse, -⟩ := parse_of_faultAt hfault
      rw [h, Except.error.injEq] at hparse
      rw [hparse] at hempty
      exact ⟨seen, x, later, (textToSemicolon_eq_empty_iff hfault).1 hempty⟩
  · intro hblank
    obtain ⟨seen, x, later, hblank⟩ := hblank
    obtain ⟨fault, hparse, -⟩ := parse_of_faultAt hblank.toFaultAt
    rw [h, Except.error.injEq] at hparse
    rw [hparse]
    exact (textToSemicolon_eq_empty_iff hblank.toFaultAt).2 hblank

/-- A rejected text has a trimmed part of it named. The part is empty exactly where the first fault
is blank, and so never when all spaces of the text are blanks that may stand between tokens. -/
theorem fragment_of_rejected {source : String} {e : SyntaxError} (h : parse source = .error e) :
    Text.IsTrimmed e.fragment.toList ∧ e.fragment.toList <:+: source.toList ∧
      (e.fragment = "" ↔ ∃ seen x later, (scan source.toList).BlankFaultAt seen x later) ∧
      ((∀ c ∈ source.toList, Text.isSpace c = true → Token.isGap c = true) → e.fragment ≠ "") := by
  have hempty := fragment_eq_empty_iff_blankFaultAt h
  have hpart : Text.IsTrimmed e.fragment.toList ∧ e.fragment.toList <:+: source.toList := by
    cases hlex : lexicalError? (scan source.toList) with
    | none =>
      have hnames := names_of_tokens (lexicalError?_eq_none_iff.1 hlex) h
      exact ⟨hnames.trimmed, hnames.part⟩
    | some e' =>
      obtain ⟨seen, x, later, hfault⟩ := exists_faultAt hlex
      obtain ⟨fault, hparse, -⟩ := parse_of_faultAt hfault
      rw [h, Except.error.injEq] at hparse
      have hslice := Text.infix_slice (scan source.toList).source
        ((scan source.toList).statementRange ((scan source.toList).startOf seen.length)).1
        ((scan source.toList).semicolonCharacter ((scan source.toList).startOf seen.length))
      rw [source_scan] at hslice
      rw [hparse, Lexing.textToSemicolon, String.toList_ofList, source_scan]
      exact ⟨Text.isTrimmed_trim _, (Text.infix_trim _).trans hslice⟩
  refine ⟨hpart.1, hpart.2, hempty, fun hgaps hnil => ?_⟩
  obtain ⟨seen, x, later, hblank⟩ := hempty.1 hnil
  obtain ⟨c, hc, hspace, hgap⟩ := exists_space_of_blankFaultAt hblank
  rw [hgaps c hc hspace] at hgap
  cases hgap

/-- A semicolon too many: the statement before it is named. -/
theorem fragment_of_rejected_stray :
    parse "UP; ;" = .error ⟨"UP", .unexpectedToken .semicolon⟩ ∧
      Text.IsTrimmed "UP".toList ∧ "UP".toList <:+: "UP; ;".toList ∧ "UP" ≠ "" := by
  have h : parse "UP; ;" = .error ⟨"UP", .unexpectedToken .semicolon⟩ := by decide +kernel
  have hgaps : "UP; ;".toList.all (fun c => !Text.isSpace c || Token.isGap c) = true := by
    decide +kernel
  obtain ⟨htrimmed, hpart, -, hne⟩ := fragment_of_rejected h
  refine ⟨h, htrimmed, hpart, hne fun c hc hspace => ?_⟩
  simpa [hspace] using List.all_eq_true.1 hgaps c hc

/-- A no-break space behind the last statement is a fault, and nothing is named. -/
theorem fragment_of_no_break_space :
    parse "UP;\u00a0" = .error ⟨"", .unexpectedText "\u00a0"⟩ := by decide +kernel

end Script

end XmlScript
