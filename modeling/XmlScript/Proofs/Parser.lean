import Mathlib.Data.List.Basic
import XmlScript.Proofs.Except
import XmlScript.Proofs.Grammar
import XmlScript.Proofs.Literal
import XmlScript.Script.Parser

/-!
# What the parser accepts

`Clause.Denotes` says which directive a word with its literals stands for: the keyword is that of
the directive, each literal is a quoted text that unescapes to an argument, and the directive
carries these arguments in their order. `Script.parse_eq_ok_iff` is that the parser accepts the
derivations of the grammar whose clauses all denote something, and gives what they denote.

Everything that the parser checks statement by statement is on one side of `ofArguments_iff` (the
table of keywords against the texts that a directive carries) and `interpret_eq_ok_iff`.
-/

namespace XmlScript

/-! ## Arguments of directives -/

/-- A literal stands for an argument: between two quotes of one kind is a text that unescapes to
it. -/
def Arg.IsWritten (quoted : String) (a : Arg) : Prop :=
  ∃ (q : Char) (body : List Char), (q = '"' ∨ q = '\'') ∧ quoted.toList = q :: (body ++ [q]) ∧
    Literal.unescape body = .ok a.raw.toList

/-- A directive carries its texts in the order in which they are written; the argument of a count
is a numeral of it. -/
def Directive.Carries (d : Directive) (arguments : List Arg) : Prop :=
  match d with
  | .expect count => ∃ a, arguments = [a] ∧ Text.IsNumeral a.raw.toList count.toNat
  | d => Directive.operands d = arguments.map (·.raw.toList)

/-- The directive that a word with its literals stands for. -/
def Clause.Denotes (c : Clause) (d : Directive) : Prop :=
  ∃ arguments : List Arg, d.keyword.text = c.keyword ∧ c.literals.length = d.keyword.arity ∧
    List.Forall₂ Arg.IsWritten c.literals arguments ∧ Directive.Carries d arguments

/-- Arguments are the same when their texts are. -/
theorem Arg.map_raw_injective :
    Function.Injective (List.map fun a : Arg => a.raw.toList) :=
  List.map_injective_iff.2 fun _ _ h => Arg.ext (String.toList_inj.1 h)

namespace Directive

theorem count?_eq_some_iff {a : Arg} {count : UInt64} :
    count? a = some count ↔ Text.IsNumeral a.raw.toList count.toNat := by
  rw [← Text.readUnsigned_ten_iff, count?, Option.bind_eq_some_iff]
  constructor
  · intro h
    obtain ⟨n, hn, h⟩ := h
    split at h
    next hlt =>
      cases h
      rw [hn, UInt64.toNat_ofNat', Nat.mod_eq_of_lt hlt]
    next => cases h
  · intro h
    refine ⟨count.toNat, h, ?_⟩
    rw [if_pos count.toNat_lt_size, UInt64.ofNat_toNat]

/-- The table of keywords and the texts of a directive agree: a directive comes of a keyword and
arguments exactly when it has the keyword and carries the arguments. -/
theorem ofArguments_iff {k : Keyword} {arguments : List Arg} {d : Directive} :
    ofArguments k arguments = .ok d ↔ d.keyword = k ∧ Carries d arguments := by
  constructor
  · intro h
    unfold ofArguments at h
    split at h
    -- all keywords but that of a count take their arguments as they are
    all_goals try (cases h; exact ⟨rfl, rfl⟩)
    next a =>
      split at h
      next count hc =>
        cases h
        exact ⟨rfl, a, rfl, count?_eq_some_iff.1 hc⟩
      next => cases h
    next => cases h
  · intro h
    obtain ⟨rfl, hc⟩ := h
    cases d with
    | remove | up | push | pop =>
      cases (Arg.map_raw_injective hc : [] = arguments)
      rfl
    | addElement a | ensureElement a | setText a | computeText a | addComment a | addCData a
    | setNamespace a | select a =>
      cases (Arg.map_raw_injective hc : [a] = arguments)
      rfl
    | setAttribute a b | computeAttribute a b | addInstruction a b =>
      cases (Arg.map_raw_injective hc : [a, b] = arguments)
      rfl
    | expect count =>
      obtain ⟨a, rfl, ha⟩ := hc
      simp only [Command.keyword, ofArguments, count?_eq_some_iff.2 ha]

end Directive

/-! ## Literals -/

/-- A literal with quotes of one kind at its ends and none of that kind inside. -/
def IsQuoted (quoted : String) : Prop :=
  ∃ (q : Char) (body : List Char), (q = '"' ∨ q = '\'') ∧ q ∉ body ∧
    quoted.toList = q :: (body ++ [q])

theorem isQuoted_of_spells {quoted : String} {text : List Char}
    (h : (Token.literal quoted).Spells text) : IsQuoted quoted := by
  cases h with
  | @literal q body hq hb => exact ⟨q, body, hq, hb, String.toList_ofList⟩

theorem inside_inj {p q : Char} {a b : List Char} (h : p :: (a ++ [p]) = q :: (b ++ [q])) :
    p = q ∧ a = b := by
  rw [List.cons.injEq] at h
  obtain ⟨rfl, hab⟩ := h
  exact ⟨rfl, List.append_cancel_right hab⟩

namespace Script

/-- A quoted literal is read as the argument that it stands for. -/
theorem argument_eq_ok_iff {quoted : String} {a : Arg} (hq : IsQuoted quoted) :
    argument quoted = .ok a ↔ Arg.IsWritten quoted a := by
  obtain ⟨q, body, hquote, -, hs⟩ := hq
  rw [argument, hs, Literal.decode_quoted, bind_eq_ok_iff]
  constructor
  · intro h
    obtain ⟨raw, hraw, ha⟩ := h
    rw [Arg.ofText_eq_ok_iff] at ha
    refine ⟨q, body, hquote, hs, ?_⟩
    rw [ha, String.toList_ofList, hraw]
  · intro h
    obtain ⟨p, body', -, hs', hu⟩ := h
    -- the quotes that are written are the ones that were scanned
    obtain ⟨-, rfl⟩ := inside_inj (hs.symm.trans hs')
    exact ⟨a.raw.toList, hu, Arg.ofText_eq_ok_iff.2 String.ofList_toList.symm⟩

/-! ## Statements -/

theorem ofText?_eq_some_iff {w : String} {k : Keyword} :
    Keyword.ofText? w = some k ↔ k.text = w :=
  ⟨Keyword.text_of_ofText?, fun h => h ▸ Keyword.ofText?_text k⟩

/-- A statement with quoted literals is read as the directive that its clause stands for. -/
theorem interpret_eq_ok_iff {s : Statement} {d : Directive} (hq : ∀ l ∈ s.literals, IsQuoted l) :
    interpret s = .ok d ↔ s.clause.Denotes d := by
  have harg {arguments : List Arg} : s.literals.mapM argument = .ok arguments ↔
      List.Forall₂ Arg.IsWritten s.literals arguments := by
    rw [mapM_eq_ok_iff]
    exact forall₂_congr_left fun l hl _ => argument_eq_ok_iff (hq l hl)
  unfold interpret
  -- the keyword, the number of literals, each literal, and what they are put together to
  constructor
  · intro h
    simp only at h
    split at h
    next => cases h
    next k hk =>
      split at h
      next => cases h
      next hlen =>
        split at h
        next => cases h
        next arguments ha =>
          split at h
          next => cases h
          next d' hd =>
            cases h
            obtain ⟨hkey, hc⟩ := Directive.ofArguments_iff.1 hd
            refine ⟨arguments, ?_, ?_, harg.1 ha, hc⟩
            · rw [hkey]
              exact ofText?_eq_some_iff.1 hk
            · rw [hkey]
              exact not_not.mp hlen
  · intro h
    obtain ⟨arguments, hk, hlen, ha, hc⟩ := h
    have hk' : Keyword.ofText? s.keyword = some d.keyword := ofText?_eq_some_iff.2 hk
    have hlen' : s.literals.length = d.keyword.arity := hlen
    simp only [hk', hlen', harg.2 ha, Directive.ofArguments_iff.2 ⟨rfl, hc⟩, ne_eq,
      not_true_eq_false, if_false]

/-! ## Scripts -/

/-- There is no lexical error exactly when every lexeme is a token. -/
theorem lexicalError?_eq_none_iff {l : Lexing} :
    lexicalError? l = none ↔ ∀ x ∈ l.lexemes, x.token?.isSome := by
  unfold lexicalError?
  constructor
  · intro h
    simp only at h
    split at h
    next hd => exact List.dropWhile_eq_nil_iff.mp hd
    next => cases h
  · intro h
    have hd : l.lexemes.dropWhile (·.token?.isSome) = [] := List.dropWhile_eq_nil_iff.mpr h
    simp only [hd]

theorem AreTokens.isSome {xs : List Lexeme} {ts : List Token} (h : AreTokens xs ts) :
    ∀ x ∈ xs, x.token?.isSome := by
  intro x hx
  have hm : x.token? ∈ ts.map some := h ▸ List.mem_map_of_mem hx
  obtain ⟨t, -, ht⟩ := List.mem_map.mp hm
  rw [← ht]
  rfl

theorem exists_areTokens {xs : List Lexeme} (h : ∀ x ∈ xs, x.token?.isSome) :
    ∃ ts, AreTokens xs ts := by
  induction xs with
  | nil => exact ⟨[], areTokens_nil_iff.2 rfl⟩
  | cons x rest ih =>
    obtain ⟨ts, hts⟩ := ih fun y hy => h y (List.mem_cons_of_mem _ hy)
    obtain ⟨t, ht⟩ := Option.isSome_iff_exists.mp (h x (List.mem_cons_self ..))
    exact ⟨t :: ts, areTokens_cons_iff.2 ⟨x.gap, x.text, rest, by rw [← ht], hts⟩⟩

/-- The literals of statements that are read were scanned as literals. -/
theorem isQuoted_of_derives {s : List Char} {ts : List Token} {cs : List Clause}
    (hs : (scan s).tokens = ts.map some) (hd : Clause.Derives ts cs) :
    ∀ c ∈ cs, ∀ l ∈ c.literals, IsQuoted l := by
  -- every token of the derivation was scanned from the source
  have hquoted : ∀ l, Token.literal l ∈ ts → IsQuoted l := by
    intro l hl
    have hm : some (Token.literal l) ∈ (scan s).tokens := hs ▸ List.mem_map_of_mem hl
    obtain ⟨x, hx, ht⟩ := List.mem_map.mp hm
    exact isQuoted_of_spells (spells_of_mem_scan hx ht)
  clear hs
  induction hd with
  | nil => intro c hc; cases hc
  | @cons label tokens rest c cs hlabel hl hr ih =>
    have hrest : ∀ l, Token.literal l ∈ rest → IsQuoted l := fun l hm => hquoted l (by simp [hm])
    have hhere : ∀ l, Token.literal l ∈ tokens → IsQuoted l := fun l hm => hquoted l (by simp [hm])
    intro c' hc'
    rcases List.mem_cons.mp hc' with rfl | hmem
    · intro l hmem
      apply hhere
      generalize c'.literals = literals at hl hmem
      cases hl with
      | none => cases hmem
      | one a => simpa using hmem
      | two a b => simpa using hmem
    · exact ih hrest c' hmem

/-- The parser accepts the derivations whose clauses all denote a directive, and nothing else. -/
theorem parse_ok_iff {source : String} {ds : Script} :
    parse source = .ok ds ↔
      ∃ ts cs, (scan source.toList).tokens = ts.map some ∧ Clause.Derives ts cs ∧
        List.Forall₂ Clause.Denotes cs ds := by
  have hinterpret {ts : List Token} {ss : List Statement}
      (hts : (scan source.toList).tokens = ts.map some)
      (hd : Clause.Derives ts (ss.map Statement.clause)) :
      ss.mapM interpret = .ok ds ↔ List.Forall₂ Clause.Denotes (ss.map Statement.clause) ds := by
    rw [mapM_eq_ok_iff, List.forall₂_map_left_iff]
    refine forall₂_congr_left fun s hs d => interpret_eq_ok_iff ?_
    exact isQuoted_of_derives hts hd s.clause (List.mem_map_of_mem hs)
  unfold parse ofLexing
  constructor
  · intro h
    split at h
    next => cases h
    next =>
      split at h
      next => cases h
      next ss hread =>
        obtain ⟨ts, hts, hd⟩ := Statement.readAll_sound hread
        exact ⟨ts, ss.map Statement.clause, hts, hd, (hinterpret hts hd).1 h⟩
  · intro h
    obtain ⟨ts, cs, hts, hd, hall⟩ := h
    obtain ⟨ss, hread, rfl⟩ := Statement.readAll_complete hd hts
    rw [lexicalError?_eq_none_iff.2 (AreTokens.isSome hts)]
    simp only [hread]
    exact (hinterpret hts hd).2 hall

end Script

/-! ## What leaves no trace -/

/-- The directive that a word with unquoted literals stands for. -/
def Clause.Means (c : Clause) (d : Directive) : Prop :=
  ∃ arguments : List Arg, d.keyword.text = c.keyword ∧ c.literals.length = d.keyword.arity ∧
    List.Forall₂ (fun body a => Literal.unescape body.toList = .ok a.raw.toList) c.literals
      arguments ∧ Directive.Carries d arguments

/-- Of a quoted literal only the inside matters. -/
theorem isWritten_iff_inside {quoted : String} {a : Arg} (hq : IsQuoted quoted) :
    Arg.IsWritten quoted a ↔
      Literal.unescape (Clause.inside quoted).toList = .ok a.raw.toList := by
  obtain ⟨q, body, hquote, -, hs⟩ := hq
  have hin : (Clause.inside quoted).toList = body := by
    rw [Clause.inside, hs, String.toList_ofList, List.drop_succ_cons, List.drop_zero,
      List.dropLast_concat]
  rw [hin]
  constructor
  · intro h
    obtain ⟨p, body', -, hs', hu⟩ := h
    obtain ⟨-, rfl⟩ := inside_inj (hs.symm.trans hs')
    exact hu
  · intro hu
    exact ⟨q, body, hquote, hs, hu⟩

theorem denotes_iff_means {c : Clause} {d : Directive} (hq : ∀ l ∈ c.literals, IsQuoted l) :
    c.Denotes d ↔ c.bare.Means d := by
  have hargs (arguments : List Arg) : List.Forall₂ Arg.IsWritten c.literals arguments ↔
      List.Forall₂ (fun body a => Literal.unescape body.toList = .ok a.raw.toList) c.bare.literals
        arguments := by
    rw [Clause.bare, List.forall₂_map_left_iff]
    exact forall₂_congr_left fun l hl _ => isWritten_iff_inside (hq l hl)
  have hlen : c.bare.literals.length = c.literals.length := List.length_map ..
  unfold Clause.Denotes Clause.Means
  simp only [hargs, hlen]
  rfl

namespace Script

/-- A source that is derived from the grammar as the tokens `ts`. -/
def IsDerived (source : String) (ts : List Token) : Prop :=
  (scan source.toList).tokens = ts.map some ∧ ∃ cs, Clause.Derives ts cs

/-- The directives of a derived source are those of its bare clauses. -/
theorem parse_ok_iff_means {source : String} {ts : List Token} {cs : List Clause} {ds : Script}
    (hs : (scan source.toList).tokens = ts.map some) (hd : Clause.Derives ts cs) :
    parse source = .ok ds ↔ List.Forall₂ Clause.Means (cs.map Clause.bare) ds := by
  have hmeans : List.Forall₂ Clause.Denotes cs ds ↔
      List.Forall₂ Clause.Means (cs.map Clause.bare) ds := by
    rw [List.forall₂_map_left_iff]
    exact forall₂_congr_left fun c hc _ => denotes_iff_means (isQuoted_of_derives hs hd c hc)
  rw [parse_ok_iff, ← hmeans]
  constructor
  · intro h
    obtain ⟨ts', cs', hs', hd', hall⟩ := h
    -- the source fixes the tokens, and these their derivation
    have hts : ts' = ts :=
      List.map_injective_iff.2 (fun _ _ => Option.some.inj) (hs'.symm.trans hs)
    subst hts
    rwa [hd.unique hd']
  · intro hall
    exact ⟨ts, cs, hs, hd, hall⟩

/-- The parser accepts exactly the derivations of the grammar whose clauses denote directives, and
gives these in their order. Blanks, ordinals and the choice of quotes leave no trace: two derived
sources that differ in nothing else are accepted together and give the same directives. -/
theorem parse_eq_ok_iff :
    (∀ (source : String) (ds : Script), parse source = .ok ds ↔
      ∃ ts cs, (scan source.toList).tokens = ts.map some ∧ Clause.Derives ts cs ∧
        List.Forall₂ Clause.Denotes cs ds) ∧
    ∀ (source source' : String) (ts ts' : List Token), IsDerived source ts →
      IsDerived source' ts' → Clause.bareTokens ts = Clause.bareTokens ts' →
      ∀ ds, parse source = .ok ds ↔ parse source' = .ok ds := by
  refine ⟨fun source ds => parse_ok_iff, ?_⟩
  intro source source' ts ts' h h' hbare ds
  obtain ⟨hs, cs, hd⟩ := h
  obtain ⟨hs', cs', hd'⟩ := h'
  have hcs : cs.map Clause.bare = cs'.map Clause.bare := (hbare ▸ hd.bare).unique hd'.bare
  rw [parse_ok_iff_means hs hd, parse_ok_iff_means hs' hd', hcs]

/-- Two texts with other blanks, other quotes and an ordinal in one of them only: what is read of
the one is read of the other. -/
theorem parse_other_quotes :
    IsDerived "ADD 'a';" [.word "ADD", .literal "'a'", .semicolon] ∧
    IsDerived "1:ADD\n\"a\" ;" [.ordinal, .word "ADD", .literal "\"a\"", .semicolon] ∧
    parse "1:ADD\n\"a\" ;" = .ok [.addElement ⟨"a", Literal.check_eq_ok_iff.1 rfl⟩] := by
  have h : IsDerived "ADD 'a';" [.word "ADD", .literal "'a'", .semicolon] :=
    ⟨by decide +kernel, [⟨"ADD", ["'a'"]⟩],
      Clause.Derives.cons (c := ⟨"ADD", ["'a'"]⟩) .none (.one _) .nil⟩
  have h' : IsDerived "1:ADD\n\"a\" ;" [.ordinal, .word "ADD", .literal "\"a\"", .semicolon] :=
    ⟨by decide +kernel, [⟨"ADD", ["\"a\""]⟩],
      Clause.Derives.cons (c := ⟨"ADD", ["\"a\""]⟩) .ordinal (.one _) .nil⟩
  refine ⟨h, h', ?_⟩
  rw [parse_eq_ok_iff.2 _ _ _ _ h' h (by decide)]
  decide +kernel

end Script

end XmlScript
