import XmlScript.Proofs.Token
import XmlScript.Script.Statement

/-!
# The grammar of scripts

`Clause.Derives` is the grammar `(ORDINAL? WORD (LITERAL (',' LITERAL)?)? ';')*` as a relation
between a sequence of tokens and the clauses, a word and its literals each, that it is made of.
It knows nothing of lexemes, of reading from left to right or of where reading stops.

`Statement.read` is compared with it one statement at a time (`read_eq_ok_iff`: what is read is a
derived statement and the semicolon after it, and every such text is read), and `readAll` by
induction (`readAll_sound`, `readAll_complete`). Since a reader has one answer, there is one
derivation (`Derives.unique`), and it is the same up to quotes when ordinals and quotes are taken
out of the tokens (`Derives.bare`).
-/

namespace XmlScript

/-- A word with its literals, their quotes still in place. -/
structure Clause where
  keyword : String
  literals : List String
  deriving DecidableEq, Repr

namespace Clause

/-- What may stand before a word: nothing, or an ordinal. -/
inductive Label : List Token → Prop
  | none : Label []
  | ordinal : Label [.ordinal]

/-- The tokens of no, one or two literals with a comma between. -/
inductive Literals : List Token → List String → Prop
  | none : Literals [] []
  | one (a : String) : Literals [.literal a] [a]
  | two (a b : String) : Literals [.literal a, .comma, .literal b] [a, b]

/-- The tokens of a sequence of clauses, each closed by a semicolon. -/
inductive Derives : List Token → List Clause → Prop
  | nil : Derives [] []
  | cons {label tokens rest : List Token} {c : Clause} {cs : List Clause} (hl : Label label)
      (ht : Literals tokens c.literals) (hr : Derives rest cs) :
      Derives (label ++ .word c.keyword :: (tokens ++ .semicolon :: rest)) (c :: cs)

end Clause

/-- The lexemes are tokens, and these are they. -/
def AreTokens (xs : List Lexeme) (ts : List Token) : Prop := xs.map (·.token?) = ts.map some

theorem areTokens_nil_iff {xs : List Lexeme} : AreTokens xs [] ↔ xs = [] := by
  simp [AreTokens]

theorem areTokens_cons_iff {xs : List Lexeme} {t : Token} {ts : List Token} :
    AreTokens xs (t :: ts) ↔
      ∃ g s rest, xs = ⟨g, s, some t⟩ :: rest ∧ AreTokens rest ts := by
  unfold AreTokens
  rw [List.map_cons, List.map_eq_cons_iff]
  constructor
  · intro h
    obtain ⟨⟨g, s, t?⟩, rest, rfl, rfl, h⟩ := h
    exact ⟨g, s, rest, rfl, h⟩
  · intro h
    obtain ⟨g, s, rest, rfl, h⟩ := h
    exact ⟨_, rest, rfl, rfl, h⟩

theorem areTokens_append_iff {xs : List Lexeme} {ts us : List Token} :
    AreTokens xs (ts ++ us) ↔ ∃ ys zs, xs = ys ++ zs ∧ AreTokens ys ts ∧ AreTokens zs us := by
  unfold AreTokens
  rw [List.map_append, List.map_eq_append_iff]

theorem AreTokens.append {ys zs : List Lexeme} {ts us : List Token} (hy : AreTokens ys ts)
    (hz : AreTokens zs us) : AreTokens (ys ++ zs) (ts ++ us) :=
  areTokens_append_iff.2 ⟨ys, zs, rfl, hy, hz⟩

/-- The tokens of joined lexemes part where these do. -/
theorem AreTokens.split {ys zs : List Lexeme} {ts : List Token} (h : AreTokens (ys ++ zs) ts) :
    ∃ us vs, ts = us ++ vs ∧ AreTokens ys us ∧ AreTokens zs vs := by
  unfold AreTokens at h
  rw [List.map_append] at h
  obtain ⟨us, vs, rfl, hu, hv⟩ := List.map_eq_append_iff.1 h.symm
  exact ⟨us, vs, rfl, hu.symm, hv.symm⟩

theorem AreTokens.length_eq {xs : List Lexeme} {ts : List Token} (h : AreTokens xs ts) :
    xs.length = ts.length := by
  simpa only [List.length_map] using congrArg List.length h

/-- There are lexemes for all tokens. -/
theorem areTokens_map (ts : List Token) : AreTokens (ts.map fun t => ⟨[], [], some t⟩) ts := by
  rw [AreTokens, List.map_map]
  rfl

theorem AreTokens.unique {xs : List Lexeme} {ts us : List Token} (h : AreTokens xs ts)
    (h' : AreTokens xs us) : ts = us :=
  (List.map_inj_right fun _ _ => Option.some.inj).1 (h.symm.trans h')

namespace Statement

open Clause (Label Literals Derives)

/-- The word and the literals of a statement. -/
def clause (s : Statement) : Clause := ⟨s.keyword, s.literals⟩

/-- The lexemes of a statement are an ordinal or none, its keyword and its literals. -/
def Derived (s : Statement) : Prop :=
  ∃ label tokens, Label label ∧ Literals tokens s.literals ∧
    AreTokens s.lexemes (label ++ .word s.keyword :: tokens)

/-! ## One statement -/

theorem readLiterals_sound {xs used rest : List Lexeme} {literals : List String}
    (h : readLiterals xs = .ok (used, literals, rest)) :
    xs = used ++ rest ∧ ∃ tokens, Literals tokens literals ∧ AreTokens used tokens := by
  unfold readLiterals at h
  split at h <;> simp only [Except.ok.injEq, Prod.mk.injEq, reduceCtorEq] at h
  next g t a g' t' g'' t'' b after =>
    obtain ⟨rfl, rfl, rfl⟩ := h
    exact ⟨rfl, _, Literals.two a b, rfl⟩
  next g t a after _ _ =>
    obtain ⟨rfl, rfl, rfl⟩ := h
    exact ⟨rfl, _, Literals.one a, rfl⟩
  next =>
    obtain ⟨rfl, rfl, rfl⟩ := h
    exact ⟨rfl, _, Literals.none, rfl⟩

/-- Literals are read up to a semicolon, and no further. -/
theorem readLiterals_complete {used after : List Lexeme} {tokens : List Token}
    {literals : List String} {semi : Lexeme} (hl : Literals tokens literals)
    (hu : AreTokens used tokens) (hs : semi.token? = some .semicolon) :
    readLiterals (used ++ semi :: after) = .ok (used, literals, semi :: after) := by
  obtain ⟨g, t, t?⟩ := semi
  cases hs
  cases hl with
  | none =>
    rw [areTokens_nil_iff] at hu
    subst hu
    rfl
  | one a =>
    obtain ⟨g₁, s₁, r₁, rfl, h₁⟩ := areTokens_cons_iff.1 hu
    rw [areTokens_nil_iff] at h₁
    subst h₁
    rfl
  | two a b =>
    obtain ⟨g₁, s₁, r₁, rfl, h₁⟩ := areTokens_cons_iff.1 hu
    obtain ⟨g₂, s₂, r₂, rfl, h₂⟩ := areTokens_cons_iff.1 h₁
    obtain ⟨g₃, s₃, r₃, rfl, h₃⟩ := areTokens_cons_iff.1 h₂
    rw [areTokens_nil_iff] at h₃
    subst h₃
    rfl

theorem readCommand_sound {label xs after : List Lexeme} {s : Statement}
    (h : readCommand label xs = .ok (s, after)) :
    ∃ used semi tokens, xs = used ++ semi :: after ∧ semi.token? = some .semicolon ∧
      s.lexemes = label ++ used ∧ Literals tokens s.literals ∧
      AreTokens used (.word s.keyword :: tokens) := by
  unfold readCommand at h
  split at h
  next g t w rest =>
    split at h
    next used literals g' t' after' hr =>
      simp only [Except.ok.injEq, Prod.mk.injEq] at h
      obtain ⟨rfl, rfl⟩ := h
      obtain ⟨rfl, tokens, hl, ht⟩ := readLiterals_sound hr
      exact ⟨_ :: used, _, tokens, rfl, rfl, rfl, hl, areTokens_cons_iff.2 ⟨g, t, used, rfl, ht⟩⟩
    all_goals cases h
  next => cases h

theorem readCommand_complete (label : List Lexeme) {used after : List Lexeme}
    {tokens : List Token} {literals : List String} {w : String} {semi : Lexeme}
    (hl : Literals tokens literals) (hu : AreTokens used (.word w :: tokens))
    (hs : semi.token? = some .semicolon) :
    readCommand label (used ++ semi :: after) = .ok (⟨label ++ used, w, literals⟩, after) := by
  obtain ⟨g, t, rest, rfl, hr⟩ := areTokens_cons_iff.1 hu
  have hread : readLiterals (rest ++ semi :: after) = .ok (rest, literals, semi :: after) :=
    readLiterals_complete hl hr hs
  obtain ⟨g', t', t?⟩ := semi
  cases hs
  rw [List.cons_append, readCommand]
  simp only [hread]

theorem Derived.lexemes_ne_nil {s : Statement} (h : s.Derived) : s.lexemes ≠ [] := by
  obtain ⟨label, tokens, -, -, hu⟩ := h
  have hlength := hu.length_eq
  intro hnil
  rw [hnil, List.length_append, List.length_cons, List.length_nil] at hlength
  omega

/-- What is read is a derived statement and the semicolon after it, and every derived statement
with a semicolon after it is read. -/
theorem read_eq_ok_iff {xs after : List Lexeme} {s : Statement} :
    read xs = .ok (s, after) ↔
      ∃ semi, xs = s.lexemes ++ semi :: after ∧ semi.token? = some .semicolon ∧ s.Derived := by
  constructor
  · intro h
    unfold read at h
    split at h
    next g t rest =>
      obtain ⟨used, semi, tokens, rfl, hs, hx, hl, hu⟩ := readCommand_sound h
      refine ⟨semi, by rw [hx]; rfl, hs, [.ordinal], tokens, Label.ordinal, hl, ?_⟩
      rw [hx]
      exact areTokens_cons_iff.2 ⟨g, t, used, rfl, hu⟩
    next =>
      obtain ⟨used, semi, tokens, rfl, hs, hx, hl, hu⟩ := readCommand_sound h
      rw [List.nil_append] at hx
      exact ⟨semi, by rw [hx], hs, [], tokens, Label.none, hl, hx ▸ hu⟩
  · intro h
    obtain ⟨semi, rfl, hs, label, tokens, hlabel, hl, hu⟩ := h
    obtain ⟨lexemes, w, literals⟩ := s
    cases hlabel with
    | none =>
      have hw : AreTokens lexemes (.word w :: tokens) := hu
      have hc : readCommand [] (lexemes ++ semi :: after) = .ok (⟨lexemes, w, literals⟩, after) :=
        readCommand_complete [] hl hw hs
      -- the first lexeme is the word, so no ordinal is looked for
      obtain ⟨g, t, rest, rfl, -⟩ := areTokens_cons_iff.1 hw
      exact hc
    | ordinal =>
      have ho : AreTokens lexemes (.ordinal :: .word w :: tokens) := hu
      obtain ⟨g, t, rest, rfl, hr⟩ := areTokens_cons_iff.1 ho
      exact readCommand_complete [_] hl hr hs

/-! ## All statements -/

theorem readAll_of_read {xs after : List Lexeme} {s : Statement} (h : read xs = .ok (s, after)) :
    readAll xs = (readAll after).map (s :: ·) := by
  cases xs with
  | nil => exact absurd (length_read h) (by simp)
  | cons x rest =>
    rw [readAll]
    split
    next h' =>
      rw [h] at h'
      cases h'
      rfl
    next h' =>
      rw [h] at h'
      cases h'

/-- What is read as statements is a derivation of their clauses. -/
theorem readAll_sound {xs : List Lexeme} {ss : List Statement} (h : readAll xs = .ok ss) :
    ∃ ts, AreTokens xs ts ∧ Derives ts (ss.map clause) := by
  fun_induction readAll xs generalizing ss with
  | case1 =>
    cases h
    exact ⟨[], rfl, Derives.nil⟩
  | case2 x rest s after hread ih =>
    cases hall : readAll after with
    | error stuck =>
      rw [hall] at h
      cases h
    | ok ss' =>
      rw [hall] at h
      cases h
      obtain ⟨ts, hts, hd⟩ := ih hall
      obtain ⟨semi, hx, hs, label, tokens, hlabel, hl, hu⟩ := read_eq_ok_iff.1 hread
      obtain ⟨g, t, t?⟩ := semi
      cases hs
      refine ⟨_, ?_, Derives.cons (c := s.clause) hlabel hl hd⟩
      rw [hx]
      have hrest : AreTokens (⟨g, t, some .semicolon⟩ :: after) (.semicolon :: ts) :=
        areTokens_cons_iff.2 ⟨g, t, after, rfl, hts⟩
      have hall := hu.append hrest
      rw [List.append_assoc] at hall
      exact hall
  | case3 => cases h

/-- The lexemes of a statement that was read stand side by side among those that were read. -/
theorem lexemes_infix_of_readAll {xs : List Lexeme} {ss : List Statement} (h : readAll xs = .ok ss) :
    ∀ s ∈ ss, s.lexemes <:+: xs ∧ s.lexemes ≠ [] := by
  fun_induction readAll xs generalizing ss with
  | case1 =>
    cases h
    intro s hs
    cases hs
  | case2 x rest s after hread ih =>
    cases hall : readAll after with
    | error stuck =>
      rw [hall] at h
      cases h
    | ok ss' =>
      rw [hall] at h
      cases h
      obtain ⟨semi, hx, -, hd⟩ := read_eq_ok_iff.1 hread
      intro s' hs'
      rw [hx]
      rcases List.mem_cons.mp hs' with rfl | hs'
      · exact ⟨(List.prefix_append _ _).isInfix, hd.lexemes_ne_nil⟩
      · obtain ⟨hpart, hne⟩ := ih hall s' hs'
        exact ⟨hpart.trans ((List.suffix_cons ..).trans (List.suffix_append ..)).isInfix, hne⟩
  | case3 => cases h

/-- Every derivation is read, with its clauses. -/
theorem readAll_complete {xs : List Lexeme} {ts : List Token} {cs : List Clause}
    (hd : Derives ts cs) (hx : AreTokens xs ts) : ∃ ss, readAll xs = .ok ss ∧ ss.map clause = cs := by
  induction hd generalizing xs with
  | nil =>
    rw [areTokens_nil_iff] at hx
    subst hx
    exact ⟨[], by rw [readAll], rfl⟩
  | @cons label tokens rest c cs hlabel hl hr ih =>
    -- the lexemes part where the tokens do, before the semicolon
    rw [← List.cons_append, ← List.append_assoc] at hx
    obtain ⟨used, more, rfl, hu, hm⟩ := areTokens_append_iff.1 hx
    obtain ⟨g, t, after, rfl, ha⟩ := areTokens_cons_iff.1 hm
    obtain ⟨ss, hss, rfl⟩ := ih ha
    have hread : read (used ++ ⟨g, t, some .semicolon⟩ :: after) =
        .ok (⟨used, c.keyword, c.literals⟩, after) :=
      read_eq_ok_iff.2 ⟨_, rfl, rfl, label, tokens, hlabel, hl, hu⟩
    refine ⟨⟨used, c.keyword, c.literals⟩ :: ss, ?_, rfl⟩
    rw [readAll_of_read hread, hss]
    rfl

/-! ## Joined sequences -/

/-- A statement is read in the same way whatever follows it. -/
theorem read_append {xs after : List Lexeme} {s : Statement} (h : read xs = .ok (s, after))
    (ys : List Lexeme) : read (xs ++ ys) = .ok (s, after ++ ys) := by
  obtain ⟨semi, rfl, hs, hd⟩ := read_eq_ok_iff.1 h
  refine read_eq_ok_iff.2 ⟨semi, ?_, hs, hd⟩
  rw [List.append_assoc, List.cons_append]

/-- Statements that use up their lexemes are read first when more lexemes follow. -/
theorem readAll_append {xs : List Lexeme} {ss : List Statement} (h : readAll xs = .ok ss)
    (ys : List Lexeme) : readAll (xs ++ ys) = (readAll ys).map (ss ++ ·) := by
  fun_induction readAll xs generalizing ss with
  | case1 =>
    cases h
    rw [List.nil_append]
    cases readAll ys <;> rfl
  | case2 x rest s after hread ih =>
    cases hall : readAll after with
    | error stuck =>
      rw [hall] at h
      cases h
    | ok ss' =>
      rw [hall] at h
      cases h
      rw [readAll_of_read (read_append hread ys), ih hall]
      cases readAll ys <;> rfl
  | case3 => cases h

end Statement

/-! ## One derivation at most, and one without ordinals and quotes -/

namespace Clause

/-- A sequence of tokens has one derivation at most: the reader finds it. -/
theorem Derives.unique {ts : List Token} {cs cs' : List Clause} (h : Derives ts cs)
    (h' : Derives ts cs') : cs = cs' := by
  -- any lexemes will do that have these tokens
  obtain ⟨ss, hss, rfl⟩ := Statement.readAll_complete h (areTokens_map ts)
  obtain ⟨ss', hss', rfl⟩ := Statement.readAll_complete h' (areTokens_map ts)
  rw [hss] at hss'
  cases hss'
  rfl

/-- The clauses of joined sequences are joined. -/
theorem Derives.append {ts us : List Token} {cs ds : List Clause} (h : Derives ts cs)
    (h' : Derives us ds) : Derives (ts ++ us) (cs ++ ds) := by
  induction h with
  | nil => exact h'
  | cons hlabel hl _ ih =>
    have hjoined := Derives.cons hlabel hl ih
    simpa only [List.append_assoc, List.cons_append] using hjoined

/-- What is left of a sequence behind clauses is a sequence of clauses. -/
theorem Derives.of_append {ts us : List Token} {cs ds : List Clause} (h : Derives ts cs)
    (h' : Derives (ts ++ us) ds) : ∃ ds', Derives us ds' ∧ ds = cs ++ ds' := by
  obtain ⟨ss, hss, rfl⟩ := Statement.readAll_complete h (areTokens_map ts)
  obtain ⟨ss', hss', rfl⟩ := Statement.readAll_complete h' (areTokens_map (ts ++ us))
  -- the reader takes the first clauses and goes on with the rest
  rw [List.map_append, Statement.readAll_append hss] at hss'
  cases hrest : Statement.readAll (us.map fun t => ⟨[], [], some t⟩) with
  | error stuck =>
    rw [hrest] at hss'
    cases hss'
  | ok more =>
    rw [hrest] at hss'
    cases hss'
    obtain ⟨vs, hvs, hd⟩ := Statement.readAll_sound hrest
    obtain rfl := hvs.unique (areTokens_map us)
    exact ⟨more.map Statement.clause, hd, List.map_append ..⟩

/-- The text of a literal without its first and last character. -/
def inside (quoted : String) : String := String.ofList (quoted.toList.drop 1).dropLast

/-- A clause with its literals out of their quotes. -/
def bare (c : Clause) : Clause := ⟨c.keyword, c.literals.map inside⟩

/-- A token with its quotes taken off; nothing is left of an ordinal. -/
def bareToken? : Token → Option Token
  | .ordinal => none
  | .literal quoted => some (.literal (inside quoted))
  | t => some t

/-- A sequence of tokens without ordinals and quotes. -/
def bareTokens (ts : List Token) : List Token := ts.filterMap bareToken?

theorem Literals.bare {tokens : List Token} {literals : List String} (h : Literals tokens literals) :
    Literals (bareTokens tokens) (literals.map inside) := by
  cases h with
  | none => exact Literals.none
  | one a => exact Literals.one (inside a)
  | two a b => exact Literals.two (inside a) (inside b)

/-- What is derived without ordinals and quotes is what was derived with them. -/
theorem Derives.bare {ts : List Token} {cs : List Clause} (h : Derives ts cs) :
    Derives (bareTokens ts) (cs.map Clause.bare) := by
  induction h with
  | nil => exact Derives.nil
  | @cons label tokens rest c cs hlabel hl hr ih =>
    -- an ordinal goes, and a clause without one is a clause
    have hlabel' : bareTokens label = [] := by cases hlabel <;> rfl
    have hsplit : bareTokens (label ++ .word c.keyword :: (tokens ++ .semicolon :: rest)) =
        [] ++ .word c.bare.keyword :: (bareTokens tokens ++ .semicolon :: bareTokens rest) := by
      rw [← hlabel']
      simp [bareTokens, bareToken?, Clause.bare]
    rw [hsplit]
    exact Derives.cons (c := c.bare) Label.none hl.bare ih

end Clause

end XmlScript
