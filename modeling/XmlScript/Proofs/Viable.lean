import Mathlib.Order.Bounds.Basic
import XmlScript.Proofs.Grammar

/-!
# Where reading stops

`Clause.Viable` says of a sequence of tokens that some sequence of the grammar starts with it.
The reader of statements reports the lexemes from the first one on that does not fit, and this is
the furthest place that it could report: the tokens before it are viable, and no longer part of the
sequence is (`Statement.isGreatest_viable`).

Both halves come from what one reader after the other says when it stops (`readCommand_stops`,
`read_stops`, and by induction over the statements `readAll_stops`): what it has used up is the
front of a clause, and it would have stopped at the same lexeme whatever followed that
(`StopsAt.same`), so a derivation cannot go on there.
-/

namespace XmlScript

namespace Clause

/-- Some sequence of the grammar starts with these tokens. -/
def Viable (ts : List Token) : Prop := ∃ us cs, Derives (ts ++ us) cs

/-- The front of a clause, of which at least the semicolon is missing. -/
def Begun (ts : List Token) : Prop :=
  ∃ (c : Clause) (label tokens us : List Token), Label label ∧ Literals tokens c.literals ∧
    ts ++ us = label ++ .word c.keyword :: tokens

theorem Begun.viable {ts : List Token} (h : Begun ts) : Viable ts := by
  obtain ⟨c, label, tokens, us, hlabel, hl, htokens⟩ := h
  refine ⟨us ++ [.semicolon], [c], ?_⟩
  rw [← List.append_assoc, htokens, List.append_assoc, List.cons_append]
  exact Derives.cons hlabel hl Derives.nil

/-- Complete clauses may stand before anything viable. -/
theorem Viable.append {ts us : List Token} {cs : List Clause} (h : Derives ts cs)
    (h' : Viable us) : Viable (ts ++ us) := by
  obtain ⟨vs, ds, hd⟩ := h'
  exact ⟨vs, cs ++ ds, by rw [List.append_assoc]; exact h.append hd⟩

theorem Begun.semicolon_not_mem {ts : List Token} (h : Begun ts) : Token.semicolon ∉ ts := by
  obtain ⟨c, label, tokens, us, hlabel, hl, htokens⟩ := h
  intro hm
  have hm : Token.semicolon ∈ label ++ .word c.keyword :: tokens :=
    htokens ▸ List.mem_append_left us hm
  generalize c.literals = literals at hl
  cases hlabel <;> cases hl <;> simp at hm

end Clause

namespace Statement

open Clause (Label Literals Derives Begun Viable)

/-- A reader stops behind the lexemes `used`, at the first of the lexemes `stuck`, and it would
stop there whatever followed that one. -/
structure StopsAt {α : Type} (reader : List Lexeme → Except (List Lexeme) α)
    (xs used stuck : List Lexeme) : Prop where
  split : xs = used ++ stuck
  same : ∀ x ∈ stuck.head?, ∀ later, reader (used ++ x :: later) = .error (x :: later)

/-! ## One statement -/

/-- The literals before a lexeme are read in the same way whatever follows that lexeme. -/
theorem readLiterals_same {xs used later : List Lexeme} {literals : List String} {x : Lexeme}
    (h : readLiterals xs = .ok (used, literals, x :: later)) (later' : List Lexeme) :
    readLiterals (used ++ x :: later') = .ok (used, literals, x :: later') := by
  obtain ⟨g, t, t?⟩ := x
  unfold readLiterals at h
  split at h <;> simp only [Except.ok.injEq, Prod.mk.injEq, reduceCtorEq] at h
  next g t a g' t' g'' t'' b rest =>
    obtain ⟨rfl, rfl, rfl⟩ := h
    rfl
  next g t a rest hn hn' =>
    obtain ⟨rfl, rfl, rfl⟩ := h
    -- behind one literal stands no comma
    rcases t? with _ | (_ | _ | _ | _ | _)
    case some.comma => exact absurd rfl (hn' _ _ _)
    all_goals rfl
  next hn _ hn' =>
    obtain ⟨rfl, rfl, rfl⟩ := h
    -- no literal comes first
    rcases t? with _ | (_ | _ | _ | _ | _)
    case some.literal => exact absurd rfl (hn' _ _ _ _)
    all_goals rfl

theorem readLiterals_stops {xs stuck : List Lexeme} (h : readLiterals xs = .error stuck) :
    ∃ used a, StopsAt readLiterals xs used stuck ∧ AreTokens used [.literal a, .comma] := by
  unfold readLiterals at h
  split at h <;> simp only [Except.error.injEq, reduceCtorEq] at h
  next g t a g' t' rest hn =>
    subst h
    refine ⟨[⟨g, t, some (.literal a)⟩, ⟨g', t', some .comma⟩], a, ⟨rfl, ?_⟩, rfl⟩
    intro x hx later
    obtain ⟨g'', t'', t?⟩ := x
    cases rest with
    | nil => cases hx
    | cons y rest =>
      cases hx
      rcases t? with _ | (_ | _ | _ | _ | _)
      case some.literal => exact absurd rfl (hn _ _ _ _)
      all_goals rfl

/-- Reading a command stops behind the front of its word and its literals. -/
theorem readCommand_stops {label xs stuck : List Lexeme} (h : readCommand label xs = .error stuck) :
    ∃ (used : List Lexeme) (c : Clause) (ts tokens us : List Token),
      StopsAt (readCommand label) xs used stuck ∧ AreTokens used ts ∧
        Literals tokens c.literals ∧ ts ++ us = .word c.keyword :: tokens := by
  unfold readCommand at h
  split at h
  next g t w rest =>
    split at h
    next => cases h
    next used literals stuck' hn hread =>
      -- no semicolon closes the literals
      cases h
      obtain ⟨hsplit, tokens, hl, hu⟩ := readLiterals_sound hread
      refine ⟨⟨g, t, some (.word w)⟩ :: used, ⟨w, literals⟩, .word w :: tokens, tokens, [],
        ⟨by rw [hsplit, List.cons_append], ?_⟩, areTokens_cons_iff.2 ⟨g, t, used, rfl, hu⟩, hl,
        List.append_nil _⟩
      intro x hx later
      cases stuck with
      | nil => cases hx
      | cons y after =>
        cases hx
        rw [List.cons_append, readCommand, readLiterals_same hread later]
        obtain ⟨g', t', t?⟩ := x
        rcases t? with _ | (_ | _ | _ | _ | _)
        case some.semicolon => exact absurd rfl (hn _ _ _)
        all_goals rfl
    next stuck' hread =>
      -- no literal follows the comma
      cases h
      obtain ⟨used, a, hstops, hu⟩ := readLiterals_stops hread
      refine ⟨⟨g, t, some (.word w)⟩ :: used, ⟨w, [a, ""]⟩, .word w :: [.literal a, .comma],
        [.literal a, .comma, .literal ""], [.literal ""],
        ⟨by rw [hstops.split, List.cons_append], ?_⟩,
        areTokens_cons_iff.2 ⟨g, t, used, rfl, hu⟩, Literals.two a "", rfl⟩
      intro x hx later
      rw [List.cons_append, readCommand, hstops.same x hx later]
  next hn =>
    cases h
    refine ⟨[], ⟨"", []⟩, [], [], [.word ""], ⟨rfl, ?_⟩, rfl, Literals.none, rfl⟩
    intro x hx later
    obtain ⟨g, t, t?⟩ := x
    cases xs with
    | nil => cases hx
    | cons y rest =>
      cases hx
      rcases t? with _ | (_ | _ | _ | _ | _)
      case some.word => exact absurd rfl (hn _ _ _ _)
      all_goals rfl

/-- Where no ordinal comes first, a statement is read from its word on. -/
theorem read_of_head {xs : List Lexeme} (h : ∀ x ∈ xs.head?, x.token? ≠ some .ordinal) :
    read xs = readCommand [] xs := by
  unfold read
  split
  next => exact absurd rfl (h _ rfl)
  next => rfl

/-- Reading a statement stops behind the front of a clause. -/
theorem read_stops {xs stuck : List Lexeme} (h : read xs = .error stuck) :
    ∃ used ts, StopsAt read xs used stuck ∧ AreTokens used ts ∧ Begun ts := by
  unfold read at h
  split at h
  next g t rest =>
    obtain ⟨used, c, ts, tokens, us, hstops, hu, hl, hts⟩ := readCommand_stops h
    refine ⟨⟨g, t, some .ordinal⟩ :: used, .ordinal :: ts,
      ⟨by rw [hstops.split, List.cons_append], hstops.same⟩,
      areTokens_cons_iff.2 ⟨g, t, used, rfl, hu⟩, c, [.ordinal], tokens, us, Label.ordinal, hl, ?_⟩
    rw [List.cons_append, hts]
    rfl
  next hn =>
    obtain ⟨used, c, ts, tokens, us, hstops, hu, hl, hts⟩ := readCommand_stops h
    refine ⟨used, ts, ⟨hstops.split, ?_⟩, hu, c, [], tokens, us, Label.none, hl, hts⟩
    intro x hx later
    -- the first lexeme is the same, whether it was used or is the one that is reported
    have hhead : (used ++ x :: later).head? = xs.head? := by
      rw [hstops.split, List.head?_append, List.head?_append, hx, List.head?_cons]
    rw [read_of_head, hstops.same x hx later]
    intro y hy hordinal
    rw [hhead] at hy
    obtain ⟨g, t, t?⟩ := y
    cases hordinal
    cases xs with
    | nil => cases hy
    | cons y rest =>
      cases hy
      exact hn _ _ _ rfl

/-! ## All statements -/

theorem readAll_of_read_error {xs stuck : List Lexeme} (hx : xs ≠ []) (h : read xs = .error stuck) :
    readAll xs = .error stuck := by
  cases xs with
  | nil => exact absurd rfl hx
  | cons x rest =>
    rw [readAll]
    split
    next h' =>
      rw [h] at h'
      cases h'
    next h' =>
      rw [h] at h'
      cases h'
      rfl

/-- Reading stops behind complete statements and the front of a clause. -/
theorem readAll_stops {xs stuck : List Lexeme} (h : readAll xs = .error stuck) :
    ∃ done used ss ts, readAll done = .ok ss ∧ AreTokens used ts ∧ Begun ts ∧
      StopsAt readAll xs (done ++ used) stuck := by
  fun_induction readAll xs with
  | case1 => cases h
  | case2 x rest s after hread ih =>
    cases hall : readAll after with
    | ok ss =>
      rw [hall] at h
      cases h
    | error stuck' =>
      rw [hall] at h
      cases h
      obtain ⟨done, used, ss, ts, hdone, hu, hb, hstops⟩ := ih hall
      obtain ⟨semi, hx, hs, hd⟩ := read_eq_ok_iff.1 hread
      have hfirst (more : List Lexeme) : read (s.lexemes ++ semi :: more) = .ok (s, more) :=
        read_eq_ok_iff.2 ⟨semi, rfl, hs, hd⟩
      refine ⟨s.lexemes ++ semi :: done, used, s :: ss, ts, ?_, hu, hb, ?_, ?_⟩
      · rw [readAll_of_read (hfirst done), hdone]
        rfl
      · rw [hx, hstops.split]
        simp only [List.append_assoc, List.cons_append]
      · intro y hy later
        have hsame := hstops.same y hy later
        rw [List.append_assoc] at hsame
        rw [List.append_assoc, List.append_assoc, List.cons_append, readAll_of_read (hfirst _),
          hsame]
        rfl
  | case3 x rest stuck' hread =>
    cases h
    obtain ⟨used, ts, hstops, hu, hb⟩ := read_stops hread
    refine ⟨[], used, [], ts, by rw [readAll], hu, hb, hstops.split, ?_⟩
    intro y hy later
    exact readAll_of_read_error (by simp) (hstops.same y hy later)

/-- The lexemes before the one that is reported are the longest part of the sequence that some
sequence of the grammar starts with. -/
theorem isGreatest_viable {xs stuck : List Lexeme} {ts : List Token} (hx : AreTokens xs ts)
    (h : readAll xs = .error stuck) :
    IsGreatest {k | k ≤ ts.length ∧ Viable (ts.take k)} (xs.length - stuck.length) := by
  obtain ⟨done, used, ss, begun, hdone, hu, hb, hstops⟩ := readAll_stops h
  obtain ⟨finished, hf, hd⟩ := readAll_sound hdone
  have hseen := hf.append hu
  rw [hstops.split] at hx
  obtain ⟨seen, rest, rfl, hseen', hrest⟩ := hx.split
  obtain rfl := hseen'.unique hseen
  have hlength : xs.length - stuck.length = (finished ++ begun).length := by
    rw [hstops.split, List.length_append, ← hseen.length_eq]
    omega
  rw [hlength]
  constructor
  · refine ⟨by simp, ?_⟩
    rw [List.take_left]
    exact Viable.append hd hb.viable
  · intro j hj
    obtain ⟨hle, us, cs, hderives⟩ := hj
    refine Nat.le_of_not_lt fun hlt => ?_
    rw [List.length_append] at hle
    -- one token more is in the part, the one that is reported
    obtain ⟨n, hn⟩ : ∃ n, j = (finished ++ begun).length + (n + 1) :=
      ⟨j - (finished ++ begun).length - 1, by omega⟩
    cases rest with
    | nil =>
      rw [List.length_nil] at hle
      omega
    | cons t rest =>
      obtain ⟨g, text, after, rfl, -⟩ := areTokens_cons_iff.1 hrest
      rw [hn, List.take_length_add_append, List.take_succ_cons, List.append_assoc,
        List.cons_append] at hderives
      have hlexemes : AreTokens (⟨g, text, some t⟩ ::
          (rest.take n ++ us).map fun t => ⟨[], [], some t⟩) (t :: (rest.take n ++ us)) :=
        areTokens_cons_iff.2 ⟨g, text, _, rfl, areTokens_map _⟩
      obtain ⟨ss', hread, -⟩ := readAll_complete hderives (hseen.append hlexemes)
      rw [hstops.same _ rfl] at hread
      cases hread

end Statement

end XmlScript
