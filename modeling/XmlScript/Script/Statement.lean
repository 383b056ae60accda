import XmlScript.Directive
import XmlScript.Token

/-!
# Statements

The grammar of a script is `(ORDINAL? WORD (LITERAL (',' LITERAL)?)? ';')*`. `Statement.read`
takes one statement off the front of a list of lexemes, `Statement.readAll` takes them all.
Where the grammar cannot go on, both answer with the lexemes that are left, so that the first
of these is the one to report.
-/

namespace XmlScript

/-- One statement as it is written, before its keyword and literals are interpreted. -/
structure Statement where
  /-- Its lexemes from the ordinal or keyword up to the semicolon, which is left out. -/
  lexemes : List Lexeme
  /-- The word in the place of the keyword. -/
  keyword : String
  /-- The literals, their quotes still in place. -/
  literals : List String
  deriving DecidableEq, Repr

namespace Statement

/-- Reads no, one or two literals with a comma between: the lexemes used, the literals, and
the lexemes left. -/
def readLiterals : List Lexeme → Except (List Lexeme) (List Lexeme × List String × List Lexeme)
  | ⟨g, t, some (.literal a)⟩ :: ⟨g', t', some .comma⟩ :: ⟨g'', t'', some (.literal b)⟩ :: rest =>
    .ok ([⟨g, t, some (.literal a)⟩, ⟨g', t', some .comma⟩, ⟨g'', t'', some (.literal b)⟩],
      [a, b], rest)
  | ⟨_, _, some (.literal _)⟩ :: ⟨_, _, some .comma⟩ :: rest => .error rest
  | ⟨g, t, some (.literal a)⟩ :: rest => .ok ([⟨g, t, some (.literal a)⟩], [a], rest)
  | rest => .ok ([], [], rest)

/-- Reads a statement from its keyword on; `label` is the ordinal before it. -/
def readCommand (label : List Lexeme) :
    List Lexeme → Except (List Lexeme) (Statement × List Lexeme)
  | ⟨g, t, some (.word w)⟩ :: rest =>
    match readLiterals rest with
    | .ok (used, literals, ⟨_, _, some .semicolon⟩ :: after) =>
      .ok (⟨label ++ ⟨g, t, some (.word w)⟩ :: used, w, literals⟩, after)
    | .ok (_, _, stuck) => .error stuck
    | .error stuck => .error stuck
  | stuck => .error stuck

/-- Reads the statement at the front and answers with it and the lexemes after its semicolon,
or with the lexemes from the first one that does not fit. -/
def read : List Lexeme → Except (List Lexeme) (Statement × List Lexeme)
  | ⟨g, t, some .ordinal⟩ :: rest => readCommand [⟨g, t, some .ordinal⟩] rest
  | rest => readCommand [] rest

theorem length_readLiterals {xs used rest : List Lexeme} {literals : List String}
    (h : readLiterals xs = .ok (used, literals, rest)) : rest.length ≤ xs.length := by
  unfold readLiterals at h
  split at h <;> simp only [Except.ok.injEq, Prod.mk.injEq, reduceCtorEq] at h
  all_goals obtain ⟨-, -, rfl⟩ := h
  next => simp only [List.length_cons]; omega
  next => simp only [List.length_cons]; omega
  next => exact Nat.le_refl _

theorem length_readCommand {label xs rest : List Lexeme} {s : Statement}
    (h : readCommand label xs = .ok (s, rest)) : rest.length < xs.length := by
  unfold readCommand at h
  split at h
  next =>
    split at h
    next h' =>
      have := length_readLiterals h'
      simp only [Except.ok.injEq, Prod.mk.injEq] at h
      obtain ⟨-, rfl⟩ := h
      simp only [List.length_cons] at *
      omega
    all_goals cases h
  next => cases h

/-- A statement uses up at least one lexeme. -/
theorem length_read {xs rest : List Lexeme} {s : Statement} (h : read xs = .ok (s, rest)) :
    rest.length < xs.length := by
  unfold read at h
  split at h
  · have := length_readCommand h
    simp only [List.length_cons]
    omega
  · exact length_readCommand h

/-- Reads statements to the end, or answers with the lexemes from the first one that does not
fit. -/
def readAll (xs : List Lexeme) : Except (List Lexeme) (List Statement) :=
  match xs with
  | [] => .ok []
  | x :: rest =>
    match _h : read (x :: rest) with
    | .ok (s, after) => (readAll after).map (s :: ·)
    | .error stuck => .error stuck
termination_by xs.length
decreasing_by exact length_read _h

end Statement

end XmlScript
