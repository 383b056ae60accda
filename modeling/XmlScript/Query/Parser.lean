import XmlScript.Query.Token

/-!
# Reading queries

`Query.parse` makes an expression of the text of a query or says why there is none. Each reader
takes a phrase from the front of some tokens and answers with the tokens that are left, which are
no more than there were; a phrase may be missing. An axis without a test after it is passed over
and stands for nothing.
-/

namespace XmlScript.Query

inductive Fault where
  | empty
  | extra
  | missingOperand
  | trailingSlash
  | emptyPredicate
  | missingArgument
  /-- A bracket or parenthesis is not closed. -/
  | ended
  /-- A token stands where a bracket or parenthesis has to be closed. -/
  | unexpected (t : Token)
  deriving DecidableEq, Repr

def Fault.message : Fault → String
  | empty => "empty expression"
  | extra => "ExtraUnparsedTokens"
  | missingOperand => "RightHandSideExpressionMissing"
  | trailingSlash => "TrailingSlash"
  | emptyPredicate => "EmptyPredicate"
  | missingArgument => "ArgumentMissing"
  | ended => "RanOutOfInput"
  | unexpected t =>
    (if t.isFault then "tokenizer error: " else "unexpected token: ") ++ t.describe

/-- A phrase read from the front of some tokens. -/
structure Reading (α : Type) (tokens : List Token) where
  value : α
  rest : List Token
  le : rest.length ≤ tokens.length

namespace Reading

/-- The same phrase as one read from more tokens. -/
def widen {α : Type} {ts us : List Token} (r : Reading α ts) (h : ts.length ≤ us.length) :
    Reading α us :=
  ⟨r.value, r.rest, Nat.le_trans r.le h⟩

/-- Another phrase at the same place. -/
def map {α β : Type} {ts : List Token} (f : α → β) (r : Reading α ts) : Reading β ts :=
  ⟨f r.value, r.rest, r.le⟩

def nothing {α : Type} (ts : List Token) : Reading (Option α) ts := ⟨none, ts, Nat.le_refl _⟩

end Reading

/-- The tokens after one that has to come next. -/
def expect (t : Token) : (ts : List Token) → Except Fault (Reading Unit ts)
  | [] => .error .ended
  | u :: rest => if u = t then .ok ⟨(), rest, by simp⟩ else .error (.unexpected u)

/-- The tokens after one that may come next. -/
def tail? (t : Token) : (ts : List Token) → Option { rest : List Token // rest.length < ts.length }
  | [] => none
  | u :: rest => if u = t then some ⟨rest, by simp⟩ else none

/-- The axis that a step is written with. -/
def readAxis : (ts : List Token) → Reading Axis ts
  | .axis a :: rest => ⟨a, rest, by simp⟩
  | ts => ⟨.child, ts, Nat.le_refl _⟩

/-- The test of a step. -/
def readTest : (ts : List Token) → Reading (Option NodeTest) ts
  | .test t :: rest => ⟨some t, rest, by simp⟩
  | ts => .nothing ts

/-- An expression that is a single token. -/
def readAtom : (ts : List Token) → Reading (Option Expr) ts
  | .literal text :: rest => ⟨some (.literal text), rest, by simp⟩
  | .number value :: rest => ⟨some (.number value), rest, by simp⟩
  | ts => .nothing ts

mutual

/-- Reads an expression whose operators bind at least as tightly as `level`. -/
def readLevel (level : Nat) (ts : List Token) : Except Fault (Reading (Option Expr) ts) :=
  if level = signLevel then readSigned ts
  else if _h : level < pathLevel then
    (readLevel (level + 1) ts).bind fun first =>
      match first.value with
      | none => .ok first
      | some left =>
        have := first.le
        (readMore level left first.rest).map fun r => (r.widen first.le).map some
  else readPath ts
termination_by (ts.length, 20 + 2 * (9 - level))
decreasing_by all_goals (simp only [signLevel, pathLevel] at *; omega)

/-- Goes on after a left operand with the operators of a level. -/
def readMore (level : Nat) (left : Expr) (ts : List Token) : Except Fault (Reading Expr ts) :=
  match ts with
  | .operator op :: rest =>
    if op.level = level then
      (readLevel (level + 1) rest).bind fun operand =>
        match operand.value with
        | none => .error .missingOperand
        | some right =>
          have := operand.le
          (readMore level (.binary op left right) operand.rest).map fun r =>
            r.widen (by simp; omega)
    else .ok ⟨left, .operator op :: rest, Nat.le_refl _⟩
  | ts => .ok ⟨left, ts, Nat.le_refl _⟩
termination_by (ts.length, 0)
decreasing_by all_goals (simp only [List.length_cons]; omega)

/-- Reads an expression with any number of minus signs before it. -/
def readSigned (ts : List Token) : Except Fault (Reading (Option Expr) ts) :=
  (readLevel (signLevel + 1) ts).bind fun first =>
    match first.value, tail? (.operator .subtract) first.rest with
    | none, some ⟨rest, lt⟩ =>
      have := first.le
      (readSigned rest).bind fun operand =>
        match operand.value with
        | none => .error .missingOperand
        | some e => .ok ⟨some (.negation e), operand.rest, by have := operand.le; omega⟩
    | _, _ => .ok first
termination_by (ts.length, 25)
decreasing_by
  · unfold signLevel
    omega
  · omega

/-- Reads a path from the context node, a path from the document node, or an expression that
need not be a path with a path from its nodes. -/
def readPath (ts : List Token) : Except Fault (Reading (Option Expr) ts) :=
  (readSteps .context ts).bind fun relative =>
    have := relative.le
    match relative.value, tail? .slash relative.rest with
    | some _, _ => .ok relative
    | none, some ⟨rest, lt⟩ =>
      -- a slash alone is the document node
      (readSteps .root rest).map fun r =>
        (r.map fun e => some (e.getD .root)).widen (by omega)
    | none, none =>
      (readFilter relative.rest).bind fun filtered =>
        have := filtered.le
        match filtered.value, tail? .slash filtered.rest with
        | some e, some ⟨rest, lt⟩ =>
          -- behind an expression a slash has to be followed
          (readSteps e rest).bind fun r =>
            if r.value.isNone then .error .trailingSlash else .ok (r.widen (by omega))
        | _, _ => .ok (filtered.widen relative.le)
termination_by (ts.length, 19)
decreasing_by all_goals omega

/-- Reads steps, with slashes between them, that start from the nodes of an expression. -/
def readSteps (source : Expr) (ts : List Token) : Except Fault (Reading (Option Expr) ts) :=
  (readStep source ts).bind fun first =>
    match first.value with
    | none => .ok first
    | some e =>
      have := first.le
      (readMoreSteps e first.rest).map fun r => (r.widen first.le).map some
termination_by (ts.length, 15)
decreasing_by all_goals omega

/-- Goes on after a step with those behind slashes. -/
def readMoreSteps (source : Expr) (ts : List Token) : Except Fault (Reading Expr ts) :=
  match ts with
  | .slash :: rest =>
    (readStep source rest).bind fun next =>
      match next.value with
      | none => .error .trailingSlash
      | some e =>
        have := next.le
        (readMoreSteps e next.rest).map fun r => r.widen (by simp; omega)
  | ts => .ok ⟨source, ts, Nat.le_refl _⟩
termination_by (ts.length, 0)
decreasing_by all_goals (simp only [List.length_cons]; omega)

def readStep (source : Expr) (ts : List Token) : Except Fault (Reading (Option Expr) ts) :=
  match readAxis ts with
  | ⟨axis, rest, le⟩ =>
    match readTest rest with
    | ⟨none, rest, le'⟩ => .ok ⟨none, rest, Nat.le_trans le' le⟩
    | ⟨some test, rest, le'⟩ =>
      (readPredicates rest).map fun r =>
        (r.map fun predicates => some (.step source axis test predicates)).widen
          (Nat.le_trans le' le)
termination_by (ts.length, 10)
decreasing_by all_goals (simp only [Prod.lex_def]; omega)

def readPredicates (ts : List Token) : Except Fault (Reading (List Expr) ts) :=
  match ts with
  | .leftBracket :: rest =>
    (readLevel 0 rest).bind fun predicate =>
      match predicate.value with
      | none => .error .emptyPredicate
      | some e =>
        (expect .rightBracket predicate.rest).bind fun closed =>
          have := predicate.le
          have := closed.le
          (readPredicates closed.rest).map fun r =>
            (r.map fun predicates => e :: predicates).widen (by simp; omega)
  | ts => .ok ⟨[], ts, Nat.le_refl _⟩
termination_by (ts.length, 5)
decreasing_by all_goals (simp only [List.length_cons]; omega)

/-- Reads an expression that is no path, with predicates. -/
def readFilter (ts : List Token) : Except Fault (Reading (Option Expr) ts) :=
  (readPrimary ts).bind fun first =>
    match first.value with
    | none => .ok first
    | some e =>
      have := first.le
      (readPredicates first.rest).map fun r =>
        (r.map fun predicates => some (predicates.foldl .filter e)).widen first.le
termination_by (ts.length, 15)
decreasing_by all_goals omega

/-- Reads a variable, an expression in parentheses, a literal, a number or a call. After empty
parentheses the other forms are still tried. -/
def readPrimary (ts : List Token) : Except Fault (Reading (Option Expr) ts) :=
  match ts with
  | .reference name :: rest => .ok ⟨some (.reference name), rest, by simp⟩
  | .leftParen :: rest =>
    (readLevel 0 rest).bind fun inner =>
      (expect .rightParen inner.rest).bind fun closed =>
        have := inner.le
        have := closed.le
        match inner.value with
        | some e => .ok ⟨some e, closed.rest, by simp; omega⟩
        | none => (readPlain closed.rest).map fun r => r.widen (by simp; omega)
  | ts => readPlain ts
termination_by (ts.length, 12)
decreasing_by
  · simp only [List.length_cons]
    omega
  · simp only [List.length_cons]
    omega
  · omega

/-- Reads a literal, a number or a call. -/
def readPlain (ts : List Token) : Except Fault (Reading (Option Expr) ts) :=
  match ts with
  | .function name :: rest =>
    (expect .leftParen rest).bind fun opened =>
      have := opened.le
      (readArguments opened.rest).bind fun arguments =>
        (expect .rightParen arguments.rest).map fun closed =>
          ⟨some (.call name arguments.value), closed.rest, by
            have := arguments.le
            have := closed.le
            simp
            omega⟩
  | ts => .ok (readAtom ts)
termination_by (ts.length, 11)
decreasing_by all_goals (simp only [List.length_cons]; omega)

/-- Reads the arguments of a call. -/
def readArguments (ts : List Token) : Except Fault (Reading (List Expr) ts) :=
  (readLevel 0 ts).bind fun first =>
    match first.value with
    | none => .ok (first.map fun _ => [])
    | some e =>
      have := first.le
      (readMoreArguments first.rest).map fun r => (r.map fun more => e :: more).widen first.le
termination_by (ts.length, 40)
decreasing_by all_goals omega

/-- Goes on after an argument with those behind commas. -/
def readMoreArguments (ts : List Token) : Except Fault (Reading (List Expr) ts) :=
  match ts with
  | .comma :: rest =>
    (readLevel 0 rest).bind fun next =>
      match next.value with
      | none => .error .missingArgument
      | some e =>
        have := next.le
        (readMoreArguments next.rest).map fun r =>
          (r.map fun more => e :: more).widen (by simp; omega)
  | ts => .ok ⟨[], ts, Nat.le_refl _⟩
termination_by (ts.length, 0)
decreasing_by all_goals (simp only [List.length_cons]; omega)

end

def parse (s : String) : Except Fault Expr :=
  (readLevel 0 (scan s)).bind fun r =>
    if r.rest.isEmpty then
      match r.value with
      | some e => .ok e
      | none => .error .empty
    else .error .extra

end XmlScript.Query
