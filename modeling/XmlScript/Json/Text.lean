import XmlScript.Text.Blank
import XmlScript.Text.Bytes
import XmlScript.Text.Numeral

/-!
# Texts in JSON

How a text stands between quotes in JSON: a quote, a backslash and the control characters are
escaped on writing and nothing else, while reading accepts every escape of the format. A
reader answers with what it read and what follows, or with the kind of fault it met first.
-/

namespace XmlScript.Json

inductive Fault where
  | ended
  /-- The text is no JSON, or holds a value where the format of a script has no place for one. -/
  | malformed
  /-- A value has another form than the script asks for. -/
  | mismatched
  deriving DecidableEq, Repr

/-- The answer of a reader: what it read and what follows. -/
abbrev Answer (α : Type) := Except Fault (α × List Char)

/-! ## Writing -/

def quoteChar (c : Char) : List Char :=
  if c = '"' then ['\\', '"']
  else if c = '\\' then ['\\', '\\']
  else if c = '\n' then ['\\', 'n']
  else if c = '\r' then ['\\', 'r']
  else if c = '\t' then ['\\', 't']
  else if c = '\x08' then ['\\', 'b']
  else if c = '\x0c' then ['\\', 'f']
  else if c.toNat < 0x20 then
    "\\u00".toList ++ [Nat.digitChar (c.toNat / 16), Nat.digitChar (c.toNat % 16)]
  else [c]

def quote (s : List Char) : List Char := '"' :: (s.flatMap quoteChar ++ ['"'])

/-! ## Reading -/

/-- Passes over the blanks between the parts of a JSON text. -/
def skipBlanks (s : List Char) : List Char := s.dropWhile Text.isMarkupBlank

/-- Reads the four hexadecimal digits of an escape. -/
def readUnit : List Char → Answer Nat
  | a :: b :: c :: d :: rest =>
    match Text.readDigits 16 [a, b, c, d] with
    | some n => .ok (n, rest)
    | none => .error .malformed
  | short => if Text.byteCount short < 4 then .error .ended else .error .malformed

/-- The character that follows a backslash, for the escapes of one character. -/
def simpleEscape? (c : Char) : Option Char :=
  if c = '"' then some '"'
  else if c = '\\' then some '\\'
  else if c = '/' then some '/'
  else if c = 'b' then some '\x08'
  else if c = 'f' then some '\x0c'
  else if c = 'n' then some '\n'
  else if c = 'r' then some '\r'
  else if c = 't' then some '\t'
  else none

/-- Reads the second half of a character that is written as a pair of surrogates. -/
def readLowSurrogate (high : Nat) : List Char → Answer Char
  | [] => .error .ended
  | ['\\'] => .error .ended
  | '\\' :: 'u' :: rest => (readUnit rest).bind fun (low, after) =>
    if 0xDC00 ≤ low ∧ low ≤ 0xDFFF then
      .ok (Char.ofNat (0x10000 + (high - 0xD800) * 0x400 + (low - 0xDC00)), after)
    else .error .malformed
  | _ => .error .malformed

/-- Reads an escape after its backslash. -/
def readEscape : List Char → Answer Char
  | [] => .error .ended
  | 'u' :: rest => (readUnit rest).bind fun (n, after) =>
    if 0xDC00 ≤ n ∧ n ≤ 0xDFFF then .error .malformed
    else if 0xD800 ≤ n ∧ n ≤ 0xDBFF then readLowSurrogate n after
    else .ok (Char.ofNat n, after)
  | c :: rest =>
    match simpleEscape? c with
    | some x => .ok (x, rest)
    | none => .error .malformed

theorem length_readUnit {s rest : List Char} {n : Nat} (h : readUnit s = .ok (n, rest)) :
    rest.length ≤ s.length := by
  unfold readUnit at h
  split at h
  · split at h
    · simp only [Except.ok.injEq, Prod.mk.injEq] at h
      obtain ⟨-, rfl⟩ := h
      simp only [List.length_cons]; omega
    · cases h
  · split at h <;> cases h

theorem length_readLowSurrogate {high : Nat} {s rest : List Char} {c : Char}
    (h : readLowSurrogate high s = .ok (c, rest)) : rest.length ≤ s.length := by
  unfold readLowSurrogate at h
  split at h
  · cases h
  · cases h
  · next r =>
    cases hu : readUnit r with
    | error e => rw [hu] at h; cases h
    | ok p =>
      obtain ⟨low, after⟩ := p
      rw [hu] at h
      have := length_readUnit hu
      simp only [Except.bind] at h
      split at h
      · simp only [Except.ok.injEq, Prod.mk.injEq] at h
        obtain ⟨-, rfl⟩ := h
        simp only [List.length_cons]; omega
      · cases h
  · cases h

/-- An escape leaves no more than it was read from. -/
theorem length_readEscape {s rest : List Char} {c : Char} (h : readEscape s = .ok (c, rest)) :
    rest.length ≤ s.length := by
  unfold readEscape at h
  split at h
  · cases h
  · next r =>
    cases hu : readUnit r with
    | error e => rw [hu] at h; cases h
    | ok p =>
      obtain ⟨n, after⟩ := p
      rw [hu] at h
      have := length_readUnit hu
      simp only [Except.bind] at h
      split at h
      · cases h
      split at h
      · have := length_readLowSurrogate h
        simp only [List.length_cons]; omega
      · simp only [Except.ok.injEq, Prod.mk.injEq] at h
        obtain ⟨-, rfl⟩ := h
        simp only [List.length_cons]; omega
  · split at h
    · simp only [Except.ok.injEq, Prod.mk.injEq] at h
      obtain ⟨-, rfl⟩ := h
      simp
    · cases h

/-- Reads a text after its opening quote. -/
def readText : List Char → Answer (List Char)
  | [] => .error .ended
  | c :: rest =>
    if c = '"' then .ok ([], rest)
    else if c = '\\' then
      match _h : readEscape rest with
      | .ok (x, after) => (readText after).map fun (s, left) => (x :: s, left)
      | .error e => .error e
    else if c.toNat < 0x20 then .error .malformed
    else (readText rest).map fun (s, left) => (c :: s, left)
termination_by s => s.length
decreasing_by
  · have := length_readEscape _h
    simp only [List.length_cons]; omega
  · simp

/-- Passes over a text after its opening quote, without asking which characters its escapes
denote. -/
def skipText : List Char → Except Fault (List Char)
  | [] => .error .ended
  | c :: rest =>
    if c = '"' then .ok rest
    else if c = '\\' then
      match rest with
      | [] => .error .ended
      | 'u' :: after =>
        match _h : readUnit after with
        | .ok (_, left) => skipText left
        | .error e => .error e
      | x :: after => if (simpleEscape? x).isSome then skipText after else .error .malformed
    else if c.toNat < 0x20 then .error .malformed
    else skipText rest
termination_by s => s.length
decreasing_by
  · have := length_readUnit _h
    simp only [List.length_cons]; omega
  · simp only [List.length_cons]; omega
  · simp

end XmlScript.Json
