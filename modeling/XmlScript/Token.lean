import XmlScript.Text.Blank
import XmlScript.Text.Bytes

/-!
# Tokens of a script

`scan` cuts the source of a script into lexemes: each is one token, or one fault, together
with the blanks before it, so that nothing of the source is lost (`source_scan`). The longest
token wins everywhere. A fault is a single character that starts no token, a run of digits
without a colon, or a quote that is never closed up to the end of the source; scanning goes on
after it.
-/

namespace XmlScript

inductive Token where
  | semicolon
  | comma
  /-- A label such as `12:`, which numbers a statement for the reader. -/
  | ordinal
  /-- A literal with its quotes and entities as they are written. -/
  | literal (quoted : String)
  /-- What may be a keyword. -/
  | word (text : String)
  deriving DecidableEq, Repr

namespace Token

def describe : Token → String
  | semicolon => "';'"
  | comma => "','"
  | ordinal => "ordinal"
  | literal quoted => "literal " ++ quoted
  | word text => "'" ++ text ++ "'"

/-- The blanks between tokens: the four of markup and the form feed. -/
def isGap (c : Char) : Bool :=
  c == ' ' || c == '\t' || c == '\r' || c == '\n' || c == '\x0c'

/-- Whether a character can start a word. -/
def isWordStart (c : Char) : Bool := c.isAlpha || c == '_'

/-- Whether a character can continue a word. -/
def isWordPart (c : Char) : Bool := c.isAlphanum || c == '_'

end Token

/-- A token, or a fault, as it stands in a source. -/
structure Lexeme where
  gap : List Char
  text : List Char
  /-- The token that they form; none for a fault. -/
  token? : Option Token
  deriving DecidableEq, Repr

namespace Lexeme

/-- The part of the source that a lexeme covers, blanks included. -/
def source (x : Lexeme) : List Char := x.gap ++ x.text

/-- Whether a lexeme is the end of a statement. -/
def isSemicolon (x : Lexeme) : Bool := x.token? == some .semicolon

/-- The lexeme at the start of a text that begins with `c`, and what follows it. -/
def read (gap : List Char) (c : Char) (rest : List Char) : Lexeme × List Char :=
  if c = ';' then (⟨gap, [c], some .semicolon⟩, rest)
  else if c = ',' then (⟨gap, [c], some .comma⟩, rest)
  else if c.isDigit then
    let digits := c :: rest.takeWhile Char.isDigit
    match rest.dropWhile Char.isDigit with
    | ':' :: after => (⟨gap, digits ++ [':'], some .ordinal⟩, after)
    -- digits without a colon are no token
    | after => (⟨gap, digits, none⟩, after)
  else if c = '"' ∨ c = '\'' then
    let body := rest.takeWhile (· ≠ c)
    match rest.dropWhile (· ≠ c) with
    | quote :: after =>
      let text := c :: (body ++ [quote])
      (⟨gap, text, some (.literal (String.ofList text))⟩, after)
    -- an open quote takes the rest of the source with it
    | [] => (⟨gap, c :: body, none⟩, [])
  else if Token.isWordStart c then
    let text := c :: rest.takeWhile Token.isWordPart
    (⟨gap, text, some (.word (String.ofList text))⟩, rest.dropWhile Token.isWordPart)
  else (⟨gap, [c], none⟩, rest)

/-- A lexeme and what follows it make up the text that it was read from. -/
theorem source_read (gap : List Char) (c : Char) (rest : List Char) :
    (read gap c rest).1.source ++ (read gap c rest).2 = gap ++ c :: rest := by
  unfold read source
  have hd := List.takeWhile_append_dropWhile (p := Char.isDigit) (l := rest)
  have hq := List.takeWhile_append_dropWhile (p := fun x => decide (x ≠ c)) (l := rest)
  have hw := List.takeWhile_append_dropWhile (p := Token.isWordPart) (l := rest)
  split
  · simp
  split
  · simp
  split
  · split
    next after h =>
      rw [h] at hd
      refine Eq.trans ?_ (congrArg (fun r => gap ++ c :: r) hd)
      simp
    next =>
      refine Eq.trans ?_ (congrArg (fun r => gap ++ c :: r) hd)
      simp
  split
  · split
    next quote after h =>
      rw [h] at hq
      refine Eq.trans ?_ (congrArg (fun r => gap ++ c :: r) hq)
      simp
    next h =>
      rw [h] at hq
      refine Eq.trans ?_ (congrArg (fun r => gap ++ c :: r) hq)
      simp
  split
  · refine Eq.trans ?_ (congrArg (fun r => gap ++ c :: r) hw)
    simp
  · simp

/-- Every lexeme has characters of its own. -/
theorem text_read_ne_nil (gap : List Char) (c : Char) (rest : List Char) :
    (read gap c rest).1.text ≠ [] := by
  unfold read
  repeat' split
  all_goals simp

/-- The blanks of a lexeme are those that it was read with. -/
theorem gap_read (gap : List Char) (c : Char) (rest : List Char) :
    (read gap c rest).1.gap = gap := by
  unfold read
  repeat' split
  all_goals rfl

theorem length_read_lt (gap : List Char) (c : Char) (rest : List Char) :
    (read gap c rest).2.length < (c :: rest).length := by
  have h := congrArg List.length (source_read gap c rest)
  have ht := List.length_pos_iff.2 (text_read_ne_nil gap c rest)
  have hg := gap_read gap c rest
  simp only [source, List.length_append, hg] at h ⊢
  omega

end Lexeme

/-- A source cut into lexemes, with the blanks after the last of them. -/
structure Lexing where
  lexemes : List Lexeme
  tail : List Char
  deriving DecidableEq, Repr

namespace Lexing

def source (l : Lexing) : List Char := l.lexemes.flatMap Lexeme.source ++ l.tail

/-- The byte offsets in UTF-8 between which each lexeme stands, its blanks left out. -/
def spans (l : Lexing) : List (Nat × Nat) :=
  let rec go (offset : Nat) : List Lexeme → List (Nat × Nat)
    | [] => []
    | x :: rest =>
      let start := offset + Text.byteCount x.gap
      let stop := start + Text.byteCount x.text
      (start, stop) :: go stop rest
  go 0 l.lexemes

end Lexing

def scan (s : List Char) : Lexing :=
  match _h : s.dropWhile Token.isGap with
  | [] => ⟨[], s⟩
  | c :: rest =>
    let x := Lexeme.read (s.takeWhile Token.isGap) c rest
    let l := scan x.2
    ⟨x.1 :: l.lexemes, l.tail⟩
termination_by s.length
decreasing_by
  have h := Lexeme.length_read_lt (s.takeWhile Token.isGap) c rest
  have h' := (List.dropWhile_sublist Token.isGap (l := s)).length_le
  rw [_h] at h'
  omega

/-- Scanning loses nothing: the lexemes and the last blanks make up the source. -/
theorem source_scan (s : List Char) : (scan s).source = s := by
  fun_induction scan s with
  | case1 s h => simp [Lexing.source]
  | case2 s c rest h x l ih =>
    have hs := Lexeme.source_read (s.takeWhile Token.isGap) c rest
    rw [← h, List.takeWhile_append_dropWhile] at hs
    rw [← hs]
    simpa [Lexing.source, x] using ih

end XmlScript
