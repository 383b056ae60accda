import XmlScript.Decimal
import XmlScript.Json.Text

/-!
# Reading JSON part by part

A script in JSON is read from left to right, and the first fault is the one reported, so the
parts are read one at a time: numbers, the brackets and commas of lists and objects, and whole
values of no interest (`skipValue`). The faults tell a text that stops too early from one that
is no JSON and from a value of the wrong form.
-/

namespace XmlScript.Json

/-! ## Numbers and literals -/

structure Number where
  negative : Bool
  whole : List Char
  /-- The digits after the point; none where there is no point. -/
  fraction? : Option (List Char)
  /-- The sign and the digits after the letter; none where there is no exponent. -/
  exponent? : Option (Bool × List Char)
  deriving DecidableEq, Repr

/-- The digits at the front of a text, of which there must be one. -/
def readSomeDigits (s : List Char) : Answer (List Char) :=
  match s with
  | [] => .error .ended
  | c :: _ =>
    if c.isDigit then .ok (s.takeWhile Char.isDigit, s.dropWhile Char.isDigit)
    else .error .malformed

/-- Reads the digits before the point. A zero stands alone. -/
def readWhole : List Char → Answer (List Char)
  | '0' :: c :: rest => if c.isDigit then .error .malformed else .ok (['0'], c :: rest)
  | s => readSomeDigits s

/-- Reads the point and the digits after it. -/
def readFraction : List Char → Answer (Option (List Char))
  | '.' :: rest => (readSomeDigits rest).map fun (digits, after) => (some digits, after)
  | s => .ok (none, s)

/-- Reads the letter of an exponent, its sign and its digits. -/
def readExponent : List Char → Answer (Option (Bool × List Char))
  | c :: rest =>
    if c = 'e' ∨ c = 'E' then
      let (negative, digits) :=
        match rest with
        | '-' :: r => (true, r)
        | '+' :: r => (false, r)
        | r => (false, r)
      (readSomeDigits digits).map fun (ds, after) => (some (negative, ds), after)
    else .ok (none, c :: rest)
  | [] => .ok (none, [])

/-- Reads a number whose sign has been passed. -/
def readNumber (negative : Bool) (s : List Char) : Answer Number :=
  (readWhole s).bind fun (whole, s₁) =>
  (readFraction s₁).bind fun (fraction?, s₂) =>
  (readExponent s₂).map fun (exponent?, s₃) => (⟨negative, whole, fraction?, exponent?⟩, s₃)

/-- Adds digits to the end of a whole number as long as it stays below 2^64, and the digits that
are left. -/
def extend (value : Nat) : List Char → Nat × List Char
  | [] => (value, [])
  | c :: rest =>
    let next := Decimal.digitsValue [c] + 10 * value
    if next < UInt64.size then extend next rest else (value, c :: rest)

/-- The size of a number as a whole number below 2^64 and a power of ten. Digits before the point
that do not fit only count, and those behind it are left out. -/
def Number.scaled (n : Number) : Nat × Int :=
  let fraction := n.fraction?.getD []
  let (whole, uncounted) := extend 0 n.whole
  let (significand, ignored) := extend whole fraction
  let places : Int := uncounted.length - (fraction.length - ignored.length : Nat)
  match n.exponent? with
  | some (true, digits) => (significand, places - Decimal.digitsValue digits)
  | some (false, digits) => (significand, places + Decimal.digitsValue digits)
  | none => (significand, places)

/-- Whether binary64 can hold a number: the rounded power of ten times the rounded whole number is
finite. A whole number below 2^64 is, and so is one that is divided by a power of ten. -/
def Number.isFinite (n : Number) : Bool :=
  let (significand, exponent) := n.scaled
  let size := (⟨false, significand, 0⟩ : Decimal).toFloat
  let scale := (⟨false, 1, exponent⟩ : Decimal).toFloat
  significand == 0 || exponent ≤ 0 || (exponent ≤ 308 && !(size * scale).isInf)

/-- The value of a number that is written as an unsigned whole number below 2^64. -/
def Number.unsigned? (n : Number) : Option UInt64 :=
  if n.negative ∨ n.fraction?.isSome ∨ n.exponent?.isSome then none
  else
    let value := Decimal.digitsValue n.whole
    if value < UInt64.size then some (UInt64.ofNat value) else none

/-- Reads a number whose sign has been passed, of a size that binary64 can hold. -/
def readFinite (negative : Bool) (s : List Char) : Answer Number :=
  (readNumber negative s).bind fun (n, rest) =>
    if n.isFinite then .ok (n, rest) else .error .malformed

/-- Passes over the rest of one of the three literal names. -/
def skipName : List Char → List Char → Except Fault (List Char)
  | [], s => .ok s
  | _ :: _, [] => .error .ended
  | c :: name, x :: rest => if x = c then skipName name rest else .error .malformed

/-! ## Lists and objects -/

/-- Where the next item of a list starts; none before the closing bracket. -/
def nextItem? (isFirst : Bool) (s : List Char) : Except Fault (Option (List Char)) :=
  match skipBlanks s with
  | [] => .error .ended
  | ']' :: _ => .ok none
  | c :: rest =>
    if isFirst then .ok (some (c :: rest))
    else if c = ',' then
      match skipBlanks rest with
      | [] => .error .ended
      | ']' :: _ => .error .malformed
      | after => .ok (some after)
    else .error .malformed

/-- Passes over the closing bracket of a list. -/
def closeList (s : List Char) : Except Fault (List Char) :=
  match skipBlanks s with
  | [] => .error .ended
  | ']' :: rest => .ok rest
  | _ => .error .malformed

/-- Where the next key of an object starts, its quote passed; none before the closing brace. -/
def nextKey? (isFirst : Bool) (s : List Char) : Except Fault (Option (List Char)) :=
  match skipBlanks s with
  | [] => .error .ended
  | '}' :: _ => .ok none
  | c :: rest =>
    if isFirst then if c = '"' then .ok (some rest) else .error .malformed
    else if c = ',' then
      match skipBlanks rest with
      | [] => .error .ended
      | '"' :: after => .ok (some after)
      | _ => .error .malformed
    else .error .malformed

/-- Passes over the closing brace of an object. -/
def closeObject (s : List Char) : Except Fault (List Char) :=
  match skipBlanks s with
  | [] => .error .ended
  | '}' :: rest => .ok rest
  | _ => .error .malformed

/-- Passes over the colon after a key. -/
def skipColon (s : List Char) : Except Fault (List Char) :=
  match skipBlanks s with
  | [] => .error .ended
  | ':' :: rest => .ok rest
  | _ => .error .malformed

/-! ## Values of no interest -/

/-- The two kinds of value that hold others. -/
inductive Frame where
  | list
  | object
  deriving DecidableEq, Repr

/-- Passes over a key and its colon. -/
def skipKey (s : List Char) : Except Fault (List Char) :=
  match skipBlanks s with
  | [] => .error .ended
  | '"' :: rest => (skipText rest).bind skipColon
  | _ => .error .malformed

/-- After a value inside `frames`: passes over the brackets that close and the comma before the
next value, with the frames that this value stands in; none when all frames are closed. -/
def skipClosers : List Frame → List Char → Answer (Option (List Frame))
  | [], s => .ok (none, s)
  | frame :: outer, s =>
    match frame, skipBlanks s with
    | _, [] => .error .ended
    | .list, ',' :: rest => .ok (some (frame :: outer), rest)
    | .list, ']' :: rest => skipClosers outer rest
    | .object, ',' :: rest => (skipKey rest).map fun after => (some (frame :: outer), after)
    | .object, '}' :: rest => skipClosers outer rest
    | _, _ => .error .malformed

/-- Passes over one value at the front, which may only open frames, and what closes after it.
A number that stops too early counts as no number. -/
def skipStep (frames : List Frame) (s : List Char) : Answer (Option (List Frame)) :=
  let name (letters : String) (rest : List Char) :=
    (skipName letters.toList rest).bind (skipClosers frames)
  let number (rest : List Char) :=
    match readNumber false rest with
    | .ok (_, after) => skipClosers frames after
    | .error _ => .error .malformed
  match skipBlanks s with
  | [] => .error .ended
  | 'n' :: rest => name "ull" rest
  | 't' :: rest => name "rue" rest
  | 'f' :: rest => name "alse" rest
  | '-' :: rest => number rest
  | '"' :: rest => (skipText rest).bind (skipClosers frames)
  | '[' :: rest =>
    match skipBlanks rest with
    | [] => .error .ended
    | ']' :: after => skipClosers frames after
    | after => .ok (some (.list :: frames), after)
  | '{' :: rest =>
    match skipBlanks rest with
    | [] => .error .ended
    | '}' :: after => skipClosers frames after
    | after => (skipKey after).map fun left => (some (.object :: frames), left)
  | c :: rest => if c.isDigit then number (c :: rest) else .error .malformed

/-- Passes over values inside `frames` until all are closed. Every step uses a character, so as
many steps as the text has characters are enough. -/
def skipFrames : Nat → List Frame → List Char → Except Fault (List Char)
  | 0, _, _ => .error .ended
  | steps + 1, frames, s =>
    match skipStep frames s with
    | .error e => .error e
    | .ok (none, rest) => .ok rest
    | .ok (some frames, rest) => skipFrames steps frames rest

def skipValue (s : List Char) : Except Fault (List Char) := skipFrames (s.length + 1) [] s

/-! ## Values of one form -/

/-- The fault of a value that has another form than the one asked for. The value is read as far
as it takes to see its form. -/
def mismatch (s : List Char) : Fault :=
  let seen {α : Type} : Except Fault α → Fault
    | .ok _ => .mismatched
    | .error e => e
  match s with
  | 'n' :: rest => seen (skipName "ull".toList rest)
  | 't' :: rest => seen (skipName "rue".toList rest)
  | 'f' :: rest => seen (skipName "alse".toList rest)
  | '-' :: rest => seen (readFinite true rest)
  | '"' :: rest => seen (readText rest)
  | '[' :: _ => .mismatched
  | '{' :: _ => .mismatched
  | c :: rest => if c.isDigit then seen (readFinite false (c :: rest)) else .malformed
  | [] => .ended

def expectText (s : List Char) : Answer (List Char) :=
  match skipBlanks s with
  | '"' :: rest => readText rest
  | other => .error (mismatch other)

/-- Reads `null`. -/
def expectNull (s : List Char) : Except Fault (List Char) :=
  match skipBlanks s with
  | 'n' :: rest => skipName "ull".toList rest
  | other => .error (mismatch other)

/-- Reads an unsigned whole number below 2^64. -/
def expectUnsigned (s : List Char) : Answer UInt64 :=
  let unsigned (answer : Answer Number) : Answer UInt64 :=
    answer.bind fun (n, rest) =>
      match n.unsigned? with
      | some value => .ok (value, rest)
      | none => .error .mismatched
  match skipBlanks s with
  | '-' :: rest => unsigned (readFinite true rest)
  | c :: rest =>
    if c.isDigit then unsigned (readFinite false (c :: rest)) else .error (mismatch (c :: rest))
  | [] => .error .ended

end XmlScript.Json
