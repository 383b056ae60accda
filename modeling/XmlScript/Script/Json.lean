import XmlScript.Json.Reader
import XmlScript.Script.Record

/-!
# Scripts in JSON

A script is a list of directives. A directive without arguments is its variant name; any other
is an object with the variant name as its only key. `Script.toJson` and `Script.toJsonLines`
write a script without and with line breaks; `Script.ofJson` reads both, and is free in the
order of named fields, in unknown ones, and in lists that stand for them.
-/

namespace XmlScript.Script

open Json (Answer Fault)

/-! ## Writing -/

/-- A name and a value of an object, with `gap` after the colon. -/
def jsonField (gap : List Char) (name : String) (value : List Char) : List Char :=
  Json.quote name.toList ++ ':' :: gap ++ value

/-- A line break and the blanks that open a line. -/
def jsonLine (depth : Nat) : List Char := '\n' :: List.replicate (2 * depth) ' '

def directiveJson (d : Directive) : List Char :=
  let variant := d.keyword.variant
  let tagged (value : List Char) := '\x7b' :: (jsonField [] variant value ++ ['\x7d'])
  match Directive.payload d with
  | .unit => Json.quote variant.toList
  | .text s => tagged (Json.quote s.toList)
  | .number n => tagged (Nat.toDigits 10 n)
  | .fields a b =>
    tagged ('\x7b' :: (jsonField [] a.1 (Json.quote a.2.toList) ++
      ',' :: jsonField [] b.1 (Json.quote b.2.toList) ++ ['\x7d']))

def toJson (s : Script) : String :=
  String.ofList ('[' :: (List.intercalate [','] (s.map directiveJson) ++ [']']))

/-- A directive over several lines, inside a list. -/
def directiveJsonLines (d : Directive) : List Char :=
  let variant := d.keyword.variant
  let tagged (value : List Char) :=
    '\x7b' :: (jsonLine 2 ++ jsonField [' '] variant value ++ jsonLine 1 ++ ['\x7d'])
  match Directive.payload d with
  | .unit => Json.quote variant.toList
  | .text s => tagged (Json.quote s.toList)
  | .number n => tagged (Nat.toDigits 10 n)
  | .fields a b =>
    tagged ('\x7b' :: (jsonLine 3 ++ jsonField [' '] a.1 (Json.quote a.2.toList) ++
      ',' :: jsonLine 3 ++ jsonField [' '] b.1 (Json.quote b.2.toList) ++ jsonLine 2 ++ ['\x7d']))

/-- A script over several lines, indented by two blanks a level. -/
def toJsonLines (s : Script) : String :=
  match s with
  | [] => "[]"
  | _ =>
    let items := s.map fun d => jsonLine 1 ++ directiveJsonLines d
    String.ofList ('[' :: (List.intercalate [','] items ++ jsonLine 0 ++ [']']))

/-! ## Reading -/

/-- Reads a text that an argument can carry. -/
def readArg (s : List Char) : Answer Arg :=
  (Json.expectText s).bind fun (raw, rest) =>
    match Arg.ofText (String.ofList raw) with
    | .ok a => .ok (a, rest)
    | .error _ => .error .mismatched

/-- Reads a list of exactly two arguments after its bracket. -/
def readPairList (s : List Char) : Answer (Arg × Arg) :=
  (Json.nextItem? true s).bind fun
  | none => .error .mismatched
  | some s₁ => (readArg s₁).bind fun (a, s₂) => (Json.nextItem? false s₂).bind fun
    | none => .error .mismatched
    | some s₃ => (readArg s₃).bind fun (b, s₄) =>
      (Json.closeList s₄).map fun rest => ((a, b), rest)

/-- Reads the fields of an object after its brace, where `a?` and `b?` have been read. Fields of
other names are passed over, and one that stands twice is refused. Every field uses characters,
so as many steps as the text has characters are enough. -/
def readPairFields (first second : String) :
    Nat → (isFirst : Bool) → (a? b? : Option Arg) → List Char → Answer (Arg × Arg)
  | 0, _, _, _, _ => .error .ended
  | steps + 1, isFirst, a?, b?, s =>
    (Json.nextKey? isFirst s).bind fun
    | none =>
      match a?, b? with
      | some a, some b => (Json.closeObject s).map fun rest => ((a, b), rest)
      | _, _ => .error .mismatched
    | some s₁ => (Json.readText s₁).bind fun (key, s₂) =>
      if key = first.toList then
        if a?.isSome then .error .mismatched
        else (Json.skipColon s₂).bind fun s₃ => (readArg s₃).bind fun (a, s₄) =>
          readPairFields first second steps false (some a) b? s₄
      else if key = second.toList then
        if b?.isSome then .error .mismatched
        else (Json.skipColon s₂).bind fun s₃ => (readArg s₃).bind fun (b, s₄) =>
          readPairFields first second steps false a? (some b) s₄
      else (Json.skipColon s₂).bind fun s₃ => (Json.skipValue s₃).bind fun s₄ =>
        readPairFields first second steps false a? b? s₄

/-- Reads two arguments that are written as an object or as a list. -/
def readPair (first second : String) (s : List Char) : Answer (Arg × Arg) :=
  match Json.skipBlanks s with
  | '[' :: rest => readPairList rest
  | '\x7b' :: rest => readPairFields first second (rest.length + 1) true none none rest
  | other => .error (Json.mismatch other)

/-- The directive of a keyword with arguments in the number it takes. -/
def ofArguments (k : Keyword) (arguments : List Arg) (rest : List Char) : Answer Directive :=
  match Directive.ofArguments k arguments with
  | .ok d => .ok (d, rest)
  | .error _ => .error .mismatched

def readPayload (k : Keyword) (s : List Char) : Answer Directive :=
  match k.layout with
  | .unit => (Json.expectNull s).bind fun rest => ofArguments k [] rest
  | .text => (readArg s).bind fun (a, rest) => ofArguments k [a] rest
  | .number => (Json.expectUnsigned s).map fun (n, rest) => (.expect n, rest)
  | .pair first second =>
    (readPair first second s).bind fun ((a, b), rest) => ofArguments k [a, b] rest

/-- Reads a variant name whose opening quote has been passed. -/
def readVariant (s : List Char) : Answer Keyword :=
  (Json.readText s).bind fun (name, rest) =>
    match Keyword.ofVariant? (String.ofList name) with
    | some k => .ok (k, rest)
    | none => .error .mismatched

/-- Reads the variant name that is the key of an object. What is no text cannot be a key. -/
def readVariantKey (s : List Char) : Answer Keyword :=
  match Json.skipBlanks s with
  | [] => .error .ended
  | '"' :: rest => readVariant rest
  | _ => .error .malformed

def readDirective (s : List Char) : Answer Directive :=
  match Json.skipBlanks s with
  | [] => .error .ended
  | '"' :: rest => (readVariant rest).bind fun (k, after) =>
    if k.layout = .unit then ofArguments k [] after else .error .mismatched
  | '\x7b' :: rest => (readVariantKey rest).bind fun (k, s₁) =>
    (Json.skipColon s₁).bind fun s₂ => (readPayload k s₂).bind fun (d, s₃) =>
      match Json.closeObject s₃ with
      | .ok after => .ok (d, after)
      | .error e => .error e
  | _ => .error .malformed

/-- Reads the directives of a list up to its closing bracket. Every directive uses characters, so
as many steps as the text has characters are enough. -/
def readDirectives : Nat → (isFirst : Bool) → List Char → Answer Script
  | 0, _, _ => .error .ended
  | steps + 1, isFirst, s =>
    (Json.nextItem? isFirst s).bind fun
    | none => (Json.closeList s).map fun rest => ([], rest)
    | some item => (readDirective item).bind fun (d, after) =>
      (readDirectives steps false after).map fun (ds, rest) => (d :: ds, rest)

def ofJson (text : String) : Except Fault Script :=
  match Json.skipBlanks text.toList with
  | '[' :: rest => (readDirectives (rest.length + 1) true rest).bind fun (s, after) =>
    if Json.skipBlanks after = [] then .ok s else .error .malformed
  | other => .error (Json.mismatch other)

end XmlScript.Script
