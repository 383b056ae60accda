import XmlScript.Proofs.Cut
import XmlScript.Proofs.JsonValue
import XmlScript.Proofs.Literal
import XmlScript.Script.Json

/-!
# Scripts in JSON read back

The two layouts of a script differ in the blanks between the parts only, so there is one form of a
directive (`directiveForm`) with the blanks as a parameter, and both writers are cases of it. The
readers are followed part by part: arguments, pairs of fields, payloads (`readPayload_form`), whole
directives (`readDirective_form`), and from these, by induction, lists of them. What follows a part
is arbitrary, except that a number has to be told from what stands behind it.

The main statement is that both texts of a script are read as that script
(`ofJson_toJson_and_lines`).
-/

namespace XmlScript.Script

open Json (IsGap EndsNumber)

/-! ## Both layouts -/

/-- The blanks of a layout: after a colon, and where a line of some depth begins. -/
structure Gaps where
  colon : List Char
  line : Nat → List Char

/-- A layout puts nothing but blanks between the parts. -/
structure Gaps.Blank (g : Gaps) : Prop where
  colon : IsGap g.colon
  line : ∀ depth, IsGap (g.line depth)

/-- No blanks at all. -/
def compact : Gaps := ⟨[], fun _ => []⟩

/-- A line for every part. -/
def lines : Gaps := ⟨[' '], jsonLine⟩

theorem blank_compact : compact.Blank := ⟨Json.isGap_nil, fun _ => Json.isGap_nil⟩

theorem blank_lines : lines.Blank where
  colon c hc := by
    rw [List.mem_singleton.1 hc]
    decide
  line depth c hc := by
    rcases List.mem_cons.1 hc with rfl | hc
    · decide
    · rw [List.eq_of_mem_replicate hc]
      decide

/-- A name and a value of an object, before something else. -/
def fieldForm (g : Gaps) (name : String) (value rest : List Char) : List Char :=
  Json.quote name.toList ++ ':' :: (g.colon ++ (value ++ rest))

/-- Two fields of an object and its end, after its brace. -/
def pairForm (g : Gaps) (first second : String × String) (rest : List Char) : List Char :=
  g.line 3 ++ fieldForm g first.1 (Json.quote first.2.toList)
    (',' :: (g.line 3 ++ fieldForm g second.1 (Json.quote second.2.toList)
      (g.line 2 ++ '\x7d' :: rest)))

/-- A payload before something else; nothing for none. -/
def payloadForm (g : Gaps) (rest : List Char) : Payload → List Char
  | .unit => rest
  | .text s => Json.quote s.toList ++ rest
  | .number n => Nat.toDigits 10 n ++ rest
  | .fields a b => '\x7b' :: pairForm g a b rest

/-- A directive before something else. -/
def directiveForm (g : Gaps) (d : Directive) (rest : List Char) : List Char :=
  if Directive.payload d = .unit then Json.quote d.keyword.variant.toList ++ rest
  else '\x7b' :: (g.line 2 ++ (Json.quote d.keyword.variant.toList ++ ':' :: (g.colon ++
    payloadForm g (g.line 1 ++ '\x7d' :: rest) (Directive.payload d))))

theorem directiveJson_append (d : Directive) (rest : List Char) :
    directiveJson d ++ rest = directiveForm compact d rest := by
  unfold directiveJson directiveForm
  cases h : Directive.payload d <;>
    simp [jsonField, payloadForm, pairForm, fieldForm, compact]

theorem directiveJsonLines_append (d : Directive) (rest : List Char) :
    directiveJsonLines d ++ rest = directiveForm lines d rest := by
  unfold directiveJsonLines directiveForm
  cases h : Directive.payload d <;>
    simp [jsonField, payloadForm, pairForm, fieldForm, lines]

variable {g : Gaps} {rest : List Char}

/-- A directive begins with a quote or a brace. -/
theorem directiveForm_eq_cons (g : Gaps) (d : Directive) (rest : List Char) :
    ∃ c t, directiveForm g d rest = c :: t ∧ (c = '"' ∨ c = '\x7b') := by
  unfold directiveForm
  split
  next => exact ⟨_, _, Json.quote_append _ _, Or.inl rfl⟩
  next => exact ⟨_, _, rfl, Or.inr rfl⟩

/-! ## Arguments -/

theorem readArg_quote {gap : List Char} (h : IsGap gap) (a : Arg) (rest : List Char) :
    readArg (gap ++ (Json.quote a.raw.toList ++ rest)) = .ok (a, rest) := by
  have harg : Arg.ofText (String.ofList a.raw.toList) = .ok a := by
    rw [String.ofList_toList]
    exact Arg.ofText_eq_ok_iff.2 rfl
  unfold readArg
  rw [Json.expectText_quote h]
  simp only [Except.bind, harg]

/-! ## Fields -/

theorem skipColon_cons (s : List Char) : Json.skipColon (':' :: s) = .ok s := by
  unfold Json.skipColon
  rw [Json.skipBlanks_cons (by decide)]
  rfl

theorem closeObject_gap {gap : List Char} (h : IsGap gap) (s : List Char) :
    Json.closeObject (gap ++ '\x7d' :: s) = .ok s := by
  unfold Json.closeObject
  rw [Json.skipBlanks_gap h (by decide)]
  rfl

/-- The key of the first field of an object. -/
theorem nextKey?_first {gap : List Char} (h : IsGap gap) (s rest : List Char) :
    Json.nextKey? true (gap ++ (Json.quote s ++ rest)) =
      .ok (some (s.flatMap Json.quoteChar ++ '"' :: rest)) := by
  unfold Json.nextKey?
  rw [Json.quote_append, Json.skipBlanks_gap h (by decide)]
  rfl

/-- The key of a field after a comma. -/
theorem nextKey?_next {gap : List Char} (h : IsGap gap) (s rest : List Char) :
    Json.nextKey? false (',' :: (gap ++ (Json.quote s ++ rest))) =
      .ok (some (s.flatMap Json.quoteChar ++ '"' :: rest)) := by
  unfold Json.nextKey?
  rw [Json.skipBlanks_cons (by decide), Json.quote_append]
  show (if false = true then _ else if ',' = ',' then _ else _) = _
  rw [if_neg Bool.false_ne_true, if_pos rfl, Json.skipBlanks_gap h (by decide)]
  rfl

theorem nextKey?_end {gap : List Char} (h : IsGap gap) (s : List Char) (isFirst : Bool) :
    Json.nextKey? isFirst (gap ++ '\x7d' :: s) = .ok none := by
  unfold Json.nextKey?
  rw [Json.skipBlanks_gap h (by decide)]
  rfl

section

variable {first second : String} {a b : Arg} {steps : Nat}

theorem readPairFields_first (hg : g.Blank) :
    readPairFields first second (steps + 1) true none none
        (g.line 3 ++ fieldForm g first (Json.quote a.raw.toList) rest) =
      readPairFields first second steps false (some a) none rest := by
  unfold fieldForm
  rw [readPairFields]
  · rw [nextKey?_first (hg.line 3)]
    simp only [Except.bind, Json.readText_flatMap, skipColon_cons, readArg_quote hg.colon, if_true]
    rfl
  · intro _ _ _ h
    cases h

theorem readPairFields_second (hg : g.Blank) (hne : first ≠ second) :
    readPairFields first second (steps + 1) false (some a) none
        (',' :: (g.line 3 ++ fieldForm g second (Json.quote b.raw.toList) rest)) =
      readPairFields first second steps false (some a) (some b) rest := by
  have hkey : second.toList ≠ first.toList := fun he => hne (String.toList_inj.1 he).symm
  unfold fieldForm
  rw [readPairFields]
  · rw [nextKey?_next (hg.line 3)]
    simp only [Except.bind, Json.readText_flatMap, skipColon_cons, readArg_quote hg.colon,
      if_neg hkey, if_true]
    rfl
  · intro _ _ _ h
    cases h

theorem readPairFields_end (hg : g.Blank) :
    readPairFields first second (steps + 1) false (some a) (some b)
      (g.line 2 ++ '\x7d' :: rest) = .ok ((a, b), rest) := by
  rw [readPairFields, nextKey?_end (hg.line 2)]
  simp only [Except.bind, closeObject_gap (hg.line 2)]
  rfl

/-- Two fields are read in three steps; the text has more characters than that. -/
theorem readPairFields_form (hg : g.Blank) (hne : first ≠ second) (hs : 3 ≤ steps) :
    readPairFields first second steps true none none
      (pairForm g (first, a.raw) (second, b.raw) rest) = .ok ((a, b), rest) := by
  obtain ⟨k, rfl⟩ := Nat.exists_eq_add_of_le' hs
  unfold pairForm
  rw [readPairFields_first hg, readPairFields_second hg hne, readPairFields_end hg]

theorem readPair_form {gap : List Char} (hg : g.Blank) (h : IsGap gap) (hne : first ≠ second) :
    readPair first second (gap ++ '\x7b' :: pairForm g (first, a.raw) (second, b.raw) rest) =
      .ok ((a, b), rest) := by
  have hlength : 3 ≤ (pairForm g (first, a.raw) (second, b.raw) rest).length + 1 := by
    unfold pairForm fieldForm Json.quote
    simp only [List.length_append, List.length_cons]
    omega
  unfold readPair
  rw [Json.skipBlanks_gap h (by decide)]
  exact readPairFields_form hg hne hlength

end

/-! ## Payloads -/

theorem endsNumber_gap {gap : List Char} (h : IsGap gap) (s : List Char) :
    EndsNumber (gap ++ '\x7d' :: s) := by
  cases gap with
  | nil => exact ⟨_, _, rfl, by decide, by decide, by decide, by decide⟩
  | cons c gap =>
    have hc := h c (List.mem_cons_self ..)
    simp only [Text.isMarkupBlank, Bool.or_eq_true, beq_iff_eq] at hc
    refine ⟨c, _, rfl, ?_⟩
    rcases hc with ((rfl | rfl) | rfl) | rfl <;> decide

/-- What is written of a payload is read as the directive that has it. -/
theorem readPayload_form (hg : g.Blank) (d : Directive) (hd : Directive.payload d ≠ .unit)
    (hr : EndsNumber rest) :
    readPayload d.keyword (g.colon ++ payloadForm g rest (Directive.payload d)) =
      .ok (d, rest) := by
  cases d with
  | remove | up | push | pop => exact absurd rfl hd
  | addElement a | ensureElement a | setText a | computeText a | addComment a | addCData a
  | setNamespace a | select a =>
    show (readArg (g.colon ++ (Json.quote a.raw.toList ++ rest))).bind _ = _
    rw [readArg_quote hg.colon]
    rfl
  | setAttribute a b | computeAttribute a b | addInstruction a b =>
    show (readPair _ _ (g.colon ++ '\x7b' :: pairForm g (_, a.raw) (_, b.raw) rest)).bind _ = _
    rw [readPair_form hg hg.colon (by decide)]
    rfl
  | expect count =>
    show (Json.expectUnsigned (g.colon ++ (Nat.toDigits 10 count.toNat ++ rest))).map _ = _
    rw [Json.expectUnsigned_toDigits hg.colon count.toNat_lt hr, UInt64.ofNat_toNat]
    rfl

/-! ## Directives -/

theorem readVariant_quote (k : Keyword) (rest : List Char) :
    readVariant (k.variant.toList.flatMap Json.quoteChar ++ '"' :: rest) = .ok (k, rest) := by
  unfold readVariant
  rw [Json.readText_flatMap]
  simp only [Except.bind, String.ofList_toList, Keyword.ofVariant?_variant]

theorem readVariantKey_quote {gap : List Char} (h : IsGap gap) (k : Keyword) (rest : List Char) :
    readVariantKey (gap ++ (Json.quote k.variant.toList ++ rest)) = .ok (k, rest) := by
  unfold readVariantKey
  rw [Json.quote_append, Json.skipBlanks_gap h (by decide)]
  exact readVariant_quote k rest

/-- What is written of a directive is read as that directive. -/
theorem readDirective_form (hg : g.Blank) (d : Directive) (rest : List Char) :
    readDirective (directiveForm g d rest) = .ok (d, rest) := by
  unfold directiveForm
  by_cases hd : Directive.payload d = .unit
  · rw [if_pos hd]
    unfold readDirective
    have hlayout : d.keyword.layout = .unit := by
      cases d <;> first | rfl | cases hd
    rw [Json.quote_append, Json.skipBlanks_cons (by decide)]
    simp only
    rw [readVariant_quote]
    simp only [Except.bind, if_pos hlayout]
    cases d <;> first | rfl | cases hd
  · rw [if_neg hd]
    unfold readDirective
    rw [Json.skipBlanks_cons (by decide)]
    simp only
    rw [readVariantKey_quote (hg.line 2)]
    simp only [Except.bind, skipColon_cons,
      readPayload_form hg d hd (endsNumber_gap (hg.line 1) rest), closeObject_gap (hg.line 1)]

/-! ## Lists of directives -/

theorem nextItem?_first {gap s t : List Char} {c : Char} (h : IsGap gap) (hs : s = c :: t)
    (hc : c = '"' ∨ c = '\x7b') : Json.nextItem? true (gap ++ s) = .ok (some s) := by
  unfold Json.nextItem?
  rcases hc with rfl | rfl <;> rw [hs, Json.skipBlanks_gap h (by decide)] <;> rfl

theorem nextItem?_next {gap s t : List Char} {c : Char} (h : IsGap gap) (hs : s = c :: t)
    (hc : c = '"' ∨ c = '\x7b') : Json.nextItem? false (',' :: (gap ++ s)) = .ok (some s) := by
  unfold Json.nextItem?
  rw [Json.skipBlanks_cons (by decide)]
  show (if false = true then _ else if ',' = ',' then _ else _) = _
  rw [if_neg Bool.false_ne_true, if_pos rfl]
  rcases hc with rfl | rfl <;> rw [hs, Json.skipBlanks_gap h (by decide)] <;> rfl

theorem nextItem?_end {gap : List Char} (h : IsGap gap) (s : List Char) (isFirst : Bool) :
    Json.nextItem? isFirst (gap ++ ']' :: s) = .ok none := by
  unfold Json.nextItem?
  rw [Json.skipBlanks_gap h (by decide)]
  rfl

theorem closeList_gap {gap : List Char} (h : IsGap gap) (s : List Char) :
    Json.closeList (gap ++ ']' :: s) = .ok s := by
  unfold Json.closeList
  rw [Json.skipBlanks_gap h (by decide)]
  rfl

/-- The directives of a list after the first one, and the end of the list. -/
def tailForm (g : Gaps) : Script → List Char
  | [] => g.line 0 ++ [']']
  | d :: rest => ',' :: (g.line 1 ++ directiveForm g d (tailForm g rest))

/-- A directive takes up room. -/
theorem length_lt_directiveForm (g : Gaps) (d : Directive) (rest : List Char) :
    rest.length < (directiveForm g d rest).length := by
  have hpayload : ∀ (s : List Char) (p : Payload), s.length ≤ (payloadForm g s p).length := by
    intro s p
    cases p with
    | unit => exact Nat.le_refl _
    | text _ | number _ =>
      simp only [payloadForm, List.length_append]
      omega
    | fields _ _ =>
      simp only [payloadForm, pairForm, fieldForm, List.length_append, List.length_cons]
      omega
  unfold directiveForm
  split
  next =>
    rw [Json.quote_append]
    simp only [List.length_append, List.length_cons]
    omega
  next =>
    have hle := hpayload (g.line 1 ++ '\x7d' :: rest) (Directive.payload d)
    simp only [List.length_append, List.length_cons] at hle ⊢
    omega

theorem readDirectives_tailForm (hg : g.Blank) (s : Script) {steps : Nat}
    (hs : (tailForm g s).length < steps) :
    readDirectives steps false (tailForm g s) = .ok (s, []) := by
  induction s generalizing steps with
  | nil =>
    obtain ⟨k, rfl⟩ := Nat.exists_eq_add_of_lt hs
    rw [tailForm, readDirectives, nextItem?_end (hg.line 0)]
    simp only [Except.bind, closeList_gap (hg.line 0)]
    rfl
  | cons d rest ih =>
    obtain ⟨k, rfl⟩ := Nat.exists_eq_add_of_lt hs
    obtain ⟨c, t, hform, hc⟩ := directiveForm_eq_cons g d (tailForm g rest)
    have hlt := length_lt_directiveForm g d (tailForm g rest)
    rw [tailForm, readDirectives, nextItem?_next (hg.line 1) hform hc]
    simp only [Except.bind, readDirective_form hg]
    rw [ih (by simp only [List.length_append, List.length_cons]; omega)]
    rfl

/-- A list of directives after its bracket. -/
def listForm (g : Gaps) : Script → List Char
  | [] => g.line 0 ++ [']']
  | d :: rest => g.line 1 ++ directiveForm g d (tailForm g rest)

theorem readDirectives_listForm (hg : g.Blank) (s : Script) :
    readDirectives ((listForm g s).length + 1) true (listForm g s) = .ok (s, []) := by
  cases s with
  | nil =>
    rw [listForm, readDirectives, nextItem?_end (hg.line 0)]
    simp only [Except.bind, closeList_gap (hg.line 0)]
    rfl
  | cons d rest =>
    obtain ⟨c, t, hform, hc⟩ := directiveForm_eq_cons g d (tailForm g rest)
    have hlt := length_lt_directiveForm g d (tailForm g rest)
    rw [listForm, readDirectives, nextItem?_first (hg.line 1) hform hc]
    simp only [Except.bind, readDirective_form hg]
    rw [readDirectives_tailForm hg rest (by simp only [List.length_append]; omega)]
    rfl

theorem ofJson_listForm (hg : g.Blank) (s : Script) :
    ofJson (String.ofList ('[' :: listForm g s)) = .ok s := by
  unfold ofJson
  rw [String.toList_ofList, Json.skipBlanks_cons (by decide)]
  simp only
  rw [readDirectives_listForm hg]
  rfl

/-! ## Scripts -/

/-- Items, each behind a comma, and the end of the list. -/
theorem flatMap_eq_tailForm {item : Directive → List Char}
    (h : ∀ d rest, item d ++ rest = g.line 1 ++ directiveForm g d rest) (s : Script) :
    (s.map item).flatMap ([','] ++ ·) ++ (g.line 0 ++ [']']) = tailForm g s := by
  induction s with
  | nil => rfl
  | cons d rest ih =>
    rw [List.map_cons, List.flatMap_cons, List.append_assoc, ih, List.append_assoc, h, tailForm]
    rfl

theorem toJson_eq (s : Script) : toJson s = String.ofList ('[' :: listForm compact s) := by
  unfold toJson
  cases s with
  | nil => rfl
  | cons d rest =>
    have htail := flatMap_eq_tailForm (g := compact) directiveJson_append rest
    rw [List.map_cons, Text.intercalate_cons, List.append_assoc]
    show String.ofList ('[' :: (directiveJson d ++ (_ ++ (compact.line 0 ++ [']'])))) = _
    rw [htail, directiveJson_append]
    rfl

theorem toJsonLines_eq (d : Directive) (rest : Script) :
    toJsonLines (d :: rest) = String.ofList ('[' :: listForm lines (d :: rest)) := by
  have hitem (d : Directive) (s : List Char) :
      (jsonLine 1 ++ directiveJsonLines d) ++ s = lines.line 1 ++ directiveForm lines d s := by
    rw [List.append_assoc, directiveJsonLines_append]
    rfl
  have htail := flatMap_eq_tailForm (g := lines) hitem rest
  unfold toJsonLines
  simp only
  rw [List.map_cons, Text.intercalate_cons, List.append_assoc, List.append_assoc]
  show String.ofList ('[' :: ((jsonLine 1 ++ directiveJsonLines d) ++
    (_ ++ (lines.line 0 ++ [']'])))) = _
  rw [htail, hitem]
  rfl

/-- Both texts of a script in JSON, on one line and on many, are read as that script. -/
theorem ofJson_toJson_and_lines (s : Script) :
    ofJson (toJson s) = .ok s ∧ ofJson (toJsonLines s) = .ok s := by
  constructor
  · rw [toJson_eq]
    exact ofJson_listForm blank_compact s
  · cases s with
    | nil => exact ofJson_listForm (g := compact) blank_compact []
    | cons d rest =>
      rw [toJsonLines_eq]
      exact ofJson_listForm blank_lines _

end XmlScript.Script
