import XmlScript.Literal
import XmlScript.Proofs.Token

/-!
# Escaped text reads back

`unescape` goes from left to right, so its value on a text that is put together follows from the
parts: a character that is no ampersand stands for itself (`unescape_cons_of_ne`), and an
ampersand up to the next semicolon for what `resolve` says (`unescape_amp`). From these
`unescape_escape` is an induction with one case for each way in which `escapeChar` writes a
character. What is escaped has neither quotes nor control characters in it
(`printable_of_mem_escape`), which is why a literal ends where it should: between quotes of either
kind it is one token, and stands for the text that was escaped (`scan_quoted_escape`).
-/

namespace XmlScript

open Text (cutAt)

/-! ## Cutting at one character -/

/-- A cut is made at the first place where the mark stands. -/
theorem Text.cutAt_append {m : Char} {a : List Char} (h : m ∉ a) (b : List Char) :
    cutAt [m] (a ++ m :: b) = some (a, b) := by
  induction a with
  | nil => simp [cutAt]
  | cons c rest ih =>
    have hc : m ≠ c := fun he => h (he ▸ List.mem_cons_self ..)
    have hr : m ∉ rest := fun hm => h (List.mem_cons_of_mem _ hm)
    rw [List.cons_append, cutAt, if_neg (by simp [hc]), ih hr]
    rfl

namespace Literal

/-! ## Unescaping, part by part -/

theorem unescape_nil : unescape [] = .ok [] := by rw [unescape]

theorem unescape_cons_of_ne {c : Char} (h : c ≠ '&') (rest : List Char) :
    unescape (c :: rest) = (unescape rest).map (c :: ·) := by
  rw [unescape, if_neg h]

/-- A reference stands for the character that it resolves to. -/
theorem unescape_amp {entity : List Char} (h : ';' ∉ entity) (rest : List Char) :
    unescape ('&' :: (entity ++ ';' :: rest)) =
      (resolve entity).bind fun x => (unescape rest).map (x :: ·) := by
  rw [unescape, if_pos rfl]
  split
  next h' =>
    rw [Text.cutAt_append h] at h'
    cases h'
  next h' =>
    rw [Text.cutAt_append h] at h'
    cases h'
    rfl

/-! ## References to control characters -/

theorem numbered?_toDigits {n : Nat} (h : n.isValidChar) :
    numbered? (Nat.toDigits 10 n) = some (Char.ofNat n) := by
  have hread : Text.readUnsigned 10 (Nat.toDigits 10 n) = some n :=
    Text.readUnsigned_ten_iff.2 (Text.isNumeral_toDigits n)
  unfold numbered?
  split
  -- the two marks of hexadecimal numerals are no digits
  next he =>
    have hx := Text.isDigit_of_mem_toDigits (he ▸ List.mem_cons_self ..)
    exact absurd hx (by decide)
  next he =>
    have hx := Text.isDigit_of_mem_toDigits (he ▸ List.mem_cons_self ..)
    exact absurd hx (by decide)
  next =>
    rw [hread, Option.bind_some, scalar?, if_pos h]

/-- The decimal reference to a character resolves to it. -/
theorem resolve_toDigits (c : Char) :
    resolve ('#' :: Nat.toDigits 10 c.toNat) = .ok c := by
  have hnamed : named? ('#' :: Nat.toDigits 10 c.toNat) = none := by
    simp [named?]
  have hnumber := numbered?_toDigits (n := c.toNat) c.valid
  rw [Char.ofNat_toNat] at hnumber
  simp only [resolve, hnamed, hnumber]

/-! ## The round trip -/

theorem semicolon_not_mem_toDigits (n : Nat) : ';' ∉ '#' :: Nat.toDigits 10 n := by
  intro h
  rcases List.mem_cons.mp h with he | hd
  · exact absurd he (by decide)
  · exact absurd (Text.isDigit_of_mem_toDigits hd) (by decide)

/-- A whole reference at the front of a text stands for its character. -/
theorem unescape_reference {e : List Char} {x : Char} (hs : ';' ∉ e) (hx : resolve e = .ok x)
    (rest : List Char) :
    unescape ('&' :: (e ++ [';']) ++ rest) = (unescape rest).map (x :: ·) := by
  rw [List.cons_append, List.append_assoc]
  show unescape ('&' :: (e ++ ';' :: rest)) = _
  rw [unescape_amp hs, hx]
  rfl

/-- What a character is written as stands for that character, whatever follows. -/
theorem unescape_escapeChar (c : Char) (rest : List Char) :
    unescape (escapeChar c ++ rest) = (unescape rest).map (c :: ·) := by
  -- one case a way of writing; the five names resolve by evaluation
  unfold escapeChar
  split
  next h => subst h; exact unescape_reference (e := "quot".toList) (by decide) (by rfl) rest
  split
  next h => subst h; exact unescape_reference (e := "apos".toList) (by decide) (by rfl) rest
  split
  next h => subst h; exact unescape_reference (e := "amp".toList) (by decide) (by rfl) rest
  split
  next h => subst h; exact unescape_reference (e := "lt".toList) (by decide) (by rfl) rest
  split
  next h => subst h; exact unescape_reference (e := "gt".toList) (by decide) (by rfl) rest
  split
  next => exact unescape_reference (semicolon_not_mem_toDigits c.toNat) (resolve_toDigits c) rest
  next hamp _ _ _ => exact unescape_cons_of_ne hamp rest

/-- A way of writing characters that stand for themselves whatever follows is taken back for every
text. -/
theorem unescape_flatMap {write : Char → List Char}
    (hwrite : ∀ c rest, unescape (write c ++ rest) = (unescape rest).map (c :: ·)) (s : List Char) :
    unescape (s.flatMap write) = .ok s := by
  induction s with
  | nil => exact unescape_nil
  | cons c rest ih =>
    rw [List.flatMap_cons, hwrite, ih]
    rfl

/-- Nothing is written only of nothing, since there is something to be read again. -/
theorem flatMap_eq_nil_iff {write : Char → List Char}
    (hwrite : ∀ c rest, unescape (write c ++ rest) = (unescape rest).map (c :: ·)) {s : List Char} :
    s.flatMap write = [] ↔ s = [] := by
  refine ⟨fun hnone => ?_, fun hs => by rw [hs, List.flatMap_nil]⟩
  have hread := unescape_flatMap hwrite s
  rw [hnone, unescape_nil, Except.ok.injEq] at hread
  exact hread.symm

/-- Unescaping takes back what escaping did, for every text. -/
theorem unescape_escape (s : List Char) : unescape (escape s) = .ok s :=
  unescape_flatMap unescape_escapeChar s

/-! ## What escaped text is made of -/

/-- Neither a quote nor a control character. -/
def IsPrintable (c : Char) : Prop := c ≠ '"' ∧ c ≠ '\'' ∧ 0x20 ≤ c.toNat

instance : DecidablePred IsPrintable := fun _ => inferInstanceAs (Decidable (_ ∧ _ ∧ _))

theorem isPrintable_of_isDigit {c : Char} (h : c.isDigit = true) : IsPrintable c := by
  have hn := Text.isDigit_iff_toNat.1 h
  exact ⟨Text.ne_of_class h (by decide), Text.ne_of_class h (by decide), by omega⟩

/-- Digits may appear in XML. -/
theorem isLegal_of_isDigit {c : Char} (h : c.isDigit = true) : isLegal c = true := by
  have hn := Text.isDigit_iff_toNat.1 h
  simp only [isLegal, Bool.not_eq_true', Bool.or_eq_false_iff, Bool.and_eq_false_iff,
    decide_eq_false_iff_not]
  omega

theorem printable_of_mem_escapeChar {c x : Char} (h : x ∈ escapeChar c) : IsPrintable x := by
  unfold escapeChar at h
  split at h
  next => exact Text.forall_mem_of_all (by decide) x h
  split at h
  next => exact Text.forall_mem_of_all (by decide) x h
  split at h
  next => exact Text.forall_mem_of_all (by decide) x h
  split at h
  next => exact Text.forall_mem_of_all (by decide) x h
  split at h
  next => exact Text.forall_mem_of_all (by decide) x h
  split at h
  next =>
    simp only [List.mem_cons, List.mem_append, List.not_mem_nil, or_false] at h
    rcases h with rfl | rfl | hd | rfl
    · decide
    · decide
    · exact isPrintable_of_isDigit (Text.isDigit_of_mem_toDigits hd)
    · decide
  next hq ha _ _ _ hn =>
    have : x = c := by simpa using h
    subst this
    exact ⟨hq, ha, by omega⟩

/-- Escaped text has neither quotes nor control characters in it. -/
theorem printable_of_mem_escape {s : List Char} {x : Char} (h : x ∈ escape s) : IsPrintable x := by
  obtain ⟨c, _, hx⟩ := List.mem_flatMap.mp h
  exact printable_of_mem_escapeChar hx

/-! ## Literals -/

/-- A literal stands for what is between its first and its last character. -/
theorem decode_quoted (p q : Char) (body : List Char) :
    decode (p :: (body ++ [q])) = unescape body := by
  cases body with
  | nil => rfl
  | cons c rest =>
    show unescape (c :: (rest ++ [q])).dropLast = unescape (c :: rest)
    rw [← List.cons_append, List.dropLast_concat]

/-- Escaped text between quotes of one kind spells a literal. -/
theorem spells_quoted {q : Char} (hq : q = '"' ∨ q = '\'') (s : List Char) :
    (Token.literal (String.ofList (q :: (escape s ++ [q])))).Spells (q :: (escape s ++ [q])) := by
  refine Token.Spells.literal hq fun hmem => ?_
  have hprintable := printable_of_mem_escape hmem
  rcases hq with rfl | rfl
  · exact hprintable.1 rfl
  · exact hprintable.2.1 rfl

theorem le_of_mem_quoted {q c : Char} {s : List Char} (hq : q = '"' ∨ q = '\'')
    (hc : c ∈ q :: (escape s ++ [q])) : 0x20 ≤ c.toNat := by
  have hquote : 0x20 ≤ q.toNat := by rcases hq with rfl | rfl <;> decide
  rcases List.mem_cons.mp hc with rfl | hc
  · exact hquote
  rcases List.mem_append.mp hc with hc | hc
  · exact (printable_of_mem_escape hc).2.2
  · rw [List.mem_singleton.1 hc]
    exact hquote

/-- A text that is escaped between quotes of either kind is one literal, from its first character to
its last. There are no control characters in it and no quotes inside, and it stands for the text. -/
theorem scan_quoted_escape {q : Char} (hq : q = '"' ∨ q = '\'') (s : List Char) :
    let quoted := q :: (escape s ++ [q])
    scan quoted = ⟨[⟨[], quoted, some (.literal (String.ofList quoted))⟩], []⟩ ∧
    (scan quoted).spans = [(0, Text.byteCount quoted)] ∧
    (∀ c ∈ quoted, 0x20 ≤ c.toNat) ∧ (∀ c ∈ escape s, c ≠ '"' ∧ c ≠ '\'') ∧
    decode quoted = .ok s := by
  intro quoted
  have hscan : scan quoted = ⟨[⟨[], quoted, some (.literal (String.ofList quoted))⟩], []⟩ := by
    have h := scan_of_spells (g := []) (by simp) (spells_quoted hq s)
      (show Token.EndsBefore _ [] from trivial)
    rw [List.append_nil, List.nil_append, scan_blank (g := []) (by simp)] at h
    exact h
  refine ⟨hscan, ?_, fun c hc => le_of_mem_quoted hq hc, fun c hc => ?_, ?_⟩
  · rw [hscan]
    simp [Lexing.spans, Lexing.spans.go, Text.byteCount]
  · have hprintable := printable_of_mem_escape hc
    exact ⟨hprintable.1, hprintable.2.1⟩
  · rw [decode_quoted, unescape_escape]

/-- A text with quotes, a reference and a line feed in it, between single quotes. -/
theorem scan_quoted_escape_single :
    ('\'' = '"' ∨ '\'' = '\'') ∧ escape "'&#9;\n\"".toList = "&apos;&amp;#9;&#10;&quot;".toList ∧
    (scan "'&apos;&amp;#9;&#10;&quot;'".toList).spans = [(0, 27)] ∧
    decode "'&apos;&amp;#9;&#10;&quot;'".toList = .ok "'&#9;\n\"".toList := by
  have hescape : escape "'&#9;\n\"".toList = "&apos;&amp;#9;&#10;&quot;".toList := by decide +kernel
  have h := scan_quoted_escape (Or.inr rfl : '\'' = '"' ∨ '\'' = '\'') "'&#9;\n\"".toList
  rw [hescape] at h
  exact ⟨Or.inr rfl, hescape, h.2.1, h.2.2.2.2⟩

end Literal

/-- An argument carries a text exactly when the text is its own. -/
theorem Arg.ofText_eq_ok_iff {s : String} {a : Arg} : Arg.ofText s = .ok a ↔ a.raw = s := by
  unfold Arg.ofText
  split
  next =>
    rw [Except.ok.injEq, Arg.ext_iff]
    exact eq_comm
  next e he =>
    refine iff_of_false nofun fun ha => ?_
    rw [← ha, Literal.check_eq_ok_iff.2 a.legal] at he
    cases he

end XmlScript
