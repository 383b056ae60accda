import XmlScript.Json.Reader
import XmlScript.Proofs.Cut
import XmlScript.Proofs.Numeral

/-!
# Values that read back

What is written of a text or of a number in JSON is read as that text or number, with any blanks
before it and whatever follows it. For texts that is one case for each way of writing a character
(`readText_quoteChar`), then induction on the text. A number is followed by something that cannot go
on with it (`EndsNumber`); its digits have no zero in front, and below 2^64 none of them is left out
where its size is looked at (`expectUnsigned_toDigits`).
-/

namespace XmlScript.Json

/-! ## Blanks -/

/-- Blanks alone, as a layout may put them between the parts of a JSON text. -/
def IsGap (gap : List Char) : Prop := ∀ c ∈ gap, Text.isMarkupBlank c = true

variable {gap : List Char} {c : Char} {s rest : List Char}

theorem isGap_nil : IsGap [] := List.forall_mem_nil _

theorem skipBlanks_append (h : IsGap gap) (s : List Char) : skipBlanks (gap ++ s) = skipBlanks s :=
  List.dropWhile_append_of_pos h

theorem skipBlanks_cons (hc : Text.isMarkupBlank c = false) (s : List Char) :
    skipBlanks (c :: s) = c :: s :=
  List.dropWhile_cons_of_neg (by rw [hc]; exact Bool.false_ne_true)

/-- The part after some blanks. -/
theorem skipBlanks_gap (h : IsGap gap) (hc : Text.isMarkupBlank c = false) (s : List Char) :
    skipBlanks (gap ++ c :: s) = c :: s := by
  rw [skipBlanks_append h, skipBlanks_cons hc]

/-! ## Texts -/

/-- A reader of texts goes on behind an escape. -/
theorem readText_escape {r after : List Char} {x : Char} (h : readEscape r = .ok (x, after)) :
    readText ('\\' :: r) = (readText after).map fun (s, left) => (x :: s, left) := by
  rw [readText, if_neg (by decide), if_pos rfl]
  split
  next h' =>
    rw [h] at h'
    cases h'
    rfl
  next h' =>
    rw [h] at h'
    cases h'

/-- The last two digits of the escape of a control character write its number. -/
theorem readDigits_controlDigits {n : Nat} (h : n < 0x20) :
    Text.readDigits 16 ['0', '0', Nat.digitChar (n / 16), Nat.digitChar (n % 16)] = some n := by
  revert n
  decide

theorem readEscape_control (hc : c.toNat < 0x20) (rest : List Char) :
    readEscape ('u' :: '0' :: '0' :: Nat.digitChar (c.toNat / 16) ::
      Nat.digitChar (c.toNat % 16) :: rest) = .ok (c, rest) := by
  have hunit : readUnit ('0' :: '0' :: Nat.digitChar (c.toNat / 16) ::
      Nat.digitChar (c.toNat % 16) :: rest) = .ok (c.toNat, rest) := by
    rw [readUnit, readDigits_controlDigits hc]
  unfold readEscape
  simp only [hunit, Except.bind]
  -- a control character is no half of a pair
  rw [if_neg (by omega), if_neg (by omega), Char.ofNat_toNat]

/-- What is written of a character is read as that character. -/
theorem readText_quoteChar (c : Char) (rest : List Char) :
    readText (quoteChar c ++ rest) = (readText rest).map fun (s, left) => (c :: s, left) := by
  unfold quoteChar
  split
  next h => subst h; exact readText_escape rfl
  next hquote =>
  split
  next h => subst h; exact readText_escape rfl
  next hslash =>
  split
  next h => subst h; exact readText_escape rfl
  split
  next h => subst h; exact readText_escape rfl
  split
  next h => subst h; exact readText_escape rfl
  split
  next h => subst h; exact readText_escape rfl
  split
  next h => subst h; exact readText_escape rfl
  split
  next hcontrol => exact readText_escape (readEscape_control hcontrol rest)
  next hplain =>
    show readText (c :: rest) = _
    rw [readText, if_neg hquote, if_neg hslash, if_neg hplain]

/-- What is written of a text is read as that text. -/
theorem readText_flatMap (s rest : List Char) :
    readText (s.flatMap quoteChar ++ '"' :: rest) = .ok (s, rest) := by
  induction s with
  | nil =>
    show readText ('"' :: rest) = _
    rw [readText, if_pos rfl]
  | cons c s ih =>
    rw [List.flatMap_cons, List.append_assoc, readText_quoteChar, ih]
    rfl

/-- A quoted text, as it is written before something else. -/
theorem quote_append (s rest : List Char) :
    quote s ++ rest = '"' :: (s.flatMap quoteChar ++ '"' :: rest) := by
  rw [quote, List.cons_append, List.append_assoc, List.singleton_append]

theorem expectText_quote (h : IsGap gap) (s rest : List Char) :
    expectText (gap ++ (quote s ++ rest)) = .ok (s, rest) := by
  unfold expectText
  rw [quote_append, skipBlanks_gap h (by decide)]
  exact readText_flatMap s rest

/-! ## Numbers -/

/-- Nothing that a number could go on with. -/
def EndsNumber (s : List Char) : Prop :=
  ∃ c rest, s = c :: rest ∧ c.isDigit = false ∧ c ≠ '.' ∧ c ≠ 'e' ∧ c ≠ 'E'

/-- No zero stands in front of the digits of a number but that of zero itself. -/
theorem toDigits_eq_zero_cons {n : Nat} (h : Nat.toDigits 10 n = '0' :: s) : s = [] := by
  induction n using Nat.strongRecOn generalizing s with
  | ind n ih =>
    rw [Nat.toDigits_eq_if (by decide)] at h
    split at h
    next => exact (List.cons.inj h).2.symm
    next hn =>
      -- the digits in front are those of a smaller number, which is not zero
      cases hfront : Nat.toDigits 10 (n / 10) with
      | nil => exact absurd hfront Nat.toDigits_ne_nil
      | cons c rest =>
        rw [hfront, List.cons_append] at h
        obtain ⟨rfl, -⟩ := List.cons.inj h
        have hrest := ih (n / 10) (by omega) hfront
        have hvalue : Nat.ofDigitChars 10 (Nat.toDigits 10 (n / 10)) 0 = n / 10 :=
          Nat.ofDigitChars_ten_toDigits
        rw [hfront, hrest, Nat.ofDigitChars_cons, Nat.ofDigitChars_nil] at hvalue
        have hzero : 10 * 0 + ('0'.toNat - '0'.toNat) = 0 := rfl
        omega

theorem readSomeDigits_append {digits : List Char} (hd : ∀ c ∈ digits, c.isDigit = true)
    (hne : digits ≠ []) (hr : EndsNumber rest) :
    readSomeDigits (digits ++ rest) = .ok (digits, rest) := by
  obtain ⟨x, after, rfl, hx, -⟩ := hr
  obtain ⟨c, more, rfl⟩ := List.exists_cons_of_ne_nil hne
  have hend : ∀ y ∈ (x :: after).head?, y.isDigit = false := fun y hy => by
    cases hy
    exact hx
  obtain ⟨htake, hdrop⟩ := Text.span_append hd hend
  unfold readSomeDigits
  rw [List.cons_append]
  simp only
  rw [if_pos (hd c (List.mem_cons_self ..)), ← List.cons_append, htake, hdrop]

theorem readWhole_toDigits (n : Nat) (hr : EndsNumber rest) :
    readWhole (Nat.toDigits 10 n ++ rest) = .ok (Nat.toDigits 10 n, rest) := by
  have hread := readSomeDigits_append (fun _ hc => Text.isDigit_of_mem_toDigits hc)
    (Nat.toDigits_ne_nil (n := n) (b := 10)) hr
  unfold readWhole
  split
  next c more he =>
    cases hdigits : Nat.toDigits 10 n with
    | nil => exact absurd hdigits Nat.toDigits_ne_nil
    | cons x digits =>
      rw [hdigits, List.cons_append] at he
      obtain ⟨hx, he⟩ := List.cons.inj he
      have hnil := toDigits_eq_zero_cons (hx ▸ hdigits)
      rw [hnil, List.nil_append] at he
      obtain ⟨y, after, hrest, hy, -⟩ := hr
      rw [he] at hrest
      rw [(List.cons.inj hrest).1, if_neg (by rw [hy]; exact Bool.false_ne_true), hx, hnil, he,
        (List.cons.inj hrest).1]
  next => exact hread

/-- The digits of a number, before something that ends it, are the whole of it. -/
theorem readNumber_toDigits (n : Nat) (hr : EndsNumber rest) :
    readNumber false (Nat.toDigits 10 n ++ rest) =
      .ok (⟨false, Nat.toDigits 10 n, none, none⟩, rest) := by
  obtain ⟨c, after, hrest, hdigit, hpoint, he, hE⟩ := id hr
  unfold readNumber
  rw [readWhole_toDigits n hr]
  have hfraction : readFraction rest = .ok (none, rest) := by
    rw [hrest]
    unfold readFraction
    split
    next h' => exact absurd (List.cons.inj h').1 hpoint
    next => rfl
  have hexponent : readExponent rest = .ok (none, rest) := by
    rw [hrest]
    show (if c = 'e' ∨ c = 'E' then _ else _) = _
    rw [if_neg (not_or.2 ⟨he, hE⟩)]
  simp only [Except.bind, hfraction, hexponent]
  rfl

theorem le_ofDigitChars (s : List Char) (v : Nat) : v ≤ Nat.ofDigitChars 10 s v := by
  induction s generalizing v with
  | nil => exact Nat.le_of_eq Nat.ofDigitChars_nil.symm
  | cons c rest ih =>
    rw [Nat.ofDigitChars_cons]
    have := ih (10 * v + (c.toNat - '0'.toNat))
    omega

theorem digitsValue_eq (hd : ∀ c ∈ s, c.isDigit = true) :
    Decimal.digitsValue s = Nat.ofDigitChars 10 s 0 := by
  rw [Decimal.digitsValue, Text.readDigitsFrom_ten hd]
  rfl

/-- Below 2^64 all digits fit. -/
theorem extend_eq {v : Nat} (hd : ∀ c ∈ s, c.isDigit = true)
    (hv : Nat.ofDigitChars 10 s v < UInt64.size) : extend v s = (Nat.ofDigitChars 10 s v, []) := by
  induction s generalizing v with
  | nil =>
    rw [extend, Nat.ofDigitChars_nil]
  | cons c rest ih =>
    have hone : Decimal.digitsValue [c] + 10 * v = 10 * v + (c.toNat - '0'.toNat) := by
      rw [digitsValue_eq fun x hx => hd x (by rw [List.mem_singleton.1 hx]; exact List.mem_cons_self ..),
        Nat.ofDigitChars_cons, Nat.ofDigitChars_nil]
      omega
    rw [Nat.ofDigitChars_cons] at hv ⊢
    have hle := le_ofDigitChars rest (10 * v + (c.toNat - '0'.toNat))
    rw [extend, hone, if_pos (Nat.lt_of_le_of_lt hle hv)]
    exact ih (fun x hx => hd x (List.mem_cons_of_mem _ hx)) hv

variable {n : Nat}

/-- A whole number below 2^64 is of a size that can be held. -/
theorem isFinite_toDigits (hn : n < UInt64.size) :
    (⟨false, Nat.toDigits 10 n, none, none⟩ : Number).isFinite = true := by
  have hextend : extend 0 (Nat.toDigits 10 n) = (n, []) := by
    have hvalue : Nat.ofDigitChars 10 (Nat.toDigits 10 n) 0 = n := Nat.ofDigitChars_ten_toDigits
    rw [extend_eq (fun _ hc => Text.isDigit_of_mem_toDigits hc) (by rw [hvalue]; exact hn), hvalue]
  have hscaled : (⟨false, Nat.toDigits 10 n, none, none⟩ : Number).scaled = (n, 0) := by
    unfold Number.scaled
    simp only [hextend, Option.getD_none, extend]
    rfl
  unfold Number.isFinite
  rw [hscaled]
  simp

theorem unsigned?_toDigits (hn : n < UInt64.size) :
    (⟨false, Nat.toDigits 10 n, none, none⟩ : Number).unsigned? = some (UInt64.ofNat n) := by
  have hvalue : Decimal.digitsValue (Nat.toDigits 10 n) = n := by
    rw [digitsValue_eq fun _ hc => Text.isDigit_of_mem_toDigits hc]
    exact Nat.ofDigitChars_ten_toDigits
  unfold Number.unsigned?
  simp only [hvalue]
  rw [if_neg (by simp), if_pos hn]

/-- The digits of a number below 2^64 are read as that number. -/
theorem expectUnsigned_toDigits (h : IsGap gap) (hn : n < UInt64.size) (hr : EndsNumber rest) :
    expectUnsigned (gap ++ (Nat.toDigits 10 n ++ rest)) = .ok (UInt64.ofNat n, rest) := by
  have hfinite : readFinite false (Nat.toDigits 10 n ++ rest) =
      .ok (⟨false, Nat.toDigits 10 n, none, none⟩, rest) := by
    unfold readFinite
    rw [readNumber_toDigits n hr]
    show (if Number.isFinite _ = true then _ else _) = _
    rw [if_pos (isFinite_toDigits hn)]
  obtain ⟨c, digits, hdigits⟩ := List.exists_cons_of_ne_nil (Nat.toDigits_ne_nil (n := n) (b := 10))
  have hc : c.isDigit = true :=
    Text.isDigit_of_mem_toDigits (n := n) (by rw [hdigits]; exact List.mem_cons_self ..)
  have hblank : Text.isMarkupBlank c = false := by
    have hrange := Text.isDigit_iff_toNat.1 hc
    have hne (x : Char) (hx : x.isDigit = false) : c ≠ x := Text.ne_of_class hc hx
    simp [Text.isMarkupBlank, hne ' ' (by decide), hne '\t' (by decide), hne '\n' (by decide),
      hne '\r' (by decide)]
  rw [hdigits, List.cons_append] at hfinite ⊢
  unfold expectUnsigned
  simp only
  rw [skipBlanks_gap h hblank]
  split
  next he => exact absurd (List.cons.inj he).1 (Text.ne_of_class hc (by decide))
  next he =>
    obtain ⟨rfl, rfl⟩ := List.cons.inj he
    rw [if_pos hc, hfinite, ← hdigits]
    simp only [Except.bind, unsigned?_toDigits hn]
  next he => cases he

end XmlScript.Json
