import XmlScript.Text.Numeral

/-!
# Decimal numerals

`IsNumeral s n` says without any reading what a decimal numeral is: one plus sign at most and
then ASCII digits that write `n`. `readUnsigned_ten_iff` is that `readUnsigned` at base ten
accepts these texts and no others, and gives each its number; `isNumeral_toDigits` is that the
digits of a number are a numeral of it.

`IsNumeralIn base s n` says the same for every base up to sixteen, where letters are digits too, and
`readUnsigned_iff` is what `readUnsigned_ten_iff` is for base ten.
-/

namespace XmlScript.Text

/-- A text of at least one ASCII digit, which a plus sign may precede, and the number that its
digits write. -/
def IsNumeral (s : List Char) (n : Nat) : Prop :=
  ∃ digits : List Char, (s = digits ∨ s = '+' :: digits) ∧ digits ≠ [] ∧
    (∀ c ∈ digits, c.isDigit = true) ∧ Nat.ofDigitChars 10 digits 0 = n

/-- All characters of a given text are of a kind that can be tested. -/
theorem forall_mem_of_all {p : Char → Prop} [DecidablePred p] {s : List Char}
    (h : s.all (fun c => decide (p c)) = true) : ∀ c ∈ s, p c := by
  intro c hc
  exact of_decide_eq_true (List.all_eq_true.1 h c hc)

/-- A character of a class is none of those outside it. -/
theorem ne_of_class {p : Char → Bool} {c x : Char} (hc : p c = true) (hx : p x = false) :
    c ≠ x := by
  intro h
  rw [h, hx] at hc
  cases hc

/-! ## Digits -/

theorem isDigit_iff_toNat {c : Char} : c.isDigit = true ↔ 0x30 ≤ c.toNat ∧ c.toNat ≤ 0x39 := by
  rw [Char.isDigit, Bool.and_eq_true, decide_eq_true_eq, decide_eq_true_eq]
  rfl

/-- The digits of base ten are the ASCII digits. -/
theorem digitValue?_ten (c : Char) :
    digitValue? 10 c = if c.isDigit then some (c.toNat - '0'.toNat) else none := by
  have hd := isDigit_iff_toNat (c := c)
  simp only [digitValue?]
  by_cases h : 0x30 ≤ c.toNat ∧ c.toNat ≤ 0x39
  · have hlt : c.toNat - 0x30 < 10 := by omega
    rw [if_pos (hd.2 h), if_pos h, Option.filter_some, if_pos (by simpa using hlt)]
    rfl
  · rw [if_neg (fun hc => h (hd.1 hc)), if_neg h]
    split
    · rw [Option.filter_some, if_neg (by simp)]
    · split
      · rw [Option.filter_some, if_neg (by simp)]
      · rfl

theorem readDigitsFrom_ten {s : List Char} (h : ∀ c ∈ s, c.isDigit = true) (v : Nat) :
    readDigitsFrom 10 v s = some (Nat.ofDigitChars 10 s v) := by
  induction s generalizing v with
  | nil => rw [readDigitsFrom, Nat.ofDigitChars_nil]
  | cons c rest ih =>
    rw [readDigitsFrom, digitValue?_ten, if_pos (h c (List.mem_cons_self ..)), Option.bind_some,
      ih (fun x hx => h x (List.mem_cons_of_mem _ hx)), Nat.ofDigitChars_cons, Nat.mul_comm]

theorem isDigit_of_readDigitsFrom {s : List Char} {v n : Nat}
    (h : readDigitsFrom 10 v s = some n) : ∀ c ∈ s, c.isDigit = true := by
  induction s generalizing v with
  | nil => intro c hc; cases hc
  | cons c rest ih =>
    rw [readDigitsFrom, digitValue?_ten] at h
    by_cases hd : c.isDigit = true
    · rw [if_pos hd, Option.bind_some] at h
      intro x hx
      rcases List.mem_cons.mp hx with rfl | hx'
      · exact hd
      · exact ih h x hx'
    · rw [if_neg hd, Option.bind_none] at h
      cases h

theorem readDigits_ten_iff {s : List Char} {n : Nat} :
    readDigits 10 s = some n ↔
      s ≠ [] ∧ (∀ c ∈ s, c.isDigit = true) ∧ Nat.ofDigitChars 10 s 0 = n := by
  unfold readDigits
  constructor
  · intro h
    split at h
    next => cases h
    next hs =>
      have hd := isDigit_of_readDigitsFrom h
      rw [readDigitsFrom_ten hd, Option.some.injEq] at h
      exact ⟨by simpa using hs, hd, h⟩
  · intro h
    obtain ⟨hs, hd, rfl⟩ := h
    rw [if_neg (by simpa using hs), readDigitsFrom_ten hd]

theorem isDigit_of_mem_toDigits {c : Char} {n : Nat} (h : c ∈ Nat.toDigits 10 n) :
    c.isDigit = true :=
  Nat.isDigit_of_mem_toDigits (by decide) (by decide) h

/-! ## Numerals -/

/-- A numeral is read digit by digit, once the plus sign that may precede them is gone. -/
theorem readUnsigned_eq_some_iff {base : Nat} {s : List Char} {n : Nat} :
    readUnsigned base s = some n ↔
      ∃ digits, (s = digits ∨ s = '+' :: digits) ∧ readDigits base digits = some n := by
  constructor
  · intro h
    unfold readUnsigned at h
    split at h
    next digits => exact ⟨digits, Or.inr rfl, h⟩
    next => exact ⟨s, Or.inl rfl, h⟩
  · intro h
    rcases h with ⟨digits, rfl | rfl, hn⟩
    · unfold readUnsigned
      split
      -- a plus sign is no digit, so it stands at the front of a numeral at most once
      next rest => cases hn
      next => exact hn
    · exact hn

/-- At base ten exactly the numerals are read, each as its number. -/
theorem readUnsigned_ten_iff {s : List Char} {n : Nat} :
    readUnsigned 10 s = some n ↔ IsNumeral s n := by
  simp only [readUnsigned_eq_some_iff, readDigits_ten_iff, IsNumeral]

/-- The digits of a number are a numeral of it. -/
theorem isNumeral_toDigits (n : Nat) : IsNumeral (Nat.toDigits 10 n) n :=
  ⟨Nat.toDigits 10 n, Or.inl rfl, Nat.toDigits_ne_nil,
    fun _ hc => isDigit_of_mem_toDigits hc,
    Nat.ofDigitChars_ten_toDigits⟩

/-! ## Other bases -/

/-- A text of digits of a base, the letters among them in either case, and the number that they
write. -/
def AreDigits (base : Nat) (s : List Char) (n : Nat) : Prop :=
  ∃ ds : List Nat, s.map Char.toLower = ds.map Nat.digitChar ∧ (∀ d ∈ ds, d < base) ∧
    ds.foldl (fun value d => value * base + d) 0 = n

/-- A text of at least one digit of a base, which a plus sign may precede, and the number that its
digits write. -/
def IsNumeralIn (base : Nat) (s : List Char) (n : Nat) : Prop :=
  ∃ digits : List Char, (s = digits ∨ s = '+' :: digits) ∧ digits ≠ [] ∧ AreDigits base digits n

theorem toNat_digitChar {d : Nat} (h : d < 16) :
    (Nat.digitChar d).toNat = if d < 10 then 0x30 + d else 0x61 + (d - 10) := by
  have hall : ∀ d < 16, (Nat.digitChar d).toNat = if d < 10 then 0x30 + d else 0x61 + (d - 10) := by
    decide
  exact hall d h

/-- A digit of a base is the character of its value, in either case. -/
theorem digitValue?_eq_some_iff {base : Nat} (hbase : base ≤ 16) {c : Char} {d : Nat} :
    digitValue? base c = some d ↔ d < base ∧ c.toLower = Nat.digitChar d := by
  -- the characters of three ranges, each by its place in the range
  have hdecimal : ∀ k < 10, (Char.ofNat (0x30 + k)).toLower = Nat.digitChar k := by decide
  have hupper : ∀ k < 6, (Char.ofNat (0x41 + k)).toLower = Nat.digitChar (k + 10) := by decide
  have hlower : ∀ k < 6, (Char.ofNat (0x61 + k)).toLower = Nat.digitChar (k + 10) := by decide
  have hletter : ∀ k < 26, ∀ d < 16, (Char.ofNat (0x41 + k)).toLower = Nat.digitChar d →
      d = k + 10 := by decide
  have hplace {m : Nat} (hm : m ≤ c.toNat) : Char.ofNat (m + (c.toNat - m)) = c := by
    rw [Nat.add_sub_cancel' hm, Char.ofNat_toNat]
  simp only [digitValue?, Option.filter_eq_some_iff, decide_eq_true_eq, and_comm (b := d < base)]
  refine and_congr_right fun hd => ⟨fun h => ?_, fun h => ?_⟩
  · split at h
    next hc =>
      cases h
      have hk := hdecimal (c.toNat - 0x30) (by omega)
      rwa [hplace hc.1] at hk
    split at h
    next hc =>
      cases h
      have hk := hupper (c.toNat - 0x41) (by omega)
      rwa [hplace hc.1] at hk
    split at h
    next hc =>
      cases h
      have hk := hlower (c.toNat - 0x61) (by omega)
      rwa [hplace hc.1] at hk
    next => cases h
  · by_cases hc : 0x41 ≤ c.toNat ∧ c.toNat ≤ 0x5A
    · have hk := hletter (c.toNat - 0x41) (by omega) d (by omega)
      rw [hplace hc.1] at hk
      have hvalue := hk h
      rw [if_neg (by omega), if_pos (by omega), Option.some.injEq]
      omega
    · -- no capital letter, so the character is that of its value as it is
      have hsame : c.toLower = c := dif_neg fun h => hc ⟨h.1, h.2⟩
      have hn := toNat_digitChar (d := d) (by omega)
      rw [← h, hsame] at hn
      split at hn
      next =>
        rw [if_pos (by omega), Option.some.injEq]
        omega
      next =>
        rw [if_neg (by omega), if_neg (by omega), if_pos (by omega), Option.some.injEq]
        omega

theorem readDigitsFrom_eq_some_iff {base : Nat} (hbase : base ≤ 16) {s : List Char} {v n : Nat} :
    readDigitsFrom base v s = some n ↔
      ∃ ds : List Nat, s.map Char.toLower = ds.map Nat.digitChar ∧ (∀ d ∈ ds, d < base) ∧
        ds.foldl (fun value d => value * base + d) v = n := by
  induction s generalizing v with
  | nil =>
    rw [readDigitsFrom, Option.some.injEq]
    constructor
    · intro h
      exact ⟨[], rfl, by simp, h⟩
    · intro h
      obtain ⟨ds, hds, -, hn⟩ := h
      rw [List.map_nil, eq_comm, List.map_eq_nil_iff] at hds
      rwa [hds] at hn
  | cons c rest ih =>
    simp only [readDigitsFrom, Option.bind_eq_some_iff, digitValue?_eq_some_iff hbase, ih]
    constructor
    · intro h
      obtain ⟨d, ⟨hd, hc⟩, ds, hrest, hds, hn⟩ := h
      exact ⟨d :: ds, by rw [List.map_cons, List.map_cons, hc, hrest],
        List.forall_mem_cons.2 ⟨hd, hds⟩, hn⟩
    · intro h
      obtain ⟨ds, hmap, hds, hn⟩ := h
      cases ds with
      | nil => cases hmap
      | cons d ds =>
        obtain ⟨hc, hrest⟩ := List.cons_eq_cons.1 hmap
        obtain ⟨hd, hds⟩ := List.forall_mem_cons.1 hds
        exact ⟨d, ⟨hd, hc⟩, ds, hrest, hds, hn⟩

/-- At every base exactly its numerals are read, each as its number. -/
theorem readUnsigned_iff {base : Nat} (hbase : base ≤ 16) {s : List Char} {n : Nat} :
    readUnsigned base s = some n ↔ IsNumeralIn base s n := by
  have hdigits (digits : List Char) : readDigits base digits = some n ↔
      digits ≠ [] ∧ AreDigits base digits n := by
    rw [readDigits, AreDigits, ← readDigitsFrom_eq_some_iff hbase]
    cases digits <;> simp
  simp only [readUnsigned_eq_some_iff, hdigits, IsNumeralIn]

end XmlScript.Text
