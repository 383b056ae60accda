import XmlScript.Proofs.Cut
import XmlScript.Proofs.Except
import XmlScript.Proofs.Literal

/-!
# References, from left to right

Unescaping pairs an ampersand with the next semicolon wherever that is, so a text can be parted at
any place as long as no ampersand before it waits for a semicolon behind it. Then the second part is
read as it is alone, once the first is read without a fault (`unescape_append`). A fault of a
reference is found where the reference ends, and nothing behind it is looked at.

`StandsFor` says without any reading which references there are: five names, and numerals of a base
that the number sign tells. `resolve_eq_ok_iff` is that exactly these are resolved.
-/

namespace XmlScript.Literal

open Text (cutAt IsNumeralIn)

/-! ## What references stand for -/

/-- The characters that have names. -/
def namedCharacters : List (String × Char) :=
  [("apos", '\''), ("quot", '"'), ("lt", '<'), ("gt", '>'), ("amp", '&')]

/-- The text between an ampersand and its semicolon, and the character that it stands for. -/
inductive StandsFor : List Char → Char → Prop
  | name {name : String} {c : Char} (named : (name, c) ∈ namedCharacters) : StandsFor name.toList c
  | decimal {numeral : List Char} {c : Char} (number : IsNumeralIn 10 numeral c.toNat) :
      StandsFor ('#' :: numeral) c
  | hexadecimal {x : Char} {numeral : List Char} {c : Char} (mark : x = 'x' ∨ x = 'X')
      (number : IsNumeralIn 16 numeral c.toNat) : StandsFor ('#' :: x :: numeral) c

theorem named?_eq_some_iff {e : List Char} {c : Char} :
    named? e = some c ↔ ∃ name, (name, c) ∈ namedCharacters ∧ name.toList = e := by
  constructor
  · intro h
    unfold named? at h
    split at h
    next he => cases h; exact ⟨"apos", by decide, he.symm⟩
    split at h
    next he => cases h; exact ⟨"quot", by decide, he.symm⟩
    split at h
    next he => cases h; exact ⟨"lt", by decide, he.symm⟩
    split at h
    next he => cases h; exact ⟨"gt", by decide, he.symm⟩
    split at h
    next he => cases h; exact ⟨"amp", by decide, he.symm⟩
    next => cases h
  · intro h
    obtain ⟨name, hmem, rfl⟩ := h
    simp only [namedCharacters, List.mem_cons, Prod.mk.injEq, List.not_mem_nil, or_false] at hmem
    rcases hmem with ⟨rfl, rfl⟩ | ⟨rfl, rfl⟩ | ⟨rfl, rfl⟩ | ⟨rfl, rfl⟩ | ⟨rfl, rfl⟩ <;> rfl

theorem scalar?_eq_some_iff {n : Nat} {c : Char} : scalar? n = some c ↔ n = c.toNat := by
  unfold scalar?
  constructor
  · intro h
    split at h
    next hn =>
      cases h
      rw [Char.ofNat, dif_pos hn]
      rfl
    next => cases h
  · intro h
    have hvalid : c.toNat.isValidChar := c.valid
    rw [h, if_pos hvalid, Char.ofNat_toNat]

theorem bind_scalar?_eq_some_iff {base : Nat} (hbase : base ≤ 16) {s : List Char} {c : Char} :
    (Text.readUnsigned base s).bind scalar? = some c ↔ IsNumeralIn base s c.toNat := by
  simp only [Option.bind_eq_some_iff, Text.readUnsigned_iff hbase, scalar?_eq_some_iff,
    exists_eq_right]

theorem numbered?_eq_some_iff {numeral : List Char} {c : Char} :
    numbered? numeral = some c ↔ IsNumeralIn 10 numeral c.toNat ∨
      ∃ x digits, (x = 'x' ∨ x = 'X') ∧ numeral = x :: digits ∧ IsNumeralIn 16 digits c.toNat := by
  -- the mark of a hexadecimal numeral is no decimal digit
  have hmark {x : Char} {digits : List Char} (hx : x = 'x' ∨ x = 'X') :
      ¬ IsNumeralIn 10 (x :: digits) c.toNat := by
    intro h
    have hread := (Text.readUnsigned_iff (by decide)).2 h
    rcases hx with rfl | rfl <;> cases hread
  unfold numbered?
  split
  next digits =>
    rw [bind_scalar?_eq_some_iff (by decide), or_iff_right (hmark (Or.inl rfl))]
    exact ⟨fun h => ⟨'x', digits, Or.inl rfl, rfl, h⟩, fun ⟨_, _, _, heq, h⟩ => by cases heq; exact h⟩
  next digits =>
    rw [bind_scalar?_eq_some_iff (by decide), or_iff_right (hmark (Or.inr rfl))]
    exact ⟨fun h => ⟨'X', digits, Or.inr rfl, rfl, h⟩, fun ⟨_, _, _, heq, h⟩ => by cases heq; exact h⟩
  next hx hX =>
    rw [bind_scalar?_eq_some_iff (by decide), or_iff_left]
    intro h
    obtain ⟨x, digits, rfl | rfl, heq, -⟩ := h
    · exact hx digits heq
    · exact hX digits heq

/-- Exactly the references of `StandsFor` are resolved. -/
theorem resolve_eq_ok_iff {e : List Char} {c : Char} : resolve e = .ok c ↔ StandsFor e c := by
  constructor
  · intro h
    unfold resolve at h
    split at h
    next hnamed =>
      cases h
      obtain ⟨name, hmem, rfl⟩ := named?_eq_some_iff.1 hnamed
      exact StandsFor.name hmem
    split at h
    next numeral =>
      split at h
      next hnumber =>
        cases h
        rcases numbered?_eq_some_iff.1 hnumber with hten | ⟨x, digits, hx, rfl, hsixteen⟩
        · exact StandsFor.decimal hten
        · exact StandsFor.hexadecimal hx hsixteen
      next => cases h
    next => cases h
  · intro h
    have hnumber {numeral : List Char} (h : numbered? numeral = some c) :
        resolve ('#' :: numeral) = .ok c := by
      have hnamed : named? ('#' :: numeral) = none := by simp [named?]
      simp only [resolve, hnamed, h]
    cases h with
    | name hmem =>
      have hnamed := named?_eq_some_iff.2 ⟨_, hmem, rfl⟩
      simp only [resolve, hnamed]
    | decimal hten => exact hnumber (numbered?_eq_some_iff.2 (Or.inl hten))
    | hexadecimal hx hsixteen =>
      exact hnumber (numbered?_eq_some_iff.2 (Or.inr ⟨_, _, hx, rfl, hsixteen⟩))

/-! ## Texts in two parts -/

/-- What is cut off before a character does not hold it. -/
theorem not_mem_of_cutAt {m : Char} {s a b : List Char} (h : cutAt [m] s = some (a, b)) : m ∉ a := by
  intro hmem
  exact Text.not_infix_of_cutAt (by simp) h ((List.singleton_infix_iff m a).2 hmem)

/-- A text in which every ampersand has its semicolon is unescaped first, and then what follows it;
the first fault is that of the whole. -/
theorem unescape_append {a : List Char}
    (h : ∀ rest, unescape a ≠ .error (.unterminatedEntity rest)) (b : List Char) :
    unescape (a ++ b) = (unescape a).bind fun x => (unescape b).map (x ++ ·) := by
  fun_induction unescape a with
  | case1 =>
    rw [List.nil_append]
    cases unescape b <;> rfl
  | case2 rest hcut => exact absurd rfl (h _)
  | case3 rest entity after hcut ih =>
    have hrest : rest ++ b = entity ++ ';' :: (after ++ b) := by
      rw [Text.eq_append_of_cutAt hcut]
      simp only [List.append_assoc, List.cons_append, List.nil_append]
    rw [List.cons_append, hrest, unescape_amp (not_mem_of_cutAt hcut)]
    cases hresolve : resolve entity with
    | error e => rfl
    | ok x =>
      rw [hresolve] at h
      have hafter : ∀ rest, unescape after ≠ .error (.unterminatedEntity rest) := by
        intro rest he
        rw [he] at h
        exact h rest rfl
      show (unescape (after ++ b)).map (x :: ·) = _
      rw [ih hafter]
      cases unescape after with
      | error e => rfl
      | ok y => cases unescape b <;> rfl
  | case4 c rest hc ih =>
    have hrest : ∀ r, unescape rest ≠ .error (.unterminatedEntity r) := by
      intro r he
      rw [he] at h
      exact h r rfl
    rw [List.cons_append, unescape_cons_of_ne hc, ih hrest]
    cases unescape rest with
    | error e => rfl
    | ok y => cases unescape b <;> rfl

/-- A text without references stands for itself. -/
theorem unescape_of_not_mem {a : List Char} (h : '&' ∉ a) : unescape a = .ok a := by
  induction a with
  | nil => exact unescape_nil
  | cons c rest ih =>
    rw [unescape_cons_of_ne fun hc => h (hc ▸ List.mem_cons_self ..),
      ih fun hr => h (List.mem_cons_of_mem _ hr)]
    rfl

/-- One reference stands for one character. -/
theorem unescape_reference_eq_ok_iff {e x : List Char} (h : ';' ∉ e) :
    unescape ('&' :: (e ++ [';'])) = .ok x ↔ ∃ c, x = [c] ∧ StandsFor e c := by
  rw [unescape_amp h, unescape_nil, bind_eq_ok_iff]
  simp only [resolve_eq_ok_iff, map_eq_ok_iff, Except.ok.injEq]
  constructor
  · intro hx
    obtain ⟨c, hc, -, rfl, rfl⟩ := hx
    exact ⟨c, rfl, hc⟩
  · intro hx
    obtain ⟨c, rfl, hc⟩ := hx
    exact ⟨c, hc, [], rfl, rfl⟩

/-- Unescaping goes from left to right and stops at the leftmost fault. Behind a text that is
unescaped, a text is unescaped as it is alone, be it to a text or to a fault; a reference that cannot
be resolved is the fault whatever follows; without an ampersand nothing changes. And a single
reference stands for a character exactly when `StandsFor` says so. -/
theorem unescape_left_to_right :
    (∀ a b x, unescape a = .ok x → unescape (a ++ b) = (unescape b).map (x ++ ·)) ∧
    (∀ a b e, unescape a = .error e →
      (∃ name, e = .unknownEntity name) ∨ (∃ reference, e = .invalidReference reference) →
      unescape (a ++ b) = .error e) ∧
    (∀ a, '&' ∉ a → unescape a = .ok a) ∧
    ∀ e x, ';' ∉ e →
      (unescape ('&' :: (e ++ [';'])) = .ok x ↔ ∃ c, x = [c] ∧ StandsFor e c) := by
  refine ⟨fun a b x h => ?_, fun a b e h he => ?_, fun a => unescape_of_not_mem,
    fun e x => unescape_reference_eq_ok_iff⟩
  · rw [unescape_append (by simp [h]), h]
    rfl
  · rw [unescape_append, h]
    · rfl
    · intro rest hrest
      rw [h] at hrest
      cases hrest
      rcases he with ⟨_, he⟩ | ⟨_, he⟩ <;> cases he

/-- A reference with a fault behind it, a fault with a reference behind it, a semicolon without an
ampersand, and a numeral with a sign. -/
theorem unescape_left_to_right_mixed :
    unescape ("&#x4A;".toList ++ "b&c".toList) = .error (.unterminatedEntity "&c") ∧
    unescape ("a&nbsp;".toList ++ "&lt;".toList) = .error (.unknownEntity "nbsp") ∧
    unescape "a;b".toList = .ok "a;b".toList ∧
    unescape ('&' :: ("#+0074".toList ++ [';'])) = .ok ['J'] := by
  obtain ⟨hok, herror, hplain, hreference⟩ := unescape_left_to_right
  have hletter : unescape "&#x4A;".toList = .ok ['J'] := by decide +kernel
  have hopen : unescape "b&c".toList = .error (.unterminatedEntity "&c") := by decide +kernel
  have hunknown : unescape "a&nbsp;".toList = .error (.unknownEntity "nbsp") := by decide +kernel
  have hnumeral : IsNumeralIn 10 "+0074".toList ('J').toNat :=
    ⟨"0074".toList, Or.inr rfl, by decide, [0, 0, 7, 4], by decide, by decide, by decide⟩
  refine ⟨?_, herror _ _ _ hunknown (Or.inl ⟨_, rfl⟩), hplain _ (by decide),
    (hreference _ _ (by decide)).2 ⟨'J', rfl, StandsFor.decimal hnumeral⟩⟩
  rw [hok _ _ _ hletter, hopen]
  rfl

end XmlScript.Literal
