import XmlScript.Proofs.Legible
import XmlScript.Proofs.WellFormed
import XmlScript.Render

/-!
# The two rules for names

Scripts are held to letters, marks and numbers of all scripts, documents to the code point ranges of
the recommendation. Neither rule follows from the other, and the tables of both are long; they are
compared run by run (`Text.covers`, `Text.apart`).

The letters and numbers that the recommendation leaves out of names are few (`Name.isStray`): three
letters, and digits and fractions that stand raised or enclosed. A name that scripts may give is one
that documents may have unless it holds one of these (`Name.isName_iff_of_isValid`). The other way
round there is no such list, since the ranges of the recommendation take in all kinds of signs and
most of the code points that nothing has been assigned to. Still, a name in letters of Latin scripts
and ASCII is one for scripts if it is one for documents (`Name.isDisputed_eq_isStray`). Where the
rules differ about a character, they differ about a name (`Name.exists_name_of_isDisputed`).
-/

namespace XmlScript

/-! ## Comparing classes of characters -/

namespace Text

variable {outer inner runs : List (Nat × Nat)} {n bound : Nat}

/-- Whether every run lies in one of the outer runs. -/
def covers (outer inner : List (Nat × Nat)) : Bool :=
  inner.all fun run => outer.any fun around => around.1 ≤ run.1 && run.2 ≤ around.2

/-- Whether no two runs have a code point in common. -/
def apart (runs others : List (Nat × Nat)) : Bool :=
  runs.all fun run => others.all fun other => run.2 < other.1 || other.2 < run.1

theorem within_of_covers (h : covers outer inner = true) (hn : within inner n = true) :
    within outer n = true := by
  obtain ⟨run, hrun, hlow, hhigh⟩ := within_iff.1 hn
  obtain ⟨around, haround, hin⟩ := List.any_eq_true.1 (List.all_eq_true.1 h run hrun)
  simp only [Bool.and_eq_true, decide_eq_true_eq] at hin
  exact within_iff.2 ⟨around, haround, hin.1.trans hlow, hhigh.trans hin.2⟩

theorem within_eq_false_of_apart (h : apart runs outer = true) (hn : within runs n = true) :
    within outer n = false := by
  obtain ⟨run, hrun, hlow, hhigh⟩ := within_iff.1 hn
  refine Bool.eq_false_iff.2 fun hother => ?_
  obtain ⟨other, hmem, hlow', hhigh'⟩ := within_iff.1 hother
  have hparted := List.all_eq_true.1 (List.all_eq_true.1 h run hrun) other hmem
  simp only [Bool.or_eq_true, decide_eq_true_eq] at hparted
  omega

theorem within_append : within (runs ++ outer) n = (within runs n || within outer n) :=
  List.any_append

/-- Below a bound only the runs count that begin there. -/
theorem within_take {k : Nat} (h : (runs.drop k).all (bound ≤ ·.1) = true) (hn : n < bound) :
    within runs n = within (runs.take k) n := by
  have hlater : within (runs.drop k) n = false := by
    refine Bool.eq_false_iff.2 fun hlater => ?_
    obtain ⟨run, hrun, hlow, -⟩ := within_iff.1 hlater
    have hbound := of_decide_eq_true (List.all_eq_true.1 h run hrun)
    omega
  rw [← List.take_append_drop k runs, within_append, List.take_append_drop, hlater, Bool.or_false]

end Text

namespace Name

open Text
open Markup (IsName IsPlainName isName_cons isName_of_isValid)

/-! ## Characters -/

/-- The letters and numbers with which the recommendation lets no name go on. -/
def strayRuns : List (Nat × Nat) :=
  [(0xAA, 0xAA), (0xB2, 0xB3), (0xB5, 0xB5), (0xB9, 0xB9), (0xBA, 0xBA), (0xBC, 0xBE),
    (0x2460, 0x249B), (0x24EA, 0x24FF), (0x2776, 0x2793)]

def isStray (c : Char) : Bool := within strayRuns c.toNat

/-- Whether the two rules differ about a character at the start of a name or further on. -/
def isDisputed (c : Char) : Bool := isScriptStart c != isStartChar c || isScriptPart c != isChar c

/-- A text is a name to documents. -/
abbrev IsDocumentName : List Char → Prop := IsName isStartChar isChar

variable {c : Char} {name : String}

theorem covers_letters : covers (startRuns ++ strayRuns) letters = true := by decide +kernel

theorem covers_marksAndNumbers :
    covers (startRuns ++ partRuns ++ strayRuns) marksAndNumbers = true := by decide +kernel

theorem apart_stray : apart strayRuns (startRuns ++ partRuns) = true := by decide +kernel

theorem covers_stray : covers (letters ++ marksAndNumbers) strayRuns = true := by decide +kernel

/-- A stray character has no place in a name of a document, while scripts let a name go on with
it. -/
theorem isChar_of_isStray (h : isStray c = true) :
    isStartChar c = false ∧ isChar c = false ∧ isScriptPart c = true := by
  have hruns := within_eq_false_of_apart apart_stray h
  rw [within_append, Bool.or_eq_false_iff] at hruns
  have hcolon : (c == ':') = false := by
    refine beq_eq_false_iff_ne.2 ?_
    rintro rfl
    exact absurd h (by decide)
  have hscript := within_of_covers covers_stray h
  rw [within_append, Bool.or_eq_true] at hscript
  refine ⟨?_, ?_, ?_⟩
  · rw [isStartChar, isPlainStart, hcolon, hruns.1]
    rfl
  · rw [isChar, isPlainPart, isPlainStart, hcolon, hruns.1, hruns.2]
    rfl
  · unfold isScriptPart
    rcases hscript with hletter | hmark
    · rw [hletter, Bool.or_true, Bool.true_or]
    · rw [hmark, Bool.or_true]

/-- A letter that is not stray may start a name of a document. -/
theorem isStartChar_of_isScriptStart (h : isScriptStart c = true) :
    isStartChar c = !isStray c := by
  cases hstray : isStray c with
  | true => exact (isChar_of_isStray hstray).1
  | false =>
    unfold isScriptStart at h
    simp only [Bool.or_eq_true, beq_iff_eq] at h
    rcases h with (rfl | rfl) | hletter
    · rfl
    · rfl
    · have hruns := within_of_covers covers_letters hletter
      rw [within_append, Bool.or_eq_true] at hruns
      have hplain : isPlainStart c = true :=
        hruns.resolve_right fun h => Bool.false_ne_true (hstray.symm.trans h)
      rw [isStartChar, hplain, Bool.or_true]
      rfl

/-- Names of scripts go on with letters, marks, numbers and five signs. -/
theorem isScriptPart_cases (h : isScriptPart c = true) :
    c ∈ ['_', ':', '.', '-', '\xb7'] ∨ within (letters ++ marksAndNumbers) c.toNat = true := by
  unfold isScriptPart at h
  simp only [Bool.or_eq_true, beq_iff_eq] at h
  rw [within_append, Bool.or_eq_true]
  rcases h with (hsign | hletter) | hmark
  · exact Or.inl (by simpa [or_assoc] using hsign)
  · exact Or.inr (Or.inl hletter)
  · exact Or.inr (Or.inr hmark)

/-- With any letter, mark or number that is not stray a name of a document may go on. -/
theorem isChar_of_isScriptPart (h : isScriptPart c = true) : isChar c = !isStray c := by
  cases hstray : isStray c with
  | true => exact (isChar_of_isStray hstray).2.1
  | false =>
    have hplain (hruns : within (startRuns ++ partRuns ++ strayRuns) c.toNat = true) :
        isChar c = true := by
      rw [within_append, within_append, Bool.or_eq_true] at hruns
      have hpart : isPlainPart c = true :=
        hruns.resolve_right fun h => Bool.false_ne_true (hstray.symm.trans h)
      rw [isChar, hpart, Bool.or_true]
    rcases isScriptPart_cases h with hsign | hruns
    · have hsigns : ['_', ':', '.', '-', '\xb7'].all isChar = true := by decide
      exact List.all_eq_true.1 hsigns c hsign
    · rw [within_append, Bool.or_eq_true] at hruns
      rcases hruns with hletter | hmark
      · have hstart := within_of_covers covers_letters hletter
        refine hplain ?_
        rw [within_append] at hstart
        rw [within_append, within_append, Bool.or_right_comm, hstart, Bool.true_or]
      · exact hplain (within_of_covers covers_marksAndNumbers hmark)

theorem isDisputed_of_isStray (h : isStray c = true) : isDisputed c = true := by
  obtain ⟨-, hchar, hscript⟩ := isChar_of_isStray h
  rw [isDisputed, hchar, hscript]
  exact Bool.or_true _

/-- Among the first letters, those of Latin scripts, no others are disputed. -/
theorem isDisputed_eq_isStray (h : c.toNat < 0x2C2) : isDisputed c = isStray c := by
  have hletters : within letters c.toNat = within (letters.take 8) c.toNat :=
    within_take (by decide +kernel) h
  have hmarks : within marksAndNumbers c.toNat = within (marksAndNumbers.take 4) c.toNat :=
    within_take (by decide +kernel) h
  have hall : ∀ n < 0x2C2, ((Char.ofNat n == '_' || Char.ofNat n == ':' ||
      within (letters.take 8) n) != isStartChar (Char.ofNat n) ||
      (Char.ofNat n == '_' || Char.ofNat n == ':' || Char.ofNat n == '.' || Char.ofNat n == '-' ||
        Char.ofNat n == '\xb7' || within (letters.take 8) n ||
          within (marksAndNumbers.take 4) n) != isChar (Char.ofNat n)) =
      within strayRuns n := by decide +kernel
  have hc := hall c.toNat h
  rw [Char.ofNat_toNat] at hc
  rw [isDisputed, isScriptStart, isScriptPart, hletters, hmarks, hc]
  rfl

/-! ## Names -/

/-- A name that scripts may give is one for documents if it holds no stray character. -/
theorem isName_iff_of_isValid (h : isValid name = true) :
    IsDocumentName name.toList ↔ ∀ c ∈ name.toList, isStray c = false := by
  obtain ⟨c, rest, hname, hc, hrest⟩ := isName_of_isValid h
  rw [hname, IsDocumentName, isName_cons, isStartChar_of_isScriptStart hc, List.all_eq_true,
    List.forall_mem_cons, Bool.not_eq_true']
  refine and_congr_right fun _ => forall₂_congr fun x hx => ?_
  rw [isChar_of_isScriptPart (hrest x hx), Bool.not_eq_true']

/-- The rules agree about a name if they do so about its characters. -/
theorem isValid_iff_of_undisputed (h : ∀ c ∈ name.toList, isDisputed c = false) :
    isValid name = true ↔ IsDocumentName name.toList := by
  unfold isValid
  split
  next hname =>
    rw [hname]
    exact iff_of_false Bool.false_ne_true fun hn => by obtain ⟨_, _, he, -⟩ := hn; cases he
  next c rest hname =>
    rw [hname, List.forall_mem_cons] at h
    have hclasses : ∀ x, isDisputed x = false →
        isScriptStart x = isStartChar x ∧ isScriptPart x = isChar x := by
      intro x hx
      simpa [isDisputed] using hx
    rw [hname, IsDocumentName, isName_cons, ← (hclasses c h.1).1, Bool.and_eq_true,
      List.all_eq_true, List.all_eq_true]
    refine and_congr_right fun _ => forall₂_congr fun x hx => ?_
    rw [(hclasses x (h.2 x hx)).2]

/-- Every disputed character makes a name that only one of the rules lets through. -/
theorem exists_name_of_isDisputed (h : isDisputed c = true) :
    ∃ name : String, (∀ x ∈ name.toList, x = c ∨ x = '_') ∧
      ¬ (isValid name = true ↔ IsDocumentName name.toList) := by
  unfold isDisputed at h
  rw [Bool.or_eq_true, bne_iff_ne, bne_iff_ne] at h
  rcases h with hstart | hpart
  · refine ⟨String.ofList [c], by simp, fun hiff => hstart ?_⟩
    rw [isValid, String.toList_ofList, IsDocumentName, isName_cons] at hiff
    simpa using hiff
  · refine ⟨String.ofList ['_', c], by simp, fun hiff => hpart ?_⟩
    have hunderscore : isScriptStart '_' = true ∧ isStartChar '_' = true := ⟨rfl, by decide⟩
    rw [isValid, String.toList_ofList, IsDocumentName, isName_cons] at hiff
    simpa [hunderscore] using hiff

end Name

/-! ## Documents -/

open Markup (IsName IsPlainName isName_cons)

/-- A name with the prefix that it was read with. -/
def qualified (hint? : Option String) (localPart : String) : String :=
  match hint? with
  | some short => short ++ ":" ++ localPart
  | none => localPart

/-- The name that a node is written with, if it was read, or is given by a script. -/
def Content.givenName? : Content → Option String
  | .element label => some (qualified label.hint? label.name.localPart)
  | .attribute a => some (qualified a.hint? a.name.localPart)
  | .instruction target _ => some target
  | .document | .text _ _ | .comment _ => none

theorem isDocumentName_of_isPlainName {s : List Char} (h : IsPlainName s) :
    Name.IsDocumentName s := by
  obtain ⟨c, rest, rfl, hc, hrest⟩ := h
  refine ⟨c, rest, rfl, ?_, fun x hx => ?_⟩
  · rw [Name.isStartChar, hc, Bool.or_true]
  · rw [Name.isChar, hrest x hx, Bool.or_true]

theorem isDocumentName_qualified {hint? : Option String} {localPart : String}
    (h : IsPlainName localPart.toList) (hhint : ∀ short ∈ hint?, IsPlainName short.toList) :
    Name.IsDocumentName (qualified hint? localPart).toList := by
  cases hint? with
  | none => exact isDocumentName_of_isPlainName h
  | some short =>
    obtain ⟨c, rest, hshort, hc, hrest⟩ := isDocumentName_of_isPlainName (hhint short rfl)
    obtain ⟨c', rest', hlocal, hc', hrest'⟩ := h
    refine ⟨c, rest ++ ':' :: c' :: rest', ?_, hc, ?_⟩
    · have hcolon : ":".toList = [':'] := rfl
      rw [qualified, String.toList_append, String.toList_append, hshort, hlocal, hcolon]
      simp
    · -- what may start a name may go on with it
      have hpart {x : Char} (hx : Name.isPlainPart x = true) : Name.isChar x = true := by
        rw [Name.isChar, hx, Bool.or_true]
      refine List.forall_mem_append.2 ⟨hrest, List.forall_mem_cons.2 ⟨rfl, ?_⟩⟩
      refine List.forall_mem_cons.2 ⟨hpart ?_, fun x hx => hpart (hrest' x hx)⟩
      rw [Name.isPlainPart, hc', Bool.true_or]

theorem Content.Named.isDocumentName {c : Content} (h : c.Named) {name : String}
    (hname : name ∈ c.givenName?) : Name.IsDocumentName name.toList := by
  unfold Content.givenName? at hname
  split at hname
  next => exact Option.some.inj hname ▸ isDocumentName_qualified h.1 h.2
  next => exact Option.some.inj hname ▸ isDocumentName_qualified h.1 h.2
  next => exact Option.some.inj hname ▸ h
  all_goals cases hname

/-- A script has given a node its name. -/
def Content.Given : Content → Prop
  | .element label => Name.isValid label.name.localPart = true ∧ label.hint? = none
  | .attribute a => Name.isValid a.name.localPart = true ∧ a.hint? = none
  | .instruction target _ => Name.isValid target = true
  | .document | .text _ _ | .comment _ => True

theorem Content.Given.isValid {c : Content} (h : c.Given) {name : String}
    (hname : name ∈ c.givenName?) : Name.isValid name = true := by
  unfold Content.givenName? at hname
  split at hname
  next =>
    rw [h.2] at hname
    exact Option.some.inj hname ▸ h.1
  next =>
    rw [h.2] at hname
    exact Option.some.inj hname ▸ h.1
  next => exact Option.some.inj hname ▸ h
  all_goals cases hname

/-- Every node has its name from a document or from a script. -/
theorem makeable_named_or_given : Document.Makeable fun c => c.Named ∨ c.Given where
  absent := Or.inl trivial
  newElement hname := Or.inr ⟨hname, rfl⟩
  newAttribute hname := Or.inr ⟨hname, rfl⟩
  newValue ha := ha.imp (fun h => ⟨h.1, nofun⟩) fun h => ⟨h.1, rfl⟩
  newText := Or.inl trivial

namespace Document

open Name (isStray isDisputed IsDocumentName)

variable {d : Document}

theorem Reachable.named_or_given (h : d.Reachable) : d.Holds fun c => c.Named ∨ c.Given :=
  (makeable_named_or_given.keptByEdits (fun _ => Or.inl trivial)
    fun htarget => Or.inr htarget).of_reachable (Holds.empty (Or.inl trivial) (Or.inl trivial))
    (fun hread n => Or.inl (Markup.named_of_read? hread n)) h

/-- A name as scripts may give it and as documents may have it. The two rules agree about it if they
agree about its characters, which all ASCII characters and the first letters of Latin scripts do but
for the stray ones; a disputed character makes a name that they do not agree about. So a name in a
document that there can be may stand there, unless a script has given it with a stray character in
it; and a name in a document that was read may be given again, unless it holds a disputed one. -/
theorem names_given_and_read (name : String) :
    ((∀ c ∈ name.toList, isDisputed c = false) →
      (Name.isValid name = true ↔ IsDocumentName name.toList)) ∧
    (∀ c, isDisputed c = true → ∃ other : String, (∀ x ∈ other.toList, x = c ∨ x = '_') ∧
      ¬ (Name.isValid other = true ↔ IsDocumentName other.toList)) ∧
    (Name.isValid name = true →
      (IsDocumentName name.toList ↔ ∀ c ∈ name.toList, isStray c = false)) ∧
    (∀ c : Char, c.toNat < 0x2C2 → isDisputed c = isStray c) ∧
    (∀ d : Document, d.Reachable → ∀ n, name ∈ (d.entry n).content.givenName? →
      (∀ c ∈ name.toList, isStray c = false) → IsDocumentName name.toList) ∧
    (∀ text d, Markup.read? text = some d → ∀ n, name ∈ (d.entry n).content.givenName? →
      IsDocumentName name.toList ∧
        ((∀ c ∈ name.toList, isDisputed c = false) → Name.isValid name = true)) := by
  refine ⟨Name.isValid_iff_of_undisputed, fun _ => Name.exists_name_of_isDisputed,
    Name.isName_iff_of_isValid, fun _ => Name.isDisputed_eq_isStray, ?_, ?_⟩
  · intro d hd n hname hstray
    rcases hd.named_or_given n with hnamed | hgiven
    · exact hnamed.isDocumentName hname
    · exact (Name.isName_iff_of_isValid (hgiven.isValid hname)).2 hstray
  · intro text d hread n hname
    have hdocument := (Markup.named_of_read? hread n).isDocumentName hname
    exact ⟨hdocument, fun h => (Name.isValid_iff_of_undisputed h).2 hdocument⟩

/-- A script may give the name that is the feminine ordinal indicator, and then the document cannot
be read again; and it may not give the name that is a raised zero, which can be read. -/
theorem names_disputed :
    let arg (s : String) (h : Literal.check s.toList = .ok ()) : Arg :=
      ⟨s, Literal.check_eq_ok_iff.1 h⟩
    let script : Script := [.addElement (arg "\u00aa" rfl)]
    let text := "<?xml version=\"1.0\"?><\u00aa/>"
    (Engine.apply script .empty).1 = .ok () ∧
      (Engine.apply script .empty).2.render {} = .ok text.toList ∧ Markup.read? text = none ∧
        Name.isValid "\u00aa" = true ∧ ¬ IsDocumentName "\u00aa".toList ∧
          (Markup.read? "<\u2070/>").isSome = true ∧ IsDocumentName "\u2070".toList ∧
            Name.isValid "\u2070" = false := by
  intro arg script text
  let made : Document := ⟨#[{ content := .document, children := [1] },
    { content := .element (.plain "\u00aa"), parent? := some 0 }]⟩
  have hmade : Engine.apply script .empty = (.ok (), made) := by decide +kernel
  have htrees : made.trees = [.element (.plain "\u00aa") [] []] := rfl
  have hwritten : Markup.write? false made.trees = some text.toList := by
    rw [htrees]
    simp only [Markup.write?, Markup.writeTrees?]
    decide +kernel
  have hruns : Markup.textRuns made.trees = [] := by
    rw [htrees]
    simp only [Markup.textRuns, Markup.runsFrom, List.flatMap_cons, List.flatMap_nil]
    decide +kernel
  have hrender : made.render {} = .ok text.toList := by
    unfold Document.render
    simp only [hwritten, hruns]
    rfl
  rw [hmade]
  exact ⟨rfl, hrender, by decide +kernel, by decide +kernel, by decide +kernel, by decide +kernel,
    by decide +kernel, by decide +kernel⟩

end Document

end XmlScript
