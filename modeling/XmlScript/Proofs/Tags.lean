import XmlScript.Markup.Layout
import XmlScript.Markup.Writer
import XmlScript.Proofs.Literal
import XmlScript.Proofs.Written

/-!
# Markup that is read where it is written

Every piece of markup that the writer makes is at most one event to the reader, and the same one
whatever follows it: `event?_items` and its companions. Names are read up to the first character
that no name holds (`writtenName?_append`), attributes and declarations up to their quote
(`Item.attribute?_append`), comments and instructions up to their marks. The tags of documents can
have names that the reader does not take, and then there is no event; where all names are legible
there is one (`event?_startTag`). A value reads back because each of its characters does (`Spells`).
-/

namespace XmlScript.Markup

open Text (cutAt)

variable {s rest after : List Char}

/-! ## Names -/

theorem take?_append {isStart isPart : Char → Bool} {name : List Char}
    (h : IsName isStart isPart name) (hrest : ∀ c ∈ rest.head?, isPart c = false) :
    Name.take? isStart isPart (name ++ rest) = some (name, rest) := by
  obtain ⟨c, more, rfl, hc, hmore⟩ := h
  obtain ⟨htake, hdrop⟩ := Text.span_append hmore hrest
  rw [List.cons_append, Name.take?, if_pos hc, htake, hdrop]

/-- A name ends before what cannot be a part of it, whatever there is of the name. -/
theorem take?_append_rest {isStart isPart : Char → Bool}
    (hstart : ∀ c ∈ rest.head?, isStart c = false) (hpart : ∀ c ∈ rest.head?, isPart c = false)
    (s : List Char) : Name.take? isStart isPart (s ++ rest) =
      (Name.take? isStart isPart s).map fun x => (x.1, x.2 ++ rest) := by
  have hspan (s : List Char) : (s ++ rest).takeWhile isPart = s.takeWhile isPart ∧
      (s ++ rest).dropWhile isPart = s.dropWhile isPart ++ rest := by
    induction s with
    | nil =>
      cases rest with
      | nil => exact ⟨rfl, rfl⟩
      | cons x rest => simp [hpart x rfl]
    | cons c s ih =>
      rw [List.cons_append, List.takeWhile_cons, List.dropWhile_cons, List.takeWhile_cons,
        List.dropWhile_cons, ih.1, ih.2]
      split
      next => exact ⟨rfl, rfl⟩
      next => exact ⟨rfl, rfl⟩
  cases s with
  | nil =>
    cases rest with
    | nil => rfl
    | cons x rest =>
      simp [Name.take?, hstart x rfl]
  | cons c s =>
    rw [List.cons_append, Name.take?, Name.take?, (hspan s).1, (hspan s).2]
    split <;> rfl

/-- A name as it is written. -/
def WrittenName.text (name : WrittenName) : List Char :=
  match name.alias? with
  | some short => short.toList ++ ':' :: name.localPart.toList
  | none => name.localPart.toList

theorem WrittenName.Legible.isTagName_text {name : WrittenName} (h : name.Legible) :
    IsTagName name.text := by
  obtain ⟨alias?, localPart⟩ := name
  cases alias? with
  | none => exact IsPlainName.isTagName h.localPart
  | some short =>
    exact IsTagName.prefixed (IsPlainName.isTagName (h.alias? short rfl)).not_mem
      (IsPlainName.isTagName h.localPart)

/-- A text in front of which the name of a tag or an attribute ends. -/
def EndsName (s : List Char) : Prop := ∃ c rest, s = c :: rest ∧ c ∈ [' ', '=', '/', '>']

theorem EndsName.head {c : Char} (h : EndsName rest) (hc : c ∈ rest.head?) :
    Name.isPlainPart c = false ∧ c ≠ ':' := by
  have hall : [' ', '=', '/', '>'].all fun x => !Name.isPlainPart x && x != ':' := by
    decide +kernel
  obtain ⟨x, more, rfl, hx⟩ := h
  have hx := List.all_eq_true.1 hall x hx
  rw [Bool.and_eq_true, Bool.not_eq_true', bne_iff_ne] at hx
  rwa [← Option.some.inj hc]

theorem writtenName?_text {name : WrittenName} (h : name.Legible) (hrest : EndsName rest) :
    writtenName? (name.text ++ rest) = some (name, rest) := by
  obtain ⟨alias?, localPart⟩ := name
  have hlocal := take?_append h.localPart fun c hc => (hrest.head hc).1
  cases alias? with
  | none =>
    show writtenName? (localPart.toList ++ rest) = _
    unfold writtenName?
    rw [hlocal, Option.map_some]
    obtain ⟨c, more, rfl, hc⟩ := hrest
    have hcolon : c ≠ ':' := (EndsName.head ⟨c, more, rfl, hc⟩ rfl).2
    simp only [String.ofList_toList]
    split
    next he =>
      cases he
      exact absurd rfl hcolon
    next => rfl
  | some short =>
    have hshort : Name.take? Name.isPlainStart Name.isPlainPart
        (short.toList ++ ':' :: (localPart.toList ++ rest)) =
          some (short.toList, ':' :: (localPart.toList ++ rest)) := by
      refine take?_append (h.alias? short rfl) fun c hc => ?_
      rw [← Option.some.inj hc]
      decide +kernel
    show writtenName? (short.toList ++ ':' :: localPart.toList ++ rest) = _
    unfold writtenName?
    rw [List.append_assoc, List.cons_append, hshort, Option.map_some]
    simp only [hlocal, String.ofList_toList]

theorem eq_append_of_writtenName? (h : writtenName? s = some (name, rest)) :
    s = name.text ++ rest := by
  obtain ⟨⟨first, rest₁⟩, hfirst, h⟩ := Option.map_eq_some_iff.1 h
  have hs := Name.eq_append_of_take? hfirst
  simp only at h
  split at h
  next more =>
    split at h
    next second after hsecond =>
      cases h
      rw [hs, Name.eq_append_of_take? hsecond]
      simp [WrittenName.text]
    next =>
      cases h
      simpa [WrittenName.text] using hs
  next =>
    cases h
    simpa [WrittenName.text] using hs

/-- What a name that a script gives is to the reader, if the reader takes all of it for a name. -/
def asWritten? (name : String) : Option WrittenName :=
  match writtenName? name.toList with
  | some (w, []) => some w
  | _ => none

theorem legible_of_asWritten? {name : WrittenName} {given : String}
    (h : asWritten? given = some name) :
    name.Legible ∧ name.text = given.toList := by
  unfold asWritten? at h
  split at h
  next hread =>
    cases h
    refine ⟨legible_of_writtenName? hread, ?_⟩
    rw [eq_append_of_writtenName? hread, List.append_nil]
  next => cases h

theorem writtenName?_append (hrest : EndsName rest) (s : List Char) :
    writtenName? (s ++ rest) = (writtenName? s).map fun x => (x.1, x.2 ++ rest) := by
  have hpart : ∀ c ∈ rest.head?, Name.isPlainPart c = false := fun c hc => (hrest.head hc).1
  have hstart : ∀ c ∈ rest.head?, Name.isPlainStart c = false := fun c hc =>
    (Bool.or_eq_false_iff.1 (hpart c hc)).1
  have htake := take?_append_rest hstart hpart
  unfold writtenName?
  rw [htake, Option.map_map, Option.map_map]
  refine Option.map_congr fun ⟨first, more⟩ _ => ?_
  cases more with
  | nil =>
    obtain ⟨c, more, rfl, hc⟩ := hrest
    have hcolon : c ≠ ':' := (EndsName.head ⟨c, more, rfl, hc⟩ rfl).2
    simp [hcolon]
  | cons x more =>
    by_cases hx : x = ':'
    · subst hx
      simp only [Function.comp_apply, List.cons_append, htake]
      cases Name.take? Name.isPlainStart Name.isPlainPart more with
      | none => rfl
      | some y => rfl
    · simp [hx]

theorem asWritten?_ofList (s : List Char) : asWritten? (String.ofList s) =
    (writtenName? s).bind fun x => if x.2 = [] then some x.1 else none := by
  unfold asWritten?
  rw [String.toList_ofList]
  rcases writtenName? s with _ | ⟨w, _ | ⟨c, more⟩⟩
  · rfl
  · rfl
  · rfl

theorem WrittenName.Legible.asWritten?_text {name : WrittenName} (h : name.Legible) :
    asWritten? (String.ofList name.text) = some name := by
  have hend : EndsName ['>'] := ⟨'>', [], rfl, by decide⟩
  have hread := writtenName?_text h hend
  rw [writtenName?_append hend] at hread
  obtain ⟨⟨w, more⟩, hw, he⟩ := Option.map_eq_some_iff.1 hread
  obtain ⟨rfl, hmore⟩ := Prod.mk.inj he
  have hmore : more = [] := List.append_left_eq_self.1 hmore
  rw [asWritten?_ofList, hw, hmore]
  rfl

/-! ## Characters -/

/-- A character as it is or by a reference. -/
inductive Spells (c : Char) : List Char → Prop
  | plain (h : c ∉ ['<', '>', '&']) : Spells c [c]
  | reference (entity : List Char) (hs : ';' ∉ entity) (hc : referenced? entity = some c) :
    Spells c ('&' :: (entity ++ [';']))

/-- The names that the writer uses are references to the reader. -/
theorem Escapes.spells {c : Char} {w : List Char} (h : Escapes c w) : Spells c w := by
  cases h with
  | plain hc => exact .plain hc
  | named name hs hc => exact .reference name hs.2 (by simp only [referenced?, hc])

/-- A value is read character by character. -/
theorem expand?_spells {c : Char} {written : List Char} {value : List Char} {bound : Nat}
    (hc : Spells c written)
    (hb : (written ++ rest).length ≤ bound)
    (h : ∀ bound, rest.length ≤ bound → expand? bound rest = some value) :
    expand? bound (written ++ rest) = some (c :: value) := by
  cases bound with
  | zero =>
    rw [Nat.le_zero, List.length_eq_zero_iff, List.append_eq_nil_iff] at hb
    cases hc with
    | plain => cases hb.1
    | reference => cases hb.1
  | succ bound =>
    rw [List.length_append] at hb
    cases hc with
    | plain hplain =>
      simp only [List.mem_cons, List.not_mem_nil, or_false, not_or] at hplain
      rw [List.length_singleton] at hb
      rw [List.cons_append, List.nil_append, expand?, if_neg hplain.1, if_neg hplain.2.2,
        h bound (by omega), Option.map_some]
    | reference entity hs href =>
      rw [List.length_cons] at hb
      rw [List.cons_append, List.append_assoc, List.singleton_append, expand?, if_neg (by decide),
        if_pos rfl, Text.cutAt_append hs, Option.bind_some]
      simp only [href, Option.bind_some, h bound (by omega), Option.map_some]

theorem expand?_flatMap {write : Char → List Char} (hw : ∀ c, Spells c (write c))
    (value : List Char) :
    ∀ bound, (value.flatMap write).length ≤ bound →
      expand? bound (value.flatMap write) = some value := by
  induction value with
  | nil =>
    intro bound _
    cases bound <;> rfl
  | cons c value ih =>
    intro bound hb
    rw [List.flatMap_cons] at hb ⊢
    exact expand?_spells (hw c) hb ih

/-- A text without the characters that open markup stands for itself. -/
theorem expand?_plain (h : ∀ c ∈ s, c ∉ ['<', '&']) :
    ∀ bound, s.length ≤ bound → expand? bound s = some s := by
  induction s with
  | nil =>
    intro bound _
    cases bound <;> rfl
  | cons c s ih =>
    intro bound hb
    rw [List.forall_mem_cons] at h
    simp only [List.mem_cons, List.not_mem_nil, or_false, not_or] at h
    cases bound with
    | zero => cases hb
    | succ bound =>
      rw [expand?, if_neg h.1.1, if_neg h.1.2, ih (by simpa using h.2) bound (by simpa using hb),
        Option.map_some]

/-! ## Items -/

/-- What is left behind a name in a text without reserved characters. -/
theorem not_mem_of_writtenName? {w : WrittenName} (hs : ∀ c ∈ s, c ∉ reserved)
    (h : writtenName? s = some (w, rest)) : ∀ c ∈ rest, c ∉ reserved := fun c hc =>
  hs c (by
    rw [eq_append_of_writtenName? h]
    exact List.mem_append_right _ hc)

namespace Item

/-- What the reader makes of an item. -/
def read? (x : Item) : Option (WrittenName × String) :=
  (asWritten? (String.ofList x.key)).bind fun name =>
    (expand? x.raw.length x.raw).map fun value => (name, String.ofList value)

variable {x : Item} {items : List Item}

theorem quoted?_append (h : x.Closed) :
    quoted? (x.quote :: (x.raw ++ x.quote :: rest)) = some (x.raw, rest) := by
  have hcut := Text.cutAt_append h.raw rest
  rcases h.quote with hq | hq
  · rw [hq] at hcut ⊢
    exact hcut
  · rw [hq] at hcut ⊢
    exact hcut

/-- Where a name ends before its key does, no attribute is read. -/
theorem skipEquals?_bind_quoted? {c : Char} {more t : List Char}
    (h : ∀ x ∈ c :: more, x ∉ reserved) :
    (skipEquals? (c :: more ++ '=' :: t)).bind quoted? = none := by
  have hskip {x : Char} {t : List Char} (hx : x ∉ reserved) : skipBlanks (x :: t) = x :: t := by
    rw [skipBlanks, List.dropWhile_cons_of_neg (by
      rw [isMarkupBlank_eq_false hx]
      exact Bool.false_ne_true)]
  have hquoted {x : Char} {t : List Char} (hx : x ∉ reserved) : quoted? (x :: t) = none := by
    simp only [reserved, List.mem_cons, not_or] at hx
    unfold quoted?
    split
    next he =>
      cases he
      simp at hx
    next he =>
      cases he
      simp at hx
    next => rfl
  have hequals : '=' ∉ reserved := by decide
  rw [List.forall_mem_cons] at h
  unfold skipEquals?
  rw [List.cons_append, hskip h.1, Option.bind_map]
  unfold skip?
  split
  next hprefix =>
    -- the key has an equals sign of its own, and behind it there is no quote
    show quoted? (skipBlanks (more ++ '=' :: t)) = none
    cases more with
    | nil => rw [List.nil_append, hskip hequals, hquoted hequals]
    | cons x more =>
      have hx := h.2 x (List.mem_cons_self ..)
      rw [List.cons_append, hskip hx, hquoted hx]
  next => rfl

theorem attribute?_append (h : x.Closed) (rest : List Char) :
    attribute? (x.key ++ '=' :: x.quote :: (x.raw ++ x.quote :: rest)) =
      x.read?.map (·, rest) := by
  have hend : EndsName ('=' :: x.quote :: (x.raw ++ x.quote :: rest)) := ⟨'=', _, rfl, by decide⟩
  unfold attribute? read?
  rw [writtenName?_append hend, asWritten?_ofList]
  cases hname : writtenName? x.key with
  | none => rfl
  | some y =>
    obtain ⟨w, more⟩ := y
    simp only [Option.map_some, Option.bind_some]
    cases more with
    | nil =>
      have hblank : Text.isMarkupBlank x.quote = false := by
        rcases h.quote with hq | hq
        · rw [hq]; decide
        · rw [hq]; decide
      have hequals : skipEquals? ('=' :: x.quote :: (x.raw ++ x.quote :: rest)) =
          some (x.quote :: (x.raw ++ x.quote :: rest)) := by
        show some (skipBlanks (x.quote :: _)) = _
        rw [skipBlanks, List.dropWhile_cons_of_neg (by rw [hblank]; exact Bool.false_ne_true)]
      rw [List.nil_append, hequals, if_pos rfl, Option.bind_some, quoted?_append h]
      simp only [Option.bind_some, Option.map_map]
      rfl
    | cons c more =>
      have hnone := skipEquals?_bind_quoted? (t := x.quote :: (x.raw ++ x.quote :: rest))
        (not_mem_of_writtenName? h.key hname)
      rw [if_neg (List.cons_ne_nil _ _), ← Option.bind_assoc, hnone]
      rfl

end Item

/-! ## Tags -/

/-- The end of a tag that has no end tag, or that has one. -/
def tagEnd (isEmpty : Bool) : List Char := if isEmpty then ['/', '>'] else ['>']

theorem tagRest?_tagEnd (isEmpty : Bool) (bound : Nat) :
    tagRest? (bound + 1) (tagEnd isEmpty ++ after) = some (([], isEmpty), after) := by
  cases isEmpty <;> rfl

/-- What stands behind the blank in front of an item is neither a blank nor the end of a tag. -/
theorem Item.exists_cons {x : Item} (h : x.Closed) (rest : List Char) :
    ∃ c t, x.key ++ '=' :: x.quote :: (x.raw ++ x.quote :: rest) = c :: t ∧ c ∉ reserved := by
  cases hkey : x.key with
  | nil => exact ⟨'=', _, rfl, by decide⟩
  | cons c t => exact ⟨c, _, rfl, h.key c (by rw [hkey]; exact List.mem_cons_self ..)⟩

theorem tagRest?_cons {x : Item} (hx : x.Closed) {bound : Nat} :
    tagRest? (bound + 1) (x.text ++ rest) = x.read?.bind fun a =>
      (tagRest? bound rest).map fun ((attributes, isEmpty), after) =>
        ((a :: attributes, isEmpty), after) := by
  have htext : x.text ++ rest =
      ' ' :: (x.key ++ '=' :: x.quote :: (x.raw ++ x.quote :: rest)) := by
    simp [Item.text]
  have hread := Item.attribute?_append hx rest
  obtain ⟨c, t, hc, hreserved⟩ := Item.exists_cons hx rest
  have hblank := isMarkupBlank_eq_false hreserved
  have hskip : skipBlanks (' ' :: c :: t) = c :: t := by
    rw [skipBlanks, List.dropWhile_cons_of_pos (by decide),
      List.dropWhile_cons_of_neg (by rw [hblank]; exact Bool.false_ne_true)]
  rw [hc] at hread htext
  rw [htext, tagRest?, hskip]
  split
  next he =>
    obtain ⟨rfl, -⟩ := List.cons.inj he
    exact absurd (by decide) hreserved
  next he =>
    obtain ⟨rfl, -⟩ := List.cons.inj he
    exact absurd (by decide) hreserved
  next =>
    show (some _).bind _ = _
    rw [Option.bind_some, hread, Option.bind_map]
    rfl

/-- Items are read one after the other up to the end of the tag. -/
theorem tagRest?_append {items : List Item} (hx : ∀ x ∈ items, x.Closed) {bound : Nat}
    (hb : items.length < bound) (isEmpty : Bool) :
    tagRest? bound (items.flatMap Item.text ++ (tagEnd isEmpty ++ after)) =
      (items.mapM Item.read?).map fun attributes => ((attributes, isEmpty), after) := by
  induction items generalizing bound with
  | nil =>
    obtain ⟨bound, rfl⟩ := Nat.exists_eq_succ_of_ne_zero (Nat.ne_of_gt hb)
    exact tagRest?_tagEnd isEmpty bound
  | cons x items ih =>
    rw [List.forall_mem_cons] at hx
    obtain ⟨bound, rfl⟩ := Nat.exists_eq_succ_of_ne_zero (Nat.ne_of_gt (Nat.lt_of_le_of_lt
      (Nat.zero_le _) hb))
    rw [List.flatMap_cons, List.append_assoc, tagRest?_cons hx.1,
      ih hx.2 (Nat.lt_of_succ_lt_succ hb), List.mapM_cons]
    cases x.read? with
    | none => rfl
    | some a => cases items.mapM Item.read? <;> rfl

/-- What the reader makes of a name and some items. -/
def readHead? (name : List Char) (items : List Item) :
    Option (WrittenName × List (WrittenName × String)) :=
  (asWritten? (String.ofList name)).bind fun w =>
    (items.mapM Item.read?).map fun attributes => (w, attributes)

theorem startTag?_append {name : List Char} {items : List Item} (hname : ∀ c ∈ name, c ∉ reserved)
    (hx : ∀ x ∈ items, x.Closed) (isEmpty : Bool) (after : List Char) :
    startTag? (name ++ (items.flatMap Item.text ++ (tagEnd isEmpty ++ after))) =
      (readHead? name items).map fun x => (.startTag x.1 x.2 isEmpty, after) := by
  have hend : EndsName (items.flatMap Item.text ++ (tagEnd isEmpty ++ after)) := by
    cases items with
    | nil =>
      cases isEmpty with
      | true => exact ⟨'/', _, rfl, by decide⟩
      | false => exact ⟨'>', _, rfl, by decide⟩
    | cons x items => exact ⟨' ', _, rfl, by decide⟩
  have hlength : items.length ≤ (items.flatMap Item.text).length := by
    clear hx hend
    induction items with
    | nil => exact Nat.le_refl _
    | cons x items ih =>
      rw [List.flatMap_cons, List.length_append, List.length_cons, Item.text, List.length_cons]
      omega
  unfold startTag? readHead?
  rw [writtenName?_append hend, asWritten?_ofList]
  cases hread : writtenName? name with
  | none => rfl
  | some y =>
    obtain ⟨w, more⟩ := y
    simp only [Option.map_some, Option.bind_some]
    cases more with
    | nil =>
      rw [List.nil_append, tagRest?_append hx (by rw [List.length_append]; omega) isEmpty,
        if_pos rfl, Option.bind_some]
      simp only [Option.map_map]
      rfl
    | cons c more =>
      -- behind the name there is neither a blank nor the end of the tag
      have hc := not_mem_of_writtenName? hname hread c (List.mem_cons_self ..)
      have hblank := isMarkupBlank_eq_false hc
      rw [if_neg (List.cons_ne_nil _ _), Option.bind_none, List.cons_append, tagRest?, skipBlanks,
        List.dropWhile_cons_of_neg (by rw [hblank]; exact Bool.false_ne_true)]
      split
      next he =>
        obtain ⟨rfl, -⟩ := List.cons.inj he
        exact absurd (by decide) hc
      next he =>
        obtain ⟨rfl, -⟩ := List.cons.inj he
        exact absurd (by decide) hc
      next =>
        have hnone (t : List Char) : skipSomeBlanks? (c :: t) = none :=
          if_neg (by rw [hblank]; exact Bool.false_ne_true)
        rw [hnone]
        rfl

/-- What opens with a name is a start tag. -/
theorem event?_name {c : Char} (hc : c ∉ reserved) (s : List Char) :
    event? ('<' :: c :: s) = startTag? (c :: s) := by
  simp only [reserved, List.mem_cons, not_or] at hc
  unfold event?
  split
  next he => cases he
  next he =>
    cases he
    simp at hc
  next he =>
    cases he
    simp at hc
  next he =>
    cases he
    simp at hc
  next he =>
    cases he
    rfl
  next he => cases he
  next hnone _ => exact absurd rfl (hnone _)

/-- The start tag of an element is read alike with an end tag and without. -/
theorem event?_items {name : List Char} {items : List Item} (hname : IsTagName name)
    (hx : ∀ x ∈ items, x.Closed) (isEmpty : Bool) (after : List Char) :
    event? ('<' :: (name ++ items.flatMap Item.text ++ tagEnd isEmpty) ++ after) =
      (readHead? name items).map fun x => (.startTag x.1 x.2 isEmpty, after) := by
  have hread := startTag?_append hname.not_mem hx isEmpty after
  obtain ⟨c, more, hc⟩ := List.exists_cons_of_ne_nil hname.ne_nil
  have hreserved := hname.not_mem c (by rw [hc]; exact List.mem_cons_self ..)
  rw [hc] at hread ⊢
  simp only [List.cons_append, List.append_assoc] at hread ⊢
  rw [event?_name hreserved, hread]

theorem event?_endTag_name {name : List Char} (hname : ∀ c ∈ name, c ∉ reserved)
    (after : List Char) : event? ((Piece.endTag name).written ++ after) =
      (asWritten? (String.ofList name)).map fun w => (.endTag w, after) := by
  have hwritten : (Piece.endTag name).written ++ after = '<' :: '/' :: (name ++ '>' :: after) := by
    rw [written_endTag]
    show '<' :: '/' :: (name ++ ['>'] ++ after) = _
    rw [List.append_assoc]
    rfl
  have hend : EndsName ('>' :: after) := ⟨'>', after, rfl, by decide⟩
  rw [hwritten]
  show endTag? (name ++ '>' :: after) = _
  unfold endTag?
  rw [writtenName?_append hend, asWritten?_ofList]
  cases hread : writtenName? name with
  | none => rfl
  | some y =>
    obtain ⟨w, more⟩ := y
    cases more with
    | nil => rfl
    | cons c more =>
      have hc := not_mem_of_writtenName? hname hread c (List.mem_cons_self ..)
      have hblank := isMarkupBlank_eq_false hc
      have hne : '>' ≠ c := fun he => hc (by rw [← he]; decide)
      simp only [Option.map_some, Option.bind_some, List.cons_append, skipBlanks]
      rw [List.dropWhile_cons_of_neg (by rw [hblank]; exact Bool.false_ne_true)]
      simp [skip?, hne]

/-- What is written in the tags of an element is the same to the reader with an end tag and without,
and whatever follows. -/
theorem IsHead.exists_event {tag head : List Char} (h : IsHead tag head) :
    ∃ read? : Option (WrittenName × List (WrittenName × String)),
      (∀ isEmpty after, event? ('<' :: (head ++ tagEnd isEmpty) ++ after) =
        read?.map fun x => (.startTag x.1 x.2 isEmpty, after)) ∧
      ∀ x ∈ read?, ∀ after, event? ((Piece.endTag tag).written ++ after) =
        some (.endTag x.1, after) := by
  obtain ⟨hname, items, hitems, rfl⟩ := h
  refine ⟨readHead? tag items, event?_items hname hitems, fun x hx after => ?_⟩
  obtain ⟨w, hw, hx⟩ := Option.bind_eq_some_iff.1 hx
  obtain ⟨attributes, -, rfl⟩ := Option.map_eq_some_iff.1 hx
  rw [event?_endTag_name hname.not_mem, hw]
  rfl

/-! ## Tags that are legible -/

/-- An attribute or a declaration as it is written in a start tag, and its value. -/
structure Quoted where
  name : WrittenName
  quote : Char
  raw : List Char
  value : String

namespace Quoted

/-- What is written of it. -/
def item (x : Quoted) : Item := ⟨x.name.text, x.quote, x.raw⟩

/-- What is read of it. -/
def read (x : Quoted) : WrittenName × String := (x.name, x.value)

/-- It ends at its last quote, and its value is what it says. -/
structure Sound (x : Quoted) : Prop where
  name : x.name.Legible
  quote : x.quote = '"' ∨ x.quote = '\''
  raw : x.quote ∉ x.raw
  value : expand? x.raw.length x.raw = some x.value.toList

variable {x : Quoted}

theorem Sound.closed (h : x.Sound) : x.item.Closed :=
  ⟨h.name.isTagName_text.not_mem, h.quote, h.raw⟩

theorem Sound.read?_item (h : x.Sound) : x.item.read? = some x.read := by
  unfold Item.read? item
  rw [h.name.asWritten?_text, Option.bind_some, h.value, Option.map_some, String.ofList_toList]
  rfl

end Quoted

theorem event?_startTag {name : WrittenName} {xs : List Quoted} (hname : name.Legible)
    (hx : ∀ x ∈ xs, x.Sound) (isEmpty : Bool) (after : List Char) :
    event? ('<' :: (name.text ++ (xs.map Quoted.item).flatMap Item.text ++ tagEnd isEmpty) ++
      after) = some (.startTag name (xs.map Quoted.read) isEmpty, after) := by
  have hread : (xs.map Quoted.item).mapM Item.read? = some (xs.map Quoted.read) := by
    induction xs with
    | nil => rfl
    | cons x xs ih =>
      rw [List.forall_mem_cons] at hx
      rw [List.map_cons, List.mapM_cons, hx.1.read?_item, ih hx.2]
      rfl
  have hclosed : ∀ x ∈ xs.map Quoted.item, x.Closed :=
    List.forall_mem_map.2 fun x hmem => (hx x hmem).closed
  rw [event?_items hname.isTagName_text hclosed, readHead?, hname.asWritten?_text, hread]
  rfl

theorem event?_endTag {name : WrittenName} (hname : name.Legible) (after : List Char) :
    event? ((Piece.endTag name.text).written ++ after) = some (.endTag name, after) := by
  rw [event?_endTag_name hname.isTagName_text.not_mem, hname.asWritten?_text]
  rfl

/-! ## Comments, sections, instructions -/

theorem cutAt_hyphens (h : ¬ ['-', '-'] <:+: s ++ ['-']) (b : List Char) :
    cutAt ['-', '-'] (s ++ ['-', '-'] ++ b) = some (s, b) := by
  refine Text.cutAt_append_mark (List.cons_ne_nil _ _) fun t ht hsuffix hpre => h ?_
  -- hyphens that begin in the comment end in it, or with the first one of its end
  have hin : t ++ ['-'] <:+ s ++ ['-'] := by
    obtain ⟨u, hu⟩ := hsuffix
    exact ⟨u, by rw [← List.append_assoc, hu]⟩
  match t with
  | [] => exact absurd rfl ht
  | [c] =>
    simp only [List.cons_append, List.nil_append, List.cons_prefix_cons] at hpre
    rw [← hpre.1] at hin
    exact hin.isInfix
  | c :: c' :: rest =>
    simp only [List.cons_append, List.cons_prefix_cons, List.nil_prefix, and_true] at hpre
    rw [← hpre.1, ← hpre.2] at hin
    exact List.infix_iff_prefix_suffix.2 ⟨_, ⟨rest ++ ['-'], rfl⟩, hin⟩

theorem event?_comment (h : ¬ ['-', '-'] <:+: s ++ ['-']) (after : List Char) :
    event? ((Piece.comment s).written ++ after) = some (.comment (String.ofList s), after) := by
  have hwritten : (Piece.comment s).written ++ after =
      '<' :: '!' :: '-' :: '-' :: (s ++ ['-', '-'] ++ '>' :: after) := by
    show '<' :: '!' :: '-' :: '-' :: (s ++ ['-', '-', '>'] ++ after) = _
    simp
  rw [hwritten]
  show comment? (s ++ ['-', '-'] ++ '>' :: after) = _
  unfold comment?
  rw [cutAt_hyphens h]
  rfl

theorem event?_cdata (h : ¬ [']', ']', '>'] <:+: s) (after : List Char) :
    event? ((Piece.cdata s).written ++ after) = some (.cdata (String.ofList s), after) := by
  have hwritten : (Piece.cdata s).written ++ after =
      "<![CDATA[".toList ++ (s ++ [']', ']', '>'] ++ after) := by
    show "<![CDATA[".toList ++ s ++ [']', ']', '>'] ++ after = _
    simp only [List.append_assoc]
  rw [hwritten]
  show cdata? (s ++ [']', ']', '>'] ++ after) = _
  unfold cdata?
  rw [show "]]>".toList = [']', ']', '>'] from rfl, Text.cutAt_sectionEnd h]
  rfl

theorem isChar_of_isMarkupBlank {c : Char} (h : Text.isMarkupBlank c = true) :
    Name.isChar c = false := by
  refine Bool.eq_false_iff.2 fun hc => ?_
  rw [isMarkupBlank_eq_false (not_mem_reserved isNameClass_char hc)] at h
  cases h

/-- A target that is not reserved does not look like the start of a declaration: after the three
letters its name goes on. -/
theorem declaration?_instruction {target data : List Char}
    (ht : IsName Name.isStartChar Name.isChar target) (hr : isReservedTarget target = false)
    (hdata : ∀ c ∈ data.head?, Name.isChar c = false) :
    declaration? ('<' :: '?' :: (target ++ data)) = none := by
  unfold declaration?
  rw [Option.bind_eq_none_iff]
  intro s₁ hs₁
  have htarget := take?_append ht hdata
  unfold skip? at hs₁
  split at hs₁
  next hprefix =>
    obtain ⟨t, hsplit⟩ := List.isPrefixOf_iff_prefix.1 hprefix
    have hsplit : '<' :: '?' :: 'x' :: 'm' :: 'l' :: t = '<' :: '?' :: (target ++ data) := hsplit
    rw [← hsplit] at hs₁
    have hs₁ : t = s₁ := Option.some.inj hs₁
    obtain ⟨-, hsplit⟩ := List.cons.inj hsplit
    obtain ⟨-, hsplit⟩ := List.cons.inj hsplit
    rw [← hsplit, hs₁] at htarget
    have hblank : skipSomeBlanks? s₁ = none := by
      cases s₁ with
      | nil => rfl
      | cons c rest =>
        refine if_neg fun hc => ?_
        -- before a blank the name would be the reserved one
        have hxml : Name.take? Name.isStartChar Name.isChar ('x' :: 'm' :: 'l' :: c :: rest) =
            some ("xml".toList, c :: rest) :=
          take?_append (show IsName Name.isStartChar Name.isChar "xml".toList by
            decide +kernel) fun x hx => by
              rw [← Option.some.inj hx]
              exact isChar_of_isMarkupBlank hc
        rw [hxml] at htarget
        have hname : target = "xml".toList := (congrArg Prod.fst (Option.some.inj htarget)).symm
        rw [hname] at hr
        exact absurd hr (by decide)
    unfold setting?
    rw [hblank]
    rfl
  next => cases hs₁

theorem skipBlanks_append (hs : ∀ c ∈ rest.head?, Text.isMarkupBlank c = false) :
    skipBlanks (s ++ rest) = skipBlanks s ++ rest := by
  unfold skipBlanks
  rw [List.dropWhile_append]
  split
  next hempty =>
    rw [List.isEmpty_iff.1 hempty, List.nil_append]
    cases rest with
    | nil => rfl
    | cons c rest =>
      have hc := hs c rfl
      rw [List.dropWhile_cons_of_neg (by rw [hc]; exact Bool.false_ne_true)]
  next => rfl

/-- The data of an instruction is read without the blanks in front. -/
theorem event?_instruction {target : String} {data? : Option String}
    (ht : IsName Name.isStartChar Name.isChar target.toList)
    (hr : isReservedTarget target.toList = false)
    (hdata : ∀ data ∈ data?, ¬ ['?', '>'] <:+: data.toList) (after : List Char) :
    event? (writeInstruction target data? ++ after) =
      some (.instruction target (data?.map fun data => String.ofList (skipBlanks data.toList)),
        after) := by
  let tail : List Char :=
    data?.elim ('?' :: '>' :: after) fun data => ' ' :: (data.toList ++ ['?', '>'] ++ after)
  have hwritten : writeInstruction target data? ++ after =
      '<' :: '?' :: (target.toList ++ tail) := by
    unfold writeInstruction
    cases data? with
    | none =>
      show '<' :: '?' :: (target.toList ++ [] ++ ['?', '>'] ++ after) = _
      rw [List.append_nil, List.append_assoc]
      rfl
    | some data =>
      show '<' :: '?' :: (target.toList ++ ' ' :: data.toList ++ ['?', '>'] ++ after) = _
      rw [List.append_assoc, List.append_assoc, List.cons_append, ← List.append_assoc]
      rfl
  have hhead : ∀ c ∈ tail.head?, Name.isChar c = false := by
    cases data? with
    | none | some data =>
      intro c hc
      rw [← Option.some.inj hc]
      decide +kernel
  have hread : instruction? (target.toList ++ tail) =
      some (.instruction target (data?.map fun data => String.ofList (skipBlanks data.toList)),
        after) := by
    unfold instruction?
    rw [take?_append ht hhead, Option.bind_some]
    simp only [hr, Bool.false_eq_true, if_false, String.ofList_toList]
    cases data? with
    | none => rfl
    | some data =>
      have hcut : cutAt "?>".toList (skipBlanks (data.toList ++ ['?', '>'] ++ after)) =
          some (skipBlanks data.toList, after) := by
        rw [List.append_assoc, skipBlanks_append fun c hc => by
          rw [← Option.some.inj hc]
          decide, ← List.append_assoc]
        exact Text.cutAt_instructionEnd (fun h => hdata data rfl
          (h.trans (List.dropWhile_suffix _).isInfix)) after
      show (cutAt "?>".toList (skipBlanks (data.toList ++ ['?', '>'] ++ after))).map _ = _
      rw [hcut]
      rfl
  rw [hwritten]
  unfold event?
  simp only [declaration?_instruction ht hr hhead, hread]

theorem event?_declaration (encoding : Bool) (after : List Char) :
    event? (declaration encoding ++ after) = some (.declaration, after) := by
  cases encoding <;> rfl

end XmlScript.Markup
