import XmlScript.Markup.Writer
import XmlScript.Proofs.Legible
import XmlScript.Proofs.Literal

/-!
# Tags that are written

Prefixes come from the names of a document or are invented, and namespaces come from its names
(`Scope.binds_ofElement`, for any property of such pairs). So everything that the elements around a
place have taken or declared may stand in a tag (`Scope.Sound`). Then the inside of a tag is a name
and some items that end where they are meant to (`isHead_of_written`), so that nothing after the name
looks like the end of the tag (`IsHead.tagBody`). Declarations are the weak place: a namespace is
written as it is between apostrophes, so `Content.Unquoted` asks that it has none. Text and values
are written character by character, each as it is or by its name (`Escapes`).
-/

namespace XmlScript

open Markup (reserved IsTagName)

/-- The namespaces that a node names have no apostrophe in them. -/
def Content.Unquoted : Content → Prop
  | .element label =>
    (∀ uri ∈ label.name.space?, '\'' ∉ uri.toList) ∧ ∀ uri ∈ label.defaultSpace?, '\'' ∉ uri.toList
  | .attribute a => ∀ uri ∈ a.name.space?, '\'' ∉ uri.toList
  | .document | .text _ _ | .comment _ | .instruction _ _ => True

instance : DecidablePred Content.Unquoted
  | .element label => inferInstanceAs (Decidable ((∀ uri ∈ label.name.space?, '\'' ∉ uri.toList) ∧
    ∀ uri ∈ label.defaultSpace?, '\'' ∉ uri.toList))
  | .attribute a => inferInstanceAs (Decidable (∀ uri ∈ a.name.space?, '\'' ∉ uri.toList))
  | .document | .text _ _ | .comment _ | .instruction _ _ => isTrue trivial

/-- Scripts make names in no namespace. -/
theorem makeable_unquoted : Document.Makeable Content.Unquoted where
  absent := trivial
  newElement _ := ⟨nofun, nofun⟩
  newAttribute _ := nofun
  newValue ha := ha
  newText := trivial

/-- What can be written so that it reads back. -/
structure Content.Writable (c : Content) : Prop where
  legible : c.Legible
  unquoted : c.Unquoted

namespace Markup

/-! ## Prefixes -/

/-- A prefix and its namespace as they may stand in a declaration. -/
structure IsBinding (p : String × String) : Prop where
  short : ∀ c ∈ p.1.toList, c ∉ reserved
  uri : '\'' ∉ p.2.toList

namespace Scope

variable {B : String × String → Prop} {s : Scope} {around : List Scope} {short uri : String}
  {count : Nat} {label : Label} {attributes : List Attribute}

/-- Everything that an element takes and declares has a property. -/
structure Binds (B : String × String → Prop) (s : Scope) : Prop where
  taken : ∀ p ∈ s.taken, B p
  declared : ∀ p ∈ s.declared, B p

namespace Binds

theorem take (h : s.Binds B) (hp : B (short, uri)) : (s.take short uri).Binds B where
  taken := List.forall_mem_cons.2 ⟨hp, h.taken⟩
  declared := h.declared

theorem declare (h : s.Binds B) (hp : B (short, uri)) : (s.declare short uri).Binds B where
  taken := List.forall_mem_cons.2 ⟨hp, h.taken⟩
  declared p hmem := by
    rcases List.mem_append.1 hmem with hold | hnew
    · exact h.declared p hold
    · exact List.mem_singleton.1 hnew ▸ hp

theorem useHint (h : s.Binds B) (hp : B (short, uri)) :
    (useHint around s short uri).Binds B := by
  unfold Scope.useHint
  split
  next => exact h
  next =>
    split
    next => exact h.take hp
    next => exact h.declare hp

end Binds

theorem mem_of_aliasOf? (h : s.aliasOf? uri = some short) : (short, uri) ∈ s.taken := by
  obtain ⟨p, hp, rfl⟩ := Option.map_eq_some_iff.1 h
  have huri : decide (p.2 = uri) = true :=
    List.find?_some (p := fun x : String × String => decide (x.2 = uri)) hp
  rw [← of_decide_eq_true huri]
  exact List.mem_of_find?_eq_some hp

theorem exists_invent (s : Scope) (bound count : Nat) :
    ∃ k : Nat, (s.invent bound count).1 = "autons" ++ toString k := by
  induction bound generalizing count with
  | zero => exact ⟨count, rfl⟩
  | succ bound ih =>
    rw [invent]
    split
    next => exact ih (count + 1)
    next => exact ⟨count, rfl⟩

/-- What an element comes to take: the prefixes that its names were read with, and for their
namespaces also prefixes from around and invented ones. -/
structure Serves (B : String × String → Prop) (around : List Scope)
    (name : ExpandedName) (hint? : Option String) : Prop where
  hinted : ∀ uri ∈ name.space?, ∀ short ∈ hint?, B (short, uri)
  around : ∀ uri ∈ name.space?, ∀ o ∈ around, ∀ short, (short, uri) ∈ o.taken → B (short, uri)
  invented : ∀ uri ∈ name.space?, ∀ k : Nat, B ("autons" ++ toString k, uri)

theorem Binds.useSpace {name : ExpandedName} {hint? : Option String} (h : s.Binds B)
    (hn : Serves B around name hint?) (huri : uri ∈ name.space?) :
    (useSpace around s count uri).1.Binds B := by
  unfold Scope.useSpace
  split
  next => exact h
  next =>
    split
    next short hshort =>
      obtain ⟨outer, hmem, halias⟩ := List.exists_of_findSome?_eq_some hshort
      exact h.take (hn.around uri huri outer hmem short (mem_of_aliasOf? halias))
    next =>
      obtain ⟨k, hk⟩ := exists_invent s s.taken.length count
      exact h.declare (hk ▸ hn.invented uri huri k)

/-- What an element and its attributes need. -/
theorem binds_ofElement (count : Nat) (hl : Serves B around label.name label.hint?)
    (ha : ∀ a ∈ attributes, Serves B around a.name a.hint?) :
    (ofElement around count label attributes).1.Binds B ∧
      (ofElement around count label attributes).1.defaultSpace? = label.defaultSpace? := by
  have hnames : ∀ x ∈ (label.name, label.hint?) :: attributes.map fun a => (a.name, a.hint?),
      Serves B around x.1 x.2 := by
    intro x hx
    rcases List.mem_cons.1 hx with rfl | hx
    · exact hl
    · obtain ⟨a, hmem, rfl⟩ := List.mem_map.1 hx
      exact ha a hmem
  unfold ofElement
  simp only
  refine List.foldlRecOn (motive := fun x : Scope × Nat =>
    x.1.Binds B ∧ x.1.defaultSpace? = label.defaultSpace?) _ _ ?_ ?_
  · refine List.foldlRecOn (motive := fun s : Scope =>
      s.Binds B ∧ s.defaultSpace? = label.defaultSpace?) _ _ ⟨⟨nofun, nofun⟩, rfl⟩ ?_
    rintro s ⟨hs, hd⟩ x hx
    split
    next short uri hshort huri =>
      refine ⟨hs.useHint ((hnames x hx).hinted uri huri short hshort), ?_⟩
      unfold Scope.useHint
      repeat' split
      all_goals exact hd
    next => exact ⟨hs, hd⟩
  · rintro ⟨s, count⟩ ⟨hs, hd⟩ x hx
    split
    next uri huri =>
      refine ⟨hs.useSpace (hnames x hx) huri, ?_⟩
      unfold Scope.useSpace
      repeat' split
      all_goals exact hd
    next => exact ⟨hs, hd⟩

/-- The prefixes that an element takes may stand in a tag. -/
def Spellable (s : Scope) : Prop := ∀ p ∈ s.taken, ∀ c ∈ p.1.toList, c ∉ reserved

/-- What an element takes and declares may stand in a tag. -/
structure Sound (s : Scope) : Prop extends s.Binds IsBinding where
  default : ∀ uri ∈ s.defaultSpace?, '\'' ∉ uri.toList

theorem Sound.spellable (h : s.Sound) : s.Spellable := fun p hp => (h.taken p hp).short

theorem Spellable.aliasOf? (h : s.Spellable) (ha : s.aliasOf? uri = some short) :
    ∀ c ∈ short.toList, c ∉ reserved :=
  h (short, uri) (mem_of_aliasOf? ha)

theorem not_reserved_of_mem_autons (count : Nat) :
    ∀ c ∈ ("autons" ++ toString count).toList, c ∉ reserved := by
  have hmark : ∀ c ∈ "autons".toList, c ∉ reserved := not_mem_reserved_of_all (by decide)
  rw [String.toList_append, Nat.toString_eq_repr, Nat.toList_repr]
  refine List.forall_mem_append.2 ⟨hmark, fun c hdigit => ?_⟩
  exact not_mem_reserved isNameClass_isDigit
    (Nat.isDigit_of_mem_toDigits (by decide) (by decide) hdigit)

theorem spellable_ofElement (hl : (Content.element label).Legible)
    (hattributes : ∀ a ∈ attributes, (Content.attribute a).Legible)
    (ha : ∀ s ∈ around, s.Spellable) : (ofElement around count label attributes).1.Spellable := by
  have hserves {name : ExpandedName} {hint? : Option String}
      (hhint : ∀ short ∈ hint?, IsTagName short.toList) :
      Serves (fun p => ∀ c ∈ p.1.toList, c ∉ reserved) around name hint? :=
    ⟨fun _ _ short hshort => (hhint short hshort).not_mem,
      fun uri _ o ho short hmem => ha o ho (short, uri) hmem,
      fun _ _ k => not_reserved_of_mem_autons k⟩
  exact (binds_ofElement count (hserves hl.2) fun a hmem => hserves (hattributes a hmem).2).1.taken

/-- What an element and its attributes need may stand in its tag. -/
theorem sound_ofElement (hl : (Content.element label).Writable)
    (hattributes : ∀ a ∈ attributes, (Content.attribute a).Writable)
    (ha : ∀ s ∈ around, s.Sound) : (ofElement around count label attributes).1.Sound := by
  have hserves {name : ExpandedName} {hint? : Option String}
      (hhint : ∀ short ∈ hint?, IsTagName short.toList) (hspace : ∀ uri ∈ name.space?,
        '\'' ∉ uri.toList) : Serves IsBinding around name hint? :=
    ⟨fun uri huri short hshort => ⟨(hhint short hshort).not_mem, hspace uri huri⟩,
      fun uri _ o ho short hmem => (ha o ho).taken (short, uri) hmem,
      fun uri huri k => ⟨not_reserved_of_mem_autons k, hspace uri huri⟩⟩
  obtain ⟨hbinds, hdefault⟩ := binds_ofElement count (hserves hl.legible.2 hl.unquoted.1)
    fun a hmem => hserves (hattributes a hmem).legible.2 (hattributes a hmem).unquoted
  exact ⟨hbinds, hdefault ▸ hl.unquoted.2⟩

end Scope

/-! ## Names -/

theorem IsTagName.prefixed {short name : List Char} (hs : ∀ c ∈ short, c ∉ reserved)
    (hn : IsTagName name) : IsTagName (short ++ ':' :: name) where
  ne_nil := by simp
  not_mem c hc := by
    rcases List.mem_append.1 hc with hc | hc
    · exact hs c hc
    · rcases List.mem_cons.1 hc with rfl | hc
      · decide
      · exact hn.not_mem c hc

variable {scopes : List Scope} {name : ExpandedName} {hint? : Option String} {useDefault : Bool}

theorem isTagName_of_writeName? {written : List Char} (hs : ∀ s ∈ scopes, s.Spellable)
    (hname : IsTagName name.localPart.toList) (hhint : ∀ short ∈ hint?, IsTagName short.toList)
    (h : writeName? scopes useDefault name hint? = some written) : IsTagName written := by
  unfold writeName? at h
  split at h
  next =>
    cases h
    exact hname
  next uri _ =>
    split at h
    next =>
      cases h
      exact hname
    next =>
      obtain ⟨short, hshort, rfl⟩ := Option.map_eq_some_iff.1 h
      refine hname.prefixed ?_
      rcases Option.or_eq_some_iff.1 hshort with hhinted | ⟨-, hfound⟩
      · exact (hhint short (Option.filter_eq_some_iff.1 hhinted).1).not_mem
      · obtain ⟨s, hmem, halias⟩ := List.exists_of_findSome?_eq_some hfound
        exact (hs s hmem).aliasOf? halias

/-! ## Characters -/

/-- A character that is in no way of writing one is not in what is written. -/
theorem not_mem_flatMap {q : Char} {write : Char → List Char} (h : ∀ c, q ∉ write c)
    (s : List Char) : q ∉ s.flatMap write := by
  rw [List.mem_flatMap]
  rintro ⟨c, -, hc⟩
  exact h c hc

/-- A character as it is or by its name. -/
inductive Escapes (c : Char) : List Char → Prop
  | plain (h : c ∉ ['<', '>', '&']) : Escapes c [c]
  | named (name : List Char) (hs : '<' ∉ name ∧ ';' ∉ name) (hc : Literal.named? name = some c) :
    Escapes c ('&' :: (name ++ [';']))

namespace Escapes

variable {c : Char} {w : List Char}

theorem lt_not_mem (h : Escapes c w) : '<' ∉ w := by
  cases h with
  | plain hc =>
    rw [List.mem_singleton]
    rintro rfl
    exact hc (List.mem_cons_self ..)
  | named name hs => simp [hs.1]

/-- It stands for the character, whatever follows. -/
theorem unescape (h : Escapes c w) (rest : List Char) :
    Literal.unescape (w ++ rest) = (Literal.unescape rest).map (c :: ·) := by
  cases h with
  | plain hc => exact Literal.unescape_cons_of_ne (fun he => hc (by simp [he])) rest
  | named name hs hc =>
    exact Literal.unescape_reference hs.2 (by simp only [Literal.resolve, hc]) rest

end Escapes

theorem escapes_text (c : Char) : Escapes c (escapeText c) := by
  unfold escapeText
  split
  next h => subst h; exact .named "lt".toList (by decide) (by decide)
  split
  next h => subst h; exact .named "gt".toList (by decide) (by decide)
  split
  next h => subst h; exact .named "amp".toList (by decide) (by decide)
  next hlt hgt hamp => exact .plain (by simp [hlt, hgt, hamp])

theorem escapes_value (c : Char) : Escapes c (escapeValue c) := by
  unfold escapeValue
  split
  next h => subst h; exact .named "apos".toList (by decide) (by decide)
  split
  next h => subst h; exact .named "quot".toList (by decide) (by decide)
  next => exact escapes_text c

theorem quote_not_mem_escapeValue (c : Char) : '"' ∉ escapeValue c := by
  intro hc
  unfold escapeValue escapeText at hc
  repeat' split at hc
  all_goals first
    | exact absurd hc (by decide)
    | exact absurd (List.mem_singleton.1 hc).symm ‹_›

/-! ## Tags -/

/-- What stands in a start tag behind its name: a key, and a text in quotes. -/
structure Item where
  key : List Char
  quote : Char
  raw : List Char

namespace Item

/-- The text of an item, with the blank before it. -/
def text (x : Item) : List Char := ' ' :: (x.key ++ '=' :: x.quote :: (x.raw ++ [x.quote]))

/-- An item does not end its tag, and its text in quotes ends at the last one. -/
structure Closed (x : Item) : Prop where
  key : ∀ c ∈ x.key, c ∉ reserved
  quote : x.quote = '"' ∨ x.quote = '\''
  raw : x.quote ∉ x.raw

/-- An attribute as the writer writes it. -/
def ofAttribute (key : List Char) (value : String) : Item :=
  ⟨key, '"', value.toList.flatMap escapeValue⟩

/-- A declaration as the writer writes it. -/
def ofSpace (key : List Char) (uri : String) : Item := ⟨key, '\'', uri.toList⟩

/-- The declarations of an element. -/
def ofScope (s : Scope) : List Item :=
  s.defaultSpace?.toList.map (ofSpace "xmlns".toList) ++
    s.declared.map fun x => ofSpace ("xmlns:".toList ++ x.1.toList) x.2

theorem closed_ofAttribute {key : List Char} (hkey : ∀ c ∈ key, c ∉ reserved) (value : String) :
    (ofAttribute key value).Closed :=
  ⟨hkey, .inl rfl, not_mem_flatMap quote_not_mem_escapeValue _⟩

theorem closed_ofSpace {key : List Char} {uri : String} (hkey : ∀ c ∈ key, c ∉ reserved)
    (huri : '\'' ∉ uri.toList) : (ofSpace key uri).Closed :=
  ⟨hkey, .inr rfl, huri⟩

theorem flatMap_text_ofScope (s : Scope) : (ofScope s).flatMap text = writeDeclarations s := by
  unfold ofScope writeDeclarations
  rw [List.flatMap_append, List.flatMap_map, List.flatMap_map]
  congr 1
  · cases s.defaultSpace? with
    | none => rfl
    | some uri => simp [text, ofSpace]
  · refine List.flatMap_congr fun x _ => ?_
    simp [text, ofSpace]

theorem closed_of_mem_ofScope {s : Scope} (h : s.Sound) : ∀ x ∈ ofScope s, x.Closed := by
  refine List.forall_mem_append.2 ⟨fun x hx => ?_, fun x hx => ?_⟩
  · obtain ⟨uri, huri, rfl⟩ := List.mem_map.1 hx
    exact closed_ofSpace (not_mem_reserved_of_all (by decide))
      (h.default uri (Option.mem_toList.1 huri))
  · obtain ⟨p, hp, rfl⟩ := List.mem_map.1 hx
    have hmark : ∀ c ∈ "xmlns:".toList, c ∉ reserved := not_mem_reserved_of_all (by decide)
    have hbinding := h.declared p hp
    exact closed_ofSpace (List.forall_mem_append.2 ⟨hmark, hbinding.short⟩) hbinding.uri

/-- The attributes of an element. -/
theorem exists_of_written {attributes : List Attribute} {written : List (List Char)}
    (hs : ∀ s ∈ scopes, s.Spellable) (ha : ∀ a ∈ attributes, (Content.attribute a).Legible)
    (hw : attributes.mapM (writeAttribute? scopes) = some written) :
    ∃ items : List Item, (∀ x ∈ items, x.Closed) ∧ written.flatten = items.flatMap text := by
  induction attributes generalizing written with
  | nil =>
    cases hw
    exact ⟨[], List.forall_mem_nil _, rfl⟩
  | cons a rest ih =>
    rw [List.forall_mem_cons] at ha
    rw [List.mapM_cons] at hw
    obtain ⟨one, hone, hw⟩ := Option.bind_eq_some_iff.1 hw
    obtain ⟨others, hothers, hw⟩ := Option.bind_eq_some_iff.1 hw
    cases hw
    obtain ⟨name, hname, rfl⟩ := Option.map_eq_some_iff.1 hone
    obtain ⟨items, hitems, hflatten⟩ := ih ha.2 hothers
    have hkey := isTagName_of_writeName? hs ha.1.1 ha.1.2 hname
    refine ⟨ofAttribute name a.value :: items,
      List.forall_mem_cons.2 ⟨closed_ofAttribute hkey.not_mem a.value, hitems⟩, ?_⟩
    rw [List.flatten_cons, hflatten, List.flatMap_cons]
    simp [text, ofAttribute]

end Item

/-- The inside of the tag of an element: its name and some items. -/
structure IsHead (tag head : List Char) : Prop where
  name : IsTagName tag
  items : ∃ items : List Item, (∀ x ∈ items, x.Closed) ∧ head = tag ++ items.flatMap Item.text

theorem IsHead.tagBody {tag head : List Char} (h : IsHead tag head) : TagBody tag head := by
  obtain ⟨hname, items, hitems, rfl⟩ := h
  suffices hadd : ∀ s, TagBody tag s → TagBody tag (s ++ items.flatMap Item.text) from
    hadd tag (.of_name hname)
  induction items with
  | nil =>
    intro s hs
    rwa [List.flatMap_nil, List.append_nil]
  | cons x items ih =>
    rw [List.forall_mem_cons] at hitems
    intro s hs
    have hx := hitems.1
    have hrest := ih hitems.2 _ (hs.add hx.key hx.quote hx.raw)
    rwa [List.flatMap_cons, ← List.append_assoc]

/-- What is written in the tag of an element. -/
theorem isHead_of_written {around : List Scope} {scope : Scope} {label : Label}
    {attributes : List Attribute} {tag : List Char} {written : List (List Char)}
    (hs : ∀ s ∈ scope :: around, s.Sound) (hl : (Content.element label).Writable)
    (ha : ∀ a ∈ attributes, (Content.attribute a).Writable)
    (htag : writeName? (scope :: around) true label.name label.hint? = some tag)
    (hw : attributes.mapM (writeAttribute? (scope :: around)) = some written) :
    IsHead tag (tag ++ written.flatten ++ writeDeclarations scope) := by
  have hspellable : ∀ s ∈ scope :: around, s.Spellable := fun s hmem => (hs s hmem).spellable
  obtain ⟨items, hitems, hflatten⟩ :=
    Item.exists_of_written hspellable (fun a hmem => (ha a hmem).legible) hw
  have hscope := Item.closed_of_mem_ofScope (hs scope (List.mem_cons_self ..))
  refine ⟨isTagName_of_writeName? hspellable hl.legible.1 hl.legible.2 htag,
    items ++ Item.ofScope scope, List.forall_mem_append.2 ⟨hitems, hscope⟩, ?_⟩
  rw [List.flatMap_append, Item.flatMap_text_ofScope, hflatten, List.append_assoc]

end Markup

end XmlScript
