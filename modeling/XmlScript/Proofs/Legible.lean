import XmlScript.Proofs.Nodes
import XmlScript.Proofs.Pieces

/-!
# Legible documents

The nodes of a document are legible if what is written of them cannot be taken for the end of a
tag, a comment or an instruction (`Content.Legible`). Everything that can be read is legible, since
it has been cut out at those ends (`legible_of_event?`, `gives_legible`). Of what scripts may add
only comments and instructions need not be (`makeable_legible`); those of a document that was read
are even sure to be read as the same again (`framed_of_read?`).
-/

namespace XmlScript

open Text (cutAt)

namespace Markup

variable {s rest : List Char}

/-! ## Names -/

/-- A class of characters that mean nothing in a tag. -/
def IsNameClass (p : Char → Bool) : Prop := ∀ c ∈ reserved, p c = false

instance (p : Char → Bool) : Decidable (IsNameClass p) :=
  List.decidableBAll _ _

theorem isNameClass_plainStart : IsNameClass Name.isPlainStart := by decide +kernel

theorem isNameClass_plainPart : IsNameClass Name.isPlainPart := by decide +kernel

theorem isNameClass_startChar : IsNameClass Name.isStartChar := by decide +kernel

theorem isNameClass_char : IsNameClass Name.isChar := by decide +kernel

theorem isNameClass_scriptStart : IsNameClass Name.isScriptStart := by decide +kernel

theorem isNameClass_scriptPart : IsNameClass Name.isScriptPart := by decide +kernel

theorem isNameClass_isDigit : IsNameClass Char.isDigit := by decide +kernel

/-- A text is a name by some classes: a character to start with, then characters to go on. -/
def IsName (isStart isPart : Char → Bool) (s : List Char) : Prop :=
  ∃ c rest, s = c :: rest ∧ isStart c = true ∧ ∀ x ∈ rest, isPart x = true

theorem isName_cons {isStart isPart : Char → Bool} {c : Char} :
    IsName isStart isPart (c :: s) ↔ isStart c = true ∧ s.all isPart = true := by
  rw [List.all_eq_true]
  constructor
  · rintro ⟨_, _, he, h⟩
    obtain ⟨rfl, rfl⟩ := List.cons.inj he
    exact h
  · exact fun h => ⟨c, s, rfl, h⟩

instance (isStart isPart : Char → Bool) : (s : List Char) → Decidable (IsName isStart isPart s)
  | [] => isFalse fun ⟨_, _, he, _⟩ => nomatch he
  | _ :: _ => decidable_of_iff' _ isName_cons

/-- A name without colons. -/
abbrev IsPlainName : List Char → Prop := IsName Name.isPlainStart Name.isPlainPart

theorem IsName.isTagName {isStart isPart : Char → Bool} (h : IsName isStart isPart s)
    (hstart : IsNameClass isStart) (hpart : IsNameClass isPart) : IsTagName s := by
  obtain ⟨c, rest, rfl, hc, hrest⟩ := h
  refine ⟨List.cons_ne_nil _ _, fun x hx => ?_⟩
  rcases List.mem_cons.1 hx with rfl | hx
  · exact not_mem_reserved hstart hc
  · exact not_mem_reserved hpart (hrest x hx)

/-- A name has no character that neither class allows. -/
theorem IsName.not_mem {isStart isPart : Char → Bool} {x : Char} (h : IsName isStart isPart s)
    (hstart : isStart x = false) (hpart : isPart x = false) : x ∉ s := by
  obtain ⟨c, rest, rfl, hc, hrest⟩ := h
  intro hx
  rcases List.mem_cons.1 hx with rfl | hx
  · exact Bool.false_ne_true (hstart.symm.trans hc)
  · exact Bool.false_ne_true (hpart.symm.trans (hrest x hx))

theorem IsPlainName.isTagName (h : IsPlainName s) : IsTagName s :=
  IsName.isTagName h isNameClass_plainStart isNameClass_plainPart

theorem isName_of_take? {isStart isPart : Char → Bool} {name : List Char}
    (h : Name.take? isStart isPart s = some (name, rest)) : IsName isStart isPart name := by
  unfold Name.take? at h
  split at h
  next => cases h
  next =>
    split at h
    next hc =>
      cases h
      exact ⟨_, _, rfl, hc, fun x hx => List.mem_takeWhile_imp hx⟩
    next => cases h

theorem isName_of_isValid {name : String} (h : Name.isValid name = true) :
    IsName Name.isScriptStart Name.isScriptPart name.toList := by
  unfold Name.isValid at h
  split at h
  next => cases h
  next c rest hname =>
    rw [Bool.and_eq_true, List.all_eq_true] at h
    exact ⟨c, rest, hname, h⟩

theorem isTagName_of_isValid {name : String} (h : Name.isValid name = true) :
    IsTagName name.toList :=
  (isName_of_isValid h).isTagName isNameClass_scriptStart isNameClass_scriptPart

/-- A name as it is written in a tag. -/
structure WrittenName.Legible (name : WrittenName) : Prop where
  localPart : IsPlainName name.localPart.toList
  alias? : ∀ short ∈ name.alias?, IsPlainName short.toList

theorem legible_of_writtenName? {name : WrittenName} (h : writtenName? s = some (name, rest)) :
    name.Legible := by
  obtain ⟨⟨first, rest₁⟩, hfirst, h⟩ := Option.map_eq_some_iff.1 h
  have hplain := isName_of_take? hfirst
  have hnone : (⟨none, String.ofList first⟩ : WrittenName).Legible :=
    ⟨by rwa [String.toList_ofList], nofun⟩
  simp only at h
  split at h
  next more =>
    split at h
    next second after hsecond =>
      cases h
      refine ⟨?_, fun short hshort => ?_⟩
      · rw [String.toList_ofList]
        exact isName_of_take? hsecond
      · cases hshort
        rwa [String.toList_ofList]
    next =>
      cases h
      exact hnone
  next =>
    cases h
    exact hnone

/-! ## Events -/

/-- What an event makes of itself can be written and read again. -/
def Event.Legible : Event → Prop
  | .startTag name attributes _ => name.Legible ∧ ∀ a ∈ attributes, a.1.Legible
  | .comment s => ¬ ['-', '-'] <:+: s.toList ++ ['-']
  | .instruction target data? =>
    IsName Name.isStartChar Name.isChar target.toList ∧ isReservedTarget target.toList = false ∧
      ∀ data ∈ data?, ¬ ['?', '>'] <:+: data.toList
  | .declaration | .doctype | .chars _ | .reference _ | .cdata _ | .endTag _ => True

variable {e : Event}

theorem legible_of_tagRest? {bound : Nat} {attributes : List (WrittenName × String)}
    {isEmpty : Bool} (h : tagRest? bound s = some ((attributes, isEmpty), rest)) :
    ∀ a ∈ attributes, a.1.Legible := by
  induction bound generalizing s attributes isEmpty rest with
  | zero => cases h
  | succ bound ih =>
    rw [tagRest?] at h
    split at h
    next =>
      cases h
      nofun
    next =>
      cases h
      nofun
    next =>
      obtain ⟨_, -, h⟩ := Option.bind_eq_some_iff.1 h
      obtain ⟨⟨a, after⟩, ha, h⟩ := Option.bind_eq_some_iff.1 h
      obtain ⟨⟨⟨attributes', _⟩, _⟩, hrest, h⟩ := Option.map_eq_some_iff.1 h
      cases h
      obtain ⟨⟨name, s₁⟩, hname, ha⟩ := Option.bind_eq_some_iff.1 ha
      obtain ⟨_, -, ha⟩ := Option.bind_eq_some_iff.1 ha
      obtain ⟨_, -, ha⟩ := Option.bind_eq_some_iff.1 ha
      obtain ⟨value, -, ha⟩ := Option.map_eq_some_iff.1 ha
      cases ha
      intro b hb
      rcases List.mem_cons.1 hb with rfl | hb
      · exact legible_of_writtenName? hname
      · exact ih hrest b hb

theorem legible_of_startTag? (h : startTag? s = some (e, rest)) : e.Legible := by
  obtain ⟨⟨name, s₁⟩, hname, h⟩ := Option.bind_eq_some_iff.1 h
  obtain ⟨⟨⟨attributes, isEmpty⟩, after⟩, hrest, h⟩ := Option.map_eq_some_iff.1 h
  cases h
  exact ⟨legible_of_writtenName? hname, legible_of_tagRest? hrest⟩

theorem legible_of_comment? (h : comment? s = some (e, rest)) : e.Legible := by
  obtain ⟨⟨text, s₁⟩, hcut, h⟩ := Option.bind_eq_some_iff.1 h
  obtain ⟨after, -, h⟩ := Option.map_eq_some_iff.1 h
  cases h
  show ¬ ['-', '-'] <:+: (String.ofList text).toList ++ ['-']
  rw [String.toList_ofList]
  exact Text.not_infix_append_of_cutAt (List.cons_ne_nil _ _) hcut

theorem legible_of_instruction? (h : instruction? s = some (e, rest)) : e.Legible := by
  obtain ⟨⟨target, s₁⟩, htarget, h⟩ := Option.bind_eq_some_iff.1 h
  have hname : IsName Name.isStartChar Name.isChar (String.ofList target).toList := by
    rw [String.toList_ofList]
    exact isName_of_take? htarget
  simp only at h
  split at h
  next => cases h
  next hreserved =>
    rw [Bool.not_eq_true, ← String.toList_ofList (l := target)] at hreserved
    split at h
    next =>
      cases h
      exact ⟨hname, hreserved, nofun⟩
    next =>
      obtain ⟨⟨value, after⟩, hcut, h⟩ := Option.map_eq_some_iff.1 h
      cases h
      refine ⟨hname, hreserved, fun data hdata => ?_⟩
      cases hdata
      rw [String.toList_ofList]
      exact Text.not_infix_of_cutAt (List.cons_ne_nil _ _) hcut
    next => cases h

theorem legible_of_event? (h : event? s = some (e, rest)) : e.Legible := by
  unfold event? at h
  split at h
  next => cases h
  next =>
    obtain ⟨_, -, h⟩ := Option.bind_eq_some_iff.1 h
    obtain ⟨_, -, h⟩ := Option.map_eq_some_iff.1 h
    cases h
    trivial
  next =>
    split at h
    next =>
      cases h
      trivial
    next => exact legible_of_instruction? h
  next =>
    split at h
    next => exact legible_of_comment? h
    next =>
      obtain ⟨_, -, h⟩ := Option.map_eq_some_iff.1 h
      cases h
      trivial
    next inner _ _ =>
      -- what a document type says is passed over
      obtain ⟨_, -, h⟩ := Option.bind_eq_some_iff.1 h
      obtain ⟨_, -, h⟩ := Option.bind_eq_some_iff.1 h
      obtain ⟨_, -, h⟩ := Option.map_eq_some_iff.1 h
      cases h
      trivial
    next => cases h
  next => exact legible_of_startTag? h
  next =>
    obtain ⟨_, -, h⟩ := Option.bind_eq_some_iff.1 h
    obtain ⟨_, -, h⟩ := Option.map_eq_some_iff.1 h
    cases h
    trivial
  next =>
    simp only at h
    split at h
    next => cases h
    next =>
      cases h
      trivial

theorem legible_of_eventsFrom? {bound : Nat} {events : List Event}
    (h : eventsFrom? bound s = some events) : ∀ e ∈ events, e.Legible := by
  induction bound generalizing s events with
  | zero =>
    cases s with
    | nil =>
      cases h
      nofun
    | cons c rest => cases h
  | succ bound ih =>
    cases s with
    | nil =>
      cases h
      nofun
    | cons c rest =>
      obtain ⟨⟨e, after⟩, he, h⟩ := Option.bind_eq_some_iff.1 h
      obtain ⟨events', hevents, rfl⟩ := Option.map_eq_some_iff.1 h
      intro e' he'
      rcases List.mem_cons.1 he' with rfl | he'
      · exact legible_of_event? he
      · exact ih hevents e' he'

end Markup

/-! ## Nodes -/

open Markup (IsName IsPlainName IsTagName)

/-- What is written of a node cannot be taken for the end of what it stands in. -/
def Content.Legible : Content → Prop
  | .element label =>
    IsTagName label.name.localPart.toList ∧ ∀ short ∈ label.hint?, IsTagName short.toList
  | .attribute a => IsTagName a.name.localPart.toList ∧ ∀ short ∈ a.hint?, IsTagName short.toList
  | .comment s => ¬ ['-', '-'] <:+: s.toList
  | .instruction target data? =>
    IsTagName target.toList ∧ ∀ data ∈ data?, ¬ ['?', '>'] <:+: data.toList
  | .document | .text _ _ => True

/-- A node has a name as documents give them: without a colon in it, but for its prefix. -/
def Content.Named : Content → Prop
  | .element label =>
    IsPlainName label.name.localPart.toList ∧ ∀ short ∈ label.hint?, IsPlainName short.toList
  | .attribute a =>
    IsPlainName a.name.localPart.toList ∧ ∀ short ∈ a.hint?, IsPlainName short.toList
  | .instruction target _ => IsName Name.isStartChar Name.isChar target.toList
  | .document | .text _ _ | .comment _ => True

/-- A comment ends where it is meant to, and so does an instruction, whose target means nothing
else. -/
def Content.Framed : Content → Prop
  | .comment s => ¬ ['-', '-'] <:+: s.toList ++ ['-']
  | .instruction target data? =>
    IsName Name.isStartChar Name.isChar target.toList ∧
      Markup.isReservedTarget target.toList = false ∧ ∀ data ∈ data?, ¬ ['?', '>'] <:+: data.toList
  | .document | .element _ | .attribute _ | .text _ _ => True

instance : DecidablePred Content.Framed
  | .comment s => inferInstanceAs (Decidable (¬ ['-', '-'] <:+: s.toList ++ ['-']))
  | .instruction target data? => inferInstanceAs (Decidable
    (IsName Name.isStartChar Name.isChar target.toList ∧
      Markup.isReservedTarget target.toList = false ∧
        ∀ data ∈ data?, ¬ ['?', '>'] <:+: data.toList))
  | .document | .element _ | .attribute _ | .text _ _ => isTrue trivial

/-- The same of elements and attributes only. -/
def Content.Taggable : Content → Prop
  | .element label => (Content.element label).Legible
  | .attribute a => (Content.attribute a).Legible
  | .document | .text _ _ | .comment _ | .instruction _ _ => True

theorem Content.Legible.taggable {c : Content} (h : c.Legible) : c.Taggable := by
  unfold Content.Taggable
  split
  next => exact h
  next => exact h
  all_goals trivial

/-- What ends where it is meant to ends where it is written to end. -/
theorem Content.Taggable.legible {c : Content} (h : c.Taggable) (hframed : c.Framed) :
    c.Legible := by
  rcases c with _ | label | a | ⟨s, isCData⟩ | s | ⟨target, data?⟩
  · trivial
  · exact h
  · exact h
  · trivial
  · exact fun hin => hframed (hin.trans (List.prefix_append _ _).isInfix)
  · have htarget := hframed.1.isTagName Markup.isNameClass_startChar Markup.isNameClass_char
    exact ⟨htarget, hframed.2.2⟩

/-- Scripts can break a comment or an instruction only. -/
theorem makeable_legible : Document.Makeable Content.Legible where
  absent := by
    show ¬ ['-', '-'] <:+: "".toList
    decide
  newElement hname := ⟨Markup.isTagName_of_isValid hname, nofun⟩
  newAttribute hname := ⟨Markup.isTagName_of_isValid hname, nofun⟩
  newValue ha := ⟨ha.1, nofun⟩
  newText := trivial

theorem makeable_taggable : Document.Makeable Content.Taggable where
  absent := trivial
  newElement := makeable_legible.newElement
  newAttribute := makeable_legible.newAttribute
  newValue := makeable_legible.newValue
  newText := trivial

namespace Markup

/-! ## Reading -/

theorem named_of_open? {around outer : List OpenElement} {name : WrittenName}
    {attributes : List (WrittenName × String)} {e : OpenElement} (hname : name.Legible)
    (ha : ∀ a ∈ attributes, a.1.Legible) (h : open? around name attributes = some e) :
    e.Bears (fun _ => Tree.Has Content.Named) outer := by
  obtain ⟨-, -, -, expanded, resolved, hexpanded, hresolved, rfl⟩ := open?_eq_some_iff.1 h
  intro children
  refine ⟨⟨?_, hname.alias?⟩, fun a hmem => ?_⟩
  · show IsPlainName expanded.localPart.toList
    rw [localPart_of_resolveName? hexpanded]
    exact hname.localPart
  · rcases mem_resolveAttributes? hresolved hmem with hnone | ⟨w, hw, hfrom⟩
    · cases hnone
    · have hlegible := ha w (List.mem_filter.1 (List.mem_mergeSort.1 hw)).1
      rcases hfrom with ⟨-, rfl⟩ | ⟨short, uri, hshort, -, rfl⟩
      · exact ⟨hlegible.localPart, nofun⟩
      · refine ⟨hlegible.localPart, fun short' h' => ?_⟩
        rw [← Option.some.inj h']
        exact hlegible.alias? short hshort

/-- Legible events make nodes that have their names from the document. -/
theorem gives_named : Gives Event.Legible fun _ => Tree.Has Content.Named where
  leaf {event t _} he ht := by
    refine .of_leaf (Event.isElement_leaf? ht) ?_
    cases event with
    | chars _ | cdata _ | reference _ | comment _ =>
      cases ht
      trivial
    | instruction _ _ =>
      cases ht
      exact he.1
    | declaration | doctype | startTag _ _ _ | endTag _ => cases ht
  opened he _ hopen := named_of_open? he.1 he.2 hopen

/-- Legible events make comments and instructions that end where they are read to end. -/
theorem gives_framed : Gives Event.Legible fun _ => Tree.Has Content.Framed where
  leaf {event t _} he ht := by
    refine .of_leaf (Event.isElement_leaf? ht) ?_
    cases event with
    | chars _ | cdata _ | reference _ =>
      cases ht
      trivial
    | comment _ | instruction _ _ =>
      cases ht
      exact he
    | declaration | doctype | startTag _ _ _ | endTag _ => cases ht
  opened _ _ _ _ := ⟨trivial, fun _ _ => trivial⟩

/-- Legible events make legible nodes. -/
theorem gives_legible : Gives Event.Legible fun _ => Tree.Has Content.Legible where
  leaf {event t _} he ht := by
    refine .of_leaf (Event.isElement_leaf? ht) ?_
    cases event with
    | chars _ | cdata _ | reference _ =>
      cases ht
      trivial
    | comment _ =>
      cases ht
      exact Content.Taggable.legible trivial he
    | instruction _ _ =>
      cases ht
      exact Content.Taggable.legible trivial he
    | declaration | doctype | startTag _ _ _ | endTag _ => cases ht
  opened {around _ _ _ e} he _ hopen children := by
    have hbears : e.Bears (fun _ => Tree.Has Content.Named) around :=
      named_of_open? he.1 he.2 hopen
    have hnamed := hbears children
    have htag {name : ExpandedName} {hint? : Option String}
        (h : IsPlainName name.localPart.toList ∧ ∀ short ∈ hint?, IsPlainName short.toList) :
        IsTagName name.localPart.toList ∧ ∀ short ∈ hint?, IsTagName short.toList :=
      ⟨h.1.isTagName, fun short hshort => (h.2 short hshort).isTagName⟩
    exact ⟨htag hnamed.content, fun a hmem => htag (hnamed.attributes a hmem)⟩

theorem legible_of_events? {s : List Char} {events : List Event} (h : events? s = some events) :
    ∀ e ∈ events, e.Legible :=
  legible_of_eventsFrom? h

/-- What legible events make of single nodes, a document that is read has everywhere. -/
theorem Gives.holds_of_read? {Q : Content → Prop} {text : String} {d : Document}
    (hg : Gives Event.Legible fun _ => Tree.Has Q) (habsent : Q (.comment ""))
    (hroot : Q .document) (h : read? text = some d) : d.Holds Q := by
  obtain ⟨trees, htrees, rfl⟩ := Option.map_eq_some_iff.1 h
  have hempty := Document.Holds.empty habsent hroot
  exact hempty.addTrees (hg.every_of_readTrees? (fun _ => legible_of_events?) htrees)

variable {text : String} {d : Document}

theorem legible_of_read? (h : read? text = some d) : d.Holds Content.Legible :=
  gives_legible.holds_of_read? makeable_legible.absent trivial h

theorem named_of_read? (h : read? text = some d) : d.Holds Content.Named :=
  gives_named.holds_of_read? trivial trivial h

theorem framed_of_read? (h : read? text = some d) : d.Holds Content.Framed := by
  refine gives_framed.holds_of_read? ?_ trivial h
  show ¬ ['-', '-'] <:+: "".toList ++ ['-']
  decide

end Markup

end XmlScript
