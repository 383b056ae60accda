import XmlScript.Proofs.Reading
import XmlScript.Proofs.Segments
import XmlScript.Proofs.Tags

/-!
# Places in a document

Whether the reader takes the next event depends on little of what it has read: the stage, the names
of the open elements and the prefixes that they offer. That is a `Place`, and `Place.Step` says
which events may come there. A step of places is a step of the reader (`Place.Step.run`), so a text
that leads from the first place to the end of a document is read (`isSome_readTrees?`).

Text has no events of its own, since neighbouring texts are read as one. What the layout puts
between two pieces of markup is taken as a whole: any text inside an element, and blanks beside the
document element (`takes_skipped`).
-/

namespace XmlScript.Markup

open Text (cutAt)

/-- What matters of a document that has been read so far for what may come next. -/
structure Place where
  stage : Stage
  /-- The open elements, the innermost first: how the name is written and the prefixes offered. -/
  inner : List (WrittenName × List (String × String))

/-- Where the reader is. -/
def Progress.place (p : Progress) : Place :=
  ⟨p.stage, p.inner.map fun e => (e.written, e.label.spaces)⟩

/-! ## Start tags -/

/-- A start tag that the reader takes inside elements that offer prefixes. -/
structure Admissible (outer : List (List (String × String))) (name : WrittenName)
    (attributes : List (WrittenName × String)) : Prop where
  nodup : (attributes.map (·.1)).Nodup
  space : ∀ p ∈ declaredSpaces attributes, p.2 ≠ ""
  default : (declaredDefaults attributes).length ≤ 1
  name : ∀ short ∈ name.alias?,
    (spaceOf? short (declaredSpaces attributes :: outer)).isSome = true
  plain : ∀ a ∈ attributes, isPlainAttribute a = true → ∀ short ∈ a.1.alias?,
    (spaceOf? short (declaredSpaces attributes ::
      offeredSpaces outer.isEmpty (declaredSpaces attributes) :: outer)).isSome = true

theorem isSome_resolveAttributes? {space? : String → Option String}
    {written : List (WrittenName × String)}
    (h : ∀ w ∈ written, ∀ short ∈ w.1.alias?, (space? short).isSome = true)
    (done : List Attribute) : (resolveAttributes? space? written done).isSome = true := by
  induction written generalizing done with
  | nil => rfl
  | cons w rest ih =>
    rw [List.forall_mem_cons] at h
    rw [resolveAttributes?]
    split
    next => exact ih h.2 _
    next short hshort =>
      obtain ⟨uri, huri⟩ := Option.isSome_iff_exists.1 (h.1 short hshort)
      rw [huri]
      exact ih h.2 _

theorem isSome_resolveName? {around : List OpenElement} {spaces : List (String × String)}
    (declared? : Option String) {name : WrittenName}
    (h : ∀ short ∈ name.alias?,
      (spaceOf? short (spaces :: around.map (·.label.spaces))).isSome = true) :
    (resolveName? around spaces declared? name).isSome = true := by
  unfold resolveName?
  split
  next short hshort =>
    rw [Option.isSome_map]
    exact h short hshort
  next => split <;> rfl

theorem Admissible.exists_open? {around : List OpenElement} {name : WrittenName}
    {attributes : List (WrittenName × String)}
    (h : Admissible (around.map (·.label.spaces)) name attributes) :
    ∃ e, open? around name attributes = some e ∧ e.written = name ∧
      e.label.spaces = offeredSpaces around.isEmpty (declaredSpaces attributes) := by
  obtain ⟨expanded, hexpanded⟩ := Option.isSome_iff_exists.1
    (isSome_resolveName? (declaredDefaults attributes).head? h.name)
  have hattributes : ∀ w ∈ (attributes.filter isPlainAttribute).mergeSort attributeLe,
      ∀ short ∈ w.1.alias?, (spaceOf? short (declaredSpaces attributes ::
        offeredSpaces around.isEmpty (declaredSpaces attributes) ::
          around.map (·.label.spaces))).isSome = true := by
    intro w hw
    obtain ⟨hmem, hplain⟩ := List.mem_filter.1 (List.mem_mergeSort.1 hw)
    have hw := h.plain w hmem hplain
    rwa [List.isEmpty_map] at hw
  obtain ⟨resolved, hresolved⟩ :=
    Option.isSome_iff_exists.1 (isSome_resolveAttributes? hattributes [])
  exact ⟨_, open?_eq_some_iff.2
    ⟨h.nodup, h.space, h.default, expanded, resolved, hexpanded, hresolved, rfl⟩, rfl, rfl⟩

/-! ## Steps -/

namespace Place

/-- The events that may come at a place, and where they lead. -/
inductive Step : Place → Event → Place → Prop
  | startTag {stage : Stage} {inner : List (WrittenName × List (String × String))}
    {name : WrittenName} {attributes : List (WrittenName × String)} (isEmpty : Bool)
    (hstage : inner = [] → stage ≠ .epilog) (h : Admissible (inner.map (·.2)) name attributes) :
    Step ⟨stage, inner⟩ (.startTag name attributes isEmpty)
      ⟨if inner = [] then .epilog else stage, if isEmpty then inner else
        (name, offeredSpaces inner.isEmpty (declaredSpaces attributes)) :: inner⟩
  | endTag {stage : Stage} {name : WrittenName} {spaces : List (String × String)}
    {outer : List (WrittenName × List (String × String))} :
    Step ⟨stage, (name, spaces) :: outer⟩ (.endTag name) ⟨stage, outer⟩
  | misc {q : Place} {event : Event} {t : Tree} (ht : event.leaf? = some t)
    (hmisc : t.isText = false) :
    Step q event ⟨Progress.afterStart q.stage, q.inner⟩
  | text {q : Place} {event : Event} {t : Tree} (hq : q.inner ≠ []) (ht : event.leaf? = some t)
    (htext : t.isText = true) : Step q event q
  /-- Blanks beside the document element. -/
  | blank {q : Place} {s : String} (hq : q.inner = []) (hs : isBlankText s = true) :
    Step q (.chars s) ⟨Progress.afterStart q.stage, q.inner⟩
  | declaration : Step ⟨.start, []⟩ .declaration ⟨.prolog, []⟩

theorem afterStart_ne_start (stage : Stage) : Progress.afterStart stage ≠ .start := by
  cases stage <;> decide

/-- Nothing leads back to the start. -/
theorem Step.stage_ne_start {q q' : Place} {event : Event} (h : Step q event q')
    (hq : q.inner ≠ [] → q.stage ≠ .start) : q'.stage ≠ .start := by
  cases h with
  | @startTag stage inner =>
    show (if inner = [] then Stage.epilog else stage) ≠ .start
    split
    next => decide
    next hne => exact hq hne
  | endTag => exact hq (List.cons_ne_nil _ _)
  | misc => exact afterStart_ne_start _
  | text hne => exact hq hne
  | blank => exact afterStart_ne_start _
  | declaration => decide

theorem place_add (p : Progress) (t : Tree) : (p.add t).place = p.place := by
  obtain ⟨stage, top, inner⟩ := p
  cases inner <;> rfl

/-- The reader takes a start tag that is admissible. -/
theorem exists_startTag? {p : Progress} {name : WrittenName}
    {attributes : List (WrittenName × String)} (isEmpty : Bool)
    (hstage : p.place.inner = [] → p.stage ≠ .epilog)
    (h : Admissible (p.place.inner.map (·.2)) name attributes) :
    ∃ p', p.startTag? name attributes isEmpty = some p' ∧
      p'.place = ⟨if p.place.inner = [] then .epilog else p.stage, if isEmpty then p.place.inner else
        (name, offeredSpaces p.place.inner.isEmpty (declaredSpaces attributes)) ::
          p.place.inner⟩ := by
  obtain ⟨stage, top, inner⟩ := p
  have hempty : (inner.map fun e => (e.written, e.label.spaces)) = [] ↔ inner.isEmpty = true := by
    rw [List.map_eq_nil_iff, List.isEmpty_iff]
  simp only [Progress.place, hempty, List.map_map, List.isEmpty_map] at hstage h ⊢
  obtain ⟨e, hopen, hname, hspaces⟩ := h.exists_open?
  unfold Progress.startTag?
  rw [if_neg fun hend => hstage hend.1 hend.2, hopen]
  refine ⟨_, rfl, ?_⟩
  cases isEmpty with
  | true =>
    show Progress.place (Progress.add _ e.close) = _
    rw [place_add]
    rfl
  | false =>
    show (⟨_, (e.written, e.label.spaces) :: _⟩ : Place) = _
    rw [hname, hspaces]
    rfl

/-- A step of places is a step of the reader. -/
theorem Step.run {p : Progress} {event : Event} {q : Place} (h : Step p.place event q) :
    ∃ p', p.step? event = some p' ∧ p'.place = q := by
  obtain ⟨stage, top, inner⟩ := p
  generalize hplace : (⟨stage, top, inner⟩ : Progress).place = place at h
  cases h with
  | @startTag _ _ name attributes isEmpty hstage hadmissible =>
    cases hplace
    exact exists_startTag? isEmpty hstage hadmissible
  | @endTag _ name spaces outer =>
    obtain ⟨-, hinner⟩ := Place.mk.inj hplace
    cases inner with
    | nil => cases hinner
    | cons e outer' =>
      obtain ⟨he, houter⟩ := List.cons.inj hinner
      have hname : e.written = name := congrArg Prod.fst he
      refine ⟨(⟨stage, top, outer'⟩ : Progress).add e.close, ?_, ?_⟩
      · show (if e.written = name then _ else none) = _
        rw [if_pos hname]
      · rw [place_add]
        cases hplace
        rfl
  | @misc _ _ t ht hmisc =>
    cases hplace
    cases event with
    | comment _ | instruction _ _ =>
      cases ht
      exact ⟨_, rfl, place_add _ _⟩
    | chars _ | cdata _ | reference _ =>
      cases ht
      cases hmisc
    | declaration | doctype | startTag _ _ _ | endTag _ => cases ht
  | @text _ _ t hq ht htext =>
    cases hplace
    have hinner : inner.isEmpty = false := by
      cases inner with
      | nil => exact absurd rfl hq
      | cons e outer => rfl
    refine ⟨(⟨stage, top, inner⟩ : Progress).add t, ?_, place_add _ t⟩
    cases event with
    | comment _ | instruction _ _ =>
      cases ht
      cases htext
    | chars _ | cdata _ | reference _ =>
      cases ht
      simp only [Progress.step?, hinner, Bool.false_eq_true, if_false]
    | declaration | doctype | startTag _ _ _ | endTag _ => cases ht
  | @blank _ s hq hblank =>
    cases hplace
    have hinner : inner.isEmpty = true := by
      rw [List.isEmpty_iff]
      exact List.map_eq_nil_iff.1 hq
    refine ⟨⟨Progress.afterStart stage, top, inner⟩, ?_, rfl⟩
    simp only [Progress.step?, hinner, hblank, if_true]
  | declaration =>
    obtain ⟨hstage, hinner⟩ := Place.mk.inj hplace
    have hinner : inner = [] := List.map_eq_nil_iff.1 hinner
    have hstage : stage = .start := hstage
    subst hinner hstage
    exact ⟨_, rfl, rfl⟩

end Place

/-! ## Texts -/

/-- A text that leads from one place to another. -/
inductive Takes : Place → List Char → Place → Prop
  | nil (q : Place) : Takes q [] q
  | event {q q' q'' : Place} {e : Event} {s after : List Char} (he : event? s = some (e, after))
    (hlt : after.length < s.length) (hs : q.Step e q') (h : Takes q' after q'') : Takes q s q''

theorem Takes.exists_events {p : Progress} {s : List Char} {q : Place} (h : Takes p.place s q)
    {bound : Nat} (hb : s.length ≤ bound) :
    ∃ events p', eventsFrom? bound s = some events ∧
      events.foldlM Progress.step? p = some p' ∧ p'.place = q := by
  generalize hplace : p.place = place at h
  induction h generalizing p bound with
  | nil q =>
    refine ⟨[], p, ?_, rfl, hplace⟩
    cases bound <;> rfl
  | @event q q' q'' e s after he hlt hs _ ih =>
    subst hplace
    obtain ⟨p', hp', hplace'⟩ := hs.run
    cases s with
    | nil => cases hlt
    | cons c s =>
      cases bound with
      | zero => cases hb
      | succ bound =>
        rw [List.length_cons] at hb hlt
        have hafter : after.length ≤ bound := by omega
        obtain ⟨events, p'', hevents, hfold, hend⟩ := ih hafter hplace'
        refine ⟨e :: events, p'', ?_, ?_, hend⟩
        · rw [eventsFrom?, he, Option.bind_some]
          simp only [hevents, Option.map_some]
        · rw [List.foldlM_cons, hp']
          exact hfold

/-- A text that leads from the first place to the end of a document is read. -/
theorem isSome_readTrees? {s : List Char} (h : Takes ⟨.start, []⟩ s ⟨.epilog, []⟩) :
    (readTrees? s).isSome = true := by
  obtain ⟨events, p, hevents, hfold, hplace⟩ :=
    Takes.exists_events (p := {}) h (Nat.le_refl s.length)
  have hfinish : p.finish? = some p.top.reverse := by
    obtain ⟨hstage, hinner⟩ := Place.mk.inj hplace
    have hinner : p.inner = [] := List.map_eq_nil_iff.1 hinner
    unfold Progress.finish?
    rw [if_pos ⟨by rw [hinner]; rfl, hstage⟩]
  unfold readTrees? events?
  rw [hevents, Option.bind_some, hfold, Option.bind_some, hfinish]
  rfl

/-! ## Text between markup -/

/-- A text of characters and references. -/
inductive Smooth : List Char → Prop
  | nil : Smooth []
  | cons {c : Char} {w s : List Char} (hc : Spells c w) (hs : Smooth s) : Smooth (w ++ s)

theorem smooth_flatMap {write : Char → List Char} (hw : ∀ c, Spells c (write c)) (s : List Char) :
    Smooth (s.flatMap write) := by
  induction s with
  | nil => exact .nil
  | cons c s ih => exact .cons (hw c) ih

theorem Smooth.append {s t : List Char} (h : Smooth s) (ht : Smooth t) : Smooth (s ++ t) := by
  induction h with
  | nil => exact ht
  | cons hc _ ih =>
    rw [List.append_assoc]
    exact .cons hc ih

theorem not_mem_marks_of_isMarkupBlank {c : Char} (h : Text.isMarkupBlank c = true) :
    c ∉ ['<', '>', '&'] := by
  intro hmem
  have hnone : ['<', '>', '&'].all (fun x => !Text.isMarkupBlank x) = true := by decide
  have hc := List.all_eq_true.1 hnone c hmem
  rw [h] at hc
  cases hc

/-- Blanks stand for themselves. -/
theorem smooth_of_blanks {s : List Char} (h : ∀ c ∈ s, Text.isMarkupBlank c = true) : Smooth s := by
  induction s with
  | nil => exact .nil
  | cons c s ih =>
    rw [List.forall_mem_cons] at h
    exact .cons (.plain (not_mem_marks_of_isMarkupBlank h.1)) (ih h.2)

/-- Characters up to markup or a reference are one event. -/
theorem event?_chars {w after : List Char} (hne : w ≠ []) (hw : ∀ c ∈ w, c ∉ ['<', '>', '&'])
    (ha : ∀ c ∈ after.head?, c = '<' ∨ c = '&') :
    event? (w ++ after) = some (.chars (String.ofList w), after) := by
  have htext : ∀ c ∈ w, (c != '<' && c != '&') = true := fun c hc => by
    have := hw c hc
    simp only [List.mem_cons, List.not_mem_nil, or_false, not_or] at this
    simp [this]
  have htake : (w ++ after).takeWhile (fun c => c != '<' && c != '&') = w ∧
      (w ++ after).dropWhile (fun c => c != '<' && c != '&') = after := by
    refine Text.span_append htext fun x hx => ?_
    rcases ha x hx with rfl | rfl <;> rfl
  have hcut : cutAt "]]>".toList w = none :=
    Text.cutAt_eq_none fun hin => hw '>' (hin.subset (by simp)) (by simp)
  obtain ⟨c, rest, rfl⟩ := List.exists_cons_of_ne_nil hne
  have hc := htext c (List.mem_cons_self ..)
  rw [Bool.and_eq_true, bne_iff_ne, bne_iff_ne] at hc
  rw [List.cons_append] at htake ⊢
  unfold event?
  split
  next he => cases he
  next he => exact absurd (List.cons.inj he).1 hc.1
  next he => exact absurd (List.cons.inj he).1 hc.1
  next he => exact absurd (List.cons.inj he).1 hc.1
  next he => exact absurd (List.cons.inj he).1 hc.1
  next he => exact absurd (List.cons.inj he).1 hc.2
  next => simp only [htake, hcut]

theorem event?_reference {entity after : List Char} {c : Char} (hs : ';' ∉ entity)
    (hc : referenced? entity = some c) :
    event? ('&' :: (entity ++ [';']) ++ after) = some (.reference c, after) := by
  rw [List.cons_append, List.append_assoc, List.singleton_append]
  show (cutAt [';'] (entity ++ ';' :: after)).bind _ = _
  rw [Text.cutAt_append hs, Option.bind_some]
  simp only [hc, Option.map_some]

variable {q q' : Place}

/-- An event that stands for text leads nowhere else. -/
theorem Takes.text {e : Event} {t : Tree} {w after : List Char} (hq : q.inner ≠ []) (hne : w ≠ [])
    (he : event? (w ++ after) = some (e, after)) (ht : e.leaf? = some t)
    (htext : t.isText = true) (h : Takes q after q') : Takes q (w ++ after) q' := by
  refine .event he ?_ (.text hq ht htext) h
  rw [List.length_append]
  have := List.length_pos_iff.2 hne
  omega

/-- Characters and references are read event by event: what holds of nothing, and stays when an event
of text is put in front, holds of them. -/
theorem Smooth.of_events {motive : List Char → Prop} {s after : List Char} (hs : Smooth s)
    (ha : BeginsMarkup after) (hnil : motive [])
    (hcons : ∀ {w t : List Char} {e : Event} {x : Tree}, w ≠ [] →
      event? (w ++ (t ++ after)) = some (e, t ++ after) → e.leaf? = some x → x.isText = true →
      motive t → motive (w ++ t)) : motive s := by
  have hchars {w t : List Char} (hw : ∀ c ∈ w, c ∉ ['<', '>', '&'])
      (hnext : ∀ c ∈ (t ++ after).head?, c = '<' ∨ c = '&') (h : motive t) : motive (w ++ t) := by
    by_cases hne : w = []
    · rw [hne]
      exact h
    · exact hcons hne (event?_chars hne hw hnext) rfl rfl h
  -- the characters that have gone before are read with those that follow
  suffices hw : ∀ w : List Char, (∀ c ∈ w, c ∉ ['<', '>', '&']) → motive (w ++ s) from
    hw [] (List.forall_mem_nil _)
  induction hs with
  | nil =>
    intro w hw
    exact hchars hw (fun c hc => .inl (ha c hc)) hnil
  | @cons c x s hc _ ih =>
    intro w hw
    cases hc with
    | plain hplain =>
      have hnext := ih (w ++ [c])
        (List.forall_mem_append.2 ⟨hw, List.forall_mem_singleton.2 hplain⟩)
      rwa [List.append_assoc] at hnext
    | reference entity hsemi href =>
      refine hchars hw (fun c hc => .inr (Option.some.inj hc).symm) ?_
      exact hcons (List.cons_ne_nil _ _) (event?_reference hsemi href) rfl rfl
        (ih [] (List.forall_mem_nil _))

/-- Characters and references are read inside elements. -/
theorem takes_smooth {s after : List Char} (hq : q.inner ≠ []) (hs : Smooth s)
    (ha : BeginsMarkup after) (h : Takes q after q') : Takes q (s ++ after) q' := by
  refine hs.of_events (motive := fun s => Takes q (s ++ after) q') ha h
    fun hne he hleaf htext htakes => ?_
  rw [List.append_assoc]
  exact .text hq hne he hleaf htext htakes

/-- A text or a section that is read inside an element. -/
def IsReadable : Piece → Prop
  | .text s => Smooth s
  | .cdata s => ¬ sectionEnd <:+: s
  | _ => False

/-- A text that leads nowhere else: anything inside an element, and blanks beside the document
element once something has been read. -/
structure IsSkipped (q : Place) (s : List Char) : Prop where
  smooth : Smooth s
  blank : q.inner = [] → ∀ c ∈ s, Text.isMarkupBlank c = true ∧ q.stage ≠ .start

theorem IsSkipped.nil (q : Place) : IsSkipped q [] := ⟨.nil, fun _ => List.forall_mem_nil _⟩

theorem IsSkipped.append {s t : List Char} (h : IsSkipped q s) (ht : IsSkipped q t) :
    IsSkipped q (s ++ t) :=
  ⟨h.smooth.append ht.smooth, fun hq => List.forall_mem_append.2 ⟨h.blank hq, ht.blank hq⟩⟩

theorem takes_skipped {s after : List Char} (hs : IsSkipped q s) (ha : BeginsMarkup after)
    (h : Takes q after q') : Takes q (s ++ after) q' := by
  by_cases hq : q.inner = []
  · by_cases hne : s = []
    · rw [hne]
      exact h
    · have hblank := hs.blank hq
      obtain ⟨c, hc⟩ := List.exists_mem_of_ne_nil s hne
      have hstage : Progress.afterStart q.stage = q.stage := if_neg (hblank c hc).2
      have hplain : ∀ c ∈ s, c ∉ ['<', '>', '&'] := fun c hc =>
        not_mem_marks_of_isMarkupBlank (hblank c hc).1
      have hevent := event?_chars hne hplain fun c hc => .inl (ha c hc)
      have hstep : q.Step (.chars (String.ofList s)) ⟨Progress.afterStart q.stage, q.inner⟩ := by
        refine .blank hq (List.all_eq_true.2 fun c hc => ?_)
        rw [String.toList_ofList] at hc
        exact (hblank c hc).1
      rw [hstage] at hstep
      refine .event hevent ?_ hstep h
      rw [List.length_append]
      have := List.length_pos_iff.2 hne
      omega
  · exact takes_smooth hq hs.smooth ha h

theorem Run.isReadable_rewritten (run : Run) : ∀ x ∈ run.rewritten, IsReadable x := by
  have hpieces : ∀ x ∈ run.pieces, IsReadable x := by
    intro x hx
    obtain ⟨⟨s, isCData⟩, -, hx⟩ := List.mem_flatMap.1 hx
    simp only at hx
    split at hx
    next => cases hx
    split at hx
    next =>
      obtain ⟨part, hpart, rfl⟩ := List.mem_map.1 hx
      exact not_infix_of_mem_cdataSections hpart
    next =>
      rw [List.mem_singleton.1 hx]
      exact smooth_flatMap (fun c => (escapes_mixed c).spells) _
  unfold rewritten
  split
  next => exact hpieces
  next => exact List.forall_mem_singleton.2 (smooth_flatMap (fun c => (escapes_text c).spells) _)

end XmlScript.Markup
