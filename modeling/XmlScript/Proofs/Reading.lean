import XmlScript.Markup.Reader
import XmlScript.Proofs.Edit

/-!
# Documents that are read

What the reader of markup makes sure of: in every start tag the attributes have different names
once their prefixes are resolved (`nodup_resolveAttributes?`), and at the top level there is no text
and one element (`Progress.Sound`, kept by every event: `Progress.step?_cases` says what an event
does besides opening an element). Building a document of such trees adds one
node after the other, each of which its parent takes, so a document that is read is linked
(`linked_read?`).
-/

namespace XmlScript

/-- In every element of a tree two attributes have two names. -/
inductive Tree.WellNamed : Tree → Prop
  | element {label : Label} {attributes : List Attribute} {children : List Tree}
    (hn : (attributes.map (·.name)).Nodup) (hc : ∀ t ∈ children, WellNamed t) :
    WellNamed (.element label attributes children)
  | text (s : String) (isCData : Bool) : WellNamed (.text s isCData)
  | comment (s : String) : WellNamed (.comment s)
  | instruction (target : String) (data? : Option String) : WellNamed (.instruction target data?)

/-! ## Reading trees -/

namespace Markup

theorem nodup_resolveAttributes? {space? : String → Option String}
    {written : List (WrittenName × String)} {done resolved : List Attribute}
    (hd : (done.map (·.name)).Nodup)
    (h : resolveAttributes? space? written done = some resolved) :
    (resolved.map (·.name)).Nodup := by
  induction written generalizing done with
  | nil =>
    cases h
    exact hd
  | cons w rest ih =>
    obtain ⟨a, -, h⟩ := Option.bind_eq_some_iff.1 h
    refine ih ?_ h
    -- whatever had the name of the new attribute was taken out before it
    rw [List.map_append, List.nodup_append]
    refine ⟨hd.sublist (List.filter_sublist.map _), by simp, ?_⟩
    intro x hx y hy
    obtain ⟨other, hother, rfl⟩ := List.mem_map.1 hx
    rw [List.mem_singleton.1 hy]
    simpa using (List.mem_filter.1 hother).2

/-- What a start tag opens, and when: its attributes are written with different names, no prefix is
declared without a namespace, there is one default namespace at most, and every prefix that is used
means something. -/
theorem open?_eq_some_iff {around : List OpenElement} {name : WrittenName}
    {attributes : List (WrittenName × String)} {e : OpenElement} :
    open? around name attributes = some e ↔
      (attributes.map (·.1)).Nodup ∧ (∀ p ∈ declaredSpaces attributes, p.2 ≠ "") ∧
        (declaredDefaults attributes).length ≤ 1 ∧
          ∃ expanded resolved,
            resolveName? around (declaredSpaces attributes) (declaredDefaults attributes).head?
              name = some expanded ∧
            resolveAttributes? (spaceOf? · (declaredSpaces attributes ::
                offeredSpaces around.isEmpty (declaredSpaces attributes) ::
                  around.map (·.label.spaces)))
              ((attributes.filter isPlainAttribute).mergeSort attributeLe) [] = some resolved ∧
            e =
              { written := name
                label :=
                  { name := expanded
                    hint? := name.alias?
                    defaultSpace? := if name.alias?.isNone then
                      (declaredDefaults attributes).head?.filter (· ≠ "") else none
                    spaces := offeredSpaces around.isEmpty (declaredSpaces attributes) }
                attributes := resolved
                children := [] } := by
  have hguard : ¬ (¬ (attributes.map (·.1)).Nodup ∨
      (declaredSpaces attributes).any (·.2.isEmpty) ∨ 1 < (declaredDefaults attributes).length) ↔
        (attributes.map (·.1)).Nodup ∧ (∀ p ∈ declaredSpaces attributes, p.2 ≠ "") ∧
          (declaredDefaults attributes).length ≤ 1 := by
    rw [not_or, not_or, not_not, Nat.not_lt, Bool.not_eq_true, List.any_eq_false]
    simp only [String.isEmpty_iff, ne_eq]
  unfold open?
  simp only
  split
  next hrefused =>
    refine iff_of_false nofun fun h => ?_
    exact hguard.2 ⟨h.1, h.2.1, h.2.2.1⟩ hrefused
  next hgranted =>
    obtain ⟨hnodup, hspaces, hdefaults⟩ := hguard.1 hgranted
    rw [and_iff_right hnodup, and_iff_right hspaces, and_iff_right hdefaults,
      Option.bind_eq_some_iff]
    simp only [Option.map_eq_some_iff]
    constructor
    · rintro ⟨expanded, hexpanded, resolved, hresolved, rfl⟩
      exact ⟨expanded, resolved, hexpanded, hresolved, rfl⟩
    · rintro ⟨expanded, resolved, hexpanded, hresolved, rfl⟩
      exact ⟨expanded, hexpanded, resolved, hresolved, rfl⟩

theorem open?_cases {around : List OpenElement} {name : WrittenName}
    {attributes : List (WrittenName × String)} {e : OpenElement}
    (h : open? around name attributes = some e) :
    (e.attributes.map (·.name)).Nodup ∧ e.children = [] := by
  obtain ⟨-, -, -, _, resolved, -, hr, rfl⟩ := open?_eq_some_iff.1 h
  have hnone : (([] : List Attribute).map (·.name)).Nodup := List.nodup_nil
  exact ⟨nodup_resolveAttributes? hnone hr, rfl⟩

/-- An open element has what its tree will need. -/
def OpenElement.WellNamed (e : OpenElement) : Prop :=
  (e.attributes.map (·.name)).Nodup ∧ ∀ t ∈ e.children, t.WellNamed

theorem OpenElement.WellNamed.close {e : OpenElement} (h : e.WellNamed) : e.close.WellNamed :=
  Tree.WellNamed.element h.1 fun t ht => h.2 t (List.mem_reverse.1 ht)

/-- The tree that an event stands for by itself. -/
def Event.leaf? : Event → Option Tree
  | .chars s | .cdata s => some (.text s false)
  | .reference c => some (.text (String.singleton c) false)
  | .comment s => some (.comment s)
  | .instruction target data? => some (.instruction target data?)
  | .declaration | .doctype | .startTag _ _ _ | .endTag _ => none

theorem Event.isElement_leaf? {event : Event} {t : Tree} (h : event.leaf? = some t) :
    t.isElement = false := by
  cases event <;> cases h <;> rfl

namespace Progress

/-- What has been read at any time: no text at the top level, and one element, open or closed,
exactly after the stage has moved on. -/
structure Sound (p : Progress) : Prop where
  top : ∀ t ∈ p.top, t.WellNamed ∧ t.isText = false
  inner : ∀ e ∈ p.inner, e.WellNamed
  count : p.top.countP Tree.isElement + (if p.inner.isEmpty then 0 else 1) =
    if p.stage = .epilog then 1 else 0

theorem afterStart_eq_epilog_iff {stage : Stage} :
    afterStart stage = .epilog ↔ stage = .epilog := by
  cases stage <;> decide

variable {p p' : Progress} {t : Tree}

/-- What an event does besides opening an element: it changes the stage before the document element,
adds the tree that it stands for, or closes the innermost element. -/
theorem step?_cases {event : Event} (h : p.step? event = some p') :
    (∃ name attributes isEmpty, event = .startTag name attributes isEmpty ∧
      p.startTag? name attributes isEmpty = some p') ∨
    (∃ e outer, p.inner = e :: outer ∧ p' = ({ p with inner := outer } : Progress).add e.close) ∨
    ∃ stage, (stage = .epilog ↔ p.stage = .epilog) ∧ (p' = { p with stage } ∨
      ∃ t, event.leaf? = some t ∧ (p.inner = [] → t.isText = false) ∧
        p' = ({ p with stage } : Progress).add t) := by
  have htext (s : String) (hi : ¬ p.inner.isEmpty = true) :
      p.inner = [] → (Tree.text s false).isText = false := fun hnil =>
    absurd (by rw [hnil]; rfl) hi
  cases event with
  | startTag name attributes isEmpty => exact Or.inl ⟨name, attributes, isEmpty, rfl, h⟩
  | endTag name =>
    obtain ⟨stage, top, inner⟩ := p
    cases inner with
    | nil => cases h
    | cons e outer =>
      simp only [step?] at h
      split at h
      next =>
        cases h
        exact Or.inr (Or.inl ⟨e, outer, rfl, rfl⟩)
      next => cases h
  | comment s | instruction target data? =>
    cases h
    exact Or.inr (Or.inr ⟨_, afterStart_eq_epilog_iff, Or.inr ⟨_, rfl, fun _ => rfl, rfl⟩⟩)
  | chars s =>
    simp only [step?] at h
    split at h
    next =>
      split at h
      next =>
        cases h
        exact Or.inr (Or.inr ⟨_, afterStart_eq_epilog_iff, Or.inl rfl⟩)
      next => cases h
    next hi =>
      cases h
      exact Or.inr (Or.inr ⟨_, Iff.rfl, Or.inr ⟨_, rfl, htext s hi, rfl⟩⟩)
  | reference c =>
    simp only [step?] at h
    split at h
    next => cases h
    next hi =>
      cases h
      exact Or.inr (Or.inr ⟨_, Iff.rfl, Or.inr ⟨_, rfl, htext _ hi, rfl⟩⟩)
  | cdata s =>
    simp only [step?] at h
    split at h
    next => cases h
    next hi =>
      cases h
      exact Or.inr (Or.inr ⟨_, Iff.rfl, Or.inr ⟨_, rfl, htext s hi, rfl⟩⟩)
  | declaration =>
    simp only [step?] at h
    split at h
    next hs =>
      cases h
      exact Or.inr (Or.inr ⟨_, by rw [hs.2]; decide, Or.inl rfl⟩)
    next => cases h
  | doctype =>
    simp only [step?] at h
    split at h
    next =>
      cases h
      exact Or.inr (Or.inr ⟨_, Iff.rfl, Or.inl rfl⟩)
    next => cases h

theorem Sound.withStage (h : p.Sound) {stage : Stage}
    (hs : stage = .epilog ↔ p.stage = .epilog) : ({ p with stage } : Progress).Sound where
  top := h.top
  inner := h.inner
  count := by simpa only [hs] using h.count

/-- A tree that may stand anywhere, or one inside an element. -/
theorem Sound.add (h : p.Sound) (ht : t.WellNamed)
    (htop : p.inner = [] → t.isText = false ∧ t.isElement = false) : (p.add t).Sound := by
  obtain ⟨stage, top, inner⟩ := p
  cases inner with
  | nil =>
    obtain ⟨htext, helement⟩ := htop rfl
    refine ⟨?_, h.inner, ?_⟩
    · intro u hu
      rcases List.mem_cons.1 hu with rfl | hu
      · exact ⟨ht, htext⟩
      · exact h.top u hu
    · show (t :: top).countP Tree.isElement + _ = _
      rw [List.countP_cons_of_neg (by simp [helement])]
      exact h.count
  | cons e outer =>
    refine ⟨h.top, ?_, h.count⟩
    intro o ho
    rcases List.mem_cons.1 ho with rfl | ho
    · obtain ⟨hn, hc⟩ := h.inner e (List.mem_cons_self ..)
      refine ⟨hn, fun u hu => ?_⟩
      rcases List.mem_cons.1 hu with rfl | hu
      · exact ht
      · exact hc u hu
    · exact h.inner o (List.mem_cons_of_mem _ ho)

/-- The element of a tree that was open at the top level. -/
theorem Sound.close {stage : Stage} {top : List Tree} {e : OpenElement} {outer : List OpenElement}
    (h : (⟨stage, top, e :: outer⟩ : Progress).Sound) :
    ((⟨stage, top, outer⟩ : Progress).add e.close).Sound := by
  have he : e.WellNamed := h.inner e (List.mem_cons_self ..)
  have houter : ∀ o ∈ outer, o.WellNamed := fun o ho => h.inner o (List.mem_cons_of_mem _ ho)
  have hcount := h.count
  cases outer with
  | nil =>
    refine ⟨?_, nofun, ?_⟩
    · intro u hu
      rcases List.mem_cons.1 hu with rfl | hu
      · exact ⟨he.close, rfl⟩
      · exact h.top u hu
    · show (e.close :: top).countP Tree.isElement + 0 = _
      rw [List.countP_cons_of_pos rfl]
      exact hcount
  | cons o rest =>
    exact Sound.add (p := ⟨stage, top, o :: rest⟩) ⟨h.top, houter, hcount⟩ he.close nofun

theorem Sound.startTag? {name : WrittenName} {attributes : List (WrittenName × String)}
    {isEmpty : Bool} (h : p.Sound) (he : p.startTag? name attributes isEmpty = some p') :
    p'.Sound := by
  unfold Progress.startTag? at he
  split at he
  next => cases he
  next hstage =>
    obtain ⟨e, hopen, rfl⟩ := Option.map_eq_some_iff.1 he
    obtain ⟨hn, hc⟩ := open?_cases hopen
    have hnamed : e.WellNamed := ⟨hn, fun t ht => by rw [hc] at ht; cases ht⟩
    -- an element without content is opened and closed at once
    have hpushed : (⟨if p.inner.isEmpty then .epilog else p.stage, p.top, e :: p.inner⟩ :
        Progress).Sound := by
      refine ⟨h.top, ?_, ?_⟩
      · intro o ho
        rcases List.mem_cons.1 ho with rfl | ho
        · exact hnamed
        · exact h.inner o ho
      · have hcount := h.count
        -- at the top level no element has been counted before
        cases hi : p.inner.isEmpty with
        | true =>
          rw [hi, if_pos rfl, if_neg fun hs => hstage ⟨hi, hs⟩] at hcount
          simpa using hcount
        | false =>
          rw [hi] at hcount
          simpa using hcount
    cases isEmpty with
    | true => exact hpushed.close
    | false => exact hpushed

theorem Sound.step? {event : Event} (h : p.Sound) (he : p.step? event = some p') : p'.Sound := by
  rcases step?_cases he with ⟨name, attributes, isEmpty, rfl, he⟩ | ⟨e, outer, hinner, rfl⟩ |
    ⟨stage, hs, rfl | ⟨t, ht, htext, rfl⟩⟩
  · exact h.startTag? he
  · obtain ⟨stage, top, inner⟩ := p
    cases hinner
    exact h.close
  · exact h.withStage hs
  · have hnamed : t.WellNamed := by
      cases event <;> cases ht <;> constructor
    exact (h.withStage hs).add hnamed fun hnil => ⟨htext hnil, Event.isElement_leaf? ht⟩

theorem Sound.foldlM {events : List Event} (h : p.Sound)
    (he : events.foldlM Progress.step? p = some p') : p'.Sound := by
  induction events generalizing p with
  | nil =>
    cases he
    exact h
  | cons event rest ih =>
    rw [List.foldlM_cons] at he
    obtain ⟨q, hq, he⟩ := Option.bind_eq_some_iff.1 he
    exact ih (h.step? hq) he

end Progress

/-- The top level of a text that is read: no text, and one element. -/
theorem readTrees?_cases {s : List Char} {trees : List Tree} (h : readTrees? s = some trees) :
    (∀ t ∈ trees, t.WellNamed ∧ t.isText = false) ∧ trees.countP Tree.isElement = 1 := by
  obtain ⟨p, hp, hfinish⟩ := Option.bind_eq_some_iff.1 h
  obtain ⟨events, -, hp⟩ := Option.bind_eq_some_iff.1 hp
  have hstart : ({} : Progress).Sound := ⟨nofun, nofun, rfl⟩
  have hsound := hstart.foldlM hp
  unfold Progress.finish? at hfinish
  split at hfinish
  next hend =>
    cases hfinish
    refine ⟨fun t ht => hsound.top t (List.mem_reverse.1 ht), ?_⟩
    -- at the end nothing is open, so the one element is closed
    have hcount := hsound.count
    rw [if_pos hend.1, if_pos hend.2] at hcount
    rwa [List.countP_reverse]
  next => cases hfinish

/-- A text that is one empty element is read as this element. -/
theorem readTrees?_of_startTag {s : List Char} {name : WrittenName}
    {attributes : List (WrittenName × String)} {e : OpenElement}
    (hs : events? s = some [.startTag name attributes true])
    (he : open? [] name attributes = some e) : readTrees? s = some [e.close] := by
  have hstep : Progress.step? {} (.startTag name attributes true) =
      some { stage := .epilog, top := [e.close] } := by
    show Progress.startTag? {} name attributes true = _
    unfold Progress.startTag?
    rw [if_neg (by decide), he]
    rfl
  rw [readTrees?, hs, Option.bind_some, List.foldlM_cons, hstep]
  rfl

end Markup

end XmlScript
