import XmlScript.Proofs.Indentation
import XmlScript.Proofs.Places

/-!
# Events of a document that is rendered

A document is rendered as pieces of markup with text between, and the reader takes its text for a
list of events. What follows an event is the end of what it was read from
(`suffix_of_event?`), so the events of a text are its first one and those of the rest
(`events?_cons`). Texts between markup are some events of text, however they are divided
(`events?_smooth`). A piece is firm if its event, or that there is none, does not depend on what
follows (`IsFirm`). So the markup among the events of a rendered document is what its pieces of
markup are one by one (`markupOf?_flatMap`), on one line or on many, and whatever has become of the
texts (`Document.exists_render_markup`).
-/

namespace XmlScript

namespace Markup

open Text (cutAt)

variable {s rest after mark a b : List Char} {e : Event} {name : WrittenName}

/-! ## What follows an event -/

theorem suffix_of_cutAt (h : cutAt mark s = some (a, b)) : b <:+ s := by
  rw [Text.eq_append_of_cutAt h]
  exact List.suffix_append _ _

theorem suffix_of_skip? (h : skip? mark s = some rest) : rest <:+ s := by
  unfold skip? at h
  split at h
  next =>
    cases h
    exact List.drop_suffix _ _
  next => cases h

theorem suffix_of_skipSomeBlanks? (h : skipSomeBlanks? s = some rest) : rest <:+ s := by
  unfold skipSomeBlanks? at h
  split at h
  next =>
    split at h
    next =>
      cases h
      exact (List.dropWhile_suffix _).trans (List.suffix_cons _ _)
    next => cases h
  next => cases h

theorem suffix_of_skipEquals? (h : skipEquals? s = some rest) : rest <:+ s := by
  obtain ⟨s₁, hs₁, rfl⟩ := Option.map_eq_some_iff.1 h
  exact (List.dropWhile_suffix _).trans
    ((suffix_of_skip? hs₁).trans (List.dropWhile_suffix _))

theorem suffix_of_quoted? (h : quoted? s = some (a, b)) : b <:+ s := by
  unfold quoted? at h
  split at h
  next => exact (suffix_of_cutAt h).trans (List.suffix_cons _ _)
  next => exact (suffix_of_cutAt h).trans (List.suffix_cons _ _)
  next => cases h

theorem suffix_of_take? {isStart isPart : Char → Bool}
    (h : Name.take? isStart isPart s = some (a, b)) : b <:+ s := by
  rw [Name.eq_append_of_take? h]
  exact List.suffix_append _ _

theorem suffix_of_writtenName? (h : writtenName? s = some (name, rest)) : rest <:+ s := by
  rw [eq_append_of_writtenName? h]
  exact List.suffix_append _ _

theorem suffix_of_attribute? {x : WrittenName × String} (h : attribute? s = some (x, rest)) :
    rest <:+ s := by
  obtain ⟨⟨name, s₁⟩, hname, h⟩ := Option.bind_eq_some_iff.1 h
  obtain ⟨s₂, hequals, h⟩ := Option.bind_eq_some_iff.1 h
  obtain ⟨⟨raw, rest'⟩, hquoted, h⟩ := Option.bind_eq_some_iff.1 h
  obtain ⟨value, -, h⟩ := Option.map_eq_some_iff.1 h
  cases h
  exact (suffix_of_quoted? hquoted).trans
    ((suffix_of_skipEquals? hequals).trans (suffix_of_writtenName? hname))

theorem suffix_of_tagRest? {bound : Nat} {x : List (WrittenName × String) × Bool}
    (h : tagRest? bound s = some (x, rest)) : rest <:+ s := by
  induction bound generalizing s x rest with
  | zero => cases h
  | succ bound ih =>
    have hblanks : skipBlanks s <:+ s := List.dropWhile_suffix _
    rw [tagRest?] at h
    split at h
    next hend =>
      cases h
      rw [hend] at hblanks
      exact (List.suffix_cons _ _).trans hblanks
    next hend =>
      cases h
      rw [hend] at hblanks
      exact (List.suffix_cons _ _).trans ((List.suffix_cons _ _).trans hblanks)
    next =>
      obtain ⟨_, -, h⟩ := Option.bind_eq_some_iff.1 h
      obtain ⟨⟨x, after⟩, hattribute, h⟩ := Option.bind_eq_some_iff.1 h
      obtain ⟨⟨_, _⟩, hrest, h⟩ := Option.map_eq_some_iff.1 h
      cases h
      exact (ih hrest).trans ((suffix_of_attribute? hattribute).trans hblanks)

theorem suffix_of_startTag? (h : startTag? s = some (e, rest)) : rest <:+ s := by
  obtain ⟨⟨name, s₁⟩, hname, h⟩ := Option.bind_eq_some_iff.1 h
  obtain ⟨⟨_, after⟩, hrest, h⟩ := Option.map_eq_some_iff.1 h
  cases h
  exact (suffix_of_tagRest? hrest).trans (suffix_of_writtenName? hname)

theorem suffix_of_endTag? (h : endTag? s = some (e, rest)) : rest <:+ s := by
  obtain ⟨⟨name, s₁⟩, hname, h⟩ := Option.bind_eq_some_iff.1 h
  obtain ⟨after, hskip, h⟩ := Option.map_eq_some_iff.1 h
  cases h
  exact (suffix_of_skip? hskip).trans
    ((List.dropWhile_suffix _).trans (suffix_of_writtenName? hname))

theorem suffix_of_comment? (h : comment? s = some (e, rest)) : rest <:+ s := by
  obtain ⟨⟨text, s₁⟩, hcut, h⟩ := Option.bind_eq_some_iff.1 h
  obtain ⟨after, hskip, h⟩ := Option.map_eq_some_iff.1 h
  cases h
  exact (suffix_of_skip? hskip).trans (suffix_of_cutAt hcut)

theorem suffix_of_cdata? (h : cdata? s = some (e, rest)) : rest <:+ s := by
  obtain ⟨⟨text, s₁⟩, hcut, h⟩ := Option.map_eq_some_iff.1 h
  cases h
  exact suffix_of_cutAt hcut

theorem suffix_of_instruction? (h : instruction? s = some (e, rest)) : rest <:+ s := by
  obtain ⟨⟨target, s₁⟩, htarget, h⟩ := Option.bind_eq_some_iff.1 h
  have hs₁ : s₁ <:+ s := suffix_of_take? htarget
  simp only at h
  split at h
  next => cases h
  next =>
    split at h
    next hskip =>
      cases h
      exact (suffix_of_skip? hskip).trans hs₁
    next hblanks =>
      obtain ⟨⟨value, after⟩, hcut, h⟩ := Option.map_eq_some_iff.1 h
      cases h
      exact (suffix_of_cutAt hcut).trans ((suffix_of_skipSomeBlanks? hblanks).trans hs₁)
    next => cases h

theorem suffix_of_setting? {key : String} {p : List Char → Bool}
    (h : setting? key p s = some rest) : rest <:+ s := by
  obtain ⟨s₁, h₁, h⟩ := Option.bind_eq_some_iff.1 h
  obtain ⟨s₂, h₂, h⟩ := Option.bind_eq_some_iff.1 h
  obtain ⟨s₃, h₃, h⟩ := Option.bind_eq_some_iff.1 h
  obtain ⟨⟨value, s₄⟩, h₄, h⟩ := Option.bind_eq_some_iff.1 h
  simp only at h
  split at h
  next =>
    cases h
    exact (suffix_of_quoted? h₄).trans ((suffix_of_skipEquals? h₃).trans
      ((suffix_of_skip? h₂).trans (suffix_of_skipSomeBlanks? h₁)))
  next => cases h

/-- What is left where a part is taken if it is there. -/
theorem suffix_getD {read? : List Char → Option (List Char)}
    (h : ∀ rest, read? s = some rest → rest <:+ s) : (read? s).getD s <:+ s := by
  cases hs : read? s with
  | none => exact List.suffix_rfl
  | some rest => exact h rest hs

theorem suffix_of_declaration? (h : declaration? ('<' :: s) = some rest) : rest <:+ s := by
  obtain ⟨s₁, h₁, h⟩ := Option.bind_eq_some_iff.1 h
  obtain ⟨s₂, h₂, h⟩ := Option.bind_eq_some_iff.1 h
  have hs₁ : s₁ <:+ s := by
    unfold skip? at h₁
    split at h₁
    next =>
      cases h₁
      exact List.drop_suffix 4 s
    next => cases h₁
  refine (suffix_of_skip? h).trans ((List.dropWhile_suffix _).trans ?_)
  refine (suffix_getD fun _ => suffix_of_setting?).trans ?_
  refine (suffix_getD fun _ => suffix_of_setting?).trans ?_
  exact (suffix_of_setting? h₂).trans hs₁

theorem suffix_of_externalId? (h : externalId? s = some rest) : rest <:+ s := by
  obtain ⟨s₁, h₁, h⟩ := Option.bind_eq_some_iff.1 h
  obtain ⟨s₂, h₂, h⟩ := Option.bind_eq_some_iff.1 h
  obtain ⟨s₃, h₃, h⟩ := Option.bind_eq_some_iff.1 h
  obtain ⟨⟨location, s₄⟩, h₄, h⟩ := Option.bind_eq_some_iff.1 h
  simp only at h
  split at h
  next =>
    cases h
    exact (suffix_of_quoted? h₄).trans ((suffix_of_skipSomeBlanks? h₃).trans
      ((suffix_of_skip? h₂).trans (suffix_of_skipSomeBlanks? h₁)))
  next => cases h

theorem suffix_of_doctype? (h : doctype? s = some (e, rest)) : rest <:+ s := by
  obtain ⟨s₁, h₁, h⟩ := Option.bind_eq_some_iff.1 h
  obtain ⟨⟨name, s₂⟩, h₂, h⟩ := Option.bind_eq_some_iff.1 h
  obtain ⟨after, hskip, h⟩ := Option.map_eq_some_iff.1 h
  cases h
  have hs₃ : skipBlanks ((externalId? s₂).getD s₂) <:+ s := by
    refine (List.dropWhile_suffix _).trans ((suffix_getD fun _ => suffix_of_externalId?).trans ?_)
    exact (suffix_of_take? h₂).trans (suffix_of_skipSomeBlanks? h₁)
  refine (suffix_of_skip? hskip).trans (List.IsSuffix.trans ?_ hs₃)
  -- what the document type says in brackets is passed over
  split
  next inner hinner =>
    split
    next hcut =>
      rw [hinner]
      exact (List.dropWhile_suffix _).trans ((suffix_of_cutAt hcut).trans (List.suffix_cons _ _))
    next => exact List.suffix_rfl
  next => exact List.suffix_rfl

/-- Every event uses a character. -/
theorem suffix_of_event? {c : Char} (h : event? (c :: s) = some (e, rest)) : rest <:+ s := by
  unfold event? at h
  split at h
  next he => cases he
  next he =>
    cases he
    exact (suffix_of_endTag? h).trans (List.suffix_cons _ _)
  next he =>
    cases he
    split at h
    next hdeclaration =>
      cases h
      exact suffix_of_declaration? hdeclaration
    next => exact (suffix_of_instruction? h).trans (List.suffix_cons _ _)
  next he =>
    cases he
    refine List.IsSuffix.trans ?_ (List.suffix_cons _ _)
    split at h
    next hskip => exact (suffix_of_comment? h).trans (suffix_of_skip? hskip)
    next _ hskip => exact (suffix_of_cdata? h).trans (suffix_of_skip? hskip)
    next _ _ hskip => exact (suffix_of_doctype? h).trans (suffix_of_skip? hskip)
    next => cases h
  next he =>
    cases he
    exact suffix_of_startTag? h
  next he =>
    cases he
    obtain ⟨⟨entity, after⟩, hcut, h⟩ := Option.bind_eq_some_iff.1 h
    obtain ⟨x, -, h⟩ := Option.map_eq_some_iff.1 h
    cases h
    exact suffix_of_cutAt hcut
  next hlt hamp =>
    simp only at h
    split at h
    next => cases h
    next =>
      cases h
      have hc : (c != '<' && c != '&') = true := by
        rw [Bool.and_eq_true, bne_iff_ne, bne_iff_ne]
        exact ⟨fun he => hlt s (by rw [he]), fun he => hamp s (by rw [he])⟩
      have hdrop : (c :: s).dropWhile (fun c => c != '<' && c != '&') =
          s.dropWhile fun c => c != '<' && c != '&' := List.dropWhile_cons_of_pos hc
      rw [hdrop]
      exact List.dropWhile_suffix _

/-! ## Events one by one -/

/-- Any bound will do that is large enough. -/
theorem eventsFrom?_congr {bound bound' : Nat} (hb : s.length ≤ bound) (hb' : s.length ≤ bound') :
    eventsFrom? bound s = eventsFrom? bound' s := by
  induction bound generalizing bound' s with
  | zero =>
    rw [List.eq_nil_of_length_eq_zero (Nat.le_zero.1 hb)]
    cases bound' <;> rfl
  | succ bound ih =>
    cases s with
    | nil => cases bound' <;> rfl
    | cons c rest =>
      cases bound' with
      | zero => cases hb'
      | succ bound' =>
        rw [List.length_cons, Nat.succ_le_succ_iff] at hb hb'
        rw [eventsFrom?, eventsFrom?]
        refine Option.bind_congr fun x hx => ?_
        have hlen := (suffix_of_event? hx).length_le
        simp only [ih (hlen.trans hb) (hlen.trans hb')]

/-- The events of a text are its first one and those of what follows. -/
theorem events?_eq (hs : s ≠ []) :
    events? s = (event? s).bind fun x => (events? x.2).map (x.1 :: ·) := by
  obtain ⟨c, rest, rfl⟩ := List.exists_cons_of_ne_nil hs
  show (event? (c :: rest)).bind _ = _
  refine Option.bind_congr fun x hx => ?_
  have hlen := (suffix_of_event? hx).length_le
  show (eventsFrom? rest.length x.2).map _ = (eventsFrom? x.2.length x.2).map _
  rw [eventsFrom?_congr hlen (Nat.le_refl _)]

theorem events?_append (hs : s ≠ []) (he : event? (s ++ after) = some (e, after)) :
    events? (s ++ after) = (events? after).map (e :: ·) := by
  rw [events?_eq fun hnil => hs (List.append_eq_nil_iff.1 hnil).1, he]
  rfl

/-! ## Text between markup -/

/-- Whether an event is text between markup. -/
def Event.isText : Event → Bool
  | .chars _ | .reference _ | .cdata _ => true
  | .declaration | .doctype | .comment _ | .instruction _ _ | .startTag _ _ _ | .endTag _ => false

/-- The events of a text are those of its end, with text before them. -/
def TextBefore (s after : List Char) : Prop :=
  ∃ xs : List Event, (∀ x ∈ xs, x.isText = true) ∧
    events? (s ++ after) = (events? after).map (xs ++ ·)

theorem TextBefore.refl (after : List Char) : TextBefore [] after := by
  refine ⟨[], List.forall_mem_nil _, ?_⟩
  rw [List.nil_append]
  cases events? after <;> rfl

theorem TextBefore.cons {w : List Char} (hw : w ≠ [])
    (he : event? (w ++ (s ++ after)) = some (e, s ++ after)) (htext : e.isText = true)
    (h : TextBefore s after) : TextBefore (w ++ s) after := by
  obtain ⟨xs, hxs, hs⟩ := h
  refine ⟨e :: xs, List.forall_mem_cons.2 ⟨htext, hxs⟩, ?_⟩
  rw [List.append_assoc, events?_append hw he, hs, Option.map_map]
  rfl

theorem Event.isText_of_leaf? {x : Tree} (h : e.leaf? = some x) (hx : x.isText = true) :
    e.isText = true := by
  cases e with
  | chars _ | cdata _ | reference _ => rfl
  | comment _ | instruction _ _ =>
    cases h
    cases hx
  | declaration | doctype | startTag _ _ _ | endTag _ => cases h

/-- Characters and references are some events of text. -/
theorem textBefore_smooth (hs : Smooth s) (ha : BeginsMarkup after) : TextBefore s after :=
  hs.of_events (motive := (TextBefore · after)) ha (TextBefore.refl after) fun hne he hleaf htext h =>
    h.cons hne he (Event.isText_of_leaf? hleaf htext)

/-- The markup among the events of a text. -/
def markupOf? (s : List Char) : Option (List Event) :=
  (events? s).map fun events => events.filter (!·.isText)

theorem markupOf?_of_textBefore (h : TextBefore s after) :
    markupOf? (s ++ after) = markupOf? after := by
  obtain ⟨xs, hxs, hs⟩ := h
  have hnone : xs.filter (!·.isText) = [] :=
    List.filter_eq_nil_iff.2 fun x hx => by rw [hxs x hx]; decide
  unfold markupOf?
  rw [hs, Option.map_map]
  refine Option.map_congr fun events _ => ?_
  show (xs ++ events).filter _ = _
  rw [List.filter_append, hnone, List.nil_append]

/-! ## Pieces -/

/-- What a piece is to the reader. -/
def Piece.event? (p : Piece) : Option Event := (Markup.event? p.written).map (·.1)

/-- A piece that is the same to the reader whatever follows. -/
structure IsFirm (p : Piece) : Prop where
  event? : ∀ after, Markup.event? (p.written ++ after) = p.event?.map (·, after)
  isText : ∀ e ∈ p.event?, e.isText = false

theorem isFirm_of_event? {p : Piece} {e? : Option Event}
    (h : ∀ after, event? (p.written ++ after) = e?.map (·, after))
    (htext : ∀ e ∈ e?, e.isText = false) : IsFirm p ∧ p.event? = e? := by
  have he : p.event? = e? := by
    have hnil := h []
    rw [List.append_nil] at hnil
    rw [Piece.event?, hnil, Option.map_map]
    exact Option.map_id'
  exact ⟨⟨fun after => by rw [h, he], by rwa [he]⟩, he⟩

/-- Pieces of which the markup is the given events, whatever follows. -/
structure Marked (ps : List Piece) (events : List Event) : Prop where
  firm : ∀ p ∈ ps, p.isMarkup = true → IsFirm p
  events : (ps.filter Piece.isMarkup).mapM Piece.event? = some events

namespace Marked

variable {p : Piece} {ps ps' : List Piece} {es es' : List Event}

theorem nil : Marked [] [] := ⟨nofun, rfl⟩

theorem cons (hp : p.isMarkup = true)
    (he : ∀ after, event? (p.written ++ after) = some (e, after)) (htext : e.isText = false)
    (h : Marked ps es) : Marked (p :: ps) (e :: es) := by
  obtain ⟨hfirm, hevent⟩ : IsFirm p ∧ p.event? = some e :=
    isFirm_of_event? he fun e' he' => Option.some.inj he' ▸ htext
  refine ⟨List.forall_mem_cons.2 ⟨fun _ => hfirm, h.firm⟩, ?_⟩
  rw [List.filter_cons_of_pos hp, List.mapM_cons, hevent, h.events]
  rfl

theorem settled (run : Run) (h : Marked ps es) : Marked (run.settled ++ ps) es := by
  unfold Run.settled
  split
  next => exact h
  next =>
    refine ⟨List.forall_mem_cons.2 ⟨fun hmark => ?_, h.firm⟩, h.events⟩
    cases hmark

theorem append (h : Marked ps es) (h' : Marked ps' es') : Marked (ps ++ ps') (es ++ es') := by
  refine ⟨List.forall_mem_append.2 ⟨h.firm, h'.firm⟩, ?_⟩
  rw [List.filter_append, List.mapM_append, h.events, h'.events]
  rfl

end Marked

/-- The markup among the events of some pieces is what its pieces of markup are. -/
theorem markupOf?_flatMap {ps : List Piece} (hmarks : ∀ p ∈ ps, p.isMarkup = true → IsFirm p)
    (hfillers : ∀ p ∈ ps, p.isMarkup = false → IsReadable p) :
    markupOf? (ps.flatMap Piece.written) = (ps.filter Piece.isMarkup).mapM Piece.event? := by
  -- a text goes on into the next one
  suffices hs : ∀ s, Smooth s → markupOf? (s ++ ps.flatMap Piece.written) =
      (ps.filter Piece.isMarkup).mapM Piece.event? from hs [] .nil
  induction ps with
  | nil =>
    intro s hs
    exact markupOf?_of_textBefore (textBefore_smooth hs nofun)
  | cons p ps ih =>
    rw [List.forall_mem_cons] at hmarks hfillers
    have ih := ih hmarks.2 hfillers.2
    intro s hs
    rw [List.flatMap_cons]
    by_cases hp : p.isMarkup = true
    · obtain ⟨inner, hwritten⟩ := exists_written_cons hp
      have hfirm := hmarks.1 hp
      have hne : p.written ++ ps.flatMap Piece.written ≠ [] := by
        rw [hwritten]
        exact List.cons_ne_nil _ _
      have hrest := ih [] .nil
      rw [List.nil_append] at hrest
      rw [markupOf?_of_textBefore (textBefore_smooth hs (beginsMarkup_of_isMarkup hp _)),
        List.filter_cons_of_pos hp, List.mapM_cons, ← hrest]
      unfold markupOf?
      rw [events?_eq hne, hfirm.event?]
      cases he : p.event? with
      | none => rfl
      | some e =>
        have htext := hfirm.isText e he
        show ((events? _).map (e :: ·)).map _ = ((events? _).map _).bind _
        cases events? (ps.flatMap Piece.written) with
        | none => rfl
        | some events =>
          show some ((e :: events).filter _) = some (e :: _)
          rw [List.filter_cons_of_pos (by rw [htext]; rfl)]
    · have hfiller := hfillers.1 (Bool.eq_false_iff.2 hp)
      rw [List.filter_cons_of_neg hp]
      cases p with
      | text t =>
        rw [← List.append_assoc]
        exact ih _ (hs.append hfiller)
      | cdata t =>
        have hopens := opens_cdata hfiller
        have hne : (Piece.cdata t).written ≠ [] := List.cons_ne_nil _ _
        have hsection : TextBefore (Piece.cdata t).written (ps.flatMap Piece.written) := by
          have hrefl := TextBefore.refl (ps.flatMap Piece.written)
          rw [← List.append_nil (Piece.cdata t).written]
          exact hrefl.cons hne (event?_cdata hfiller _) rfl
        rw [markupOf?_of_textBefore (textBefore_smooth hs (beginsMarkup_written hopens _)),
          markupOf?_of_textBefore hsection]
        exact ih [] .nil
      | _ => cases hfiller

/-! ## Texts that are laid out -/

theorem Smooth.dropWhile (h : Smooth s) : Smooth (s.dropWhile Text.isMarkupBlank) := by
  induction h with
  | nil => exact .nil
  | cons hc hs ih =>
    cases hc with
    | plain hplain =>
      rw [List.cons_append, List.nil_append, List.dropWhile_cons]
      split
      next => exact ih
      next => exact .cons (.plain hplain) hs
    | reference entity hsemi href =>
      rw [List.cons_append, List.dropWhile_cons_of_neg (by decide), ← List.cons_append]
      exact .cons (.reference entity hsemi href) hs

/-- A reference ends with a semicolon, so only characters for themselves can be dropped. -/
theorem Smooth.dropEndWhile (h : Smooth s) :
    Smooth (Text.dropEndWhile Text.isMarkupBlank s) := by
  unfold Text.dropEndWhile
  induction h with
  | nil => exact .nil
  | @cons c w s hc hs ih =>
    rw [List.reverse_append, List.dropWhile_append]
    split
    next =>
      cases hc with
      | plain hplain =>
        rw [List.reverse_singleton, List.dropWhile_cons]
        split
        next => exact .nil
        next => exact .cons (.plain hplain) .nil
      | reference entity hsemi href =>
        rw [← List.cons_append, List.reverse_append, List.reverse_singleton,
          List.singleton_append, List.dropWhile_cons_of_neg (by decide), List.reverse_cons,
          List.reverse_reverse, List.cons_append]
        exact List.append_nil ('&' :: (entity ++ [';'])) ▸
          .cons (.reference entity hsemi href) .nil
    next =>
      rw [List.reverse_append, List.reverse_reverse]
      exact .cons hc ih

theorem isReadable_textOf (h : Smooth s) : ∀ x ∈ textOf s, IsReadable x := by
  intro x hx
  unfold textOf at hx
  split at hx
  next => cases hx
  next =>
    rw [List.mem_singleton.1 hx]
    exact h

theorem IsReadable.isMarkup_eq {p : Piece} (h : IsReadable p) : p.isMarkup = false := by
  cases p with
  | text s | cdata s => rfl
  | _ => cases h

theorem Run.isReadable_trimmed (run : Run) : ∀ x ∈ run.trimmed, IsReadable x := by
  unfold trimmed
  split
  next hdata =>
    have hrewritten := run.isReadable_rewritten
    rwa [rewritten, if_pos hdata] at hrewritten
  next =>
    exact isReadable_textOf
      (smooth_flatMap (fun c => (escapes_text c).spells) _).dropWhile.dropEndWhile

/-! ## Pieces that are laid out -/

section

variable {f : Run → List Piece} {segments : List Segment} {ps : List Piece}

/-- Pieces that can be read one by one: their markup is firm, and everything else is text. -/
structure AreFirm (ps : List Piece) : Prop where
  marks : ∀ p ∈ ps, p.isMarkup = true → IsFirm p
  fillers : ∀ p ∈ ps, p.isMarkup = false → IsReadable p

theorem AreFirm.markupOf?_eq (h : AreFirm ps) :
    markupOf? (ps.flatMap Piece.written) = (ps.filter Piece.isMarkup).mapM Piece.event? :=
  markupOf?_flatMap h.marks h.fillers

theorem mem_assemble (f : Run → List Piece) (last? : Option Run) {x : Segment}
    (hx : x ∈ segments) : x.mark ∈ assemble f last? segments := by
  induction segments with
  | nil => cases hx
  | cons y rest ih =>
    refine List.mem_append_right _ (List.mem_cons.2 ?_)
    exact (List.mem_cons.1 hx).imp (congrArg Segment.mark) ih

theorem areFirm_assemble (last? : Option Run) (hf : ∀ run, ∀ p ∈ f run, IsReadable p)
    (hm : ∀ x ∈ segments, x.mark.isMarkup = true ∧ IsFirm x.mark) :
    AreFirm (assemble f last? segments) ∧
      (assemble f last? segments).filter Piece.isMarkup = segments.map (·.mark) := by
  have hfilling (run? : Option Run) : ∀ p ∈ filling f run?, IsReadable p := by
    intro p hp
    obtain ⟨run, -, hp⟩ := mem_filling hp
    exact hf run p hp
  have hnone (run? : Option Run) : (filling f run?).filter Piece.isMarkup = [] :=
    List.filter_eq_nil_iff.2 fun p hp => by
      rw [(hfilling run? p hp).isMarkup_eq]
      exact Bool.false_ne_true
  have hareFirm {run? : Option Run} {ps : List Piece} (h : AreFirm ps) :
      AreFirm (filling f run? ++ ps) := by
    refine ⟨List.forall_mem_append.2 ⟨fun p hp hmark => ?_, h.marks⟩,
      List.forall_mem_append.2 ⟨fun p hp _ => hfilling run? p hp, h.fillers⟩⟩
    rw [(hfilling run? p hp).isMarkup_eq] at hmark
    cases hmark
  induction segments with
  | nil =>
    have hlast : AreFirm (filling f last? ++ []) := hareFirm ⟨nofun, nofun⟩
    rw [List.append_nil] at hlast
    exact ⟨hlast, hnone last?⟩
  | cons x rest ih =>
    rw [List.forall_mem_cons] at hm
    obtain ⟨hfirm, hmarks⟩ := ih hm.2
    refine ⟨hareFirm ⟨?_, ?_⟩, ?_⟩
    · exact List.forall_mem_cons.2 ⟨fun _ => hm.1.2, hfirm.marks⟩
    · refine List.forall_mem_cons.2 ⟨fun hmark => ?_, hfirm.fillers⟩
      rw [hm.1.1] at hmark
      cases hmark
    · rw [assemble, List.filter_append, hnone, List.nil_append, List.filter_cons_of_pos hm.1.1,
        hmarks, List.map_cons]

/-- What goes before the pieces on lines is blank. -/
theorem areFirm_onLines (width? : Option Nat) (line : Line) (h : AreFirm ps) :
    AreFirm (onLines width? line ps) ∧
      (onLines width? line ps).filter Piece.isMarkup = ps.filter Piece.isMarkup := by
  induction ps generalizing line with
  | nil => exact ⟨h, rfl⟩
  | cons p ps ih =>
    obtain ⟨hmarks, hfillers⟩ := h
    rw [List.forall_mem_cons] at hmarks hfillers
    obtain ⟨hfirm, hfilter⟩ := ih (place width? line p).2 ⟨hmarks.2, hfillers.2⟩
    have hstart : ∀ x ∈ textOf (startOf width? line p), IsReadable x :=
      isReadable_textOf (smooth_of_blanks blank_of_mem_startOf)
    have hnone : (textOf (startOf width? line p)).filter Piece.isMarkup = [] :=
      List.filter_eq_nil_iff.2 fun x hx => by
        rw [(hstart x hx).isMarkup_eq]
        exact Bool.false_ne_true
    rw [onLines]
    refine ⟨⟨List.forall_mem_append.2 ⟨fun x hx hmark => ?_, ?_⟩,
      List.forall_mem_append.2 ⟨fun x hx _ => hstart x hx, ?_⟩⟩, ?_⟩
    · rw [(hstart x hx).isMarkup_eq] at hmark
      cases hmark
    · exact List.forall_mem_cons.2 ⟨hmarks.1, hfirm.marks⟩
    · exact List.forall_mem_cons.2 ⟨hfillers.1, hfirm.fillers⟩
    · rw [List.filter_append, hnone, List.nil_append, List.filter_cons, List.filter_cons, hfilter]

end

/-- What the reader finds in front of a document. -/
def frontEvents (declared : Bool) : List Event := if declared then [.declaration] else []

theorem marked_front (declared encoding : Bool) :
    Marked (front declared encoding) (frontEvents declared) := by
  cases declared with
  | false => exact .nil
  | true =>
    refine .cons rfl (fun after => ?_) rfl .nil
    rw [← declaration_eq, event?_declaration]

end Markup

/-! ## Documents that are rendered -/

open Markup

namespace Document

variable {d : Document} {ps : List Piece} {next : Nat}

/-- A document whose pieces of markup are firm is rendered, and the markup of the text is what they
are. -/
theorem exists_render_markup (hroot : ∀ t ∈ d.trees, t.isText = false)
    (hwritable : ∀ t ∈ d.trees, t.Every (Tree.Has Content.Writable))
    (hps : Pieced [] 0 [] d.trees ps next) (hfirm : ∀ p ∈ ps, p.isMarkup = true → IsFirm p)
    (options : RenderOptions)
    (hwidth : ∀ width ∈ options.indent?, ∀ t ∈ d.trees, t.hasChildren = true →
      width < textLimit) :
    ∃ text, d.render options = .ok text ∧ markupOf? text =
      ((ps.filter Piece.isMarkup).mapM Piece.event?).map
        (frontEvents options.declaration ++ ·) := by
  obtain ⟨written, hwritten, hreads, hwoven⟩ :=
    hps.reads_document hroot hwritable options.encoding options.declaration
  obtain ⟨segments, last?, hsegments, hruns, hmarks, -⟩ := exists_segments hreads hwoven
  have hmarked := marked_front options.declaration options.encoding
  have hm : ∀ x ∈ segments, x.mark.isMarkup = true ∧ IsFirm x.mark := by
    intro x hx
    have hmark : x.mark.isMarkup = true := hmarks.isMarkup_of_mem (List.mem_map_of_mem hx)
    refine ⟨hmark, ?_⟩
    have hmem := mem_assemble Run.plain last? hx
    rw [← hsegments] at hmem
    rcases List.mem_append.1 hmem with hmem | hmem
    · exact hmarked.firm _ hmem hmark
    · exact hfirm _ hmem hmark
  have hmarkup : (segments.map (·.mark)).mapM Piece.event? =
      ((ps.filter Piece.isMarkup).mapM Piece.event?).map
        (frontEvents options.declaration ++ ·) := by
    have hplain : ∀ run : Run, ∀ p ∈ run.plain, IsReadable p := fun run =>
      List.forall_mem_singleton.2 (smooth_flatMap (fun c => (escapes_text c).spells) _)
    rw [← (areFirm_assemble last? hplain hm).2, ← hsegments, List.filter_append,
      List.mapM_append, hmarked.events]
    cases (ps.filter Piece.isMarkup).mapM Piece.event? <;> rfl
  have hall : ∀ x ∈ segments, x.mark.isMarkup = true := fun x hx => (hm x hx).1
  rw [hsegments] at hreads
  by_cases hlines : ∃ width ∈ options.indent?, 0 < width
  · obtain ⟨width, hindent, hpos⟩ := hlines
    have hlaid := areFirm_assemble last? Run.isReadable_trimmed hm
    have honlines := areFirm_onLines (some width) {} hlaid.1
    have hrender := render_lines hpos (hwidth width hindent) hwritten hreads hruns hall
    rw [show ({ options with indent? := some width } : RenderOptions) = options by
      rw [← Option.mem_def.1 hindent]] at hrender
    exact ⟨_, hrender, by rw [honlines.1.markupOf?_eq, honlines.2, hlaid.2, hmarkup]⟩
  · have hlaid := areFirm_assemble last? Run.isReadable_rewritten hm
    have hindent : ∀ width ∈ options.indent?, width = 0 := fun width hmem =>
      Nat.eq_zero_of_not_pos fun hpos => hlines ⟨width, hmem, hpos⟩
    exact ⟨_, render_flat hindent hwritten hreads hruns hall,
      by rw [hlaid.1.markupOf?_eq, hlaid.2, hmarkup]⟩

end Document

end XmlScript
