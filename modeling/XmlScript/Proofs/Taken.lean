import XmlScript.Proofs.Marks
import XmlScript.Proofs.Places
import XmlScript.Proofs.Readback

/-!
# What the reader takes

`XmlScript.Proofs.Places` goes from places to the reader; here it is the other way round. The reader
takes only what may come where it is: whatever stands for a tree by itself leaves it at the same
spot (`Progress.adds_of_leaf?`), and a start tag that it takes is admissible
(`Progress.exists_of_startTag`). So from a text that is accepted it can be said what the reader has
made of the pieces that the text is written in (`Taken`), mark by mark, with the texts among them
left out: the tags of an element and what is inside them become one tree (`Taken.enclose`).

What has been read is said by its marks only (`Progress.Adds`), for the texts of a document are cut
in other ways by the reader than by those who wrote them.
-/

namespace XmlScript

namespace Markup

/-! ## Steps of the reader -/

variable {around : List OpenElement} {name : WrittenName}
  {attributes : List (WrittenName × String)} {e : OpenElement}

theorem isSome_of_resolveAttributes? {space? : String → Option String}
    {written : List (WrittenName × String)} {done resolved : List Attribute}
    (h : resolveAttributes? space? written done = some resolved) :
    ∀ w ∈ written, ∀ short ∈ w.1.alias?, (space? short).isSome = true := by
  induction written generalizing done with
  | nil => exact List.forall_mem_nil _
  | cons w rest ih =>
    rw [resolveAttributes?] at h
    obtain ⟨a, ha, h⟩ := Option.bind_eq_some_iff.1 h
    refine List.forall_mem_cons.2 ⟨fun short hshort => ?_, ih h⟩
    rw [Option.mem_def.1 hshort] at ha
    obtain ⟨uri, huri, -⟩ := Option.map_eq_some_iff.1 ha
    exact Option.isSome_of_eq_some huri

/-- The reader opens admissible elements only. -/
theorem admissible_of_open? (h : open? around name attributes = some e) :
    Admissible (around.map (·.label.spaces)) name attributes := by
  obtain ⟨hnodup, hspace, hdefault, expanded, resolved, hexpanded, hresolved, rfl⟩ :=
    open?_eq_some_iff.1 h
  refine ⟨hnodup, hspace, hdefault, fun short hshort => ?_, fun a ha hplain => ?_⟩
  · unfold resolveName? at hexpanded
    rw [Option.mem_def.1 hshort] at hexpanded
    obtain ⟨uri, huri, -⟩ := Option.map_eq_some_iff.1 hexpanded
    exact Option.isSome_of_eq_some huri
  · rw [List.isEmpty_map]
    refine isSome_of_resolveAttributes? hresolved a ?_
    exact List.mem_mergeSort.2 (List.mem_filter.2 ⟨ha, hplain⟩)

/-- Where a start tag leads to, at the top level or inside an element. -/
def Place.stageInside (q : Place) : Stage := if q.inner = [] then .epilog else q.stage

namespace Progress

variable {p p' p'' : Progress} {trees rest : List Tree}

/-- Where the reader is, when it makes no difference whether anything has been read. -/
def spot (p : Progress) : Place := ⟨afterStart p.stage, p.place.inner⟩

theorem afterStart_afterStart (stage : Stage) :
    afterStart (afterStart stage) = afterStart stage := by
  cases stage <;> rfl

theorem spot_stage_ne_start (p : Progress) : p.spot.stage ≠ .start :=
  Place.afterStart_ne_start p.stage

theorem add_stage (p : Progress) (t : Tree) (stage : Stage) :
    ({ p with stage } : Progress).add t = { p.add t with stage } := by
  obtain ⟨_, top, inner⟩ := p
  cases inner <;> rfl

theorem foldl_add_stage (p : Progress) (trees : List Tree) (stage : Stage) :
    trees.foldl add { p with stage } = { trees.foldl add p with stage } := by
  induction trees generalizing p with
  | nil => rfl
  | cons t trees ih => rw [List.foldl_cons, List.foldl_cons, add_stage, ih]

theorem foldl_add_nil {stage : Stage} {top : List Tree} (trees : List Tree) :
    trees.foldl add ⟨stage, top, []⟩ = ⟨stage, trees.reverse ++ top, []⟩ := by
  induction trees generalizing top with
  | nil => rfl
  | cons t trees ih =>
    rw [List.foldl_cons, add, ih]
    simp

theorem foldl_add_cons {stage : Stage} {top : List Tree} {e : OpenElement}
    {outer : List OpenElement} (trees : List Tree) :
    trees.foldl add ⟨stage, top, e :: outer⟩ =
      ⟨stage, top, { e with children := trees.reverse ++ e.children } :: outer⟩ := by
  induction trees generalizing e with
  | nil => rfl
  | cons t trees ih =>
    rw [List.foldl_cons, add, ih]
    simp

/-- The reader has added trees where it had got to, with these marks among them and in the elements
that they hold. Besides, only its stage may have changed. -/
def Adds (p : Progress) (marks : List Mark) (rows : List (List Mark)) (p' : Progress) : Prop :=
  ∃ trees stage, p' = trees.foldl add { p with stage } ∧ Tree.marks trees = marks ∧
    Tree.rows trees = rows

namespace Adds

variable {marks marks' : List Mark} {rows rows' : List (List Mark)}

theorem nil (p : Progress) (stage : Stage) : p.Adds [] [] { p with stage } :=
  ⟨[], stage, rfl, rfl, Tree.rows_nil⟩

theorem add (p : Progress) (t : Tree) (stage : Stage) :
    p.Adds (Tree.marks [t]) (Tree.rows [t]) (({ p with stage } : Progress).add t) :=
  ⟨[t], stage, rfl, rfl, rfl⟩

theorem trans (h : p.Adds marks rows p') (h' : p'.Adds marks' rows' p'') :
    p.Adds (marks ++ marks') (rows ++ rows') p'' := by
  obtain ⟨trees, stage, rfl, rfl, rfl⟩ := h
  obtain ⟨trees', stage', rfl, rfl, rfl⟩ := h'
  refine ⟨trees ++ trees', stage', ?_, Tree.marks_append, Tree.collect_append⟩
  rw [← foldl_add_stage, List.foldl_append]

end Adds

theorem spot_add (p : Progress) (t : Tree) : (p.add t).spot = p.spot := by
  have hplace := Place.place_add p t
  unfold spot
  rw [show (p.add t).stage = p.stage from congrArg Place.stage hplace, hplace]

/-- What stands for a tree by itself leaves the reader where it is. Text is no mark, and beside the
document element it is dropped. -/
theorem adds_of_leaf? {event : Event} {t : Tree} (ht : event.leaf? = some t)
    (h : p.step? event = some p') : p.Adds (Tree.marks [t]) [] p' ∧ p'.spot = p.spot := by
  have hadd (t : Tree) (stage : Stage) (hleaf : t.isElement = false)
      (hstage : afterStart stage = afterStart p.stage) :
      p.Adds (Tree.marks [t]) [] (({ p with stage } : Progress).add t) ∧
        (({ p with stage } : Progress).add t).spot = p.spot := by
    have hrows : Tree.rows [t] = [] := by rw [Tree.rows_cons_leaf hleaf, Tree.rows_nil]
    refine ⟨hrows ▸ .add p t stage, ?_⟩
    rw [spot_add]
    exact congrArg (Place.mk · _) hstage
  cases event with
  | comment s | instruction target data? =>
    cases ht
    cases h
    exact hadd _ _ rfl (afterStart_afterStart _)
  | chars s =>
    cases ht
    simp only [step?] at h
    split at h
    next =>
      split at h
      next =>
        cases h
        exact ⟨.nil p _, congrArg (Place.mk · _) (afterStart_afterStart _)⟩
      next => cases h
    next =>
      cases h
      exact hadd _ _ rfl rfl
  | reference c | cdata s =>
    cases ht
    simp only [step?] at h
    split at h
    next => cases h
    next =>
      cases h
      exact hadd _ _ rfl rfl
  | declaration | doctype | startTag _ _ _ | endTag _ => cases ht

/-- A start tag that the reader takes may come where it does, and it opens an element. -/
theorem exists_of_startTag {name : WrittenName} {attributes : List (WrittenName × String)}
    {isEmpty : Bool} (h : p.step? (.startTag name attributes isEmpty) = some p') :
    ∃ e stage, e.written = name ∧ e.children = [] ∧ afterStart stage = p.spot.stageInside ∧
      (∀ isEmpty, p.spot.Step (.startTag name attributes isEmpty) ⟨p.spot.stageInside,
        if isEmpty then p.spot.inner else (name, e.label.spaces) :: p.spot.inner⟩) ∧
      p' = if isEmpty then ({ p with stage } : Progress).add e.close
        else { p with stage, inner := e :: p.inner } := by
  obtain ⟨stage, top, inner⟩ := p
  simp only [step?, startTag?] at h
  split at h
  next => cases h
  next hstage =>
    obtain ⟨e, hopen, rfl⟩ := Option.map_eq_some_iff.1 h
    have hadmissible : Admissible
        ((inner.map fun e => (e.written, e.label.spaces)).map (·.2)) name attributes := by
      rw [List.map_map]
      exact admissible_of_open? hopen
    have htop : (inner.map fun e => (e.written, e.label.spaces)) = [] →
        afterStart stage ≠ .epilog := fun hnil hend =>
      hstage ⟨List.isEmpty_iff.2 (List.map_eq_nil_iff.1 hnil), afterStart_eq_epilog_iff.1 hend⟩
    obtain ⟨-, -, -, expanded, resolved, -, -, rfl⟩ := open?_eq_some_iff.1 hopen
    refine ⟨_, _, rfl, rfl, ?_, fun isEmpty => ?_, rfl⟩
    · cases inner <;> rfl
    · cases inner with
      | nil => exact .startTag isEmpty htop hadmissible
      | cons o outer => exact .startTag isEmpty htop hadmissible

/-- What has been added since an element was opened goes into its tree. -/
theorem Adds.close {e : OpenElement} {stage : Stage} {marks : List Mark} {rows : List (List Mark)}
    (he : e.children = [])
    (h : ({ p with stage, inner := e :: p.inner } : Progress).Adds marks rows p') :
    ∃ e' stage', p' = { p with stage := stage', inner := e' :: p.inner } ∧
      p.Adds [.element] (marks :: rows) (({ p with stage := stage' } : Progress).add e'.close) := by
  obtain ⟨trees, stage', rfl, rfl, rfl⟩ := h
  refine ⟨{ e with children := trees.reverse ++ e.children }, stage', foldl_add_cons trees, ?_⟩
  have hclose : ({ e with children := trees.reverse ++ e.children } : OpenElement).close =
      .element e.label e.attributes trees := by
    rw [OpenElement.close, he]
    simp
  have hadds := Adds.add p (.element e.label e.attributes trees) stage'
  rw [Tree.rows_cons_element, Tree.rows_nil, List.append_nil] at hadds
  rw [hclose]
  exact hadds

end Progress

/-! ## Pieces that are taken -/

/-- The reader takes some pieces, whatever texts there are among their marks. -/
def Taken (p : Progress) (ps : List Piece) (p' : Progress) : Prop :=
  ∃ events : List Event,
    (ps.filter Piece.isMarkup).mapM Piece.event? = some (events.filter (!·.isText)) ∧
      events.foldlM Progress.step? p = some p'

namespace Taken

variable {p p' p'' : Progress} {ps ps' : List Piece}

/-- Texts have no marks. -/
theorem adds_of_texts {texts : List Event} (ht : ∀ e ∈ texts, e.isText = true)
    (h : texts.foldlM Progress.step? p = some p') : p.Adds [] [] p' ∧ p'.spot = p.spot := by
  induction texts generalizing p with
  | nil =>
    cases h
    exact ⟨.nil p' p'.stage, rfl⟩
  | cons e texts ih =>
    rw [List.forall_mem_cons] at ht
    rw [List.foldlM_cons] at h
    obtain ⟨q, hq, h⟩ := Option.bind_eq_some_iff.1 h
    obtain ⟨t, hleaf, hmarks⟩ : ∃ t, e.leaf? = some t ∧ Tree.marks [t] = [] := by
      cases e with
      | chars _ | reference _ | cdata _ => exact ⟨_, rfl, rfl⟩
      | declaration | doctype | comment _ | instruction _ _ | startTag _ _ _ | endTag _ =>
        cases ht.1
    obtain ⟨hadds, hspot⟩ := Progress.adds_of_leaf? hleaf hq
    obtain ⟨hrest, hspot'⟩ := ih ht.2 h
    rw [hmarks] at hadds
    exact ⟨hadds.trans hrest, hspot'.trans hspot⟩

theorem nil (h : Taken p [] p') : p.Adds [] [] p' ∧ p'.spot = p.spot := by
  obtain ⟨events, hevents, hfold⟩ := h
  have hnone : events.filter (!·.isText) = [] := (Option.some.inj hevents).symm
  refine adds_of_texts (fun e he => ?_) hfold
  simpa using List.filter_eq_nil_iff.1 hnone e he

theorem refl (p : Progress) : Taken p [] p := ⟨[], rfl, rfl⟩

theorem append (h : Taken p (ps ++ ps') p'') : ∃ p', Taken p ps p' ∧ Taken p' ps' p'' := by
  obtain ⟨events, hevents, hfold⟩ := h
  rw [List.filter_append, List.mapM_append] at hevents
  obtain ⟨es, hes, hevents⟩ := Option.bind_eq_some_iff.1 hevents
  obtain ⟨es', hes', hevents⟩ := Option.bind_eq_some_iff.1 hevents
  obtain ⟨before, after, rfl, rfl, rfl⟩ :=
    List.filter_eq_append_iff.1 (Option.some.inj hevents).symm
  rw [List.foldlM_append] at hfold
  obtain ⟨p', hp', hfold⟩ := Option.bind_eq_some_iff.1 hfold
  exact ⟨p', ⟨before, hes, hp'⟩, ⟨after, hes', hfold⟩⟩

theorem settled {run : Run} (h : Taken p (run.settled ++ ps) p') : Taken p ps p' := by
  unfold Run.settled at h
  split at h
  next => exact h
  next =>
    obtain ⟨events, hevents, hfold⟩ := h
    exact ⟨events, hevents, hfold⟩

/-- A mark is taken after the texts before it. -/
theorem mark {x : Piece} (hx : x.isMarkup = true) (h : Taken p (x :: ps) p'') :
    ∃ q e q', p.Adds [] [] q ∧ q.spot = p.spot ∧ x.event? = some e ∧ q.step? e = some q' ∧
      Taken q' ps p'' := by
  obtain ⟨events, hevents, hfold⟩ := h
  rw [List.filter_cons_of_pos hx, List.mapM_cons] at hevents
  obtain ⟨e, he, hevents⟩ := Option.bind_eq_some_iff.1 hevents
  obtain ⟨es, hes, hevents⟩ := Option.bind_eq_some_iff.1 hevents
  obtain ⟨texts, after, rfl, htexts, -, rfl⟩ :=
    List.filter_eq_cons_iff.1 (Option.some.inj hevents).symm
  rw [List.foldlM_append] at hfold
  obtain ⟨q, hq, hfold⟩ := Option.bind_eq_some_iff.1 hfold
  rw [List.foldlM_cons] at hfold
  obtain ⟨q', hq', hfold⟩ := Option.bind_eq_some_iff.1 hfold
  obtain ⟨hadds, hspot⟩ := adds_of_texts (fun x hmem => by simpa using htexts x hmem) hq
  exact ⟨q, e, q', hadds, hspot, he, hq', after, hes, hfold⟩

/-- A start tag is taken where it may come, and it opens an element. -/
theorem startTag {x : Piece} {isEmpty : Bool}
    {read? : Option (WrittenName × List (WrittenName × String))} (hx : x.isMarkup = true)
    (hevent : x.event? = read?.map fun y => .startTag y.1 y.2 isEmpty)
    (h : Taken p (x :: ps) p'') :
    ∃ q e stage read, read? = some (e.written, read) ∧ p.Adds [] [] q ∧ e.children = [] ∧
      (∀ isEmpty, p.spot.Step (.startTag e.written read isEmpty) ⟨p.spot.stageInside,
        if isEmpty then p.spot.inner else (e.written, e.label.spaces) :: p.spot.inner⟩) ∧
      ({ q with stage, inner := e :: q.inner } : Progress).spot =
        ⟨p.spot.stageInside, (e.written, e.label.spaces) :: p.spot.inner⟩ ∧
      Taken (if isEmpty then ({ q with stage } : Progress).add e.close
        else { q with stage, inner := e :: q.inner }) ps p'' := by
  obtain ⟨q, event, q', hadds, hspot, he, htaken, h⟩ := h.mark hx
  rw [hevent] at he
  obtain ⟨⟨w, read⟩, rfl, rfl⟩ := Option.map_eq_some_iff.1 he
  obtain ⟨e, stage, rfl, hchildren, hstage, hstep, rfl⟩ := Progress.exists_of_startTag htaken
  rw [hspot] at hstage hstep
  refine ⟨q, e, stage, read, rfl, hadds, hchildren, hstep, ?_, h⟩
  rw [← hstage, ← hspot]
  rfl

/-- The tags of an element are taken around what is inside it. What is added there goes into one
tree. -/
theorem enclose {isEmpty : Bool} {tag head : List Char} {inner : List Piece}
    (hhead : IsHead tag head) (hinner : isEmpty = true → inner = [])
    (h : Taken p (Markup.enclose isEmpty tag head inner ++ ps) p'') :
    ∃ w read spaces q q',
      (∀ isEmpty after, event? ('<' :: (head ++ tagEnd isEmpty) ++ after) =
        some (.startTag w read isEmpty, after)) ∧
      (∀ after, event? ((Piece.endTag tag).written ++ after) = some (.endTag w, after)) ∧
      (∀ isEmpty, p.spot.Step (.startTag w read isEmpty) ⟨p.spot.stageInside,
        if isEmpty then p.spot.inner else (w, spaces) :: p.spot.inner⟩) ∧
      q.spot = ⟨p.spot.stageInside, (w, spaces) :: p.spot.inner⟩ ∧ Taken q inner q' ∧
      ∀ marks rows, q.Adds marks rows q' → q'.spot = q.spot → ∃ p', Taken p' ps p'' ∧
        p.Adds [.element] (marks :: rows) p' ∧ p'.spot = ⟨p.spot.stageInside, p.spot.inner⟩ := by
  obtain ⟨read?, hopens, hcloses⟩ := hhead.exists_event
  have hevent (isEmpty : Bool) : (Markup.event? ('<' :: (head ++ tagEnd isEmpty))).map (·.1) =
      read?.map fun y => .startTag y.1 y.2 isEmpty := by
    have hnil := hopens isEmpty []
    rw [List.append_nil] at hnil
    rw [hnil, Option.map_map]
    rfl
  -- what has been added to the open element goes into its tree
  have hclosed {q q' : Progress} {e : OpenElement} {stage : Stage} {marks : List Mark}
      {rows : List (List Mark)} (hq : p.Adds [] [] q) (he : e.children = [])
      (hspot : ({ q with stage, inner := e :: q.inner } : Progress).spot =
        ⟨p.spot.stageInside, (e.written, e.label.spaces) :: p.spot.inner⟩)
      (hadds : ({ q with stage, inner := e :: q.inner } : Progress).Adds marks rows q')
      (hspot' : q'.spot = ({ q with stage, inner := e :: q.inner } : Progress).spot) :
      ∃ e' stage', q' = { q with stage := stage', inner := e' :: q.inner } ∧
        p.Adds [.element] (marks :: rows) (({ q with stage := stage' } : Progress).add e'.close) ∧
        (({ q with stage := stage' } : Progress).add e'.close).spot =
          ⟨p.spot.stageInside, p.spot.inner⟩ := by
    obtain ⟨e', stage', rfl, hclose⟩ := hadds.close he
    refine ⟨e', stage', rfl, hq.trans hclose, ?_⟩
    rw [hspot] at hspot'
    rw [Progress.spot_add]
    exact congrArg₂ Place.mk (congrArg Place.stage hspot')
      (List.cons.inj (congrArg Place.inner hspot')).2
  cases isEmpty with
  | true =>
    rw [hinner rfl]
    obtain ⟨q, e, stage, read, rfl, hq, he, hstep, hspot, h⟩ :=
      startTag (x := .emptyTag head) rfl (hevent true) h
    refine ⟨e.written, read, e.label.spaces, _, _, hopens, hcloses _ rfl, hstep, hspot, .refl _, ?_⟩
    intro marks rows hadds hspot'
    obtain ⟨e', stage', hsame, hadds, hspot'⟩ := hclosed hq he hspot hadds hspot'
    cases hsame
    exact ⟨_, h, hadds, hspot'⟩
  | false =>
    have h : Taken p (.startTag head :: (inner ++ (.endTag tag :: ps))) p'' := by
      simpa [Markup.enclose] using h
    obtain ⟨q, e, stage, read, rfl, hq, he, hstep, hspot, h⟩ :=
      startTag (x := .startTag head) rfl (hevent false) h
    obtain ⟨q', hinner, h⟩ := append h
    refine ⟨e.written, read, e.label.spaces, _, q', hopens, hcloses _ rfl, hstep, hspot, hinner, ?_⟩
    intro marks rows hadds hspot'
    obtain ⟨q₁, event, q₂, htexts, hspot₁, hend, htaken, h⟩ := h.mark rfl
    have hadds := hadds.trans htexts
    rw [List.append_nil, List.append_nil] at hadds
    obtain ⟨e', stage', rfl, hadds, hspot'⟩ := hclosed hq he hspot hadds (hspot₁.trans hspot')
    -- the end tag is that of the element
    have hevent : (Piece.endTag tag).event? = some (.endTag e.written) := by
      have hnil := hcloses _ rfl []
      rw [List.append_nil] at hnil
      rw [Piece.event?, hnil]
      rfl
    cases hend.symm.trans hevent
    simp only [Progress.step?] at htaken
    split at htaken
    next =>
      cases htaken
      exact ⟨_, h, hadds, hspot'⟩
    next => cases htaken

end Taken

end Markup

end XmlScript
