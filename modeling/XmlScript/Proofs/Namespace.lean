import XmlScript.Proofs.Computed
import XmlScript.Proofs.Declared

/-!
# Setting namespaces

A namespace is set as an attribute `xmlns` of an element, which is not in the place where the reader
keeps the one that a start tag declares. So it takes the place of an attribute of that name, but
not of the namespace of the tag: an element that had one is written with both, and then the text
cannot be read again (`setNamespace_defaults`). All other start tags stay as they are.
-/

namespace XmlScript

open Markup (asWritten? asWritten?_of_isPlainName defaultsIn defaultsOf)

/-- A new attribute takes the place of those that declare a default namespace, but not that of the
declaration of the tag. -/
theorem defaultsOf_put (label : Label) (attributes : List Attribute) (uri : String) :
    defaultsOf label (Attribute.put attributes { name := .plain "xmlns", value := uri }) =
      uri :: label.defaultSpace?.toList := by
  have hnone : (attributes.filter (·.name ≠ .plain "xmlns")).filter (·.name = .plain "xmlns") =
      [] := by
    rw [List.filter_filter]
    refine List.filter_eq_nil_iff.2 fun a _ => ?_
    simp
  unfold defaultsOf Attribute.put
  rw [List.filter_append, hnone]
  rfl

namespace Document

variable {d d' : Document} {n : Nat} {w : NodeId → List Attribute} {Q : Content → Prop}

/-- The default namespace that the tag of an element declared, which is not among its attributes. -/
def tagDefault? (d : Document) (n : NodeId) : Option String :=
  match (d.entry n).content with
  | .element label => label.defaultSpace?
  | .document | .attribute _ | .text _ _ | .comment _ | .instruction _ _ => none

/-- Documents that are read declare default namespaces in tags only. -/
theorem defaultsAt_read? {text : String} (h : Markup.read? text = some d) (n : NodeId) :
    d.defaultsAt n = (d.tagDefault? n).toList := by
  have hnone : (d.attributesOf n).filter (·.name = .plain "xmlns") = [] := by
    refine List.filter_eq_nil_iff.2 fun a ha => ?_
    rw [decide_eq_true_eq]
    exact ((ordinary_of_read? h).of_mem_attributesOf ha).2
  unfold defaultsAt tagDefault?
  rcases (d.entry n).content with _ | label | _ | _ | _ | _
  case element =>
    show defaultsOf label (d.attributesOf n) = label.defaultSpace?.toList
    rw [defaultsOf, hnone]
    rfl
  all_goals rfl

/-! ## Documents with new attributes -/

namespace Rewritten

/-- Old nodes are what they were, and the new ones are the attributes that were set. -/
theorem holds (h : Rewritten w d d') (hd : d.Holds Q) (habsent : Q (.comment ""))
    (hw : ∀ n, ∀ a ∈ w n, Q (.attribute a)) : d'.Holds Q := by
  refine .of_lt habsent fun n hn => ?_
  by_cases hold : n < d.size
  · rw [h.content n hold]
    exact hd n
  · obtain ⟨p, a, ha, hc, -⟩ := h.made n hn (Nat.le_of_not_lt hold)
    rw [hc]
    exact hw p a ha

theorem isElement_eq (h : Rewritten w d d') (hn : n < d.size) :
    d'.isElement n = d.isElement n := by
  rw [Document.isElement_eq, Document.isElement_eq, h.content n hn]

/-- No element comes or goes. -/
theorem elements_eq (h : Rewritten w d d') (hd : d.Linked) (hd' : d'.Linked) :
    d'.elements = d.elements := by
  have hlt : ∀ m < d.size, ∀ c ∈ (d'.entry m).children, c < d.size := fun m hm c hc =>
    hd.lt_of_mem_children (h.children_eq m hm ▸ hc)
  refine hd.elements_congr hd' (fun m hm => h.isElement_eq hm) (fun m hm => ?_)
    (fun m hm c hc hge => absurd (hlt m hm c hc) (Nat.not_lt.2 hge)) hd.root_lt
    (Nat.le_add_left ..) (Nat.le_add_left_of_le h.size_le)
  rw [← h.children_eq m hm]
  exact List.filter_eq_self.2 fun c hc => decide_eq_true (hlt m hm c hc)

end Rewritten

theorem Linked.exists_hasChildren_iff (h : d.Linked) :
    (∃ t ∈ d.trees, t.hasChildren = true) ↔
      ∃ n ∈ (d.entry root).children, d.isElement n = true ∧ (d.entry n).children ≠ [] := by
  have hchild {c p : Nat} (hc : c ∈ (d.entry p).children) : ∃ t, d.tree? d.size c = some t := by
    obtain ⟨hp, hattribute⟩ := h.child_iff.1 hc
    rw [h.tree?_eq (h.lt_of_mem_children hc)]
    split
    next => exact ⟨_, rfl⟩
    next => exact ⟨_, rfl⟩
    next => exact ⟨_, rfl⟩
    next => exact ⟨_, rfl⟩
    next hdocument =>
      rw [(h.document_iff c).1 hdocument, h.parent?_root] at hp
      cases hp
    next a ha =>
      rw [ha] at hattribute
      cases hattribute
  have hbelow (n : Nat) : d.treesBelow n ≠ [] ↔ (d.entry n).children ≠ [] := by
    refine not_congr ⟨fun hnone => ?_, fun hnone => ?_⟩
    · refine List.eq_nil_iff_forall_not_mem.2 fun c hc => ?_
      obtain ⟨t, ht⟩ := hchild hc
      have hmem : t ∈ d.treesBelow n := List.mem_filterMap.2 ⟨c, hc, ht⟩
      exact List.not_mem_nil (hnone ▸ hmem)
    · rw [treesBelow, hnone, List.filterMap_nil]
  constructor
  · rintro ⟨t, ht, hchildren⟩
    obtain ⟨n, hn, htree⟩ := List.mem_filterMap.1 ht
    rw [h.tree?_eq (h.lt_of_mem_children hn)] at htree
    refine ⟨n, hn, ?_⟩
    split at htree
    next label hlabel =>
      cases htree
      refine ⟨isElement_iff.2 ⟨label, hlabel⟩, (hbelow n).1 fun hnone => ?_⟩
      rw [hnone] at hchildren
      cases hchildren
    all_goals cases htree
    all_goals cases hchildren
  · rintro ⟨n, hn, helement, hne⟩
    obtain ⟨label, hlabel⟩ := isElement_iff.1 helement
    obtain ⟨t, rest, hcons⟩ := List.exists_cons_of_ne_nil ((hbelow n).2 hne)
    refine ⟨.element label (d.attributesOf n) (d.treesBelow n), ?_, by rw [hcons]; rfl⟩
    refine List.mem_filterMap.2 ⟨n, hn, ?_⟩
    rw [h.tree?_eq (h.lt_of_mem_children hn), hlabel]

/-- Attributes make no element wider. -/
theorem Rewritten.exists_hasChildren (h : Rewritten w d d') (hd : d.Linked) (hd' : d'.Linked)
    (ht : ∃ t ∈ d'.trees, t.hasChildren = true) : ∃ t ∈ d.trees, t.hasChildren = true := by
  rw [hd'.exists_hasChildren_iff, h.children_eq root hd.root_lt] at ht
  obtain ⟨n, hn, helement, hchildren⟩ := ht
  have hlt := hd.lt_of_mem_children hn
  rw [h.isElement_eq hlt] at helement
  rw [h.children_eq n hlt] at hchildren
  exact hd.exists_hasChildren_iff.2 ⟨n, hn, helement, hchildren⟩

end Document

namespace Engine

open Document

variable {d : Document} {text : String} {c : Cursor Node}

/-- The directive succeeds on elements. -/
theorem exists_setNamespace (hd : d.Linked)
    (hc : ∀ n ∈ c.nodes, ∃ e, n = .stored e ∧ d.isElement e = true) (saved : Stack Node)
    (uri : Arg) :
    ∃ d', execute (.setNamespace uri) c ⟨d, saved⟩ = (.ok c, ⟨d', saved⟩) ∧
      Rewritten (givenAttribute "xmlns" (fun _ => uri.raw) c.nodes) d d' := by
  have htakes : ∀ n ∈ c.nodes, TakesAttribute "xmlns" d n := by
    intro n hn
    obtain ⟨e, rfl, helement⟩ := hc n hn
    obtain ⟨label, hlabel⟩ := isElement_iff.1 helement
    exact ⟨by decide +kernel, e, label, rfl, hlabel⟩
  obtain ⟨d', hd', -, hrewritten⟩ :=
    exists_setAttributes hd (fun _ => uri.raw) c.nodup htakes
  exact ⟨d', moved_eq_ok_iff.2 ⟨c.nodes, Cursor.ofList_nodes c, hd', rfl⟩, hrewritten⟩

/-- What an element declares once it has been given a default namespace. -/
theorem defaultsAt_rewritten {d' : Document} {uri : String} {nodes : List Node} {e : NodeId}
    (h : Rewritten (givenAttribute "xmlns" (fun _ => uri) nodes) d d')
    (he : d.isElement e = true) : d'.defaultsAt e =
      if .stored e ∈ nodes then uri :: (d.tagDefault? e).toList else d.defaultsAt e := by
  obtain ⟨label, hlabel⟩ := isElement_iff.1 he
  have hlabel' := h.content e (lt_size_of_element hlabel)
  rw [hlabel] at hlabel'
  unfold defaultsAt tagDefault?
  rw [hlabel', hlabel, h.attributesOf, givenAttribute]
  by_cases hn : .stored e ∈ nodes
  · rw [if_pos hn, if_pos hn]
    exact defaultsOf_put label (d.attributesOf e) uri
  · rw [if_neg hn, if_neg hn]
    rfl

/-- The elements of a document that was read declare the default namespaces of their tags, and this
is what the start tags say when it is rendered. When a namespace has been set on some elements,
their start tags say it besides, and all others say what they said before. So it stands alone on
those elements exactly if their tags declared none. -/
theorem setNamespace_defaults (hread : Markup.read? text = some d)
    (hclear : d.Holds Content.Clear) (hc : ∀ n ∈ c.nodes, ∃ e ∈ d.elements, n = .stored e)
    (saved : Stack Node) (uri : Arg) (options : RenderOptions)
    (hwidth : ∀ width ∈ options.indent?, ∀ t ∈ d.trees, t.hasChildren = true →
      width < textLimit) :
    ∃ d' before after, execute (.setNamespace uri) c ⟨d, saved⟩ = (.ok c, ⟨d', saved⟩) ∧
      d.render options = .ok before ∧ d'.render options = .ok after ∧
      defaultsIn before = some (d.elements.map fun e => (d.tagDefault? e).toList) ∧
      defaultsIn after = some (d.elements.map fun e =>
        if .stored e ∈ c.nodes then uri.raw :: (d.tagDefault? e).toList
        else (d.tagDefault? e).toList) ∧
      (defaultsIn after = some (d.elements.map fun e =>
          if .stored e ∈ c.nodes then [uri.raw] else (d.tagDefault? e).toList) ↔
        ∀ e, .stored e ∈ c.nodes → d.tagDefault? e = none) := by
  have hreachable : d.Reachable := .read hread
  have hlinked := hreachable.linked
  have helement : ∀ e ∈ d.elements, d.isElement e = true := fun e he => (List.mem_filter.1 he).2
  have hstored : ∀ n ∈ c.nodes, ∃ e, n = .stored e ∧ d.isElement e = true := by
    intro n hn
    obtain ⟨e, he, rfl⟩ := hc n hn
    exact ⟨e, rfl, helement e he⟩
  obtain ⟨d', hexecute, hrewritten⟩ := exists_setNamespace hlinked hstored saved uri
  have hreachable' : d'.Reachable := by
    have hact := hreachable.act (.execute (.setNamespace uri) c saved)
    rwa [Action.run, hexecute] at hact
  have hreadable := readable_of_read? hread hclear
  have hreadable' : d'.Holds Content.Readable := by
    refine hrewritten.holds hreadable ?_ fun n a ha => ?_
    · show ¬ ['-', '-'] <:+: "".toList ++ ['-']
      decide
    · unfold givenAttribute at ha
      split at ha
      next =>
        rw [List.mem_singleton.1 ha]
        refine ⟨fun _ => ?_, nofun, nofun⟩
        show (asWritten? "xmlns").isSome = true
        rw [asWritten?_of_isPlainName (by decide +kernel)]
        rfl
      next => cases ha
  obtain ⟨before, hbefore, hdefaults⟩ := hreachable.exists_render_defaults hreadable options hwidth
  obtain ⟨after, hafter, hdefaults'⟩ := hreachable'.exists_render_defaults hreadable' options
    fun width hwidth' t ht hchildren => by
      obtain ⟨u, hu, hchildren⟩ :=
        hrewritten.exists_hasChildren hlinked hreachable'.linked ⟨t, ht, hchildren⟩
      exact hwidth width hwidth' u hu hchildren
  have htag : d.defaultsAt = fun e => (d.tagDefault? e).toList :=
    funext fun e => defaultsAt_read? hread e
  have hgiven : defaultsIn after = some (d.elements.map fun e =>
      if .stored e ∈ c.nodes then uri.raw :: (d.tagDefault? e).toList
      else (d.tagDefault? e).toList) := by
    rw [hdefaults', hrewritten.elements_eq hlinked hreachable'.linked]
    refine congrArg some (List.map_congr_left fun e he => ?_)
    rw [defaultsAt_rewritten hrewritten (helement e he), htag]
  refine ⟨d', before, after, hexecute, hbefore, hafter, by rw [hdefaults, htag], hgiven, ?_⟩
  rw [hgiven, Option.some.injEq, List.map_inj_left]
  constructor
  · intro hsame e he
    obtain ⟨_, hmem, he'⟩ := hc _ he
    cases he'
    have hown := hsame e hmem
    rw [if_pos he, if_pos he] at hown
    exact Option.toList_eq_nil_iff.1 (List.cons.inj hown).2
  · intro hnone e _
    split
    next he => rw [hnone e he, Option.toList_none]
    next => rfl

/-- An element and one in it are given a namespace; the one between them keeps what its tag says. -/
theorem setNamespace_defaults_nested :
    let uri : Arg := ⟨"v", Literal.check_eq_ok_iff.1 rfl⟩
    let c : Cursor Node := ⟨[.stored 1, .stored 3], by decide⟩
    ∃ d d' before after, Markup.read? "<a><b xmlns='u'><p:c xmlns:p='w'/></b></a>" = some d ∧
      execute (.setNamespace uri) c ⟨d, []⟩ = (.ok c, ⟨d', []⟩) ∧
        d.render { indent? := some 2 } = .ok before ∧ d'.render { indent? := some 2 } = .ok after ∧
          defaultsIn before = some [[], ["u"], []] ∧
            defaultsIn after = some [["v"], ["u"], ["v"]] := by
  intro uri c
  obtain ⟨d, hread⟩ := Option.isSome_iff_exists.1 (by decide +kernel :
    (Markup.read? "<a><b xmlns='u'><p:c xmlns:p='w'/></b></a>").isSome = true)
  have hlooks : (Markup.read? "<a><b xmlns='u'><p:c xmlns:p='w'/></b></a>").all (fun d =>
      d.elements = [1, 2, 3] ∧ d.tagDefault? 1 = none ∧ d.tagDefault? 2 = some "u" ∧
        d.tagDefault? 3 = none ∧ d.size = 4 ∧ ∀ n < 4, (d.entry n).content.Clear) = true := by
    decide +kernel
  rw [hread] at hlooks
  obtain ⟨helements, h₁, h₂, h₃, hsize, hclear⟩ := of_decide_eq_true hlooks
  obtain ⟨d', before, after, hexecute, hbefore, hafter, hdefaults, -, hiff⟩ :=
    setNamespace_defaults hread (.of_lt trivial fun n hn => hclear n (hsize ▸ hn))
      (c := c) (fun n hn => by
        rw [helements]
        rcases List.mem_cons.1 hn with rfl | hn
        · exact ⟨1, by decide, rfl⟩
        · exact ⟨3, by decide, List.mem_singleton.1 hn⟩) [] uri { indent? := some 2 }
      fun width hwidth _ _ _ => by
        rw [← Option.some.inj hwidth]
        decide
  refine ⟨d, d', before, after, hread, hexecute, hbefore, hafter, ?_, ?_⟩
  · rw [hdefaults, helements]
    simp [h₁, h₂, h₃]
  · rw [hiff.2 fun e he => ?_, helements]
    · simp [c, h₂, uri]
    · rcases List.mem_cons.1 he with he | he
      · rw [Node.stored.inj he, h₁]
      · rw [Node.stored.inj (List.mem_singleton.1 he), h₃]

/-- An element whose tag declares a default namespace is written with two, and what is rendered
cannot be read again. -/
theorem setNamespace_beside_default :
    let uri : Arg := ⟨"v", Literal.check_eq_ok_iff.1 rfl⟩
    let c : Cursor Node := .single (.stored 1)
    let text := "<?xml version=\"1.0\"?><a xmlns=\"v\" xmlns='u'/>"
    ∃ d d', Markup.read? "<a xmlns='u'/>" = some d ∧ d.elements = [1] ∧
      execute (.setNamespace uri) c ⟨d, []⟩ = (.ok c, ⟨d', []⟩) ∧
        d'.render {} = .ok text.toList ∧ defaultsIn text.toList = some [["v", "u"]] ∧
          defaultsIn text.toList ≠ some [["v"]] ∧ Markup.read? text = none := by
  intro uri c text
  let label : Label :=
    { name := ⟨some "u", "a"⟩, defaultSpace? := some "u", spaces := [("xml", xmlSpace)] }
  let d : Document := ⟨#[{ content := .document, children := [1] },
    { content := .element label, parent? := some 0 }]⟩
  let made : Attribute := { name := .plain "xmlns", value := "v" }
  let d' : Document := ⟨#[{ content := .document, children := [1] },
    { content := .element label, parent? := some 0, attributes := [2] },
    { content := .attribute made, parent? := some 1 }]⟩
  have htrees : d'.trees = [.element label [made] []] := rfl
  have hwritten : Markup.write? false d'.trees = some text.toList := by
    rw [htrees]
    simp only [Markup.write?, Markup.writeTrees?]
    decide +kernel
  have hruns : Markup.textRuns d'.trees = [] := by
    rw [htrees]
    simp only [Markup.textRuns, Markup.runsFrom, List.flatMap_cons, List.flatMap_nil]
    decide +kernel
  have hrender : d'.render {} = .ok text.toList := by
    unfold Document.render
    simp only [hwritten, hruns]
    rfl
  exact ⟨d, d', by decide +kernel, by decide +kernel, by decide +kernel, hrender,
    by decide +kernel, by decide +kernel, by decide +kernel⟩

end Engine

end XmlScript
