import XmlScript.Proofs.OwnText
import XmlScript.Proofs.Removal
import XmlScript.Proofs.Retext

/-!
# Directives that compute texts

A directive that gives every current node the text of a query there computes all texts in the
document as it is at first. So it is the same as giving each node a text that is known beforehand
(`editComputed_eq`), and it fails for the first node at which the query does, before anything is
changed (`editComputed_of_error`).

What such texts make of the document is known for attributes that are set (`exists_setAttributes`)
and for texts (`exists_setTexts`). Neither description knows of an order of the nodes, as long as no
attribute is among those whose text is set; so every order of the current nodes leads to the same
document, but for the numbers of new nodes (`computed_reads_first`).
-/

namespace XmlScript

namespace Document

variable {x y z : Document} {n : Nat} {name : String} {text : Node → String} {nodes : List Node}

/-! ## Setting attributes -/

/-- The attribute that each of some elements is given. -/
def givenAttribute (name : String) (text : Node → String) (nodes : List Node) (n : NodeId) :
    List Attribute :=
  if .stored n ∈ nodes then [{ name := .plain name, value := text (.stored n) }] else []

theorem givenAttribute_congr {nodes' : List Node} (h : ∀ m, m ∈ nodes' ↔ m ∈ nodes) :
    givenAttribute name text nodes' = givenAttribute name text nodes := by
  funext n
  simp only [givenAttribute, h]

theorem givenAttribute_cons {k : NodeId} (hk : .stored k ∉ nodes) :
    bothWrites (fun n => if n = k then [{ name := .plain name, value := text (.stored k) }] else [])
      (givenAttribute name text nodes) = givenAttribute name text (.stored k :: nodes) := by
  funext n
  simp only [bothWrites, givenAttribute]
  by_cases hn : n = k
  · subst hn
    rw [if_pos rfl, if_neg hk, if_pos (List.mem_cons_self ..), List.append_nil]
  · rw [if_neg hn, List.nil_append]
    simp only [List.mem_cons, Node.stored.injEq, hn, false_or]

/-- An attribute of this name can be set on a node. -/
def TakesAttribute (name : String) (d : Document) (m : Node) : Prop :=
  Name.isValid name = true ∧ ∃ n label, m = .stored n ∧ (d.entry n).content = .element label

theorem takesAttribute_of_setAttribute {value : String} {m : Node}
    (h : x.setAttribute name value m = .ok y) : TakesAttribute name x m := by
  obtain ⟨n, label, rfl, hc, -⟩ := setAttribute_cases h
  exact ⟨(withName_eq_ok_iff.1 h).1, n, label, rfl, hc⟩

theorem setAttribute_of_element {value : String} {label : Label} (hname : Name.isValid name = true)
    (hc : (x.entry n).content = .element label) :
    x.setAttribute name value (.stored n) =
      .ok (x.putAttribute n { name := .plain name, value }) := by
  refine withName_eq_ok_iff.2 ⟨hname, ?_⟩
  simp only [content?, hc]

/-- An attribute that is set makes no node an element. -/
theorem takesAttribute_putAttribute {p : NodeId} (a : Attribute) {m : Node} :
    TakesAttribute name (x.putAttribute p a) m ↔ TakesAttribute name x m := by
  have hcontent {k : NodeId} {label : Label} :
      ((x.putAttribute p a).entry k).content = .element label ↔
        (x.entry k).content = .element label := by
    rw [content_putAttribute]
    by_cases hk : k = x.size
    · rw [if_pos hk, hk, entry_of_size_le (Nat.le_refl _)]
      exact iff_of_false nofun nofun
    · rw [if_neg hk]
  unfold TakesAttribute
  simp only [hcontent]

/-- Documents match that are made by setting the same attributes. -/
theorem Rewritten.matches_of_eq {w : NodeId → List Attribute} (h : Rewritten w x y)
    (h' : Rewritten w x z) (hx : x.Linked) : Matches x.size y z where
  le_left := h.size_le
  le_right := h'.size_le
  content n hn := by rw [h'.content n hn, h.content n hn]
  parent? n hn := by rw [h'.parent? n hn, h.parent? n hn]
  attributesOf n _ := by rw [h'.attributesOf, h.attributesOf]
  children n hn := by
    rw [h'.children_eq n hn, h.children_eq n hn]
    exact List.forall₂_same.2 fun k hk => Or.inl ⟨rfl, hx.lt_of_mem_children hk⟩

end Document

namespace Engine

open Document

variable {d x y : Document} {name query : String} {text : Node → String}
  {nodes made : List Node} {c c' : Cursor Node} {s s' : State}

theorem exists_setAttributes (hx : x.Linked) (text : Node → String) (hnodup : nodes.Nodup)
    (h : ∀ m ∈ nodes, TakesAttribute name x m) :
    ∃ y, editEach (keeping fun m => Document.setAttribute name (text m) m) nodes x =
        (.ok nodes, y) ∧ y.Linked ∧ Rewritten (givenAttribute name text nodes) x y := by
  induction nodes generalizing x with
  | nil => exact ⟨x, rfl, hx, Rewritten.refl x⟩
  | cons m rest ih =>
    obtain ⟨hm, hrest⟩ := List.nodup_cons.1 hnodup
    obtain ⟨hname, k, label, rfl, hc⟩ := h m (List.mem_cons_self ..)
    have hlt := lt_size_of_element hc
    have hset : x.setAttribute name (text (.stored k)) (.stored k) = .ok _ :=
      setAttribute_of_element hname hc
    obtain ⟨y, hy, hlinked, hothers⟩ := ih (hx.setAttribute hset) hrest fun m hm =>
      (takesAttribute_putAttribute _).2 (h m (List.mem_cons_of_mem _ hm))
    refine ⟨y, ?_, hlinked, ?_⟩
    · exact editEach_cons_eq_ok_iff.2
        ⟨.stored k, _, keeping_eq_ok_iff.2 ⟨rfl, hset⟩, rest, rfl, hy⟩
    · rw [← givenAttribute_cons hm]
      exact (hx.rewritten_putAttribute hlt _).trans hothers

/-- Where attributes have been set, the nodes were elements before the first one was set. -/
theorem takesAttribute_of_editEach
    (h : editEach (keeping fun m => Document.setAttribute name (text m) m) nodes x =
      (.ok made, y)) : ∀ m ∈ nodes, TakesAttribute name x m := by
  induction nodes generalizing x made with
  | nil => nofun
  | cons m rest ih =>
    obtain ⟨m', x₁, hm, ms, rfl, hrest⟩ := editEach_cons_eq_ok_iff.1 h
    obtain ⟨rfl, hset⟩ := keeping_eq_ok_iff.1 hm
    obtain ⟨k, label, -, hc, rfl⟩ := setAttribute_cases hset
    intro m' hm'
    rcases List.mem_cons.1 hm' with rfl | hm'
    · exact takesAttribute_of_setAttribute hset
    · exact (takesAttribute_putAttribute _).1 (ih hrest m' hm')

/-! ## Computing first -/

section

variable {edit : String → Node → Document → Except EditError Document}

/-- The first node at which the query fails is the one that is reported, and nothing is changed. -/
theorem editComputed_of_error {before after : List Node} {n : Node} {e : QueryError}
    (hnodes : c.nodes = before ++ n :: after)
    (hbefore : ∀ m ∈ before, ∃ text, Query.evaluateText query m s.document = .ok text)
    (hn : Query.evaluateText query n s.document = .error e) :
    editComputed query edit c s = (.error (.query e), s) := by
  have hfails : (c.nodes.mapM fun n =>
      (Query.evaluateText query n s.document).map fun text => (n, text)) = .error e := by
    rw [hnodes]
    refine mapM_eq_error_of_first (fun m hm => ?_) ?_
    · obtain ⟨text, htext⟩ := hbefore m hm
      exact ⟨(m, text), map_eq_ok_iff.2 ⟨text, htext, rfl⟩⟩
    · exact map_eq_error_iff.2 hn
  unfold editComputed
  simp only [hfails]

theorem editEach_pairs (edit : String → Node → Document → Except EditError Document)
    (text : Node → String) (nodes : List Node) (x : Document) :
    editEach (keeping fun (n, text) => edit text n) (nodes.map fun n => (n, text n)) x =
      let r := editEach (keeping fun n => edit (text n) n) nodes x
      (r.1.map fun done => done.map fun n => (n, text n), r.2) := by
  induction nodes generalizing x with
  | nil => rfl
  | cons n rest ih =>
    have hpair : keeping (fun (n, text) => edit text n) (n, text n) x =
        (edit (text n) n x).map fun d => ((n, text n), d) := rfl
    have hone : keeping (fun n => edit (text n) n) n x =
        (edit (text n) n x).map fun d => (n, d) := rfl
    rw [List.map_cons, editEach, editEach, hpair, hone]
    cases edit (text n) n x with
    | error e => rfl
    | ok x₁ =>
      simp only [Except.map, ih]
      cases (editEach (keeping fun n => edit (text n) n) rest x₁).1 <;> rfl

/-- With the texts that the query has at first, the directive is an edit at every node. -/
theorem editComputed_eq (edit : String → Node → Document → Except EditError Document)
    (h : ∀ n ∈ c.nodes, Query.evaluateText query n s.document = .ok (text n)) :
    editComputed query edit c s = editNodes (fun n => edit (text n) n) c s := by
  have htexts : (c.nodes.mapM fun n =>
      (Query.evaluateText query n s.document).map fun text => (n, text)) =
        .ok (c.nodes.map fun n => (n, text n)) := by
    refine mapM_eq_ok_iff.2 (List.forall₂_map_right_iff.2 (List.forall₂_same.2 fun n hn => ?_))
    exact map_eq_ok_iff.2 ⟨text n, h n hn, rfl⟩
  unfold editComputed editNodes
  simp only [htexts, editEach_pairs]
  rcases editEach (keeping fun n => edit (text n) n) c.nodes s.document with ⟨r, x⟩
  cases r with
  | error e => rfl
  | ok done => simp only [Except.map, List.map_map, Function.comp_def, List.map_id']

/-- Where the directive succeeds, the query does at every node. -/
theorem exists_texts (h : editComputed query edit c s = (.ok c', s')) :
    ∃ text : Node → String, ∀ n ∈ c.nodes,
      Query.evaluateText query n s.document = .ok (text n) := by
  unfold editComputed at h
  simp only at h
  split at h
  next => cases h
  next pairs hpairs =>
    refine ⟨fun n => (Query.evaluateText query n s.document).toOption.getD "", fun n hn => ?_⟩
    obtain ⟨hnodes, htexts⟩ := texts_of_mapM hpairs
    rw [← hnodes] at hn
    obtain ⟨pair, hpair, rfl⟩ := List.mem_map.1 hn
    simp only [htexts pair hpair]
    rfl

end

/-! ## The directives -/

variable {saved : Stack Node}

/-- The directive succeeds with the nodes in any order, and what it does is the same. -/
theorem exists_computeAttribute {name query : Arg} (hd : d.Linked)
    (htexts : ∀ n ∈ c.nodes, Query.evaluateText query.raw n d = .ok (text n))
    (htakes : ∀ n ∈ c.nodes, TakesAttribute name.raw d n)
    (hsame : ∀ n, n ∈ c'.nodes ↔ n ∈ c.nodes) :
    ∃ d', execute (.computeAttribute name query) c' ⟨d, saved⟩ = (.ok c', ⟨d', saved⟩) ∧
      d'.Linked ∧ Rewritten (givenAttribute name.raw text c.nodes) d d' := by
  obtain ⟨d', hd', hlinked, hrewritten⟩ :=
    exists_setAttributes hd text c'.nodup fun n hn => htakes n ((hsame n).1 hn)
  rw [givenAttribute_congr hsame] at hrewritten
  refine ⟨d', ?_, hlinked, hrewritten⟩
  show editComputed _ _ c' ⟨d, saved⟩ = _
  rw [editComputed_eq _ fun n hn => htexts n ((hsame n).1 hn)]
  exact moved_eq_ok_iff.2 ⟨c'.nodes, Cursor.ofList_nodes c', hd', rfl⟩

/-- The same for texts, where the order shows in what elements of current attributes are given. -/
theorem exists_computeText {query : Arg} (hd : d.Linked)
    (htexts : ∀ n ∈ c.nodes, Query.evaluateText query.raw n d = .ok (text n))
    (htakes : ∀ n ∈ c.nodes, d.TakesText n) (hsame : ∀ n, n ∈ c'.nodes ↔ n ∈ c.nodes) :
    ∃ d', execute (.computeText query) c' ⟨d, saved⟩ = (.ok c', ⟨d', saved⟩) ∧ d'.Linked ∧
      Retexted (given? text c.nodes) (d.successors text c'.nodes) d d' := by
  obtain ⟨d', hd', hlinked, hretexted⟩ :=
    exists_setTexts hd text fun n hn => htakes n ((hsame n).1 hn)
  rw [given?_congr hsame] at hretexted
  refine ⟨d', ?_, hlinked, hretexted⟩
  show editComputed _ _ c' ⟨d, saved⟩ = _
  rw [editComputed_eq _ fun n hn => htexts n ((hsame n).1 hn)]
  exact moved_eq_ok_iff.2 ⟨c'.nodes, Cursor.ofList_nodes c', hd', rfl⟩

theorem execute_computeAttribute_eq_ok {name query : Arg} (hd : d.Linked)
    (h : execute (.computeAttribute name query) c ⟨d, saved⟩ = (.ok c', s')) :
    c' = c ∧ s'.saved = saved ∧ s'.document.Linked ∧ ∃ text : Node → String,
      (∀ n ∈ c.nodes, Query.evaluateText query.raw n d = .ok (text n)) ∧
      (∀ n ∈ c.nodes, TakesAttribute name.raw d n) ∧
      Rewritten (givenAttribute name.raw text c.nodes) d s'.document := by
  obtain ⟨text, htexts⟩ := exists_texts h
  have h' : editNodes _ c ⟨d, saved⟩ = (.ok c', s') := (editComputed_eq _ htexts).symm.trans h
  obtain ⟨made, -, hmade, -⟩ := moved_eq_ok_iff.1 h'
  have htakes := takesAttribute_of_editEach hmade
  obtain ⟨d', hd', hlinked, hrewritten⟩ :=
    exists_computeAttribute hd htexts htakes fun _ => Iff.rfl
  rw [h] at hd'
  cases hd'
  exact ⟨rfl, rfl, hlinked, text, htexts, htakes, hrewritten⟩

theorem execute_computeText_eq_ok {query : Arg} (hd : d.Linked)
    (hold : ∀ n, .stored n ∈ c.nodes → n < d.size)
    (h : execute (.computeText query) c ⟨d, saved⟩ = (.ok c', s')) :
    c' = c ∧ s'.saved = saved ∧ s'.document.Linked ∧ ∃ text : Node → String,
      (∀ n ∈ c.nodes, Query.evaluateText query.raw n d = .ok (text n)) ∧
      (∀ n ∈ c.nodes, d.TakesText n) ∧
      Retexted (given? text c.nodes) (d.successors text c.nodes) d s'.document := by
  obtain ⟨text, htexts⟩ := exists_texts h
  have h' : editNodes _ c ⟨d, saved⟩ = (.ok c', s') := (editComputed_eq _ htexts).symm.trans h
  obtain ⟨made, -, hmade, -⟩ := moved_eq_ok_iff.1 h'
  have htakes := takesText_of_editEach hd hold hmade
  obtain ⟨d', hd', hlinked, hretexted⟩ := exists_computeText hd htexts htakes fun _ => Iff.rfl
  rw [h] at hd'
  cases hd'
  exact ⟨rfl, rfl, hlinked, text, htexts, htakes, hretexted⟩

/-- Where a query fails at a current node, both directives fail for the first such node and change
nothing. Otherwise each node is given the text that the query has there before anything is changed:
an element its attribute, an element or a text itself, and an attribute in its place among those of
its element, unless another one of its name is current. With the nodes in another order, the
attributes that are set make the same document, and so do the texts if no attribute is current. -/
theorem computed_reads_first (hd : d.Reachable) (c : Cursor Node) (saved : Stack Node)
    (name query : Arg) :
    (∀ before n after e, c.nodes = before ++ n :: after →
      (∀ m ∈ before, ∃ text, Query.evaluateText query.raw m d = .ok text) →
      Query.evaluateText query.raw n d = .error e →
        execute (.computeAttribute name query) c ⟨d, saved⟩ =
            (.error (.query e), ⟨d, saved⟩) ∧
          execute (.computeText query) c ⟨d, saved⟩ = (.error (.query e), ⟨d, saved⟩)) ∧
    (∀ c' s', execute (.computeAttribute name query) c ⟨d, saved⟩ = (.ok c', s') →
      c' = c ∧ s'.saved = saved ∧ ∃ text : Node → String,
        (∀ n ∈ c.nodes, Query.evaluateText query.raw n d = .ok (text n)) ∧
        Rewritten (givenAttribute name.raw text c.nodes) d s'.document ∧
        ∀ c₂ : Cursor Node, c₂.nodes.Perm c.nodes → ∃ d₂,
          execute (.computeAttribute name query) c₂ ⟨d, saved⟩ =
              (.ok c₂, ⟨d₂, saved⟩) ∧
            Matches d.size s'.document d₂ ∧ d₂.trees = s'.document.trees ∧
            ∀ options, d₂.render options = s'.document.render options) ∧
    ((∀ n, .stored n ∈ c.nodes → n < d.size) → ∀ c' s',
      execute (.computeText query) c ⟨d, saved⟩ = (.ok c', s') →
      c' = c ∧ s'.saved = saved ∧ ∃ text : Node → String,
        (∀ n ∈ c.nodes, Query.evaluateText query.raw n d = .ok (text n)) ∧
        Retexted (given? text c.nodes) (d.successors text c.nodes) d s'.document ∧
        (∀ n ∈ c.nodes, d.isAttribute n = false → s'.document.stringValue n = text n) ∧
        (∀ n ∈ c.nodes, ∀ a p, d.content? n = some (.attribute a) →
          d.parent? n = some (.stored p) →
          (∀ m ∈ c.nodes, ∀ b, d.content? m = some (.attribute b) →
            d.parent? m = some (.stored p) → b.name = a.name → m = n) →
          { name := a.name, value := text n } ∈ s'.document.attributesOf p) ∧
        ((∀ n ∈ c.nodes, d.isAttribute n = false) → ∀ c₂ : Cursor Node,
          c₂.nodes.Perm c.nodes → ∃ d₂,
            execute (.computeText query) c₂ ⟨d, saved⟩ = (.ok c₂, ⟨d₂, saved⟩) ∧
              Matches d.size s'.document d₂ ∧ d₂.trees = s'.document.trees ∧
              ∀ options, d₂.render options = s'.document.render options)) := by
  have hlinked := hd.linked
  refine ⟨fun before n after e hnodes hbefore hn => ?_, fun c' s' h => ?_, fun hold c' s' h => ?_⟩
  · exact ⟨editComputed_of_error hnodes hbefore hn, editComputed_of_error hnodes hbefore hn⟩
  · obtain ⟨hc, hsaved, hlinked', text, htexts, htakes, hrewritten⟩ :=
      execute_computeAttribute_eq_ok hlinked h
    refine ⟨hc, hsaved, text, htexts, hrewritten, fun c₂ hperm => ?_⟩
    obtain ⟨d₂, hd₂, hlinked₂, hrewritten₂⟩ :=
      exists_computeAttribute hlinked htexts htakes fun n => hperm.mem_iff
    have hmatches := hrewritten.matches_of_eq hrewritten₂ hlinked
    exact ⟨d₂, hd₂, hmatches, hmatches.trees_eq hlinked' hlinked₂ hlinked.root_lt,
      hmatches.render_eq hlinked' hlinked₂ hlinked.root_lt⟩
  · obtain ⟨hc, hsaved, hlinked', text, htexts, htakes, hretexted⟩ :=
      execute_computeText_eq_ok hlinked hold h
    refine ⟨hc, hsaved, text, htexts, hretexted, fun n hn hna => ?_, fun n hn a p hc hp hone => ?_,
      fun hnone c₂ hperm => ?_⟩
    · have hn' := htakes n hn
      obtain ⟨k, -, rfl⟩ := hn'.exists_stored
      exact (hretexted.stringValue_eq_iff hn' (given?_of_mem hn)).2 fun a ha =>
        absurd ha (content?_ne_attribute hna a)
    · exact hretexted.mem_attributesOf hlinked hn hc hp fun m hm b hb hbp hname => by
        rw [hone m hm b hb hbp hname]
    · obtain ⟨d₂, hd₂, hlinked₂, hretexted₂⟩ :=
        exists_computeText hlinked htexts htakes fun n => hperm.mem_iff
      -- with no attribute among the nodes, no element is given one
      have hwrites {nodes : List Node} (hsub : ∀ m ∈ nodes, m ∈ c.nodes) (p : NodeId) :
          d.successors text nodes p = [] :=
        successors_eq_nil fun m hm a => content?_ne_attribute (hnone m (hsub m hm)) a
      have hmatches := hretexted.matches_of_eq hretexted₂ hlinked fun p _ => by
        rw [hwrites (fun m hm => hperm.mem_iff.1 hm), hwrites fun m hm => hm]
      exact ⟨d₂, hd₂, hmatches, hmatches.trees_eq hlinked' hlinked₂ hlinked.root_lt,
        hmatches.render_eq hlinked' hlinked₂ hlinked.root_lt⟩

/-- An element, an element in it and a text in it are given what they say, and the outer element
takes it all from the other two; both ways round. -/
theorem computed_reads_first_nested :
    let name : Arg := ⟨"x", Literal.check_eq_ok_iff.1 rfl⟩
    let query : Arg := ⟨"string(.)", Literal.check_eq_ok_iff.1 rfl⟩
    let elements : Cursor Node := ⟨[.stored 1, .stored 3], by decide⟩
    let reversed : Cursor Node := ⟨[.stored 3, .stored 1], by decide⟩
    let c : Cursor Node := ⟨[.stored 1, .stored 3, .stored 5], by decide⟩
    let c₂ : Cursor Node := ⟨[.stored 5, .stored 3, .stored 1], by decide⟩
    ∃ d, Markup.read? "<a x='1'><b>t</b>u</a>" = some d ∧ d.Reachable ∧
      (∃ s, execute (.computeAttribute name query) elements ⟨d, []⟩ = (.ok elements, s) ∧
        s.document.attributesOf 1 = [{ name := .plain "x", value := "tu" }] ∧
        s.document.attributesOf 3 = [{ name := .plain "x", value := "t" }] ∧
        ∃ d₂, execute (.computeAttribute name query) reversed ⟨d, []⟩ =
            (.ok reversed, ⟨d₂, []⟩) ∧ d₂.trees = s.document.trees) ∧
      ∃ s, execute (.computeText query) c ⟨d, []⟩ = (.ok c, s) ∧
        s.document.stringValue (.stored 1) = "tu" ∧ s.document.stringValue (.stored 3) = "t" ∧
        s.document.stringValue (.stored 5) = "u" ∧
        ∃ d₂, execute (.computeText query) c₂ ⟨d, []⟩ = (.ok c₂, ⟨d₂, []⟩) ∧
          d₂.trees = s.document.trees := by
  intro name query elements reversed c c₂
  obtain ⟨d, hd⟩ := Option.isSome_iff_exists.1
    (by decide +kernel : (Markup.read? "<a x='1'><b>t</b>u</a>").isSome = true)
  have hlooks : (Markup.read? "<a x='1'><b>t</b>u</a>").all (fun d =>
      d.size = 6 ∧ d.isElement 1 = true ∧ d.isElement 3 = true ∧
        d.content? (.stored 4) = some (.text "t" false) ∧
        d.content? (.stored 5) = some (.text "u" false) ∧
        (d.entry 1).children = [3, 5] ∧ (d.entry 3).children = [4] ∧
        d.attributesOf 1 = [{ name := .plain "x", value := "1" }] ∧ d.attributesOf 3 = []) =
      true := by
    decide +kernel
  rw [hd] at hlooks
  obtain ⟨hsize, h₁, h₃, h₄, h₅, hchildren₁, hchildren₃, ha₁, ha₃⟩ := of_decide_eq_true hlooks
  have hreachable : d.Reachable := .read hd
  obtain ⟨label₁, hc₁⟩ := isElement_iff.1 h₁
  obtain ⟨label₃, hc₃⟩ := isElement_iff.1 h₃
  have hpositive : 0 < d.size := by rw [hsize]; decide
  have hb₃ : d.treesBelow 3 = [.text "t" false] := by
    rw [treesBelow, hchildren₃,
      List.filterMap_cons_some (tree?_of_text hpositive (Option.some.inj h₄))]
    rfl
  have hb₁ : d.treesBelow 1 = [.element label₃ [] [.text "t" false], .text "u" false] := by
    have htree : d.tree? d.size 3 = some (.element label₃ [] [.text "t" false]) := by
      rw [hreachable.linked.tree?_eq (lt_size_of_element hc₃), hc₃, ha₃, hb₃]
    rw [treesBelow, hchildren₁, List.filterMap_cons_some htree,
      List.filterMap_cons_some (tree?_of_text hpositive (Option.some.inj h₅))]
    rfl
  have hstrings : d.stringValue (.stored 1) = "tu" ∧ d.stringValue (.stored 3) = "t" := by
    simp [stringValue, hc₁, hc₃, hb₁, hb₃, Tree.textBelow]
  have hs₅ : d.stringValue (.stored 5) = "u" := by
    simp only [stringValue, Option.some.inj h₅]
  have htexts (n : Node) : Query.evaluateText query.raw n d = .ok (d.stringValue n) :=
    Query.evaluateText_string n d
  have hsaid {text : Node → String} {n : Node} {s : String} (hs : d.stringValue n = s)
      (h : Query.evaluateText query.raw n d = .ok (text n)) : text n = s :=
    (Except.ok.inj (h.symm.trans (htexts n))).trans hs
  have hname : Name.isValid name.raw = true := by decide +kernel
  have helements : ∀ n ∈ elements.nodes, TakesAttribute name.raw d n := by
    intro n hn
    rcases List.mem_cons.1 hn with rfl | hn
    · exact ⟨hname, 1, label₁, rfl, hc₁⟩
    · cases List.mem_singleton.1 hn
      exact ⟨hname, 3, label₃, rfl, hc₃⟩
  have htakes : ∀ n ∈ c.nodes, d.TakesText n := by
    intro n hn
    simp only [c, List.mem_cons, List.not_mem_nil, or_false] at hn
    rcases hn with rfl | rfl | rfl
    · exact Or.inl (by rw [hc₁]; rfl)
    · exact Or.inl (by rw [hc₃]; rfl)
    · exact Or.inr (Or.inl (by rw [Option.some.inj h₅]; rfl))
  refine ⟨d, hd, hreachable, ?_, ?_⟩
  · obtain ⟨-, hattribute, -⟩ := computed_reads_first hreachable elements [] name query
    obtain ⟨d', hd', -⟩ := exists_computeAttribute hreachable.linked
      (fun n _ => htexts n) helements fun _ => Iff.rfl
    obtain ⟨-, -, text, htext, hrewritten, horder⟩ := hattribute _ _ hd'
    refine ⟨_, hd', ?_, ?_, ?_⟩
    · rw [hrewritten.attributesOf, ha₁, givenAttribute, if_pos (by decide),
        hsaid hstrings.1 (htext _ (by decide))]
      rfl
    · rw [hrewritten.attributesOf, ha₃, givenAttribute, if_pos (by decide),
        hsaid hstrings.2 (htext _ (by decide))]
      rfl
    · obtain ⟨d₂, hd₂, -, htrees, -⟩ := horder reversed (by decide)
      exact ⟨d₂, hd₂, htrees⟩
  · obtain ⟨-, -, htext⟩ := computed_reads_first hreachable c [] name query
    obtain ⟨d', hd', -⟩ := exists_computeText hreachable.linked (fun n _ => htexts n) htakes
      fun _ => Iff.rfl
    have hold : ∀ n, .stored n ∈ c.nodes → n < d.size := by
      intro n hn
      obtain ⟨k, hk, he⟩ := (htakes _ hn).exists_stored
      exact Node.stored.inj he ▸ hk
    have hnone : ∀ n ∈ c.nodes, d.isAttribute n = false := by
      intro n hn
      simp only [c, List.mem_cons, List.not_mem_nil, or_false] at hn
      rcases hn with rfl | rfl | rfl
      · rw [isAttribute_stored, hc₁]; rfl
      · rw [isAttribute_stored, hc₃]; rfl
      · rw [isAttribute_stored, Option.some.inj h₅]; rfl
    obtain ⟨-, -, text, htexts', -, hset, -, horder⟩ := htext hold _ _ hd'
    have hgot {n : Node} (hn : n ∈ c.nodes) {s : String} (hs : d.stringValue n = s) :
        d'.stringValue n = s := (hset n hn (hnone n hn)).trans (hsaid hs (htexts' n hn))
    obtain ⟨d₂, hd₂, -, htrees, -⟩ := horder hnone c₂ (by decide)
    exact ⟨_, hd', hgot (by decide) hstrings.1, hgot (by decide) hstrings.2, hgot (by decide) hs₅,
      d₂, hd₂, htrees⟩

end Engine

end XmlScript
