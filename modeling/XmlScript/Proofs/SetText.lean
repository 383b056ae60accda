import XmlScript.Proofs.OwnText
import XmlScript.Proofs.Removal
import XmlScript.Proofs.Retext

/-!
# The effect of a text that is set

A text is set on every current node, and these stay current. What the query for their own text then
answers at them is the text, wherever they are and whatever else is current, but for attributes:
another attribute takes the place of one whose text is set, and the one that is current keeps what
it says (`setText_takes_effect`). To set another text afterwards is granted and leads to the
document that setting that text alone leads to; here attributes are no exception, since they are
found by their names (`Retexted.again`).
-/

namespace XmlScript

namespace Document

variable {x y z : Document} {text text' : Node → String} {nodes : List Node}

/-- Of texts that are set on the same nodes one after the other, the later ones count. -/
theorem Retexted.again (h : Retexted (given? text nodes) (x.successors text nodes) x y)
    (h' : Retexted (given? text' nodes) (x.successors text' nodes) y z) (hx : x.Linked)
    (htakes : ∀ m ∈ nodes, x.TakesText m) :
    Retexted (given? text' nodes) (bothWrites (x.successors text nodes) (x.successors text' nodes))
      x z := by
  have hboth := h.trans h' hx fun n hn => given?_eq_none fun hmem => by
    obtain ⟨k, hk, he⟩ := (htakes _ hmem).exists_stored
    exact absurd hn (Nat.not_le_of_lt (Node.stored.inj he ▸ hk))
  have htexts : (fun n => (given? text' nodes n).or (given? text nodes n)) =
      given? text' nodes := by
    funext n
    by_cases hn : .stored n ∈ nodes
    · rw [given?_of_mem hn, Option.some_or]
    · rw [given?_eq_none hn, given?_eq_none hn, Option.none_or]
  rw [htexts] at hboth
  exact hboth

/-- The attributes come to the same, since each is set again. -/
theorem putAll_successors (p : NodeId) (attributes : List Attribute) :
    Attribute.putAll attributes
        (bothWrites (x.successors text nodes) (x.successors text' nodes) p) =
      Attribute.putAll attributes (x.successors text' nodes p) := by
  unfold bothWrites
  rw [Attribute.putAll_append]
  refine Attribute.putAll_putAll_of_names fun b hb => ?_
  obtain ⟨m, hm, a, hc, hp, rfl⟩ := mem_successors_iff.1 hb
  exact ⟨_, mem_successors_iff.2 ⟨m, hm, a, hc, hp, rfl⟩, rfl⟩

end Document

namespace Engine

open Document

variable {d : Document} {c c' : Cursor Node} {saved : Stack Node} {s' : State}

/-- To set a text succeeds exactly on nodes that take one, which stay current. -/
theorem execute_setText_eq_ok (hd : d.Linked) (hold : ∀ n, .stored n ∈ c.nodes → n < d.size)
    {t : Arg} (h : execute (.setText t) c ⟨d, saved⟩ = (.ok c', s')) :
    c' = c ∧ s'.saved = saved ∧ s'.document.Linked ∧ (∀ m ∈ c.nodes, d.TakesText m) ∧
      Retexted (given? (fun _ => t.raw) c.nodes) (d.successors (fun _ => t.raw) c.nodes) d
        s'.document := by
  obtain ⟨made, rfl, hmade, hsaved⟩ := moved_eq_ok_iff.1 h
  obtain ⟨rfl, htakes, hlinked, hretexted⟩ :=
    retexted_of_editEach hd (fun _ => t.raw) hold hmade
  exact ⟨Cursor.ofList_nodes c, hsaved, hlinked, htakes, hretexted⟩

theorem exists_execute_setText (hd : d.Linked) (t : Arg) (h : ∀ m ∈ c.nodes, d.TakesText m)
    (saved : Stack Node) :
    ∃ d', execute (.setText t) c ⟨d, saved⟩ = (.ok c, ⟨d', saved⟩) ∧ d'.Linked ∧
      Retexted (given? (fun _ => t.raw) c.nodes) (d.successors (fun _ => t.raw) c.nodes) d d' := by
  obtain ⟨d', hd', hlinked, hretexted⟩ := exists_setTexts hd (fun _ => t.raw) h
  exact ⟨d', moved_eq_ok_iff.2 ⟨c.nodes, Cursor.ofList_nodes c, hd', rfl⟩, hlinked, hretexted⟩

/-- A text that has been set on the current nodes, which are nodes of the document, is what each of
them says, unless it is an attribute that said something else; then it is what an attribute of that
name in its element says. Another text can be set afterwards, and the document is then the one that
setting this text alone leads to. -/
theorem setText_takes_effect (hd : d.Reachable) (hold : ∀ n, .stored n ∈ c.nodes → n < d.size)
    {t : Arg} (h : execute (.setText t) c ⟨d, saved⟩ = (.ok c', s')) :
    c' = c ∧ s'.saved = saved ∧
      (∀ n ∈ c.nodes, Query.evaluateText "string(.)" n s'.document = .ok t.raw ↔
        ∀ a, d.content? n = some (.attribute a) → a.value = t.raw) ∧
      (∀ n ∈ c.nodes, ∀ a p, d.content? n = some (.attribute a) →
        d.parent? n = some (.stored p) →
          { name := a.name, value := t.raw } ∈ s'.document.attributesOf p) ∧
      ∀ u : Arg, ∃ d₁ d₂, execute (.setText u) c s' = (.ok c, ⟨d₁, saved⟩) ∧
        execute (.setText u) c ⟨d, saved⟩ = (.ok c, ⟨d₂, saved⟩) ∧ Matches d.size d₂ d₁ ∧
        d₁.trees = d₂.trees ∧ ∀ options, d₁.render options = d₂.render options := by
  have hlinked := hd.linked
  obtain ⟨hc, hsaved, hlinked', htakes, hretexted⟩ := execute_setText_eq_ok hlinked hold h
  refine ⟨hc, hsaved, fun n hn => ?_, fun n hn a p hc hp => ?_, fun u => ?_⟩
  · have hn' := htakes n hn
    obtain ⟨k, -, rfl⟩ := hn'.exists_stored
    rw [Query.evaluateText_string, Except.ok.injEq]
    exact hretexted.stringValue_eq_iff hn' (given?_of_mem hn)
  · exact hretexted.mem_attributesOf hlinked hn hc hp fun _ _ _ _ _ _ => rfl
  · have htakes' : ∀ m ∈ c.nodes, s'.document.TakesText m := by
      intro m hm
      obtain ⟨k, hk, rfl⟩ := (htakes m hm).exists_stored
      exact (hretexted.takesText_iff hk).2 (htakes _ hm)
    obtain ⟨d₁, hd₁, hlinked₁, hsecond⟩ := exists_execute_setText hlinked' u htakes' saved
    obtain ⟨d₂, hd₂, hlinked₂, halone⟩ := exists_execute_setText hlinked u htakes saved
    rw [hretexted.successors_eq _ htakes] at hsecond
    have hmatches := halone.matches_of_eq (hretexted.again hsecond hlinked htakes) hlinked
      fun p _ => putAll_successors p _
    obtain ⟨d', saved'⟩ := s'
    cases hsaved
    exact ⟨d₁, d₂, hd₁, hd₂, hmatches, hmatches.trees_eq hlinked₂ hlinked₁ hlinked.root_lt,
      hmatches.render_eq hlinked₂ hlinked₁ hlinked.root_lt⟩

/-- An element, one that it is in, a text and an attribute are current, which leaves the inner
element and the text without parent. -/
theorem setText_takes_effect_nested :
    let c : Cursor Node := ⟨[.stored 5, .stored 2, .stored 1, .stored 3], by decide⟩
    let t : Arg := ⟨"new", Literal.check_eq_ok_iff.1 rfl⟩
    ∃ d, Markup.read? "<a x='1'>old<b><c/></b></a>" = some d ∧ d.Reachable ∧
      (∀ n, .stored n ∈ c.nodes → n < d.size) ∧
      ∃ s, execute (.setText t) c ⟨d, []⟩ = (.ok c, s) ∧
        (∀ n ∈ [Node.stored 5, .stored 1, .stored 3],
          Query.evaluateText "string(.)" n s.document = .ok "new") ∧
        { name := .plain "x", value := "new" } ∈ s.document.attributesOf 1 ∧
        ∀ u : Arg, ∃ d₁ d₂, execute (.setText u) c s = (.ok c, ⟨d₁, []⟩) ∧
          execute (.setText u) c ⟨d, []⟩ = (.ok c, ⟨d₂, []⟩) ∧ Matches d.size d₂ d₁ ∧
          d₁.trees = d₂.trees := by
  intro c t
  obtain ⟨d, hd⟩ := Option.isSome_iff_exists.1
    (by decide +kernel : (Markup.read? "<a x='1'>old<b><c/></b></a>").isSome = true)
  have hlooks : (Markup.read? "<a x='1'>old<b><c/></b></a>").all (fun d =>
      5 < d.size ∧ d.content? (.stored 2) = some (.attribute { name := .plain "x", value := "1" }) ∧
        d.parent? (.stored 2) = some (.stored 1) ∧
        (∀ n ∈ [Node.stored 5, .stored 1, .stored 3], d.isAttribute n = false) ∧
        (execute (.setText t) c ⟨d, []⟩).1 = .ok c) = true := by
    decide +kernel
  rw [hd] at hlooks
  obtain ⟨hsize, hattribute, hparent, hothers, hset⟩ := of_decide_eq_true hlooks
  have hold : ∀ n, .stored n ∈ c.nodes → n < d.size := by
    intro n hn
    simp only [c, List.mem_cons, Node.stored.injEq, List.not_mem_nil, or_false] at hn
    rcases hn with rfl | rfl | rfl | rfl
    all_goals omega
  have hset' : execute (.setText t) c ⟨d, []⟩ = (.ok c, _) := Prod.ext hset rfl
  obtain ⟨-, -, hsaid, hnew, hagain⟩ := setText_takes_effect (.read hd) hold hset'
  refine ⟨d, hd, .read hd, hold, _, hset', fun n hn => ?_, ?_, fun u => ?_⟩
  · refine (hsaid n ?_).2 fun a ha => ?_
    · exact (by decide : ∀ n ∈ [Node.stored 5, .stored 1, .stored 3], n ∈ c.nodes) n hn
    · exact absurd ha (content?_ne_attribute (hothers n hn) a)
  · exact hnew _ (by decide) _ 1 hattribute hparent
  · obtain ⟨d₁, d₂, hd₁, hd₂, hmatches, htrees, -⟩ := hagain u
    exact ⟨d₁, d₂, hd₁, hd₂, hmatches, htrees⟩

/-- An attribute whose text is set stays current and still says what it said; it is not among those
of its element any more. -/
theorem setText_attribute_replaced :
    let c : Cursor Node := ⟨[.stored 2], by decide⟩
    let t : Arg := ⟨"2", Literal.check_eq_ok_iff.1 rfl⟩
    ∃ d, Markup.read? "<a x='1'/>" = some d ∧ d.Reachable ∧
      ∃ s, execute (.setText t) c ⟨d, []⟩ = (.ok c, s) ∧
        Query.evaluateText "string(.)" (.stored 2) s.document = .ok "1" ∧
        Query.evaluateText "string(.)" (.stored 2) s.document ≠ .ok t.raw ∧
        s.document.attributes (.stored 1) = [.stored 3] ∧
        Query.evaluateText "string(.)" (.stored 3) s.document = .ok t.raw := by
  intro c t
  obtain ⟨d, hd⟩ := Option.isSome_iff_exists.1
    (by decide +kernel : (Markup.read? "<a x='1'/>").isSome = true)
  have hruns : (Markup.read? "<a x='1'/>").all (fun d =>
      let s := (execute (.setText t) c ⟨d, []⟩).2
      (execute (.setText t) c ⟨d, []⟩).1 = .ok c ∧ s.document.stringValue (.stored 2) = "1" ∧
        s.document.attributes (.stored 1) = [.stored 3] ∧
        s.document.stringValue (.stored 3) = "2") = true := by
    decide +kernel
  rw [hd] at hruns
  obtain ⟨hset, hold, hattributes, hnew⟩ := of_decide_eq_true hruns
  refine ⟨d, hd, .read hd, _, Prod.ext hset rfl, ?_, ?_, hattributes, ?_⟩
  · rw [Query.evaluateText_string, hold]
  · rw [Query.evaluateText_string, hold]
    decide
  · rw [Query.evaluateText_string, hnew]

end Engine

end XmlScript
