import XmlScript.Document.Around
import XmlScript.Proofs.Matching
import XmlScript.Proofs.Upsert

/-!
# Setting the texts of nodes

What becomes of a document when texts are set on some of its nodes is said at once for all of them
(`Document.Retexted`): a text says what it was given, an element has one new text in it and what was
in it has no parent any more, and the elements of attributes have been given attributes. What two
stages do is what they do one after the other (`Retexted.trans`); so some nodes can be gone through
one by one, and this succeeds if every one of them takes a text at the start, since no text that is
set changes whether another node takes one (`exists_setTexts`).

The order of the nodes shows in the attributes only, and nodes that are set again are as if they
had been set once, so that documents match (`Retexted.matches`) that have been made in different
ways.
-/

namespace XmlScript

namespace Content

/-- The same with another text, if it is a text and there is one. -/
def retext (text? : Option String) : Content → Content
  | .text s isCData => .text (text?.getD s) isCData
  | c => c

variable {c : Content} {text? later? : Option String}

theorem alike_retext : Alike c (c.retext text?) := by
  cases c with
  | text s isCData => exact .text s (text?.getD s) isCData isCData
  | _ => exact .refl _

theorem retext_none : c.retext none = c := by cases c <;> rfl

theorem retext_retext : (c.retext text?).retext later? = c.retext (later?.or text?) := by
  cases c with
  | text s isCData => cases later? <;> rfl
  | _ => rfl

theorem retext_of_not_text (h : c.isText = false) : c.retext text? = c := by
  cases c with
  | text => cases h
  | _ => rfl

theorem isText_iff : c.isText = true ↔ ∃ s isCData, c = .text s isCData := by
  cases c <;> simp [isText]

end Content

namespace Document

variable {x y z d : Document} {n p : Nat}

/-! ## What is set -/

/-- The text that a node is given, if it is one of some nodes. -/
def given? (text : Node → String) (nodes : List Node) (n : NodeId) : Option String :=
  if .stored n ∈ nodes then some (text (.stored n)) else none

/-- The attribute that an element is given when a text is set on a node, which has to be an
attribute that knows the element. -/
def successor? (d : Document) (text : Node → String) (p : NodeId) (n : Node) : Option Attribute :=
  match d.content? n, d.parent? n with
  | some (.attribute a), some q =>
    if q = .stored p then some { name := a.name, value := text n } else none
  | _, _ => none

/-- The attributes that an element is given when texts are set on some nodes, one after the
other. -/
def successors (d : Document) (text : Node → String) (nodes : List Node) (p : NodeId) :
    List Attribute :=
  nodes.filterMap (d.successor? text p)

section

variable {text : Node → String} {nodes : List Node}

theorem given?_of_mem (h : .stored n ∈ nodes) : given? text nodes n = some (text (.stored n)) :=
  if_pos h

theorem given?_eq_none (h : .stored n ∉ nodes) : given? text nodes n = none := if_neg h

theorem given?_congr {nodes' : List Node} (h : ∀ m, m ∈ nodes' ↔ m ∈ nodes) :
    given? text nodes' = given? text nodes := by
  funext n
  simp only [given?, h]

theorem given?_of_mem_singleton : given? text [.stored n] n = some (text (.stored n)) :=
  given?_of_mem (List.mem_singleton_self _)

theorem given?_of_ne {m : NodeId} (hm : m ≠ n) : given? text [.stored n] m = none :=
  given?_eq_none fun hmem => hm (Node.stored.inj (List.mem_singleton.1 hmem))

/-- If the one node that is given a text is no element, then no element is given one. -/
theorem given?_of_isElement {m : NodeId} (hn : (d.entry n).content.isElement = false)
    (hm : (d.entry m).content.isElement = true) : given? text [.stored n] m = none := by
  refine given?_of_ne fun hmn => ?_
  rw [hmn, hn] at hm
  cases hm

theorem given?_cons (m : Node) : (given? text nodes n).or (given? text [m] n) =
    given? text (m :: nodes) n := by
  unfold given?
  by_cases hn : .stored n ∈ nodes
  · rw [if_pos hn, if_pos (List.mem_cons_of_mem _ hn), Option.some_or]
  · rw [if_neg hn, Option.none_or]
    simp only [List.mem_cons, hn, or_false, List.not_mem_nil]

theorem content?_ne_of_isAttribute (h : (d.entry n).content.isAttribute = false)
    (a : Attribute) : d.content? (.stored n) ≠ some (.attribute a) := by
  intro ha
  rw [Option.some.inj ha] at h
  cases h

theorem successor?_eq_some_iff {m : Node} {b : Attribute} : d.successor? text p m = some b ↔
    ∃ a, d.content? m = some (.attribute a) ∧ d.parent? m = some (.stored p) ∧
      b = { name := a.name, value := text m } := by
  unfold successor?
  constructor
  · intro h
    split at h
    next a q hc hp =>
      obtain ⟨rfl, hb⟩ := Option.ite_none_right_eq_some.1 h
      exact ⟨a, hc, hp, (Option.some.inj hb).symm⟩
    next => cases h
  · intro h
    obtain ⟨a, hc, hp, rfl⟩ := h
    simp only [hc, hp, if_true]

theorem mem_successors_iff {b : Attribute} : b ∈ d.successors text nodes p ↔
    ∃ m ∈ nodes, ∃ a, d.content? m = some (.attribute a) ∧ d.parent? m = some (.stored p) ∧
      b = { name := a.name, value := text m } := by
  unfold successors
  rw [List.mem_filterMap]
  simp only [successor?_eq_some_iff]

theorem successors_eq_nil (h : ∀ m ∈ nodes, ∀ a, d.content? m ≠ some (.attribute a)) :
    d.successors text nodes p = [] := by
  refine List.eq_nil_iff_forall_not_mem.2 fun b hb => ?_
  obtain ⟨m, hm, a, hc, -⟩ := mem_successors_iff.1 hb
  exact h m hm a hc

end

/-- A node is in an element that has been given a text. -/
def Released (texts : NodeId → Option String) (d : Document) (n : NodeId) : Prop :=
  (d.entry n).content.isAttribute = false ∧
    ∃ p, (d.entry n).parent? = some p ∧ (d.entry p).content.isElement = true ∧ texts p ≠ none

/-- The second document is the first after texts have been set, where `texts` are those of texts
and elements and `writes` are the attributes that have been set on each element. -/
structure Retexted (texts : NodeId → Option String) (writes : NodeId → List Attribute)
    (x y : Document) : Prop where
  size_le : x.size ≤ y.size
  content : ∀ n < x.size, (y.entry n).content = (x.entry n).content.retext (texts n)
  released : ∀ n < x.size, Released texts x n → (y.entry n).parent? = none
  kept : ∀ n < x.size, ¬Released texts x n → (y.entry n).parent? = (x.entry n).parent?
  filled : ∀ n < x.size, (x.entry n).content.isElement = true → ∀ s, texts n = some s →
    ∃ k, (y.entry n).children = [k] ∧ x.size ≤ k ∧ (y.entry k).content = .text s false
  children : ∀ n < x.size, ((x.entry n).content.isElement = true → texts n = none) →
    (y.entry n).children = (x.entry n).children
  attributesOf : ∀ n < x.size,
    y.attributesOf n = Attribute.putAll (x.attributesOf n) (writes n)

namespace Retexted

variable {t t' : NodeId → Option String} {w w' : NodeId → List Attribute}

theorem refl (x : Document) : Retexted (fun _ => none) noWrites x x where
  size_le := Nat.le_refl _
  content _ _ := Content.retext_none.symm
  released n _ h := by
    obtain ⟨-, p, -, -, hp⟩ := h
    exact absurd rfl hp
  kept _ _ _ := rfl
  filled _ _ _ _ h := by cases h
  children _ _ _ := rfl
  attributesOf _ _ := rfl

theorem alike (h : Retexted t w x y) (hn : n < x.size) :
    Content.Alike (x.entry n).content (y.entry n).content := by
  rw [h.content n hn]
  exact Content.alike_retext

/-- Two stages. The second one gives no text to a node that the first has made. -/
theorem trans (h : Retexted t w x y) (h' : Retexted t' w' y z) (hx : x.Linked)
    (hold : ∀ n, x.size ≤ n → t' n = none) :
    Retexted (fun n => (t' n).or (t n)) (bothWrites w w') x z where
  size_le := Nat.le_trans h.size_le h'.size_le
  content n hn := by
    rw [h'.content n (Nat.lt_of_lt_of_le hn h.size_le), h.content n hn, Content.retext_retext]
  released n hn hr := by
    have hny := Nat.lt_of_lt_of_le hn h.size_le
    obtain ⟨hna, p, hp, he, htp⟩ := hr
    by_cases hfirst : Released t x n
    · have hnone := h.released n hn hfirst
      rw [h'.kept n hny, hnone]
      intro hr'
      obtain ⟨-, q, hq, -⟩ := hr'
      rw [hnone] at hq
      cases hq
    · have hpx : p < x.size := Nat.lt_trans (hx.parent_lt hp) hn
      refine h'.released n hny ⟨(h.alike hn).isAttribute_eq.trans hna, p, ?_, ?_, fun hnone => ?_⟩
      · rw [h.kept n hn hfirst, hp]
      · exact (h.alike hpx).isElement_eq.trans he
      · -- then it is the first stage that has given a text to the element
        refine hfirst ⟨hna, p, hp, he, fun hnone' => htp ?_⟩
        exact Option.or_eq_none_iff.2 ⟨hnone, hnone'⟩
  kept n hn hk := by
    have hfirst : ¬Released t x n := by
      intro hr
      obtain ⟨hna, p, hp, he, htp⟩ := hr
      exact hk ⟨hna, p, hp, he, fun hnone => htp (Option.or_eq_none_iff.1 hnone).2⟩
    rw [h'.kept n (Nat.lt_of_lt_of_le hn h.size_le), h.kept n hn hfirst]
    intro hr
    obtain ⟨hna, p, hp, he, htp⟩ := hr
    rw [h.kept n hn hfirst] at hp
    have hpx : p < x.size := Nat.lt_trans (hx.parent_lt hp) hn
    exact hk ⟨(h.alike hn).isAttribute_eq.symm.trans hna, p, hp,
      (h.alike hpx).isElement_eq.symm.trans he, fun hnone => htp (Option.or_eq_none_iff.1 hnone).1⟩
  filled n hn he s hs := by
    have hny := Nat.lt_of_lt_of_le hn h.size_le
    cases hlater : t' n with
    | some s' =>
      rw [hlater, Option.some_or] at hs
      obtain ⟨k, hk, hle, hc⟩ :=
        h'.filled n hny ((h.alike hn).isElement_eq.trans he) s (hlater.trans hs)
      exact ⟨k, hk, Nat.le_trans h.size_le hle, hc⟩
    | none =>
      rw [hlater, Option.none_or] at hs
      obtain ⟨k, hk, hle, hc⟩ := h.filled n hn he s hs
      have hky : k < y.size := lt_size_of_content fun s hs => by rw [hc] at hs; cases hs
      refine ⟨k, ?_, hle, ?_⟩
      · rw [h'.children n hny fun _ => hlater, hk]
      · rw [h'.content k hky, hold k hle, Content.retext_none, hc]
  children n hn hnone := by
    rw [h'.children n (Nat.lt_of_lt_of_le hn h.size_le), h.children n hn]
    · exact fun he => (Option.or_eq_none_iff.1 (hnone he)).2
    · intro he
      exact (Option.or_eq_none_iff.1 (hnone ((h.alike hn).isElement_eq.symm.trans he))).1
  attributesOf n hn := by
    rw [h'.attributesOf n (Nat.lt_of_lt_of_le hn h.size_le), h.attributesOf n hn]
    exact (Attribute.putAll_append _).symm

end Retexted

/-! ## One node -/

section

variable {text : Node → String}

theorem attributesOf_congr (hlist : (y.entry n).attributes = (x.entry n).attributes)
    (hcontent : ∀ a ∈ (x.entry n).attributes, (y.entry a).content = (x.entry a).content) :
    y.attributesOf n = x.attributesOf n := by
  rw [attributesOf_eq, attributesOf_eq, hlist]
  exact List.filterMap_congr fun a ha => attributeAt?_congr (hcontent a ha)

/-- What is in an element that is given a text has no parent any more. -/
theorem Linked.retexted_fill (hx : x.Linked) {label : Label}
    (hn : (x.entry n).content = .element label) :
    Retexted (given? text [.stored n]) noWrites x
      ((x.clearChildren n).appendChild n (.text (text (.stored n)) false)) := by
  have hlt : n < (x.clearChildren n).size := by
    rw [size_clearChildren]
    exact lt_size_of_element hn
  have hentry {m : Nat} (hm : m < x.size) :
      ((x.clearChildren n).appendChild n (.text (text (.stored n)) false)).entry m =
        { x.entry m with
          children := if m = n then [x.size] else (x.entry m).children
          parent? := if m ∈ (x.entry n).children then none else (x.entry m).parent? } := by
    rw [entry_appendChild hlt, size_clearChildren, if_neg (Nat.ne_of_lt hm), entry_clearChildren]
    split <;> rfl
  have hreleased {m : NodeId} :
      Released (given? text [.stored n]) x m ↔ m ∈ (x.entry n).children := by
    rw [hx.child_iff]
    constructor
    · intro h
      obtain ⟨hna, p, hp, -, hgp⟩ := h
      by_cases hpn : p = n
      · exact ⟨hpn ▸ hp, hna⟩
      · exact absurd (given?_of_ne hpn) hgp
    · intro h
      refine ⟨h.2, n, h.1, by rw [hn]; rfl, ?_⟩
      rw [given?_of_mem_singleton]
      nofun
  constructor
  case size_le =>
    rw [size_appendChild, size_clearChildren]
    exact Nat.le_succ _
  case content =>
    intro m hm
    rw [hentry hm]
    by_cases hmn : m = n
    · rw [hmn, Content.retext_of_not_text (by rw [hn]; rfl)]
    · rw [given?_of_ne hmn, Content.retext_none]
  case released =>
    intro m hm hr
    rw [hentry hm]
    exact if_pos (hreleased.1 hr)
  case kept =>
    intro m hm hk
    rw [hentry hm]
    exact if_neg fun hmem => hk (hreleased.2 hmem)
  case filled =>
    intro m hm _ s hs
    by_cases hmn : m = n
    · subst hmn
      rw [given?_of_mem_singleton] at hs
      refine ⟨x.size, ?_, Nat.le_refl _, ?_⟩
      · rw [hentry hm]
        exact if_pos rfl
      · rw [entry_appendChild hlt, size_clearChildren, if_pos rfl, Option.some.inj hs]
    · rw [given?_of_ne hmn] at hs
      cases hs
  case children =>
    intro m hm hnone
    rw [hentry hm]
    refine if_neg fun hmn => ?_
    have := hnone (by rw [hmn, hn]; rfl)
    rw [hmn, given?_of_mem_singleton] at this
    cases this
  case attributesOf =>
    intro m _
    rw [attributesOf_appendChild hlt rfl]
    refine attributesOf_congr ?_ fun a _ => ?_
    · rw [entry_clearChildren]
    · rw [entry_clearChildren]

theorem Linked.retexted_rewrite (hx : x.Linked) {s : String} {isCData : Bool}
    (hn : (x.entry n).content = .text s isCData) :
    Retexted (given? text [.stored n]) noWrites x
      (x.modify n fun e => { e with content := .text (text (.stored n)) isCData }) := by
  have hlt : n < x.size := lt_size_of_content fun s hs => by rw [hn] at hs; cases hs
  have hentry (m : NodeId) :
      (x.modify n fun e => { e with content := .text (text (.stored n)) isCData }).entry m =
        { x.entry m with
          content := if m = n then .text (text (.stored n)) isCData else (x.entry m).content } := by
    rw [entry_modify]
    by_cases hm : m = n
    · rw [if_pos ⟨hm, hlt⟩, if_pos hm, hm]
    · rw [if_neg fun h => hm h.1, if_neg hm]
  have hnone {m : NodeId} (hm : (x.entry m).content.isElement = true) :
      given? text [.stored n] m = none :=
    given?_of_isElement (by rw [hn]; rfl) hm
  constructor
  case size_le => exact Nat.le_of_eq (size_modify x n _).symm
  case content =>
    intro m _
    rw [hentry]
    by_cases hmn : m = n
    · rw [if_pos hmn, hmn, hn, given?_of_mem_singleton]
      rfl
    · rw [if_neg hmn, given?_of_ne hmn, Content.retext_none]
  case released =>
    intro m _ hr
    obtain ⟨-, p, -, he, hp⟩ := hr
    exact absurd (hnone he) hp
  case kept => intro m _ _; rw [hentry]
  case filled =>
    intro m _ he s hs
    rw [hnone he] at hs
    cases hs
  case children => intro m _ _; rw [hentry]
  case attributesOf =>
    intro m _
    refine attributesOf_congr (by rw [hentry]) fun a ha => ?_
    rw [hentry]
    refine if_neg fun han => ?_
    have hattribute := (hx.owner ha).1
    rw [han, hn] at hattribute
    cases hattribute

theorem Linked.retexted_succeed (hx : x.Linked) {a : Attribute}
    (hn : (x.entry n).content = .attribute a) (hp : (x.entry n).parent? = some p) :
    Retexted (given? text [.stored n]) (x.successors text [.stored n]) x
      (x.putAttribute p { name := a.name, value := text (.stored n) }) := by
  have hlt : p < x.size := hx.parent_lt_size hp
  obtain ⟨hearlier, hchildren⟩ :=
    Earlier.putAttribute hlt { name := a.name, value := text (.stored n) }
  have hnone {m : NodeId} (hm : (x.entry m).content.isElement = true) :
      given? text [.stored n] m = none :=
    given?_of_isElement (by rw [hn]; rfl) hm
  constructor
  case size_le => exact hearlier.size_le
  case content =>
    intro m hm
    rw [hearlier.content m hm]
    by_cases hmn : m = n
    · rw [hmn, hn]
      rfl
    · rw [given?_of_ne hmn, Content.retext_none]
  case released =>
    intro m _ hr
    obtain ⟨-, q, -, he, hq⟩ := hr
    exact absurd (hnone he) hq
  case kept => exact fun m hm _ => hearlier.parent? m hm
  case filled =>
    intro m _ he s hs
    rw [hnone he] at hs
    cases hs
  case children => exact fun m hm _ => hchildren m hm
  case attributesOf =>
    intro m _
    rw [hx.attributesOf_putAttribute hlt]
    have hparent : x.parent? (.stored n) = some (.stored p) := parent?_stored_iff.2 ⟨p, hp, rfl⟩
    have hcontent : x.content? (.stored n) = some (.attribute a) := congrArg some hn
    by_cases hmp : m = p
    · have hone : x.successor? text m (.stored n) =
          some { name := a.name, value := text (.stored n) } :=
        successor?_eq_some_iff.2 ⟨a, hcontent, hmp ▸ hparent, rfl⟩
      rw [if_pos hmp, hmp, successors, ← hmp, List.filterMap_cons_some hone]
      rfl
    · have hnone : x.successor? text m (.stored n) = none := by
        refine Option.eq_none_iff_forall_ne_some.2 fun b hb => hmp ?_
        obtain ⟨-, -, hm, -⟩ := successor?_eq_some_iff.1 hb
        rw [hparent] at hm
        exact (Node.stored.inj (Option.some.inj hm)).symm
      rw [if_neg hmp, successors, List.filterMap_cons_none hnone]
      rfl

end

/-- A text can be set on an element, a text, and an attribute that knows its element. -/
def TakesText (d : Document) : Node → Prop
  | .stored n => (d.entry n).content.isElement = true ∨ (d.entry n).content.isText = true ∨
    ((d.entry n).content.isAttribute = true ∧ (d.entry n).parent? ≠ none)
  | .binding _ _ _ => False

theorem TakesText.exists_stored {m : Node} (h : x.TakesText m) : ∃ n < x.size, m = .stored n := by
  cases m with
  | binding => exact h.elim
  | stored n =>
    refine ⟨n, lt_size_of_content fun s hs => ?_, rfl⟩
    rcases h with h | h | ⟨h, -⟩
    all_goals
      rw [hs] at h
      cases h

theorem takesText_of_setText {m : Node} {s : String} (h : x.setText s m = .ok y) :
    x.TakesText m := by
  obtain ⟨n, rfl, ⟨label, hc, -⟩ | ⟨s, isCData, hc, -⟩ | ⟨a, p, hc, hp, -⟩⟩ := setText_cases h
  · exact Or.inl (by rw [hc]; rfl)
  · exact Or.inr (Or.inl (by rw [hc]; rfl))
  · exact Or.inr (Or.inr ⟨by rw [hc]; rfl, by rw [hp]; nofun⟩)

/-- A text that is set on a node that takes one is set, with these effects. -/
theorem exists_setText (hx : x.Linked) {m : Node} (text : Node → String) (h : x.TakesText m) :
    ∃ y, x.setText (text m) m = .ok y ∧ y.Linked ∧
      Retexted (given? text [m]) (x.successors text [m]) x y := by
  obtain ⟨n, -, rfl⟩ := h.exists_stored
  have hnone (hna : (x.entry n).content.isAttribute = false) :
      x.successors text [.stored n] = noWrites := by
    funext p
    refine successors_eq_nil fun m hm => ?_
    rw [List.mem_singleton.1 hm]
    exact content?_ne_of_isAttribute hna
  rcases h with he | ht | ⟨ha, hp⟩
  · obtain ⟨label, hc⟩ := isElement_iff.1 ((isElement_eq x n).trans he)
    have hset : x.setText (text (.stored n)) (.stored n) =
        .ok ((x.clearChildren n).appendChild n (.text (text (.stored n)) false)) := by
      simp only [setText, content?, hc]
    refine ⟨_, hset, hx.setText hset, ?_⟩
    rw [hnone (by rw [hc]; rfl)]
    exact hx.retexted_fill hc
  · obtain ⟨s, isCData, hc⟩ := Content.isText_iff.1 ht
    have hset : x.setText (text (.stored n)) (.stored n) =
        .ok (x.modify n fun e => { e with content := .text (text (.stored n)) isCData }) := by
      simp only [setText, content?, hc]
    refine ⟨_, hset, hx.setText hset, ?_⟩
    rw [hnone (by rw [hc]; rfl)]
    exact hx.retexted_rewrite hc
  · obtain ⟨a, hc⟩ := Content.isAttribute_iff.1 ha
    obtain ⟨p, hp⟩ := Option.ne_none_iff_exists'.1 hp
    have hset : x.setText (text (.stored n)) (.stored n) =
        .ok (x.putAttribute p { name := a.name, value := text (.stored n) }) := by
      simp only [setText, content?, hc, hp]
    exact ⟨_, hset, hx.setText hset, hx.retexted_succeed hc hp⟩

namespace Retexted

variable {t t' : NodeId → Option String} {w w' : NodeId → List Attribute}

/-- The parent of an attribute stays. -/
theorem parent?_attribute (h : Retexted t w x y) (hn : n < x.size)
    (ha : (x.entry n).content.isAttribute = true) :
    (y.entry n).parent? = (x.entry n).parent? := by
  refine h.kept n hn fun hr => ?_
  have hna := hr.1
  rw [ha] at hna
  cases hna

theorem takesText_iff (h : Retexted t w x y) (hn : n < x.size) :
    y.TakesText (.stored n) ↔ x.TakesText (.stored n) := by
  have halike := h.alike hn
  simp only [TakesText]
  rw [halike.isElement_eq, halike.isText_eq, halike.isAttribute_eq]
  refine or_congr_right (or_congr_right (and_congr_right fun ha => ?_))
  rw [h.parent?_attribute hn ha]

theorem successor?_eq (h : Retexted t w x y) (text : Node → String) (p : NodeId)
    (hn : n < x.size) : y.successor? text p (.stored n) = x.successor? text p (.stored n) := by
  cases ha : (x.entry n).content.isAttribute with
  | true =>
    obtain ⟨a, hc⟩ := Content.isAttribute_iff.1 ha
    have hcontent : y.content? (.stored n) = x.content? (.stored n) := by
      simp only [content?, h.content n hn, hc]
      rfl
    have hparent : y.parent? (.stored n) = x.parent? (.stored n) := by
      simp only [Document.parent?, h.parent?_attribute hn ha]
    simp only [successor?, hcontent, hparent]
  | false =>
    -- neither is an attribute
    have hnone {d : Document} (hna : (d.entry n).content.isAttribute = false) :
        d.successor? text p (.stored n) = none := by
      refine Option.eq_none_iff_forall_ne_some.2 fun b hb => ?_
      obtain ⟨a, hc, -⟩ := successor?_eq_some_iff.1 hb
      exact content?_ne_of_isAttribute hna a hc
    rw [hnone ha, hnone ((h.alike hn).isAttribute_eq.trans ha)]

theorem successors_eq (h : Retexted t w x y) (text : Node → String) {nodes : List Node}
    (hold : ∀ m ∈ nodes, x.TakesText m) : y.successors text nodes = x.successors text nodes := by
  funext p
  refine List.filterMap_congr fun m hm => ?_
  obtain ⟨n, hn, rfl⟩ := (hold m hm).exists_stored
  exact h.successor?_eq text p hn

/-- What a node has been given, it says. -/
theorem stringValue_eq (h : Retexted t w x y) (hn : n < x.size) {s : String} (hs : t n = some s)
    (hkind : (x.entry n).content.isElement = true ∨ (x.entry n).content.isText = true) :
    y.stringValue (.stored n) = s := by
  have hcontent := h.content n hn
  rcases hkind with he | ht
  · obtain ⟨label, hc⟩ := isElement_iff.1 ((isElement_eq x n).trans he)
    obtain ⟨k, hk, -, hk'⟩ := h.filled n hn he s hs
    have hbelow : y.treesBelow n = [.text s false] := by
      unfold treesBelow
      rw [hk, List.filterMap_cons_some (tree?_of_text ?_ hk'), List.filterMap_nil]
      exact Nat.lt_of_lt_of_le (Nat.lt_of_le_of_lt (Nat.zero_le n) hn) h.size_le
    rw [hc] at hcontent
    simp only [stringValue, hcontent, Content.retext, hbelow, Tree.textBelow]
    exact String.append_empty
  · obtain ⟨old, isCData, hc⟩ := Content.isText_iff.1 ht
    rw [hc, hs] at hcontent
    simp only [stringValue, hcontent, Content.retext, Option.getD_some]

/-- An attribute is the one kind of node that does not say what it has been given. -/
theorem stringValue_eq_iff (h : Retexted t w x y) (htakes : x.TakesText (.stored n)) {s : String}
    (hs : t n = some s) : y.stringValue (.stored n) = s ↔
      ∀ a, x.content? (.stored n) = some (.attribute a) → a.value = s := by
  obtain ⟨k, hk, he⟩ := htakes.exists_stored
  obtain rfl := Node.stored.inj he
  have hother (hna : (x.entry n).content.isAttribute = false) :
      ∀ a, x.content? (.stored n) = some (.attribute a) → a.value = s :=
    fun a ha => absurd ha (content?_ne_of_isAttribute hna a)
  rcases htakes with he | ht | ⟨ha, -⟩
  · refine iff_of_true (h.stringValue_eq hk hs (Or.inl he)) (hother ?_)
    obtain ⟨label, hc⟩ := isElement_iff.1 ((isElement_eq x n).trans he)
    rw [hc]
    rfl
  · refine iff_of_true (h.stringValue_eq hk hs (Or.inr ht)) (hother ?_)
    obtain ⟨old, isCData, hc⟩ := Content.isText_iff.1 ht
    rw [hc]
    rfl
  · obtain ⟨a, hc⟩ := Content.isAttribute_iff.1 ha
    have hsame := h.content n hk
    rw [hc] at hsame
    simp only [stringValue, hsame, Content.retext, content?, hc, Option.some.injEq,
      Content.attribute.injEq, forall_eq']

/-- An element has the attribute that comes from one of its own, if all of that name among the
nodes are given the same text. -/
theorem mem_attributesOf {text : Node → String} {nodes : List Node}
    (h : Retexted t (x.successors text nodes) x y) (hx : x.Linked) {m : Node} (hm : m ∈ nodes)
    {a : Attribute} (hc : x.content? m = some (.attribute a))
    (hp : x.parent? m = some (.stored p))
    (hsame : ∀ k ∈ nodes, ∀ b, x.content? k = some (.attribute b) →
      x.parent? k = some (.stored p) → b.name = a.name → text k = text m) :
    { name := a.name, value := text m } ∈ y.attributesOf p := by
  have hlt : p < x.size := by
    cases m with
    | binding => cases hp
    | stored n =>
      obtain ⟨q, hq, he⟩ := parent?_stored_iff.1 hp
      exact Node.stored.inj he ▸ hx.parent_lt_size hq
  rw [h.attributesOf p hlt]
  refine Attribute.mem_putAll (mem_successors_iff.2 ⟨m, hm, a, hc, hp, rfl⟩) fun b hb hname => ?_
  obtain ⟨k, hk, b, hkc, hkp, rfl⟩ := mem_successors_iff.1 hb
  rw [Attribute.mk.injEq]
  exact ⟨hname, rfl, hsame k hk b hkc hkp hname⟩

/-- Documents match that are made by setting the same texts, if the attributes come to the same. -/
theorem matches_of_eq (h : Retexted t w x y) (h' : Retexted t w' x z) (hx : x.Linked)
    (hw : ∀ n < x.size, Attribute.putAll (x.attributesOf n) (w' n) =
      Attribute.putAll (x.attributesOf n) (w n)) : Matches x.size y z where
  le_left := h.size_le
  le_right := h'.size_le
  content n hn := by rw [h'.content n hn, h.content n hn]
  parent? n hn := by
    by_cases hr : Released t x n
    · rw [h'.released n hn hr, h.released n hn hr]
    · rw [h'.kept n hn hr, h.kept n hn hr]
  attributesOf n hn := by rw [h'.attributesOf n hn, h.attributesOf n hn, hw n hn]
  children n hn := by
    by_cases hnone : (x.entry n).content.isElement = true → t n = none
    · rw [h'.children n hn hnone, h.children n hn hnone]
      exact List.forall₂_same.2 fun k hk => Or.inl ⟨rfl, hx.lt_of_mem_children hk⟩
    · obtain ⟨he, hgiven⟩ := Classical.not_imp.1 hnone
      obtain ⟨s, hs⟩ := Option.ne_none_iff_exists'.1 hgiven
      obtain ⟨k, hk, hle, hc⟩ := h.filled n hn he s hs
      obtain ⟨k', hk', hle', hc'⟩ := h'.filled n hn he s hs
      rw [hk, hk']
      exact .cons (Or.inr ⟨hle, hle', s, false, hc, hc'⟩) .nil

end Retexted

end Document

namespace Engine

open Document

variable {x y : Document} {text : Node → String} {nodes made : List Node}

/-! ## Node after node -/

/-- Texts are set on nodes that take them, and the effects add up. -/
theorem exists_setTexts (hx : x.Linked) (text : Node → String)
    (h : ∀ m ∈ nodes, x.TakesText m) :
    ∃ y, editEach (keeping fun m => setText (text m) m) nodes x = (.ok nodes, y) ∧ y.Linked ∧
      Retexted (given? text nodes) (x.successors text nodes) x y := by
  induction nodes generalizing x with
  | nil => exact ⟨x, rfl, hx, Retexted.refl x⟩
  | cons m rest ih =>
    have hrest : ∀ k ∈ rest, x.TakesText k := fun k hk => h k (List.mem_cons_of_mem _ hk)
    obtain ⟨x₁, hm, hx₁, hone⟩ := exists_setText hx text (h m (List.mem_cons_self ..))
    obtain ⟨y, hy, hlinked, hothers⟩ := ih hx₁ fun k hk => by
      obtain ⟨n, hn, rfl⟩ := (hrest k hk).exists_stored
      exact (hone.takesText_iff hn).2 (hrest _ hk)
    refine ⟨y, ?_, hlinked, ?_⟩
    · exact editEach_cons_eq_ok_iff.2 ⟨m, x₁, keeping_eq_ok_iff.2 ⟨rfl, hm⟩, rest, rfl, hy⟩
    · rw [hone.successors_eq text hrest] at hothers
      have hboth := hone.trans hothers hx fun n hn => given?_eq_none fun hmem => by
        obtain ⟨k, hk, he⟩ := (hrest _ hmem).exists_stored
        exact absurd hn (Nat.not_le_of_lt (Node.stored.inj he ▸ hk))
      have htexts : (fun n => (given? text rest n).or (given? text [m] n)) =
          given? text (m :: rest) := funext fun n => given?_cons m
      have hwrites : bothWrites (x.successors text [m]) (x.successors text rest) =
          x.successors text (m :: rest) := funext fun p => by
        unfold bothWrites successors
        rw [← List.filterMap_append]
        rfl
      rw [htexts, hwrites] at hboth
      exact hboth

/-- Where texts have been set, the nodes took them before the first one was set. -/
theorem takesText_of_editEach (hx : x.Linked) (hold : ∀ n, .stored n ∈ nodes → n < x.size)
    (h : editEach (keeping fun m => setText (text m) m) nodes x = (.ok made, y)) :
    ∀ m ∈ nodes, x.TakesText m := by
  induction nodes generalizing x made with
  | nil => nofun
  | cons m rest ih =>
    obtain ⟨m', x₁, hm, ms, rfl, hrest⟩ := editEach_cons_eq_ok_iff.1 h
    obtain ⟨rfl, hset⟩ := keeping_eq_ok_iff.1 hm
    have htakes := takesText_of_setText hset
    obtain ⟨y₁, hset', hx₁, hone⟩ := exists_setText hx text htakes
    rw [hset] at hset'
    cases hset'
    intro k hk
    rcases List.mem_cons.1 hk with rfl | hk
    · exact htakes
    · have hlater := ih hx₁ (fun n hn => Nat.lt_of_lt_of_le
        (hold n (List.mem_cons_of_mem _ hn)) hone.size_le) hrest k hk
      obtain ⟨n, -, rfl⟩ := hlater.exists_stored
      exact (hone.takesText_iff (hold n (List.mem_cons_of_mem _ hk))).1 hlater

theorem retexted_of_editEach (hx : x.Linked) (text : Node → String)
    (hold : ∀ n, .stored n ∈ nodes → n < x.size)
    (h : editEach (keeping fun m => setText (text m) m) nodes x = (.ok made, y)) :
    made = nodes ∧ (∀ m ∈ nodes, x.TakesText m) ∧ y.Linked ∧
      Retexted (given? text nodes) (x.successors text nodes) x y := by
  have htakes := takesText_of_editEach hx hold h
  obtain ⟨z, hz, hlinked, hretexted⟩ := exists_setTexts hx text htakes
  rw [h] at hz
  obtain ⟨hmade, rfl⟩ := Prod.mk.inj hz
  exact ⟨Except.ok.inj hmade, htakes, hlinked, hretexted⟩

end Engine

end XmlScript
