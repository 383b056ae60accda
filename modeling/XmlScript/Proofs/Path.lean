import XmlScript.Proofs.Containers
import XmlScript.Proofs.Legible
import XmlScript.Proofs.Literal
import XmlScript.Proofs.Numeral

/-!
# Paths lead back

A path is walked from the document node, at each step to the `k`-th element child of a name
(`Document.walk?`). The path of an attached element leads to that element, so two of them have two
paths (`walk?_path`). That goes up the way that the path was made from: what is above an element is
an element or the document node, so every step has a name (`Content.Steppable` says that the names
can be told from what is around them), and among the children of that name the position is the one
that is written, or there is one child only.
-/

namespace XmlScript

/-! ## Names in paths -/

/-- A text that can be the name in a step of a path. -/
structure IsStepName (s : List Char) : Prop where
  ne_nil : s ≠ []
  not_slash : '/' ∉ s
  not_bracket : '[' ∉ s

/-- The local name of an element can be the name in a step. -/
def Content.Steppable : Content → Prop
  | .element label => IsStepName label.name.localPart.toList
  | _ => True

namespace Markup

theorem IsName.isStepName {isStart isPart : Char → Bool} {s : List Char}
    (h : IsName isStart isPart s) (hslash : isStart '/' = false ∧ isPart '/' = false)
    (hbracket : isStart '[' = false ∧ isPart '[' = false) : IsStepName s where
  ne_nil := by
    obtain ⟨c, rest, rfl, -⟩ := h
    exact List.cons_ne_nil _ _
  not_slash := h.not_mem hslash.1 hslash.2
  not_bracket := h.not_mem hbracket.1 hbracket.2

theorem isStepName_of_isValid {name : String} (h : Name.isValid name = true) :
    IsStepName name.toList :=
  (isName_of_isValid h).isStepName (by decide +kernel) (by decide +kernel)

theorem IsPlainName.isStepName {s : List Char} (h : IsPlainName s) : IsStepName s :=
  IsName.isStepName h (by decide +kernel) (by decide +kernel)

end Markup

theorem makeable_steppable : Document.Makeable Content.Steppable where
  absent := trivial
  newElement hname := Markup.isStepName_of_isValid hname
  newAttribute _ := trivial
  newValue _ := trivial
  newText := trivial

namespace Markup

theorem gives_steppable : Gives Event.Legible fun _ => Tree.Has Content.Steppable where
  leaf {event t _} _ ht := by
    refine .of_leaf (Event.isElement_leaf? ht) ?_
    cases event <;> cases ht <;> trivial
  opened he _ hopen := by
    obtain ⟨-, -, -, expanded, resolved, hexpanded, -, rfl⟩ := open?_eq_some_iff.1 hopen
    refine fun children => ⟨?_, fun _ _ => trivial⟩
    show IsStepName expanded.localPart.toList
    rw [localPart_of_resolveName? hexpanded]
    exact he.1.localPart.isStepName

end Markup

namespace Document

variable {d : Document} {n p : Node} {e : NodeId} {steps : List String}

theorem Reachable.steppable (h : d.Reachable) : d.Holds Content.Steppable :=
  (makeable_steppable.keptByEdits (fun _ => trivial) fun _ => trivial).of_reachable
    (Holds.empty trivial trivial) (Markup.gives_steppable.holds_of_read? trivial trivial) h

/-! ## Walking -/

/-- A step of a path as a name and a position, which is the first one where none is written. -/
def readStep? (step : List Char) : Option (String × Nat) :=
  match Text.cutAt ['['] step with
  | none => some (String.ofList step, 1)
  | some (name, rest) =>
    match Text.cutAt [']'] rest with
    | some (digits, []) => (Text.readDigits 10 digits).map fun k => (String.ofList name, k)
    | _ => none

/-- The `k`-th element child of a local name, counted from one. -/
def childAt? (d : Document) (n : Node) (name : String) : (k : Nat) → Option Node
  | 0 => none
  | index + 1 =>
    ((d.elementChildren n).filter fun child => d.name? child = some name)[index]?

def walkStep? (d : Document) (n : Node) (step : List Char) : Option Node :=
  (readStep? step).bind fun r => d.childAt? n r.1 r.2

/-- The node that a path leads to from the document node. -/
def walk? (d : Document) (path : String) : Option Node :=
  match path.toList with
  | '/' :: steps =>
    if steps = [] then some (.stored root)
    else (steps.splitOn '/').foldlM d.walkStep? (.stored root)
  | _ => none

/-- The way up from a node leads to the document node. -/
def Attached (d : Document) (n : Node) : Prop := ∃ k, d.ancestor? k n = some (.stored root)

/-! ## One step -/

/-- How a step is written that goes to the `k`-th child of a name. -/
structure IsStepTo (name : String) (k : Nat) (step : List Char) : Prop where
  read : readStep? step = some (name, k)
  not_slash : '/' ∉ step
  ne_nil : step ≠ []

theorem isStepTo_name {name : String} (h : IsStepName name.toList) :
    IsStepTo name 1 name.toList where
  read := by
    have hnone : Text.cutAt ['['] name.toList = none :=
      Text.cutAt_eq_none fun hin => h.not_bracket ((List.singleton_infix_iff _ _).1 hin)
    simp only [readStep?, hnone, String.ofList_toList]
  not_slash := h.not_slash
  ne_nil := h.ne_nil

theorem isStepTo_position {name : String} (h : IsStepName name.toList) (k : Nat) :
    IsStepTo name k (name ++ "[" ++ toString k ++ "]").toList := by
  have hk : (toString k).toList = Nat.toDigits 10 k := String.toList_ofList
  have hstep : (name ++ "[" ++ toString k ++ "]").toList =
      name.toList ++ '[' :: (Nat.toDigits 10 k ++ ']' :: []) := by
    simp only [String.toList_append, hk, List.append_assoc]
    rfl
  have hno {c : Char} (hc : c.isDigit = false) : c ∉ Nat.toDigits 10 k := fun hmem =>
    Bool.false_ne_true (hc.symm.trans (Text.isDigit_of_mem_toDigits hmem))
  have hclose : ']' ∉ Nat.toDigits 10 k := hno rfl
  have hread : Text.readDigits 10 (Nat.toDigits 10 k) = some k :=
    Text.readDigits_ten_iff.2 ⟨Nat.toDigits_ne_nil, fun _ hc => Text.isDigit_of_mem_toDigits hc,
      Nat.ofDigitChars_ten_toDigits⟩
  rw [hstep]
  refine ⟨?_, ?_, List.append_ne_nil_of_left_ne_nil h.ne_nil _⟩
  · simp only [readStep?, Text.cutAt_append h.not_bracket, Text.cutAt_append hclose, hread,
      Option.map_some, String.ofList_toList]
  · simp only [List.mem_append, List.mem_cons, not_or, List.not_mem_nil]
    exact ⟨h.not_slash, by decide, hno rfl, by decide, id⟩

/-- An element is found among the children of its parent by the step that leads to it. -/
theorem exists_isStepTo (hd : d.Linked) (hs : d.Holds Content.Steppable)
    (he : d.isElement e = true) (hp : d.parent? (.stored e) = some p) :
    ∃ name k, IsStepTo name k (d.pathStep p (.stored e)).toList ∧
      d.childAt? p name k = some (.stored e) := by
  obtain ⟨label, hlabel⟩ := isElement_iff.1 he
  have hname : d.name? (.stored e) = some label.name.localPart := by
    simp only [name?, content?, hlabel]
  have hstep : IsStepName label.name.localPart.toList := by
    have hcontent := hs e
    rwa [hlabel] at hcontent
  -- the element is one of those that are counted
  let namesakes := (d.elementChildren p).filter fun child =>
    d.name? child = some label.name.localPart
  have hmem : .stored e ∈ namesakes := by
    obtain ⟨q, hq, rfl⟩ := parent?_stored_iff.1 hp
    refine List.mem_filter.2 ⟨List.mem_map_of_mem (List.mem_filter.2 ⟨?_, he⟩), ?_⟩
    · exact hd.child_iff.2 ⟨hq, by rw [hlabel]; rfl⟩
    · exact decide_eq_true hname
  obtain ⟨index, hindex⟩ : ∃ index, namesakes.idxOf? (.stored e) = some index :=
    Option.ne_none_iff_exists'.1 fun hnone => List.idxOf?_eq_none_iff.1 hnone hmem
  obtain ⟨hlt, hget, -⟩ := List.idxOf?_eq_some_iff.1 hindex
  have hchild : d.childAt? p label.name.localPart (index + 1) = some (.stored e) := by
    show namesakes[index]? = _
    rw [List.getElem?_eq_getElem hlt, hget]
  have hwritten : d.pathStep p (.stored e) =
      if 1 < namesakes.length then label.name.localPart ++ "[" ++ toString (index + 1) ++ "]"
      else label.name.localPart := by
    simp only [pathStep, hname, Option.getD_some]
    rw [hindex]
  refine ⟨label.name.localPart, index + 1, ?_, hchild⟩
  rw [hwritten]
  split
  next => exact isStepTo_position hstep _
  next hone =>
    -- the only one is the first
    obtain rfl : index = 0 := by omega
    exact isStepTo_name hstep

/-! ## The whole way -/

/-- The way down to an attached element or the document node is the way up from it, read from the
end. -/
theorem Climb.walk (hd : d.Linked) (hh : d.Housed) (hs : d.Holds Content.Steppable)
    (h : d.Climb n steps) (hn : ∃ id, n = .stored id ∧ d.IsContainer id) (ha : d.Attached n) :
    (steps.map String.toList).foldlM d.walkStep? (.stored root) = some n ∧
      ∀ step ∈ steps.map String.toList, '/' ∉ step ∧ step ≠ [] := by
  induction h with
  | top hnone =>
    obtain ⟨k, hk⟩ := ha
    cases k with
    | zero => exact ⟨hk.symm, nofun⟩
    | succ k =>
      rw [ancestor?, hnone] at hk
      cases hk
  | up hp _ ih =>
    obtain ⟨id, rfl, hc⟩ := hn
    obtain ⟨q, hq, rfl⟩ := parent?_stored_iff.1 hp
    have hroot : id ≠ root := by
      rintro rfl
      rw [hd.parent?_root] at hq
      cases hq
    have he : d.isElement id = true :=
      isElement_iff.2 (hc.resolve_left fun hdoc => hroot ((hd.document_iff id).1 hdoc))
    have habove : d.Attached (.stored q) := by
      obtain ⟨k, hk⟩ := ha
      cases k with
      | zero => exact absurd (Node.stored.inj (Option.some.inj hk)) hroot
      | succ k =>
        rw [ancestor?, hp] at hk
        exact ⟨k, hk⟩
    obtain ⟨hwalk, hclean⟩ := ih ⟨q, rfl, hh.parent hq⟩ habove
    obtain ⟨name, k, hstep, hchild⟩ := exists_isStepTo hd hs he hp
    rw [List.map_append, List.foldlM_append, hwalk]
    refine ⟨?_, fun step hmem => ?_⟩
    · show (d.walkStep? (.stored q) _).bind some = _
      rw [walkStep?, hstep.read, Option.bind_some, hchild, Option.bind_some]
    · rcases List.mem_append.1 hmem with hmem | hmem
      · exact hclean step hmem
      · rw [List.mem_singleton.1 hmem]
        exact ⟨hstep.not_slash, hstep.ne_nil⟩

theorem walk?_path_of_attached (hd : d.Linked) (hh : d.Housed) (hs : d.Holds Content.Steppable)
    (he : d.isElement e = true) (ha : d.Attached (.stored e)) :
    d.walk? (d.path (.stored e)) = some (.stored e) := by
  obtain ⟨hwalk, hclean⟩ := (hd.climb (.stored e)).walk hd hh hs
    ⟨e, rfl, Or.inr (isElement_iff.1 he)⟩ ha
  generalize hsteps : (d.pathSteps d.size (.stored e)).map String.toList = steps at hwalk hclean
  have hne : steps ≠ [] := by
    rintro rfl
    -- the document node is no element
    cases Node.stored.inj (Option.some.inj hwalk)
    rw [isElement_eq, (hd.document_iff root).2 rfl] at he
    cases he
  have hpath : (d.path (.stored e)).toList = '/' :: ['/'].intercalate steps := by
    rw [path, String.toList_append, String.toList_intercalate, hsteps]
    rfl
  have hwritten : ['/'].intercalate steps ≠ [] := by
    obtain ⟨step, rest, rfl⟩ := List.exists_cons_of_ne_nil hne
    rw [Text.intercalate_cons]
    exact List.append_ne_nil_of_left_ne_nil (hclean step (List.mem_cons_self ..)).2 _
  simp only [walk?, hpath]
  rw [if_neg hwritten, List.splitOn_intercalate '/' (fun step hmem => (hclean step hmem).1) hne,
    hwalk]

/-- The path of an attached element leads from the document node to this element. So no other
attached element has that path. -/
theorem walk?_path (hd : d.Reachable) (he : d.isElement e = true) (ha : d.Attached (.stored e)) :
    d.walk? (d.path (.stored e)) = some (.stored e) ∧
      ∀ e', d.isElement e' = true → d.Attached (.stored e') → e' ≠ e →
        d.path (.stored e') ≠ d.path (.stored e) := by
  have hwalk {e : NodeId} := walk?_path_of_attached (e := e) hd.linked hd.housed hd.steppable
  refine ⟨hwalk he ha, fun e' he' ha' hne hpath => hne ?_⟩
  have hboth := (hwalk he' ha').symm.trans (hpath ▸ hwalk he ha)
  exact Node.stored.inj (Option.some.inj hboth)

/-- Namesakes with and without a namespace are counted together, and below another element again
from one. -/
theorem walk?_path_of_namesakes :
    ∃ d, Markup.read? "<a xmlns:p='u'><b/><p:b/><c><b/></c></a>" = some d ∧
      d.path (.stored 3) = "/a/b[2]" ∧ d.walk? "/a/b[2]" = some (.stored 3) ∧
        d.path (.stored 5) = "/a/c/b" ∧ d.path (.stored 5) ≠ d.path (.stored 3) := by
  obtain ⟨d, hd⟩ := Option.isSome_iff_exists.1
    (by decide +kernel : (Markup.read? "<a xmlns:p='u'><b/><p:b/><c><b/></c></a>").isSome = true)
  have hlooks : (Markup.read? "<a xmlns:p='u'><b/><p:b/><c><b/></c></a>").all (fun d =>
      (d.isElement 3 = true ∧ d.ancestor? 2 (.stored 3) = some (.stored root)) ∧
        (d.isElement 5 = true ∧ d.ancestor? 3 (.stored 5) = some (.stored root)) ∧
          d.path (.stored 3) = "/a/b[2]" ∧ d.path (.stored 5) = "/a/c/b") = true := by
    decide +kernel
  rw [hd] at hlooks
  obtain ⟨⟨he₃, ha₃⟩, ⟨he₅, ha₅⟩, hpath₃, hpath₅⟩ := of_decide_eq_true hlooks
  obtain ⟨hwalk, hother⟩ := walk?_path (.read hd) he₃ ⟨2, ha₃⟩
  rw [hpath₃] at hwalk
  exact ⟨d, hd, hpath₃, hwalk, hpath₅, hother 5 he₅ ⟨3, ha₅⟩ (by decide)⟩

end Document

end XmlScript
