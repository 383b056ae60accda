import XmlScript.Proofs.Copy
import XmlScript.Proofs.Draft
import XmlScript.Proofs.Names

/-!
# Entries that become elements

The directives that a draft appends for a list of entries make an element for each of them below
every current node and come back to where they started (`addMap_lists`). One entry is an element
whose text is all that it has (`adds_entry`), so the entries add one element after the other
(`adds_entries`, by induction on the list).

An element is made below each current node before any is given its text, and on the way back each
leads to the node that it was made below. So it does not matter whether the nodes are attached, or
whether some of them are below others, nor what they had before.
-/

namespace XmlScript

/-! ## Names as texts -/

namespace Name

variable {c : Char} {name : String}

theorem isScriptPart_of_isScriptStart (h : isScriptStart c = true) : isScriptPart c = true := by
  unfold isScriptStart at h
  simp only [Bool.or_eq_true, beq_iff_eq] at h
  unfold isScriptPart
  rcases h with (rfl | rfl) | hletter
  · rfl
  · rfl
  · rw [hletter, Bool.or_true, Bool.true_or]

/-- The code points on either side of the control characters that are not legal. -/
def legalRuns : List (Nat × Nat) := [(0x20, 0x7E), (0xA0, 0x10FFFF)]

theorem covers_legal : Text.covers legalRuns (letters ++ marksAndNumbers) = true := by
  decide +kernel

theorem isLegal_of_isScriptPart (h : isScriptPart c = true) : Literal.isLegal c = true := by
  rcases isScriptPart_cases h with hsign | hruns
  · have hsigns : ['_', ':', '.', '-', '\xb7'].all Literal.isLegal = true := by decide
    exact List.all_eq_true.1 hsigns c hsign
  · obtain ⟨run, hrun, hlow, hhigh⟩ := Text.within_iff.1 (Text.within_of_covers covers_legal hruns)
    unfold Literal.isLegal
    simp only [Bool.not_eq_true', Bool.or_eq_false_iff, Bool.and_eq_false_iff,
      decide_eq_false_iff_not]
    rcases List.mem_pair.1 hrun with rfl | rfl
    · simp only at hlow hhigh
      omega
    · simp only at hlow hhigh
      omega

/-- A name is a text that directives can carry. -/
theorem not_hasIllegal_of_isValid (h : isValid name = true) : ¬ Literal.HasIllegal name := by
  obtain ⟨first, rest, hname, hfirst, hrest⟩ := Markup.isName_of_isValid h
  rintro ⟨c, hc, hillegal⟩
  have hpart : isScriptPart c = true := by
    rw [hname] at hc
    rcases List.mem_cons.1 hc with rfl | hc
    · exact isScriptPart_of_isScriptStart hfirst
    · exact hrest c hc
  rw [isLegal_of_isScriptPart hpart] at hillegal
  cases hillegal

end Name

/-- The element that an entry becomes: its name is the key and its only content the value. -/
def Tree.ofEntry (entry : String × String) : Tree :=
  .element (.plain entry.1) [] [.text entry.2 false]

namespace Engine

open Document

variable {x : Document} {c : Cursor Node} {nodes : List NodeId}

/-! ## Below every current node -/

/-- An element is made below every current node, gets its text and is left again. -/
theorem adds_entry {entry : String × String} (hkey : Name.isValid entry.1 = true) (hx : x.Linked)
    (hc : c.nodes = nodes.map .stored)
    (hnodes : ∀ p ∈ nodes, ∃ label, (x.entry p).content = .element label) :
    Adds [.addElement entry.1, .setText entry.2, .up] c nodes [] [.ofEntry entry] x := by
  refine adds_element hkey hx hc (fun p hp => ?_) fun hy hc _ hmade => adds_setText hy hc hmade
  obtain ⟨label, hlabel⟩ := hnodes p hp
  exact ⟨Or.inr ⟨label, hlabel⟩, hx.takes_of_element hlabel nofun rfl⟩

/-- What the elements have been given does not keep them from being given more. -/
theorem adds_entries {entries : List (String × String)}
    (hkeys : ∀ entry ∈ entries, Name.isValid entry.1 = true) (hx : x.Linked)
    (hc : c.nodes = nodes.map .stored)
    (hnodes : ∀ p ∈ nodes, ∃ label, (x.entry p).content = .element label) :
    Adds (Draft.mapCommands entries) c nodes [] (entries.map .ofEntry) x := by
  induction entries generalizing x with
  | nil => exact Adds.nil hx
  | cons entry rest ih =>
    have hlt : ∀ p ∈ nodes, p < x.size := fun p hp => by
      obtain ⟨label, hlabel⟩ := hnodes p hp
      exact lt_size_of_element hlabel
    have hone := adds_entry (hkeys entry (List.mem_cons_self ..)) hx hc hnodes
    refine hone.append hlt fun y hy hgains => ?_
    refine ih (fun e he => hkeys e (List.mem_cons_of_mem _ he)) hy fun p hp => ?_
    rw [hgains.content p (hlt p hp)]
    exact hnodes p hp

/-- Entries whose keys are names and whose values are legal are taken by every draft, which appends
directives that can be executed wherever all current nodes are elements. They come back to these
nodes, in their order, and leave what is saved as it is; each of the nodes has then, after all
children that it had, one element for each entry, in their order and without attributes, which is
named by the key and has the value as its only text. Nothing else is changed. -/
theorem addMap_lists (entries : List (String × String))
    (hkeys : ∀ entry ∈ entries, Name.isValid entry.1 = true)
    (hvalues : ∀ entry ∈ entries, ¬ Literal.HasIllegal entry.2) :
    ∃ script : Script, (∀ draft : Draft, draft.call (.addMap entries) = .ok (draft.append script)) ∧
      ∀ (x : Document), x.Reachable → ∀ (c : Cursor Node) (saved : Stack Node) (position : Nat),
        (∀ n ∈ c.nodes, ∃ label, x.content? n = some (.element label)) →
        ∃ (nodes : List NodeId) (y : Document), c.nodes = nodes.map .stored ∧ y.Linked ∧
          runFrom position script c ⟨x, saved⟩ = (.ok c, ⟨y, saved⟩) ∧
          Gains (onEach nodes []) (onEach nodes (entries.map .ofEntry)) x y := by
  obtain ⟨arguments, rfl⟩ := Draft.exists_mapScript fun entry he =>
    ⟨Name.not_hasIllegal_of_isValid (hkeys entry he), hvalues entry he⟩
  have hplain := Draft.plain_mapScript arguments
  refine ⟨Draft.mapScript arguments, fun draft => ?_, fun x hx c saved position hc => ?_⟩
  · rw [Draft.call, mapM_validate_eq_ok_iff.2 hplain]
    rfl
  · obtain ⟨nodes, hnodes, helements⟩ := exists_nodes_of_elements hc
    obtain ⟨y, hy, hrun, hgains⟩ :=
      adds_entries hkeys hx.linked hnodes helements _ hplain position saved
    exact ⟨nodes, y, hnodes, hy, hrun, hgains⟩

/-- The current nodes are an element and the one that it is in. -/
theorem addMap_lists_nested :
    let entries := [("b", "1"), ("b", "")]
    let c : Cursor Node := ⟨[.stored 2, .stored 1], by decide⟩
    ∃ d script y, Markup.read? "<a><B/></a>" = some d ∧ d.Reachable ∧
      (∀ draft : Draft, draft.call (.addMap entries) = .ok (draft.append script)) ∧
      y.Linked ∧ runFrom 1 script c ⟨d, [c]⟩ = (.ok c, ⟨y, [c]⟩) ∧
      Gains (onEach [2, 1] []) (onEach [2, 1] (entries.map .ofEntry)) d y := by
  intro entries c
  obtain ⟨d, hd⟩ := Option.isSome_iff_exists.1
    (by decide +kernel : (Markup.read? "<a><B/></a>").isSome = true)
  have helements : (Markup.read? "<a><B/></a>").all (fun d => d.isElement 2 && d.isElement 1) =
      true := by
    decide +kernel
  rw [hd, Option.all_some, Bool.and_eq_true, isElement_iff, isElement_iff] at helements
  obtain ⟨⟨inner, hinner⟩, outer, houter⟩ := helements
  have hvalues : ∀ entry ∈ entries, ¬ Literal.HasIllegal entry.2 := by
    simp only [entries, List.forall_mem_cons]
    exact ⟨Arg.exists_raw_eq_iff.1 ⟨⟨"1", Literal.check_eq_ok_iff.1 rfl⟩, rfl⟩,
      Arg.exists_raw_eq_iff.1 ⟨⟨"", Literal.check_eq_ok_iff.1 rfl⟩, rfl⟩, nofun⟩
  obtain ⟨script, happend, hruns⟩ := addMap_lists entries (by decide +kernel) hvalues
  obtain ⟨nodes, y, hnodes, hy, hrun, hgains⟩ := hruns d (.read hd) c [c] 1 fun n hn => by
    rcases List.mem_pair.1 hn with rfl | rfl
    · exact ⟨inner, congrArg some hinner⟩
    · exact ⟨outer, congrArg some houter⟩
  obtain rfl : nodes = [2, 1] :=
    List.map_injective_iff.2 (fun _ _ => Node.stored.inj) hnodes.symm
  exact ⟨d, script, y, hd, .read hd, happend, hy, hrun, hgains⟩

end Engine

end XmlScript
