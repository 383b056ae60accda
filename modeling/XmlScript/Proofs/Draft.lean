import Mathlib.Data.List.Induction
import XmlScript.Script.Draft
import XmlScript.Proofs.Canonical
import XmlScript.Proofs.Copied

/-!
# What drafts hold

A call asks for directives (`Draft.Asks`), starts again from a snapshot, or is refused
(`Draft.Refuses`): for an illegal character in any of its texts, for a source that cannot be read,
or for a snapshot that has not been taken. What is granted is appended (`call_of_asks`), and a call
that is refused changes nothing, whatever else of it could have been granted
(`run_single_of_refuses`).

`Draft.History` goes through a sequence of calls in this way and keeps what each of them has asked
for. So the content of a draft is what its history says (`History.directives_eq`), and snapshots
stay as they were taken (`getElem?_frozen_run`).
-/

namespace XmlScript

/-! ## Legal texts -/

/-- A text has a character in it that no script can carry. -/
def Literal.HasIllegal (text : String) : Prop := ∃ c ∈ text.toList, isLegal c = false

open Literal (HasIllegal)

theorem Arg.exists_raw_eq_iff {text : String} : (∃ a : Arg, a.raw = text) ↔ ¬ HasIllegal text := by
  constructor
  · rintro ⟨a, rfl⟩ ⟨c, hc, hillegal⟩
    rw [a.legal c hc] at hillegal
    cases hillegal
  · intro h
    refine ⟨⟨text, fun c hc => ?_⟩, rfl⟩
    by_contra hillegal
    exact h ⟨c, hc, Bool.eq_false_iff.2 hillegal⟩

namespace Command

/-- The texts of a command, in the order in which they are written. -/
def texts {α : Type} : Command α → List α
  | remove | up | push | pop | expect _ => []
  | addElement a | ensureElement a | setText a | computeText a | addComment a | addCData a
  | setNamespace a | select a => [a]
  | setAttribute a b | computeAttribute a b | addInstruction a b => [a, b]

theorem texts_map {α β : Type} (f : α → β) (c : Command α) : (c.map f).texts = c.texts.map f := by
  cases c <;> rfl

/-- A command is what some directive says exactly when all its texts are legal. -/
theorem exists_plain_eq_iff {command : Command String} :
    (∃ directive : Directive, directive.plain = command) ↔
      ∀ text ∈ command.texts, ¬ HasIllegal text := by
  constructor
  · rintro ⟨directive, rfl⟩ text htext
    rw [Directive.plain, texts_map] at htext
    obtain ⟨a, -, rfl⟩ := List.mem_map.1 htext
    exact Arg.exists_raw_eq_iff.1 ⟨a, rfl⟩
  · intro h
    have hone {text : String} (ht : text ∈ command.texts) : ∃ a, Arg.ofText text = .ok a := by
      obtain ⟨a, ha⟩ := Arg.exists_raw_eq_iff.2 (h text ht)
      exact ⟨a, Arg.ofText_eq_ok_iff.2 ha⟩
    suffices hvalid : ∃ directive, command.validate = .ok directive by
      obtain ⟨directive, hdirective⟩ := hvalid
      exact ⟨directive, validate_eq_ok_iff.1 hdirective⟩
    cases command with
    | remove | up | push | pop | expect count => exact ⟨_, rfl⟩
    | addElement text | ensureElement text | setText text | computeText text | addComment text
    | addCData text | setNamespace text | select text =>
      obtain ⟨a, ha⟩ := hone (List.mem_cons_self ..)
      exact ⟨_, map_eq_ok_iff.2 ⟨a, ha, rfl⟩⟩
    | setAttribute first second | computeAttribute first second | addInstruction first second =>
      obtain ⟨a, ha⟩ := hone (List.mem_cons_self ..)
      obtain ⟨b, hb⟩ := hone (List.mem_cons_of_mem _ (List.mem_cons_self ..))
      exact ⟨_, bind_eq_ok_iff.2 ⟨a, ha, map_eq_ok_iff.2 ⟨b, hb, rfl⟩⟩⟩

end Command

namespace Draft

variable {d d' : Draft} {c : Call} {s : Script}

/-! ## Single calls -/

/-- The directives that add a child for each entry. -/
def mapScript (entries : List (Arg × Arg)) : Script :=
  entries.flatMap fun entry => [.addElement entry.1, .setText entry.2, .up]

/-- A call asks for directives, none if it only takes a snapshot. -/
inductive Asks (d : Draft) : Call → Script → Prop
  | command (directive : Directive) : Asks d (.command directive.plain) [directive]
  | addMap (entries : List (Arg × Arg)) :
    Asks d (.addMap (entries.map fun entry => (entry.1.raw, entry.2.raw))) (mapScript entries)
  | append (s : Script) : Asks d (.append s) s
  | appendText {source : String} {s : Script} (h : Script.parse source = .ok s) :
    Asks d (.appendText source) s
  | appendFrozen {index : Nat} {s : Script} (h : d.frozen[index]? = some s) :
    Asks d (.appendFrozen index) s
  | double : Asks d .double d.directives
  | freeze : Asks d .freeze []

/-- What is wrong with a call. -/
inductive Refuses (d : Draft) : Call → Prop
  | command {command : Command String} {text : String} (h : text ∈ command.texts)
    (hillegal : HasIllegal text) : Refuses d (.command command)
  | addMap {entries : List (String × String)} {entry : String × String} (h : entry ∈ entries)
    (hillegal : HasIllegal entry.1 ∨ HasIllegal entry.2) : Refuses d (.addMap entries)
  | appendText {source : String} {e : SyntaxError} (h : Script.parse source = .error e) :
    Refuses d (.appendText source)
  | appendFrozen {index : Nat} (h : d.frozen[index]? = none) : Refuses d (.appendFrozen index)
  | thaw {index : Nat} (h : d.frozen[index]? = none) : Refuses d (.thaw index)

theorem plain_mapScript (entries : List (Arg × Arg)) : (mapScript entries).map Directive.plain =
    mapCommands (entries.map fun entry => (entry.1.raw, entry.2.raw)) := by
  rw [mapScript, mapCommands, List.map_flatMap, List.flatMap_map]
  rfl

/-- Entries whose keys and values are legal are those of some arguments. -/
theorem exists_mapScript {entries : List (String × String)}
    (h : ∀ entry ∈ entries, ¬ HasIllegal entry.1 ∧ ¬ HasIllegal entry.2) :
    ∃ arguments : List (Arg × Arg),
      arguments.map (fun entry => (entry.1.raw, entry.2.raw)) = entries := by
  induction entries with
  | nil => exact ⟨[], rfl⟩
  | cons entry rest ih =>
    obtain ⟨hkey, hvalue⟩ := h entry (List.mem_cons_self ..)
    obtain ⟨key, hkey⟩ := Arg.exists_raw_eq_iff.2 hkey
    obtain ⟨value, hvalue⟩ := Arg.exists_raw_eq_iff.2 hvalue
    obtain ⟨arguments, hrest⟩ := ih fun e he => h e (List.mem_cons_of_mem _ he)
    exact ⟨(key, value) :: arguments, by rw [List.map_cons, hrest, hkey, hvalue]⟩

/-- A call asks for something, starts again, or is refused. -/
theorem asks_or_refuses (d : Draft) (c : Call) : (∃ s, d.Asks c s) ∨ d.Refuses c ∨
    ∃ index s, c = .thaw index ∧ d.frozen[index]? = some s := by
  cases c with
  | command command =>
    by_cases h : ∀ text ∈ command.texts, ¬ HasIllegal text
    · obtain ⟨directive, rfl⟩ := Command.exists_plain_eq_iff.2 h
      exact Or.inl ⟨_, .command directive⟩
    · push Not at h
      obtain ⟨text, htext, hillegal⟩ := h
      exact Or.inr (Or.inl (.command htext hillegal))
  | addMap entries =>
    by_cases h : ∀ entry ∈ entries, ¬ HasIllegal entry.1 ∧ ¬ HasIllegal entry.2
    · obtain ⟨arguments, rfl⟩ := exists_mapScript h
      exact Or.inl ⟨_, .addMap arguments⟩
    · push Not at h
      obtain ⟨entry, hentry, hillegal⟩ := h
      refine Or.inr (Or.inl (.addMap hentry ?_))
      by_cases hkey : HasIllegal entry.1
      · exact Or.inl hkey
      · exact Or.inr (hillegal hkey)
  | append s => exact Or.inl ⟨s, .append s⟩
  | appendText source =>
    cases h : Script.parse source with
    | ok s => exact Or.inl ⟨s, .appendText h⟩
    | error e => exact Or.inr (Or.inl (.appendText h))
  | appendFrozen index =>
    cases h : d.frozen[index]? with
    | some s => exact Or.inl ⟨s, .appendFrozen h⟩
    | none => exact Or.inr (Or.inl (.appendFrozen h))
  | double => exact Or.inl ⟨_, .double⟩
  | freeze => exact Or.inl ⟨_, .freeze⟩
  | thaw index =>
    cases h : d.frozen[index]? with
    | some s => exact Or.inr (Or.inr ⟨index, s, rfl, h⟩)
    | none => exact Or.inr (Or.inl (.thaw h))

/-- What a call asks for is appended, and only a snapshot that is taken is more than that. -/
theorem call_of_asks (h : d.Asks c s) : d.call c = .ok
    { directives := d.directives ++ s,
      frozen := if c = .freeze then d.frozen ++ [d.directives] else d.frozen } := by
  cases h with
  | command directive =>
    rw [call, Command.validate_eq_ok_iff.2 rfl]
    rfl
  | addMap entries =>
    rw [call, mapM_validate_eq_ok_iff.2 (plain_mapScript entries)]
    rfl
  | append s | double => rfl
  | appendText h =>
    rw [call, h]
    rfl
  | appendFrozen h =>
    rw [call, h]
    rfl
  | freeze =>
    rw [call, List.append_nil]
    rfl

theorem call_of_refuses (h : d.Refuses c) : ∃ refusal, d.call c = .error refusal := by
  cases h with
  | @command command text htext hillegal =>
    cases hvalid : command.validate with
    | ok directive =>
      have hlegal := Command.exists_plain_eq_iff.1 ⟨_, Command.validate_eq_ok_iff.1 hvalid⟩
      exact absurd hillegal (hlegal text htext)
    | error e =>
      rw [call, hvalid]
      exact ⟨_, rfl⟩
  | @addMap entries entry hentry hillegal =>
    cases hvalid : (mapCommands entries).mapM Command.validate with
    | ok script =>
      -- the directives of the entry have its key and value in them
      have hplain := mapM_validate_eq_ok_iff.1 hvalid
      have hlegal {command : Command String} (hc : command ∈ mapCommands entries) :
          ∀ text ∈ command.texts, ¬ HasIllegal text := by
        obtain ⟨directive, -, hd⟩ := List.mem_map.1 (hplain ▸ hc)
        exact Command.exists_plain_eq_iff.1 ⟨directive, hd⟩
      have hkey : .addElement entry.1 ∈ mapCommands entries :=
        List.mem_flatMap.2 ⟨entry, hentry, List.mem_cons_self ..⟩
      have hvalue : .setText entry.2 ∈ mapCommands entries :=
        List.mem_flatMap.2 ⟨entry, hentry, List.mem_cons_of_mem _ (List.mem_cons_self ..)⟩
      rcases hillegal with hillegal | hillegal
      · exact absurd hillegal (hlegal hkey _ (List.mem_singleton_self _))
      · exact absurd hillegal (hlegal hvalue _ (List.mem_singleton_self _))
    | error e =>
      rw [call, hvalid]
      exact ⟨_, rfl⟩
  | appendText h =>
    rw [call, h]
    exact ⟨_, rfl⟩
  | appendFrozen h | thaw h =>
    rw [call, h]
    exact ⟨_, rfl⟩

theorem call_thaw {index : Nat} (h : d.frozen[index]? = some s) :
    d.call (.thaw index) = .ok { d with directives := s } := by
  rw [call, h]

theorem exists_refusal_iff : (∃ refusal, d.call c = .error refusal) ↔ d.Refuses c := by
  refine ⟨fun ⟨refusal, h⟩ => ?_, call_of_refuses⟩
  rcases asks_or_refuses d c with ⟨s, hs⟩ | hrefuses | ⟨index, s, rfl, hs⟩
  · rw [call_of_asks hs] at h
    cases h
  · exact hrefuses
  · rw [call_thaw hs] at h
    cases h

/-! ## Sequences of calls -/

theorem run_append (d : Draft) (a b : List Call) : d.run (a ++ b) = (d.run a).run b :=
  List.foldl_append

theorem run_single_of_ok (h : d.call c = .ok d') : d.run [c] = d' := by
  show (d.call c).toOption.getD d = d'
  rw [h]
  rfl

theorem run_single_of_refuses (h : d.Refuses c) : d.run [c] = d := by
  obtain ⟨refusal, hcall⟩ := call_of_refuses h
  show (d.call c).toOption.getD d = d
  rw [hcall]
  rfl

/-- What has become of a sequence of calls on a new draft: `base` is the snapshot that the draft was
last started from, if there is one, and `parts` is what the calls since have asked for, in their
order. A call that is refused has no part. -/
inductive History : List Call → (base : Script) → (parts : List Script) → Prop
  | new : History [] [] []
  | granted {calls : List Call} {base : Script} {parts : List Script} {c : Call} {s : Script}
    (h : History calls base parts) (hs : (run {} calls).Asks c s) :
    History (calls ++ [c]) base (parts ++ [s])
  | refused {calls : List Call} {base : Script} {parts : List Script} {c : Call}
    (h : History calls base parts) (hc : (run {} calls).Refuses c) :
    History (calls ++ [c]) base parts
  | thawed {calls : List Call} {base : Script} {parts : List Script} {index : Nat} {s : Script}
    (h : History calls base parts) (hs : (run {} calls).frozen[index]? = some s) :
    History (calls ++ [.thaw index]) s []

namespace History

variable {calls : List Call} {base : Script} {parts : List Script}

/-- Every sequence of calls has a history. -/
theorem exists_history (calls : List Call) : ∃ base parts, History calls base parts := by
  induction calls using List.reverseRecOn with
  | nil => exact ⟨[], [], .new⟩
  | append_singleton calls c ih =>
    obtain ⟨base, parts, h⟩ := ih
    rcases asks_or_refuses (run {} calls) c with ⟨s, hs⟩ | hrefuses | ⟨index, s, rfl, hs⟩
    · exact ⟨_, _, h.granted hs⟩
    · exact ⟨_, _, h.refused hrefuses⟩
    · exact ⟨_, _, h.thawed hs⟩

/-- A draft holds what its history says. -/
theorem directives_eq (h : History calls base parts) :
    (run {} calls).directives = base ++ parts.flatten := by
  induction h with
  | new => rfl
  | granted _ hs ih =>
    rw [run_append, run_single_of_ok (call_of_asks hs), ih, List.flatten_append,
      List.flatten_singleton, List.append_assoc]
  | refused _ hc ih => rw [run_append, run_single_of_refuses hc, ih]
  | thawed _ hs => rw [run_append, run_single_of_ok (call_thaw hs), List.flatten_nil,
      List.append_nil]

/-- A draft that was never started again has begun with nothing. -/
theorem base_eq_nil (h : History calls base parts) (hnone : ∀ index, .thaw index ∉ calls) :
    base = [] := by
  induction h with
  | new => rfl
  | granted _ _ ih | refused _ _ ih =>
    exact ih fun index hmem => hnone index (List.mem_append_left _ hmem)
  | @thawed calls base parts index s _ _ =>
    exact absurd (List.mem_append_right _ (List.mem_singleton_self _)) (hnone index)

end History

/-- One call takes a snapshot of what the draft holds, or none. -/
theorem frozen_run_single (d : Draft) (c : Call) : (d.run [c]).frozen =
    if c = .freeze then d.frozen ++ [d.directives] else d.frozen := by
  rcases asks_or_refuses d c with ⟨s, hs⟩ | hrefuses | ⟨index, s, rfl, hs⟩
  · rw [run_single_of_ok (call_of_asks hs)]
  · have hne : c ≠ .freeze := by
      rintro rfl
      cases hrefuses
    rw [run_single_of_refuses hrefuses, if_neg hne]
  · rw [run_single_of_ok (call_thaw hs), if_neg nofun]

/-- Snapshots are only added, one for each time that one is taken. -/
theorem frozen_run (d : Draft) (calls : List Call) : ∃ taken : List Script,
    (d.run calls).frozen = d.frozen ++ taken ∧ taken.length = calls.count .freeze := by
  induction calls generalizing d with
  | nil => exact ⟨[], (List.append_nil _).symm, rfl⟩
  | cons c rest ih =>
    obtain ⟨taken, htaken, hlength⟩ := ih (d.run [c])
    rw [← List.singleton_append, run_append, htaken, frozen_run_single]
    by_cases hc : c = .freeze
    · rw [if_pos hc, hc]
      refine ⟨d.directives :: taken, List.append_assoc .., ?_⟩
      rw [List.length_cons, hlength]
      exact List.count_cons_self.symm
    · rw [if_neg hc]
      exact ⟨taken, rfl, by rw [hlength, List.singleton_append, List.count_cons_of_ne hc]⟩

/-- A snapshot is what the draft held when it was taken, whatever is done afterwards. -/
theorem getElem?_frozen_run (before after : List Call) :
    (run {} (before ++ .freeze :: after)).frozen[before.count .freeze]? =
      some (run {} before).directives := by
  obtain ⟨taken, htaken, hlength⟩ := frozen_run {} before
  obtain ⟨later, hlater, -⟩ := frozen_run ((run {} before).run [.freeze]) after
  have hnumber : (run {} before).frozen.length = before.count .freeze := by
    rw [htaken, ← hlength]
    rfl
  rw [← List.singleton_append, run_append, run_append, hlater, frozen_run_single, if_pos rfl,
    List.append_assoc, ← hnumber, List.getElem?_append_right (Nat.le_refl _), Nat.sub_self]
  rfl

/-- After any sequence of calls a draft holds, one behind the other, what the calls that were
granted have asked for, since it was last started from a snapshot. A call is refused for an illegal
character in any of its texts, for a source that cannot be read or for a snapshot that is not there,
and then it changes nothing at all. Snapshots stay what the draft held when they were taken, and at
every moment the text of the draft is read as what a snapshot would be. -/
theorem append_only_log (calls : List Call) :
    let d := run {} calls
    (∃ base parts, History calls base parts ∧ d.directives = base ++ parts.flatten ∧
      ((∀ index, .thaw index ∉ calls) → base = [])) ∧
    (∀ c, (∃ refusal, d.call c = .error refusal) ↔ d.Refuses c) ∧
    (∀ c, d.Refuses c → run {} (calls ++ [c]) = d) ∧
    d.frozen.length = calls.count .freeze ∧
    (∀ before after, calls = before ++ .freeze :: after →
      d.frozen[before.count .freeze]? = some (run {} before).directives) ∧
    d.call .freeze = .ok { d with frozen := d.frozen ++ [d.directives] } ∧
    Script.parse d.text = .ok d.directives := by
  intro d
  obtain ⟨base, parts, h⟩ := History.exists_history calls
  refine ⟨⟨base, parts, h, h.directives_eq, h.base_eq_nil⟩, fun c => exists_refusal_iff,
    fun c hc => ?_, ?_, fun before after hsplit => ?_, rfl, Script.parse_canonical_eq _⟩
  · rw [run_append, run_single_of_refuses hc]
  · obtain ⟨taken, htaken, hlength⟩ := frozen_run {} calls
    rw [htaken, ← hlength]
    rfl
  · subst hsplit
    exact getElem?_frozen_run before after

/-- A draft is appended to itself behind a snapshot of it, and then refuses entries the last of
which has an illegal character in its value. -/
theorem append_only_log_late_refusal :
    let early : List Call := [.command (.addElement "a"), .addMap [("b", "1")]]
    let calls := early ++ .freeze :: [.double]
    let late : Call := .addMap [("c", "2"), ("d", "\x01")]
    (∃ parts, History calls [] parts ∧ (run {} calls).directives = parts.flatten) ∧
      (run {} calls).directives.length = 8 ∧
      (∃ refusal, (run {} calls).call late = .error refusal) ∧
      run {} (calls ++ [late]) = run {} calls ∧
      (run {} calls).frozen[0]? = some (run {} early).directives ∧
      (run {} early).directives.length = 4 := by
  intro early calls late
  obtain ⟨⟨base, parts, hhistory, hholds, hbase⟩, hrefusals, hnothing, -, hfrozen, -⟩ :=
    append_only_log calls
  have hlate : (run {} calls).Refuses late :=
    .addMap (List.mem_cons_of_mem _ (List.mem_singleton_self _))
      (Or.inr ⟨'\x01', by decide, by decide⟩)
  obtain rfl := hbase fun index => by simp [calls, early]
  exact ⟨⟨parts, hhistory, hholds⟩, by decide +kernel, (hrefusals late).2 hlate,
    hnothing late hlate, hfrozen early [.double] rfl, by decide +kernel⟩

end Draft

end XmlScript
