import XmlScript.Proofs.Token
import XmlScript.Proofs.Trim
import XmlScript.Script.Parser

/-!
# Statements by position

A report names the statement around a place of the source. Here that is said in bytes, as
somebody would say it who has the source and its tokens with their offsets: the statement around a
position begins behind the last semicolon that ends at or before the position, and ends before the
first one that starts at or behind it (`Lexing.statementRange`).

The parser knows no offsets, since its lexemes carry their part of the source. `Lexing.Parts` is
the same statement in lexemes: what stands before it, what is inside, what is behind. The range, the
text in it (`statementText_eq`) and its first token (`leadingToken?_eq`) follow from the parts.
-/

namespace XmlScript

namespace Text

/-! ## Texts between two offsets -/

/-- A text without its first `n` bytes. -/
def dropBytes : Nat → List Char → List Char
  | _, [] => []
  | n, c :: rest => if n = 0 then c :: rest else dropBytes (n - c.utf8Size) rest

/-- The first `n` bytes of a text. -/
def takeBytes : Nat → List Char → List Char
  | _, [] => []
  | n, c :: rest => if n = 0 then [] else c :: takeBytes (n - c.utf8Size) rest

/-- The part of a text between two byte offsets. -/
def slice (s : List Char) (start stop : Nat) : List Char :=
  takeBytes (stop - start) (dropBytes start s)

theorem dropBytes_append (a b : List Char) : dropBytes (byteCount a) (a ++ b) = b := by
  induction a with
  | nil => cases b <;> rfl
  | cons c rest ih =>
    have hpos := c.utf8Size_pos
    rw [byteCount, List.cons_append, dropBytes, if_neg (by omega), Nat.add_sub_cancel_left, ih]

theorem takeBytes_append (a b : List Char) : takeBytes (byteCount a) (a ++ b) = a := by
  induction a with
  | nil => cases b <;> rfl
  | cons c rest ih =>
    have hpos := c.utf8Size_pos
    rw [byteCount, List.cons_append, takeBytes, if_neg (by omega), Nat.add_sub_cancel_left, ih]

theorem slice_append (a b c : List Char) :
    slice (a ++ (b ++ c)) (byteCount a) (byteCount a + byteCount b) = b := by
  rw [slice, dropBytes_append, Nat.add_sub_cancel_left, takeBytes_append]

theorem byteCount_pos {s : List Char} (h : s ≠ []) : 0 < byteCount s := by
  cases s with
  | nil => exact absurd rfl h
  | cons c rest =>
    have hpos := c.utf8Size_pos
    rw [byteCount]
    omega

end Text

namespace Lexeme

/-! ## Offsets of lexemes -/

/-- How many bytes lexemes take up. -/
def bytes (xs : List Lexeme) : Nat := Text.byteCount (xs.flatMap source)

theorem bytes_cons (x : Lexeme) (xs : List Lexeme) :
    bytes (x :: xs) = Text.byteCount x.gap + Text.byteCount x.text + bytes xs := by
  rw [bytes, List.flatMap_cons, Text.byteCount_append, source, Text.byteCount_append, bytes]

theorem bytes_append (xs ys : List Lexeme) : bytes (xs ++ ys) = bytes xs + bytes ys := by
  rw [bytes, List.flatMap_append, Text.byteCount_append, bytes, bytes]

/-- The tokens of lexemes with the offsets between which they stand, when the blanks of the first
one begin at `offset`. -/
def placedFrom (offset : Nat) (xs : List Lexeme) : List (Option Token × Nat × Nat) :=
  (xs.map (·.token?)).zip (Lexing.spans.go offset xs)

theorem placedFrom_cons (offset : Nat) (x : Lexeme) (xs : List Lexeme) :
    placedFrom offset (x :: xs) =
      (x.token?, offset + Text.byteCount x.gap,
        offset + Text.byteCount x.gap + Text.byteCount x.text) ::
        placedFrom (offset + Text.byteCount x.gap + Text.byteCount x.text) xs := rfl

theorem placedFrom_append (offset : Nat) (xs ys : List Lexeme) :
    placedFrom offset (xs ++ ys) = placedFrom offset xs ++ placedFrom (offset + bytes xs) ys := by
  induction xs generalizing offset with
  | nil => rfl
  | cons x xs ih =>
    rw [List.cons_append, placedFrom_cons, placedFrom_cons, ih, List.cons_append, bytes_cons]
    simp only [Nat.add_assoc]

/-- A lexeme as scanning gives it: blanks before a text that starts with none. -/
structure Proper (x : Lexeme) : Prop where
  gap : ∀ c ∈ x.gap, Token.isGap c = true
  text : ∃ c rest, x.text = c :: rest ∧ Token.isGap c = false

theorem Proper.byteCount_pos {x : Lexeme} (h : x.Proper) : 0 < Text.byteCount x.text := by
  obtain ⟨c, rest, ht, -⟩ := h.text
  exact Text.byteCount_pos (by rw [ht]; simp)

/-- Every lexeme stands within what all of them take up, and none is empty. -/
theorem placedFrom_bounds {offset : Nat} {xs : List Lexeme} (hx : ∀ x ∈ xs, x.Proper) :
    ∀ p ∈ placedFrom offset xs, offset ≤ p.2.1 ∧ p.2.1 < p.2.2 ∧ p.2.2 ≤ offset + bytes xs := by
  induction xs generalizing offset with
  | nil => intro p hp; cases hp
  | cons x xs ih =>
    intro p hp
    have hpos := (hx x (List.mem_cons_self ..)).byteCount_pos
    rw [bytes_cons]
    rcases List.mem_cons.mp (placedFrom_cons offset x xs ▸ hp) with rfl | hp
    · simp only
      omega
    · obtain ⟨h₁, h₂, h₃⟩ := ih (fun y hy => hx y (List.mem_cons_of_mem _ hy)) p hp
      omega

/-- Every lexeme ends behind the start of the first one. -/
theorem head_lt_of_mem_placedFrom {offset : Nat} {x : Lexeme} {xs : List Lexeme}
    (hx : ∀ y ∈ x :: xs, y.Proper) :
    ∀ p ∈ placedFrom offset (x :: xs), offset + Text.byteCount x.gap < p.2.2 := by
  intro p hp
  have hpos := (hx x (List.mem_cons_self ..)).byteCount_pos
  rcases List.mem_cons.mp (placedFrom_cons offset x xs ▸ hp) with rfl | hp
  · simp only
    omega
  · have hb := placedFrom_bounds (fun y hy => hx y (List.mem_cons_of_mem _ hy)) p hp
    omega

theorem length_placedFrom (offset : Nat) (xs : List Lexeme) :
    (placedFrom offset xs).length = xs.length := by
  induction xs generalizing offset with
  | nil => rfl
  | cons x xs ih => rw [placedFrom_cons, List.length_cons, List.length_cons, ih]

/-- The first token that is no ordinal is found among the lexemes as well as among their places. -/
theorem find?_placedFrom (offset : Nat) (xs : List Lexeme) :
    ((placedFrom offset xs).find? (·.1 != some .ordinal)).bind (·.1) =
      (xs.find? (·.token? != some .ordinal)).bind (·.token?) := by
  induction xs generalizing offset with
  | nil => rfl
  | cons x xs ih =>
    rw [placedFrom_cons]
    by_cases hx : (x.token? != some .ordinal) = true
    · rw [List.find?_cons_of_pos (by exact hx), List.find?_cons_of_pos (by exact hx)]
      rfl
    · rw [List.find?_cons_of_neg (by exact hx), List.find?_cons_of_neg (by exact hx), ih]

end Lexeme

/-- A lexing as scanning gives it. -/
structure Lexing.Proper (l : Lexing) : Prop where
  lexemes : ∀ x ∈ l.lexemes, x.Proper
  tail : ∀ c ∈ l.tail, Token.isGap c = true

theorem proper_scan (s : List Char) : (scan s).Proper := by
  refine ⟨?_, isGap_tail_scan s⟩
  fun_induction scan s with
  | case1 s h => intro x hx; cases hx
  | case2 s c rest h x l ih =>
    intro y hy
    rcases List.mem_cons.mp hy with rfl | hy
    · have hgap := Lexeme.gap_read (s.takeWhile Token.isGap) c rest
      have hhead := Lexeme.head?_text_read (s.takeWhile Token.isGap) c rest
      refine ⟨?_, ?_⟩
      · intro d hd
        rw [hgap] at hd
        exact List.mem_takeWhile_imp hd
      · obtain ⟨text, ht⟩ := List.head?_eq_some_iff.1 hhead
        exact ⟨c, text, ht, (Token.split_gap h).2⟩
    · exact ih y hy

theorem Token.isSpace_of_isGap {c : Char} (h : isGap c = true) : Text.isSpace c = true := by
  rcases eq_of_isGap h with rfl | rfl | rfl | rfl | rfl <;> decide

namespace Lexing

/-! ## The statement around a position -/

/-- The tokens of a source with the byte offsets between which they stand; none stands for a
fault. -/
def placed (l : Lexing) : List (Option Token × Nat × Nat) := l.tokens.zip l.spans

/-- Where token number `k` starts, and where the source ends when there is none. -/
def startOf (l : Lexing) (k : Nat) : Nat := (l.placed[k]?).elim (Text.byteCount l.source) (·.2.1)

/-- Where the semicolons stand that are tokens. -/
def semicolons (l : Lexing) : List (Nat × Nat) :=
  (l.placed.filter fun p => p.1 == some .semicolon).map (·.2)

/-- The last semicolon that ends at or before a position. -/
def semicolonBefore? (l : Lexing) (position : Nat) : Option (Nat × Nat) :=
  (l.semicolons.filter (·.2 ≤ position)).getLast?

/-- Where the statement around a position begins and ends: behind the last semicolon that ends at
or before the position, and before the first one that starts at or behind it. -/
def statementRange (l : Lexing) (position : Nat) : Nat × Nat :=
  ((l.semicolonBefore? position).elim 0 (·.2),
    (l.semicolons.find? (position ≤ ·.1)).elim (Text.byteCount l.source) (·.1))

/-- The trimmed source of the statement around a position. -/
def statementText (l : Lexing) (position : Nat) : String :=
  let range := l.statementRange position
  String.ofList (Text.trim (Text.slice l.source range.1 range.2))

/-- The first token between two offsets that is no ordinal. -/
def leadingToken? (l : Lexing) (range : Nat × Nat) : Option Token :=
  ((l.placed.filter fun p => range.1 ≤ p.2.1 ∧ p.2.2 ≤ range.2).find?
    (·.1 != some .ordinal)).bind (·.1)

/-- The lexemes of a source around a statement, which begins behind a semicolon and ends before one
or has the ends of the source for these. -/
structure Parts (l : Lexing) (front inside back : List Lexeme) : Prop where
  split : l.lexemes = front ++ (inside ++ back)
  front : ∀ x ∈ front.getLast?, x.isSemicolon = true
  inside : ∀ x ∈ inside, x.isSemicolon = false
  back : ∀ x ∈ back.head?, x.isSemicolon = true

theorem placed_eq {l : Lexing} {xs ys : List Lexeme} (h : l.lexemes = xs ++ ys) :
    l.placed = Lexeme.placedFrom 0 xs ++ Lexeme.placedFrom (Lexeme.bytes xs) ys := by
  show Lexeme.placedFrom 0 l.lexemes = _
  rw [h, Lexeme.placedFrom_append, Nat.zero_add]

theorem startOf_eq {l : Lexing} {seen stuck : List Lexeme} (h : l.lexemes = seen ++ stuck) :
    l.startOf seen.length = stuck.head?.elim (Text.byteCount l.source)
      fun x => Lexeme.bytes seen + Text.byteCount x.gap := by
  have hlength := Lexeme.length_placedFrom 0 seen
  rw [startOf, placed_eq h, List.getElem?_append_right (by omega), hlength, Nat.sub_self]
  cases stuck <;> rfl

/-! ## Semicolons -/

/-- Where the semicolons among lexemes stand. -/
def semicolonsFrom (offset : Nat) (xs : List Lexeme) : List (Nat × Nat) :=
  ((Lexeme.placedFrom offset xs).filter fun p => p.1 == some .semicolon).map (·.2)

theorem semicolonsFrom_append (offset : Nat) (xs ys : List Lexeme) :
    semicolonsFrom offset (xs ++ ys) =
      semicolonsFrom offset xs ++ semicolonsFrom (offset + Lexeme.bytes xs) ys := by
  rw [semicolonsFrom, Lexeme.placedFrom_append, List.filter_append, List.map_append,
    semicolonsFrom, semicolonsFrom]

theorem semicolonsFrom_cons (offset : Nat) (x : Lexeme) (xs : List Lexeme) :
    semicolonsFrom offset (x :: xs) =
      if x.isSemicolon then
        (offset + Text.byteCount x.gap, offset + Text.byteCount x.gap + Text.byteCount x.text) ::
          semicolonsFrom (offset + Text.byteCount x.gap + Text.byteCount x.text) xs
      else semicolonsFrom (offset + Text.byteCount x.gap + Text.byteCount x.text) xs := by
  rw [semicolonsFrom, Lexeme.placedFrom_cons, List.filter_cons, apply_ite (List.map _)]
  rfl

theorem semicolonsFrom_eq_nil {xs : List Lexeme} (h : ∀ x ∈ xs, x.isSemicolon = false)
    (offset : Nat) : semicolonsFrom offset xs = [] := by
  induction xs generalizing offset with
  | nil => rfl
  | cons x xs ih =>
    rw [semicolonsFrom_cons, h x (List.mem_cons_self ..), if_neg Bool.false_ne_true]
    exact ih (fun y hy => h y (List.mem_cons_of_mem _ hy)) _

theorem semicolonsFrom_bounds {offset : Nat} {xs : List Lexeme} (hx : ∀ x ∈ xs, x.Proper) :
    ∀ p ∈ semicolonsFrom offset xs,
      offset ≤ p.1 ∧ p.1 < p.2 ∧ p.2 ≤ offset + Lexeme.bytes xs := by
  intro p hp
  obtain ⟨q, hq, rfl⟩ := List.mem_map.mp hp
  exact Lexeme.placedFrom_bounds hx q (List.mem_filter.mp hq).1

namespace Parts

variable {l : Lexing} {front inside back : List Lexeme} {position : Nat}

theorem semicolons_eq (hp : l.Parts front inside back) : l.semicolons =
    semicolonsFrom 0 front ++ semicolonsFrom (Lexeme.bytes (front ++ inside)) back := by
  show semicolonsFrom 0 l.lexemes = _
  rw [hp.split, ← List.append_assoc, semicolonsFrom_append, semicolonsFrom_append,
    semicolonsFrom_eq_nil hp.inside, List.append_nil, Nat.zero_add]

/-- A position in a statement: behind its front, and no further than the start of its back. -/
def Holds (front inside back : List Lexeme) (position : Nat) : Prop :=
  Lexeme.bytes front ≤ position ∧
    ∀ x ∈ back.head?, position ≤ Lexeme.bytes (front ++ inside) + Text.byteCount x.gap

theorem semicolonBefore?_eq (hp : l.Parts front inside back) (hl : l.Proper)
    (hpos : Holds front inside back position) :
    l.semicolonBefore? position = (semicolonsFrom 0 front).getLast? := by
  have hproper : ∀ x ∈ front ++ (inside ++ back), x.Proper := hp.split ▸ hl.lexemes
  have hfront : (semicolonsFrom 0 front).filter (fun p => decide (p.2 ≤ position)) =
      semicolonsFrom 0 front := by
    refine List.filter_eq_self.mpr fun p hmem => decide_eq_true ?_
    have hb := semicolonsFrom_bounds (fun x hx => hproper x (List.mem_append_left _ hx)) p hmem
    have := hpos.1
    omega
  have hback : (semicolonsFrom (Lexeme.bytes (front ++ inside)) back).filter
      (fun p => decide (p.2 ≤ position)) = [] := by
    refine List.filter_eq_nil_iff.mpr fun p hmem => ?_
    cases back with
    | nil => cases hmem
    | cons x rest =>
      obtain ⟨q, hq, rfl⟩ := List.mem_map.mp hmem
      have hlt := Lexeme.head_lt_of_mem_placedFrom (fun y hy => hproper y (by simp [hy])) q
        (List.mem_filter.mp hq).1
      have hle := hpos.2 x rfl
      rw [decide_eq_true_eq]
      omega
  rw [semicolonBefore?, hp.semicolons_eq, List.filter_append, hfront, hback, List.append_nil]

theorem find?_semicolons_eq (hp : l.Parts front inside back) (hl : l.Proper)
    (hpos : Holds front inside back position) :
    l.semicolons.find? (position ≤ ·.1) =
      (semicolonsFrom (Lexeme.bytes (front ++ inside)) back).head? := by
  have hproper : ∀ x ∈ front ++ (inside ++ back), x.Proper := hp.split ▸ hl.lexemes
  have hfront : (semicolonsFrom 0 front).find? (fun p => decide (position ≤ p.1)) = none := by
    refine List.find?_eq_none.mpr fun p hmem => ?_
    have hb := semicolonsFrom_bounds (fun x hx => hproper x (List.mem_append_left _ hx)) p hmem
    have := hpos.1
    rw [decide_eq_true_eq]
    omega
  rw [hp.semicolons_eq, List.find?_append, hfront, Option.none_or]
  cases back with
  | nil => rfl
  | cons x rest =>
    rw [semicolonsFrom_cons, hp.back x rfl, if_pos rfl, List.head?_cons, List.find?_cons_of_pos]
    exact decide_eq_true (hpos.2 x rfl)

/-! ## Parts and positions -/

/-- There is no semicolon before the first statement. -/
theorem semicolonBefore?_of_nil (hp : l.Parts [] inside back) (hl : l.Proper)
    (hpos : Holds [] inside back position) : l.semicolonBefore? position = none :=
  hp.semicolonBefore?_eq hl hpos

/-- The semicolon before any other statement is the last lexeme of its front. -/
theorem semicolonBefore?_of_concat {earlier : List Lexeme} {semi : Lexeme}
    (hp : l.Parts (earlier ++ [semi]) inside back) (hl : l.Proper)
    (hpos : Holds (earlier ++ [semi]) inside back position) :
    l.semicolonBefore? position =
      some (l.startOf earlier.length, Lexeme.bytes (earlier ++ [semi])) := by
  have hsplit : l.lexemes = earlier ++ semi :: (inside ++ back) := by
    rw [hp.split, List.append_assoc, List.singleton_append]
  have hstart := startOf_eq hsplit
  have hsemi := hp.front semi (by simp)
  rw [hp.semicolonBefore?_eq hl hpos, hstart, semicolonsFrom_append, semicolonsFrom_cons,
    if_pos hsemi, List.getLast?_append, Lexeme.bytes_append, Lexeme.bytes_cons, Nat.zero_add,
    Nat.add_assoc]
  rfl

theorem statementRange_eq (hp : l.Parts front inside back) (hl : l.Proper)
    (hpos : Holds front inside back position) : l.statementRange position =
      (Lexeme.bytes front, back.head?.elim (Text.byteCount l.source)
        fun x => Lexeme.bytes (front ++ inside) + Text.byteCount x.gap) := by
  rw [statementRange, hp.find?_semicolons_eq hl hpos]
  congr 1
  · rcases List.eq_nil_or_concat front with rfl | ⟨earlier, semi, rfl⟩
    · rw [hp.semicolonBefore?_of_nil hl hpos]
      rfl
    · rw [List.concat_eq_append] at hp hpos ⊢
      rw [hp.semicolonBefore?_of_concat hl hpos]
      rfl
  · cases back with
    | nil => rfl
    | cons x rest =>
      rw [semicolonsFrom_cons, hp.back x rfl, if_pos rfl]
      rfl

theorem le_stop (hp : l.Parts front inside back) : Lexeme.bytes (front ++ inside) ≤
    back.head?.elim (Text.byteCount l.source)
      fun x => Lexeme.bytes (front ++ inside) + Text.byteCount x.gap := by
  cases back with
  | nil =>
    have hsplit := hp.split
    rw [List.append_nil] at hsplit
    rw [List.head?_nil, Option.elim_none, source, hsplit, Text.byteCount_append]
    exact Nat.le_add_right ..
  | cons x rest => exact Nat.le_add_right ..

/-- In the range of a statement stand its lexemes, and blanks behind them. -/
theorem exists_slice_eq (hp : l.Parts front inside back) (hl : l.Proper)
    (hpos : Holds front inside back position) : ∃ blanks, (∀ c ∈ blanks, Token.isGap c = true) ∧
      Text.slice l.source (l.statementRange position).1 (l.statementRange position).2 =
        inside.flatMap Lexeme.source ++ blanks := by
  rw [hp.statementRange_eq hl hpos]
  have hsource : l.source = front.flatMap Lexeme.source ++
      (inside.flatMap Lexeme.source ++ (back.flatMap Lexeme.source ++ l.tail)) := by
    rw [source, hp.split, List.flatMap_append, List.flatMap_append, List.append_assoc,
      List.append_assoc]
  cases back with
  | nil =>
    refine ⟨l.tail, hl.tail, ?_⟩
    have h := Text.slice_append (front.flatMap Lexeme.source)
      (inside.flatMap Lexeme.source ++ l.tail) []
    rw [List.append_nil, ← Text.byteCount_append] at h
    rw [List.flatMap_nil, List.nil_append] at hsource
    rw [hsource]
    exact h
  | cons x rest =>
    have hx : x ∈ l.lexemes := by rw [hp.split]; simp
    refine ⟨x.gap, (hl.lexemes x hx).gap, ?_⟩
    have h := Text.slice_append (front.flatMap Lexeme.source)
      (inside.flatMap Lexeme.source ++ x.gap) (x.text ++ (rest.flatMap Lexeme.source ++ l.tail))
    have hparts : l.source = front.flatMap Lexeme.source ++ (inside.flatMap Lexeme.source ++ x.gap ++
        (x.text ++ (rest.flatMap Lexeme.source ++ l.tail))) := by
      rw [hsource, List.flatMap_cons, Lexeme.source]
      simp only [List.append_assoc]
    rw [hparts]
    rw [Text.byteCount_append, ← Nat.add_assoc] at h
    rw [List.head?_cons, Option.elim_some, Lexeme.bytes_append]
    exact h

/-- The text of a statement is the trimmed source of its lexemes. -/
theorem statementText_eq (hp : l.Parts front inside back) (hl : l.Proper)
    (hpos : Holds front inside back position) :
    l.statementText position = Script.fragment inside := by
  obtain ⟨blanks, hblanks, hslice⟩ := hp.exists_slice_eq hl hpos
  have htrim := Text.trim_append_spaces
    (fun c hc => Token.isSpace_of_isGap (hblanks c hc)) (inside.flatMap Lexeme.source)
  rw [statementText, Script.fragment, hslice, htrim]

/-- The tokens in the range of a statement are those of its lexemes. -/
theorem leadingToken?_eq (hp : l.Parts front inside back) (hl : l.Proper)
    (hpos : Holds front inside back position) :
    l.leadingToken? (l.statementRange position) =
      (inside.find? (·.token? != some .ordinal)).bind (·.token?) := by
  have hproper : ∀ x ∈ front ++ (inside ++ back), x.Proper := hp.split ▸ hl.lexemes
  have hplaced : l.placed = Lexeme.placedFrom 0 front ++
      (Lexeme.placedFrom (Lexeme.bytes front) inside ++
        Lexeme.placedFrom (Lexeme.bytes (front ++ inside)) back) := by
    rw [placed_eq hp.split, Lexeme.placedFrom_append, Lexeme.bytes_append]
  have hfront : (Lexeme.placedFrom 0 front).filter (fun p =>
      (l.statementRange position).1 ≤ p.2.1 ∧ p.2.2 ≤ (l.statementRange position).2) = [] := by
    refine List.filter_eq_nil_iff.mpr fun p hmem => ?_
    have hb := Lexeme.placedFrom_bounds (fun x hx => hproper x (List.mem_append_left _ hx)) p hmem
    rw [hp.statementRange_eq hl hpos, decide_eq_true_eq]
    simp only
    omega
  have hinside : (Lexeme.placedFrom (Lexeme.bytes front) inside).filter (fun p =>
      (l.statementRange position).1 ≤ p.2.1 ∧ p.2.2 ≤ (l.statementRange position).2) =
        Lexeme.placedFrom (Lexeme.bytes front) inside := by
    refine List.filter_eq_self.mpr fun p hmem => ?_
    have hb := Lexeme.placedFrom_bounds (fun x hx => hproper x (by simp [hx])) p hmem
    have hstop := hp.le_stop
    have hbytes := Lexeme.bytes_append front inside
    rw [hp.statementRange_eq hl hpos, decide_eq_true_eq]
    simp only
    omega
  have hback : (Lexeme.placedFrom (Lexeme.bytes (front ++ inside)) back).filter (fun p =>
      (l.statementRange position).1 ≤ p.2.1 ∧ p.2.2 ≤ (l.statementRange position).2) = [] := by
    refine List.filter_eq_nil_iff.mpr fun p hmem => ?_
    cases back with
    | nil => cases hmem
    | cons x rest =>
      have hlt := Lexeme.head_lt_of_mem_placedFrom (fun y hy => hproper y (by simp [hy])) p hmem
      rw [hp.statementRange_eq hl hpos, decide_eq_true_eq, List.head?_cons, Option.elim_some]
      simp only
      omega
  rw [leadingToken?, hplaced, List.filter_append, List.filter_append, hfront, hinside, hback,
    List.nil_append, List.append_nil, Lexeme.find?_placedFrom]

end Parts

/-! ## The parts around a lexeme -/

/-- Lexemes part at their last semicolon. -/
theorem exists_front (seen : List Lexeme) : ∃ front, seen = front ++ Script.openStatement seen ∧
    (∀ x ∈ front.getLast?, x.isSemicolon = true) ∧
    ∀ x ∈ Script.openStatement seen, x.isSemicolon = false := by
  refine ⟨(seen.reverse.dropWhile (!·.isSemicolon)).reverse, ?_, ?_, ?_⟩
  · rw [Script.openStatement, ← List.reverse_append, List.takeWhile_append_dropWhile,
      List.reverse_reverse]
  · intro x hx
    have hhead := List.head?_dropWhile_not (!Lexeme.isSemicolon ·) seen.reverse
    rw [List.getLast?_reverse] at hx
    rw [hx] at hhead
    simpa using hhead
  · intro x hx
    have hx := List.mem_takeWhile_imp (List.mem_reverse.mp hx)
    simpa using hx

/-- The statement around a lexeme, or around the end of a source: it begins with what is open
before that place, and goes on up to a semicolon. -/
theorem parts_around {l : Lexing} {seen stuck : List Lexeme} (h : l.lexemes = seen ++ stuck) :
    ∃ front, seen = front ++ Script.openStatement seen ∧
      l.Parts front (Script.openStatement seen ++ stuck.takeWhile (!·.isSemicolon))
        (stuck.dropWhile (!·.isSemicolon)) ∧
      Parts.Holds front (Script.openStatement seen ++ stuck.takeWhile (!·.isSemicolon))
        (stuck.dropWhile (!·.isSemicolon)) (l.startOf seen.length) := by
  obtain ⟨front, hseen, hfront, hopen⟩ := exists_front seen
  have hstuck := List.takeWhile_append_dropWhile (p := fun x : Lexeme => !x.isSemicolon) (l := stuck)
  refine ⟨front, hseen, ⟨?_, hfront, ?_, ?_⟩, ?_, ?_⟩
  · rw [List.append_assoc, hstuck, ← List.append_assoc, ← hseen, h]
  · intro x hx
    rcases List.mem_append.mp hx with hx | hx
    · exact hopen x hx
    · simpa using List.mem_takeWhile_imp hx
  · intro x hx
    have hhead := List.head?_dropWhile_not (!Lexeme.isSemicolon ·) stuck
    rw [hx] at hhead
    simpa using hhead
  · have hbytes := congrArg Lexeme.bytes hseen
    rw [Lexeme.bytes_append] at hbytes
    rw [startOf_eq h]
    cases stuck with
    | nil =>
      rw [List.head?_nil, Option.elim_none, source, Text.byteCount_append, h, List.append_nil]
      have htotal : Lexeme.bytes seen = Text.byteCount (seen.flatMap Lexeme.source) := rfl
      omega
    | cons y rest =>
      rw [List.head?_cons, Option.elim_some]
      omega
  · intro x hx
    rw [startOf_eq h, ← List.append_assoc, ← hseen]
    cases stuck with
    | nil => cases hx
    | cons y rest =>
      rw [List.head?_cons, Option.elim_some]
      by_cases hy : y.isSemicolon = true
      · rw [List.dropWhile_cons_of_neg (by simp [hy])] at hx
        cases hx
        rw [Lexeme.bytes_append]
        omega
      · rw [List.takeWhile_cons_of_pos (by simp [hy]), Lexeme.bytes_append, Lexeme.bytes_cons]
        omega

end Lexing

end XmlScript
