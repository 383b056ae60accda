import XmlScript.Query.Eval
import XmlScript.Proofs.Except

/-!
# The query for the text of a node

`string(.)` is followed through all that is done with a query: it is divided into tokens, which make
a call with one step for its argument, and the call answers with the string value of the node that
the query is asked at (`evaluateText_string`), in every document.
-/

namespace XmlScript.Query

/-- The tokens at the start of a text, and then those of what is left. -/
theorem scanFrom_of_readTokens {previous? : Option Token} {s : List Char} (tokens : List Token)
    (rest : List Char)
    (h : readTokens previous? (s.dropWhile Text.isMarkupBlank) = some (tokens, rest))
    (hlt : rest.length < s.length) :
    scanFrom previous? s = tokens ++ scanFrom tokens.getLast? rest := by
  have hne : s.isEmpty = false := by
    cases s with
    | nil => exact absurd hlt (Nat.not_lt_zero _)
    | cons => rfl
  rw [scanFrom, hne]
  simp only [Bool.false_eq_true, if_false, h, if_pos hlt]

theorem scan_string : scan "string(.)" =
    [.function ⟨none, "string"⟩, .leftParen, .axis .self, .test .node, .rightParen] := by
  unfold scan
  rw [scanFrom_of_readTokens [.function ⟨none, "string"⟩] ['(', '.', ')'] (by decide +kernel)
      (by decide),
    scanFrom_of_readTokens [.leftParen] ['.', ')'] (by decide +kernel) (by decide),
    scanFrom_of_readTokens [.axis .self, .test .node] [')'] (by decide +kernel) (by decide),
    scanFrom_of_readTokens [.rightParen] [] (by decide +kernel) (by decide), scanFrom]
  rfl

set_option maxRecDepth 2000 in
theorem parse_string : parse "string(.)" =
    .ok (.call ⟨none, "string"⟩ [.step .context .self .node []]) := by
  unfold parse
  rw [scan_string]
  -- every reader is entered once for the call, and once more for its argument
  simp [readLevel, readMore, readSigned, readPath, readSteps, readMoreSteps, readStep,
    readPredicates, readFilter, readPrimary, readPlain, readArguments, readMoreArguments, readAxis,
    readTest, signLevel, pathLevel, tail?, expect, Reading.map, Reading.widen, Reading.nothing,
    Except.bind, Except.map]

/-- The step from a node to itself. -/
theorem eval_self (d : Document) (focus : Focus) :
    eval d focus (.step .context .self .node []) = .ok (.nodes [focus.node]) := by
  have hcandidates : candidates d focus.node .self .node = .ok [focus.node] := rfl
  have hmapM : ([focus.node].mapM fun n =>
      (candidates d n .self .node).bind (keepAll d [])) = .ok [[focus.node]] := by
    rw [mapM_cons_eq, hcandidates]
    simp only [Except.bind, keepAll]
    rfl
  simp only [eval, Except.bind, nodesOf] at hmapM ⊢
  rw [hmapM]
  rfl

theorem evaluateText_string (n : Node) (d : Document) :
    evaluateText "string(.)" n d = .ok (d.stringValue n) := by
  have hname : functionNamed ⟨none, "string"⟩ = .ok .string := by decide +kernel
  have harguments : evalAll d ⟨n, 1, 1⟩ [.step .context .self .node []] = .ok [.nodes [n]] := by
    rw [evalAll, eval_self]
    rfl
  unfold evaluateText evaluate
  rw [parse_string]
  simp only [Except.mapError, Except.bind, Except.map, eval, hname, harguments]
  rfl

end XmlScript.Query
