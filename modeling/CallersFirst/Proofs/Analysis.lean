import CallersFirst.Analysis
import CallersFirst.Proofs.Arrangement.Weave
import CallersFirst.Proofs.CallGraph.Order
import CallersFirst.Proofs.Extraction

/-! The analysis of a well-formed tree: where its units lie, and what its splices do to the text. -/

namespace CallersFirst

namespace CallableUnit

/-- The same unit with no calls recorded. -/
def withoutCalls (unit : CallableUnit) : CallableUnit :=
  { unit with calls := [] }

/-- Recording a call changes nothing else. -/
@[simp] theorem withoutCalls_addCall (unit : CallableUnit) (callee : String) :
    (unit.addCall callee).withoutCalls = unit.withoutCalls := by
  -- A call that is known already changes nothing, and a new one only the list of calls.
  unfold addCall
  split <;> rfl

/-- Recording calls changes nothing else. -/
theorem withoutCalls_foldl_addCall (callees : List String) (unit : CallableUnit) :
    (callees.foldl addCall unit).withoutCalls = unit.withoutCalls := by
  induction callees generalizing unit with
  | nil => rfl
  | cons callee rest ih => rw [List.foldl_cons, ih, withoutCalls_addCall]

end CallableUnit

/-- A graph keeps some of the units, in the same order and except for their calls as they were. -/
theorem CallGraph.map_withoutCalls_build (units : List CallableUnit) :
    ((CallGraph.build units).units.map (·.withoutCalls)).Sublist (units.map (·.withoutCalls)) := by
  -- The graph filters the calls of the units it keeps, which no longer shows here.
  simp only [CallGraph.build, List.map_map]
  exact (firstUses_sublist [] units).map (·.withoutCalls)

/-- Whether a unit lies in a scope does not depend on its calls. -/
theorem Scope.holds_withoutCalls_iff {source : Text} {scope : Scope} {unit : CallableUnit} :
    scope.Holds source unit.withoutCalls ↔ scope.Holds source unit := by
  -- All four conditions read the span and the comments only.
  constructor
  · rintro ⟨⟨fits, commentsFit, apart, before⟩, starts, stops, ends⟩
    exact ⟨⟨fits, commentsFit, apart, before⟩, starts, stops, ends⟩
  · rintro ⟨⟨fits, commentsFit, apart, before⟩, starts, stops, ends⟩
    exact ⟨⟨fits, commentsFit, apart, before⟩, starts, stops, ends⟩

namespace Scope

section Units

variable {source : Text} {scope : Scope}

/-- Resolution finds the calls of the extracted units and changes nothing else. -/
theorem map_withoutCalls_resolvedUnits (source : Text) (scope : Scope) :
    (scope.resolvedUnits source).map (·.withoutCalls) =
      (scope.extract source).map (·.unit.withoutCalls) := by
  -- Every extracted unit is resolved at its own place in the list.
  simp only [resolvedUnits, List.map_map]
  exact List.map_congr_left fun extracted _ => CallableUnit.withoutCalls_foldl_addCall _ _

/-- The units that take part in the analysis are extracted ones, in the same order. -/
theorem map_withoutCalls_analyze (source : Text) (scope : Scope) :
    ((scope.analyze source).graph.units.map (·.withoutCalls)).Sublist
      ((scope.extract source).map (·.unit.withoutCalls)) := by
  rw [← map_withoutCalls_resolvedUnits]
  exact CallGraph.map_withoutCalls_build _

/-- The units that take part in the analysis of a well-formed scope lie in it, in order and apart. -/
theorem analyze_spec (wellFormed : scope.node.IsWellFormed source) :
    (∀ unit ∈ (scope.analyze source).graph.units, scope.Holds source unit) ∧
      (scope.analyze source).graph.units.Pairwise fun earlier later =>
        earlier.span.stop ≤ later.fullStart := by
  -- Whatever holds of the extracted units and does not depend on calls holds of those kept.
  obtain ⟨holds, apart⟩ := scope.extract_spec wellFormed
  have kept := scope.map_withoutCalls_analyze source
  constructor
  · intro unit member
    obtain ⟨extracted, found, same⟩ := List.mem_map.1 (kept.subset (List.mem_map_of_mem member))
    exact holds_withoutCalls_iff.1 (same ▸ holds_withoutCalls_iff.2 (holds extracted found))
  · -- Neither the end of a unit nor its start depends on its calls.
    have apart : ((scope.extract source).map (·.unit.withoutCalls)).Pairwise fun earlier later =>
        earlier.span.stop ≤ later.fullStart := List.pairwise_map.2 apart
    exact List.pairwise_map.1 (apart.sublist kept)

/-- A scope that is well-formed is refused only for an unterminated unit. -/
theorem unterminated_of_analyze (wellFormed : scope.node.IsWellFormed source) {refusal : ArrangeError}
    (refused : (scope.analyze source).planned = .error refusal) :
    ∃ name, refusal = .unterminatedUnit name := by
  -- The graph tells its units apart by name, and the readable order lists each of them once.
  obtain ⟨holds, apart⟩ := analyze_spec wellFormed
  have consistent := CallGraph.isConsistent_build (scope.resolvedUnits source)
  exact unterminated_of_plan (fun unit member => (holds unit member).placed) apart consistent.distinct
    (CallGraph.readableOrder_perm consistent) refused

/-- A splice planned for a well-formed scope keeps the ink of the text. -/
theorem keepsInk_of_analyze (wellFormed : scope.node.IsWellFormed source) (filled : scope.node.PartsFilled)
    {splice : Splice} (planned : (scope.analyze source).planned = .ok (some splice)) :
    splice.KeepsInk source ∧ splice.span.start < splice.span.stop := by
  obtain ⟨keeps, unit, member, starts, stops⟩ := keepsInk_of_plan planned
  -- The splice covers a unit, which covers the last part of itself.
  obtain ⟨child, isChild, part, inChild, partStarts, partStops⟩ :=
    ((analyze_spec wellFormed).1 unit member).ends
  have := filled.filled isChild inChild
  exact ⟨keeps, by omega⟩

end Units

/--
The units of every scope of a well-formed tree lie in the scope, in order and apart.

So the only reason not to put them in readable order is a unit that would run into the next one.
-/
theorem analyze_discovered {source : Text} {options : OrderingSettings} {tree : SyntaxTree} {scope : Scope}
    (wellFormed : tree.root.IsWellFormed source)
    (found : scope ∈ Scope.discover source options tree.root) :
    (∀ unit ∈ (scope.analyze source).graph.units, unit.IsPlaced source ∧
      scope.node.span.start ≤ unit.fullSpan.start ∧ unit.fullSpan.stop ≤ scope.node.span.stop) ∧
    (scope.analyze source).graph.units.Pairwise (fun earlier later =>
      earlier.fullSpan.stop ≤ later.fullSpan.start) ∧
    ∀ refusal, (scope.analyze source).planned = .error refusal →
      ∃ name, refusal = .unterminatedUnit name := by
  -- A scope is a node of the tree, and so well-formed itself.
  have formed := wellFormed.of_mem (node_mem_preorder found)
  obtain ⟨holds, apart⟩ := analyze_spec formed
  refine ⟨fun unit member => ?_, apart, fun refusal => unterminated_of_analyze formed⟩
  exact ⟨(holds unit member).placed, (holds unit member).starts_inside, (holds unit member).stops_inside⟩

end Scope

/-! Two functions on one line, the callee first. -/

namespace Sample

/-- A token. -/
def token (kind : String) (start stop : Nat) : Node :=
  ⟨kind, false, ⟨start, stop⟩, none, []⟩

/-- A name of one letter. -/
def identifier (field : Field) (start : Nat) : Node :=
  ⟨"identifier", true, ⟨start, start + 1⟩, some field, []⟩

/-- An empty pair of parentheses. -/
def parentheses (kind : String) (start : Nat) : Node :=
  ⟨kind, true, ⟨start, start + 2⟩, none, [token "(" start (start + 1), token ")" (start + 1) (start + 2)]⟩

/-- The body of a function. -/
def body (start stop : Nat) (statements : List Node) : Node :=
  ⟨"statement_block", true, ⟨start, stop⟩, some .body,
    [token "\x7b" start (start + 1)] ++ statements ++ [token "\x7d" (stop - 1) stop]⟩

/-- A function without parameters. -/
def declaration (start stop : Nat) (statements : List Node) : Node :=
  ⟨"function_declaration", true, ⟨start, stop⟩, none,
    [token "function" start (start + 8), identifier .name (start + 9),
      parentheses "formal_parameters" (start + 10), body (start + 12) stop statements]⟩

/-- A call without arguments. -/
def call (start : Nat) : Node :=
  ⟨"expression_statement", true, ⟨start, start + 3⟩, none,
    [⟨"call_expression", true, ⟨start, start + 3⟩, none,
      [identifier .function start, parentheses "arguments" (start + 1)]⟩]⟩

/-- The text. -/
def source : Text :=
  "function b()\x7b\x7dfunction a()\x7bb()\x7d\n".toList

/-- The tree of the text. -/
def tree : SyntaxTree :=
  ⟨⟨"program", true, ⟨0, 32⟩, none, [declaration 0 14 [], declaration 14 31 [call 27]]⟩, false⟩

/-- The only scope of the tree. -/
def scope : Scope :=
  ⟨.program, tree.root, none⟩

/-- The callee. -/
def callee : CallableUnit :=
  ⟨"b", .declaration, ⟨0, 14⟩, [], []⟩

/-- The caller. -/
def caller : CallableUnit :=
  ⟨"a", .declaration, ⟨14, 31⟩, [], ["b"]⟩

/-- A function declaration outside of classes defines its function. -/
theorem definition?_declaration (source : Text) {kind : ScopeKind} (outside : kind ≠ .classBody)
    (start stop : Nat) (statements : List Node) :
    (declaration start stop statements).definition? source kind =
      some ⟨String.ofList (source.slice (start + 9) (start + 10)), .declaration, ⟨start, stop⟩,
        some (body (start + 12) stop statements)⟩ := by
  rw [Node.definition?, if_neg outside, Node.statementDefinition?]
  rfl

/-- The units of the only scope are the two functions. -/
theorem resolvedUnits_scope : scope.resolvedUnits source = [callee, caller] := by
  -- Both statements declare a function, so that the search for definitions need not go deeper.
  have outside : ScopeKind.program ≠ .classBody := by decide
  have extracted : scope.extract source =
      [⟨{ callee with calls := [] }, [body 12 14 []]⟩,
        ⟨{ caller with calls := [] }, [body 26 31 [call 27]]⟩] := by
    simp only [Scope.extract, scope, tree, Extraction.scan, definition?_declaration source outside]
    rfl
  rw [Scope.resolvedUnits, extracted]
  rfl

end Sample

/-- The two functions of the sample lie apart in its only scope. -/
theorem Scope.analyze_discovered_sample :
    (Sample.scope.analyze Sample.source).graph.units = [Sample.callee, Sample.caller] ∧
    (Sample.scope.analyze Sample.source).graph.units.Pairwise (fun earlier later =>
      earlier.fullSpan.stop ≤ later.fullSpan.start) := by
  have wellFormed : Sample.tree.root.IsWellFormed Sample.source := by decide +kernel
  have found : Sample.scope ∈ Scope.discover Sample.source {} Sample.tree.root := List.mem_cons_self ..
  refine ⟨?_, (Scope.analyze_discovered wellFormed found).2.1⟩
  rw [Scope.analyze, Sample.resolvedUnits_scope]
  decide

section Reorder

variable {source result : Text} {options : OrderingSettings} {tree : SyntaxTree}

/-- A scope has a splice exactly if one was planned. -/
theorem ScopeAnalysis.splice?_eq_some_iff {analysis : ScopeAnalysis} {splice : Splice} :
    analysis.splice? = some splice ↔ analysis.planned = .ok (some splice) := by
  -- A refusal counts as no splice.
  unfold ScopeAnalysis.splice?
  split
  · rename_i planned found
    rw [found, Except.ok.injEq]
  · rename_i refusal found
    simp [found]

/-- Every splice found in a well-formed tree with filled parts keeps the ink of the text. -/
theorem keepsInk_of_analyzeTree (wellFormed : tree.root.IsWellFormed source)
    (filled : tree.root.PartsFilled) {splice : Splice}
    (found : splice ∈ (analyzeTree source options tree).filterMap (·.splice?)) :
    splice.KeepsInk source ∧ splice.span.start < splice.span.stop := by
  -- The splice comes from one scope, whose node inherits all that is known about the tree.
  obtain ⟨analysis, analyzed, asked⟩ := List.mem_filterMap.1 found
  obtain ⟨scope, discovered, rfl⟩ := List.mem_map.1 analyzed
  have member := Scope.node_mem_preorder discovered
  exact Scope.keepsInk_of_analyze (wellFormed.of_mem member) (filled.of_mem member)
    (ScopeAnalysis.splice?_eq_some_iff.1 asked)

/-- One round over a well-formed tree with filled parts keeps the ink of the text. -/
theorem ink_reorder (wellFormed : tree.root.IsWellFormed source) (filled : tree.root.PartsFilled)
    (changed : (reorder source options tree).newText = some result) : result.ink = source.ink := by
  simp only [reorder] at changed
  split at changed
  · cases changed
  · -- The accepted splices stand apart, so that each keeps the ink no matter which were made before.
    obtain ⟨part, _, apart⟩ := Splice.accepted_spec [] ((analyzeTree source options tree).filterMap (·.splice?))
    have keeps : ∀ splice ∈ Splice.accepted [] ((analyzeTree source options tree).filterMap (·.splice?)),
        splice.KeepsInk source ∧ splice.span.start < splice.span.stop :=
      fun splice member => keepsInk_of_analyzeTree wellFormed filled (part.subset member)
    -- Made from back to front, each splice stops before all that were made earlier.
    have backToFront := Splice.pairwise_backToFront apart fun splice member => (keeps splice member).2
    refine Splice.ink_applyAll? backToFront (fun splice member => (keeps splice ?_).1) changed
    exact (List.mergeSort_perm _ _).mem_iff.1 member

end Reorder

end CallersFirst
