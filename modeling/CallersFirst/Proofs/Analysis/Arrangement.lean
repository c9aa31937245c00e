import CallersFirst.Proofs.Analysis
import CallersFirst.Proofs.Extraction.Ends

/-! The arrangement behind the splice of a scope, and where that splice starts and stops. -/

namespace CallersFirst

/-- What holds of units whatever they call holds of those a graph keeps and of those it leaves out. -/
theorem CallGraph.forall_build {units : List CallableUnit} {motive : CallableUnit → Prop}
    (ignoresCalls : ∀ unit : CallableUnit, motive unit.withoutCalls ↔ motive unit)
    (holds : ∀ unit ∈ units, motive unit) :
    (∀ unit ∈ (build units).units, motive unit) ∧ ∀ unit ∈ (build units).rejected, motive unit := by
  constructor
  · -- A unit that is kept differs from the original in its calls only.
    intro unit kept
    obtain ⟨original, member, same⟩ := List.mem_map.1
      ((map_withoutCalls_build units).subset (List.mem_map_of_mem kept))
    rw [← ignoresCalls unit, ← same, ignoresCalls]
    exact holds original member
  · exact fun unit rejected => holds unit ((laterUses_sublist [] units).subset rejected)

namespace Scope

section Framed

variable {source : Text} {scope : Scope}

/-- What holds of extracted units whatever they call holds of them with their calls. -/
theorem forall_resolvedUnits {motive : CallableUnit → Prop}
    (ignoresCalls : ∀ unit : CallableUnit, motive unit.withoutCalls ↔ motive unit)
    (holds : ∀ extracted ∈ scope.extract source, motive extracted.unit) :
    ∀ unit ∈ scope.resolvedUnits source, motive unit := by
  intro unit resolved
  -- Resolving only adds calls, so without them the unit is one of the extracted ones.
  have listed : unit.withoutCalls ∈ (scope.extract source).map (·.unit.withoutCalls) := by
    rw [← map_withoutCalls_resolvedUnits]
    exact List.mem_map_of_mem resolved
  obtain ⟨extracted, member, same⟩ := List.mem_map.1 listed
  rw [← ignoresCalls unit, ← same, ignoresCalls]
  exact holds extracted member

/-- Where a unit starts and stops has nothing to do with its calls. -/
theorem frames_withoutCalls_iff {unit : CallableUnit} :
    scope.Frames source unit.withoutCalls ↔ scope.Frames source unit :=
  -- Neither condition reads the calls.
  ⟨fun ⟨starts, stops⟩ => ⟨starts, stops⟩, fun ⟨starts, stops⟩ => ⟨starts, stops⟩⟩

/-- Every unit that takes part in the analysis starts with a child and stops where a definition does. -/
theorem frames_of_mem_units {unit : CallableUnit} (member : unit ∈ (scope.analyze source).graph.units) :
    scope.Frames source unit := by
  have resolved := forall_resolvedUnits (fun _ => frames_withoutCalls_iff) (scope.frames_of_extract source)
  exact (CallGraph.forall_build (fun _ => frames_withoutCalls_iff) resolved).1 unit member

end Framed

end Scope

/-- The units of a scope as they stand, and as they are to stand. -/
def ScopeAnalysis.arrangement (analysis : ScopeAnalysis) : Arrangement :=
  ⟨analysis.graph.units, analysis.graph.listedAs analysis.order⟩

namespace Scope

section Splice

variable {source : Text} {scope : Scope} {splice : Splice}

/-- The units of a well-formed scope, and the same units in readable order, are a sound arrangement. -/
theorem arrangement_isSound (wellFormed : scope.node.IsWellFormed source) :
    (scope.analyze source).arrangement.IsSound source ∧
      (scope.analyze source).arrangement.target.map (·.name) = (scope.analyze source).order := by
  obtain ⟨holds, apart⟩ := analyze_spec wellFormed
  have consistent := CallGraph.isConsistent_build (scope.resolvedUnits source)
  -- The readable order has every name once.
  have listed := CallGraph.readableOrder_perm consistent
  exact ⟨⟨fun unit member => (holds unit member).placed, apart, CallGraph.listedAs_perm consistent listed⟩,
    CallGraph.map_name_listedAs consistent fun name => listed.mem_iff.1⟩

/-- What is planned for a well-formed scope is what its arrangement asks for. -/
theorem planned_eq (wellFormed : scope.node.IsWellFormed source) :
    (scope.analyze source).planned = (scope.analyze source).arrangement.splice? source := by
  obtain ⟨⟨placed, apart, perm⟩, named⟩ := arrangement_isSound wellFormed
  by_cases empty : (scope.analyze source).graph.units = []
  · -- Without units there is nothing to plan, and nothing to arrange.
    have same : (scope.analyze source).arrangement.target = (scope.analyze source).arrangement.source := by
      rw [show (scope.analyze source).arrangement.source = [] from empty] at perm ⊢
      exact perm.eq_nil
    rw [Arrangement.splice?, if_pos (by rw [same])]
    change plan source (scope.analyze source).graph.units (scope.analyze source).order = _
    rw [empty]
    rfl
  · -- The units are in source order already, and each of them is listed once.
    have sorted := inSourceOrder_eq_self placed apart
    have distinct := (CallGraph.isConsistent_build (scope.resolvedUnits source)).distinct
    have arranged : arrange source (scope.analyze source).graph.units (scope.analyze source).order =
        .ok (scope.analyze source).arrangement :=
      arrange_eq_ok_iff.2 ⟨placed, sorted.symm ▸ apart, sorted.symm, distinct, perm, named⟩
    change plan source (scope.analyze source).graph.units (scope.analyze source).order = _
    rw [plan_eq empty, arranged]
    rfl

/-- The splice of a well-formed scope is that of its units, put into readable order. -/
theorem splice_eq_of_analyze (wellFormed : scope.node.IsWellFormed source)
    (planned : (scope.analyze source).planned = .ok (some splice)) :
    (scope.analyze source).arrangement.source ≠ [] ∧
      splice = (scope.analyze source).arrangement.splice source := by
  constructor
  · -- Without units nothing is planned.
    intro empty
    change plan source (scope.analyze source).graph.units (scope.analyze source).order = _ at planned
    rw [show (scope.analyze source).graph.units = [] from empty] at planned
    cases planned
  · rw [planned_eq wellFormed] at planned
    rcases Arrangement.splice?_cases (scope.analyze source).arrangement source with none | found | ⟨name, refused⟩
    · rw [none] at planned
      cases planned
    · rw [found] at planned
      cases planned
      rfl
    · rw [refused] at planned
      cases planned

/-- A splice lies inside its scope, and stops no later than some child that is no semicolon. -/
theorem spans_of_analyze (wellFormed : scope.node.IsWellFormed source)
    (planned : (scope.analyze source).planned = .ok (some splice)) : scope.node.Spans splice.span := by
  obtain ⟨some_unit, rfl⟩ := splice_eq_of_analyze wellFormed planned
  obtain ⟨⟨first, isFirst, starts⟩, last, isLast, stops⟩ := Arrangement.block_ends some_unit
  have holds := (analyze_spec wellFormed).1
  constructor
  · -- The first unit starts inside the scope.
    rw [show ((scope.analyze source).arrangement.splice source).span.start = first.fullStart from starts]
    exact (holds first isFirst).starts_inside
  · -- The last unit stops within the child that defines it, which is no semicolon.
    obtain ⟨child, isChild, definition, defined, stop⟩ := (frames_of_mem_units isLast).stops
    refine ⟨child, isChild, ?_, ?_⟩
    · by_contra semicolon
      have filler : child.isFiller := by simp_all [Node.isFiller]
      rw [Node.definition?_eq_none_of_isFiller filler] at defined
      cases defined
    · obtain ⟨part, inChild, partStops⟩ := Node.definition?_stop defined
      have inside := (wellFormed.of_mem (Node.mem_preorder_of_mem_children isChild)).span_inside inChild
      rw [show ((scope.analyze source).arrangement.splice source).span.stop = last.span.stop from stops]
      omega

/--
The ends of a splice fall into no splice of a scope nested inside.

The inner scope must not declare anything itself, lest the end of a unit be looked for inside of it.
-/
theorem isUncutAt_of_analyze (wellFormed : scope.node.IsWellFormed source)
    (planned : (scope.analyze source).planned = .ok (some splice)) {inner : Node} {span : Span}
    (below : inner.IsBelow scope.node) (undeclared : inner.child? .declaration = none)
    (spans : inner.Spans span) :
    span.IsUncutAt splice.span.start ∧ span.IsUncutAt splice.span.stop := by
  obtain ⟨some_unit, rfl⟩ := splice_eq_of_analyze wellFormed planned
  obtain ⟨⟨first, isFirst, starts⟩, last, isLast, stops⟩ := Arrangement.block_ends some_unit
  obtain ⟨child, isChild, inChild⟩ := Node.isBelow_iff.1 below
  have formed := wellFormed.of_mem (Node.mem_preorder_of_mem_children isChild)
  have inside := formed.span_inside inChild
  have stopInside := spans.stop_le (formed inner inChild)
  have startInside := spans.starts
  constructor
  · -- The splice starts with a child, which is the one that holds the inner scope or stands apart.
    obtain ⟨lead, isLead, start⟩ := (frames_of_mem_units isFirst).starts
    rw [show ((scope.analyze source).arrangement.splice source).span.start = lead.span.start from
      starts.trans start]
    by_cases same : child = lead
    · exact .inr (by rw [← same]; omega)
    · have ordered := (wellFormed.of_mem (Node.mem_preorder_of_mem_children isLead)).isPlaced.fits.ordered
      rcases wellFormed.isPlaced.children_apart isChild isLead same with before | behind
      · exact .inl (by omega)
      · exact .inr (by omega)
  · -- It stops within the child that defines its last unit.
    obtain ⟨defining, isDefining, definition, defined, stop⟩ := (frames_of_mem_units isLast).stops
    rw [show ((scope.analyze source).arrangement.splice source).span.stop = definition.span.stop from
      stops.trans stop]
    by_cases same : child = defining
    · subst same
      rcases Node.definition?_stop_cases defined with whole | cut
      · exact .inl (by omega)
      · rw [cut]
        exact Node.isUncutAt_statementStop formed inChild undeclared spans
    · obtain ⟨part, inDefining, partStops⟩ := Node.definition?_stop defined
      have definingFormed := wellFormed.of_mem (Node.mem_preorder_of_mem_children isDefining)
      have partInside := definingFormed.span_inside inDefining
      have partOrdered := (definingFormed part inDefining).fits.ordered
      rw [partStops]
      rcases wellFormed.isPlaced.children_apart isChild isDefining same with before | behind
      · exact .inl (by omega)
      · exact .inr (by omega)

end Splice

end Scope

end CallersFirst
