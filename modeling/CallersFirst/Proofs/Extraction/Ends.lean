import CallersFirst.Proofs.Extraction
import CallersFirst.Proofs.SyntaxTree.Nesting

/-! Where extracted units start and stop: never inside what a node nested in their scope asks for. -/

namespace CallersFirst

/-- A span inside a node that stops no later than some child of it other than a lone semicolon. -/
structure Node.Spans (node : Node) (span : Span) : Prop where
  /-- The span starts inside the node. -/
  starts : node.span.start ≤ span.start
  /-- The span stops with or before a child that is no semicolon. -/
  stops : ∃ child ∈ node.children, child.isSemicolon = false ∧ span.stop ≤ child.span.stop

namespace Node

section Cut

variable {source : Text} {node inner : Node} {span : Span}

/-- A span inside a node stops no later than the node. -/
theorem Spans.stop_le (spans : inner.Spans span) (placed : inner.IsPlaced source) :
    span.stop ≤ inner.span.stop := by
  obtain ⟨child, isChild, _, stops⟩ := spans.stops
  have inside := placed.inside child isChild
  omega

/-- A semicolon that is cut off a statement takes nothing of the scopes inside the statement with it. -/
theorem isUncutAt_ownStop (wellFormed : node.IsWellFormed source) (member : inner ∈ node.preorder)
    (spans : inner.Spans span) : span.IsUncutAt (statementStop.ownStop source node) := by
  have innerInside := wellFormed.span_inside member
  have stopInside := spans.stop_le (wellFormed inner member)
  have starts := spans.starts
  -- Unless a semicolon is cut off, the statement stops where its node does.
  have whole : span.IsUncutAt node.span.stop := .inl (by omega)
  unfold statementStop.ownStop
  split
  · rename_i last before others shape
    split
    · rename_i cutOff
      simp only [Bool.and_eq_true] at cutOff
      -- The children other than the semicolon stop with or before the one in front of it.
      have children : node.children = others.reverse ++ [before, last] := by
        rw [← List.reverse_reverse node.children, shape]
        simp
      have apart := wellFormed.isPlaced.apart
      rw [children, List.pairwise_append] at apart
      obtain ⟨_, lastTwo, earlier⟩ := apart
      have ordered : before.span.stop ≤ last.span.start := by simpa using lastTwo
      have beforeFits := (wellFormed.of_mem (mem_preorder_of_mem_children
        (show before ∈ node.children by simp [children]))).isPlaced.fits.ordered
      have upToBefore : ∀ child ∈ node.children, child = last ∨ child.span.stop ≤ before.span.stop := by
        intro child isChild
        rw [children, List.mem_append] at isChild
        rcases isChild with old | new
        · have := earlier child old before (by simp)
          exact .inr (by omega)
        · rcases List.mem_cons.1 new with rfl | new
          · exact .inr (Nat.le_refl _)
          · exact .inl (by simpa using new)
      rcases mem_preorder_iff.1 member with rfl | ⟨child, isChild, inChild⟩
      · -- The span belongs to the statement itself, and stops before the semicolon.
        obtain ⟨child, isChild, noSemicolon, stops⟩ := spans.stops
        rcases upToBefore child isChild with rfl | early
        · simp [cutOff.1] at noSemicolon
        · exact .inl (by omega)
      · have childFormed := wellFormed.of_mem (mem_preorder_of_mem_children isChild)
        have inside := childFormed.span_inside inChild
        rcases upToBefore child isChild with rfl | early
        · exact .inr (by omega)
        · exact .inl (by omega)
    · exact whole
  · exact whole

/--
Where a statement is cut off, no scope inside it is cut.

The search for the end goes down through declarations, so that a scope on its way must not declare
anything itself.
-/
theorem isUncutAt_statementStop (wellFormed : node.IsWellFormed source) (member : inner ∈ node.preorder)
    (undeclared : inner.child? .declaration = none) (spans : inner.Spans span) :
    span.IsUncutAt (node.statementStop source) := by
  fun_induction statementStop source node with
  | case1 node declaration found same ih =>
    have isDeclaration := mem_children_of_child? found
    have declarationFormed := wellFormed.of_mem (mem_preorder_of_mem_children isDeclaration)
    -- The inner node has no declaration of its own, so it is another one.
    rcases mem_preorder_iff.1 member with rfl | ⟨child, isChild, inChild⟩
    · rw [found] at undeclared
      cases undeclared
    by_cases isSame : child = declaration
    · subst isSame
      exact ih declarationFormed inChild
    · -- Another child lies before the declaration, or behind it without a byte of its own.
      have childFormed := wellFormed.of_mem (mem_preorder_of_mem_children isChild)
      have inside := childFormed.span_inside inChild
      have stopInside := spans.stop_le (childFormed inner inChild)
      have starts := spans.starts
      obtain ⟨part, inDeclaration, stops⟩ := statementStop_eq_stop source declaration
      have partInside := declarationFormed.span_inside inDeclaration
      have partOrdered := (declarationFormed part inDeclaration).fits.ordered
      rw [stops]
      rcases wellFormed.isPlaced.children_apart isChild isDeclaration isSame with before | behind
      · exact .inl (by omega)
      · exact .inr (by omega)
  | case2 node declaration found differs => exact isUncutAt_ownStop wellFormed member spans
  | case3 node missing => exact isUncutAt_ownStop wellFormed member spans

end Cut

end Node

namespace Extraction

/-- Every extracted unit has a property if each fresh one does and a partner does not take it away. -/
theorem forall_extract {source : Text} {scope : Scope} {motive : CallableUnit → Prop}
    (fresh : ∀ child preceding definition, IsPlaceIn scope child preceding →
      child.definition? source scope.kind = some definition →
      motive (unitAt source definition ⟨child, preceding⟩).unit)
    (paired : ∀ latest child preceding definition, motive latest.unit → IsPlaceIn scope child preceding →
      child.definition? source scope.kind = some definition → motive (withPartner latest definition).unit) :
    ∀ extracted ∈ scope.extract source, motive extracted.unit := by
  -- The scan keeps the property of what it has found, child after child.
  suffices scanned : ∀ (rest preceding : List Node) (found : List ExtractedUnit) (unpaired : Bool),
      preceding.reverse ++ rest = scope.node.children → (∀ extracted ∈ found, motive extracted.unit) →
      ∀ extracted ∈ scan source scope.kind preceding found unpaired rest, motive extracted.unit from
    scanned scope.node.children [] [] false (by simp) (by simp)
  intro rest
  induction rest with
  | nil =>
    intro preceding found unpaired _ holds extracted member
    rw [scan, List.mem_reverse] at member
    exact holds extracted member
  | cons child rest ih =>
    intro preceding found unpaired children holds
    have place : IsPlaceIn scope child preceding := ⟨rest, by rw [← children]; simp⟩
    have onward : (child :: preceding).reverse ++ rest = scope.node.children := by
      rw [← children]
      simp
    rw [scan]
    split
    · exact ih _ _ _ onward holds
    · rename_i definition defined
      have added : ∀ extracted ∈ unitAt source definition ⟨child, preceding⟩ :: found,
          motive extracted.unit :=
        List.forall_mem_cons.2 ⟨fresh child preceding definition place defined, holds⟩
      split
      · exact ih _ _ _ onward added
      · rename_i latest others
        dsimp only
        split
        · -- Only the latest unit changes, by the partner that the child defines.
          obtain ⟨known, othersHold⟩ := List.forall_mem_cons.1 holds
          exact ih _ _ _ onward (List.forall_mem_cons.2
            ⟨paired latest child preceding definition known place defined, othersHold⟩)
        · exact ih _ _ _ onward added

end Extraction

/-- A unit that starts with a child of its scope and stops where a child's definition does. -/
structure Scope.Frames (source : Text) (scope : Scope) (unit : CallableUnit) : Prop where
  /-- The unit, its comments included, starts with a child. -/
  starts : ∃ child ∈ scope.node.children, unit.fullStart = child.span.start
  /-- The unit stops where the definition in a child does. -/
  stops : ∃ child ∈ scope.node.children, ∃ definition,
    child.definition? source scope.kind = some definition ∧ unit.span.stop = definition.span.stop

/-- Every extracted unit starts with a child of its scope and stops where a child's definition does. -/
theorem Scope.frames_of_extract (source : Text) (scope : Scope) :
    ∀ extracted ∈ scope.extract source, scope.Frames source extracted.unit := by
  refine Extraction.forall_extract (fun child preceding definition place defined => ?_)
    (fun latest child preceding definition known place defined => ?_)
  · refine ⟨?_, child, place.mem_children child (List.mem_cons_self ..), definition, defined, rfl⟩
    -- The unit starts with the node found by looking back, or with a comment among the siblings.
    have looks := Extraction.leadIn_looksBack source scope.kind definition.name preceding
      ⟨child, preceding⟩ List.suffix_rfl
    rcases CallableUnit.fullStart_cases (Extraction.unitAt source definition ⟨child, preceding⟩).unit with
      same | ⟨comment, isComment, same⟩
    · have member := looks.suffix.subset (List.mem_cons_self ..)
      exact ⟨_, place.mem_children _ member, same⟩
    · have attached := (Extraction.attachedComments_within_freeRun source scope.kind _ _).subset
        (List.mem_reverse.1 isComment)
      obtain ⟨node, free, rfl⟩ := List.mem_map.1 attached
      have sibling := (Extraction.freeRun_within_siblings source scope.kind _).subset free
      have member := looks.suffix.subset (List.mem_cons_of_mem _ sibling)
      exact ⟨node, place.mem_children node member, same⟩
  · -- A partner leaves the start of the unit as it is.
    exact ⟨known.starts, child, place.mem_children child (List.mem_cons_self ..), definition, defined, rfl⟩

end CallersFirst
