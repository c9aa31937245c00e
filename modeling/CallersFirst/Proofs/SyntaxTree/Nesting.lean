import CallersFirst.Proofs.SyntaxTree
import Mathlib.Data.List.Pairwise

/-! Nodes of a well-formed tree are nested or stand apart, and its scopes are found from the outside in. -/

namespace CallersFirst

namespace Node

/-- A node that lies inside another and is not that node itself. -/
def IsBelow (inner outer : Node) : Prop :=
  inner ∈ preorderAll outer.children

/-- A node lies below another if it lies at or below one of its children. -/
theorem isBelow_iff {inner outer : Node} :
    inner.IsBelow outer ↔ ∃ child ∈ outer.children, inner ∈ child.preorder :=
  mem_preorderAll_iff

/-- A node that lies below another is one of the nodes of its tree. -/
theorem IsBelow.mem_preorder {inner outer : Node} (below : inner.IsBelow outer) :
    inner ∈ outer.preorder :=
  mem_preorder_iff.2 (.inr (isBelow_iff.1 below))

section Apart

variable {source : Text} {root : Node}

/-- Two different children of a placed node stand apart, whichever comes first. -/
theorem IsPlaced.children_apart (placed : root.IsPlaced source) {first second : Node}
    (isFirst : first ∈ root.children) (isSecond : second ∈ root.children) (differ : first ≠ second) :
    first.span.stop ≤ second.span.start ∨ second.span.stop ≤ first.span.start := by
  -- The order of the two children decides between the sides, and the disjunction forgets it.
  have either : root.children.Pairwise fun first second =>
      first.span.stop ≤ second.span.start ∨ second.span.stop ≤ first.span.start :=
    placed.apart.imp .inl
  have : Std.Symm fun first second : Node =>
      first.span.stop ≤ second.span.start ∨ second.span.stop ≤ first.span.start := ⟨fun _ _ => Or.symm⟩
  exact either.forall isFirst isSecond differ

/-- Of two nodes of a well-formed tree one lies inside the other, or they stand apart. -/
theorem IsWellFormed.nested_or_apart (wellFormed : root.IsWellFormed source) {first second : Node}
    (inFirst : first ∈ root.preorder) (inSecond : second ∈ root.preorder) :
    first ∈ second.preorder ∨ second ∈ first.preorder ∨
      first.span.stop ≤ second.span.start ∨ second.span.stop ≤ first.span.start := by
  -- The argument goes down the tree to the last node that holds both.
  induction root using children_induction with
  | step root ih =>
    rcases mem_preorder_iff.1 inFirst with rfl | ⟨child, isChild, inChild⟩
    · exact .inr (.inl inSecond)
    rcases mem_preorder_iff.1 inSecond with rfl | ⟨other, isOther, inOther⟩
    · exact .inl inFirst
    have childFormed := wellFormed.of_mem (mem_preorder_of_mem_children isChild)
    have otherFormed := wellFormed.of_mem (mem_preorder_of_mem_children isOther)
    by_cases same : child = other
    · -- Both lie in one child, so that the question is the same one step further down.
      subst same
      exact ih child isChild childFormed inChild inOther
    · -- They lie in different children, which keep them apart.
      have firstInside := childFormed.span_inside inChild
      have secondInside := otherFormed.span_inside inOther
      have apart := wellFormed.isPlaced.children_apart isChild isOther same
      omega

end Apart

mutual

/-- A walk meets a node before those below it, and other nodes from front to back. -/
theorem pairwise_visits {source : Text} (closed : Node → Bool) (parent : Option Node) :
    ∀ root : Node, root.IsWellFormed source →
      (root.visits closed parent).Pairwise fun earlier later =>
        later.node.IsBelow earlier.node ∨ earlier.node.span.stop ≤ later.node.span.start
  | ⟨kind, named, span, field, children⟩ => by
    intro wellFormed
    rw [visits_eq]
    split
    · exact .nil
    · refine List.pairwise_cons.2 ⟨fun visit member => .inl ?_, ?_⟩
      · exact mem_preorderAll_of_mem_visitsBelow closed _ children visit member
      · -- The children inherit what is known about the node.
        have formed : ∀ child ∈ children, child.IsWellFormed source := fun child member =>
          wellFormed.of_mem (mem_preorder_of_mem_children member)
        exact pairwise_visitsBelow closed _ children formed wellFormed.isPlaced.apart

/-- A walk through children that stand apart meets them from front to back. -/
theorem pairwise_visitsBelow {source : Text} (closed : Node → Bool) (parent : Node) :
    ∀ children : List Node, (∀ child ∈ children, child.IsWellFormed source) →
      children.Pairwise (fun first second => first.span.stop ≤ second.span.start) →
      (visitsBelow closed parent children).Pairwise fun earlier later =>
        later.node.IsBelow earlier.node ∨ earlier.node.span.stop ≤ later.node.span.start
  | [], _, _ => by simp [visitsBelow]
  | child :: rest, formed, apart => by
    obtain ⟨childFormed, restFormed⟩ := List.forall_mem_cons.1 formed
    obtain ⟨before, restApart⟩ := List.pairwise_cons.1 apart
    rw [visitsBelow]
    refine List.pairwise_append.2 ⟨?_, pairwise_visitsBelow closed parent rest restFormed restApart, ?_⟩
    · split
      · exact pairwise_visits closed _ child childFormed
      · exact .nil
    · intro earlier inChild later inRest
      -- What lies in the child stops before what lies in a later child starts.
      have inChild : earlier.node ∈ child.preorder := by
        split at inChild
        · exact mem_preorder_of_mem_visits closed _ child earlier inChild
        · simp at inChild
      obtain ⟨sibling, isSibling, inSibling⟩ := mem_preorderAll_iff.1
        (mem_preorderAll_of_mem_visitsBelow closed parent rest later inRest)
      have earlierInside := childFormed.span_inside inChild
      have laterInside := (restFormed sibling isSibling).span_inside inSibling
      have gap := before sibling isSibling
      exact .inr (by omega)

end

end Node

/--
Scopes are found from the outside in.

Of two scopes of a program, the later one lies inside the earlier one or starts behind it.
-/
theorem Scope.pairwise_discover {source : Text} {options : OrderingSettings} {root : Node}
    (wellFormed : root.IsWellFormed source) (program : root.kind = "program") :
    (Scope.discover source options root).Pairwise fun earlier later =>
      later.node.IsBelow earlier.node ∨ earlier.node.span.stop ≤ later.node.span.start := by
  -- The root is the first node of the walk, but opens no scope besides the program itself.
  have rootOpens : (⟨none, root⟩ : Visit).scope? source options = none := by
    simp [Visit.scope?, program]
  have walk := Node.pairwise_visits (fun _ => false) none root wellFormed
  rw [Node.visits_eq, if_neg (by simp)] at walk
  rw [Scope.discover, Node.visits_eq, if_neg (by simp), List.filterMap_cons, rootOpens]
  obtain ⟨_, walk⟩ := List.pairwise_cons.1 walk
  refine List.pairwise_cons.2 ⟨fun scope found => .inl ?_, List.pairwise_filterMap.2 (walk.imp ?_)⟩
  · -- Every further scope is a node of some child of the root.
    obtain ⟨visit, met, opened⟩ := List.mem_filterMap.1 found
    rw [Visit.node_of_scope? opened]
    exact Node.mem_preorderAll_of_mem_visitsBelow _ _ _ visit met
  · intro earlier later ordered first opensFirst second opensSecond
    rw [Visit.node_of_scope? opensFirst, Visit.node_of_scope? opensSecond]
    exact ordered

end CallersFirst
