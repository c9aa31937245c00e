import CallersFirst.Proofs.Loops
import CallersFirst.Proofs.SyntaxTree

/-!
Walks that keep the nodes ahead on a stack. The loop ends, and what is noted on the way is what the walk by
recursion would note, visit by visit.
-/

namespace CallersFirst

namespace Node

section Walk

variable {σ : Type} {closed : Node → Bool} {note : σ → Visit → σ}

/-- Takes the node on top of the stack. Unless it is closed, it is noted and its named children are put there. -/
def walkTurn? (closed : Node → Bool) (note : σ → Visit → σ) :
    List Visit × σ → Option (σ ⊕ List Visit × σ)
  | ([], noted) => some (.inl noted)
  | (visit :: stack, noted) =>
    if closed visit.node then some (.inr (stack, noted))
    else
      -- The last child is put there first, so that the first one comes to be on top.
      let pushed := visit.node.namedChildren.reverse.foldl (fun stack child => ⟨some visit.node, child⟩ :: stack) stack
      some (.inr (pushed, note noted visit))

/-- What a walk ends with that has certain nodes on its stack and has noted something already. -/
noncomputable def walkFrom? (closed : Node → Bool) (note : σ → Visit → σ) (stack : List Visit) (noted : σ) :
    Option σ :=
  Loops.loop? (walkTurn? closed note) (stack, noted)

/-- What a walk from a root ends with. -/
noncomputable def walk? (closed : Node → Bool) (note : σ → Visit → σ) (start : σ) (root : Node) : Option σ :=
  walkFrom? closed note [⟨none, root⟩] start

/-- A walk through children meets what the walks from the named ones meet. -/
theorem visitsBelow_eq_flatMap (closed : Node → Bool) (parent : Node) (children : List Node) :
    visitsBelow closed parent children =
      (children.filter (·.named)).flatMap (·.visits closed (some parent)) := by
  induction children with
  | nil => rfl
  | cons child rest ih =>
    rw [visitsBelow, ih]
    by_cases named : child.named
    · rw [if_pos named, List.filter_cons_of_pos named, List.flatMap_cons]
    · -- A token adds nothing on either side.
      rw [if_neg named, List.filter_cons_of_neg named, List.nil_append]

/-- The walk ends once the stack is empty. -/
theorem walkFrom?_nil (noted : σ) : walkFrom? closed note [] noted = some noted :=
  Loops.loop?_of_inl rfl

/-- A closed node is taken off the stack, and nothing below it is looked at. -/
theorem walkFrom?_closed {visit : Visit} (isClosed : closed visit.node) (stack : List Visit) (noted : σ) :
    walkFrom? closed note (visit :: stack) noted = walkFrom? closed note stack noted :=
  Loops.loop?_of_inr (if_pos isClosed)

/-- A node that is not closed is noted and replaced by its named children. -/
theorem walkFrom?_open {visit : Visit} (isOpen : ¬ closed visit.node) (stack : List Visit) (noted : σ) :
    walkFrom? closed note (visit :: stack) noted =
      walkFrom? closed note (visit.node.namedChildren.map (fun child => ⟨some visit.node, child⟩) ++ stack)
        (note noted visit) := by
  refine Loops.loop?_of_inr ?_
  -- What is turned round twice stands as it was.
  rw [walkTurn?, if_neg isOpen, List.foldl_reverse, List.foldr_cons_eq_append]

/-- Children on top of the stack are walked through one after the other, if each of them is. -/
theorem walkFrom?_children {parent : Node} (children : List Node)
    (each : ∀ child ∈ children, ∀ stack noted,
      walkFrom? closed note (⟨some parent, child⟩ :: stack) noted =
        walkFrom? closed note stack ((child.visits closed (some parent)).foldl note noted))
    (stack : List Visit) (noted : σ) :
    walkFrom? closed note (children.map (fun child => ⟨some parent, child⟩) ++ stack) noted =
      walkFrom? closed note stack ((children.flatMap (·.visits closed (some parent))).foldl note noted) := by
  induction children generalizing noted with
  | nil => rfl
  | cons child rest ih =>
    obtain ⟨first, others⟩ := List.forall_mem_cons.1 each
    -- The first child is done with before the rest of them are on top.
    rw [List.map_cons, List.cons_append, first, ih others, List.flatMap_cons, List.foldl_append]

/-- A node on top of the stack is walked through before anything below it is looked at. -/
theorem walkFrom?_node (node : Node) (parent : Option Node) (stack : List Visit) (noted : σ) :
    walkFrom? closed note (⟨parent, node⟩ :: stack) noted =
      walkFrom? closed note stack ((node.visits closed parent).foldl note noted) := by
  -- The induction is on the tree, whatever lies below the node on the stack.
  induction node using Node.children_induction generalizing parent stack noted with
  | step node ih =>
    rw [visits_eq]
    by_cases isClosed : closed node
    · rw [if_pos isClosed, walkFrom?_closed isClosed, List.foldl_nil]
    · have each : ∀ child ∈ node.namedChildren, ∀ stack noted,
          walkFrom? closed note (⟨some node, child⟩ :: stack) noted =
            walkFrom? closed note stack ((child.visits closed (some node)).foldl note noted) :=
        fun child member => ih child (List.mem_filter.1 member).1 (some node)
      -- One turn puts the children on top, and then they are walked through one after the other.
      rw [if_neg isClosed, walkFrom?_open isClosed, walkFrom?_children _ each, visitsBelow_eq_flatMap,
        List.foldl_cons]
      rfl

/-- A walk with a stack ends, with everything noted that is met in pre-order outside of closed nodes. -/
theorem walk?_eq (closed : Node → Bool) (note : σ → Visit → σ) (start : σ) (root : Node) :
    root.walk? closed note start = some ((root.visits closed none).foldl note start) := by
  rw [walk?, walkFrom?_node, walkFrom?_nil]

end Walk

end Node

end CallersFirst
