import CallersFirst.Proofs.Text.Slice
import CallersFirst.Scope

/-! Syntax trees that are well-formed for a text, and the scopes found in them. -/

namespace CallersFirst

namespace Node

/-- A node that lies on a text, with its children inside it, in order and apart. -/
structure IsPlaced (source : Text) (node : Node) : Prop where
  /-- The node covers a part of the text. -/
  fits : node.span.Fits source
  /-- Every child lies inside the node. -/
  inside : ∀ child ∈ node.children,
    node.span.start ≤ child.span.start ∧ child.span.stop ≤ node.span.stop
  /-- Every child stops before the next ones start. -/
  apart : node.children.Pairwise fun first second => first.span.stop ≤ second.span.start

/-- A tree that is well-formed for a text: every node of it is placed. -/
def IsWellFormed (source : Text) (root : Node) : Prop :=
  ∀ node ∈ root.preorder, node.IsPlaced source

/-- A tree in which every node, except perhaps the root, covers at least one byte. -/
def PartsFilled (root : Node) : Prop :=
  ∀ node ∈ preorderAll root.children, node.span.start < node.span.stop

instance (source : Text) (node : Node) : Decidable (node.IsPlaced source) :=
  decidable_of_iff
    (node.span.Fits source ∧
      (∀ child ∈ node.children,
        node.span.start ≤ child.span.start ∧ child.span.stop ≤ node.span.stop) ∧
      node.children.Pairwise fun first second => first.span.stop ≤ second.span.start)
    ⟨fun ⟨fits, inside, apart⟩ => ⟨fits, inside, apart⟩,
      fun placed => ⟨placed.fits, placed.inside, placed.apart⟩⟩

instance (source : Text) (root : Node) : Decidable (root.IsWellFormed source) :=
  inferInstanceAs (Decidable (∀ node ∈ root.preorder, node.IsPlaced source))

instance (root : Node) : Decidable root.PartsFilled :=
  inferInstanceAs (Decidable (∀ node ∈ preorderAll root.children, node.span.start < node.span.stop))

/-- A statement about nodes holds if it holds of a node whenever it holds of its children. -/
theorem children_induction {motive : Node → Prop}
    (step : ∀ node, (∀ child ∈ node.children, motive child) → motive node) (node : Node) :
    motive node := by
  -- A child is smaller than its parent.
  refine step node fun child member => children_induction step child
termination_by sizeOf node
decreasing_by
  have smaller := List.sizeOf_lt_of_mem member
  cases node
  simp only [Node.mk.sizeOf_spec] at *
  omega

/-- The nodes of a list of trees are the nodes of its members. -/
theorem mem_preorderAll_iff {node : Node} {trees : List Node} :
    node ∈ preorderAll trees ↔ ∃ tree ∈ trees, node ∈ tree.preorder := by
  -- The nodes of the first tree come before those of the rest.
  induction trees with
  | nil => simp [preorderAll]
  | cons tree rest ih => simp [preorderAll, ih]

/-- The nodes of a tree are its root and the nodes of the trees below it. -/
theorem mem_preorder_iff {node root : Node} :
    node ∈ root.preorder ↔ node = root ∨ ∃ child ∈ root.children, node ∈ child.preorder := by
  rw [← mem_preorderAll_iff]
  cases root
  simp [preorder]

/-- A tree has its own root. -/
@[simp] theorem mem_preorder_self (root : Node) : root ∈ root.preorder :=
  mem_preorder_iff.2 (.inl rfl)

/-- A tree has its children. -/
theorem mem_preorder_of_mem_children {child root : Node} (member : child ∈ root.children) :
    child ∈ root.preorder :=
  mem_preorder_iff.2 (.inr ⟨child, member, mem_preorder_self child⟩)

/-- What lies in a part of a tree lies in the tree. -/
theorem mem_preorder_trans {node part root : Node} (inner : node ∈ part.preorder)
    (outer : part ∈ root.preorder) : node ∈ root.preorder := by
  -- The part is the whole tree or lies in one of the trees below it.
  induction root using children_induction with
  | step root ih =>
    rcases mem_preorder_iff.1 outer with rfl | ⟨child, member, below⟩
    · exact inner
    · exact mem_preorder_iff.2 (.inr ⟨child, member, ih child member below⟩)

section WellFormed

variable {source : Text} {root part : Node}

/-- Every part of a well-formed tree is well-formed. -/
theorem IsWellFormed.of_mem (wellFormed : root.IsWellFormed source) (member : part ∈ root.preorder) :
    part.IsWellFormed source :=
  fun node inner => wellFormed node (mem_preorder_trans inner member)

/-- The root of a well-formed tree is placed. -/
theorem IsWellFormed.isPlaced (wellFormed : root.IsWellFormed source) : root.IsPlaced source :=
  wellFormed root (mem_preorder_self root)

/-- Every part of a well-formed tree lies inside its root. -/
theorem IsWellFormed.span_inside (wellFormed : root.IsWellFormed source) (member : part ∈ root.preorder) :
    root.span.start ≤ part.span.start ∧ part.span.stop ≤ root.span.stop := by
  -- Each step down stays inside.
  induction root using children_induction with
  | step root ih =>
    rcases mem_preorder_iff.1 member with rfl | ⟨child, isChild, below⟩
    · exact ⟨Nat.le_refl _, Nat.le_refl _⟩
    · have outer := wellFormed.isPlaced.inside child isChild
      have inner := ih child isChild (wellFormed.of_mem (mem_preorder_of_mem_children isChild)) below
      omega

/-- In a tree with filled parts, every tree below the root has no empty node at all. -/
theorem PartsFilled.filled (filled : root.PartsFilled) {child : Node} (isChild : child ∈ root.children)
    (member : part ∈ child.preorder) : part.span.start < part.span.stop :=
  filled part (mem_preorderAll_iff.2 ⟨child, isChild, member⟩)

/-- Every part of a tree with filled parts has filled parts. -/
theorem PartsFilled.of_mem (filled : root.PartsFilled) (member : part ∈ root.preorder) :
    part.PartsFilled := by
  intro node inner
  obtain ⟨child, isChild, below⟩ := mem_preorderAll_iff.1 inner
  -- What lies below a part lies below the root.
  refine filled node (mem_preorderAll_iff.2 ?_)
  rcases mem_preorder_iff.1 member with rfl | ⟨tree, isTree, within⟩
  · exact ⟨child, isChild, below⟩
  · exact ⟨tree, isTree, mem_preorder_trans
      (mem_preorder_iff.2 (.inr ⟨child, isChild, below⟩)) within⟩

end WellFormed

mutual

/-- A walk meets nodes of the tree only. -/
theorem mem_preorder_of_mem_visits (closed : Node → Bool) (parent : Option Node) :
    ∀ (root : Node), ∀ visit ∈ root.visits closed parent, visit.node ∈ root.preorder
  | ⟨kind, named, span, field, children⟩ => by
    intro visit member
    rw [visits_eq] at member
    split at member
    · simp at member
    · rcases List.mem_cons.1 member with rfl | below
      · exact mem_preorder_self _
      · have inner := mem_preorderAll_of_mem_visitsBelow closed _ children visit below
        exact mem_preorder_iff.2 (.inr (mem_preorderAll_iff.1 inner))

/-- A walk through the children of a node meets nodes of these only. -/
theorem mem_preorderAll_of_mem_visitsBelow (closed : Node → Bool) (parent : Node) :
    ∀ (children : List Node), ∀ visit ∈ visitsBelow closed parent children,
      visit.node ∈ preorderAll children
  | [] => by simp [visitsBelow]
  | child :: rest => by
    intro visit member
    rw [visitsBelow] at member
    rw [preorderAll, List.mem_append]
    rcases List.mem_append.1 member with first | later
    · split at first
      · exact .inl (mem_preorder_of_mem_visits closed _ child visit first)
      · simp at first
    · exact .inr (mem_preorderAll_of_mem_visitsBelow closed parent rest visit later)

end

end Node

/-- A visited node opens a scope only at itself. -/
theorem Visit.node_of_scope? {source : Text} {options : OrderingSettings} {visit : Visit} {scope : Scope}
    (opened : visit.scope? source options = some scope) : scope.node = visit.node := by
  -- Both kinds of scope are made of the visited node.
  unfold Visit.scope? at opened
  split at opened
  · cases opened
    rfl
  · split at opened
    · cases opened
      rfl
    · cases opened

/-- Every scope found in a tree is one of its nodes. -/
theorem Scope.node_mem_preorder {source : Text} {options : OrderingSettings} {root : Node} {scope : Scope}
    (found : scope ∈ Scope.discover source options root) : scope.node ∈ root.preorder := by
  -- A scope is the program itself or a node that the walk has met.
  rcases List.mem_cons.1 found with rfl | found
  · exact Node.mem_preorder_self root
  · obtain ⟨visit, met, opened⟩ := List.mem_filterMap.1 found
    rw [Visit.node_of_scope? opened]
    exact Node.mem_preorder_of_mem_visits _ _ root visit met

end CallersFirst
