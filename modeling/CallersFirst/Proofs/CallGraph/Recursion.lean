import Mathlib.Data.Finset.Basic
import Mathlib.Data.Finset.Lattice.Lemmas
import CallersFirst.Proofs.CallGraph.Order

/-! The readable order is what a plain recursive reading of the calls puts out. -/

namespace CallersFirst

/-- What recursion over the edges of a graph keeps in mind. -/
structure RecursionState (α : Type) where
  /-- The vertices met so far. -/
  visited : Finset α := ∅
  /-- The vertices met whose edges are not all followed yet. -/
  inProgress : Finset α := ∅
  /-- The vertices met, in the order in which they were met. -/
  output : List α := []

namespace RecursionState

variable {α : Type} [DecidableEq α]

/-- Meets a vertex, which is in progress from then on. -/
def meet (state : RecursionState α) (vertex : α) : RecursionState α :=
  { visited := insert vertex state.visited
    inProgress := insert vertex state.inProgress
    output := state.output ++ [vertex] }

/-- Finishes a vertex, which is no longer in progress. -/
def leave (state : RecursionState α) (vertex : α) : RecursionState α :=
  { state with inProgress := state.inProgress.erase vertex }

/--
Reads a vertex and everything below it, unless it was met before.

An edge to a vertex in progress is skipped, and any other is followed by recursion.
There is no result if calls would nest deeper than the given depth.
-/
def emit (next : α → List α) : Nat → RecursionState α → α → Option (RecursionState α)
  | 0, _, _ => none
  | depth + 1, state, vertex =>
    if vertex ∈ state.visited then some state
    else do
      -- Edges are followed in turn, each from the state that the one before it has left.
      let read ← (next vertex).foldlM
        (fun state target =>
          if target ∈ state.inProgress then some state else emit next depth state target)
        (state.meet vertex)
      some (read.leave vertex)

/-- Follows an edge unless it leads to a vertex in progress. -/
def follow (next : α → List α) (depth : Nat) (state : RecursionState α) (target : α) :
    Option (RecursionState α) :=
  if target ∈ state.inProgress then some state else emit next depth state target

/-- The state after some more vertices, none of which is left in progress. -/
def extend (state : RecursionState α) (vertices : List α) : RecursionState α :=
  { state with
    visited := state.visited ∪ vertices.toFinset
    output := state.output ++ vertices }

section Emit

variable {next : α → List α} {depth : Nat} {state : RecursionState α} {vertex : α}

/-- A vertex met before is passed over. -/
theorem emit_of_mem (positive : 0 < depth) (known : vertex ∈ state.visited) :
    emit next depth state vertex = some state := by
  obtain ⟨depth, rfl⟩ := Nat.exists_eq_succ_of_ne_zero (Nat.ne_of_gt positive)
  rw [emit, if_pos known]

/-- A new vertex is met, its edges are followed, and it is finished. -/
theorem emit_of_not_mem (new : vertex ∉ state.visited) {read : RecursionState α}
    (below : (next vertex).foldlM (follow next depth) (state.meet vertex) = some read) :
    emit next (depth + 1) state vertex = some (read.leave vertex) := by
  -- The body of the recursion follows the edges with the vertex in progress.
  have unfolded : emit next (depth + 1) state vertex =
      ((next vertex).foldlM (follow next depth) (state.meet vertex)).bind
        fun read => some (read.leave vertex) := by
    rw [emit, if_neg new]
    rfl
  rw [unfolded, below, Option.bind_some]

/-- Skipping what is in progress makes no difference, since all of that has been met. -/
theorem follow_eq_emit (positive : 0 < depth) (within : state.inProgress ⊆ state.visited) (target : α) :
    follow next depth state target = emit next depth state target := by
  -- A vertex in progress would be passed over all the same.
  unfold follow
  split
  · rename_i back
    exact (emit_of_mem positive (within back)).symm
  · rfl

end Emit

section Extend

variable {state : RecursionState α}

/-- A vertex and what is read below it extend a state in which the vertex is not in progress. -/
theorem leave_extend_meet {vertex : α} (new : vertex ∉ state.inProgress) (below : List α) :
    ((state.meet vertex).extend below).leave vertex = state.extend (vertex :: below) := by
  simp [extend, meet, leave, Finset.erase_insert new]

/-- Extending twice is extending once. -/
theorem extend_append (first second : List α) :
    state.extend (first ++ second) = (state.extend first).extend second := by
  simp [extend, List.toFinset_append, Finset.union_assoc]

end Extend

end RecursionState

namespace Traverses

open RecursionState

/--
The recursion reads what a traversal visits, in the same order.

Its calls nest no deeper than there are vertices to visit.
The targets may be taken up by any step that reads a target, as long as only vertices met are in progress.
-/
theorem foldlM_emit {α : Type} [DecidableEq α] {next : α → List α} {seen targets visited : List α}
    (traversal : Traverses next seen targets visited) :
    ∀ (depth : Nat) (step : RecursionState α → α → Option (RecursionState α)) (state : RecursionState α),
      visited.length < depth →
      (∀ state target, state.inProgress ⊆ state.visited → step state target = emit next depth state target) →
      state.inProgress ⊆ state.visited → (∀ vertex, vertex ∈ state.visited ↔ vertex ∈ seen) →
      targets.foldlM step state = some (state.extend visited) := by
  -- Each rule of the traversal is one way through the body of the recursion.
  induction traversal with
  | done seen =>
    intro depth step state _ _ _ _
    simp [extend]
  | skip known onward ih =>
    intro depth step state deep reads within marked
    rw [List.foldlM_cons, reads state _ within, emit_of_mem (by omega) ((marked _).2 known)]
    exact ih depth step state deep reads within marked
  | @enter seen rest below visited target new inward onward ihInward ihOnward =>
    intro depth step state deep reads within marked
    have unmet : target ∉ state.visited := fun member => new ((marked target).1 member)
    have idle : target ∉ state.inProgress := fun member => unmet (within member)
    simp only [List.length_append, List.length_cons] at deep
    obtain ⟨depth, rfl⟩ : ∃ inner, depth = inner + 1 := ⟨depth - 1, by omega⟩
    -- Below the target its own edges are followed one call deeper, with the target in progress.
    have read := ihInward depth (follow next depth) (state.meet target) (by omega)
      (fun state target within => follow_eq_emit (by omega) within target)
      (Finset.insert_subset_insert target within)
      (fun vertex => by simp [meet, marked, or_comm])
    rw [List.foldlM_cons, reads state target within, emit_of_not_mem unmet read, leave_extend_meet idle,
      extend_append]
    refine ihOnward _ step _ (by omega) reads (within.trans Finset.subset_union_left) fun vertex => ?_
    simp [extend, marked, or_left_comm]

end Traverses

namespace CallGraph

open Classical in
/--
The order that recursion gives if its calls may nest to some depth.

It is called on each unit in source order that is a root or to which no root leads.
-/
noncomputable def recursiveOrder? (graph : CallGraph) (depth : Nat) : Option (List String) :=
  ((graph.names.filter fun name => graph.IsRoot name ∨ ¬ graph.IsRooted name).foldlM
    (RecursionState.emit graph.callees depth) {}).map (·.output)

/-- Recursion gives the readable order, and its calls nest no deeper than there are units. -/
theorem recursiveOrder?_eq {graph : CallGraph} (consistent : graph.IsConsistent) {depth : Nat}
    (deep : graph.size < depth) : graph.recursiveOrder? depth = some graph.readableOrder := by
  classical
  -- The starts of the walk are the units on which recursion is called.
  have chosen : graph.names.filter (fun name => graph.IsRoot name ∨ ¬ graph.IsRooted name) = graph.starts := by
    rw [← filter_mem_of_sublist (starts_sublist graph) consistent.distinct]
    refine List.filter_congr fun name member => ?_
    simp [mem_starts_iff consistent, member]
  have enough : graph.readableOrder.length < depth := by
    rwa [(readableOrder_perm consistent).length_eq, length_names]
  have read := (readableOrder_traverses consistent).foldlM_emit depth (RecursionState.emit graph.callees depth) {}
    enough (fun _ _ _ => rfl) (Finset.Subset.refl _) (by simp)
  rw [recursiveOrder?, chosen, read]
  simp [RecursionState.extend]

end CallGraph

end CallersFirst
