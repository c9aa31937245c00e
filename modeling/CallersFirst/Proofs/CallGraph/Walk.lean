import CallersFirst.CallGraph.Walk
import CallersFirst.Proofs.CallGraph.Traversal

/-! Walks with an explicit trail are depth-first traversals. -/

namespace CallersFirst

namespace Walk

/-- The edges that a walk has still to follow, those of the current vertex first. -/
def pendingTargets (walk : Walk) : List Nat :=
  walk.trail.flatMap (·.pending)

/-- A run ends only when its trail is used up. -/
theorem trail_run (size : Nat) (next : Nat → List Nat) (walk : Walk) :
    (walk.run size next).trail = [] := by
  -- Every other case goes on running.
  fun_induction run size next walk with
  | case1 walk finished => exact finished
  | case2 walk vertex outer shape ih => exact ih
  | case3 walk vertex target pending outer shape advanced fresh ih => exact ih
  | case4 walk vertex target pending outer shape advanced old ih => exact ih

/--
A run visits what a traversal of its pending edges visits.

Leaving a vertex drops nothing but an empty list of edges.
The pending edges of the whole trail can therefore be read as one list of targets.
-/
theorem run_traverses (size : Nat) {next : Nat → List Nat}
    (bounded : ∀ vertex, ∀ target ∈ next vertex, target < size) (walk : Walk) :
    (∀ target ∈ walk.pendingTargets, target < size) →
      ∃ visited, (walk.run size next).entered = visited.reverse ++ walk.entered ∧
        Traverses next walk.entered.reverse walk.pendingTargets visited := by
  fun_induction run size next walk with
  | case1 walk finished =>
    intro _
    exact ⟨[], by simp, by simpa [pendingTargets, finished] using .done _⟩
  | case2 walk vertex outer shape ih =>
    intro inside
    have same : ({ walk with trail := outer } : Walk).pendingTargets = walk.pendingTargets := by
      simp [pendingTargets, shape]
    rw [← same] at inside ⊢
    exact ih inside
  | case3 walk vertex target pending outer shape advanced fresh ih =>
    intro inside
    have targets : walk.pendingTargets = target :: advanced.pendingTargets := by
      simp [pendingTargets, shape, advanced]
    have entered : (advanced.enter next target).pendingTargets = next target ++ advanced.pendingTargets := by
      simp [pendingTargets, enter]
    rw [targets] at inside ⊢
    obtain ⟨visited, found, traversal⟩ := ih (by
      rw [entered]
      intro other member
      rcases List.mem_append.1 member with edge | member
      · exact bounded target other edge
      · exact inside other (by simp [member]))
    -- What is visited next lies below the target or comes from the edges left before.
    rw [entered] at traversal
    obtain ⟨below, later, rfl, inward, onward⟩ := traversal.split
    refine ⟨target :: below ++ later, by rw [found]; simp [enter, advanced], ?_⟩
    refine .enter (by simpa using fresh.2) (by simpa [enter, advanced] using inward) ?_
    simpa [enter, advanced] using onward
  | case4 walk vertex target pending outer shape advanced old ih =>
    intro inside
    have targets : walk.pendingTargets = target :: advanced.pendingTargets := by
      simp [pendingTargets, shape, advanced]
    have met : (advanced.meet target).pendingTargets = advanced.pendingTargets := by
      simp [pendingTargets]
    rw [targets] at inside ⊢
    rw [met] at ih
    obtain ⟨visited, found, traversal⟩ := ih fun other member => inside other (by simp [member])
    -- A target in range that is not fresh has been entered.
    have known : target ∈ walk.entered := by
      by_contra missing
      exact old ⟨inside target (by simp), missing⟩
    refine ⟨visited, by simpa [advanced] using found, .skip (by simpa using known) ?_⟩
    simpa [advanced] using traversal

/-- Walking from a vertex with nothing pending traverses that vertex. -/
theorem visit_traverses {size : Nat} {next : Nat → List Nat}
    (bounded : ∀ vertex, ∀ target ∈ next vertex, target < size) {walk : Walk} (idle : walk.trail = [])
    (start : Nat) :
    (walk.visit size next start).trail = [] ∧
      ∃ visited, (walk.visit size next start).entered = visited.reverse ++ walk.entered ∧
        Traverses next walk.entered.reverse [start] visited := by
  unfold visit
  split
  · -- A start entered before changes nothing.
    rename_i known
    exact ⟨idle, [], by simp, .skip (by simpa using known) (.done _)⟩
  · rename_i new
    have pending : (walk.enter next start).pendingTargets = next start := by
      simp [pendingTargets, enter, idle]
    obtain ⟨below, found, traversal⟩ := run_traverses size bounded (walk.enter next start) (by
      rw [pending]
      exact bounded start)
    rw [pending] at traversal
    refine ⟨trail_run _ _ _, start :: below, by rw [found]; simp [enter], ?_⟩
    simpa using Traverses.enter (by simpa using new) (by simpa [enter] using traversal) (.done _)

/-- Walking from some starts in turn traverses the starts. -/
theorem foldl_visit_traverses {size : Nat} {next : Nat → List Nat}
    (bounded : ∀ vertex, ∀ target ∈ next vertex, target < size) (starts : List Nat) :
    ∀ walk : Walk, walk.trail = [] →
      ∃ visited, (starts.foldl (visit size next) walk).entered = visited.reverse ++ walk.entered ∧
        Traverses next walk.entered.reverse starts visited := by
  -- Each start leaves the walk idle, so that the next one finds nothing pending.
  induction starts with
  | nil => exact fun walk _ => ⟨[], by simp, .done _⟩
  | cons start rest ih =>
    intro walk idle
    obtain ⟨stillIdle, first, entered, leading⟩ := visit_traverses bounded idle start
    obtain ⟨later, found, trailing⟩ := ih _ stillIdle
    refine ⟨first ++ later, by simp [found, entered], ?_⟩
    simpa using leading.append (by simpa [entered] using trailing)

/-- The vertices that a walk from some starts enters are those of a traversal from them. -/
theorem fromStarts_traverses {size : Nat} {next : Nat → List Nat}
    (bounded : ∀ vertex, ∀ target ∈ next vertex, target < size) (starts : List Nat) :
    Traverses next [] starts (fromStarts size next starts).entered.reverse := by
  obtain ⟨visited, found, traversal⟩ := foldl_visit_traverses bounded starts {} rfl
  simpa [fromStarts, found] using traversal

end Walk

end CallersFirst
