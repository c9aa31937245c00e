/-! Depth-first walks with an explicit trail over a finite graph of numbered vertices. -/

namespace CallersFirst

/-- A vertex on the way from the start of a walk, with the edges out of it still to be followed. -/
structure Frame where
  /-- The vertex. -/
  vertex : Nat
  /-- The targets of the edges not followed yet. -/
  pending : List Nat
deriving DecidableEq, Repr

/-- The state of a depth-first walk. -/
structure Walk where
  /-- The way from the start to the current vertex, current vertex first. -/
  trail : List Frame := []
  /-- The vertices entered so far, latest first. -/
  entered : List Nat := []
  /-- The ways closed so far by an edge back to an earlier vertex of the trail, latest first. -/
  closed : List (List Nat) := []
deriving DecidableEq, Repr

namespace Walk

/-- The vertices on the trail, current vertex first. -/
def path (walk : Walk) : List Nat :=
  walk.trail.map (·.vertex)

/-- Enters a vertex by an edge or as a new start. -/
def enter (next : Nat → List Nat) (vertex : Nat) (walk : Walk) : Walk :=
  { walk with
    trail := ⟨vertex, next vertex⟩ :: walk.trail
    entered := vertex :: walk.entered }

/-- The part of a path from a vertex of it to its end. -/
def loopFrom (vertex : Nat) (path : List Nat) : List Nat :=
  vertex :: (path.takeWhile (· ≠ vertex)).reverse

/-- Notes an edge to a vertex entered before: one back to the trail, other than a loop at a single
vertex, closes a way. -/
def meet (vertex : Nat) (walk : Walk) : Walk :=
  if vertex ∈ walk.path ∧ walk.path.head? ≠ some vertex then
    { walk with closed := loopFrom vertex walk.path :: walk.closed }
  else walk

/-- Noting an edge does not move the walk. -/
@[simp] theorem trail_meet (vertex : Nat) (walk : Walk) : (walk.meet vertex).trail = walk.trail := by
  simp only [meet]
  split <;> rfl

/-- Noting an edge enters no vertex. -/
@[simp] theorem entered_meet (vertex : Nat) (walk : Walk) : (walk.meet vertex).entered = walk.entered := by
  simp only [meet]
  split <;> rfl

/-- The vertices below a bound that have not been entered. -/
def fresh (size : Nat) (entered : List Nat) : List Nat :=
  (List.range size).filter (· ∉ entered)

/-- Entering a vertex leaves fewer fresh ones. -/
theorem fresh_length_lt {size vertex : Nat} {entered : List Nat} (bound : vertex < size)
    (new : vertex ∉ entered) : (fresh size (vertex :: entered)).length < (fresh size entered).length := by
  -- The fresh vertices afterwards are those before that differ from the one entered.
  have split : fresh size (vertex :: entered) = (fresh size entered).filter (· ≠ vertex) := by
    simp only [fresh, List.filter_filter]
    congr 1
    funext other
    simp [not_or]
  rw [split, List.length_filter_lt_length_iff_exists]
  exact ⟨vertex, by simp [fresh, bound, new], by simp⟩

/-- The number of vertices on a trail and of edges still to be followed from them. -/
def remaining (trail : List Frame) : Nat :=
  trail.foldr (fun frame count => frame.pending.length + 1 + count) 0

/-- Follows edges until the trail is used up. -/
def run (size : Nat) (next : Nat → List Nat) (walk : Walk) : Walk :=
  match _trail : walk.trail with
  | [] => walk
  | ⟨_, []⟩ :: outer => run size next { walk with trail := outer }
  | ⟨vertex, target :: pending⟩ :: outer =>
    let advanced := { walk with trail := ⟨vertex, pending⟩ :: outer }
    if _target : target < size ∧ target ∉ walk.entered then
      run size next (advanced.enter next target)
    else
      run size next (advanced.meet target)
termination_by ((fresh size walk.entered).length, remaining walk.trail)
decreasing_by
  · simp_all [Prod.lex_def, remaining]
  · exact Prod.Lex.left _ _ (fresh_length_lt _target.1 _target.2)
  · simp [Prod.lex_def, _trail, remaining]

/-- Walks from a vertex unless it has been entered already. -/
def visit (size : Nat) (next : Nat → List Nat) (walk : Walk) (start : Nat) : Walk :=
  if start ∈ walk.entered then walk else run size next (walk.enter next start)

/-- Walks from each of the starts in turn. -/
def fromStarts (size : Nat) (next : Nat → List Nat) (starts : List Nat) : Walk :=
  starts.foldl (visit size next) {}

end Walk

end CallersFirst
