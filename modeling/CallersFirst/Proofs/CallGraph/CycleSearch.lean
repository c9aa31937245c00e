import CallersFirst.Proofs.CallGraph.Cycles
import Mathlib.Data.Finset.Basic
import Mathlib.Data.Finset.Lattice.Lemmas

/-!
The cycles of a graph by a plain recursive search, with a set of the places visited, a set of those on the stack and
the path to the current place. Calls that nest too deep and places out of range would each leave the search
without a result. Neither happens, and the cycles are the same.
-/

namespace CallersFirst

/-- What a recursive search for cycles keeps in mind. -/
structure CycleSearch where
  /-- The places visited so far. -/
  visited : Finset Nat := ∅
  /-- The places whose calls are not all followed yet. -/
  onStack : Finset Nat := ∅
  /-- The way from the start of the search to the current place. -/
  path : List Nat := []
  /-- The cycles found so far, by name. -/
  cycles : List (List String) := []

namespace CycleSearch

/-- Visits a place, which is the last one of the path from then on. -/
def enter (state : CycleSearch) (place : Nat) : CycleSearch :=
  { state with
    visited := insert place state.visited
    onStack := insert place state.onStack
    path := state.path ++ [place] }

/-- Goes back from a place, whose calls have all been followed. -/
def leave (state : CycleSearch) (place : Nat) : CycleSearch :=
  { state with
    onStack := state.onStack.erase place
    path := state.path.dropLast }

/-- Notes the part of the path from a place on as a cycle. -/
def close? (graph : CallGraph) (state : CycleSearch) (place : Nat) : Option CycleSearch :=
  match state.path.idxOf? place with
  | none => some state
  | some start => do
    let cycle ← (state.path.drop start).mapM fun place => (graph.units[place]?).map (·.name)
    some { state with cycles := state.cycles ++ [cycle] }

/--
Visits a place and everything below it.

A call of a place to itself is skipped, and one to a new place is followed by recursion. One back to the stack
closes a cycle. There is no result if calls would nest deeper than the given depth, or at a place out of range.
-/
def search? (graph : CallGraph) : Nat → CycleSearch → Nat → Option CycleSearch
  | 0, _, _ => none
  | depth + 1, state, place => do
    let callees ← graph.edges[place]?
    -- Calls are followed in turn, each from the state that the one before it has left.
    let followed ← callees.foldlM
      (fun state callee =>
        if callee = place then some state
        else if callee ∉ state.visited then search? graph depth state callee
        else if callee ∈ state.onStack then state.close? graph callee
        else some state)
      (state.enter place)
    some (followed.leave place)

/-- Follows a call of a place. -/
def follow? (graph : CallGraph) (depth place : Nat) (state : CycleSearch) (callee : Nat) : Option CycleSearch :=
  if callee = place then some state
  else if callee ∉ state.visited then search? graph depth state callee
  else if callee ∈ state.onStack then state.close? graph callee
  else some state

/-- Searches from a place unless it has been visited already. -/
def visit? (graph : CallGraph) (depth : Nat) (state : CycleSearch) (place : Nat) : Option CycleSearch :=
  if place ∉ state.visited then search? graph depth state place else some state

/-- Comes back to each place of a trail in turn, follows the calls that are left there, and goes back further. -/
def resume? (graph : CallGraph) : List Frame → Nat → CycleSearch → Option CycleSearch
  | [], _, state => some state
  | ⟨place, pending⟩ :: outer, depth, state => do
    let followed ← pending.foldlM (follow? graph depth place) state
    resume? graph outer (depth + 1) (followed.leave place)

/-- What the search keeps in mind at a point of a walk. -/
def ofWalk (graph : CallGraph) (walk : Walk) : CycleSearch :=
  { visited := walk.entered.toFinset
    onStack := walk.path.toFinset
    path := walk.path.reverse
    cycles := walk.closed.reverse.map (·.map graph.nameAt) }

section Follow

variable {graph : CallGraph} {state : CycleSearch} {depth place : Nat}

/-- A place in range is entered, its calls are followed, and it is left. -/
theorem search?_succ (bound : place < graph.size) :
    search? graph (depth + 1) state place =
      ((CallGraph.calleesOf graph.edges place).foldlM (follow? graph depth place) (state.enter place)).bind
        fun followed => some (followed.leave place) := by
  have inside : place < graph.edges.size := by simpa using bound
  rw [search?, CallGraph.getElem?_edges inside]
  rfl

/-- A search at the top of a trail is one more place to come back to. -/
theorem resume?_search {callee : Nat} (bound : callee < graph.size) (apart : callee ≠ place)
    (new : callee ∉ state.visited) (pending : List Nat) (outer : List Frame) :
    resume? graph (⟨place, callee :: pending⟩ :: outer) (depth + 1) state =
      resume? graph (⟨callee, CallGraph.calleesOf graph.edges callee⟩ :: ⟨place, pending⟩ :: outer) depth
        (state.enter callee) := by
  have followed : follow? graph (depth + 1) place state callee = search? graph (depth + 1) state callee := by
    rw [follow?, if_neg apart, if_pos new]
  -- What is left to do after the search is what the trail below the callee stands for.
  simp only [resume?, List.foldlM_cons, followed, search?_succ bound, Option.bind_eq_bind, Option.bind_assoc,
    Option.bind_some]

end Follow

section OfWalk

variable {graph : CallGraph} {outer : List Frame} {entered pending : List Nat} {closed : List (List Nat)}
  {place callee : Nat}

/-- Going back from a place goes back on the trail. -/
theorem leave_ofWalk (once : place ∉ outer.map (·.vertex)) :
    (ofWalk graph ⟨⟨place, pending⟩ :: outer, entered, closed⟩).leave place =
      ofWalk graph ⟨outer, entered, closed⟩ := by
  simp [ofWalk, leave, Walk.path, Finset.erase_insert (by simpa using once :
    place ∉ (outer.map (·.vertex)).toFinset)]

/-- Visiting a place enters it. -/
theorem enter_ofWalk (walk : Walk) (place : Nat) :
    (ofWalk graph walk).enter place = ofWalk graph (walk.enter (CallGraph.calleesOf graph.edges) place) := by
  simp [ofWalk, enter, Walk.path, Walk.enter]

/-- On a path without repetitions, the part from a place on is the way that the walk closes there. -/
theorem exists_drop_idxOf? {path : List Nat} (distinct : path.Nodup) (member : place ∈ path) :
    ∃ start, path.reverse.idxOf? place = some start ∧ path.reverse.drop start = Walk.loopFrom place path := by
  obtain ⟨inner, further, rfl, same⟩ := Walk.exists_loopFrom_eq member
  -- The place does not stand further out as well.
  have once : place ∉ further.reverse := by
    rw [List.mem_reverse]
    exact (List.nodup_cons.1 (List.nodup_append.1 distinct).2.1).1
  have reversed : (inner ++ place :: further).reverse = further.reverse ++ place :: inner.reverse := by simp
  refine ⟨further.reverse.length, ?_, ?_⟩
  · rw [reversed, List.idxOf?_eq_some_iff]
    refine ⟨by simp, by simp, fun index before => ?_⟩
    rw [List.getElem_append_left before]
    exact fun same => once (same ▸ List.getElem_mem before)
  · rw [reversed, List.drop_left, same]
    simp

/-- Places in range all have a name. -/
theorem mapM_name {places : List Nat} (bounded : ∀ place ∈ places, place < graph.size) :
    (places.mapM fun place => (graph.units[place]?).map (·.name)) = some (places.map graph.nameAt) := by
  induction places with
  | nil => rfl
  | cons place rest ih =>
    obtain ⟨bound, others⟩ := List.forall_mem_cons.1 bounded
    -- The first place is that of a unit, whose name is read off.
    have found : graph.units[place]? = some graph.units[place] := List.getElem?_eq_getElem bound
    simp [List.mapM_cons, found, ih others, CallGraph.nameAt_of_getElem? found]

/-- A call back to the stack is noted as the way that the walk closes. -/
theorem close?_ofWalk {walk : Walk} (distinct : walk.path.Nodup)
    (bounded : ∀ place ∈ walk.path, place < graph.size) (member : place ∈ walk.path) :
    (ofWalk graph walk).close? graph place =
      some (ofWalk graph { walk with closed := Walk.loopFrom place walk.path :: walk.closed }) := by
  obtain ⟨start, found, same⟩ := exists_drop_idxOf? distinct member
  -- The places of the way are places of the path.
  have within : ∀ other ∈ Walk.loopFrom place walk.path, other < graph.size := by
    intro other onWay
    rw [← same] at onWay
    exact bounded other (List.mem_reverse.1 (List.mem_of_mem_drop onWay))
  simp only [close?, ofWalk, found, same, mapM_name within, Option.bind_eq_bind, Option.bind_some]
  simp [Walk.path]

end OfWalk

section Run

/-- A walk over the calls of a graph that keeps to the places of the graph. -/
structure KeepsTo (graph : CallGraph) (walk : Walk) : Prop where
  /-- What is known about walks is known about this one. -/
  tracked : walk.IsTracked (CallGraph.calleesOf graph.edges)
  /-- Only places of the graph have been entered. -/
  bounded : ∀ place ∈ walk.entered, place < graph.size

variable {graph : CallGraph} {outer : List Frame} {entered pending : List Nat} {closed : List (List Nat)}
  {place callee : Nat}

/-- A walk has no place on its trail twice, and only places of the graph. -/
theorem KeepsTo.path {walk : Walk} (keeps : KeepsTo graph walk) :
    walk.path.Nodup ∧ ∀ place ∈ walk.path, place < graph.size :=
  ⟨keeps.tracked.distinct.sublist keeps.tracked.path_sublist,
    fun place member => keeps.bounded place (keeps.tracked.path_sublist.subset member)⟩

/-- A step that enters places of the graph only keeps to the graph. -/
theorem KeepsTo.step {walk after : Walk} (keeps : KeepsTo graph walk)
    (step : Walk.Step graph.size (CallGraph.calleesOf graph.edges) walk after)
    (bounded : ∀ place ∈ after.entered, place < graph.size) : KeepsTo graph after :=
  ⟨keeps.tracked.step step, bounded⟩

/-- Going back on the trail keeps to the graph. -/
theorem KeepsTo.leave (keeps : KeepsTo graph ⟨⟨place, []⟩ :: outer, entered, closed⟩) :
    KeepsTo graph ⟨outer, entered, closed⟩ :=
  keeps.step .leave keeps.bounded

/-- The calls still to be followed lead to places of the graph. -/
theorem KeepsTo.callee_lt (keeps : KeepsTo graph ⟨⟨place, callee :: pending⟩ :: outer, entered, closed⟩) :
    callee < graph.size := by
  have own := keeps.tracked.pending ⟨place, callee :: pending⟩ (List.mem_cons_self ..)
  exact CallGraph.lt_size_of_mem_calleesOf (own.subset (List.mem_cons_self ..))

/-- A place that has not been entered makes the trail longer, but not longer than there are places. -/
theorem KeepsTo.length_lt {walk : Walk} (keeps : KeepsTo graph walk) (bound : callee < graph.size)
    (new : callee ∉ walk.entered) : walk.trail.length < graph.size := by
  obtain ⟨distinct, bounded⟩ := keeps.path
  have fresh : callee ∉ walk.path := fun member => new (keeps.tracked.path_sublist.subset member)
  -- The trail and the new place are different places of the graph.
  have within : (callee :: walk.path).Subperm (List.range graph.size) := by
    refine (List.nodup_cons.2 ⟨fresh, distinct⟩).subperm fun other member => List.mem_range.2 ?_
    rcases List.mem_cons.1 member with rfl | member
    · exact bound
    · exact bounded other member
  have counted := within.length_le
  simp only [Walk.path, List.length_cons, List.length_map, List.length_range] at counted
  exact counted

/-- Entering a place that has not been entered keeps to the graph. -/
theorem KeepsTo.enter (keeps : KeepsTo graph ⟨⟨place, callee :: pending⟩ :: outer, entered, closed⟩)
    (new : callee ∉ entered) :
    KeepsTo graph
      (Walk.enter (CallGraph.calleesOf graph.edges) callee ⟨⟨place, pending⟩ :: outer, entered, closed⟩) := by
  refine keeps.step (.enter new) fun other member => ?_
  -- The callee is in range since the graph has only such callees.
  rcases List.mem_cons.1 member with rfl | member
  · exact keeps.callee_lt
  · exact keeps.bounded other member

/-- Meeting a place that has been entered keeps to the graph. -/
theorem KeepsTo.meet (keeps : KeepsTo graph ⟨⟨place, callee :: pending⟩ :: outer, entered, closed⟩)
    (known : callee ∈ entered) :
    KeepsTo graph (Walk.meet callee ⟨⟨place, pending⟩ :: outer, entered, closed⟩) :=
  keeps.step (Walk.step_meet fun _ => known) (by simpa using keeps.bounded)

/-- Following a call to a place entered before does to the search what meeting the place does to the walk. -/
theorem follow?_ofWalk (depth : Nat)
    (keeps : KeepsTo graph ⟨⟨place, callee :: pending⟩ :: outer, entered, closed⟩) (known : callee ∈ entered) :
    follow? graph depth place (ofWalk graph ⟨⟨place, callee :: pending⟩ :: outer, entered, closed⟩) callee =
      some (ofWalk graph (Walk.meet callee ⟨⟨place, pending⟩ :: outer, entered, closed⟩)) := by
  obtain ⟨distinct, bounded⟩ := keeps.path
  have visited : callee ∈ (ofWalk graph ⟨⟨place, callee :: pending⟩ :: outer, entered, closed⟩).visited := by
    simpa [ofWalk] using known
  unfold follow?
  by_cases same : callee = place
  · -- A call of the place to itself.
    rw [if_pos same, Walk.meet_of_aside (.inl same)]
    rfl
  · rw [if_neg same, if_neg (not_not_intro visited)]
    by_cases back : callee ∈ outer.map (·.vertex)
    · have onPath : callee ∈ (⟨⟨place, callee :: pending⟩ :: outer, entered, closed⟩ : Walk).path :=
        List.mem_cons_of_mem place back
      rw [if_pos (by simpa [ofWalk] using onPath), close?_ofWalk distinct bounded onPath,
        Walk.meet_of_back back same]
      rfl
    · -- The place has been left before.
      rw [if_neg (by simpa [ofWalk, Walk.path, same] using back), Walk.meet_of_aside (.inr back)]
      rfl

/--
Coming back along the trail of a walk does what running the walk does.

The depth left and the length of the trail together stay the same, and exceed the number of places.
-/
theorem resume?_run (graph : CallGraph) (walk : Walk) :
    ∀ depth, KeepsTo graph walk → graph.size < depth + walk.trail.length →
      KeepsTo graph (walk.run graph.size (CallGraph.calleesOf graph.edges)) ∧
        resume? graph walk.trail depth (ofWalk graph walk) =
          some (ofWalk graph (walk.run graph.size (CallGraph.calleesOf graph.edges))) := by
  fun_induction Walk.run graph.size (CallGraph.calleesOf graph.edges) walk with
  | case1 walk finished =>
    intro depth keeps _
    refine ⟨keeps, ?_⟩
    rw [finished]
    rfl
  | case2 walk place outer shape ih =>
    obtain ⟨trail, entered, closed⟩ := walk
    obtain rfl : trail = _ := shape
    intro depth keeps deep
    -- The search goes back, and its calls may nest one deeper from there.
    obtain ⟨kept, resumed⟩ := ih (depth + 1) keeps.leave (by simp only [List.length_cons] at deep ⊢; omega)
    have back : (ofWalk graph ⟨⟨place, []⟩ :: outer, entered, closed⟩).leave place =
        ofWalk graph ⟨outer, entered, closed⟩ := leave_ofWalk (List.nodup_cons.1 keeps.path.1).1
    refine ⟨kept, ?_⟩
    rw [← resumed, ← back]
    rfl
  | case3 walk place callee pending outer shape advanced fresh ih =>
    obtain ⟨trail, entered, closed⟩ := walk
    obtain rfl : trail = _ := shape
    intro depth keeps deep
    -- A trail that can still grow leaves some depth for the call.
    have room := keeps.length_lt keeps.callee_lt fresh.2
    obtain ⟨depth, rfl⟩ : ∃ less, depth = less + 1 := ⟨depth - 1, by omega⟩
    have apart : callee ≠ place := by
      rintro rfl
      exact fresh.2 (keeps.tracked.path_sublist.subset (List.mem_cons_self ..))
    obtain ⟨kept, resumed⟩ := ih depth (keeps.enter fresh.2)
      (by simp only [Walk.enter, advanced, List.length_cons] at deep ⊢; omega)
    refine ⟨kept, ?_⟩
    rw [← resumed, ← enter_ofWalk]
    exact resume?_search keeps.callee_lt apart (by simpa [ofWalk] using fresh.2) pending outer
  | case4 walk place callee pending outer shape advanced old ih =>
    obtain ⟨trail, entered, closed⟩ := walk
    obtain rfl : trail = _ := shape
    intro depth keeps deep
    -- A place of the graph that is not fresh has been entered.
    have known : callee ∈ entered := by
      by_contra missing
      exact old ⟨keeps.callee_lt, missing⟩
    obtain ⟨kept, resumed⟩ := ih depth (keeps.meet known) (by simpa [advanced] using deep)
    refine ⟨kept, ?_⟩
    rw [← resumed, Walk.trail_meet]
    simp only [resume?, List.foldlM_cons, follow?_ofWalk depth keeps known, Option.bind_eq_bind, Option.bind_some,
      advanced]

/-- Searching from a place does what walking from it does. -/
theorem visit?_ofWalk {walk : Walk} (keeps : KeepsTo graph walk) (idle : walk.trail = []) (bound : place < graph.size)
    {depth : Nat} (deep : graph.size < depth) :
    KeepsTo graph (walk.visit graph.size (CallGraph.calleesOf graph.edges) place) ∧
      visit? graph depth (ofWalk graph walk) place =
        some (ofWalk graph (walk.visit graph.size (CallGraph.calleesOf graph.edges) place)) := by
  unfold visit? Walk.visit
  by_cases known : place ∈ walk.entered
  · -- A place visited before changes nothing.
    rw [if_pos known, if_neg (by simpa [ofWalk] using known)]
    exact ⟨keeps, rfl⟩
  · rw [if_neg known, if_pos (by simpa [ofWalk] using known)]
    obtain ⟨depth, rfl⟩ : ∃ less, depth = less + 1 := ⟨depth - 1, by omega⟩
    -- The search is the start of a trail that has nothing further out.
    have started : KeepsTo graph (walk.enter (CallGraph.calleesOf graph.edges) place) := by
      obtain ⟨trail, entered, closed⟩ := walk
      obtain rfl : trail = [] := idle
      exact keeps.step (.start known) (List.forall_mem_cons.2 ⟨bound, keeps.bounded⟩)
    obtain ⟨kept, resumed⟩ := resume?_run graph _ depth started (by simpa [Walk.enter, idle] using deep)
    refine ⟨kept, ?_⟩
    rw [← resumed, ← enter_ofWalk, search?_succ bound]
    simp [Walk.enter, idle, resume?]

/-- Searching from some places in turn does what walking from them does. -/
theorem foldlM_visit? {depth : Nat} (deep : graph.size < depth) (starts : List Nat)
    (bounded : ∀ start ∈ starts, start < graph.size) :
    ∀ walk : Walk, KeepsTo graph walk → walk.trail = [] →
      starts.foldlM (visit? graph depth) (ofWalk graph walk) =
        some (ofWalk graph (starts.foldl (Walk.visit graph.size (CallGraph.calleesOf graph.edges)) walk)) := by
  induction starts with
  | nil => exact fun _ _ _ => rfl
  | cons start rest ih =>
    intro walk keeps idle
    obtain ⟨bound, others⟩ := List.forall_mem_cons.1 bounded
    obtain ⟨kept, visited⟩ := visit?_ofWalk keeps idle bound deep
    -- Between two starts nothing is left on the trail.
    have stillIdle : (walk.visit graph.size (CallGraph.calleesOf graph.edges) start).trail = [] := by
      unfold Walk.visit
      split
      · exact idle
      · exact Walk.trail_run _ _ _
    rw [List.foldlM_cons, visited]
    exact ih others _ kept stillIdle

end Run

end CycleSearch

namespace CallGraph

/-- The cycles that recursion finds from each place in turn, if its calls may nest to some depth. -/
def recursiveCycles? (graph : CallGraph) (depth : Nat) : Option (List (List String)) :=
  ((List.range graph.size).foldlM (CycleSearch.visit? graph depth) {}).map (·.cycles)

/-- Recursion finds the cycles of a graph in their order, and its calls nest no deeper than there are units. -/
theorem recursiveCycles?_eq (graph : CallGraph) {depth : Nat} (deep : graph.size < depth) :
    graph.recursiveCycles? depth = some graph.cycles := by
  have start : CycleSearch.KeepsTo graph {} := ⟨Walk.isTracked_empty _, by simp⟩
  have searched := CycleSearch.foldlM_visit? deep (List.range graph.size) (fun _ => List.mem_range.1) {} start rfl
  -- The search starts with nothing in mind, as a walk does.
  rw [recursiveCycles?, show ({} : CycleSearch) = CycleSearch.ofWalk graph {} from rfl, searched]
  rfl

end CallGraph

end CallersFirst
