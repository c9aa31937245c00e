import CallersFirst.Proofs.CallGraph.OnlyCaller
import Mathlib.Data.List.Chain

/-! The ways that a walk closes: each is a way around, none is missed for good, and none is closed twice. -/

namespace CallersFirst

/-- A way around: two or more different vertices, an edge from each to the next and one from the last to the first. -/
structure IsLoop {α : Type} (edge : α → α → Prop) (loop : List α) : Prop where
  /-- There are two vertices at least. -/
  two_le : 2 ≤ loop.length
  /-- No vertex is passed twice. -/
  distinct : loop.Nodup
  /-- Every vertex has an edge to the next one. -/
  chain : loop.IsChain edge
  /-- The last vertex has an edge to the first one. -/
  closes : ∀ first ∈ loop.head?, ∀ last ∈ loop.getLast?, edge last first

namespace IsLoop

variable {α β : Type} {edge : α → α → Prop} {loop : List α}

/-- Renaming the vertices of a way around one to one gives a way around. -/
theorem map {name : α → β} {edge' : β → β → Prop} (around : IsLoop edge loop)
    (apart : ∀ vertex ∈ loop, ∀ other ∈ loop, name vertex = name other → vertex = other)
    (edges : ∀ vertex ∈ loop, ∀ other ∈ loop, edge vertex other → edge' (name vertex) (name other)) :
    IsLoop edge' (loop.map name) := by
  refine ⟨by simpa using around.two_le, ?_, ?_, ?_⟩
  -- Distinctness, the edges along the way and the edge that closes it are carried over in turn.
  · exact around.distinct.map_on fun vertex member other isOther => apart vertex member other isOther
  · rw [List.isChain_map]
    exact around.chain.imp_of_mem_imp fun vertex other member isOther => edges vertex member other isOther
  · intro first isFirst last isLast
    rw [List.head?_map] at isFirst
    rw [List.getLast?_map] at isLast
    obtain ⟨start, isStart, rfl⟩ := Option.map_eq_some_iff.1 isFirst
    obtain ⟨stop, isStop, rfl⟩ := Option.map_eq_some_iff.1 isLast
    exact edges stop (List.mem_of_getLast? isStop) start (List.mem_of_head? isStart)
      (around.closes start isStart stop isStop)

/-- A way around leads from its first vertex back to it, never along an edge from a vertex to itself. -/
theorem exists_transGen (around : IsLoop edge loop) :
    ∃ vertex, Relation.TransGen (fun vertex other => edge vertex other ∧ vertex ≠ other) vertex vertex := by
  -- Two vertices at least are left once the first one is taken off.
  obtain ⟨first, second, rest, rfl⟩ : ∃ first second rest, loop = first :: second :: rest := by
    match loop, around.two_le with
    | first :: second :: rest, _ => exact ⟨first, second, rest, rfl⟩
  have nonempty : first :: second :: rest ≠ [] := List.cons_ne_nil _ _
  have last := List.getLast?_eq_some_getLast nonempty
  have onward : Relation.ReflTransGen edge first ((first :: second :: rest).getLast nonempty) :=
    List.relationReflTransGen_of_exists_isChain _ around.chain nonempty
  -- The last vertex stands behind the first one, so that the two differ.
  have apart : (first :: second :: rest).getLast nonempty ≠ first := by
    rw [List.getLast_cons (List.cons_ne_nil _ _)]
    exact fun same => (List.nodup_cons.1 around.distinct).1 (same ▸ List.getLast_mem _)
  exact ⟨first, .tail' (reflTransGen_apart onward) ⟨around.closes first rfl _ last, apart⟩⟩

end IsLoop

namespace Walk

/-- What can happen next on a walk. -/
inductive Step (size : Nat) (next : Nat → List Nat) : Walk → Walk → Prop where
  /-- With nothing left to follow, a walk starts anew. -/
  | start {entered : List Nat} {closed : List (List Nat)} {vertex : Nat} (new : vertex ∉ entered) :
      Step size next ⟨[], entered, closed⟩ ⟨[⟨vertex, next vertex⟩], vertex :: entered, closed⟩
  /-- A vertex with no edges left is left. -/
  | leave {outer : List Frame} {entered : List Nat} {closed : List (List Nat)} {vertex : Nat} :
      Step size next ⟨⟨vertex, []⟩ :: outer, entered, closed⟩ ⟨outer, entered, closed⟩
  /-- An edge to a new vertex is followed. -/
  | enter {outer : List Frame} {entered : List Nat} {closed : List (List Nat)} {vertex target : Nat}
      {pending : List Nat} (new : target ∉ entered) :
      Step size next ⟨⟨vertex, target :: pending⟩ :: outer, entered, closed⟩
        ⟨⟨target, next target⟩ :: ⟨vertex, pending⟩ :: outer, target :: entered, closed⟩
  /-- An edge back to an earlier vertex of the trail closes a way. -/
  | close {outer : List Frame} {entered : List Nat} {closed : List (List Nat)} {vertex target : Nat}
      {pending : List Nat} (back : target ∈ outer.map (·.vertex)) (apart : target ≠ vertex) :
      Step size next ⟨⟨vertex, target :: pending⟩ :: outer, entered, closed⟩
        ⟨⟨vertex, pending⟩ :: outer, entered,
          loopFrom target (vertex :: outer.map (·.vertex)) :: closed⟩
  /-- Any other edge is passed over, and within range it leads to a vertex entered before. -/
  | pass {outer : List Frame} {entered : List Nat} {closed : List (List Nat)} {vertex target : Nat}
      {pending : List Nat} (aside : target = vertex ∨ target ∉ outer.map (·.vertex))
      (old : target < size → target ∈ entered) :
      Step size next ⟨⟨vertex, target :: pending⟩ :: outer, entered, closed⟩
        ⟨⟨vertex, pending⟩ :: outer, entered, closed⟩

section Steps

variable {size : Nat} {next : Nat → List Nat}

section Meet

variable {outer : List Frame} {entered pending : List Nat} {closed : List (List Nat)} {vertex target : Nat}

/-- An edge from the current vertex back to another one of the trail closes a way. -/
theorem meet_of_back (back : target ∈ outer.map (·.vertex)) (apart : target ≠ vertex) :
    meet target ⟨⟨vertex, pending⟩ :: outer, entered, closed⟩ =
      ⟨⟨vertex, pending⟩ :: outer, entered, loopFrom target (vertex :: outer.map (·.vertex)) :: closed⟩ := by
  rw [meet, if_pos]
  · rfl
  · simp only [path, List.map_cons, List.mem_cons, List.head?_cons, ne_eq, Option.some.injEq]
    exact ⟨.inr back, Ne.symm apart⟩

/-- An edge from the current vertex to itself or away from the trail changes nothing. -/
theorem meet_of_aside (aside : target = vertex ∨ target ∉ outer.map (·.vertex)) :
    meet target ⟨⟨vertex, pending⟩ :: outer, entered, closed⟩ = ⟨⟨vertex, pending⟩ :: outer, entered, closed⟩ := by
  rw [meet, if_neg]
  simp only [path, List.map_cons, List.mem_cons, List.head?_cons, ne_eq, Option.some.injEq]
  intro both
  -- Closing a loop takes a target on the trail that is not the current vertex.
  rcases aside with same | off
  · exact both.2 same.symm
  · exact off (both.1.resolve_left (Ne.symm both.2))

/-- Following an edge that leads to no new vertex is a step. -/
theorem step_meet (old : target < size → target ∈ entered) :
    Step size next ⟨⟨vertex, target :: pending⟩ :: outer, entered, closed⟩
      (meet target ⟨⟨vertex, pending⟩ :: outer, entered, closed⟩) := by
  -- Whether the edge closes a way is decided on the trail behind the current vertex.
  by_cases back : target ∈ outer.map (·.vertex) ∧ target ≠ vertex
  · rw [meet_of_back back.1 back.2]
    exact .close back.1 back.2
  · have aside : target = vertex ∨ target ∉ outer.map (·.vertex) := by
      by_cases same : target = vertex
      · exact .inl same
      · exact .inr fun member => back ⟨member, same⟩
    rw [meet_of_aside aside]
    exact .pass aside old

end Meet

/-- A run is made of steps. -/
theorem run_steps (size : Nat) (next : Nat → List Nat) (walk : Walk) :
    Relation.ReflTransGen (Step size next) walk (walk.run size next) := by
  -- Each turn of the run leaves a vertex, enters a new one or meets an old one.
  fun_induction run size next walk with
  | case1 walk finished => exact .refl
  | case2 walk vertex outer shape ih =>
    obtain ⟨trail, entered, closed⟩ := walk
    obtain rfl : trail = _ := shape
    exact .head .leave ih
  | case3 walk vertex target pending outer shape advanced fresh ih =>
    obtain ⟨trail, entered, closed⟩ := walk
    obtain rfl : trail = _ := shape
    exact .head (.enter fresh.2) ih
  | case4 walk vertex target pending outer shape advanced old ih =>
    obtain ⟨trail, entered, closed⟩ := walk
    obtain rfl : trail = _ := shape
    refine .head (step_meet fun bound => ?_) ih
    by_contra missing
    exact old ⟨bound, missing⟩

/-- A walk comes to its end, and whatever holds at first and is kept by every step holds there. -/
theorem fromStarts_induction (size : Nat) {motive : Walk → Prop} (first : motive {})
    (step : ∀ {walk after : Walk}, Step size next walk after → motive walk → motive after) (starts : List Nat) :
    (fromStarts size next starts).trail = [] ∧ motive (fromStarts size next starts) := by
  -- A run is many steps, each of which keeps the property.
  have steps : ∀ {walk after : Walk}, Relation.ReflTransGen (Step size next) walk after →
      motive walk → motive after := by
    intro walk after taken holds
    induction taken with
    | refl => exact holds
    | tail _ last ih => exact step last ih
  -- Between two starts nothing is left to follow.
  have visits : ∀ (starts : List Nat) (walk : Walk), walk.trail = [] → motive walk →
      (starts.foldl (visit size next) walk).trail = [] ∧ motive (starts.foldl (visit size next) walk) := by
    intro starts
    induction starts with
    | nil => exact fun _ idle holds => ⟨idle, holds⟩
    | cons start rest ih =>
      intro walk idle holds
      rw [List.foldl_cons, visit]
      split
      · exact ih walk idle holds
      -- A new start makes a trail, and the run from there leaves none.
      · rename_i new
        refine ih _ (trail_run _ _ _) (steps (run_steps size next _) ?_)
        obtain ⟨trail, entered, closed⟩ := walk
        obtain rfl : trail = [] := idle
        exact step (.start new) holds
  exact visits starts {} rfl first

end Steps

section Tracked

/-- What is known about a walk, its trail and the ways it has closed. -/
structure IsTracked (next : Nat → List Nat) (walk : Walk) : Prop where
  /-- No vertex is entered twice. -/
  distinct : walk.entered.Nodup
  /-- The trail keeps the order in which its vertices were entered. -/
  path_sublist : walk.path.Sublist walk.entered
  /-- Every vertex of the trail was entered by an edge from the one before it. -/
  chain : walk.path.IsChain fun inner outer => inner ∈ next outer
  /-- The edges still to be followed are the last ones of their vertex. -/
  pending : ∀ frame ∈ walk.trail, frame.pending <:+ next frame.vertex
  /-- Every closed way is a way around, in the order in which its vertices were entered. -/
  loops : ∀ loop ∈ walk.closed,
    IsLoop (fun vertex target => target ∈ next vertex) loop ∧ loop.Sublist walk.entered.reverse

variable {size : Nat} {next : Nat → List Nat}

/-- The part of a path from a vertex on is the path up to that vertex, read backwards. -/
theorem exists_loopFrom_eq {path : List Nat} {target : Nat} (member : target ∈ path) :
    ∃ inner outer, path = inner ++ target :: outer ∧ loopFrom target path = (inner ++ [target]).reverse := by
  have parts : ∃ outer, path = path.takeWhile (· ≠ target) ++ target :: outer := by
    -- The path is followed up to the first time it comes to the vertex.
    induction path with
    | nil => cases member
    | cons first rest ih =>
      by_cases same : first = target
      · exact ⟨rest, by simp [same]⟩
      · obtain ⟨outer, parts⟩ := ih ((List.mem_cons.1 member).resolve_left (Ne.symm same))
        refine ⟨outer, ?_⟩
        rw [List.takeWhile_cons_of_pos (by simpa using same), List.cons_append, ← parts]
  obtain ⟨outer, parts⟩ := parts
  exact ⟨path.takeWhile (· ≠ target), outer, parts, by simp [loopFrom]⟩

/-- An edge from the current vertex back to the trail closes a way around. -/
theorem isLoop_loopFrom {vertex target : Nat} {outer : List Nat}
    (distinct : (vertex :: outer).Nodup)
    (chain : (vertex :: outer).IsChain fun inner outer => inner ∈ next outer) (back : target ∈ outer)
    (edge : target ∈ next vertex) :
    IsLoop (fun vertex target => target ∈ next vertex) (loopFrom target (vertex :: outer)) ∧
      (loopFrom target (vertex :: outer)).Sublist (vertex :: outer).reverse := by
  obtain ⟨inner, further, parts, same⟩ := exists_loopFrom_eq (List.mem_cons_of_mem vertex back)
  -- The current vertex is not the target, so that it stands in front of it.
  obtain ⟨rest, rfl⟩ : ∃ rest, inner = vertex :: rest := by
    cases inner with
    | nil =>
      obtain ⟨rfl, _⟩ := List.cons.inj parts
      exact absurd back (List.nodup_cons.1 distinct).1
    | cons first rest =>
      obtain ⟨rfl, _⟩ := List.cons.inj parts
      exact ⟨rest, rfl⟩
  have initial : (vertex :: rest ++ [target]) <+: vertex :: outer := ⟨further, by rw [parts]; simp⟩
  rw [same]
  refine ⟨⟨by simp, ?_, ?_, ?_⟩, List.reverse_sublist.2 initial.sublist⟩
  · exact List.nodup_reverse.2 (distinct.sublist initial.sublist)
  · rw [List.isChain_reverse]
    exact List.IsChain.prefix chain initial
  · -- The way starts at the target and stops at the current vertex.
    intro first isFirst last isLast
    obtain rfl : target = first := by simpa using isFirst
    obtain rfl : vertex = last := by
      rw [List.getLast?_reverse] at isLast
      simpa using isLast
    exact edge

/-- Entering a new vertex keeps the order of what was entered before. -/
theorem IsTracked.loops_enter {walk : Walk} (tracked : walk.IsTracked next) (vertex : Nat) :
    ∀ loop ∈ walk.closed, IsLoop (fun vertex target => target ∈ next vertex) loop ∧
      loop.Sublist (vertex :: walk.entered).reverse := by
  intro loop member
  obtain ⟨around, ordered⟩ := tracked.loops loop member
  refine ⟨around, ?_⟩
  rw [List.reverse_cons]
  exact ordered.trans (List.sublist_append_left _ _)

/-- The edges left after one of them are among those left before. -/
theorem suffix_of_advance {vertex target : Nat} {rest : List Nat} {outer : List Frame}
    (pending : ∀ frame ∈ ⟨vertex, target :: rest⟩ :: outer, frame.pending <:+ next frame.vertex) :
    ∀ frame ∈ ⟨vertex, rest⟩ :: outer, frame.pending <:+ next frame.vertex := by
  intro frame member
  rcases List.mem_cons.1 member with same | member
  · rw [same]
    exact (List.suffix_cons target rest).trans (pending ⟨vertex, target :: rest⟩ (List.mem_cons_self ..))
  · exact pending frame (List.mem_cons_of_mem _ member)

/-- Every step keeps what is known about a walk. -/
theorem IsTracked.step {walk after : Walk} (step : Step size next walk after) (tracked : walk.IsTracked next) :
    after.IsTracked next := by
  obtain ⟨distinct, path_sublist, chain, pending, loops⟩ := id tracked
  cases step with
  | start new =>
    refine ⟨List.nodup_cons.2 ⟨new, distinct⟩, by simp [path], by simp [path], ?_, tracked.loops_enter _⟩
    intro frame member
    obtain rfl := List.mem_singleton.1 member
    exact List.suffix_rfl
  | leave =>
    refine ⟨distinct, (List.sublist_cons_self _ _).trans path_sublist, chain.tail, ?_, loops⟩
    exact fun frame member => pending frame (List.mem_cons_of_mem _ member)
  | @enter outer entered closed vertex target rest new =>
    -- Whatever is still to be followed from the top is a rest of its own edges.
    have own : target :: rest <:+ next vertex := pending ⟨vertex, target :: rest⟩ (List.mem_cons_self ..)
    refine ⟨List.nodup_cons.2 ⟨new, distinct⟩, path_sublist.cons_cons target, ?_, ?_, tracked.loops_enter _⟩
    · -- The trail grows by the edge that has just been followed.
      exact List.isChain_cons_cons.2 ⟨own.subset (List.mem_cons_self ..), chain⟩
    · intro frame member
      rcases List.mem_cons.1 member with rfl | member
      · exact List.suffix_rfl
      · exact suffix_of_advance pending frame member
  | @close outer entered closed vertex target rest back apart =>
    have own : target :: rest <:+ next vertex := pending ⟨vertex, target :: rest⟩ (List.mem_cons_self ..)
    refine ⟨distinct, path_sublist, chain, suffix_of_advance pending, ?_⟩
    intro loop member
    rcases List.mem_cons.1 member with rfl | member
    -- The new way is a part of the trail, closed by the edge that leads back.
    · obtain ⟨around, ordered⟩ := isLoop_loopFrom (distinct.sublist path_sublist) chain back
        (own.subset (List.mem_cons_self ..))
      exact ⟨around, ordered.trans (List.reverse_sublist.2 path_sublist)⟩
    · exact loops loop member
  | pass aside old => exact ⟨distinct, path_sublist, chain, suffix_of_advance pending, loops⟩

/-- Nothing is known wrongly about a walk that has not started. -/
theorem isTracked_empty (next : Nat → List Nat) : IsTracked next {} := by
  constructor <;> simp [path]

/-- A walk from some starts is tracked to its end. -/
theorem isTracked_fromStarts (size : Nat) (next : Nat → List Nat) (starts : List Nat) :
    (fromStarts size next starts).IsTracked next :=
  (fromStarts_induction size (isTracked_empty next) (fun step tracked => tracked.step step) starts).2

end Tracked

section Pending

/-- An edge still to be followed from a vertex of the trail. -/
def IsPending (trail : List Frame) (vertex target : Nat) : Prop :=
  ∃ frame ∈ trail, frame.vertex = vertex ∧ target ∈ frame.pending

variable {vertex target : Nat} {outer : List Frame}

/-- The edges to be followed are those of the current vertex and those of the rest of the trail. -/
theorem isPending_cons_iff {frame : Frame} :
    IsPending (frame :: outer) vertex target ↔
      frame.vertex = vertex ∧ target ∈ frame.pending ∨ IsPending outer vertex target := by
  simp [IsPending]

/-- Following an edge takes that edge off those to be followed, or a copy of it. -/
theorem isPending_advance_iff {current first : Nat} {rest : List Nat} :
    IsPending (⟨current, first :: rest⟩ :: outer) vertex target ↔
      current = vertex ∧ target = first ∨ IsPending (⟨current, rest⟩ :: outer) vertex target := by
  simp only [isPending_cons_iff, List.mem_cons]
  tauto

/-- Edges are to be followed only from vertices of the trail. -/
theorem IsPending.mem_path (pending : IsPending outer vertex target) : vertex ∈ outer.map (·.vertex) := by
  obtain ⟨frame, member, rfl, _⟩ := pending
  exact List.mem_map_of_mem member

end Pending

section Once

/-- No way is closed twice, and the edge that has closed a way is not followed again. -/
structure ClosesOnce (walk : Walk) : Prop where
  /-- The closed ways all differ. -/
  distinct : walk.closed.Nodup
  /-- The edge from the last to the first vertex of a closed way is not to be followed any more. -/
  spent : ∀ loop ∈ walk.closed, ∀ first ∈ loop.head?, ∀ last ∈ loop.getLast?,
    ¬ IsPending walk.trail last first

variable {size : Nat} {next : Nat → List Nat}

/-- The way closed at the current vertex starts at the target and stops at that vertex. -/
theorem ends_loopFrom {vertex target : Nat} (outer : List Nat) (apart : target ≠ vertex) :
    (loopFrom target (vertex :: outer)).head? = some target ∧
      (loopFrom target (vertex :: outer)).getLast? = some vertex := by
  rw [loopFrom, List.takeWhile_cons_of_pos (by simpa using Ne.symm apart)]
  refine ⟨rfl, ?_⟩
  rw [List.reverse_cons, ← List.cons_append, List.getLast?_concat]

/-- The last vertex of a closed way has been entered. -/
theorem IsTracked.last_mem_entered {walk : Walk} (tracked : walk.IsTracked next) {loop : List Nat}
    (member : loop ∈ walk.closed) {last : Nat} (isLast : last ∈ loop.getLast?) : last ∈ walk.entered :=
  List.mem_reverse.1 ((tracked.loops loop member).2.subset (List.mem_of_getLast? isLast))

/-- An edge that was followed just now is not to be followed again, unless its vertex repeats it. -/
theorem IsTracked.not_isPending {vertex target : Nat} {rest entered : List Nat} {outer : List Frame}
    {closed : List (List Nat)}
    (tracked : IsTracked next ⟨⟨vertex, target :: rest⟩ :: outer, entered, closed⟩)
    (simple : (next vertex).Nodup) : ¬ IsPending (⟨vertex, rest⟩ :: outer) vertex target := by
  rw [isPending_cons_iff]
  intro pending
  rcases pending with ⟨_, again⟩ | further
  · have own := tracked.pending ⟨vertex, target :: rest⟩ (List.mem_cons_self ..)
    exact (List.nodup_cons.1 (simple.sublist own.sublist)).1 again
  · -- The current vertex is on the trail only once.
    have path := tracked.distinct.sublist tracked.path_sublist
    exact (List.nodup_cons.1 path).1 further.mem_path

/-- Where no vertex repeats an edge, a step closes no way for the second time. -/
theorem ClosesOnce.step (simple : ∀ vertex, (next vertex).Nodup) {walk after : Walk}
    (step : Step size next walk after) (tracked : walk.IsTracked next) (once : walk.ClosesOnce) :
    after.ClosesOnce := by
  obtain ⟨distinct, spent⟩ := once
  cases step with
  | start new =>
    refine ⟨distinct, fun loop member first _ last isLast pending => ?_⟩
    -- The only edges to be followed are those of a new vertex, at which no closed way stops.
    obtain rfl := List.mem_singleton.1 pending.mem_path
    exact new (tracked.last_mem_entered member isLast)
  | leave =>
    refine ⟨distinct, fun loop member first isFirst last isLast pending => ?_⟩
    exact spent loop member first isFirst last isLast (isPending_cons_iff.2 (.inr pending))
  | enter new =>
    refine ⟨distinct, fun loop member first isFirst last isLast pending => ?_⟩
    rcases isPending_cons_iff.1 pending with ⟨rfl, _⟩ | further
    · exact new (tracked.last_mem_entered member isLast)
    · exact spent loop member first isFirst last isLast (isPending_advance_iff.2 (.inr further))
  | @close outer entered closed vertex target rest back apart =>
    obtain ⟨starts, stops⟩ := ends_loopFrom (outer.map (·.vertex)) apart
    refine ⟨List.nodup_cons.2 ⟨fun again => ?_, distinct⟩, fun loop member first isFirst last isLast => ?_⟩
    · -- The same way would have been closed by the same edge, which is pending only now.
      exact spent _ again target starts vertex stops (isPending_advance_iff.2 (.inl ⟨rfl, rfl⟩))
    · rcases List.mem_cons.1 member with rfl | member
      · obtain rfl : target = first := Option.some.inj (starts.symm.trans isFirst)
        obtain rfl : vertex = last := Option.some.inj (stops.symm.trans isLast)
        exact tracked.not_isPending (simple vertex)
      · exact fun pending =>
          spent loop member first isFirst last isLast (isPending_advance_iff.2 (.inr pending))
  | pass aside known =>
    refine ⟨distinct, fun loop member first isFirst last isLast pending => ?_⟩
    exact spent loop member first isFirst last isLast (isPending_advance_iff.2 (.inr pending))

/-- Where no vertex repeats an edge, a walk closes no way twice. -/
theorem nodup_closed_fromStarts (size : Nat) (simple : ∀ vertex, (next vertex).Nodup) (starts : List Nat) :
    (fromStarts size next starts).closed.Nodup := by
  have known := fromStarts_induction size (motive := fun walk => walk.IsTracked next ∧ walk.ClosesOnce)
    ⟨isTracked_empty next, by constructor <;> simp⟩
    (fun step known => ⟨known.1.step step, known.2.step simple step known.1⟩) starts
  exact known.2.2.distinct

end Once

section Ranked

/--
The vertices entered so far can be put in an order in which every edge followed leads further down.

The trail comes first, in the order in which it was entered, and then what has been left.
This may fail only once a way has been closed.
-/
def IsRanked (next : Nat → List Nat) (walk : Walk) : Prop :=
  ∃ finished, (walk.path.reverse ++ finished).Perm walk.entered ∧
    ∀ vertex ∈ walk.entered, ∀ target ∈ next vertex, target ≠ vertex →
      [vertex, target].Sublist (walk.path.reverse ++ finished) ∨
        IsPending walk.trail vertex target ∨ walk.closed ≠ []

variable {size : Nat} {next : Nat → List Nat}

/-- Every step keeps the order, or closes a way. -/
theorem IsRanked.step (bounded : ∀ vertex, ∀ target ∈ next vertex, target < size) {walk after : Walk}
    (step : Step size next walk after) (ranked : walk.IsRanked next) :
    after.IsRanked next := by
  obtain ⟨finished, complete, down⟩ := ranked
  cases step with
  | @start entered closed vertex new =>
    refine ⟨finished, complete.cons vertex, ?_⟩
    intro source member other edge apart
    rcases List.mem_cons.1 member with rfl | old
    · -- All edges of the new vertex are still to be followed.
      exact .inr (.inl (isPending_cons_iff.2 (.inl ⟨rfl, edge⟩)))
    · rcases down source old other edge apart with lower | pending | closes
      · exact .inl (lower.cons vertex)
      · cases pending.mem_path
      · exact .inr (.inr closes)
  | @leave outer entered closed vertex =>
    -- The vertex that is left keeps its place in the order.
    have same : (outer.map (·.vertex)).reverse ++ vertex :: finished =
        (vertex :: outer.map (·.vertex)).reverse ++ finished := by simp
    refine ⟨vertex :: finished, same ▸ complete, ?_⟩
    intro source member other edge apart
    rcases down source member other edge apart with lower | pending | closes
    · exact .inl (same ▸ lower)
    · rcases isPending_cons_iff.1 pending with ⟨_, nothing⟩ | further
      · cases nothing
      · exact .inr (.inl further)
    · exact .inr (.inr closes)
  | @enter outer entered closed vertex target rest new =>
    -- The new vertex comes right behind the trail.
    have same : (target :: vertex :: outer.map (·.vertex)).reverse ++ finished =
        (vertex :: outer.map (·.vertex)).reverse ++ target :: finished := by simp
    have grown : ((vertex :: outer.map (·.vertex)).reverse ++ finished).Sublist
        ((vertex :: outer.map (·.vertex)).reverse ++ target :: finished) :=
      (List.Sublist.refl _).append (List.sublist_cons_self target finished)
    refine ⟨finished, same ▸ List.perm_middle.trans (complete.cons target), ?_⟩
    intro source member other edge apart
    rcases List.mem_cons.1 member with rfl | old
    · exact .inr (.inl (isPending_cons_iff.2 (.inl ⟨rfl, edge⟩)))
    · rcases down source old other edge apart with lower | pending | closes
      · exact .inl (same ▸ lower.trans grown)
      · rcases isPending_advance_iff.1 pending with ⟨rfl, rfl⟩ | further
        · exact .inl (same ▸ (List.singleton_sublist.2 (by simp)).append
            (List.singleton_sublist.2 (List.mem_cons_self ..)))
        · exact .inr (.inl (isPending_cons_iff.2 (.inr further)))
      · exact .inr (.inr closes)
  | close back apart => exact ⟨finished, complete, fun _ _ _ _ _ => .inr (.inr (List.cons_ne_nil _ _))⟩
  | @pass outer entered closed vertex target rest aside old =>
    refine ⟨finished, complete, ?_⟩
    intro source member other edge apart
    rcases down source member other edge apart with lower | pending | closes
    · exact .inl lower
    · rcases isPending_advance_iff.1 pending with ⟨rfl, rfl⟩ | further
      · -- The target has been entered and is not on the trail, so that it has been left.
        have known := complete.mem_iff.2 (old (bounded _ _ edge))
        have offTrail : other ∉ (vertex :: outer.map (·.vertex)).reverse := by
          rw [List.mem_reverse, List.mem_cons, not_or]
          exact ⟨apart, aside.resolve_left apart⟩
        have left := (List.mem_append.1 known).resolve_left offTrail
        exact .inl ((List.singleton_sublist.2 (by simp [path])).append (List.singleton_sublist.2 left))
      · exact .inr (.inl further)
    · exact .inr (.inr closes)

/-- In a list without repetitions, what stands before a member stands before all that follow it. -/
theorem pair_sublist_trans {list : List Nat} (distinct : list.Nodup) {first second third : Nat}
    (before : [first, second].Sublist list) (behind : [second, third].Sublist list) :
    [first, third].Sublist list := by
  obtain ⟨front, back, rfl⟩ := List.append_of_mem (behind.subset (by simp : third ∈ [second, third]))
  rw [pair_sublist_append_cons_iff distinct] at behind ⊢
  obtain ⟨start, middle, rfl⟩ := List.append_of_mem behind
  rw [List.append_assoc, List.cons_append] at before distinct
  exact List.mem_append_left _ ((pair_sublist_append_cons_iff distinct).1 before)

/-- A walk from every vertex closes a way if there is a way around. -/
theorem closed_fromStarts_ne_nil (bounded : ∀ vertex, ∀ target ∈ next vertex, target < size)
    {vertex : Nat}
    (around : Relation.TransGen (fun vertex target => target ∈ next vertex ∧ vertex ≠ target) vertex vertex) :
    (fromStarts size next (List.range size)).closed ≠ [] := by
  have traversal := fromStarts_traverses bounded (List.range size)
  obtain ⟨idle, finished, complete, down⟩ := fromStarts_induction size (motive := IsRanked next)
    ⟨[], by simp [path], by simp⟩ (fun step ranked => ranked.step bounded step) (List.range size)
  have entered : ∀ vertex < size, vertex ∈ (fromStarts size next (List.range size)).entered := by
    intro vertex bound
    simpa using traversal.mem_of_mem_targets vertex (List.mem_range.2 bound)
  have distinct := complete.nodup_iff.2 (List.nodup_reverse.1 traversal.nodup)
  intro unclosed
  -- At the end all edges have been followed, each of them further down in the order.
  have lower : ∀ vertex < size, ∀ target, target ∈ next vertex ∧ vertex ≠ target →
      [vertex, target].Sublist ((fromStarts size next (List.range size)).path.reverse ++ finished) := by
    intro vertex bound target edge
    rcases down vertex (entered vertex bound) target edge.1 edge.2.symm with lower | pending | closes
    · exact lower
    · rw [idle] at pending
      cases pending.mem_path
    · exact absurd unclosed closes
  -- So is the end of every way, which can therefore not be its start.
  have furtherDown : ∀ start < size, ∀ target, Relation.TransGen
      (fun vertex target => target ∈ next vertex ∧ vertex ≠ target) start target →
      [start, target].Sublist ((fromStarts size next (List.range size)).path.reverse ++ finished) := by
    intro start bound target way
    induction way with
    | single edge => exact lower start bound _ edge
    | @tail middle last way edge ih =>
      obtain ⟨_, _, last⟩ := Relation.TransGen.tail'_iff.1 way
      exact pair_sublist_trans distinct ih (lower middle (bounded _ _ last.1) _ edge)
  obtain ⟨_, _, last⟩ := Relation.TransGen.tail'_iff.1 around
  have twice := (furtherDown vertex (bounded _ _ last.1) vertex around).nodup distinct
  simp at twice

end Ranked

end Walk

end CallersFirst
