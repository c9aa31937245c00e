import CallersFirst.Proofs.CallGraph.ClosedWays
import CallersFirst.Proofs.CallGraph.Representation
import Mathlib.Data.List.Rotate

/-! The cycles that a graph reports: real ones only, at least one if there is any, and none of them twice. -/

namespace CallersFirst

namespace CallGraph

section Reported

variable {graph : CallGraph}

/-- A reported cycle is a way that the walk over all units has closed, by name. -/
theorem exists_closed_of_mem_cycles {cycle : List String} (reported : cycle ∈ graph.cycles) :
    ∃ loop ∈ (graph.walkFrom (List.range graph.size)).closed, loop.map graph.nameAt = cycle := by
  obtain ⟨loop, member, same⟩ := List.mem_map.1 reported
  exact ⟨loop, List.mem_reverse.1 member, same⟩

/-- What the walk over all units has closed are ways around, made of places of the graph. -/
theorem isLoop_of_mem_closed {loop : List Nat}
    (member : loop ∈ (graph.walkFrom (List.range graph.size)).closed) :
    IsLoop (fun caller callee => callee ∈ calleesOf graph.edges caller) loop ∧
      loop.Sublist (graph.walkFrom (List.range graph.size)).entered.reverse ∧
      ∀ position ∈ loop, position < graph.size := by
  have tracked := Walk.isTracked_fromStarts graph.size (calleesOf graph.edges) (List.range graph.size)
  obtain ⟨around, ordered⟩ := tracked.loops loop member
  refine ⟨around, ordered, fun position onWay => ?_⟩
  -- A walk enters places of the graph only.
  exact lt_size_of_mem_entered (fun start isStart => List.mem_range.1 isStart) position
    (List.mem_reverse.1 (ordered.subset onWay))

/-- Every reported cycle is a way around along the calls. -/
theorem isLoop_of_mem_cycles (consistent : graph.IsConsistent) {cycle : List String}
    (reported : cycle ∈ graph.cycles) : IsLoop graph.Calls cycle := by
  obtain ⟨loop, member, rfl⟩ := exists_closed_of_mem_cycles reported
  obtain ⟨around, _, bounded⟩ := isLoop_of_mem_closed member
  -- Places in range have names one to one, and calls between names are those between places.
  refine around.map ?_ ?_
  · intro caller isCaller callee isCallee
    exact nameAt_injective consistent (bounded caller isCaller) (bounded callee isCallee)
  · intro caller isCaller callee isCallee called
    exact (calls_nameAt_iff consistent (bounded caller isCaller) (bounded callee isCallee)).2 called

/-- A name of the graph stands at the place where it is found. -/
theorem nameAt_idxOf {name : String} (listed : name ∈ graph.names) :
    graph.names.idxOf name < graph.size ∧ graph.nameAt (graph.names.idxOf name) = name := by
  have bound := List.idxOf_lt_length_of_mem listed
  exact ⟨by simpa using bound, by simp [nameAt, List.getElem?_eq_getElem bound]⟩

/-- A call from one unit to another is a call between two different places. -/
theorem called_of_calls (consistent : graph.IsConsistent) {caller callee : String}
    (calls : graph.Calls caller callee) (apart : caller ≠ callee) :
    graph.names.idxOf callee ∈ calleesOf graph.edges (graph.names.idxOf caller) ∧
      graph.names.idxOf caller ≠ graph.names.idxOf callee := by
  obtain ⟨isCaller, isCallee⟩ := calls.mem_names consistent
  obtain ⟨callerBound, callerName⟩ := nameAt_idxOf isCaller
  obtain ⟨calleeBound, calleeName⟩ := nameAt_idxOf isCallee
  constructor
  -- The places of the two names lead back to them.
  · rw [← calls_nameAt_iff consistent callerBound calleeBound, callerName, calleeName]
    exact calls
  · intro same
    rw [← callerName, ← calleeName, same] at apart
    exact apart rfl

/-- A cycle is reported exactly if some unit leads back to itself through others. -/
theorem cycles_ne_nil_iff (consistent : graph.IsConsistent) :
    graph.cycles ≠ [] ↔ ∃ name,
      Relation.TransGen (fun caller callee => graph.Calls caller callee ∧ caller ≠ callee) name name := by
  constructor
  · intro some_cycle
    obtain ⟨cycle, reported⟩ := List.exists_mem_of_ne_nil _ some_cycle
    exact (isLoop_of_mem_cycles consistent reported).exists_transGen
  · intro around
    obtain ⟨name, around⟩ := around
    -- The same way around leads through the places of the units.
    have places : Relation.TransGen
        (fun caller callee => callee ∈ calleesOf graph.edges caller ∧ caller ≠ callee)
        (graph.names.idxOf name) (graph.names.idxOf name) := by
      refine Relation.TransGen.lift (graph.names.idxOf ·) ?_ _ _ around
      intro caller callee call
      exact called_of_calls consistent call.1 call.2
    have closed : (graph.walkFrom (List.range graph.size)).closed ≠ [] := Walk.closed_fromStarts_ne_nil
      (fun vertex target => @lt_size_of_mem_calleesOf graph vertex target) places
    simpa [cycles] using closed

/-- Closed ways that differ stay different by name, however they are turned. -/
theorem not_isRotated_of_ne (consistent : graph.IsConsistent) {first second : List Nat}
    (isFirst : first ∈ (graph.walkFrom (List.range graph.size)).closed)
    (isSecond : second ∈ (graph.walkFrom (List.range graph.size)).closed) (differ : first ≠ second) :
    ¬ (first.map graph.nameAt).IsRotated (second.map graph.nameAt) := by
  obtain ⟨_, firstOrdered, firstBound⟩ := isLoop_of_mem_closed isFirst
  obtain ⟨_, secondOrdered, secondBound⟩ := isLoop_of_mem_closed isSecond
  have distinct := Walk.isTracked_fromStarts graph.size (calleesOf graph.edges) (List.range graph.size)
    |>.distinct |> List.nodup_reverse.2
  intro turned
  apply differ
  -- Both ways pass the same places, and both keep the order in which these were entered.
  rw [← filter_mem_of_sublist firstOrdered distinct, ← filter_mem_of_sublist secondOrdered distinct]
  refine List.filter_congr fun position _ => ?_
  rw [decide_eq_decide]
  constructor
  · intro member
    obtain ⟨other, onWay, same⟩ := List.mem_map.1 (turned.mem_iff.1 (List.mem_map_of_mem member))
    exact nameAt_injective consistent (secondBound other onWay) (firstBound position member) same ▸ onWay
  · intro member
    obtain ⟨other, onWay, same⟩ := List.mem_map.1 (turned.mem_iff.2 (List.mem_map_of_mem member))
    exact nameAt_injective consistent (firstBound other onWay) (secondBound position member) same ▸ onWay

/-- Where no unit repeats a call, no cycle is reported twice, however it is turned. -/
theorem pairwise_cycles (consistent : graph.IsConsistent) (once : ∀ unit ∈ graph.units, unit.calls.Nodup) :
    graph.cycles.Pairwise fun first second => ¬ first.IsRotated second := by
  -- The walk closes no way twice, and two ways of one walk are never turns of each other.
  have distinct : (graph.walkFrom (List.range graph.size)).closed.Nodup :=
    Walk.nodup_closed_fromStarts graph.size (nodup_calleesOf consistent once) (List.range graph.size)
  rw [cycles, List.pairwise_map]
  refine (List.nodup_reverse.2 distinct).imp_of_mem ?_
  intro first second isFirst isSecond differ
  exact not_isRotated_of_ne consistent (List.mem_reverse.1 isFirst) (List.mem_reverse.1 isSecond) differ

end Reported

/--
The cycles of a graph are reported rightly.

Each of them is a way around through two or more units, each of which calls the next.
There is one exactly if some unit leads back to itself through others, and if no unit repeats a call, no
cycle is reported for a second time, not even from another unit on.
-/
theorem cycles_exact (units : List CallableUnit) :
    (∀ cycle ∈ (build units).cycles, IsLoop (build units).Calls cycle) ∧
    ((build units).cycles ≠ [] ↔ ∃ name, Relation.TransGen
      (fun caller callee => (build units).Calls caller callee ∧ caller ≠ callee) name name) ∧
    ((∀ unit ∈ units, unit.calls.Nodup) →
      (build units).cycles.Pairwise fun first second => ¬ first.IsRotated second) := by
  have consistent := isConsistent_build units
  refine ⟨fun cycle => isLoop_of_mem_cycles consistent, cycles_ne_nil_iff consistent, fun once => ?_⟩
  exact pairwise_cycles consistent (nodup_calls_build once)

namespace Sample

/-- Two cycles that share a unit, and a unit that calls itself. -/
def twoCycles : List CallableUnit :=
  [⟨"a", .declaration, ⟨0, 5⟩, [], ["b"]⟩, ⟨"b", .declaration, ⟨10, 15⟩, [], ["c", "a"]⟩,
    ⟨"c", .declaration, ⟨20, 25⟩, [], ["b", "c"]⟩]

end Sample

/-- Both cycles of the sample are reported, each of them once. -/
theorem cycles_exact_twoCycles :
    (∀ unit ∈ Sample.twoCycles, unit.calls.Nodup) ∧
    (build Sample.twoCycles).cycles = [["b", "c"], ["a", "b"]] ∧
    IsLoop (build Sample.twoCycles).Calls ["b", "c"] ∧ ¬ List.IsRotated ["b", "c"] ["a", "b"] := by
  have once : ∀ unit ∈ Sample.twoCycles, unit.calls.Nodup := by decide
  have reported : (build Sample.twoCycles).cycles = [["b", "c"], ["a", "b"]] := by cbv
  obtain ⟨around, _, apart⟩ := cycles_exact Sample.twoCycles
  have apart := apart once
  -- The general result is read at the two cycles that are reported.
  rw [reported] at apart
  refine ⟨once, reported, around _ (by simp [reported]), ?_⟩
  exact (List.pairwise_cons.1 apart).1 _ (List.mem_singleton.2 rfl)

end CallGraph

end CallersFirst
