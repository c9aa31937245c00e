import CallersFirst.CallGraph
import CallersFirst.CallGraph.Walk

/-! The readable order of a call graph, its cycles and its statistics. -/

namespace CallersFirst

/-- Counts that describe a call graph. -/
structure GraphStatistics where
  /-- The number of units. -/
  totalUnits : Nat
  /-- The number of calls among them. -/
  totalCalls : Nat
  /-- The number of units that no other unit calls. -/
  roots : Nat
  /-- The number of units that call themselves. -/
  selfCalls : Nat
  /-- The number of cycles reported. -/
  cycles : Nat
  /-- The number of units left out for their names. -/
  duplicates : Nat
  /-- The most calls that a unit receives from others. -/
  maxInDegree : Nat
deriving DecidableEq, Repr

namespace CallGraph

/-- The walk over the calls of a graph from the given places in turn. -/
def walkFrom (graph : CallGraph) (starts : List Nat) : Walk :=
  let edges := graph.edges
  Walk.fromStarts graph.size (calleesOf edges) starts

/-- The places at which the readable order starts anew: those that no other unit calls, and those
that cannot be reached from such a place. -/
def entries (graph : CallGraph) : List Nat :=
  let roots := graph.rootPositions
  let reached := (graph.walkFrom roots).entered
  (List.range graph.size).filter fun position => position ∈ roots ∨ position ∉ reached

/-- The places of the units in readable order: callers before the callees they lead to. -/
def orderPositions (graph : CallGraph) : List Nat :=
  (graph.walkFrom graph.entries).entered.reverse

/-- The names of the units in readable order. -/
def readableOrder (graph : CallGraph) : List String :=
  graph.orderPositions.map graph.nameAt

/-- The cycles of two or more units that a walk over all units closes, in order of discovery. -/
def cycles (graph : CallGraph) : List (List String) :=
  (graph.walkFrom (List.range graph.size)).closed.reverse.map (·.map graph.nameAt)

/-- The counts that describe a graph. -/
def statistics (graph : CallGraph) : GraphStatistics :=
  let edges := graph.edges
  { totalUnits := graph.size
    totalCalls := graph.edgeCount
    roots := graph.rootPositions.length
    selfCalls := (graph.units.filter (·.callsItself)).length
    cycles := graph.cycles.length
    duplicates := graph.rejected.length
    maxInDegree := ((List.range graph.size).map (inDegreeOf edges)).foldl max 0 }

end CallGraph

end CallersFirst
