import CallersFirst.CallableUnit

/-! Call graphs over the sibling units of one scope. -/

namespace CallersFirst

/-- For each of some units the places of the units it calls among them, in order of discovery. -/
def edgesAmong (units : List CallableUnit) : Array (List Nat) :=
  let names := units.map (·.name)
  (units.map fun unit => unit.calls.filterMap (names.idxOf? ·)).toArray

/-- The units of one scope, told apart by name, with the calls among them. -/
structure CallGraph where
  /-- The units in source order, each calling only units of the graph. -/
  units : List CallableUnit := []
  /-- The units left out because an earlier one has the same name. -/
  rejected : List CallableUnit := []
  /-- For each unit the places of the units it calls, in order of discovery. -/
  edges : Array (List Nat) := edgesAmong units
  /-- The edges are the calls among the units. -/
  edges_eq : edges = edgesAmong units := by rfl
deriving DecidableEq, Repr

/-- The units whose names are neither taken already nor used by an earlier unit of the list. -/
def firstUses (taken : List String) : List CallableUnit → List CallableUnit
  | [] => []
  | unit :: rest =>
    if unit.name ∈ taken then firstUses taken rest
    else unit :: firstUses (unit.name :: taken) rest

/-- The units whose names are taken already or used by an earlier unit of the list. -/
def laterUses (taken : List String) : List CallableUnit → List CallableUnit
  | [] => []
  | unit :: rest =>
    if unit.name ∈ taken then unit :: laterUses taken rest
    else laterUses (unit.name :: taken) rest

namespace CallGraph

/-- The graph of a list of units in source order. -/
def build (units : List CallableUnit) : CallGraph :=
  let kept := firstUses [] units
  let names := kept.map (·.name)
  { units := kept.map fun unit => { unit with calls := unit.calls.filter (· ∈ names) }
    rejected := laterUses [] units }

/-- The number of units. -/
def size (graph : CallGraph) : Nat :=
  graph.units.length

/-- The names of the units, in source order. -/
def names (graph : CallGraph) : List String :=
  graph.units.map (·.name)

/-- The names of the units that were left out. -/
def duplicates (graph : CallGraph) : List String :=
  graph.rejected.map (·.name)

/-- Whether a name is that of a unit. -/
def contains (graph : CallGraph) (name : String) : Bool :=
  graph.names.contains name

/-- The place of a unit in source order. -/
def position? (graph : CallGraph) (name : String) : Option Nat :=
  graph.names.idxOf? name

/-- The unit of a given name. -/
def get? (graph : CallGraph) (name : String) : Option CallableUnit :=
  graph.units.find? (·.name = name)

/-- The name of the unit at a place, empty past the end. -/
def nameAt (graph : CallGraph) (position : Nat) : String :=
  graph.names[position]?.getD ""

/-- The places that a unit calls, none past the end. -/
def calleesOf (edges : Array (List Nat)) (position : Nat) : List Nat :=
  edges[position]?.getD []

/-- The places that call a unit, in source order, as often as they call it. -/
def callersOf (edges : Array (List Nat)) (position : Nat) : List Nat :=
  (List.range edges.size).flatMap fun caller =>
    List.replicate ((calleesOf edges caller).count position) caller

/-- How many calls a unit receives from other units. -/
def inDegreeOf (edges : Array (List Nat)) (position : Nat) : Nat :=
  ((callersOf edges position).filter (· ≠ position)).length

/-- How many calls a unit makes to other units. -/
def outDegreeOf (edges : Array (List Nat)) (position : Nat) : Nat :=
  ((calleesOf edges position).filter (· ≠ position)).length

/-- The units that a unit calls, in order of discovery. -/
def callees (graph : CallGraph) (name : String) : List String :=
  match graph.position? name with
  | some position => (calleesOf graph.edges position).map graph.nameAt
  | none => []

/-- The units that call a unit, itself included, in source order. -/
def callers (graph : CallGraph) (name : String) : List String :=
  match graph.position? name with
  | some position => (callersOf graph.edges position).map graph.nameAt
  | none => []

/-- How many calls a named unit receives from other units. -/
def inDegree (graph : CallGraph) (name : String) : Nat :=
  match graph.position? name with
  | some position => inDegreeOf graph.edges position
  | none => 0

/-- How many calls a named unit makes to other units. -/
def outDegree (graph : CallGraph) (name : String) : Nat :=
  match graph.position? name with
  | some position => outDegreeOf graph.edges position
  | none => 0

/-- The number of calls among the units. -/
def edgeCount (graph : CallGraph) : Nat :=
  graph.edges.toList.flatten.length

/-- The places of the units that no other unit calls, in source order. -/
def rootPositions (graph : CallGraph) : List Nat :=
  let edges := graph.edges
  (List.range graph.size).filter (inDegreeOf edges · = 0)

/-- The units that no other unit calls, in source order. -/
def roots (graph : CallGraph) : List String :=
  graph.rootPositions.map graph.nameAt

end CallGraph

end CallersFirst
