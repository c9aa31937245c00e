import CallersFirst.Proofs.CallGraph.Representation
import Mathlib.Data.List.Induction

/-!
Call graphs as tables that are filled pass by pass: units are registered in an index of their names, calls to
other names are dropped, and every call that is left is noted with its caller and with its callee. An entry out
of range would leave the whole without a result. This does not happen, and the tables tell what the graph tells.
-/

namespace CallersFirst

/-- The tables of a call graph, as far as they have been filled. -/
structure Tables where
  /-- The registered units, in source order. -/
  units : List CallableUnit := []
  /-- The place of the unit of each registered name. -/
  index : Std.HashMap String Nat := ∅
  /-- For each place the places that its unit calls, in order of discovery. -/
  forward : Array (List Nat) := #[]
  /-- For each place the places that call its unit, in source order. -/
  backward : Array (List Nat) := #[]
  /-- The names turned down because an earlier unit has them. -/
  duplicates : List String := []

namespace Tables

/-- Registers a unit, or turns its name down if it is registered already. -/
def register (tables : Tables) (unit : CallableUnit) : Tables :=
  if unit.name ∈ tables.index then { tables with duplicates := tables.duplicates ++ [unit.name] }
  else
    { tables with
      index := tables.index.insert unit.name tables.units.length
      units := tables.units ++ [unit] }

/-- Drops the calls to names that are not registered. -/
def dropStrays (tables : Tables) : Tables :=
  { tables with units := tables.units.map fun unit =>
      { unit with calls := unit.calls.filter (· ∈ tables.index) } }

/-- Puts an entry at the end of the list of a place. -/
def pushAt? (table : Array (List Nat)) (place entry : Nat) : Option (Array (List Nat)) :=
  if place < table.size then some (table.modify place (· ++ [entry])) else none

/-- Notes a call with the caller and with the callee, if the callee is registered. -/
def link? (caller : Nat) (tables : Tables) (callee : String) : Option Tables :=
  match tables.index[callee]? with
  | none => some tables
  | some target => do
    let forward ← pushAt? tables.forward caller target
    let backward ← pushAt? tables.backward target caller
    some { tables with forward, backward }

/-- Notes the calls of the unit at a place. -/
def linkAll? (tables : Tables) (entry : CallableUnit × Nat) : Option Tables :=
  entry.1.calls.foldlM (link? entry.2) tables

/-- Fills the tables of calls, which are empty at first. -/
def fill? (tables : Tables) : Option Tables :=
  let none := Array.replicate tables.units.length []
  tables.units.zipIdx.foldlM linkAll? { tables with forward := none, backward := none }

/-- The tables of a list of units in source order. -/
def build? (units : List CallableUnit) : Option Tables :=
  (units.foldl register {}).dropStrays.fill?

/-- Tables that tell the same as a graph. -/
structure Tell (tables : Tables) (graph : CallGraph) : Prop where
  /-- The units are those of the graph. -/
  units_eq : tables.units = graph.units
  /-- The index gives the place of each name. -/
  index_eq : ∀ name, tables.index[name]? = graph.position? name
  /-- The calls that units make are the edges of the graph. -/
  forward_eq : tables.forward = graph.edges
  /-- There is a list of callers for each unit. -/
  size_backward : tables.backward.size = graph.size
  /-- The list of callers of each unit is that of the graph. -/
  backward_eq : ∀ position < graph.size,
    tables.backward[position]? = some (CallGraph.callersOf graph.edges position)
  /-- The names turned down are the duplicates of the graph. -/
  duplicates_eq : tables.duplicates = graph.duplicates

section Register

variable {tables : Tables}

/-- An index that gives each name its place among the registered units. -/
def IsIndexed (tables : Tables) : Prop :=
  ∀ name, tables.index[name]? = (tables.units.map (·.name)).idxOf? name

/-- A name is in the index exactly if a registered unit has it. -/
theorem IsIndexed.mem_iff (indexed : tables.IsIndexed) {name : String} :
    name ∈ tables.index ↔ name ∈ tables.units.map (·.name) := by
  rw [Std.HashMap.mem_iff_isSome_getElem?, indexed, List.isSome_idxOf?]

/-- A name that is missing from a list has the next place once it is put at its end. -/
theorem idxOf?_concat {names : List String} {fresh : String} (missing : fresh ∉ names) (name : String) :
    (names ++ [fresh]).idxOf? name = if fresh = name then some names.length else names.idxOf? name := by
  -- Going along the list, every name in front moves the place up by one on both sides.
  induction names with
  | nil => simp [List.idxOf?_cons]
  | cons first rest ih =>
    rw [List.mem_cons, not_or] at missing
    obtain ⟨other, missing⟩ := missing
    simp only [List.cons_append, List.idxOf?_cons, ih missing, beq_iff_eq]
    by_cases found : first = name
    · have apart : fresh ≠ name := fun same => other (same.trans found.symm)
      simp [found, apart]
    · by_cases same : fresh = name
      · simp [found, same]
      · simp [found, same]

/-- Registering a unit keeps the index in step. -/
theorem IsIndexed.register (indexed : tables.IsIndexed) (unit : CallableUnit) :
    (tables.register unit).IsIndexed := by
  unfold Tables.register
  split
  · exact indexed
  · rename_i new
    rw [indexed.mem_iff] at new
    intro name
    -- The new name has the place behind all units, and the other names keep theirs.
    simp only [List.map_append, List.map_cons, List.map_nil, Std.HashMap.getElem?_insert, beq_iff_eq,
      idxOf?_concat new, List.length_map]
    split
    · rfl
    · exact indexed name

/-- Registering units one by one keeps those with new names and turns down the names of the others. -/
theorem foldl_register (units : List CallableUnit) :
    ∀ (tables : Tables) (taken : List String), tables.IsIndexed →
      (∀ name, name ∈ taken ↔ name ∈ tables.units.map (·.name)) →
      (units.foldl register tables).IsIndexed ∧
        (units.foldl register tables).units = tables.units ++ firstUses taken units ∧
        (units.foldl register tables).duplicates =
          tables.duplicates ++ (laterUses taken units).map (·.name) := by
  -- The names taken so far are those of the registered units, in whatever order.
  induction units with
  | nil =>
    intro tables taken indexed same
    simp [indexed, firstUses, laterUses]
  | cons unit rest ih =>
    intro tables taken indexed same
    have known : unit.name ∈ tables.index ↔ unit.name ∈ taken := by rw [indexed.mem_iff, same]
    rw [List.foldl_cons, firstUses, laterUses]
    by_cases old : unit.name ∈ taken
    · -- The unit is turned down, and the registered ones stay.
      have turnedDown : tables.register unit =
          { tables with duplicates := tables.duplicates ++ [unit.name] } := if_pos (known.2 old)
      obtain ⟨stays, kept, rejected⟩ := ih (tables.register unit) taken (indexed.register unit)
        (by rw [turnedDown]; exact same)
      refine ⟨stays, ?_, ?_⟩
      · rw [kept, turnedDown, if_pos old]
      · rw [rejected, turnedDown, if_pos old]
        simp
    · -- The unit is registered, and its name is taken from now on.
      have added : tables.register unit =
          { tables with
            index := tables.index.insert unit.name tables.units.length
            units := tables.units ++ [unit] } := if_neg fun isKnown => old (known.1 isKnown)
      have further : ∀ name, name ∈ unit.name :: taken ↔ name ∈ (tables.register unit).units.map (·.name) := by
        intro name
        rw [added]
        simp [same, or_comm]
      obtain ⟨stays, kept, rejected⟩ := ih (tables.register unit) _ (indexed.register unit) further
      refine ⟨stays, ?_, ?_⟩
      · rw [kept, added, if_neg old]
        simp
      · rw [rejected, added, if_neg old]

/-- After the second pass the units are those of the graph, and the index is in step with them. -/
theorem dropStrays_spec (units : List CallableUnit) :
    let tables := (units.foldl register {}).dropStrays
    tables.units = (CallGraph.build units).units ∧ tables.IsIndexed ∧
      tables.duplicates = (CallGraph.build units).duplicates := by
  intro tables
  have start : IsIndexed {} := by
    intro name
    simp
  obtain ⟨indexed, kept, rejected⟩ := foldl_register units {} [] start (by simp)
  rw [show (({} : Tables).units ++ firstUses [] units) = firstUses [] units from rfl] at kept
  have inIndex (name : String) :
      name ∈ (units.foldl register {}).index ↔ name ∈ (firstUses [] units).map (·.name) := by
    rw [indexed.mem_iff, kept]
  -- Calls are dropped by the index in one case and by the names in the other, which agree.
  have same : tables.units = (CallGraph.build units).units := by
    simp only [tables, dropStrays, CallGraph.build, inIndex, kept]
  refine ⟨same, ?_, rejected⟩
  have names : tables.units.map (·.name) = (units.foldl register {}).units.map (·.name) := by
    simp [tables, dropStrays]
  intro name
  rw [names]
  exact indexed name

end Register

section Fill

variable {size caller place : Nat} {tables : Tables}

/-- The table with a given list at each place. -/
def tabulate (size : Nat) (lists : Nat → List Nat) : Array (List Nat) :=
  ((List.range size).map lists).toArray

/-- A table has as many lists as it was made for. -/
@[simp] theorem size_tabulate (lists : Nat → List Nat) : (tabulate size lists).size = size := by
  simp [tabulate]

/-- The list at a place of a table is the one given for it. -/
theorem getElem?_tabulate (bound : place < size) (lists : Nat → List Nat) :
    (tabulate size lists)[place]? = some (lists place) := by
  simp [tabulate, List.getElem?_range bound]

/-- An entry within range is put at the end of the list of its place, and the others stay. -/
theorem pushAt?_tabulate (bound : place < size) (lists : Nat → List Nat) (entry : Nat) :
    pushAt? (tabulate size lists) place entry =
      some (tabulate size (Function.update lists place (lists place ++ [entry]))) := by
  rw [pushAt?, if_pos (by simpa using bound)]
  refine congrArg some (Array.ext_getElem? fun other => ?_)
  rw [Array.getElem?_modify]
  by_cases inside : other < size
  · rw [getElem?_tabulate inside, getElem?_tabulate inside]
    by_cases same : place = other
    · subst same
      simp
    · simp [same, Function.update_of_ne (Ne.symm same)]
  · -- Past the end there is nothing to change.
    have past (lists : Nat → List Nat) : (tabulate size lists)[other]? = none :=
      Array.getElem?_eq_none (by simpa using inside)
    simp [past]

/-- The tables with given lists of callees and of callers. -/
def withLists (tables : Tables) (size : Nat) (callees callers : Nat → List Nat) : Tables :=
  { tables with forward := tabulate size callees, backward := tabulate size callers }

/-- Lists of callers, each with as many entries for one more caller as it makes calls there. -/
def received (callers : Nat → List Nat) (caller : Nat) (targets : List Nat) (place : Nat) : List Nat :=
  callers place ++ List.replicate (targets.count place) caller

/-- A caller without calls adds nothing. -/
@[simp] theorem received_nil (callers : Nat → List Nat) (caller : Nat) : received callers caller [] = callers := by
  funext place
  simp [received]

/-- The entries for the first call of a caller may be made before those for the others. -/
theorem received_cons (callers : Nat → List Nat) (caller target : Nat) (targets : List Nat) :
    received (Function.update callers target (callers target ++ [caller])) caller targets =
      received callers caller (target :: targets) := by
  funext place
  unfold received
  -- Only the list of the target grows, by the entry that its call adds.
  by_cases same : place = target
  · subst same
    simp [List.replicate_succ]
  · simp [Function.update_of_ne same, Ne.symm same]

/-- Noting the calls of a unit appends their targets to its own list, and the unit to theirs. -/
theorem foldlM_link? (bound : caller < size)
    (inside : ∀ (name : String) (target : Nat), tables.index[name]? = some target → target < size)
    (calls : List String) :
    ∀ callees callers : Nat → List Nat,
      calls.foldlM (link? caller) (tables.withLists size callees callers) =
        some (tables.withLists size
          (Function.update callees caller (callees caller ++ calls.filterMap (tables.index[·]?)))
          (received callers caller (calls.filterMap (tables.index[·]?)))) := by
  -- The index stays the same all along, and each call is noted behind the earlier ones.
  induction calls with
  | nil =>
    intro callees callers
    simp
  | cons name rest ih =>
    intro callees callers
    rw [List.foldlM_cons]
    cases found : tables.index[name]? with
    | none =>
      -- A name outside of the index has no place, and its call is passed over.
      have skipped : link? caller (tables.withLists size callees callers) name =
          some (tables.withLists size callees callers) := by
        simp [link?, withLists, found]
      rw [skipped, List.filterMap_cons_none found]
      exact ih callees callers
    | some target =>
      -- Both lists grow by one entry, which the rest of the calls come behind.
      have noted : link? caller (tables.withLists size callees callers) name =
          some (tables.withLists size (Function.update callees caller (callees caller ++ [target]))
            (Function.update callers target (callers target ++ [caller]))) := by
        simp [link?, withLists, found, pushAt?_tabulate bound, pushAt?_tabulate (inside name target found)]
      rw [noted, List.filterMap_cons_some found]
      refine (ih _ _).trans ?_
      rw [received_cons]
      simp

/-- The places that the unit at a place calls, none past the end. -/
def targetsAt (tables : Tables) (units : List CallableUnit) (place : Nat) : List Nat :=
  (units[place]?.map fun unit => unit.calls.filterMap (tables.index[·]?)).getD []

/-- The places from which units call a place, in source order. -/
def sourcesAt (tables : Tables) (units : List CallableUnit) (place : Nat) : List Nat :=
  (List.range units.length).flatMap fun caller =>
    List.replicate ((tables.targetsAt units caller).count place) caller

/-- Behind some units nothing is called yet, and one more unit adds its own targets there. -/
theorem targetsAt_concat (units : List CallableUnit) (unit : CallableUnit) :
    tables.targetsAt (units ++ [unit]) =
      Function.update (tables.targetsAt units) units.length
        (tables.targetsAt units units.length ++ unit.calls.filterMap (tables.index[·]?)) := by
  funext place
  -- The new unit stands at the end of the list; the places before and past it are as they were.
  by_cases same : place = units.length
  · subst same
    simp [targetsAt]
  · rw [Function.update_of_ne same]
    rcases Nat.lt_or_gt_of_ne same with front | past
    · simp [targetsAt, List.getElem?_append_left front]
    · have beyond : (units ++ [unit]).length ≤ place := by
        rw [List.length_append, List.length_singleton]
        omega
      simp [targetsAt, List.getElem?_eq_none beyond, List.getElem?_eq_none (Nat.le_of_lt past)]

/-- One more unit is a source of its own targets, behind all earlier ones. -/
theorem sourcesAt_concat (units : List CallableUnit) (unit : CallableUnit) :
    tables.sourcesAt (units ++ [unit]) =
      received (tables.sourcesAt units) units.length (unit.calls.filterMap (tables.index[·]?)) := by
  funext place
  have last : tables.targetsAt (units ++ [unit]) units.length = unit.calls.filterMap (tables.index[·]?) := by
    simp [targetsAt]
  -- The calls of the earlier units are not touched by the new one.
  have earlier : ∀ caller ∈ List.range units.length,
      List.replicate ((tables.targetsAt (units ++ [unit]) caller).count place) caller =
        List.replicate ((tables.targetsAt units caller).count place) caller := by
    intro caller member
    rw [targetsAt_concat, Function.update_of_ne (Nat.ne_of_lt (List.mem_range.1 member))]
  rw [sourcesAt, List.length_append, List.length_singleton, List.range_succ, List.flatMap_append,
    List.flatMap_congr earlier, received, sourcesAt]
  simp [last]

/-- Going through units notes for each of them what it calls, and for each place where it is called from. -/
theorem foldlM_linkAll?
    (inside : ∀ (name : String) (target : Nat), tables.index[name]? = some target → target < size)
    (units : List CallableUnit) (enough : units.length ≤ size) :
    units.zipIdx.foldlM linkAll? (tables.withLists size (fun _ => []) fun _ => []) =
      some (tables.withLists size (tables.targetsAt units) (tables.sourcesAt units)) := by
  -- The units are taken from the front, so that the last one comes after what is known of the others.
  induction units using List.reverseRecOn with
  | nil => rfl
  | append_singleton units unit ih =>
    rw [List.length_append, List.length_singleton] at enough
    rw [List.zipIdx_append, List.foldlM_append, ih (by omega)]
    have linked := foldlM_link? (by omega : units.length < size) inside unit.calls
      (tables.targetsAt units) (tables.sourcesAt units)
    rw [← targetsAt_concat, ← sourcesAt_concat] at linked
    simpa [linkAll?] using linked

end Fill

section Tell

variable {tables : Tables} {graph : CallGraph}

/-- In tables with the units of a graph, the targets of each unit are the places it calls in the graph. -/
theorem targetsAt_eq (same : tables.units = graph.units) (indexed : tables.IsIndexed) :
    tables.targetsAt tables.units = CallGraph.calleesOf graph.edges := by
  funext place
  -- The index looks a name up as the edges do.
  have found (name : String) : tables.index[name]? = (graph.units.map (·.name)).idxOf? name := by
    rw [indexed name, same]
  simp only [targetsAt, found, same, CallGraph.calleesOf, graph.edges_eq, edgesAmong, List.getElem?_toArray,
    List.getElem?_map]

/-- A table with the lists of an array is the array. -/
theorem tabulate_calleesOf (edges : Array (List Nat)) :
    tabulate edges.size (CallGraph.calleesOf edges) = edges := by
  refine Array.ext (by simp) fun place bound inside => ?_
  simp [tabulate, CallGraph.calleesOf, inside]

/-- Filling the tables of calls of the units of a graph never fails, and gives what the graph tells. -/
theorem exists_fill?_tell (same : tables.units = graph.units) (indexed : tables.IsIndexed)
    (rejected : tables.duplicates = graph.duplicates) :
    ∃ filled, tables.fill? = some filled ∧ filled.Tell graph := by
  -- The index leads to places of units only.
  have inside : ∀ (name : String) (target : Nat), tables.index[name]? = some target →
      target < tables.units.length := by
    intro name target found
    rw [indexed name] at found
    obtain ⟨bound, _⟩ := List.idxOf?_eq_some_iff.1 found
    simpa using bound
  have size : tables.units.length = graph.edges.size := by rw [CallGraph.size_edges, CallGraph.size, same]
  have empty : Array.replicate tables.units.length ([] : List Nat) = tabulate tables.units.length fun _ => [] := by
    simp [tabulate]
  -- The sources of a place are its callers in the graph.
  have callers : tables.sourcesAt tables.units = CallGraph.callersOf graph.edges := by
    funext place
    simp only [sourcesAt, targetsAt_eq same indexed, size, CallGraph.callersOf]
  refine ⟨_, (by rw [fill?, empty]; exact foldlM_linkAll? inside tables.units (Nat.le_refl _)), ?_⟩
  rw [targetsAt_eq same indexed, callers, size]
  exact {
    units_eq := same
    index_eq := fun name => by rw [CallGraph.position?, CallGraph.names, ← same]; exact indexed name
    forward_eq := tabulate_calleesOf graph.edges
    size_backward := by simp [withLists]
    backward_eq := fun position bound => getElem?_tabulate (by simpa using bound) _
    duplicates_eq := rejected }

/-- In tables that tell the same as a graph, every call stands in the lists of both of its ends equally often. -/
theorem Tell.transposed (tell : tables.Tell graph) {caller callee : Nat} (isCaller : caller < graph.size)
    (isCallee : callee < graph.size) :
    ∃ made received, tables.forward[caller]? = some made ∧ tables.backward[callee]? = some received ∧
      received.count caller = made.count callee ∧ received.Pairwise (· ≤ ·) := by
  have inside : caller < graph.edges.size := by simpa using isCaller
  refine ⟨CallGraph.calleesOf graph.edges caller, _, ?_, tell.backward_eq callee isCallee,
    CallGraph.count_callersOf inside callee, CallGraph.pairwise_callersOf graph.edges callee⟩
  rw [tell.forward_eq, CallGraph.getElem?_edges inside]

/-- The first unit of a name stands at the place that the index of its names gives. -/
theorem find?_eq_getElem? (units : List CallableUnit) (name : String) :
    units.find? (·.name = name) = ((units.map (·.name)).idxOf? name).bind (units[·]?) := by
  induction units with
  | nil => rfl
  | cons unit rest ih =>
    rw [List.map_cons, List.idxOf?_cons]
    by_cases same : unit.name = name
    · simp [same]
    · -- Behind another unit every place is one further on.
      rw [List.find?_cons_of_neg (by simpa using same), ih, if_neg (by simpa using same)]
      cases (rest.map (·.name)).idxOf? name with
      | none => rfl
      | some place => rfl

/-- Tables that tell the same as a graph answer by the index which names it has and what their units are. -/
theorem Tell.lookup (tell : tables.Tell graph) (name : String) :
    tables.index.contains name = graph.contains name ∧
      tables.index[name]?.bind (tables.units[·]?) = graph.get? name := by
  constructor
  · rw [Bool.eq_iff_iff, Std.HashMap.contains_iff_mem, Std.HashMap.mem_iff_isSome_getElem?, tell.index_eq,
      CallGraph.position?, List.isSome_idxOf?, CallGraph.contains, List.contains_iff_mem]
  · rw [tell.index_eq, tell.units_eq, CallGraph.get?, find?_eq_getElem?]
    rfl

end Tell

/--
The passes over a list of units end with tables that tell the same as its graph.

Nothing is ever put out of range. The table of callers, filled call by call, is that of the callees turned round.
-/
theorem exists_build?_tell (units : List CallableUnit) :
    ∃ tables, build? units = some tables ∧ tables.Tell (CallGraph.build units) := by
  obtain ⟨same, indexed, rejected⟩ := dropStrays_spec units
  exact exists_fill?_tell same indexed rejected

end Tables

end CallersFirst
