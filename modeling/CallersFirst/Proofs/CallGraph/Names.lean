import CallersFirst.CallGraph
import Mathlib.Data.List.Nodup
import Mathlib.Data.List.Perm.Basic

/-! Call graphs seen through the names of their units rather than their places. -/

namespace CallersFirst

/-- The units with new names are some of the units, in the same order. -/
theorem firstUses_sublist (taken : List String) (units : List CallableUnit) :
    (firstUses taken units).Sublist units := by
  -- Each unit is kept or dropped.
  induction units generalizing taken with
  | nil => simp [firstUses]
  | cons unit rest ih =>
    rw [firstUses]
    split
    · exact (ih taken).cons unit
    · exact (ih _).cons_cons unit

/-- The units with names in use are some of the units, in the same order. -/
theorem laterUses_sublist (taken : List String) (units : List CallableUnit) :
    (laterUses taken units).Sublist units := by
  induction units generalizing taken with
  | nil => simp [laterUses]
  | cons unit rest ih =>
    rw [laterUses]
    -- A name in use keeps the unit in the list, a new one joins those taken.
    split
    · exact (ih taken).cons_cons unit
    · exact (ih _).cons unit

/-- A unit is left out if its name is taken already or an earlier unit has it. -/
theorem mem_laterUses {front back : List CallableUnit} {unit : CallableUnit} :
    ∀ {taken : List String}, unit.name ∈ taken ++ front.map (·.name) →
      unit ∈ laterUses taken (front ++ unit :: back) := by
  -- The names of the units in front are taken, one after the other.
  induction front with
  | nil =>
    intro taken known
    rw [List.nil_append, laterUses, if_pos (by simpa using known)]
    exact List.mem_cons_self ..
  | cons other front ih =>
    intro taken known
    rw [List.cons_append, laterUses]
    rw [List.map_cons, List.mem_append, List.mem_cons] at known
    by_cases old : other.name ∈ taken
    · rw [if_pos old]
      refine List.mem_cons_of_mem _ (ih (List.mem_append.2 ?_))
      -- A name in use adds nothing to those taken.
      rcases known with known | same | known
      · exact .inl known
      · exact .inl (same ▸ old)
      · exact .inr known
    · rw [if_neg old]
      refine ih (List.mem_append.2 ?_)
      -- The name joins those taken.
      rcases known with known | same | known
      · exact .inl (List.mem_cons_of_mem _ known)
      · exact .inl (same ▸ List.mem_cons_self ..)
      · exact .inr known

/-- Every unit has a new name or one that is in use. -/
theorem firstUses_append_laterUses_perm (taken : List String) (units : List CallableUnit) :
    (firstUses taken units ++ laterUses taken units).Perm units := by
  induction units generalizing taken with
  | nil => simp [firstUses, laterUses]
  | cons unit rest ih =>
    rw [firstUses, laterUses]
    -- The unit goes to the one list or the other, by whether its name is taken.
    by_cases old : unit.name ∈ taken
    · rw [if_pos old, if_pos old]
      exact List.perm_middle.trans ((ih taken).cons unit)
    · rw [if_neg old, if_neg old]
      exact (ih _).cons unit

/-- The units with new names have names of their own, none of them taken before. -/
theorem nodup_firstUses (taken : List String) (units : List CallableUnit) :
    ((firstUses taken units).map (·.name)).Nodup ∧
      ∀ name ∈ (firstUses taken units).map (·.name), name ∉ taken := by
  -- A name that is kept counts as taken for the units after it.
  induction units generalizing taken with
  | nil => simp [firstUses]
  | cons unit rest ih =>
    rw [firstUses]
    split
    · exact ih taken
    · rename_i new
      obtain ⟨distinct, apart⟩ := ih (unit.name :: taken)
      rw [List.map_cons]
      refine ⟨List.nodup_cons.2 ⟨fun again => apart _ again (by simp), distinct⟩, ?_⟩
      intro name member
      rcases List.mem_cons.1 member with rfl | member
      · exact new
      · exact fun old => apart name member (by simp [old])

/-- Units whose names are all different and new are all kept. -/
theorem firstUses_eq_self {taken : List String} {units : List CallableUnit}
    (distinct : (units.map (·.name)).Nodup) (new : ∀ unit ∈ units, unit.name ∉ taken) :
    firstUses taken units = units := by
  -- No unit meets its own name among those taken before it.
  induction units generalizing taken with
  | nil => rfl
  | cons unit rest ih =>
    obtain ⟨apart, distinct⟩ := List.nodup_cons.1 distinct
    rw [firstUses, if_neg (new unit (by simp)), ih distinct]
    intro other member
    simp only [List.mem_cons, not_or]
    exact ⟨fun same => apart (List.mem_map.2 ⟨other, member, same⟩), new other (by simp [member])⟩

namespace CallGraph

/-- A graph whose units have names of their own and call only one another. -/
structure IsConsistent (graph : CallGraph) : Prop where
  /-- No two units have the same name. -/
  distinct : graph.names.Nodup
  /-- Every call goes to a unit of the graph. -/
  inside : ∀ unit ∈ graph.units, ∀ callee ∈ unit.calls, callee ∈ graph.names

/-- A unit of one name calls a unit of another. -/
def Calls (graph : CallGraph) (caller callee : String) : Prop :=
  ∃ unit ∈ graph.units, unit.name = caller ∧ callee ∈ unit.calls

/-- Building a graph leaves out calls but keeps the names of the units it keeps. -/
theorem names_build (units : List CallableUnit) :
    (build units).names = (firstUses [] units).map (·.name) := by
  simp [build, names, Function.comp_def]

/-- Building a graph always gives a consistent one. -/
theorem isConsistent_build (units : List CallableUnit) : (build units).IsConsistent := by
  constructor
  · rw [names_build]
    exact (nodup_firstUses [] units).1
  · -- Calls to other names are filtered out.
    intro unit member callee called
    rw [names_build]
    simp only [build, List.mem_map] at member
    obtain ⟨original, _, rfl⟩ := member
    simpa using (List.mem_filter.1 called).2

/-- Units with names of their own that call only one another all become part of the graph as they are. -/
theorem units_build_eq_self {units : List CallableUnit} (distinct : (units.map (·.name)).Nodup)
    (inside : ∀ unit ∈ units, ∀ callee ∈ unit.calls, callee ∈ units.map (·.name)) :
    (build units).units = units := by
  -- Every unit is kept, and so is every call.
  have kept : firstUses [] units = units := firstUses_eq_self distinct (by simp)
  have same : ∀ unit ∈ units,
      { unit with calls := unit.calls.filter (· ∈ units.map (·.name)) } = id unit := by
    intro unit member
    have calls : unit.calls.filter (· ∈ units.map (·.name)) = unit.calls :=
      List.filter_eq_self.2 fun callee called => by simpa using inside unit member callee called
    rw [calls]
    rfl
  simp only [build, kept]
  rw [List.map_congr_left same, List.map_id]

/-- A list of edges within range is found. -/
theorem getElem?_edges {edges : Array (List Nat)} {position : Nat} (bound : position < edges.size) :
    edges[position]? = some (calleesOf edges position) := by
  simp [calleesOf, bound]

/-- The callers of a place are the places that call it. -/
theorem mem_callersOf_iff {edges : Array (List Nat)} {position caller : Nat} :
    caller ∈ callersOf edges position ↔ caller < edges.size ∧ position ∈ calleesOf edges caller := by
  -- A caller is listed as often as it makes the call, which is at least once.
  simp only [callersOf, List.mem_flatMap, List.mem_range, List.mem_replicate]
  constructor
  · rintro ⟨_, bound, counted, rfl⟩
    exact ⟨bound, List.count_pos_iff.1 (Nat.pos_of_ne_zero counted)⟩
  · rintro ⟨bound, called⟩
    exact ⟨caller, bound, Nat.ne_of_gt (List.count_pos_iff.2 called), rfl⟩

/-- A place receives no calls from others if all of its callers are that place itself. -/
theorem inDegreeOf_eq_zero_iff {edges : Array (List Nat)} {position : Nat} :
    inDegreeOf edges position = 0 ↔
      ∀ caller < edges.size, position ∈ calleesOf edges caller → caller = position := by
  -- No caller is left once those at the place itself are taken out.
  simp only [inDegreeOf, List.length_eq_zero_iff, List.filter_eq_nil_iff, mem_callersOf_iff,
    decide_eq_true_eq, not_not, and_imp]

section Places

variable {graph : CallGraph}

/-- There is one list of edges for each unit. -/
@[simp] theorem size_edges (graph : CallGraph) : graph.edges.size = graph.size := by
  simp [graph.edges_eq, edgesAmong, size]

/-- The number of names is the number of units. -/
@[simp] theorem length_names (graph : CallGraph) : graph.names.length = graph.size := by
  simp [names, size]

/-- The name at the place of a unit is the name of the unit. -/
theorem nameAt_of_getElem? {position : Nat} {unit : CallableUnit}
    (found : graph.units[position]? = some unit) : graph.nameAt position = unit.name := by
  simp [nameAt, names, found]

/-- Every place of the graph has a name of the graph. -/
theorem nameAt_mem_names {position : Nat} (bound : position < graph.size) :
    graph.nameAt position ∈ graph.names := by
  have bound : position < graph.names.length := by simpa using bound
  simp [nameAt, List.getElem?_eq_getElem bound]

/-- The place of a name is a place at which it stands. -/
theorem nameAt_of_position? {name : String} {position : Nat}
    (found : graph.position? name = some position) :
    position < graph.size ∧ graph.nameAt position = name := by
  -- The search for a name stops where the name stands.
  obtain ⟨bound, same, _⟩ := List.idxOf?_eq_some_iff.1 found
  exact ⟨by simpa using bound, by simp [nameAt, List.getElem?_eq_getElem bound, same]⟩

/-- In a consistent graph a name stands at one place only. -/
theorem nameAt_injective (consistent : graph.IsConsistent) {position other : Nat}
    (bound : position < graph.size) (otherBound : other < graph.size)
    (same : graph.nameAt position = graph.nameAt other) : position = other := by
  -- Names are read off a list without repetitions.
  have bound : position < graph.names.length := by simpa using bound
  have otherBound : other < graph.names.length := by simpa using otherBound
  simp only [nameAt, List.getElem?_eq_getElem bound, List.getElem?_eq_getElem otherBound,
    Option.getD_some] at same
  exact (consistent.distinct.getElem_inj_iff).1 same

/-- In a consistent graph the place of a name is wherever it stands. -/
theorem position?_nameAt (consistent : graph.IsConsistent) {position : Nat}
    (bound : position < graph.size) : graph.position? (graph.nameAt position) = some position := by
  -- A name of the graph has a place, and the name stands there too.
  obtain ⟨place, found⟩ := Option.isSome_iff_exists.1
    (List.isSome_idxOf?.2 (nameAt_mem_names bound))
  obtain ⟨placeBound, same⟩ := nameAt_of_position? found
  rw [nameAt_injective consistent placeBound bound same] at found
  exact found

/-- Names in source order are the names at the places in turn. -/
theorem map_nameAt_range (graph : CallGraph) :
    (List.range graph.size).map graph.nameAt = graph.names := by
  -- Both lists agree place by place.
  refine List.ext_getElem (by simp) fun position bound _ => ?_
  have bound : position < graph.names.length := by simpa using bound
  simp [nameAt, List.getElem?_eq_getElem bound]

/-- The places that a unit calls are the places of the names it calls. -/
theorem calleesOf_edges {position : Nat} {unit : CallableUnit}
    (found : graph.units[position]? = some unit) :
    calleesOf graph.edges position = unit.calls.filterMap (graph.names.idxOf? ·) := by
  simp [calleesOf, graph.edges_eq, edgesAmong, found, names]

/-- Past the end nothing is called. -/
theorem calleesOf_edges_of_le {position : Nat} (past : graph.size ≤ position) :
    calleesOf graph.edges position = [] := by
  have missing : graph.units[position]? = none := List.getElem?_eq_none past
  simp [calleesOf, graph.edges_eq, edgesAmong, missing]

/-- Every place called is a place of the graph. -/
theorem lt_size_of_mem_calleesOf {position target : Nat}
    (called : target ∈ calleesOf graph.edges position) : target < graph.size := by
  -- Edges hold only places that the search for a name has found.
  rcases Nat.lt_or_ge position graph.size with bound | past
  · rw [calleesOf_edges (List.getElem?_eq_getElem bound)] at called
    obtain ⟨callee, _, found⟩ := List.mem_filterMap.1 called
    exact (nameAt_of_position? found).1
  · simp [calleesOf_edges_of_le past] at called

/-- In a consistent graph the names at the places that a unit calls are the names it calls. -/
theorem map_nameAt_calleesOf (consistent : graph.IsConsistent) {position : Nat} {unit : CallableUnit}
    (found : graph.units[position]? = some unit) :
    (calleesOf graph.edges position).map graph.nameAt = unit.calls := by
  rw [calleesOf_edges found, List.map_filterMap]
  -- Every name called has a place, and stands there.
  have named : ∀ callee ∈ unit.calls,
      Option.map graph.nameAt (graph.names.idxOf? callee) = some callee := by
    intro callee called
    have member := consistent.inside unit (List.mem_of_getElem? found) callee called
    obtain ⟨place, located⟩ := Option.isSome_iff_exists.1 (List.isSome_idxOf?.2 member)
    rw [located, Option.map_some, (nameAt_of_position? located).2]
  rw [List.filterMap_congr named]
  exact List.filterMap_some

/-- The callees of a named unit stand at the places that it calls. -/
theorem callees_nameAt (consistent : graph.IsConsistent) {position : Nat}
    (bound : position < graph.size) :
    graph.callees (graph.nameAt position) = (calleesOf graph.edges position).map graph.nameAt := by
  simp only [callees, position?_nameAt consistent bound]

/-- The callees of a unit are the names it calls. -/
theorem callees_name (consistent : graph.IsConsistent) {unit : CallableUnit}
    (member : unit ∈ graph.units) : graph.callees unit.name = unit.calls := by
  -- The name is found at the place of its unit, whose calls are read there.
  obtain ⟨position, bound, found⟩ := List.getElem_of_mem member
  have found : graph.units[position]? = some unit := by rw [List.getElem?_eq_getElem bound, found]
  rw [← nameAt_of_getElem? found, callees_nameAt consistent bound]
  exact map_nameAt_calleesOf consistent found

/-- A name that is not in the graph has no callees. -/
theorem callees_of_not_mem {name : String} (missing : name ∉ graph.names) :
    graph.callees name = [] := by
  have nowhere : graph.position? name = none := List.idxOf?_eq_none_iff.2 missing
  simp only [callees, nowhere]

/-- A unit calls exactly its callees. -/
theorem calls_iff_mem_callees (consistent : graph.IsConsistent) {caller callee : String} :
    graph.Calls caller callee ↔ callee ∈ graph.callees caller := by
  -- The unit that calls is the one found by the name of the caller.
  constructor
  · rintro ⟨unit, member, rfl, called⟩
    rwa [callees_name consistent member]
  · intro called
    by_cases listed : caller ∈ graph.names
    · obtain ⟨unit, member, rfl⟩ := List.mem_map.1 listed
      exact ⟨unit, member, rfl, by rwa [callees_name consistent member] at called⟩
    · simp [callees_of_not_mem listed] at called

end Places

end CallGraph

end CallersFirst
