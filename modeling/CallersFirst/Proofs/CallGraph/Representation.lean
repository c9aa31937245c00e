import CallersFirst.Proofs.CallGraph.Order

/-! What a graph keeps of the units it is built from, and how its tables of calls agree with one another. -/

namespace CallersFirst

/-- Going through units and keeping those with new names adds the first uses to what is kept already. -/
theorem loop_eq_firstUses (units : List CallableUnit) :
    ∀ kept : List CallableUnit,
      List.eraseDupsBy.loop (·.name == ·.name) units kept =
        kept.reverse ++ firstUses (kept.map (·.name)) units := by
  -- A name counts as taken exactly if a unit kept so far has it.
  induction units with
  | nil =>
    intro kept
    simp [List.eraseDupsBy.loop, firstUses]
  | cons unit rest ih =>
    intro kept
    rw [List.eraseDupsBy.loop, firstUses]
    by_cases old : unit.name ∈ kept.map (·.name)
    · -- A unit with a name in use changes nothing.
      have found : kept.any (unit.name == ·.name) = true := by
        obtain ⟨other, member, same⟩ := List.mem_map.1 old
        exact List.any_eq_true.2 ⟨other, member, by simp [same]⟩
      rw [found, if_pos old]
      exact ih kept
    · -- A unit with a new name is kept, and its name is taken from then on.
      have missing : kept.any (unit.name == ·.name) = false := by
        rw [List.any_eq_false]
        intro other member same
        exact old (List.mem_map.2 ⟨other, member, (by simpa using same : unit.name = other.name).symm⟩)
      rw [missing, if_neg old]
      show List.eraseDupsBy.loop _ rest (unit :: kept) = _
      rw [ih (unit :: kept)]
      simp

/-- The units with new names are what is left once every later unit of a name is removed. -/
theorem firstUses_nil_eq (units : List CallableUnit) :
    firstUses [] units = units.eraseDupsBy (·.name == ·.name) := by
  rw [List.eraseDupsBy, loop_eq_firstUses]
  rfl

/-- The names of the units with new names are all names that are not taken already. -/
theorem mem_map_name_firstUses (units : List CallableUnit) :
    ∀ {taken : List String} {name : String},
      name ∈ (firstUses taken units).map (·.name) ↔ name ∈ units.map (·.name) ∧ name ∉ taken := by
  induction units with
  | nil =>
    intro taken name
    simp [firstUses]
  | cons unit rest ih =>
    intro taken name
    rw [firstUses, List.map_cons, List.mem_cons]
    by_cases old : unit.name ∈ taken
    · -- The unit is left out, and its name is not one of those asked for.
      rw [if_pos old, ih]
      constructor
      · exact fun found => ⟨.inr found.1, found.2⟩
      · intro found
        obtain ⟨same | later, new⟩ := found
        · exact absurd (same ▸ old) new
        · exact ⟨later, new⟩
    · -- The unit has its name from now on, and the names behind it are those of the rest.
      rw [if_neg old, List.map_cons, List.mem_cons, ih, List.mem_cons, not_or]
      constructor
      · intro found
        rcases found with same | ⟨later, _, new⟩
        · exact ⟨.inl same, same ▸ old⟩
        · exact ⟨.inr later, new⟩
      · intro found
        by_cases same : name = unit.name
        · exact .inl same
        · exact .inr ⟨found.1.resolve_left same, same, found.2⟩

namespace CallGraph

/-- The names of a graph are the names of the units that it is built from. -/
theorem mem_names_build_iff {units : List CallableUnit} {name : String} :
    name ∈ (build units).names ↔ name ∈ units.map (·.name) := by
  rw [names_build, mem_map_name_firstUses]
  simp

/-- The graph keeps the first unit of each name, with its calls to names of the graph. -/
theorem units_build (units : List CallableUnit) :
    (build units).units = (units.eraseDupsBy (·.name == ·.name)).map fun unit =>
      { unit with calls := unit.calls.filter (· ∈ (build units).names) } := by
  rw [names_build, ← firstUses_nil_eq]
  rfl

/-- A graph of units that call only one another has the first unit of each name as it is. -/
theorem units_build_of_inside {units : List CallableUnit}
    (inside : ∀ unit ∈ units, ∀ callee ∈ unit.calls, callee ∈ units.map (·.name)) :
    (build units).units = units.eraseDupsBy (·.name == ·.name) := by
  -- Nothing is filtered out of the calls, since every callee has a name of the graph.
  have same : ∀ unit ∈ units.eraseDupsBy (·.name == ·.name),
      { unit with calls := unit.calls.filter (· ∈ (build units).names) } = id unit := by
    intro unit kept
    rw [← firstUses_nil_eq] at kept
    have member : unit ∈ units := (firstUses_sublist [] units).subset kept
    have calls : unit.calls.filter (· ∈ (build units).names) = unit.calls :=
      List.filter_eq_self.2 fun callee called => by
        simpa [mem_names_build_iff] using inside unit member callee called
    rw [calls]
    rfl
  rw [units_build, List.map_congr_left same, List.map_id]

/-- Every unit is kept or left out, and so is its name. -/
theorem names_append_duplicates_perm (units : List CallableUnit) :
    ((build units).names ++ (build units).duplicates).Perm (units.map (·.name)) := by
  rw [names_build, duplicates, ← List.map_append]
  exact (firstUses_append_laterUses_perm [] units).map _

section Callers

variable {edges : Array (List Nat)}

/-- In a list made of copies of each number below a bound, a number occurs as often as it is copied. -/
theorem count_flatMap_replicate (copies : Nat → Nat) (bound number : Nat) :
    ((List.range bound).flatMap fun other => List.replicate (copies other) other).count number =
      if number < bound then copies number else 0 := by
  -- Only the copies made for the number itself count.
  induction bound with
  | zero => simp
  | succ bound ih =>
    rw [List.range_succ, List.flatMap_append, List.count_append, ih]
    simp only [List.flatMap_cons, List.flatMap_nil, List.append_nil, List.count_replicate, beq_iff_eq]
    by_cases same : bound = number
    · subst same
      simp
    · rw [if_neg same, Nat.add_zero]
      have further : number < bound + 1 ↔ number < bound := by omega
      simp only [further]

/-- A place is among the callers of another as often as the other is among its callees. -/
theorem count_callersOf {caller : Nat} (bound : caller < edges.size) (position : Nat) :
    (callersOf edges position).count caller = (calleesOf edges caller).count position := by
  rw [callersOf, count_flatMap_replicate, if_pos bound]

/-- Callers are listed in source order. -/
theorem pairwise_callersOf (edges : Array (List Nat)) (position : Nat) :
    (callersOf edges position).Pairwise (· ≤ ·) := by
  -- Copies of one place agree, and those of an earlier place stand in front.
  rw [callersOf, List.pairwise_flatMap]
  constructor
  · intro caller _
    exact List.pairwise_replicate.2 (.inr (Nat.le_refl caller))
  · refine List.pairwise_lt_range.imp ?_
    intro first second before copy isCopy other isOther
    have firstCopy := List.eq_of_mem_replicate isCopy
    have secondCopy := List.eq_of_mem_replicate isOther
    omega

/-- No caller is listed twice if no unit repeats a call. -/
theorem nodup_callersOf (once : ∀ caller, (calleesOf edges caller).Nodup) (position : Nat) :
    (callersOf edges position).Nodup := by
  rw [List.nodup_iff_count_le_one]
  intro caller
  by_cases bound : caller < edges.size
  · rw [count_callersOf bound]
    exact List.nodup_iff_count_le_one.1 (once caller) position
  · -- A place past the end calls nothing.
    have absent : caller ∉ callersOf edges position := fun member => bound (mem_callersOf_iff.1 member).1
    rw [List.count_eq_zero_of_not_mem absent]
    omega

end Callers

section Tables

variable {graph : CallGraph}

instance (graph : CallGraph) (caller callee : String) : Decidable (graph.Calls caller callee) :=
  inferInstanceAs (Decidable (∃ unit ∈ graph.units, unit.name = caller ∧ callee ∈ unit.calls))

/-- Among the names at some places, a name occurs as often as its place among the places. -/
theorem count_map_nameAt (consistent : graph.IsConsistent) {places : List Nat}
    (bounded : ∀ place ∈ places, place < graph.size) {position : Nat} (bound : position < graph.size) :
    (places.map graph.nameAt).count (graph.nameAt position) = places.count position := by
  -- No other place has the same name.
  rw [List.count, List.count, List.countP_map]
  refine List.countP_congr fun place member => ?_
  simp only [Function.comp_apply, beq_iff_eq]
  constructor
  · exact nameAt_injective consistent (bounded place member) bound
  · exact congrArg graph.nameAt

/-- Every unit has a place, at which its own name stands. -/
theorem exists_nameAt_eq {unit : CallableUnit} (member : unit ∈ graph.units) :
    ∃ position, position < graph.size ∧ graph.units[position]? = some unit ∧
      graph.nameAt position = unit.name := by
  obtain ⟨position, bound, found⟩ := List.getElem_of_mem member
  have found : graph.units[position]? = some unit := by rw [List.getElem?_eq_getElem bound, found]
  exact ⟨position, bound, found, nameAt_of_getElem? found⟩

/-- The callers of a place are places of the graph. -/
theorem lt_size_of_mem_callersOf {position caller : Nat}
    (calls : caller ∈ callersOf graph.edges position) : caller < graph.size := by
  have bound := (mem_callersOf_iff.1 calls).1
  rwa [size_edges] at bound

/-- The callers of a named unit stand at the places that call it. -/
theorem callers_nameAt (consistent : graph.IsConsistent) {position : Nat} (bound : position < graph.size) :
    graph.callers (graph.nameAt position) = (callersOf graph.edges position).map graph.nameAt := by
  simp only [callers, position?_nameAt consistent bound]

/-- A unit is among the callers of another as often as it calls it. -/
theorem count_callers (consistent : graph.IsConsistent) {caller callee : CallableUnit}
    (isCaller : caller ∈ graph.units) (isCallee : callee ∈ graph.units) :
    (graph.callers callee.name).count caller.name = caller.calls.count callee.name := by
  obtain ⟨source, sourceBound, found, sourceName⟩ := exists_nameAt_eq isCaller
  obtain ⟨target, targetBound, _, targetName⟩ := exists_nameAt_eq isCallee
  have inRange : source < graph.edges.size := by rwa [size_edges]
  -- Names are turned into places, where the two tables mirror each other, and back into names.
  calc (graph.callers callee.name).count caller.name
      = (callersOf graph.edges target).count source := by
        rw [← sourceName, ← targetName, callers_nameAt consistent targetBound]
        exact count_map_nameAt consistent (fun _ => lt_size_of_mem_callersOf) sourceBound
    _ = (calleesOf graph.edges source).count target := count_callersOf inRange target
    _ = ((calleesOf graph.edges source).map graph.nameAt).count (graph.nameAt target) :=
        (count_map_nameAt consistent (fun _ => lt_size_of_mem_calleesOf) targetBound).symm
    _ = caller.calls.count callee.name := by rw [map_nameAt_calleesOf consistent found, targetName]

/-- A name has the place at which it stands among the names, and no other. -/
theorem position?_eq_some_iff (consistent : graph.IsConsistent) {name : String} {position : Nat} :
    graph.position? name = some position ↔ graph.names[position]? = some name := by
  constructor
  · intro found
    obtain ⟨bound, same, _⟩ := List.idxOf?_eq_some_iff.1 found
    rw [List.getElem?_eq_getElem bound, same]
  · intro stands
    obtain ⟨bound, same⟩ := List.getElem?_eq_some_iff.1 stands
    -- The names are distinct, so looking one up finds the place it was read from.
    have named : graph.nameAt position = name := by simp [nameAt, stands]
    rw [← named]
    exact position?_nameAt consistent (by simpa using bound)

/-- A name outside of the graph has no place. -/
theorem position?_eq_none {name : String} (missing : name ∉ graph.names) : graph.position? name = none :=
  List.idxOf?_eq_none_iff.2 missing

/-- The places of the callers of a unit never go back. -/
theorem callers_inSourceOrder (consistent : graph.IsConsistent) (name : String) :
    ((graph.callers name).map (graph.names.idxOf ·)).Pairwise (· ≤ ·) := by
  by_cases listed : name ∈ graph.names
  · obtain ⟨unit, member, rfl⟩ := List.mem_map.1 listed
    obtain ⟨position, bound, _, named⟩ := exists_nameAt_eq member
    -- Looking up the names of the callers gives their places back.
    have places : ∀ caller ∈ callersOf graph.edges position,
        graph.names.idxOf (graph.nameAt caller) = id caller := by
      intro caller calls
      have inNames : caller < graph.names.length := by
        rw [length_names]
        exact lt_size_of_mem_callersOf calls
      simp only [nameAt, List.getElem?_eq_getElem inNames, Option.getD_some]
      exact consistent.distinct.idxOf_getElem caller inNames
    rw [← named, callers_nameAt consistent bound, List.map_map]
    simp only [Function.comp_def]
    rw [List.map_congr_left places, List.map_id]
    exact pairwise_callersOf graph.edges position
  · simp [callers, position?_eq_none listed]

/-- Places without repetitions are as many, one of them left aside, as there are other names at them. -/
theorem length_others (consistent : graph.IsConsistent) {places : List Nat} (distinct : places.Nodup)
    (bounded : ∀ place ∈ places, place < graph.size) {position : Nat} (bound : position < graph.size)
    {chosen : String → Prop} [DecidablePred chosen]
    (listed : ∀ place < graph.size, place ∈ places ↔ chosen (graph.nameAt place)) :
    (places.filter (· ≠ position)).length =
      graph.names.countP fun name => name ≠ graph.nameAt position ∧ chosen name := by
  rw [← map_nameAt_range, List.countP_map, List.countP_eq_length_filter]
  -- Both sides count the same places, each of them once.
  apply List.Perm.length_eq
  rw [List.perm_ext_iff_of_nodup (distinct.filter _) (List.nodup_range.filter _)]
  intro place
  simp only [List.mem_filter, List.mem_range, Function.comp_apply, decide_eq_true_eq]
  constructor
  · intro both
    have placeBound := bounded place both.1
    refine ⟨placeBound, ?_, (listed place placeBound).1 both.1⟩
    exact fun same => both.2 (nameAt_injective consistent placeBound bound same)
  · intro all
    obtain ⟨placeBound, other, isChosen⟩ := all
    exact ⟨(listed place placeBound).2 isChosen, fun same => other (congrArg graph.nameAt same)⟩

/-- Calls from or to names outside of the graph are not made. -/
theorem countP_eq_zero_of_not_mem (consistent : graph.IsConsistent) {name : String}
    (missing : name ∉ graph.names) :
    (graph.names.countP fun caller => caller ≠ name ∧ graph.Calls caller name) = 0 ∧
      (graph.names.countP fun callee => callee ≠ name ∧ graph.Calls name callee) = 0 := by
  constructor
  -- A call that is made has both its ends in the graph.
  · rw [List.countP_eq_zero]
    intro caller _ chosen
    obtain ⟨_, unit, member, _, called⟩ := of_decide_eq_true chosen
    exact missing (consistent.inside unit member name called)
  · rw [List.countP_eq_zero]
    intro callee _ chosen
    obtain ⟨_, unit, member, rfl, _⟩ := of_decide_eq_true chosen
    exact missing (List.mem_map_of_mem member)

/-- No place is listed twice among the callees of a place if no unit repeats a call. -/
theorem nodup_calleesOf (consistent : graph.IsConsistent) (once : ∀ unit ∈ graph.units, unit.calls.Nodup)
    (position : Nat) : (calleesOf graph.edges position).Nodup := by
  by_cases bound : position < graph.size
  · -- The names at the places are the calls of the unit.
    have found : graph.units[position]? = some graph.units[position] := List.getElem?_eq_getElem bound
    have calls := once _ (List.mem_of_getElem? found)
    rw [← map_nameAt_calleesOf consistent found] at calls
    exact calls.of_map
  · rw [calleesOf_edges_of_le (by omega)]
    exact List.nodup_nil

/-- Without repeated calls, a unit receives as many calls as there are other units that call it. -/
theorem inDegree_eq_countP (consistent : graph.IsConsistent) (once : ∀ unit ∈ graph.units, unit.calls.Nodup)
    (name : String) :
    graph.inDegree name = graph.names.countP fun caller => caller ≠ name ∧ graph.Calls caller name := by
  by_cases listed : name ∈ graph.names
  -- The entries of the reverse list are distinct and stand for the other callers.
  · obtain ⟨unit, member, rfl⟩ := List.mem_map.1 listed
    obtain ⟨position, bound, _, named⟩ := exists_nameAt_eq member
    rw [← named]
    simp only [inDegree, position?_nameAt consistent bound]
    refine length_others consistent (nodup_callersOf (nodup_calleesOf consistent once) position)
      (fun _ => lt_size_of_mem_callersOf) bound fun place placeBound => ?_
    rw [mem_callersOf_iff, size_edges, calls_nameAt_iff consistent placeBound bound]
    exact and_iff_right placeBound
  · rw [(countP_eq_zero_of_not_mem consistent listed).1]
    simp only [inDegree, position?_eq_none listed]

/-- Without repeated calls, a unit makes as many calls as there are other units that it calls. -/
theorem outDegree_eq_countP (consistent : graph.IsConsistent) (once : ∀ unit ∈ graph.units, unit.calls.Nodup)
    (name : String) :
    graph.outDegree name = graph.names.countP fun callee => callee ≠ name ∧ graph.Calls name callee := by
  by_cases listed : name ∈ graph.names
  -- The entries of the list are distinct and stand for the other callees.
  · obtain ⟨unit, member, rfl⟩ := List.mem_map.1 listed
    obtain ⟨position, bound, _, named⟩ := exists_nameAt_eq member
    rw [← named]
    simp only [outDegree, position?_nameAt consistent bound]
    refine length_others consistent (nodup_calleesOf consistent once position)
      (fun _ => lt_size_of_mem_calleesOf) bound fun place placeBound => ?_
    exact (calls_nameAt_iff consistent bound placeBound).symm
  · rw [(countP_eq_zero_of_not_mem consistent listed).2]
    simp only [outDegree, position?_eq_none listed]

end Tables

/-- Units that repeat no call repeat none in the graph either. -/
theorem nodup_calls_build {units : List CallableUnit} (once : ∀ unit ∈ units, unit.calls.Nodup) :
    ∀ unit ∈ (build units).units, unit.calls.Nodup := by
  -- A unit of the graph has some of the calls that it was given with.
  intro unit member
  simp only [build, List.mem_map] at member
  obtain ⟨original, kept, rfl⟩ := member
  exact (once original ((firstUses_sublist [] units).subset kept)).filter _

/-- A graph whose tables all tell the same about the units that it is made of. -/
structure Represents (graph : CallGraph) (units : List CallableUnit) : Prop where
  /-- The first unit of each name is kept, in source order, and only calls out of the graph are dropped. -/
  units_eq : graph.units = (units.eraseDupsBy (·.name == ·.name)).map fun unit =>
    { unit with calls := unit.calls.filter (· ∈ graph.names) }
  /-- The names of the units and those that were turned down are all names there are. -/
  names_perm : (graph.names ++ graph.duplicates).Perm (units.map (·.name))
  /-- One unit is among the callees of another as often as the other calls it. -/
  count_callees : ∀ caller ∈ graph.units, ∀ callee ∈ graph.units,
    (graph.callees caller.name).count callee.name = caller.calls.count callee.name
  /-- The other is among the callers of the one just as often. -/
  count_callers : ∀ caller ∈ graph.units, ∀ callee ∈ graph.units,
    (graph.callers callee.name).count caller.name = caller.calls.count callee.name
  /-- Callers are listed in source order. -/
  callers_inOrder : ∀ name, ((graph.callers name).map (graph.names.idxOf ·)).Pairwise (· ≤ ·)
  /-- Positions are places in the list of names. -/
  position_iff : ∀ name position, graph.position? name = some position ↔ graph.names[position]? = some name
  /-- Without repeated calls, the calls that a unit receives count the other units that call it. -/
  inDegree_eq : (∀ unit ∈ units, unit.calls.Nodup) → ∀ name,
    graph.inDegree name = graph.names.countP fun caller => caller ≠ name ∧ graph.Calls caller name
  /-- Without repeated calls, the calls that a unit makes count the other units that it calls. -/
  outDegree_eq : (∀ unit ∈ units, unit.calls.Nodup) → ∀ name,
    graph.outDegree name = graph.names.countP fun callee => callee ≠ name ∧ graph.Calls name callee

/-- Calls that are recorded one by one are never repeated. -/
theorem nodup_calls_foldl_addCall (callees : List String) :
    ∀ unit : CallableUnit, unit.calls.Nodup → (callees.foldl CallableUnit.addCall unit).calls.Nodup := by
  induction callees with
  | nil => exact fun _ distinct => distinct
  | cons callee rest ih =>
    intro unit distinct
    exact ih _ (CallableUnit.nodup_calls_addCall distinct callee)

/--
Building a graph keeps all of its tables in step.

Units that record their calls one by one never repeat one, which is what the two degrees ask for.
-/
theorem build_represents (units : List CallableUnit) :
    (build units).Represents units ∧
      ∀ (unit : CallableUnit) (callees : List String), unit.calls = [] →
        (callees.foldl CallableUnit.addCall unit).calls.Nodup := by
  have consistent := isConsistent_build units
  refine ⟨?_, ?_⟩
  -- Every clause is a fact of its own about the graph that is built.
  · exact {
      units_eq := units_build units
      names_perm := names_append_duplicates_perm units
      count_callees := fun caller isCaller callee _ => by rw [callees_name consistent isCaller]
      count_callers := fun caller isCaller callee isCallee => count_callers consistent isCaller isCallee
      callers_inOrder := callers_inSourceOrder consistent
      position_iff := fun name position => position?_eq_some_iff consistent
      inDegree_eq := fun once => inDegree_eq_countP consistent (nodup_calls_build once)
      outDegree_eq := fun once => outDegree_eq_countP consistent (nodup_calls_build once) }
  · intro unit callees silent
    exact nodup_calls_foldl_addCall callees unit (silent ▸ List.nodup_nil)

namespace Sample

/-- Two units that call each other, one of them also itself and a name of nothing, and a namesake. -/
def namesakes : List CallableUnit :=
  [⟨"a", .declaration, ⟨0, 5⟩, [], ["b", "a", "z"]⟩, ⟨"b", .declaration, ⟨10, 15⟩, [], ["a"]⟩,
    ⟨"a", .declaration, ⟨20, 25⟩, [], ["b"]⟩]

end Sample

/-- Neither the call of a unit to itself nor that of its namesake counts for the degrees. -/
theorem build_represents_namesakes :
    (∀ unit ∈ Sample.namesakes, unit.calls.Nodup) ∧ (build Sample.namesakes).names = ["a", "b"] ∧
      (build Sample.namesakes).inDegree "a" = 1 ∧ (build Sample.namesakes).outDegree "a" = 1 ∧
      (build Sample.namesakes).inDegree "b" = 1 := by
  have once : ∀ unit ∈ Sample.namesakes, unit.calls.Nodup := by decide
  have represents := (build_represents Sample.namesakes).1
  -- The degrees are counts of other units, which are counted out here.
  refine ⟨once, by decide +kernel, ?_, ?_, ?_⟩
  · exact (represents.inDegree_eq once "a").trans (by decide +kernel)
  · exact (represents.outDegree_eq once "a").trans (by decide +kernel)
  · exact (represents.inDegree_eq once "b").trans (by decide +kernel)

end CallGraph

end CallersFirst
