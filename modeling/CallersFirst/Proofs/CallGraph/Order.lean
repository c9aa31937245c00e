import CallersFirst.CallGraph.Order
import CallersFirst.Proofs.CallableUnit
import CallersFirst.Proofs.CallGraph.Names
import CallersFirst.Proofs.CallGraph.Walk

/-! The readable order lists each unit once, block after block, and reproduces itself. -/

namespace CallersFirst

namespace CallGraph

/-- A unit leads to another along any number of calls. -/
def LeadsTo (graph : CallGraph) : String → String → Prop :=
  Relation.ReflTransGen graph.Calls

/-- A unit that no other unit calls. -/
def IsRoot (graph : CallGraph) (name : String) : Prop :=
  name ∈ graph.names ∧ ∀ caller, graph.Calls caller name → caller = name

/-- A unit to which some root leads. -/
def IsRooted (graph : CallGraph) (name : String) : Prop :=
  ∃ root, graph.IsRoot root ∧ graph.LeadsTo root name

/-- One unit stands before another in the source. -/
def Precedes (graph : CallGraph) (first second : String) : Prop :=
  [first, second].Sublist graph.names

/--
A unit at which reading starts anew.

It is a root, or a unit to which neither a root nor an earlier unit without a root leads.
-/
def IsEntry (graph : CallGraph) (name : String) : Prop :=
  graph.IsRoot name ∨
    (name ∈ graph.names ∧ ¬ graph.IsRooted name ∧
      ∀ earlier, graph.Precedes earlier name → ¬ graph.IsRooted earlier → ¬ graph.LeadsTo earlier name)

/-- The units read from one entry on. -/
structure IsBlock (graph : CallGraph) (entry : String) (block : List String) : Prop where
  /-- The entry comes first. -/
  head : block.head? = some entry
  /-- The block holds what the entry leads to and no earlier entry does. -/
  mem_iff : ∀ name, name ∈ block ↔ graph.LeadsTo entry name ∧
    ∀ earlier, graph.IsEntry earlier → graph.Precedes earlier entry → ¬ graph.LeadsTo earlier name
  /-- Every other unit of the block has a caller before it in the block. -/
  led : ∀ before name after, block = before ++ name :: after → name ≠ entry →
    ∃ caller ∈ before, graph.Calls caller name

section Reach

variable {graph : CallGraph}

/-- Leading to a unit is reaching it through callees. -/
theorem leadsTo_iff_reaches (consistent : graph.IsConsistent) {name other : String} :
    graph.LeadsTo name other ↔ Reaches graph.callees name other := by
  -- Calls by name and the lists of callees are the same relation.
  have same : graph.Calls = fun caller callee => callee ∈ graph.callees caller := by
    funext caller callee
    exact propext (calls_iff_mem_callees consistent)
  rw [LeadsTo, Reaches, same]

/-- Calls never lead out of the graph. -/
theorem isClosed_names (consistent : graph.IsConsistent) : IsClosed graph.callees graph.names := by
  -- A consistent graph calls none but its own units.
  intro name member callee called
  obtain ⟨unit, kept, rfl⟩ := List.mem_map.1 member
  rw [callees_name consistent kept] at called
  exact consistent.inside unit kept callee called

/-- No other unit leads to a root. -/
theorem IsRoot.eq_of_leadsTo {root name : String} (isRoot : graph.IsRoot root)
    (leads : graph.LeadsTo name root) : name = root := by
  -- The last call of such a way would come from another unit.
  induction leads using Relation.ReflTransGen.head_induction_on with
  | refl => rfl
  | head call _ ih =>
    subst ih
    exact isRoot.2 _ call

/-- A unit stands before another only if both are units of the graph. -/
theorem Precedes.mem {first second : String} (before : graph.Precedes first second) :
    first ∈ graph.names ∧ second ∈ graph.names :=
  ⟨before.subset (by simp), before.subset (by simp)⟩

/-- A place is among the root places if no other place calls it. -/
theorem mem_rootPositions_iff {position : Nat} :
    position ∈ graph.rootPositions ↔ position < graph.size ∧
      ∀ caller < graph.size, position ∈ calleesOf graph.edges caller → caller = position := by
  simp [rootPositions, inDegreeOf_eq_zero_iff]

/-- A place calls another exactly if the unit named there calls the other by name. -/
theorem calls_nameAt_iff (consistent : graph.IsConsistent) {caller callee : Nat}
    (callerBound : caller < graph.size) (calleeBound : callee < graph.size) :
    graph.Calls (graph.nameAt caller) (graph.nameAt callee) ↔ callee ∈ calleesOf graph.edges caller := by
  -- The places called are those of the names called, and no two places share a name.
  rw [calls_iff_mem_callees consistent, callees_nameAt consistent callerBound, List.mem_map]
  constructor
  · rintro ⟨target, called, same⟩
    exact nameAt_injective consistent (lt_size_of_mem_calleesOf called) calleeBound same ▸ called
  · exact fun called => ⟨callee, called, rfl⟩

/-- A place is among the root places if its name is that of a root. -/
theorem mem_rootPositions_iff_isRoot (consistent : graph.IsConsistent) {position : Nat}
    (bound : position < graph.size) :
    position ∈ graph.rootPositions ↔ graph.IsRoot (graph.nameAt position) := by
  -- Every caller has a place, and it differs from this one exactly if the names differ.
  rw [mem_rootPositions_iff]
  constructor
  · rintro ⟨_, alone⟩
    refine ⟨nameAt_mem_names bound, fun caller call => ?_⟩
    obtain ⟨unit, member, rfl, _⟩ := id call
    obtain ⟨place, placeBound, found⟩ := List.getElem_of_mem member
    have named : graph.nameAt place = unit.name :=
      nameAt_of_getElem? (by rw [List.getElem?_eq_getElem placeBound, found])
    rw [← named] at call ⊢
    rw [alone place placeBound ((calls_nameAt_iff consistent placeBound bound).1 call)]
  · rintro ⟨_, alone⟩
    refine ⟨bound, fun caller callerBound called => ?_⟩
    exact nameAt_injective consistent callerBound bound
      (alone _ ((calls_nameAt_iff consistent callerBound bound).2 called))

end Reach

section Starts

variable {graph : CallGraph}

/-- A walk over the places of a graph is a traversal of its names. -/
theorem walkFrom_traverses (consistent : graph.IsConsistent) {starts : List Nat}
    (bounded : ∀ start ∈ starts, start < graph.size) :
    Traverses graph.callees [] (starts.map graph.nameAt)
      ((graph.walkFrom starts).entered.reverse.map graph.nameAt) := by
  -- Names stand for places one to one, and calls by name follow calls by place.
  have places := Walk.fromStarts_traverses
    (fun vertex target => @lt_size_of_mem_calleesOf graph vertex target) starts
  exact places.map (fun vertex _ target => lt_size_of_mem_calleesOf)
    (fun vertex other => nameAt_injective consistent) (fun vertex => callees_nameAt consistent)
    (by simp) bounded

/-- A walk enters places of the graph only. -/
theorem lt_size_of_mem_entered {starts : List Nat} (bounded : ∀ start ∈ starts, start < graph.size) :
    ∀ position ∈ (graph.walkFrom starts).entered, position < graph.size := by
  -- A walk enters its starts and targets of edges, all of them places of the graph.
  have places := Walk.fromStarts_traverses
    (fun vertex target => @lt_size_of_mem_calleesOf graph vertex target) starts
  intro position member
  exact places.forall_visited (fun vertex _ target => lt_size_of_mem_calleesOf) bounded position
    (List.mem_reverse.2 member)

/-- A place is entered from the roots if its unit is rooted. -/
theorem mem_entered_roots_iff (consistent : graph.IsConsistent) {position : Nat}
    (bound : position < graph.size) :
    position ∈ (graph.walkFrom graph.rootPositions).entered ↔ graph.IsRooted (graph.nameAt position) := by
  have bounded : ∀ start ∈ graph.rootPositions, start < graph.size :=
    fun start member => (mem_rootPositions_iff.1 member).1
  have closed : IsClosed graph.callees [] := by simp [IsClosed]
  -- Being entered is a matter of the name alone.
  have byName : position ∈ (graph.walkFrom graph.rootPositions).entered ↔
      graph.nameAt position ∈ (graph.walkFrom graph.rootPositions).entered.reverse.map graph.nameAt := by
    simp only [List.mem_map, List.mem_reverse]
    constructor
    · exact fun member => ⟨position, member, rfl⟩
    · rintro ⟨other, member, same⟩
      exact nameAt_injective consistent (lt_size_of_mem_entered bounded other member) bound same ▸ member
  rw [byName, (walkFrom_traverses consistent bounded).mem_visited_iff closed]
  constructor
  -- Reaching a place from a root by edges is leading there by calls, and back.
  · rintro ⟨_, name, member, reached⟩
    obtain ⟨root, isRoot, rfl⟩ := List.mem_map.1 member
    exact ⟨_, (mem_rootPositions_iff_isRoot consistent (bounded root isRoot)).1 isRoot,
      (leadsTo_iff_reaches consistent).2 reached⟩
  · rintro ⟨root, isRoot, leads⟩
    obtain ⟨place, found⟩ := Option.isSome_iff_exists.1 (List.isSome_idxOf?.2 isRoot.1)
    obtain ⟨placeBound, rfl⟩ := nameAt_of_position? found
    exact ⟨by simp, _, List.mem_map_of_mem ((mem_rootPositions_iff_isRoot consistent placeBound).2 isRoot),
      (leadsTo_iff_reaches consistent).1 leads⟩

/-- The names at which the walk for the readable order is started. -/
def starts (graph : CallGraph) : List String :=
  graph.entries.map graph.nameAt

/-- The walk is started in source order. -/
theorem starts_sublist (graph : CallGraph) : graph.starts.Sublist graph.names := by
  rw [← map_nameAt_range]
  exact List.filter_sublist.map graph.nameAt

/-- The walk is started at the roots and at all units without a root. -/
theorem mem_starts_iff (consistent : graph.IsConsistent) {name : String} :
    name ∈ graph.starts ↔ name ∈ graph.names ∧ (graph.IsRoot name ∨ ¬ graph.IsRooted name) := by
  -- The entries are filtered by what the first walk has entered, which is what the roots lead to.
  constructor
  · intro member
    refine ⟨(starts_sublist graph).subset member, ?_⟩
    obtain ⟨position, entered, rfl⟩ := List.mem_map.1 member
    simp only [entries, List.mem_filter, List.mem_range, decide_eq_true_eq] at entered
    obtain ⟨bound, root | unreached⟩ := entered
    · exact .inl ((mem_rootPositions_iff_isRoot consistent bound).1 root)
    · exact .inr fun rooted => unreached ((mem_entered_roots_iff consistent bound).2 rooted)
  · rintro ⟨member, chosen⟩
    obtain ⟨position, found⟩ := Option.isSome_iff_exists.1 (List.isSome_idxOf?.2 member)
    obtain ⟨bound, rfl⟩ := nameAt_of_position? found
    refine List.mem_map_of_mem ?_
    simp only [entries, List.mem_filter, List.mem_range, decide_eq_true_eq]
    rw [mem_rootPositions_iff_isRoot consistent bound, mem_entered_roots_iff consistent bound]
    exact ⟨bound, chosen⟩

/-- The readable order is the traversal from the starts. -/
theorem readableOrder_traverses (consistent : graph.IsConsistent) :
    Traverses graph.callees [] graph.starts graph.readableOrder := by
  refine walkFrom_traverses consistent fun start member => ?_
  exact List.mem_range.1 (List.mem_filter.1 member).1

/-- The readable order lists every unit of the graph once. -/
theorem readableOrder_perm (consistent : graph.IsConsistent) :
    graph.readableOrder.Perm graph.names := by
  have traversal := readableOrder_traverses consistent
  rw [List.perm_ext_iff_of_nodup traversal.nodup consistent.distinct]
  intro name
  rw [traversal.mem_visited_iff (by simp [IsClosed])]
  constructor
  · rintro ⟨_, start, member, reached⟩
    exact (isClosed_names consistent).mem_of_reaches ((starts_sublist graph).subset member) reached
  · intro member
    refine ⟨by simp, ?_⟩
    -- A rooted unit is reached from its root, and any other one is started at itself.
    by_cases rooted : graph.IsRooted name
    · obtain ⟨root, isRoot, leads⟩ := rooted
      exact ⟨root, (mem_starts_iff consistent).2 ⟨isRoot.1, .inl isRoot⟩,
        (leadsTo_iff_reaches consistent).1 leads⟩
    · exact ⟨name, (mem_starts_iff consistent).2 ⟨member, .inr rooted⟩, .refl⟩

end Starts

section Blocks

variable {graph : CallGraph}

/-- A part of a list without repetitions is what its members leave of the list. -/
theorem filter_mem_of_sublist {α : Type} [DecidableEq α] {part whole : List α} (sub : part.Sublist whole)
    (distinct : whole.Nodup) : whole.filter (· ∈ part) = part := by
  -- A member left out occurs nowhere else, so the part cannot name it.
  induction sub with
  | slnil => rfl
  | cons name sub ih =>
    obtain ⟨missing, distinct⟩ := List.nodup_cons.1 distinct
    rw [List.filter_cons_of_neg (by simpa using fun member => missing (sub.subset member))]
    exact ih distinct
  | cons_cons name sub ih =>
    obtain ⟨missing, distinct⟩ := List.nodup_cons.1 distinct
    rw [List.filter_cons_of_pos (by simp)]
    refine congrArg _ ((List.filter_congr fun other member => ?_).trans (ih distinct))
    have differs : other ≠ name := fun same => missing (same ▸ member)
    simp [differs]

/-- One start stands before another if it does so in the source. -/
theorem pair_sublist_starts_iff (consistent : graph.IsConsistent) {first second : String} :
    [first, second].Sublist graph.starts ↔
      graph.Precedes first second ∧ first ∈ graph.starts ∧ second ∈ graph.starts := by
  constructor
  · exact fun pair => ⟨pair.trans (starts_sublist graph), pair.subset (by simp), pair.subset (by simp)⟩
  · rintro ⟨pair, started, startedToo⟩
    -- Both members pass the filter that leaves the starts of the names.
    have filtered := pair.filter (· ∈ graph.starts)
    rw [filter_mem_of_sublist (starts_sublist graph) consistent.distinct] at filtered
    simpa [started, startedToo] using filtered

/-- The entries are the starts to which no earlier start leads. -/
theorem isEntry_iff (consistent : graph.IsConsistent) {name : String} :
    graph.IsEntry name ↔ name ∈ graph.starts ∧
      ∀ earlier, [earlier, name].Sublist graph.starts → ¬ Reaches graph.callees earlier name := by
  simp only [← leadsTo_iff_reaches consistent, pair_sublist_starts_iff consistent]
  constructor
  · rintro (isRoot | ⟨member, unrooted, apart⟩)
    · refine ⟨(mem_starts_iff consistent).2 ⟨isRoot.1, .inl isRoot⟩, ?_⟩
      -- Only a root itself leads to it, and it does not stand before itself.
      rintro earlier ⟨before, _, _⟩ leads
      obtain rfl := isRoot.eq_of_leadsTo leads
      exact absurd (before.nodup consistent.distinct) (by simp)
    · have started := (mem_starts_iff consistent).2 ⟨member, .inr unrooted⟩
      refine ⟨started, ?_⟩
      rintro earlier ⟨before, startedToo, _⟩ leads
      rcases ((mem_starts_iff consistent).1 startedToo).2 with isRoot | unrootedToo
      · exact unrooted ⟨earlier, isRoot, leads⟩
      · exact apart earlier before unrootedToo leads
  · rintro ⟨started, apart⟩
    obtain ⟨member, isRoot | unrooted⟩ := (mem_starts_iff consistent).1 started
    · exact .inl isRoot
    · refine .inr ⟨member, unrooted, fun earlier before unrootedToo => ?_⟩
      exact apart earlier
        ⟨before, (mem_starts_iff consistent).2 ⟨before.mem.1, .inr unrootedToo⟩, started⟩

/--
The readable order of a graph is a permutation of its names made of blocks.

There is one block for each entry, and the blocks stand in the source order of their entries.
-/
theorem readableOrder_blocks (units : List CallableUnit) :
    (build units).readableOrder.Perm (build units).names ∧
      ∃ (entries : List String) (block : String → List String),
        entries.Sublist (build units).names ∧
        (∀ name, name ∈ entries ↔ (build units).IsEntry name) ∧
        (∀ entry ∈ entries, (build units).IsBlock entry (block entry)) ∧
        (build units).readableOrder = entries.flatMap block := by
  have consistent := isConsistent_build units
  obtain ⟨entries, block, blocks⟩ := (readableOrder_traverses consistent).exists_blocks
    (by simp [IsClosed]) ((starts_sublist _).nodup consistent.distinct)
  -- The entries of the blocks are the entries of the graph.
  have entry_iff : ∀ name, name ∈ entries ↔ (build units).IsEntry name := by
    intro name
    rw [blocks.mem_entries_iff, isEntry_iff consistent]
    simp
  refine ⟨readableOrder_perm consistent, entries, block,
    blocks.entries_sublist.trans (starts_sublist _), entry_iff, ?_, blocks.visited_eq⟩
  intro entry isEntry
  refine ⟨blocks.head_block entry isEntry, fun name => ?_, fun before name after parts other => ?_⟩
  · rw [blocks.mem_block_iff entry isEntry name]
    simp only [List.not_mem_nil, not_false_eq_true, true_and, leadsTo_iff_reaches consistent, entry_iff,
      pair_sublist_starts_iff consistent]
    -- Entries are starts, so standing before an entry in the source is enough.
    have started : ∀ earlier, (build units).IsEntry earlier → earlier ∈ (build units).starts :=
      fun earlier early => ((isEntry_iff consistent).1 early).1
    refine and_congr_right fun _ => forall₂_congr fun earlier early => ?_
    simp [started earlier early, started entry ((entry_iff entry).1 isEntry)]
  -- Within a block every unit but the first has a caller in front of it.
  · obtain ⟨caller, member, called⟩ := blocks.led_block entry isEntry before name after parts other
    exact ⟨caller, member, (calls_iff_mem_callees consistent).2 called⟩

end Blocks

section Listing

variable {graph other : CallGraph}

/-- Graphs of the same units have the same calls. -/
theorem calls_iff_of_perm (same : other.units.Perm graph.units) {caller callee : String} :
    other.Calls caller callee ↔ graph.Calls caller callee := by
  simp only [Calls, same.mem_iff]

/-- Graphs of the same units have the same names. -/
theorem names_perm_of_perm (same : other.units.Perm graph.units) : other.names.Perm graph.names :=
  same.map _

/-- Graphs of the same units have the same callees. -/
theorem callees_eq_of_perm (consistent : graph.IsConsistent) (consistent' : other.IsConsistent)
    (same : other.units.Perm graph.units) : other.callees = graph.callees := by
  -- Both graphs find the same unit under the name.
  funext name
  by_cases listed : name ∈ graph.names
  · obtain ⟨unit, member, rfl⟩ := List.mem_map.1 listed
    rw [callees_name consistent member, callees_name consistent' (same.mem_iff.2 member)]
  · have missing : name ∉ other.names := fun member => listed ((names_perm_of_perm same).mem_iff.1 member)
    rw [callees_of_not_mem listed, callees_of_not_mem missing]

/-- Graphs of the same units start their readable orders at the same units. -/
theorem mem_starts_iff_of_perm (consistent : graph.IsConsistent) (consistent' : other.IsConsistent)
    (same : other.units.Perm graph.units) {name : String} : name ∈ other.starts ↔ name ∈ graph.starts := by
  -- Roots and what they lead to are a matter of names and calls alone.
  have sameRoots : ∀ root, other.IsRoot root ↔ graph.IsRoot root := fun root => by
    simp only [IsRoot, (names_perm_of_perm same).mem_iff, calls_iff_of_perm same]
  have sameCalls : other.Calls = graph.Calls := by
    funext caller callee
    exact propext (calls_iff_of_perm same)
  rw [mem_starts_iff consistent, mem_starts_iff consistent']
  simp only [IsRooted, LeadsTo, sameRoots, sameCalls, (names_perm_of_perm same).mem_iff]

/-- Listing units in readable order and building their graph again leaves the order as it is. -/
theorem readableOrder_eq_of_names (consistent : graph.IsConsistent) (consistent' : other.IsConsistent)
    (same : other.units.Perm graph.units) (listed : other.names = graph.readableOrder) :
    other.readableOrder = graph.readableOrder := by
  -- The new starts are some of the old order, and hold all old starts.
  have chosen : other.starts.Sublist graph.readableOrder := listed ▸ starts_sublist other
  have again := (readableOrder_traverses consistent).replay chosen fun start member _ =>
    (mem_starts_iff_of_perm consistent consistent' same).2 member
  have traversal := readableOrder_traverses consistent'
  rw [callees_eq_of_perm consistent consistent' same] at traversal
  exact traversal.unique again

/-- The units of a graph in the order of a list of names. -/
def listedAs (graph : CallGraph) (order : List String) : List CallableUnit :=
  order.filterMap graph.get?

/-- A unit is found by its name. -/
theorem get?_name (consistent : graph.IsConsistent) {unit : CallableUnit}
    (member : unit ∈ graph.units) : graph.get? unit.name = some unit :=
  (CallableUnit.find?_name_eq_some_iff consistent.distinct).2 ⟨member, rfl⟩

/-- Units listed by all of their names are the same units. -/
theorem listedAs_perm (consistent : graph.IsConsistent) {order : List String}
    (complete : order.Perm graph.names) : (graph.listedAs order).Perm graph.units := by
  -- In source order the names give back the units one by one.
  have inSource : graph.names.filterMap graph.get? = graph.units := by
    rw [names, List.filterMap_map]
    exact (List.filterMap_congr fun unit member => get?_name consistent member).trans List.filterMap_some
  exact inSource ▸ complete.filterMap graph.get?

/-- Units listed by names have these names. -/
theorem map_name_listedAs (consistent : graph.IsConsistent) {order : List String}
    (known : ∀ name ∈ order, name ∈ graph.names) : (graph.listedAs order).map (·.name) = order := by
  -- Every name of the order finds the unit that bears it.
  rw [listedAs, List.map_filterMap]
  refine (List.filterMap_congr fun name member => ?_).trans List.filterMap_some
  obtain ⟨unit, kept, rfl⟩ := List.mem_map.1 (known name member)
  rw [get?_name consistent kept, Option.map_some]

/--
Units listed in readable order are in readable order.

The list has all units of the graph, each under its place in the order, and its own graph has the same
readable order.
-/
theorem readableOrder_listedAs (units : List CallableUnit) :
    ((build units).listedAs (build units).readableOrder).Perm (build units).units ∧
    ((build units).listedAs (build units).readableOrder).map (·.name) = (build units).readableOrder ∧
    (build ((build units).listedAs (build units).readableOrder)).readableOrder =
      (build units).readableOrder := by
  have consistent := isConsistent_build units
  have complete := readableOrder_perm consistent
  have listed := listedAs_perm consistent complete
  have names := map_name_listedAs consistent fun name => complete.mem_iff.1
  -- Building the graph again keeps all of the listed units as they are.
  have kept := units_build_eq_self (by rw [names]; exact complete.nodup_iff.2 consistent.distinct)
    fun unit member callee called => by
      rw [names, complete.mem_iff]
      exact consistent.inside unit (listed.mem_iff.1 member) callee called
  refine ⟨listed, names, ?_⟩
  exact readableOrder_eq_of_names consistent (isConsistent_build _) (kept.symm ▸ listed)
    (by rw [CallGraph.names, kept, names])

end Listing

end CallGraph

end CallersFirst
