import CallersFirst.Proofs.CallGraph.Order

/-! Where a unit stands in the readable order if only one other unit calls it. -/

namespace CallersFirst

section Pairs

variable {α : Type} {before after : List α} {first second : α}

/-- In a list without repetitions one member stands before another exactly if it is in front of it. -/
theorem pair_sublist_append_cons_iff (distinct : (before ++ second :: after).Nodup) :
    [first, second].Sublist (before ++ second :: after) ↔ first ∈ before := by
  obtain ⟨_, rest, apart⟩ := List.nodup_append.1 distinct
  constructor
  · intro pair
    obtain ⟨front, back, parts, inFront, inBack⟩ := List.sublist_append_iff.1 pair
    -- The second member is not in front, so that the first one has to be.
    cases front with
    | nil =>
      rw [List.nil_append] at parts
      exact absurd (parts ▸ inBack) (Blocks.not_pair_sublist_cons_self (List.nodup_cons.1 rest).1)
    | cons head tail =>
      obtain ⟨rfl, _⟩ := List.cons.inj parts
      exact inFront.subset (List.mem_cons_self ..)
  · intro member
    exact (List.singleton_sublist.2 member).append (List.singleton_sublist.2 (List.mem_cons_self ..))

/-- Of two members of a list without repetitions exactly one stands before the other. -/
theorem pair_sublist_iff_not {list : List α} (distinct : list.Nodup) (isFirst : first ∈ list)
    (isSecond : second ∈ list) (differ : first ≠ second) :
    [second, first].Sublist list ↔ ¬ [first, second].Sublist list := by
  obtain ⟨before, after, rfl⟩ := List.append_of_mem isSecond
  -- Read backwards, what stands behind the second member is in front of it.
  have behind : [second, first].Sublist (before ++ second :: after) ↔ first ∈ after := by
    have backwards : (after.reverse ++ second :: before.reverse).Nodup := by
      simpa using List.nodup_reverse.2 distinct
    rw [← List.mem_reverse, ← pair_sublist_append_cons_iff backwards, ← List.reverse_sublist]
    simp
  obtain ⟨_, _, apart⟩ := List.nodup_append.1 distinct
  rw [behind, pair_sublist_append_cons_iff distinct]
  constructor
  · exact fun isBehind inFront => apart first inFront first (List.mem_cons_of_mem _ isBehind) rfl
  · intro notInFront
    exact (List.mem_cons.1 ((List.mem_append.1 isFirst).resolve_left notInFront)).resolve_left differ

end Pairs

namespace CallGraph

/-- A unit that calls another one, which no third unit calls. -/
structure IsOnlyCaller (graph : CallGraph) (caller name : String) : Prop where
  /-- The unit is called. -/
  calls : graph.Calls caller name
  /-- It is called by another unit. -/
  other : caller ≠ name
  /-- Whatever else calls it is the unit itself. -/
  only : ∀ third, graph.Calls third name → third = name ∨ third = caller

/-- Whether a unit is the only caller of another is settled by going through the units. -/
theorem isOnlyCaller_iff {graph : CallGraph} {caller name : String} :
    graph.IsOnlyCaller caller name ↔
      (∃ unit ∈ graph.units, unit.name = caller ∧ name ∈ unit.calls) ∧ caller ≠ name ∧
        ∀ unit ∈ graph.units, name ∈ unit.calls → unit.name = name ∨ unit.name = caller := by
  constructor
  -- A call is made by some unit of the graph, so callers can be looked for there.
  · intro sole
    refine ⟨sole.calls, sole.other, fun unit member called => ?_⟩
    exact sole.only unit.name ⟨unit, member, rfl, called⟩
  · rintro ⟨calls, other, only⟩
    refine ⟨calls, other, ?_⟩
    rintro third ⟨unit, member, rfl, called⟩
    exact only unit member called

instance (graph : CallGraph) (caller name : String) : Decidable (graph.IsOnlyCaller caller name) :=
  decidable_of_iff' _ isOnlyCaller_iff

section Placed

variable {graph : CallGraph} {caller name : String}

/-- Whatever calls or is called is a unit of the graph. -/
theorem Calls.mem_names (consistent : graph.IsConsistent) (calls : graph.Calls caller name) :
    caller ∈ graph.names ∧ name ∈ graph.names := by
  obtain ⟨unit, member, rfl, called⟩ := calls
  exact ⟨List.mem_map_of_mem member, consistent.inside unit member name called⟩

/-- A unit with an only caller is no entry exactly if a root or an earlier unit leads to it. -/
theorem IsOnlyCaller.not_isEntry_iff (consistent : graph.IsConsistent) (sole : graph.IsOnlyCaller caller name) :
    ¬ graph.IsEntry name ↔
      graph.IsRooted name ∨ ∃ earlier, graph.Precedes earlier name ∧ graph.LeadsTo earlier name := by
  have member := (sole.calls.mem_names consistent).2
  have notRoot : ¬ graph.IsRoot name := fun isRoot => sole.other (isRoot.2 caller sole.calls)
  constructor
  · intro inner
    by_contra neither
    rw [not_or, not_exists] at neither
    -- Without a root and an earlier unit that lead to it, reading would start anew at the unit.
    exact inner (.inr ⟨member, neither.1, fun earlier before _ leads => neither.2 earlier ⟨before, leads⟩⟩)
  · rintro led (isRoot | ⟨_, unrooted, apart⟩)
    · exact notRoot isRoot
    · rcases led with rooted | ⟨earlier, before, leads⟩
      · exact unrooted rooted
      · -- A root that leads to the earlier unit leads on to this one.
        refine apart earlier before ?_ leads
        rintro ⟨root, isRoot, leadsEarlier⟩
        exact unrooted ⟨root, isRoot, leadsEarlier.trans leads⟩

/-- A unit stands behind its only caller exactly if reading does not start anew at it. -/
theorem IsOnlyCaller.pair_sublist_iff (consistent : graph.IsConsistent)
    (sole : graph.IsOnlyCaller caller name) :
    [caller, name].Sublist graph.readableOrder ↔ ¬ graph.IsEntry name := by
  have traversal := readableOrder_traverses consistent
  obtain ⟨entries, block, blocks⟩ := traversal.exists_blocks (by simp [IsClosed])
    ((starts_sublist graph).nodup consistent.distinct)
  have entry_iff : graph.IsEntry name ↔ name ∈ entries := by
    rw [blocks.mem_entries_iff, CallGraph.isEntry_iff consistent]
    simp
  have distinct := traversal.nodup
  rw [entry_iff]
  constructor
  · -- Nothing in front of an entry leads to it, least of all a caller.
    intro pair isEntry
    obtain ⟨before, after, whole, unreached⟩ := blocks.exists_unreached isEntry
    rw [whole] at pair distinct
    refine unreached caller ((pair_sublist_append_cons_iff distinct).1 pair) ?_
    exact .single ((calls_iff_mem_callees consistent).1 sole.calls)
  · -- Any other unit has a caller in front of it, which can only be this one.
    intro inner
    have member := (readableOrder_perm consistent).mem_iff.2 (sole.calls.mem_names consistent).2
    obtain ⟨before, after, whole, third, isThird, edge⟩ := blocks.exists_led member inner
    rw [whole] at distinct ⊢
    rw [pair_sublist_append_cons_iff distinct]
    rcases sole.only third ((calls_iff_mem_callees consistent).2 edge) with rfl | rfl
    · exact absurd rfl ((List.nodup_append.1 distinct).2.2 _ isThird _ (List.mem_cons_self ..))
    · exact isThird

end Placed

/--
A unit with a single other caller follows that caller wherever a root or an earlier unit leads to it.

Where none does, reading starts anew at the unit, and the caller comes later.
It makes no difference whether the unit takes part in a cycle.
-/
theorem readableOrder_onlyCaller {units : List CallableUnit} {caller name : String}
    (sole : (build units).IsOnlyCaller caller name) :
    ([caller, name].Sublist (build units).readableOrder ↔
      (build units).IsRooted name ∨
        ∃ earlier, (build units).Precedes earlier name ∧ (build units).LeadsTo earlier name) ∧
    ([name, caller].Sublist (build units).readableOrder ↔
      ¬ ((build units).IsRooted name ∨
        ∃ earlier, (build units).Precedes earlier name ∧ (build units).LeadsTo earlier name)) := by
  have consistent := isConsistent_build units
  have perm := readableOrder_perm consistent
  have distinct := perm.nodup_iff.2 consistent.distinct
  obtain ⟨isCaller, isUnit⟩ := sole.calls.mem_names consistent
  -- The caller comes first exactly if the unit is not read on its own; both stand in the order once.
  rw [← sole.not_isEntry_iff consistent, ← sole.pair_sublist_iff consistent]
  exact ⟨Iff.rfl, pair_sublist_iff_not distinct (perm.mem_iff.2 isCaller) (perm.mem_iff.2 isUnit) sole.other⟩

namespace Sample

/-- A unit with a caller further down that nothing calls. -/
def rooted : List CallableUnit :=
  [⟨"u", .declaration, ⟨0, 5⟩, [], []⟩, ⟨"a", .declaration, ⟨10, 15⟩, [], ["u"]⟩]

/-- A unit with a caller further down that lies on a cycle. -/
def rootless : List CallableUnit :=
  [⟨"u", .declaration, ⟨0, 5⟩, [], []⟩, ⟨"a", .declaration, ⟨10, 15⟩, [], ["b", "u"]⟩,
    ⟨"b", .declaration, ⟨20, 25⟩, [], ["a"]⟩]

end Sample

/-- The caller that nothing calls comes first, although it stands further down. -/
theorem caller_before_callee_rooted :
    (build Sample.rooted).IsOnlyCaller "a" "u" ∧ ["a", "u"].Sublist (build Sample.rooted).readableOrder := by
  have sole : (build Sample.rooted).IsOnlyCaller "a" "u" := by decide +kernel
  -- No unit calls the caller, so it is a root that leads to the unit.
  have isRoot : (build Sample.rooted).IsRoot "a" := by
    refine ⟨by decide +kernel, ?_⟩
    have uncalled : ∀ unit ∈ (build Sample.rooted).units, "a" ∉ unit.calls := by decide +kernel
    rintro caller ⟨unit, member, _, called⟩
    exact absurd called (uncalled unit member)
  exact ⟨sole, (readableOrder_onlyCaller sole).1.2 (.inl ⟨"a", isRoot, .single sole.calls⟩)⟩

/-- A unit that calls nothing stands before its only caller, which lies on a cycle that no root reaches. -/
theorem callee_before_onlyCaller :
    (build Sample.rootless).IsOnlyCaller "a" "u" ∧
    (∀ other, (build Sample.rootless).LeadsTo "u" other → other = "u") ∧
    (build Sample.rootless).readableOrder = ["u", "a", "b"] ∧
    ¬ ["a", "u"].Sublist (build Sample.rootless).readableOrder := by
  have order : (build Sample.rootless).readableOrder = ["u", "a", "b"] := by cbv
  have uncalling : ∀ unit ∈ (build Sample.rootless).units, unit.name = "u" → unit.calls = [] := by
    decide +kernel
  refine ⟨by decide +kernel, fun other leads => ?_, order, by rw [order]; decide⟩
  -- The way ends where it starts, for lack of calls.
  induction leads with
  | refl => rfl
  | tail _ call ih =>
    subst ih
    obtain ⟨unit, member, same, called⟩ := call
    rw [uncalling unit member same] at called
    exact absurd called List.not_mem_nil

end CallGraph

end CallersFirst
