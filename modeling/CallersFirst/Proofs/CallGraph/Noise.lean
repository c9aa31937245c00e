import CallersFirst.Proofs.CallGraph.Representation

/-! Calls that make no difference to the readable order, and units that it never gets to see. -/

namespace CallersFirst

/--
A list without some of the members that were known before.

Whatever stands further in front of the list counts as known to the members behind it.
-/
inductive Thinned {α : Type} : List α → List α → List α → Prop where
  /-- Nothing can be left out of an empty list. -/
  | nil (known : List α) : Thinned known [] []
  /-- A known member may be left out. -/
  | drop {known rest kept : List α} {first : α} (old : first ∈ known) (onward : Thinned known rest kept) :
      Thinned known (first :: rest) kept
  /-- Any member may be kept, and is known from then on. -/
  | keep {known rest kept : List α} {first : α} (onward : Thinned (first :: known) rest kept) :
      Thinned known (first :: rest) (first :: kept)

namespace Thinned

variable {α : Type}

/-- Nothing needs to be left out. -/
theorem refl (list : List α) : ∀ known : List α, Thinned known list list := by
  induction list with
  | nil => exact .nil
  | cons first rest ih => exact fun known => .keep (ih (first :: known))

/-- All known members and all repetitions can be left out at once. -/
theorem eraseDups_filter [DecidableEq α] (list : List α) :
    ∀ known : List α, Thinned known list ((list.filter (· ∉ known)).eraseDups) := by
  induction list with
  | nil =>
    intro known
    exact .nil known
  | cons first rest ih =>
    intro known
    by_cases old : first ∈ known
    · rw [List.filter_cons_of_neg (by simpa using old)]
      exact .drop old (ih known)
    · -- Removing the repetitions of a member is passing over a member known by then.
      have others : (rest.filter (· ∉ known)).filter (fun other => !other == first) =
          rest.filter (· ∉ first :: known) := by
        rw [List.filter_filter]
        refine List.filter_congr fun other _ => ?_
        by_cases same : other = first <;> simp [same]
      rw [List.filter_cons_of_pos (by simpa using old), List.eraseDups_cons, others]
      exact .keep (ih (first :: known))

end Thinned

/-- Leaving known targets out of every list of edges does not change what is visited. -/
theorem Traverses.thinned {α : Type} {next next' : α → List α} {seen targets visited : List α}
    (edges : ∀ vertex, Thinned [vertex] (next vertex) (next' vertex))
    (traversal : Traverses next seen targets visited) :
    ∀ {known kept : List α}, Thinned known targets kept → (∀ vertex ∈ known, vertex ∈ seen) →
      Traverses next' seen kept visited := by
  -- A target that is left out has been seen, so that it would have been passed over.
  induction traversal with
  | done seen =>
    intro known kept thin _
    cases thin
    exact .done seen
  | @skip seen rest visited target isSeen onward ih =>
    intro known kept thin within
    cases thin with
    | drop old thinRest => exact ih thinRest within
    | keep thinRest =>
      refine .skip isSeen (ih thinRest ?_)
      intro vertex member
      rcases List.mem_cons.1 member with same | old
      · rw [same]
        exact isSeen
      · exact within vertex old
  | @enter seen rest below visited target new inward onward ihInward ihOnward =>
    intro known kept thin within
    cases thin with
    | drop old thinRest => exact absurd (within target old) new
    | keep thinRest =>
      -- Below the target its own edges are followed, among which the target itself may be missing.
      refine .enter new (ihInward (edges target) ?_) (ihOnward thinRest ?_)
      · intro vertex member
        rw [List.mem_singleton.1 member]
        simp
      · intro vertex member
        rcases List.mem_cons.1 member with same | old
        · rw [same]
          simp
        · exact List.mem_append_left _ (within vertex old)

/--
Some units without noise.

Of each name the first unit is left, and of its calls the first one to each other unit.
-/
def withoutNoise (units : List CallableUnit) : List CallableUnit :=
  (units.eraseDupsBy (·.name == ·.name)).map fun unit =>
    { unit with
      calls := (unit.calls.filter fun callee =>
        callee ≠ unit.name ∧ callee ∈ units.map (·.name)).eraseDups }

namespace CallGraph

section Quiet

variable {units : List CallableUnit}

/-- Without noise the names of units are their own. -/
theorem map_name_withoutNoise (units : List CallableUnit) :
    (withoutNoise units).map (·.name) = (build units).names := by
  rw [names_build, firstUses_nil_eq]
  simp [withoutNoise, Function.comp_def]

/-- Units without noise all become part of their graph as they are. -/
theorem units_build_withoutNoise (units : List CallableUnit) :
    (build (withoutNoise units)).units = withoutNoise units := by
  have names := map_name_withoutNoise units
  refine units_build_eq_self ?_ ?_
  · rw [names]
    exact (isConsistent_build units).distinct
  · intro unit member callee called
    -- A call that passed the filter is to the name of a unit.
    rw [names, mem_names_build_iff]
    obtain ⟨original, _, rfl⟩ := List.mem_map.1 member
    have passed := (List.mem_filter.1 (List.mem_eraseDups.1 called)).2
    exact (of_decide_eq_true passed).2

/-- Leaving noise out keeps the names of a graph. -/
theorem names_build_withoutNoise (units : List CallableUnit) :
    (build (withoutNoise units)).names = (build units).names := by
  rw [names, units_build_withoutNoise, map_name_withoutNoise]

/-- Leaving noise out keeps of the callees of a unit the first use of each other one. -/
theorem callees_build_withoutNoise (units : List CallableUnit) (name : String) :
    (build (withoutNoise units)).callees name =
      (((build units).callees name).filter (· ∉ [name])).eraseDups := by
  by_cases listed : name ∈ (build units).names
  · rw [names_build, firstUses_nil_eq] at listed
    obtain ⟨unit, first, rfl⟩ := List.mem_map.1 listed
    -- The unit stands in both graphs, in each with what is left of its calls.
    have quiet := callees_name (isConsistent_build (withoutNoise units)) (by
      rw [units_build_withoutNoise]
      exact List.mem_map_of_mem first)
    have noisy := callees_name (isConsistent_build units) (by
      rw [units_build]
      exact List.mem_map_of_mem first)
    rw [quiet, noisy, List.filter_filter]
    refine congrArg List.eraseDups (List.filter_congr fun callee _ => ?_)
    simp [mem_names_build_iff]
  · have missing : name ∉ (build (withoutNoise units)).names := by rwa [names_build_withoutNoise]
    rw [callees_of_not_mem listed, callees_of_not_mem missing]
    rfl

/-- Leaving noise out keeps the calls from one unit to another. -/
theorem calls_build_withoutNoise {caller callee : String} :
    (build (withoutNoise units)).Calls caller callee ↔ (build units).Calls caller callee ∧ callee ≠ caller := by
  rw [calls_iff_mem_callees (isConsistent_build _), calls_iff_mem_callees (isConsistent_build units),
    callees_build_withoutNoise, List.mem_eraseDups]
  simp

/-- Leaving noise out keeps the roots. -/
theorem isRoot_build_withoutNoise {name : String} :
    (build (withoutNoise units)).IsRoot name ↔ (build units).IsRoot name := by
  rw [IsRoot, IsRoot, names_build_withoutNoise]
  refine and_congr_right fun _ => ?_
  constructor
  -- Only calls of a unit to itself are missing, and a root may have these.
  · intro alone caller call
    by_contra other
    exact other (alone caller (calls_build_withoutNoise.2 ⟨call, Ne.symm other⟩))
  · exact fun alone caller call => alone caller (calls_build_withoutNoise.1 call).1

/-- Leaving noise out keeps what leads where. -/
theorem leadsTo_build_withoutNoise {name other : String} :
    (build (withoutNoise units)).LeadsTo name other ↔ (build units).LeadsTo name other := by
  constructor
  · intro leads
    exact Relation.ReflTransGen.mono (fun _ _ call => (calls_build_withoutNoise.1 call).1) _ _ leads
  · intro leads
    -- A call of a unit to itself goes nowhere, and every other one is kept.
    refine Relation.ReflTransGen.mono (fun caller callee call => ?_) _ _ (reflTransGen_apart leads)
    exact calls_build_withoutNoise.2 ⟨call.1, Ne.symm call.2⟩

/-- Leaving noise out keeps the places at which reading is started. -/
theorem starts_build_withoutNoise (units : List CallableUnit) :
    (build (withoutNoise units)).starts = (build units).starts := by
  have consistent := isConsistent_build units
  have quiet := starts_sublist (build (withoutNoise units))
  rw [names_build_withoutNoise] at quiet
  -- Both lists keep the source order, so that it is enough to compare their members.
  rw [← filter_mem_of_sublist quiet consistent.distinct,
    ← filter_mem_of_sublist (starts_sublist (build units)) consistent.distinct]
  refine List.filter_congr fun name _ => ?_
  rw [decide_eq_decide, mem_starts_iff consistent, mem_starts_iff (isConsistent_build (withoutNoise units)),
    names_build_withoutNoise]
  simp only [isRoot_build_withoutNoise, IsRooted, leadsTo_build_withoutNoise]

end Quiet

/--
The readable order does not depend on noise.

Later units of a name in use can be removed, and so can the calls of a unit to itself, its calls to names
of no unit, and its repeated calls.
-/
theorem readableOrder_withoutNoise (units : List CallableUnit) :
    (build (withoutNoise units)).readableOrder = (build units).readableOrder := by
  -- From each unit the same calls lead on, less those that reading skips.
  have edges : ∀ name, Thinned [name] ((build units).callees name)
      ((build (withoutNoise units)).callees name) := by
    intro name
    rw [callees_build_withoutNoise]
    exact Thinned.eraseDups_filter _ [name]
  -- Skipping them does not change how the traversal runs, and there is only one traversal.
  have thinned := (readableOrder_traverses (isConsistent_build units)).thinned edges (.refl _ []) (by simp)
  have quiet := readableOrder_traverses (isConsistent_build (withoutNoise units))
  rw [starts_build_withoutNoise] at quiet
  exact quiet.unique thinned

end CallGraph

end CallersFirst
