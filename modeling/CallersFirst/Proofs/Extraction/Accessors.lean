import CallersFirst.Proofs.Analysis
import Mathlib.Algebra.Ring.Parity
import Mathlib.Data.List.Pairwise

/-! Getters and setters side by side: which of them become one unit, and which are torn apart. -/

namespace CallersFirst

namespace Node

/-- The name of a getter or a setter, if it is written plainly. -/
def accessorName? (source : Text) (node : Node) : Option String :=
  if node.isAccessor then (node.methodDefinition? source).map (·.name) else none

/-- What a method of a class body defines if it has a certain name. -/
def asMethod (node : Node) (name : String) : Definition :=
  ⟨name, .method, node.span, node.child? .body⟩

section Accessor

variable {source : Text} {node : Node}

/-- In a class body only methods define something, each over its whole extent. -/
theorem eq_of_definition?_classBody {definition : Definition}
    (found : node.definition? source .classBody = some definition) :
    definition = node.asMethod definition.name := by
  -- The two conditions on the node leave open only what it is called.
  rw [definition?, if_pos rfl] at found
  simp only [methodDefinition?, Option.bind_eq_bind, Option.bind_eq_some_iff, Option.pure_def,
    Option.some.injEq] at found
  obtain ⟨_, _, _, _, _, _, rfl⟩ := found
  rfl

/-- The accessors of a name are the methods that define the name and carry the keyword of one. -/
theorem accessorName?_eq_some_iff {name : String} :
    node.accessorName? source = some name ↔
      node.isAccessor ∧ node.definition? source .classBody = some (node.asMethod name) := by
  -- In a class body a method is all that can define a name.
  have same : node.definition? source .classBody = node.methodDefinition? source := if_pos rfl
  rw [accessorName?]
  split
  · rename_i accessor
    rw [Option.map_eq_some_iff, ← same]
    constructor
    · rintro ⟨definition, found, rfl⟩
      exact ⟨accessor, eq_of_definition?_classBody found ▸ found⟩
    · exact fun ⟨_, found⟩ => ⟨_, found, rfl⟩
  · rename_i plain
    simp [plain]

end Accessor

end Node

namespace Extraction

/-- How many accessors of a name stand right before a place, with comments and semicolons passed over. -/
def accessorsBefore (source : Text) (name : String) : List Node → Nat
  | [] => 0
  | previous :: earlier =>
    if previous.accessorName? source = some name then accessorsBefore source name earlier + 1
    else if previous.isFiller then accessorsBefore source name earlier
    else 0

/-- How far a scan of the children of a scope has come. -/
structure Progress where
  /-- The children passed, nearest first. -/
  preceding : List Node
  /-- The units found, latest first. -/
  found : List ExtractedUnit
  /-- Whether the latest unit is an accessor that may still be joined by the next one. -/
  unpaired : Bool

namespace Progress

/-- Whether an accessor of a name would join the latest unit. -/
def awaits (progress : Progress) (name : String) : Bool :=
  progress.unpaired && progress.found.head?.any (·.unit.name = name)

/-- The scan after one more child. -/
def step (source : Text) (kind : ScopeKind) (progress : Progress) (child : Node) : Progress :=
  match child.definition? source kind with
  | none => ⟨child :: progress.preceding, progress.found, progress.unpaired && child.isFiller⟩
  | some definition =>
    let accessor := definition.kind = .method && child.isAccessor
    if accessor && progress.awaits definition.name then
      ⟨child :: progress.preceding, progress.found.modifyHead (withPartner · definition), false⟩
    else
      ⟨child :: progress.preceding,
        unitAt source definition ⟨child, progress.preceding⟩ :: progress.found, accessor⟩

/-- The scan after some more children. -/
def run (source : Text) (kind : ScopeKind) (progress : Progress) (children : List Node) : Progress :=
  children.foldl (step source kind) progress

/-- A scan takes the first child and goes on with the others. -/
theorem run_cons (source : Text) (kind : ScopeKind) (progress : Progress) (child : Node) (rest : List Node) :
    progress.run source kind (child :: rest) = (progress.step source kind child).run source kind rest :=
  rfl

/-- A scan of two lists of children is a scan of the one and then of the other. -/
theorem run_append (source : Text) (kind : ScopeKind) (progress : Progress) (first second : List Node) :
    progress.run source kind (first ++ second) = (progress.run source kind first).run source kind second :=
  List.foldl_append

/-- A scan takes one step for each child. -/
theorem scan_eq_run (source : Text) (kind : ScopeKind) (children : List Node) :
    ∀ progress : Progress, scan source kind progress.preceding progress.found progress.unpaired children =
      (progress.run source kind children).found.reverse := by
  induction children with
  | nil =>
    -- At the end the units are turned round to stand in source order.
    intro progress
    rfl
  | cons child rest ih =>
    intro ⟨preceding, found, unpaired⟩
    rw [run_cons, ← ih, scan, step]
    cases child.definition? source kind with
    | none => rfl
    | some definition =>
      cases found with
      | nil =>
        -- As long as there is no unit, nothing is awaited.
        simp [awaits]
      | cons latest others =>
        -- Both ask for an accessor, for a latest unit without partner and for the same name.
        simp only [awaits, List.head?_cons, Option.any_some, List.modifyHead_cons, Bool.and_assoc]
        split <;> rfl

/-- A step passes one child. -/
theorem preceding_step (source : Text) (kind : ScopeKind) (progress : Progress) (child : Node) :
    (progress.step source kind child).preceding = child :: progress.preceding := by
  -- Whatever becomes of the child, it is passed.
  rw [step]
  split
  · rfl
  · dsimp only
    split <;> rfl

/-- A scan passes the children one after the other. -/
theorem preceding_run (source : Text) (kind : ScopeKind) (children : List Node) :
    ∀ progress : Progress,
      (progress.run source kind children).preceding = children.reverse ++ progress.preceding := by
  induction children with
  | nil => simp [run]
  | cons child rest ih =>
    -- The child that is passed comes to stand in front of those passed before.
    intro progress
    rw [run_cons, ih, preceding_step]
    simp

/-- An accessor is awaited if the latest unit has its name and no partner yet. -/
theorem awaits_iff {progress : Progress} {name : String} :
    progress.awaits name ↔
      progress.unpaired ∧ ∃ latest others, progress.found = latest :: others ∧ latest.unit.name = name := by
  -- Without any unit both sides are false.
  rw [awaits, Bool.and_eq_true_iff]
  cases progress.found <;> simp

section Steps

variable {source : Text} {progress : Progress} {child : Node} {name : String}

/-- Comments and semicolons leave the scan as it is. -/
theorem run_fillers {kind : ScopeKind} {between : List Node} (fillers : ∀ node ∈ between, node.isFiller) :
    progress.run source kind between =
      { progress with preceding := between.reverse ++ progress.preceding } := by
  induction between generalizing progress with
  | nil => rfl
  | cons child rest ih =>
    -- A filler defines nothing, and keeps the latest unit waiting if it waits.
    obtain ⟨filler, fillers⟩ := List.forall_mem_cons.1 fillers
    rw [run_cons, ih fillers, step, Node.definition?_eq_none_of_isFiller filler]
    simp [filler]

/-- An accessor that is awaited joins the latest unit, which awaits no further one. -/
theorem step_of_awaits (named : child.accessorName? source = some name) (awaited : progress.awaits name) :
    progress.step source .classBody child =
      ⟨child :: progress.preceding, progress.found.modifyHead (withPartner · (child.asMethod name)), false⟩ := by
  obtain ⟨accessor, defined⟩ := Node.accessorName?_eq_some_iff.1 named
  rw [step, defined]
  simp [Node.asMethod, accessor, awaited]

/-- An accessor that is not awaited opens a unit, which awaits another one. -/
theorem step_of_not_awaits (named : child.accessorName? source = some name)
    (alone : progress.awaits name = false) :
    progress.step source .classBody child =
      ⟨child :: progress.preceding,
        unitAt source (child.asMethod name) ⟨child, progress.preceding⟩ :: progress.found, true⟩ := by
  obtain ⟨accessor, defined⟩ := Node.accessorName?_eq_some_iff.1 named
  rw [step, defined]
  simp [Node.asMethod, accessor, alone]

/-- After one more child, an accessor is awaited exactly if an odd number of its name stands right before. -/
theorem awaits_step
    (counted : ∀ name, progress.awaits name ↔ Odd (accessorsBefore source name progress.preceding))
    (name : String) :
    (progress.step source .classBody child).awaits name ↔
      Odd (accessorsBefore source name (child :: progress.preceding)) := by
  -- The child is passed over, breaks the row of accessors, or is the next one of it.
  cases defined : child.definition? source .classBody with
  | none =>
    have nameless : child.accessorName? source ≠ some name := fun named => by
      rw [(Node.accessorName?_eq_some_iff.1 named).2] at defined
      cases defined
    rw [accessorsBefore, if_neg nameless, step, defined]
    by_cases filler : child.isFiller
    · -- Neither the count nor the latest unit changes.
      simpa [awaits, filler] using counted name
    · -- The count starts again from zero, and nothing is awaited any more.
      simp [awaits, filler]
  | some definition =>
    -- What defines something is no filler.
    have solid : child.isFiller = false := by
      rw [← Bool.not_eq_true]
      intro filler
      rw [Node.definition?_eq_none_of_isFiller filler] at defined
      cases defined
    by_cases accessor : child.isAccessor
    · have named : child.accessorName? source = some definition.name :=
        Node.accessorName?_eq_some_iff.2 ⟨accessor, Node.eq_of_definition?_classBody defined ▸ defined⟩
      rw [accessorsBefore, named, solid]
      by_cases same : definition.name = name
      · -- One accessor more of the name turns the answer around.
        subst same
        rw [if_pos rfl, Nat.odd_add_one, ← counted]
        cases awaited : progress.awaits definition.name with
        | true => simp [step_of_awaits named awaited, awaits]
        | false => simp [step_of_not_awaits named awaited, awaits, unitAt, Node.asMethod]
      · -- An accessor of another name is the only one that can be awaited then.
        rw [if_neg (by simpa using same)]
        cases awaited : progress.awaits definition.name with
        | true => simp [step_of_awaits named awaited, awaits]
        | false => simp [step_of_not_awaits named awaited, awaits, unitAt, Node.asMethod, same]
    · -- Any other method breaks the row, and its unit awaits nothing.
      have nameless : child.accessorName? source = none := by simp [Node.accessorName?, accessor]
      rw [accessorsBefore, nameless, solid, step, defined]
      simp [accessor, awaits]

/-- A scan awaits an accessor exactly if an odd number of its name stands right before. -/
theorem awaits_run (children : List Node) :
    ∀ {progress : Progress},
      (∀ name, progress.awaits name ↔ Odd (accessorsBefore source name progress.preceding)) →
      ∀ name, (progress.run source .classBody children).awaits name ↔
        Odd (accessorsBefore source name (progress.run source .classBody children).preceding) := by
  -- The invariant is stated for all names at once, as any of them may be that of the next accessor.
  induction children with
  | nil => exact fun counted => counted
  | cons child rest ih =>
    intro progress counted
    rw [run_cons]
    refine ih fun name => ?_
    rw [preceding_step]
    exact awaits_step counted name

end Steps

/--
A unit that is found stays as it is, unless it still awaits an accessor and one joins it.

The units that come later stand in front of it.
-/
theorem found_run (source : Text) (kind : ScopeKind) (children : List Node) :
    ∀ (preceding : List Node) (latest : ExtractedUnit) (others : List ExtractedUnit) (unpaired : Bool),
      ∃ later grown,
        (run source kind ⟨preceding, latest :: others, unpaired⟩ children).found = later ++ grown :: others ∧
        (grown = latest ∨ unpaired ∧ ∃ child ∈ children, ∃ definition,
          child.definition? source kind = some definition ∧ grown = withPartner latest definition) := by
  -- The latest unit is followed through the scan, whichever step comes next.
  induction children with
  | nil => exact fun preceding latest others unpaired => ⟨[], latest, rfl, .inl rfl⟩
  | cons child rest ih =>
    intro preceding latest others unpaired
    rw [run_cons, step]
    cases defined : child.definition? source kind with
    | none =>
      -- The latest unit is the same, and awaits an accessor only if it did so before.
      obtain ⟨later, grown, found, same | ⟨waiting, partner, isPartner, joins⟩⟩ :=
        ih (child :: preceding) latest others (unpaired && child.isFiller)
      · exact ⟨later, grown, found, .inl same⟩
      · exact ⟨later, grown, found, .inr
          ⟨(Bool.and_eq_true_iff.1 waiting).1, partner, List.mem_cons_of_mem _ isPartner, joins⟩⟩
    | some definition =>
      dsimp only
      split
      · -- The child joins the latest unit, which is left alone after that.
        rename_i joins
        obtain ⟨later, grown, found, same | ⟨again, _⟩⟩ :=
          ih (child :: preceding) (withPartner latest definition) others false
        · refine ⟨later, grown, found, .inr ⟨?_, child, List.mem_cons_self .., definition, defined, same⟩⟩
          exact (awaits_iff.1 (Bool.and_eq_true_iff.1 joins).2).1
        · cases again
      · -- The child opens a unit of its own, behind which the latest one is left alone.
        obtain ⟨later, grown, found, _⟩ :=
          ih (child :: preceding) (unitAt source definition ⟨child, preceding⟩) (latest :: others)
            (definition.kind = .method && child.isAccessor)
        exact ⟨later ++ [grown], latest, by simp [found], .inl rfl⟩

end Progress

end Extraction

/-- Two accessors of one name in a class body, with nothing but comments and semicolons between them. -/
structure AccessorPair (source : Text) (scope : Scope) where
  /-- The name that they have in common. -/
  name : String
  /-- The children before the two. -/
  before : List Node
  /-- The accessor that comes first. -/
  first : Node
  /-- The children between the two. -/
  between : List Node
  /-- The accessor that comes second. -/
  second : Node
  /-- The children behind the two. -/
  after : List Node
  /-- The scope is the body of a class. -/
  inClass : scope.kind = .classBody
  /-- These are all children of the scope. -/
  children_eq : scope.node.children = before ++ first :: (between ++ second :: after)
  /-- The first accessor has the name. -/
  first_named : first.accessorName? source = some name
  /-- The second accessor has the name. -/
  second_named : second.accessorName? source = some name
  /-- Nothing between the two keeps them from moving as one. -/
  fillers : ∀ node ∈ between, node.isFiller

/-- Two units of a well-formed scope that share something are the same one. -/
theorem Scope.eq_of_shared {source : Text} {scope : Scope} (wellFormed : scope.node.IsWellFormed source)
    {one other : ExtractedUnit} (isOne : one ∈ scope.extract source) (isOther : other ∈ scope.extract source)
    {span : Span} (filled : span.start < span.stop) (inOne : span.IsInside one.unit.span)
    (inOther : span.IsInside other.unit.span) : one = other := by
  -- Different units stand apart, whichever comes first.
  have : Std.Symm fun one other : ExtractedUnit =>
      one.unit.span.stop ≤ other.unit.fullStart ∨ other.unit.span.stop ≤ one.unit.fullStart :=
    ⟨fun _ _ => Or.symm⟩
  have either : (scope.extract source).Pairwise fun one other =>
      one.unit.span.stop ≤ other.unit.fullStart ∨ other.unit.span.stop ≤ one.unit.fullStart :=
    (scope.extract_spec wellFormed).2.imp .inl
  by_contra differ
  have apart := either.forall isOne isOther differ
  have := one.unit.fullStart_le
  have := other.unit.fullStart_le
  obtain ⟨_, _⟩ := inOne
  obtain ⟨_, _⟩ := inOther
  omega

/-- A unit right behind another one of its name is left out. -/
theorem Scope.exists_rejected {source : Text} {scope : Scope} {front back : List ExtractedUnit}
    {left right : ExtractedUnit} (shape : scope.extract source = front ++ left :: right :: back)
    (same : right.unit.name = left.unit.name) :
    ∃ unit ∈ (scope.analyze source).graph.rejected, unit.withoutCalls = right.unit.withoutCalls := by
  generalize names : (scope.extract source).map (·.unit.name) = siblings
  have resolved : ∀ unit : ExtractedUnit,
      (unit.resolve source siblings scope).withoutCalls = unit.unit.withoutCalls :=
    fun unit => CallableUnit.withoutCalls_foldl_addCall _ _
  have listed : scope.resolvedUnits source =
      (front.map (·.resolve source siblings scope) ++ [left.resolve source siblings scope]) ++
        right.resolve source siblings scope :: back.map (·.resolve source siblings scope) := by
    simp only [Scope.resolvedUnits, names]
    simp [shape]
  refine ⟨right.resolve source siblings scope, ?_, resolved right⟩
  show _ ∈ laterUses [] (scope.resolvedUnits source)
  rw [listed]
  -- The name of the other one is taken by then.
  have sameResolved : (right.resolve source siblings scope).name = (left.resolve source siblings scope).name :=
    (congrArg (·.name) (resolved right)).trans (same.trans (congrArg (·.name) (resolved left)).symm)
  exact mem_laterUses (by simp [sameResolved])

/-- A unit starts no later than the child that defines it. -/
theorem Extraction.unitAt_start_le {source : Text} {scope : Scope} {child : Node} {preceding : List Node}
    {definition : Definition} (wellFormed : scope.node.IsWellFormed source)
    (place : IsPlaceIn scope child preceding) :
    (unitAt source definition ⟨child, preceding⟩).unit.span.start ≤ child.span.start :=
  (leadIn_looksBack source scope.kind definition.name preceding ⟨child, preceding⟩ List.suffix_rfl).start_le
    place wellFormed

namespace AccessorPair

open Extraction

variable {source : Text} {scope : Scope}

/-- How many accessors of the same name stand right before the two. -/
def earlier (pair : AccessorPair source scope) : Nat :=
  accessorsBefore source pair.name pair.before.reverse

/-- The scan of the class body up to the two accessors. -/
def upTo (pair : AccessorPair source scope) : Progress :=
  Progress.run source .classBody ⟨[], [], false⟩ pair.before

/-- In front of the two accessors stand the children before them, nearest first. -/
theorem preceding_upTo (pair : AccessorPair source scope) : pair.upTo.preceding = pair.before.reverse := by
  rw [upTo, Progress.preceding_run, List.append_nil]

/-- When the scan gets to the two, one more accessor is awaited exactly if an odd number stands right before. -/
theorem awaits_upTo (pair : AccessorPair source scope) : pair.upTo.awaits pair.name ↔ Odd pair.earlier := by
  rw [earlier, ← preceding_upTo]
  refine Progress.awaits_run pair.before (fun name => ?_) pair.name
  simp [Progress.awaits, accessorsBefore]

/-- The first accessor at its place. -/
def firstUnit (pair : AccessorPair source scope) : ExtractedUnit :=
  unitAt source (pair.first.asMethod pair.name) ⟨pair.first, pair.before.reverse⟩

/-- The second accessor at its place. -/
def secondUnit (pair : AccessorPair source scope) : ExtractedUnit :=
  unitAt source (pair.second.asMethod pair.name)
    ⟨pair.second, pair.between.reverse ++ pair.first :: pair.before.reverse⟩

/-- The scan goes through the two accessors and all that stands between and behind them. -/
theorem extract_eq (pair : AccessorPair source scope) :
    scope.extract source =
      ((((pair.upTo.step source .classBody pair.first).run source .classBody pair.between).step source .classBody
        pair.second).run source .classBody pair.after).found.reverse := by
  rw [Scope.extract, pair.inClass, pair.children_eq]
  refine (Progress.scan_eq_run source .classBody _ ⟨[], [], false⟩).trans ?_
  rw [Progress.run_append, Progress.run_cons, Progress.run_append, Progress.run_cons]
  rfl

/-- After an even number of accessors the two become one unit. -/
theorem extract_of_even (pair : AccessorPair source scope) (even : Even pair.earlier) :
    ∃ front back, scope.extract source =
      front ++ withPartner pair.firstUnit (pair.second.asMethod pair.name) :: back := by
  have alone : pair.upTo.awaits pair.name = false := by
    rw [← Bool.not_eq_true, awaits_upTo, Nat.not_odd_iff_even]
    exact even
  -- The first accessor opens a unit, which awaits the second one over all that stands between.
  rw [extract_eq, Progress.step_of_not_awaits pair.first_named alone, Progress.run_fillers pair.fillers,
    preceding_upTo]
  rw [Progress.step_of_awaits pair.second_named (Progress.awaits_iff.2 ⟨rfl, pair.firstUnit, _, rfl, rfl⟩)]
  -- The unit awaits no further accessor, and so it stays as it is.
  obtain ⟨later, grown, found, same | ⟨again, _⟩⟩ := Progress.found_run source .classBody pair.after
    (pair.second :: (pair.between.reverse ++ pair.first :: pair.before.reverse))
    (withPartner pair.firstUnit (pair.second.asMethod pair.name)) pair.upTo.found false
  · refine ⟨pair.upTo.found.reverse, later.reverse, (congrArg List.reverse found).trans ?_⟩
    simp [same]
  · cases again

/-- After an odd number of accessors the first one joins the last of these, and the second one starts anew. -/
theorem extract_of_odd (pair : AccessorPair source scope) (odd : Odd pair.earlier) :
    ∃ front left right back, scope.extract source = front ++ left :: right :: back ∧
      left.unit.name = pair.name ∧ left.unit.span.stop = pair.first.span.stop ∧
      (right = pair.secondUnit ∨ ∃ child ∈ pair.after, ∃ definition,
        child.definition? source .classBody = some definition ∧
          right = withPartner pair.secondUnit definition) := by
  have awaited := pair.awaits_upTo.2 odd
  obtain ⟨_, latest, others, shape, named⟩ := Progress.awaits_iff.1 awaited
  -- The first accessor ends the unit before it, so that the second one is not awaited.
  rw [extract_eq, Progress.step_of_awaits pair.first_named awaited, Progress.run_fillers pair.fillers,
    preceding_upTo, shape, List.modifyHead_cons]
  rw [Progress.step_of_not_awaits pair.second_named rfl]
  obtain ⟨later, right, found, same⟩ := Progress.found_run source .classBody pair.after
    (pair.second :: (pair.between.reverse ++ pair.first :: pair.before.reverse)) pair.secondUnit
    (withPartner latest (pair.first.asMethod pair.name) :: others) true
  refine ⟨others.reverse, withPartner latest (pair.first.asMethod pair.name), right, later.reverse,
    (congrArg List.reverse found).trans (by simp), named, rfl, same.imp_right And.right⟩

section Extents

variable (pair : AccessorPair source scope)

/-- Both accessors are children of the scope at their places. -/
theorem places :
    IsPlaceIn scope pair.first pair.before.reverse ∧
      IsPlaceIn scope pair.second (pair.between.reverse ++ pair.first :: pair.before.reverse) := by
  rw [IsPlaceIn, IsPlaceIn, pair.children_eq]
  exact ⟨⟨pair.between ++ pair.second :: pair.after, by simp⟩, ⟨pair.after, by simp⟩⟩

/-- The first accessor stops before the second one starts, and this one stops before all that follow. -/
theorem apart (wellFormed : scope.node.IsWellFormed source) :
    pair.first.span.stop ≤ pair.second.span.start ∧
      ∀ child ∈ pair.after, pair.second.span.stop ≤ child.span.start ∧ child.span.start ≤ child.span.stop := by
  have ordered := wellFormed.isPlaced.apart
  -- Children are in order and apart, and the pair stands next to each other among them.
  rw [pair.children_eq, List.pairwise_append, List.pairwise_cons, List.pairwise_append,
    List.pairwise_cons] at ordered
  obtain ⟨_, ⟨behindFirst, _, ⟨behindSecond, _⟩, _⟩, _⟩ := ordered
  refine ⟨behindFirst pair.second (by simp), fun child member => ⟨behindSecond child member, ?_⟩⟩
  have isChild : child ∈ scope.node.children := by simp [pair.children_eq, member]
  exact (wellFormed.of_mem (Node.mem_preorder_of_mem_children isChild)).isPlaced.fits.ordered

/-- Neither accessor is empty. -/
theorem filled (parts : scope.node.PartsFilled) :
    pair.first.span.start < pair.first.span.stop ∧ pair.second.span.start < pair.second.span.stop := by
  have isFirst : pair.first ∈ scope.node.children := by simp [pair.children_eq]
  have isSecond : pair.second ∈ scope.node.children := by simp [pair.children_eq]
  exact ⟨parts.filled isFirst pair.first.mem_preorder_self, parts.filled isSecond pair.second.mem_preorder_self⟩

/-- The unit that the second accessor opens covers it, also if it is joined by a later one. -/
theorem second_inside (wellFormed : scope.node.IsWellFormed source) {right : ExtractedUnit}
    (grown : right = pair.secondUnit ∨ ∃ child ∈ pair.after, ∃ definition,
      child.definition? source .classBody = some definition ∧ right = withPartner pair.secondUnit definition) :
    pair.second.span.IsInside right.unit.span := by
  have starts : pair.secondUnit.unit.span.start ≤ pair.second.span.start :=
    unitAt_start_le wellFormed pair.places.2
  rcases grown with rfl | ⟨child, member, definition, defined, rfl⟩
  · exact ⟨starts, Nat.le_refl _⟩
  · -- The later accessor lies behind the second one.
    have later := (pair.apart wellFormed).2 child member
    rw [Node.eq_of_definition?_classBody defined]
    exact ⟨starts, Nat.le_trans later.1 later.2⟩

end Extents

/-- A unit that holds the two accessors and is the only one to hold any of them. -/
structure IsJoint (pair : AccessorPair source scope) (joint : ExtractedUnit) : Prop where
  /-- The unit is extracted from the class body. -/
  extracted : joint ∈ scope.extract source
  /-- It has the name of the accessors. -/
  named : joint.unit.name = pair.name
  /-- Calls are searched for in the bodies of both. -/
  bodies_eq : joint.bodies = (pair.first.child? .body).toList ++ (pair.second.child? .body).toList
  /-- No other unit covers the first accessor. -/
  covers_first : ∀ unit ∈ scope.extract source, pair.first.span.IsInside unit.unit.span ↔ unit = joint
  /-- No other unit covers the second accessor. -/
  covers_second : ∀ unit ∈ scope.extract source, pair.second.span.IsInside unit.unit.span ↔ unit = joint

/-- Two accessors that belong to different units, the second of which is left out. -/
structure IsTorn (pair : AccessorPair source scope) : Prop where
  /-- No unit covers both accessors. -/
  covered : ∀ unit ∈ scope.extract source,
    ¬ (pair.first.span.IsInside unit.unit.span ∧ pair.second.span.IsInside unit.unit.span)
  /-- The second accessor lies in a unit behind the first one that is left out because of its name. -/
  rejected : ∃ unit ∈ (scope.analyze source).graph.rejected,
    unit.name = pair.name ∧ pair.second.span.IsInside unit.span ∧ pair.first.span.stop ≤ unit.span.start

section Outcome

variable (pair : AccessorPair source scope)

/-- After an even number of accessors the two have a unit of their own. -/
theorem isJoint_of_even (wellFormed : scope.node.IsWellFormed source) (parts : scope.node.PartsFilled)
    (even : Even pair.earlier) : ∃ joint, pair.IsJoint joint := by
  obtain ⟨front, back, shape⟩ := pair.extract_of_even even
  have starts : pair.firstUnit.unit.span.start ≤ pair.first.span.start :=
    unitAt_start_le wellFormed pair.places.1
  have gap := (pair.apart wellFormed).1
  obtain ⟨firstFilled, secondFilled⟩ := pair.filled parts
  generalize named : withPartner pair.firstUnit (pair.second.asMethod pair.name) = joint at shape
  have extracted : joint ∈ scope.extract source := by simp [shape]
  -- The unit spans both accessors, as the second one has been added to the first.
  have inFirst : pair.first.span.IsInside joint.unit.span := by
    subst named
    exact ⟨starts, show pair.first.span.stop ≤ pair.second.span.stop by omega⟩
  have inSecond : pair.second.span.IsInside joint.unit.span := by
    subst named
    exact ⟨show pair.firstUnit.unit.span.start ≤ pair.second.span.start by omega, Nat.le_refl _⟩
  -- Whatever else covered one of the two would share it with the unit.
  refine ⟨joint, extracted, ?_, ?_, fun unit member => ⟨fun inside => ?_, ?_⟩,
    fun unit member => ⟨fun inside => ?_, ?_⟩⟩
  · subst named
    rfl
  · subst named
    rfl
  · exact Scope.eq_of_shared wellFormed member extracted firstFilled inside inFirst
  · rintro rfl
    exact inFirst
  · exact Scope.eq_of_shared wellFormed member extracted secondFilled inside inSecond
  · rintro rfl
    exact inSecond

/-- After an odd number of accessors the two are torn apart. -/
theorem isTorn_of_odd (wellFormed : scope.node.IsWellFormed source) (parts : scope.node.PartsFilled)
    (odd : Odd pair.earlier) : pair.IsTorn := by
  obtain ⟨front, left, right, back, shape, named, stops, grown⟩ := pair.extract_of_odd odd
  have inside := pair.second_inside wellFormed grown
  have isRight : right ∈ scope.extract source := by simp [shape]
  have rightNamed : right.unit.name = pair.name := by
    rcases grown with rfl | ⟨_, _, _, _, rfl⟩ <;> rfl
  -- The unit of the second accessor starts behind the first one.
  have behind : pair.first.span.stop ≤ right.unit.span.start := by
    have units := (scope.extract_spec wellFormed).2
    rw [shape, List.pairwise_append, List.pairwise_cons] at units
    have next := units.2.1.1 right (List.mem_cons_self ..)
    have := right.unit.fullStart_le
    omega
  obtain ⟨firstFilled, secondFilled⟩ := pair.filled parts
  constructor
  · intro unit member both
    -- A unit with both would be the one of the second accessor, which starts too late for the first.
    have same : unit = right := Scope.eq_of_shared wellFormed member isRight secondFilled both.2 inside
    have starts := same ▸ both.1.1
    omega
  · obtain ⟨unit, isRejected, same⟩ := Scope.exists_rejected shape (rightNamed.trans named.symm)
    have span : unit.span = right.unit.span := congrArg (·.span) same
    exact ⟨unit, isRejected, (congrArg (·.name) same).trans rightNamed, span ▸ inside, span ▸ behind⟩

end Outcome

/--
Neighboring accessors become one unit exactly if an even number of accessors of their name stands right before.

Accessors are joined two by two from the first one on. After an odd number the last one before the two takes the
first of them for its partner, and the second is left out as a duplicate.
-/
theorem joined_iff_even (pair : AccessorPair source scope) (wellFormed : scope.node.IsWellFormed source)
    (parts : scope.node.PartsFilled) :
    ((∃ joint, pair.IsJoint joint) ↔ Even pair.earlier) ∧ (pair.IsTorn ↔ Odd pair.earlier) := by
  -- No unit can hold both and be kept from it.
  have exclusive : ∀ {joint}, pair.IsJoint joint → ¬ pair.IsTorn := fun {joint} joins torn =>
    torn.covered joint joins.extracted
      ⟨(joins.covers_first joint joins.extracted).2 rfl, (joins.covers_second joint joins.extracted).2 rfl⟩
  refine ⟨⟨fun ⟨joint, joins⟩ => ?_, pair.isJoint_of_even wellFormed parts⟩,
    ⟨fun torn => ?_, pair.isTorn_of_odd wellFormed parts⟩⟩
  · rw [← Nat.not_odd_iff_even]
    exact fun odd => exclusive joins (pair.isTorn_of_odd wellFormed parts odd)
  · rw [← Nat.not_even_iff_odd]
    intro even
    obtain ⟨joint, joins⟩ := pair.isJoint_of_even wellFormed parts even
    exact exclusive joins torn

end AccessorPair

/-! A class with a getter of its own, and with a getter and a setter for its instances. -/

namespace Sample

/-- An accessor of one letter, with the words before its keyword. -/
def accessor (words : List Node) (start keyword stop : Nat) (word : String) (parameters : Node) : Node :=
  ⟨"method_definition", true, ⟨start, stop⟩, none,
    words ++ [token word keyword (keyword + 3),
      ⟨"property_identifier", true, ⟨keyword + 4, keyword + 5⟩, some .name, []⟩, parameters,
      body (stop - 2) stop []]⟩

/-- The getter of the class itself. -/
def staticGetter : Node :=
  accessor [token "static" 8 14] 8 15 24 "get" (parentheses "formal_parameters" 20)

/-- The getter of its instances. -/
def getter : Node :=
  accessor [] 24 24 33 "get" (parentheses "formal_parameters" 29)

/-- The setter of its instances. -/
def setter : Node :=
  accessor [] 33 33 43 "set"
    ⟨"formal_parameters", true, ⟨38, 41⟩, none,
      [token "(" 38 39, ⟨"identifier", true, ⟨39, 40⟩, none, []⟩, token ")" 40 41]⟩

/-- The text of the class. -/
def accessorSource : Text :=
  "class K\x7bstatic get x()\x7b\x7dget x()\x7b\x7dset x(v)\x7b\x7d\x7d\n".toList

/-- The body of the class. -/
def accessorBody : Node :=
  ⟨"class_body", true, ⟨7, 44⟩, some .body, [token "\x7b" 7 8, staticGetter, getter, setter, token "\x7d" 43 44]⟩

/-- The tree of the text. -/
def accessorTree : SyntaxTree :=
  ⟨⟨"program", true, ⟨0, 45⟩, none,
    [⟨"class_declaration", true, ⟨0, 44⟩, none, [token "class" 0 5, identifier .name 6, accessorBody]⟩]⟩, false⟩

/-- The scope that the class opens. -/
def accessorScope : Scope :=
  ⟨.classBody, accessorBody, some "K"⟩

/-- The two getters, which stand side by side. -/
def getters : AccessorPair accessorSource accessorScope where
  name := "x"
  before := [token "\x7b" 7 8]
  first := staticGetter
  between := []
  second := getter
  after := [setter, token "\x7d" 43 44]
  inClass := rfl
  children_eq := rfl
  first_named := by decide +kernel
  second_named := by decide +kernel
  fillers := by simp

/-- The getter and the setter of the instances, which stand side by side as well. -/
def instancePair : AccessorPair accessorSource accessorScope where
  name := "x"
  before := [token "\x7b" 7 8, staticGetter]
  first := getter
  between := []
  second := setter
  after := [token "\x7d" 43 44]
  inClass := rfl
  children_eq := rfl
  first_named := by decide +kernel
  second_named := by decide +kernel
  fillers := by simp

/-- The body of the class is well-formed. -/
theorem isWellFormed_accessorBody : accessorScope.node.IsWellFormed accessorSource := by decide +kernel

/-- The parts of the class body are not empty. -/
theorem partsFilled_accessorBody : accessorScope.node.PartsFilled := by decide +kernel

/-- No accessor stands before the two getters. -/
theorem earlier_getters : getters.earlier = 0 := by decide +kernel

/-- One accessor of the same name stands before the getter and the setter of the instances. -/
theorem earlier_instancePair : instancePair.earlier = 1 := by decide +kernel

end Sample

/-- In the sample the two getters become one unit, and the setter is torn from its getter. -/
theorem AccessorPair.joined_iff_even_sample :
    Sample.accessorScope.node.IsWellFormed Sample.accessorSource ∧ Sample.accessorScope.node.PartsFilled ∧
    (∃ joint, Sample.getters.IsJoint joint) ∧ Sample.instancePair.IsTorn := by
  refine ⟨Sample.isWellFormed_accessorBody, Sample.partsFilled_accessorBody, ?_, ?_⟩
  -- No accessor of the name precedes the getters, so their number is even.
  · refine (joined_iff_even Sample.getters Sample.isWellFormed_accessorBody Sample.partsFilled_accessorBody).1.2 ?_
    rw [Sample.earlier_getters]
    exact Even.zero
  -- One does precede the other pair, so it is odd there.
  · refine (joined_iff_even Sample.instancePair Sample.isWellFormed_accessorBody
      Sample.partsFilled_accessorBody).2.2 ?_
    rw [Sample.earlier_instancePair]
    exact odd_one

/-- Whether a method carries a word such as the keyword of a getter. -/
def Node.hasWord (word : String) (method : Node) : Bool :=
  method.children.any (·.kind == word)

/--
A getter and a setter of the instances stand side by side, but no unit covers both.

The getter of the class itself has taken the place of the setter, which is left out as a duplicate.
-/
theorem AccessorPair.getter_torn_from_setter :
    Sample.accessorTree.root.IsWellFormed Sample.accessorSource ∧ Sample.accessorTree.root.PartsFilled ∧
    Sample.accessorScope ∈ Scope.discover Sample.accessorSource {} Sample.accessorTree.root ∧
    Sample.accessorScope.node.children =
      [Sample.token "\x7b" 7 8, Sample.staticGetter, Sample.getter, Sample.setter, Sample.token "\x7d" 43 44] ∧
    Sample.getter.accessorName? Sample.accessorSource = some "x" ∧ Sample.getter.hasWord "get" ∧
    ¬ Sample.getter.hasWord "static" ∧
    Sample.setter.accessorName? Sample.accessorSource = some "x" ∧ Sample.setter.hasWord "set" ∧
    ¬ Sample.setter.hasWord "static" ∧
    (∀ unit ∈ Sample.accessorScope.extract Sample.accessorSource,
      ¬ (Sample.getter.span.IsInside unit.unit.span ∧ Sample.setter.span.IsInside unit.unit.span)) ∧
    (Sample.accessorScope.analyze Sample.accessorSource).graph.rejected =
      [⟨"x", .method, Sample.setter.span, [], []⟩] := by
  have torn := Sample.instancePair.isTorn_of_odd Sample.isWellFormed_accessorBody Sample.partsFilled_accessorBody
    (by rw [Sample.earlier_instancePair]; exact odd_one)
  -- The class body is the second scope that is found.
  have discovered : Scope.discover Sample.accessorSource {} Sample.accessorTree.root =
      [⟨.program, Sample.accessorTree.root, none⟩, Sample.accessorScope] := by rfl
  refine ⟨by decide +kernel, by decide +kernel, by simp [discovered], rfl, by decide +kernel, by decide +kernel,
    by decide +kernel, by decide +kernel, by decide +kernel, by decide +kernel, torn.covered, by decide +kernel⟩

end CallersFirst
