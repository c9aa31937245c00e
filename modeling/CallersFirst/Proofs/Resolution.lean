import CallersFirst.Proofs.Analysis
import CallersFirst.Proofs.CallGraph.Representation
import CallersFirst.Proofs.Extraction.Ends
import CallersFirst.Proofs.SyntaxTree.Addresses
import CallersFirst.Proofs.SyntaxTree.Stack

/-!
The calls of a unit: the siblings that its bodies call outside of nested functions, in order of discovery. A search
that keeps the nodes ahead on a stack, and notes no name twice, ends with the same calls.
-/

namespace CallersFirst

/-- Puts a name at the end of a list of names, unless it is there already. -/
def appendNew (known : List String) (name : String) : List String :=
  if name ∈ known then known else known ++ [name]

/-- Appending names one by one adds those that are new, each where it comes up first. -/
theorem foldl_appendNew (names : List String) :
    ∀ known : List String, names.foldl appendNew known = known ++ (names.filter (· ∉ known)).eraseDups := by
  induction names with
  | nil => simp
  | cons name rest ih =>
    intro known
    rw [List.foldl_cons, ih, appendNew]
    by_cases old : name ∈ known
    · -- A name that is known already is left out on both sides.
      simp [old]
    · -- A new name is left out of the rest from then on.
      have onward : rest.filter (· ∉ known ++ [name]) =
          (rest.filter (· ∉ known)).filter fun other => !other == name := by
        rw [List.filter_filter]
        refine List.filter_congr fun other _ => ?_
        rw [Bool.eq_iff_iff]
        simp [and_comm]
      simp only [old, if_false]
      rw [onward, List.filter_cons_of_pos (by simpa using old), List.eraseDups_cons]
      simp

namespace Node

/-- A callee that is a plainly written member of an object. -/
structure TakesMember (callee object property : Node) : Prop where
  /-- The callee takes a member of something. -/
  member : callee.kind = "member_expression"
  /-- The object has the member. -/
  object_eq : callee.child? .object = some object
  /-- The property names the member. -/
  property_eq : callee.child? .property = some property
  /-- The name of the member is not computed. -/
  plain : isPlainMemberName property.kind

/-- The name that a call invokes, if the scope resolves callees of its shape. -/
inductive Invokes (source : Text) (className : Option String) : ScopeKind → Node → String → Prop where
  /-- Outside of class bodies a bare name is resolved. -/
  | bare {kind : ScopeKind} {call callee : Node} (outside : kind ≠ .classBody)
      (invoked : call.child? .function = some callee) (isName : callee.kind = "identifier") :
      Invokes source className kind call (callee.name source)
  /-- In a class body a member of `this` is resolved. -/
  | onThis {call callee object property : Node} (invoked : call.child? .function = some callee)
      (takes : callee.TakesMember object property) (isThis : object.kind = "this") :
      Invokes source className .classBody call (property.name source)
  /-- In a class body a member of the class itself is resolved. -/
  | onClass {call callee object property : Node} (invoked : call.child? .function = some callee)
      (takes : callee.TakesMember object property) (isName : object.kind = "identifier")
      (isClass : className = some (object.name source)) :
      Invokes source className .classBody call (property.name source)

/-- A name that is called at an address of a body, with no function on the way from the body to the call. -/
def CallsAt (source : Text) (kind : ScopeKind) (className : Option String) (body : Node) (address : List Nat)
    (name : String) : Prop :=
  ∃ call, body.Reaches (·.expressionKind = .functionBoundary) address call ∧
    call.kind = "call_expression" ∧ call.Invokes source className kind name

/-- Only call expressions count as calls. -/
theorem expressionKind_eq_call_iff {node : Node} :
    node.expressionKind = .call ↔ node.kind = "call_expression" := by
  unfold expressionKind ExpressionKind.ofName
  split <;> simp_all

/-- The name found for a call is the one that the call invokes. -/
theorem callee?_eq_some_iff {source : Text} {kind : ScopeKind} {className : Option String} {call : Node}
    {name : String} : call.callee? source kind className = some name ↔ call.Invokes source className kind name := by
  -- A class body asks for members, and every other scope for bare names.
  by_cases inClass : kind = .classBody
  · subst inClass
    simp only [callee?, Option.bind_eq_bind, Option.bind_eq_some_iff, if_true, Option.guard_eq_some', beq_iff_eq,
      Option.pure_def, Option.some.injEq, Bool.or_eq_true, Bool.and_eq_true, decide_eq_true_eq]
    constructor
    -- A member of the class is asked for on the instance or under the name of the class.
    · rintro ⟨callee, invoked, _, member, object, hasObject, property, hasProperty, _, plain, _, own, rfl⟩
      have takes : callee.TakesMember object property := ⟨member, hasObject, hasProperty, plain⟩
      rcases own with isThis | ⟨isName, isClass⟩
      · exact .onThis invoked takes isThis
      · exact .onClass invoked takes isName isClass
    · intro invokes
      cases invokes with
      | bare outside => exact absurd rfl outside
      | onThis invoked takes isThis =>
        exact ⟨_, invoked, (), takes.member, _, takes.object_eq, _, takes.property_eq, (), takes.plain, (),
          .inl isThis, rfl⟩
      | onClass invoked takes isName isClass =>
        exact ⟨_, invoked, (), takes.member, _, takes.object_eq, _, takes.property_eq, (), takes.plain, (),
          .inr ⟨isName, isClass⟩, rfl⟩
  · simp only [callee?, Option.bind_eq_bind, Option.bind_eq_some_iff, inClass, if_false, Option.guard_eq_some',
      beq_iff_eq, Option.pure_def, Option.some.injEq]
    constructor
    -- A bare name is what is called itself.
    · rintro ⟨callee, invoked, _, isName, rfl⟩
      exact .bare inClass invoked isName
    · intro invokes
      cases invokes with
      | bare _ invoked isName => exact ⟨_, invoked, (), isName, rfl⟩
      | onThis => exact absurd rfl inClass
      | onClass => exact absurd rfl inClass

/-- The sibling that a node calls, if it is a call of one. -/
def siblingCalled? (source : Text) (siblings : List String) (kind : ScopeKind) (className : Option String)
    (node : Node) : Option String :=
  if node.expressionKind = .call then (node.callee? source kind className).filter (· ∈ siblings) else none

/-- A name that is found in a node at a station with some address. -/
def Station.Shows (name? : Node → Option String) (stations : List Station) (address : List Nat)
    (name : String) : Prop :=
  ∃ station ∈ stations, station.address = address ∧ name? station.node = some name

/--
Names without repetitions, as they are found on a walk, stand in the order in which they are met first.

Each of them is met at an address before all addresses of the later ones.
-/
theorem pairwise_eraseDups_shown {stations : List Station}
    (ordered : stations.Pairwise fun earlier later => earlier.address < later.address) :
    ∀ name? : Node → Option String,
      ((stations.filterMap (name? ·.node)).eraseDups).Pairwise fun first second =>
        ∃ address, Station.Shows name? stations address first ∧
          ∀ other, Station.Shows name? stations other second → address < other := by
  induction stations with
  | nil =>
    intro name?
    exact .nil
  | cons station rest ih =>
    intro name?
    obtain ⟨before, restOrdered⟩ := List.pairwise_cons.1 ordered
    cases shown : name? station.node with
    | none =>
      -- A station that shows no name changes nothing.
      have same : ∀ address name, Station.Shows name? (station :: rest) address name ↔
          Station.Shows name? rest address name := by
        intro address name
        simp [Station.Shows, shown]
      have skipped : (station :: rest).filterMap (name? ·.node) = rest.filterMap (name? ·.node) :=
        List.filterMap_cons_none shown
      rw [skipped]
      simpa only [same] using ih restOrdered name?
    | some name =>
      -- Behind the first name the others are those that are shown once this name is left out.
      have entered : (station :: rest).filterMap (name? ·.node) = name :: rest.filterMap (name? ·.node) :=
        List.filterMap_cons_some shown
      have others : (rest.filterMap (name? ·.node)).filter (fun other => !other == name) =
          rest.filterMap fun station => (name? station.node).filter fun other => !other == name :=
        List.filter_filterMap
      have same : ∀ address other, other ≠ name → (Station.Shows name? (station :: rest) address other ↔
          Station.Shows (fun node => (name? node).filter fun other => !other == name) rest address other) := by
        intro address other differs
        simp [Station.Shows, shown, Option.filter_eq_some_iff, differs, differs.symm]
      have differ : ∀ other ∈ ((rest.filterMap (name? ·.node)).filter fun other => !other == name).eraseDups,
          other ≠ name := by
        intro other member
        simpa using (List.mem_filter.1 (List.mem_eraseDups.1 member)).2
      rw [entered, List.eraseDups_cons]
      refine List.pairwise_cons.2 ⟨fun other member => ?_, ?_⟩
      · -- The first name is shown by the first station, before all that show another one.
        refine ⟨station.address, ⟨station, List.mem_cons_self .., rfl, shown⟩, fun address shows => ?_⟩
        obtain ⟨later, isLater, rfl, _⟩ := (same address other (differ other member)).1 shows
        exact before later isLater
      · have onward := ih restOrdered fun node => (name? node).filter fun other => !other == name
        rw [← others] at onward
        refine onward.imp_of_mem fun {first second} isFirst isSecond shows => ?_
        simpa only [same _ _ (differ first isFirst), same _ _ (differ second isSecond)] using shows

section Siblings

variable {source : Text} {siblings : List String} {kind : ScopeKind} {className : Option String} {body : Node}

/-- The sibling calls are what the visits outside of nested functions show. -/
theorem siblingCalls_eq_visits (source : Text) (siblings : List String) (kind : ScopeKind)
    (className : Option String) (body : Node) :
    body.siblingCalls source siblings kind className =
      ((body.visits (·.expressionKind = .functionBoundary) none).filterMap
        (·.node.siblingCalled? source siblings kind className)).eraseDups := by
  -- Choosing the calls, naming their callees and choosing the siblings is one choice at each visit.
  rw [siblingCalls, directCalls, List.filterMap_filter, List.filter_filterMap, List.filterMap_map]
  congr 2
  funext visit
  simp only [siblingCalled?, Function.comp_apply, decide_eq_true_eq]
  split <;> rfl

/-- The sibling calls are what a walk outside of nested functions shows. -/
theorem siblingCalls_eq (source : Text) (siblings : List String) (kind : ScopeKind) (className : Option String)
    (body : Node) :
    body.siblingCalls source siblings kind className =
      ((body.stations (·.expressionKind = .functionBoundary)).filterMap
        (·.node.siblingCalled? source siblings kind className)).eraseDups := by
  -- The stations of the walk have the nodes of its visits.
  have nodes := map_node_stations (·.expressionKind = .functionBoundary) none body
  rw [siblingCalls_eq_visits]
  simpa only [List.filterMap_map, Function.comp_def] using
    (congrArg (fun nodes => (nodes.filterMap (siblingCalled? source siblings kind className)).eraseDups) nodes).symm

/-- Notes the sibling that a node calls, if it is a call of one and the sibling has not been noted before. -/
def noteCall (source : Text) (siblings : List String) (kind : ScopeKind) (className : Option String)
    (calls : List String) (visit : Visit) : List String :=
  match visit.node.siblingCalled? source siblings kind className with
  | none => calls
  | some callee => appendNew calls callee

/-- The sibling calls that a search with a stack finds, which passes over nested functions. -/
noncomputable def searchCalls? (source : Text) (siblings : List String) (kind : ScopeKind)
    (className : Option String) (body : Node) : Option (List String) :=
  body.walk? (·.expressionKind = .functionBoundary) (noteCall source siblings kind className) []

/-- Noting the calls of some visits appends the siblings that they show. -/
theorem foldl_noteCall (visits : List Visit) :
    ∀ calls : List String, visits.foldl (noteCall source siblings kind className) calls =
      (visits.filterMap (·.node.siblingCalled? source siblings kind className)).foldl appendNew calls := by
  induction visits with
  | nil => exact fun _ => rfl
  | cons visit rest ih =>
    intro calls
    rw [List.foldl_cons, ih, noteCall, List.filterMap_cons]
    -- A visit shows one sibling or none.
    cases visit.node.siblingCalled? source siblings kind className with
    | none => rfl
    | some callee => rfl

/--
The search with a stack ends, and finds the sibling calls of the body in order of discovery.

Names are kept apart when they are noted, and not only at the end.
-/
theorem searchCalls?_eq (source : Text) (siblings : List String) (kind : ScopeKind) (className : Option String)
    (body : Node) :
    body.searchCalls? source siblings kind className = some (body.siblingCalls source siblings kind className) := by
  rw [searchCalls?, walk?_eq, foldl_noteCall, foldl_appendNew, siblingCalls_eq_visits]
  simp

/-- A walk shows a sibling at an address exactly if the body calls it there. -/
theorem shows_siblingCalled?_iff {address : List Nat} {name : String} :
    Station.Shows (·.siblingCalled? source siblings kind className)
        (body.stations (·.expressionKind = .functionBoundary)) address name ↔
      name ∈ siblings ∧ body.CallsAt source kind className address name := by
  -- What a single node shows does not depend on where it stands.
  have found : ∀ node : Node, node.siblingCalled? source siblings kind className = some name ↔
      name ∈ siblings ∧ node.kind = "call_expression" ∧ node.Invokes source className kind name := by
    intro node
    rw [siblingCalled?, ← expressionKind_eq_call_iff, ← callee?_eq_some_iff]
    split <;> simp_all [Option.filter_eq_some_iff, and_comm]
  constructor
  · rintro ⟨station, member, rfl, shown⟩
    obtain ⟨isSibling, isCall, invokes⟩ := (found station.node).1 shown
    exact ⟨isSibling, station.node, mem_stations_iff.1 member, isCall, invokes⟩
  · rintro ⟨isSibling, call, reached, isCall, invokes⟩
    exact ⟨⟨address, call⟩, mem_stations_iff.2 reached, rfl, (found call).2 ⟨isSibling, isCall, invokes⟩⟩

/-- The sibling calls of a body are the siblings that it calls somewhere. -/
theorem mem_siblingCalls_iff {name : String} :
    name ∈ body.siblingCalls source siblings kind className ↔
      name ∈ siblings ∧ ∃ address, body.CallsAt source kind className address name := by
  rw [siblingCalls_eq, List.mem_eraseDups, List.mem_filterMap]
  constructor
  -- A station of the walk shows a sibling exactly if its node calls it there.
  · rintro ⟨station, member, shown⟩
    obtain ⟨isSibling, calls⟩ := shows_siblingCalled?_iff.1 ⟨station, member, rfl, shown⟩
    exact ⟨isSibling, station.address, calls⟩
  · rintro ⟨isSibling, address, calls⟩
    obtain ⟨station, member, _, shown⟩ := shows_siblingCalled?_iff.2 ⟨isSibling, calls⟩
    exact ⟨station, member, shown⟩

/-- The sibling calls of a body stand in the order in which a walk meets them first. -/
theorem pairwise_siblingCalls (source : Text) (siblings : List String) (kind : ScopeKind)
    (className : Option String) (body : Node) :
    (body.siblingCalls source siblings kind className).Pairwise fun first second =>
      ∃ address, body.CallsAt source kind className address first ∧
        ∀ other, body.CallsAt source kind className other second → address < other := by
  have ordered := pairwise_eraseDups_shown (pairwise_stations (·.expressionKind = .functionBoundary) body)
    (·.siblingCalled? source siblings kind className)
  rw [← siblingCalls_eq] at ordered
  -- The second name is a sibling, so that every call of it is shown.
  refine ordered.imp_of_mem fun {first second} _ isSecond => ?_
  rintro ⟨address, shown, before⟩
  refine ⟨address, (shows_siblingCalled?_iff.1 shown).2, fun other calls => before other ?_⟩
  exact shows_siblingCalled?_iff.2 ⟨(mem_siblingCalls_iff.1 isSecond).1, calls⟩

/-- The sibling calls of a body are all different. -/
theorem nodup_siblingCalls (source : Text) (siblings : List String) (kind : ScopeKind)
    (className : Option String) (body : Node) : (body.siblingCalls source siblings kind className).Nodup := by
  -- A name that stood in front of itself would be met before it is met.
  refine (pairwise_siblingCalls source siblings kind className body).imp fun {first second} shows same => ?_
  subst same
  obtain ⟨address, calls, before⟩ := shows
  exact List.lt_irrefl address (before address calls)

end Siblings

end Node

/-- Recording calls one by one adds those that are new, each where it comes up first. -/
theorem CallableUnit.calls_foldl_addCall (names : List String) (unit : CallableUnit) :
    (names.foldl addCall unit).calls = unit.calls ++ (names.filter (· ∉ unit.calls)).eraseDups := by
  -- A call is recorded among the calls as a name is appended to a list.
  have recorded (unit : CallableUnit) (name : String) : appendNew unit.calls name = (unit.addCall name).calls := by
    unfold addCall appendNew
    split <;> rfl
  rw [← List.foldl_hom CallableUnit.calls recorded, foldl_appendNew]

namespace ExtractedUnit

/-- The calls of a unit: what its bodies call one after the other, each name where it comes up first. -/
def calls (source : Text) (siblings : List String) (scope : Scope) (extracted : ExtractedUnit) : List String :=
  (extracted.bodies.flatMap (·.siblingCalls source siblings scope.kind scope.className)).eraseDups

/-- A unit with no calls yet is resolved to the same unit with the calls of its bodies. -/
theorem resolve_eq {source : Text} {siblings : List String} {scope : Scope} {extracted : ExtractedUnit}
    (silent : extracted.unit.calls = []) :
    extracted.resolve source siblings scope =
      { extracted.unit with calls := extracted.calls source siblings scope } := by
  -- A unit is made up of its calls and of what it is without them.
  have rebuilt : ∀ unit : CallableUnit, unit = { unit.withoutCalls with calls := unit.calls } := fun _ => rfl
  rw [rebuilt (extracted.resolve source siblings scope), resolve, CallableUnit.withoutCalls_foldl_addCall,
    CallableUnit.calls_foldl_addCall, silent]
  simp [calls, CallableUnit.withoutCalls]

end ExtractedUnit

namespace Scope

/-- No calls are known of a unit when it is extracted. -/
theorem calls_of_extract (source : Text) (scope : Scope) :
    ∀ extracted ∈ scope.extract source, extracted.unit.calls = [] :=
  Extraction.forall_extract (motive := (·.calls = [])) (fun _ _ _ _ _ => rfl) fun _ _ _ _ silent _ _ => silent

/-- Resolution gives every unit the calls of its bodies, among all names of the scope. -/
theorem resolvedUnits_eq (source : Text) (scope : Scope) :
    scope.resolvedUnits source = (scope.extract source).map fun extracted =>
      { extracted.unit with
        calls := extracted.calls source ((scope.extract source).map (·.unit.name)) scope } :=
  List.map_congr_left fun extracted member =>
    ExtractedUnit.resolve_eq (scope.calls_of_extract source extracted member)

/-- The analysis keeps the first unit of each name as it was resolved. -/
theorem units_analyze_eq (source : Text) (scope : Scope) :
    (scope.analyze source).graph.units = (scope.resolvedUnits source).eraseDupsBy (·.name == ·.name) := by
  refine CallGraph.units_build_of_inside fun unit member callee called => ?_
  rw [resolvedUnits_eq] at member ⊢
  -- Only names of the scope count as calls.
  obtain ⟨extracted, _, rfl⟩ := List.mem_map.1 member
  obtain ⟨body, _, found⟩ := List.mem_flatMap.1 (List.mem_eraseDups.1 called)
  have isSibling := (Node.mem_siblingCalls_iff.1 found).1
  simpa using isSibling

end Scope

/--
The calls of a body are the siblings that it calls outside of nested functions, in order of discovery.

Each stands once, in the order in which a walk in pre-order meets them first. A unit has the calls of its bodies,
one body after the other, each where it comes up first, and the analysis keeps them all.
-/
theorem calls_inOrderOfDiscovery (source : Text) :
    (∀ (siblings : List String) (kind : ScopeKind) (className : Option String) (body : Node),
      (body.siblingCalls source siblings kind className).Nodup ∧
        (∀ name, name ∈ body.siblingCalls source siblings kind className ↔
          name ∈ siblings ∧ ∃ address, body.CallsAt source kind className address name) ∧
        (body.siblingCalls source siblings kind className).Pairwise fun first second =>
          ∃ address, body.CallsAt source kind className address first ∧
            ∀ other, body.CallsAt source kind className other second → address < other) ∧
      ∀ scope : Scope,
        scope.resolvedUnits source = ((scope.extract source).map fun extracted =>
          { extracted.unit with
            calls := extracted.calls source ((scope.extract source).map (·.unit.name)) scope }) ∧
        (scope.analyze source).graph.units = (scope.resolvedUnits source).eraseDupsBy (·.name == ·.name) := by
  -- The calls of a body, and what the units of a scope and of its graph have of them.
  refine ⟨fun siblings kind className body => ⟨?_, fun name => ?_, ?_⟩, fun scope => ⟨?_, ?_⟩⟩
  · exact Node.nodup_siblingCalls source siblings kind className body
  · exact Node.mem_siblingCalls_iff
  · exact Node.pairwise_siblingCalls source siblings kind className body
  · exact scope.resolvedUnits_eq source
  · exact scope.units_analyze_eq source

end CallersFirst
