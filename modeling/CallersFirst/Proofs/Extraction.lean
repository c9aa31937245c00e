import CallersFirst.Extraction
import CallersFirst.Proofs.CallableUnit
import CallersFirst.Proofs.SyntaxTree
import Mathlib.Data.Option.Basic

/-! Extraction finds units that lie in their scope, in order and apart. -/

namespace CallersFirst

namespace Node

section Stop

variable {source : Text} {node : Node}

/-- A labelled child is a child. -/
theorem mem_children_of_child? {child : Node} {field : Field} (found : node.child? field = some child) :
    child ∈ node.children :=
  List.mem_of_find?_eq_some found

/-- A statement without a declaration that shares its end stops where some part of it does. -/
theorem ownStop_eq_stop (source : Text) (node : Node) :
    ∃ part ∈ node.preorder, statementStop.ownStop source node = part.span.stop := by
  -- The end is taken from the node, or from the child before a semicolon on a later line.
  unfold statementStop.ownStop
  split
  · rename_i last before others shape
    have member : before ∈ node.children := by
      rw [← List.mem_reverse, shape]
      simp
    split
    · exact ⟨before, mem_preorder_of_mem_children member, rfl⟩
    · exact ⟨node, mem_preorder_self node, rfl⟩
  · exact ⟨node, mem_preorder_self node, rfl⟩

/-- A statement stops where some part of it does. -/
theorem statementStop_eq_stop (source : Text) (node : Node) :
    ∃ part ∈ node.preorder, node.statementStop source = part.span.stop := by
  -- The search goes down through declarations that end with the statement.
  fun_induction statementStop source node with
  | case1 node declaration found same ih =>
    obtain ⟨part, member, stops⟩ := ih
    exact ⟨part, mem_preorder_trans member
      (mem_preorder_of_mem_children (mem_children_of_child? found)), stops⟩
  | case2 node declaration found differs => exact ownStop_eq_stop source node
  | case3 node missing => exact ownStop_eq_stop source node

/-- A bound function stops where its statement does. -/
theorem binding?_stop {definition : Definition} (found : node.binding? source = some definition) :
    definition.span.stop = node.statementStop source := by
  -- Every way through the conditions ends with the same span.
  unfold binding? at found
  split at found
  · simp only [Option.bind_eq_bind, Option.bind_eq_some_iff, Option.pure_def, Option.some.injEq] at found
    obtain ⟨name, _, _, _, value, _, _, _, rfl⟩ := found
    rfl
  · cases found

/-- An exported function value stops where its statement does. -/
theorem exportedValue?_stop {definition : Definition}
    (found : node.exportedValue? source = some definition) :
    definition.span.stop = node.statementStop source := by
  simp only [exportedValue?, Option.bind_eq_bind, Option.bind_eq_some_iff, Option.pure_def,
    Option.some.injEq] at found
  obtain ⟨value, _, _, _, name, _, rfl⟩ := found
  rfl

/-- What a statement defines stops where the node does, or where the statement is cut off. -/
theorem statementDefinition?_stop {definition : Definition}
    (found : node.statementDefinition? source = some definition) :
    definition.span.stop = node.span.stop ∨ definition.span.stop = node.statementStop source := by
  rw [statementDefinition?] at found
  split at found
  · -- A declared function covers its whole statement.
    simp only [Option.bind_eq_bind, Option.bind_eq_some_iff, Option.pure_def, Option.some.injEq] at found
    obtain ⟨name, _, rfl⟩ := found
    exact .inl rfl
  · exact .inr (binding?_stop found)
  · split at found
    · -- What is exported takes over the extent of the export.
      simp only [Option.bind_eq_bind, Option.bind_eq_some_iff, Option.pure_def, Option.some.injEq] at found
      obtain ⟨inner, _, rfl⟩ := found
      exact .inr rfl
    · exact .inr (exportedValue?_stop found)
  · cases found

/-- What a direct child of a scope defines stops where the child does, or where its statement is cut off. -/
theorem definition?_stop_cases {kind : ScopeKind} {definition : Definition}
    (found : node.definition? source kind = some definition) :
    definition.span.stop = node.span.stop ∨ definition.span.stop = node.statementStop source := by
  -- A method ends as a node does, and any other definition as its statement does.
  unfold definition? at found
  split at found
  · simp only [methodDefinition?, Option.bind_eq_bind, Option.bind_eq_some_iff, Option.pure_def,
      Option.some.injEq] at found
    obtain ⟨_, _, name, _, _, _, rfl⟩ := found
    exact .inl rfl
  · exact statementDefinition?_stop found

/-- What a direct child of a scope defines stops where some part of the child does. -/
theorem definition?_stop {kind : ScopeKind} {definition : Definition}
    (found : node.definition? source kind = some definition) :
    ∃ part ∈ node.preorder, definition.span.stop = part.span.stop := by
  rcases definition?_stop_cases found with whole | cut
  · exact ⟨node, mem_preorder_self node, whole⟩
  · rw [cut]
    exact statementStop_eq_stop source node

end Stop

section Free

variable {source : Text} {node : Node}

/-- A node of a kind that defines nothing defines nothing. -/
theorem definition?_eq_none {kind : ScopeKind}
    (other : node.statementKind ∉ [.functionDeclaration, .variableDeclaration, .exported, .method]) :
    node.definition? source kind = none := by
  -- Only the four kinds excluded here lead to a definition.
  simp only [List.mem_cons, List.not_mem_nil, or_false, not_or] at other
  obtain ⟨notFunction, notVariable, notExported, notMethod⟩ := other
  unfold definition?
  split
  · simp [methodDefinition?, notMethod, failure]
  · rw [statementDefinition?]
    split <;> simp_all

/-- An exported overload signature defines nothing. -/
theorem definition?_eq_none_of_signatureName? {kind : ScopeKind} {name : String}
    (exported : node.statementKind = .exported) (declared : node.signatureName? source = some name) :
    node.definition? source kind = none := by
  simp only [signatureName?, exported, Option.bind_eq_bind, Option.bind_eq_some_iff] at declared
  obtain ⟨declaration, found, _, checked, _⟩ := declared
  have signature : declaration.statementKind = .signature := by
    by_contra differs
    simp [guard, differs, failure] at checked
  -- What is exported is a signature, which defines nothing itself.
  have inner : declaration.statementDefinition? source = none := by
    rw [statementDefinition?, signature]
  unfold definition?
  split
  · simp [methodDefinition?, exported, failure]
  · rw [statementDefinition?, exported]
    simp only
    split
    · rename_i other found'
      obtain rfl : declaration = other := by simpa using found.symm.trans found'
      simp [inner]
    · simp_all

/-- A comment or a lone semicolon defines nothing. -/
theorem definition?_eq_none_of_isFiller {kind : ScopeKind} (filler : node.isFiller) :
    node.definition? source kind = none := by
  -- Neither a comment nor a semicolon is of a kind that defines something.
  refine definition?_eq_none ?_
  simp only [isFiller, Bool.or_eq_true, decide_eq_true_eq, isSemicolon, beq_iff_eq] at filler
  rcases filler with comment | semicolon
  · simp [comment]
  · simp [statementKind, semicolon, StatementKind.ofName]

end Free

end Node

namespace Extraction

/-- The siblings before a place back to the last one that defines something, nearest first. -/
def freeRun (source : Text) (kind : ScopeKind) (preceding : List Node) : List Node :=
  preceding.takeWhile fun node => (node.definition? source kind).isNone

section FreeRun

variable {source : Text} {kind : ScopeKind} {node : Node} {preceding : List Node}

/-- A node that defines nothing extends the run. -/
theorem freeRun_cons_of_none (free : node.definition? source kind = none) :
    freeRun source kind (node :: preceding) = node :: freeRun source kind preceding := by
  simp [freeRun, free]

/-- A node that defines something ends the run. -/
theorem freeRun_cons_of_some {definition : Definition} (found : node.definition? source kind = some definition) :
    freeRun source kind (node :: preceding) = [] := by
  simp [freeRun, found]

/-- The run is the nearest part of the siblings. -/
theorem freeRun_within_siblings (source : Text) (kind : ScopeKind) (preceding : List Node) :
    freeRun source kind preceding <+: preceding :=
  List.takeWhile_prefix _

end FreeRun

/-- A position found by looking back from another over siblings that define nothing. -/
structure LooksBack (source : Text) (kind : ScopeKind) (first : Position) (siblings : List Node)
    (found : Position) : Prop where
  /-- What precedes the position found also precedes the first one. -/
  suffix : found.node :: found.preceding <:+ first.node :: first.preceding
  /-- The node found is the first one or stands in the run before it. -/
  node_mem : found.node = first.node ∨ found.node ∈ freeRun source kind siblings
  /-- The run before the node found is part of the run before the first one. -/
  run_mem : ∀ node ∈ freeRun source kind found.preceding,
    node ∈ freeRun source kind first.preceding ∨ node ∈ freeRun source kind siblings

namespace LooksBack

variable {source : Text} {kind : ScopeKind} {first found : Position} {previous : Node} {earlier : List Node}

/-- A position is found without looking any further. -/
theorem stay (siblings : List Node) : LooksBack source kind first siblings first :=
  ⟨List.suffix_rfl, .inl rfl, fun _ => .inl⟩

/-- A sibling that defines nothing can be passed over. -/
theorem pass (free : previous.definition? source kind = none)
    (further : LooksBack source kind first earlier found) :
    LooksBack source kind first (previous :: earlier) found := by
  -- The run before the first node grows by the sibling, and nothing else changes.
  refine ⟨further.suffix, ?_, fun node member => ?_⟩
  · rw [freeRun_cons_of_none free]
    exact further.node_mem.imp_right (List.mem_cons_of_mem _)
  · rw [freeRun_cons_of_none free]
    exact (further.run_mem node member).imp_right (List.mem_cons_of_mem _)

/-- A sibling that defines nothing can become the new first node. -/
theorem move (free : previous.definition? source kind = none)
    (inside : previous :: earlier <:+ first.preceding)
    (further : LooksBack source kind ⟨previous, earlier⟩ earlier found) :
    LooksBack source kind first (previous :: earlier) found := by
  -- What the search finds from there lies in the run that the sibling opens.
  refine ⟨further.suffix.trans (inside.trans (List.suffix_cons _ _)), .inr ?_, fun node member => .inr ?_⟩
  · rw [freeRun_cons_of_none free]
    exact List.mem_cons.2 further.node_mem
  · rw [freeRun_cons_of_none free]
    exact List.mem_cons_of_mem _ ((further.run_mem node member).elim id id)

end LooksBack

/-- The start of a unit is found by looking back over siblings that define nothing. -/
theorem leadIn_looksBack (source : Text) (kind : ScopeKind) (name : String) (siblings : List Node) :
    ∀ first : Position, siblings <:+ first.preceding →
      LooksBack source kind first siblings (leadIn source name first siblings) := by
  -- Each sibling is passed over, becomes the new first node or ends the search.
  induction siblings with
  | nil => exact fun first _ => .stay []
  | cons previous earlier ih =>
    intro first inside
    have onward : earlier <:+ first.preceding := (List.suffix_cons _ _).trans inside
    rw [leadIn]
    split
    · rename_i decorator
      exact .move (Node.definition?_eq_none (by simp [decorator])) inside (ih _ List.suffix_rfl)
    · rename_i signature
      split
      · exact .move (Node.definition?_eq_none (by simp [signature])) inside (ih _ List.suffix_rfl)
      · exact .stay _
    · rename_i exported
      split
      · rename_i declared
        exact .move (Node.definition?_eq_none_of_signatureName? exported declared) inside
          (ih _ List.suffix_rfl)
      · exact .stay _
    · split
      · rename_i filler
        exact .pass (Node.definition?_eq_none_of_isFiller filler) (ih first onward)
      · exact .stay _

/-- Attached comments are the nearest siblings in the run before a unit. -/
theorem attachedComments_within_freeRun (source : Text) (kind : ScopeKind) (siblings : List Node) :
    ∀ start, attachedComments source start siblings <+: (freeRun source kind siblings).map (·.span) := by
  -- A comment defines nothing, so that the run goes on as long as comments are attached.
  induction siblings with
  | nil => simp [attachedComments]
  | cons candidate earlier ih =>
    intro start
    rw [attachedComments]
    split
    · rename_i attached
      simp only [Bool.and_eq_true, decide_eq_true_eq] at attached
      rw [freeRun_cons_of_none (Node.definition?_eq_none (by simp [attached.1.1])), List.map_cons]
      exact (List.cons_prefix_cons).2 ⟨rfl, ih _⟩
    · exact List.nil_prefix

end Extraction

/-- A unit that lies in a scope and ends with some part of it. -/
structure Scope.Holds (source : Text) (scope : Scope) (unit : CallableUnit) : Prop where
  /-- The unit and its comments fit the text. -/
  placed : unit.IsPlaced source
  /-- The unit and its comments start inside the scope. -/
  starts_inside : scope.node.span.start ≤ unit.fullStart
  /-- The unit stops inside the scope. -/
  stops_inside : unit.span.stop ≤ scope.node.span.stop
  /-- The unit ends with some part of the scope, which starts no earlier than the unit. -/
  ends : ∃ child ∈ scope.node.children, ∃ part ∈ child.preorder,
    unit.span.start ≤ part.span.start ∧ unit.span.stop = part.span.stop

namespace Extraction

section Unit

variable {source : Text} {scope : Scope} {child : Node} {preceding : List Node} {definition : Definition}

/-- A child of a scope and the siblings before it, nearest first. -/
def IsPlaceIn (scope : Scope) (child : Node) (preceding : List Node) : Prop :=
  (child :: preceding).reverse <+: scope.node.children

/-- A child and the siblings before it are children of the scope. -/
theorem IsPlaceIn.mem_children (place : IsPlaceIn scope child preceding) :
    ∀ node ∈ child :: preceding, node ∈ scope.node.children :=
  fun _ member => place.subset (List.mem_reverse.2 member)

/-- Siblings, nearest first, stop before the ones nearer to the child start. -/
theorem IsPlaceIn.pairwise (place : IsPlaceIn scope child preceding)
    (wellFormed : scope.node.IsWellFormed source) :
    (child :: preceding).Pairwise fun later earlier => earlier.span.stop ≤ later.span.start :=
  List.pairwise_reverse.1 (wellFormed.isPlaced.apart.sublist place.sublist)

/-- A child of a well-formed scope and the siblings before it are well-formed. -/
theorem IsPlaceIn.isWellFormed (place : IsPlaceIn scope child preceding)
    (wellFormed : scope.node.IsWellFormed source) :
    ∀ node ∈ child :: preceding, node.IsWellFormed source :=
  fun node member => wellFormed.of_mem (Node.mem_preorder_of_mem_children (place.mem_children node member))

/-- A position found by looking back from a child starts no later than the child. -/
theorem LooksBack.start_le {kind : ScopeKind} {siblings : List Node} {first : Position}
    (looks : LooksBack source kind ⟨child, preceding⟩ siblings first)
    (place : IsPlaceIn scope child preceding) (wellFormed : scope.node.IsWellFormed source) :
    first.node.span.start ≤ child.span.start := by
  have member : first.node ∈ child :: preceding := looks.suffix.subset (List.mem_cons_self ..)
  have fits := (place.isWellFormed wellFormed first.node member).isPlaced.fits
  rcases List.mem_cons.1 member with same | earlier
  · exact Nat.le_of_eq (congrArg (·.span.start) same)
  · -- A sibling before the child even stops before it.
    exact Nat.le_trans fits.ordered ((List.pairwise_cons.1 (place.pairwise wellFormed)).1 _ earlier)

/-- Comments attached above a node fit the text, in order and before the node. -/
theorem attachedComments_spec {first : Node} {siblings : List Node} (start : Nat)
    (apart : (first :: siblings).Pairwise fun later earlier => earlier.span.stop ≤ later.span.start)
    (fits : ∀ node ∈ siblings, node.span.Fits source) :
    (∀ comment ∈ attachedComments source start siblings,
      comment.Fits source ∧ comment.stop ≤ first.span.start) ∧
    (attachedComments source start siblings).Pairwise fun later earlier => earlier.stop ≤ later.start := by
  -- They are the spans of some of the siblings, nearest first.
  have comments := (attachedComments_within_freeRun source .program siblings start).trans
    ((freeRun_within_siblings source .program siblings).map (·.span))
  obtain ⟨before, apart⟩ := List.pairwise_cons.1 apart
  refine ⟨fun comment member => ?_, (List.pairwise_map.2 apart).sublist comments.sublist⟩
  obtain ⟨node, sibling, rfl⟩ := List.mem_map.1 (comments.subset member)
  exact ⟨fits node sibling, before node sibling⟩

/-- A unit starts no earlier than its node and the siblings in the run before it. -/
theorem le_fullStart_unitAt {floor : Nat} (kind : ScopeKind)
    (low : ∀ node ∈ child :: freeRun source kind preceding, floor ≤ node.span.start) :
    floor ≤ (unitAt source definition ⟨child, preceding⟩).unit.fullStart := by
  have looks := leadIn_looksBack source kind definition.name preceding ⟨child, preceding⟩ List.suffix_rfl
  refine CallableUnit.le_fullStart (low _ (List.mem_cons.2 looks.node_mem)) fun comment member => ?_
  -- A comment is the span of a node in the run.
  have inRun := (attachedComments_within_freeRun source kind _ _).subset (List.mem_reverse.1 member)
  obtain ⟨node, free, rfl⟩ := List.mem_map.1 inRun
  exact low node (List.mem_cons_of_mem _ ((looks.run_mem node free).elim id id))

/-- The unit that a child of a well-formed scope makes lies in the scope. -/
theorem unitAt_holds (wellFormed : scope.node.IsWellFormed source)
    (place : IsPlaceIn scope child preceding)
    (found : child.definition? source scope.kind = some definition) :
    scope.Holds source (unitAt source definition ⟨child, preceding⟩).unit := by
  have looks := leadIn_looksBack source scope.kind definition.name preceding ⟨child, preceding⟩
    List.suffix_rfl
  have firstStart := looks.start_le place wellFormed
  have fits : ∀ node ∈ child :: preceding, node.span.Fits source := fun node member =>
    (place.isWellFormed wellFormed node member).isPlaced.fits
  obtain ⟨comments, commentsApart⟩ := attachedComments_spec
    (leadIn source definition.name ⟨child, preceding⟩ preceding).node.span.start
    ((place.pairwise wellFormed).sublist looks.suffix.sublist)
    fun node member => fits node (looks.suffix.subset (List.mem_cons_of_mem _ member))
  -- The unit stops with some part of the child.
  obtain ⟨part, inChild, stops⟩ := Node.definition?_stop found
  have childFormed := place.isWellFormed wellFormed child (List.mem_cons_self ..)
  have partInside := childFormed.span_inside inChild
  have partFits := (childFormed part inChild).fits
  have isChild := place.mem_children child (List.mem_cons_self ..)
  have childInside := wellFormed.isPlaced.inside child isChild
  -- It starts with a node found by looking back, and its comments are siblings before that node.
  refine ⟨⟨⟨?_, ?_, ?_⟩, ?_, ?_, ?_⟩, ?_, ?_, ?_⟩
  · exact (fits _ (looks.suffix.subset (List.mem_cons_self ..))).starts
  · exact stops ▸ partFits.stops
  · exact stops ▸ Nat.le_trans firstStart (Nat.le_trans partInside.1 partFits.ordered)
  · exact fun comment member => (comments comment (List.mem_reverse.1 member)).1
  · exact List.pairwise_reverse.2 commentsApart
  · exact fun comment member => (comments comment (List.mem_reverse.1 member)).2
  · refine le_fullStart_unitAt scope.kind fun node member => ?_
    have inPlace : node ∈ child :: preceding := by
      rcases List.mem_cons.1 member with rfl | free
      · simp
      · exact List.mem_cons_of_mem _ ((freeRun_within_siblings source scope.kind preceding).subset free)
    exact (wellFormed.isPlaced.inside node (place.mem_children node inPlace)).1
  · exact stops ▸ Nat.le_trans partInside.2 childInside.2
  · exact ⟨child, isChild, part, inChild, Nat.le_trans firstStart partInside.1, stops⟩

end Unit

/--
What is known about the units found before the remaining children of a scope, latest first.

Each stops before everything still to come, including the siblings that the next unit may take over.
-/
structure Found (source : Text) (scope : Scope) (preceding : List Node) (found : List ExtractedUnit)
    (rest : List Node) : Prop where
  /-- The siblings passed and those to come are the children of the scope. -/
  children : preceding.reverse ++ rest = scope.node.children
  /-- Every unit lies in the scope. -/
  holds : ∀ extracted ∈ found, scope.Holds source extracted.unit
  /-- Every unit stops before the later ones start. -/
  apart : found.Pairwise fun later earlier => earlier.unit.span.stop ≤ later.unit.fullStart
  /-- Every unit stops before the siblings since the last definition, and before those to come. -/
  behind : ∀ extracted ∈ found, ∀ node ∈ freeRun source scope.kind preceding ++ rest,
    extracted.unit.span.stop ≤ node.span.start

namespace Found

variable {source : Text} {scope : Scope} {child : Node} {preceding rest : List Node}
  {found others : List ExtractedUnit} {latest : ExtractedUnit} {definition : Definition}

/-- The next child has its place in the scope. -/
theorem isPlaceIn (state : Found source scope preceding found (child :: rest)) :
    IsPlaceIn scope child preceding :=
  ⟨rest, by rw [← state.children]; simp⟩

/-- Moving on to the next child leaves the children of the scope the same. -/
theorem children_cons (state : Found source scope preceding found (child :: rest)) :
    (child :: preceding).reverse ++ rest = scope.node.children := by
  rw [← state.children]
  simp

/-- What a child defines stops before the children after it start. -/
theorem stop_le (wellFormed : scope.node.IsWellFormed source)
    (state : Found source scope preceding found (child :: rest))
    (defined : child.definition? source scope.kind = some definition) :
    ∀ node ∈ rest, definition.span.stop ≤ node.span.start := by
  -- A definition stops within its child, and the children stand apart.
  intro node member
  obtain ⟨part, inChild, stops⟩ := Node.definition?_stop defined
  have inside := ((state.isPlaceIn.isWellFormed wellFormed) child (by simp)).span_inside inChild
  have apart := wellFormed.isPlaced.apart
  rw [← state.children, List.pairwise_append] at apart
  have := (List.pairwise_cons.1 apart.2.1).1 node member
  omega

/-- A child that defines nothing is passed over. -/
theorem skip (state : Found source scope preceding found (child :: rest))
    (free : child.definition? source scope.kind = none) :
    Found source scope (child :: preceding) found rest := by
  -- The run grows by the child, which the units found so far were before already.
  refine ⟨state.children_cons, state.holds, state.apart, fun extracted member node later => ?_⟩
  rw [freeRun_cons_of_none free] at later
  refine state.behind extracted member node ?_
  simp only [List.cons_append, List.mem_cons, List.mem_append] at later ⊢
  tauto

/-- A child that defines something adds a unit. -/
theorem add (wellFormed : scope.node.IsWellFormed source)
    (state : Found source scope preceding found (child :: rest))
    (defined : child.definition? source scope.kind = some definition) :
    Found source scope (child :: preceding) (unitAt source definition ⟨child, preceding⟩ :: found) rest := by
  refine ⟨state.children_cons, ?_, ?_, ?_⟩
  · intro extracted member
    rcases List.mem_cons.1 member with rfl | member
    · exact unitAt_holds wellFormed state.isPlaceIn defined
    · exact state.holds extracted member
  · refine List.pairwise_cons.2 ⟨fun earlier member => ?_, state.apart⟩
    -- The new unit starts with the child or with a sibling since the last definition.
    refine le_fullStart_unitAt scope.kind fun node here => state.behind earlier member node ?_
    rcases List.mem_cons.1 here with rfl | free
    · simp
    · exact List.mem_append_left _ free
  · intro extracted member node later
    -- The child ends the run, so that only the children to come are left.
    rw [freeRun_cons_of_some defined, List.nil_append] at later
    rcases List.mem_cons.1 member with rfl | member
    · exact state.stop_le wellFormed defined node later
    · exact state.behind extracted member node (by simp [later])

/-- A partner extends the latest unit. -/
theorem pair (wellFormed : scope.node.IsWellFormed source)
    (state : Found source scope preceding (latest :: others) (child :: rest))
    (defined : child.definition? source scope.kind = some definition) :
    Found source scope (child :: preceding) (withPartner latest definition :: others) rest := by
  have known := state.holds latest (List.mem_cons_self ..)
  obtain ⟨apart, othersApart⟩ := List.pairwise_cons.1 state.apart
  refine ⟨state.children_cons, ?_, List.pairwise_cons.2 ⟨fun earlier member => ?_, othersApart⟩, ?_⟩
  · intro extracted member
    rcases List.mem_cons.1 member with rfl | member
    · -- The unit grows up to the end of some part of the partner.
      obtain ⟨part, inChild, stops⟩ := Node.definition?_stop defined
      have childFormed := state.isPlaceIn.isWellFormed wellFormed child (List.mem_cons_self ..)
      have isChild := state.isPlaceIn.mem_children child (List.mem_cons_self ..)
      have partInside := childFormed.span_inside inChild
      have partFits := (childFormed part inChild).fits
      have childInside := wellFormed.isPlaced.inside child isChild
      -- The latest unit stops before the partner starts, so that it only grows.
      have meets := state.behind latest (List.mem_cons_self ..) child (by simp)
      have ordered := known.placed.fits.ordered
      have partStops := partFits.ordered
      refine ⟨⟨⟨known.placed.fits.starts, stops ▸ partFits.stops, ?_⟩, known.placed.comments_fit,
        known.placed.comments_apart, known.placed.comments_before⟩, known.starts_inside, ?_, ?_⟩
      · simp only [withPartner]
        omega
      · simp only [withPartner]
        omega
      · exact ⟨child, isChild, part, inChild, by simp only [withPartner]; omega, stops⟩
    · exact state.holds extracted (List.mem_cons_of_mem _ member)
  · -- The start of the unit is as before.
    exact apart earlier member
  · intro extracted member node later
    rw [freeRun_cons_of_some defined, List.nil_append] at later
    rcases List.mem_cons.1 member with rfl | member
    · exact state.stop_le wellFormed defined node later
    · exact state.behind extracted (List.mem_cons_of_mem _ member) node (by simp [later])

/-- Scanning the remaining children keeps what is known about the units. -/
theorem scan (wellFormed : scope.node.IsWellFormed source) (rest : List Node) :
    ∀ (preceding : List Node) (found : List ExtractedUnit) (unpaired : Bool),
      Found source scope preceding found rest →
        ∃ passed, Found source scope passed
          (Extraction.scan source scope.kind preceding found unpaired rest).reverse [] := by
  -- Each child is passed over, adds a unit or extends the latest one.
  induction rest with
  | nil =>
    intro preceding found unpaired state
    exact ⟨preceding, by simpa only [Extraction.scan, List.reverse_reverse] using state⟩
  | cons child rest ih =>
    intro preceding found unpaired state
    rw [Extraction.scan]
    split
    · rename_i free
      exact ih _ _ _ (state.skip free)
    · -- With no unit before it the child cannot be a partner.
      rename_i definition defined
      split
      · exact ih _ _ _ (state.add wellFormed defined)
      · dsimp only
        split
        · exact ih _ _ _ (state.pair wellFormed defined)
        · exact ih _ _ _ (state.add wellFormed defined)

end Found

end Extraction

/-- The units extracted from a well-formed scope lie in it, in order and apart. -/
theorem Scope.extract_spec {source : Text} {scope : Scope} (wellFormed : scope.node.IsWellFormed source) :
    (∀ extracted ∈ scope.extract source, scope.Holds source extracted.unit) ∧
      (scope.extract source).Pairwise fun earlier later =>
        earlier.unit.span.stop ≤ later.unit.fullStart := by
  -- At the start there are no units, and at the end no children are left.
  have start : Extraction.Found source scope [] [] scope.node.children :=
    ⟨by simp, by simp, .nil, by simp⟩
  obtain ⟨passed, state⟩ := start.scan wellFormed _ [] [] false
  exact ⟨fun extracted member => state.holds extracted (List.mem_reverse.2 member),
    List.pairwise_reverse.1 state.apart⟩

end CallersFirst
