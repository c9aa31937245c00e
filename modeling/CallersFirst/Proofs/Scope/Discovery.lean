import CallersFirst.Proofs.Reordering
import CallersFirst.Proofs.SyntaxTree.Addresses
import CallersFirst.Proofs.SyntaxTree.Stack

/-!
The scopes of a tree are found completely and in pre-order. A search that keeps the nodes ahead on a stack ends,
and finds the same scopes in the same order.
-/

namespace CallersFirst

namespace Node

/-- The kinds of functions, methods included. -/
def functionKinds : List String :=
  ["function_declaration", "generator_function_declaration", "function_expression", "function",
    "generator_function", "arrow_function", "method_definition"]

/-- A function of any kind. -/
def IsFunctionLike (node : Node) : Prop :=
  node.kind ∈ functionKinds

instance (node : Node) : Decidable node.IsFunctionLike :=
  inferInstanceAs (Decidable (node.kind ∈ functionKinds))

/-- The nodes at which a search for calls stops are the function-like ones. -/
theorem expressionKind_eq_functionBoundary_iff {node : Node} :
    node.expressionKind = .functionBoundary ↔ node.IsFunctionLike := by
  unfold expressionKind ExpressionKind.ofName IsFunctionLike functionKinds
  split <;> simp_all

/-- The scopes that a walk from a node meets, if the node was reached from the given one. -/
def scopes (source : Text) (options : OrderingSettings) (parent : Option Node) (node : Node) : List Scope :=
  (node.visits (fun _ => false) parent).filterMap (·.scope? source options)

end Node

namespace Scope

section Search

variable {source : Text} {options : OrderingSettings}

/-- Notes the scope that a node opens. -/
def noteScope (source : Text) (options : OrderingSettings) (found : List Scope) (visit : Visit) : List Scope :=
  found ++ (visit.scope? source options).toList

/-- The scopes that a search with a stack finds, which is not begun if there is nothing to look for. -/
noncomputable def search? (source : Text) (options : OrderingSettings) (root : Node) : Option (List Scope) :=
  if options.classBodies || options.nestedScopes then
    root.walk? (fun _ => false) (noteScope source options) [⟨.program, root, none⟩]
  else some [⟨.program, root, none⟩]

/-- Noting the scopes of some visits puts them behind those found before. -/
theorem foldl_noteScope (visits : List Visit) :
    ∀ found : List Scope, visits.foldl (noteScope source options) found =
      found ++ visits.filterMap (·.scope? source options) := by
  induction visits with
  | nil => simp
  | cons visit rest ih =>
    intro found
    rw [List.foldl_cons, ih, noteScope, List.append_assoc, List.filterMap_cons]
    -- A visit adds one scope or none.
    cases visit.scope? source options with
    | none => rfl
    | some scope => rfl

/-- Where neither class bodies nor function bodies are wanted, no node opens a scope. -/
theorem scopes_eq_nil (unwanted : (options.classBodies || options.nestedScopes) = false) (root : Node) :
    root.scopes source options none = [] := by
  refine List.filterMap_eq_nil_iff.2 fun visit _ => ?_
  simp_all [Visit.scope?]

/-- The search ends, and finds the scopes of the tree in their order. -/
theorem search?_eq (source : Text) (options : OrderingSettings) (root : Node) :
    search? source options root = some (discover source options root) := by
  have listed : discover source options root = [⟨.program, root, none⟩] ++ root.scopes source options none := rfl
  rw [search?, listed]
  -- Only if some kind of scope is wanted does the search walk the tree.
  split
  · rw [Node.walk?_eq, foldl_noteScope]
    rfl
  · rename_i unwanted
    rw [scopes_eq_nil (by simpa using unwanted), List.append_nil]

end Search

/-- A scope with the address of its node. -/
structure Site where
  /-- The address of the node from the root. -/
  address : List Nat
  /-- The scope itself. -/
  scope : Scope

namespace Site

/-- The program, which stands at the root. -/
def program (root : Node) : Site :=
  ⟨[], ⟨.program, root, none⟩⟩

/-- A site whose node lies below that of another. -/
structure IsNestedIn (inner outer : Site) : Prop where
  /-- The way to the inner node leads through the outer one. -/
  through : outer.address <+: inner.address
  /-- They are not the same. -/
  differ : outer.address ≠ inner.address

/-- A site below the root that the settings ask for. -/
inductive IsOpened (source : Text) (options : OrderingSettings) (root : Node) : Site → Prop where
  /-- A class body has the name of the class that it belongs to, if this has one. -/
  | classBody (above : List Nat) (index : Nat) {parent node : Node} (wanted : options.classBodies)
      (leads : root.nodeAt? above = some parent) (isChild : parent.namedChildren[index]? = some node)
      (isClassBody : node.kind = "class_body") :
      IsOpened source options root
        ⟨above ++ [index], ⟨.classBody, node, (parent.child? .name).map (·.name source)⟩⟩
  /-- A statement block counts if a function finds it under the label of its body. -/
  | block (above : List Nat) (index : Nat) {parent node : Node} (wanted : options.nestedScopes)
      (leads : root.nodeAt? above = some parent) (isChild : parent.namedChildren[index]? = some node)
      (isBlock : node.kind = "statement_block") (isFunction : parent.IsFunctionLike)
      (isBody : node.field = some .body) :
      IsOpened source options root ⟨above ++ [index], ⟨.block, node, none⟩⟩

end Site

section Sites

variable {source : Text} {options : OrderingSettings} {root : Node}

/-- A node with a parent opens a scope if it is a class body or the body of a function, and wanted as such. -/
theorem scope?_child_eq_some_iff {parent node : Node} {scope : Scope} :
    (⟨some parent, node⟩ : Visit).scope? source options = some scope ↔
      (options.classBodies ∧ node.kind = "class_body" ∧
        scope = ⟨.classBody, node, (parent.child? .name).map (·.name source)⟩) ∨
      (options.nestedScopes ∧ node.kind = "statement_block" ∧ parent.IsFunctionLike ∧ node.field = some .body ∧
        scope = ⟨.block, node, none⟩) := by
  rw [← Node.expressionKind_eq_functionBoundary_iff, Visit.scope?]
  simp only [Visit.isFunctionBody, Visit.parentName, Option.bind_some, Bool.and_eq_true, beq_iff_eq,
    decide_eq_true_eq]
  constructor
  · -- The test for a class body comes first, and that for the body of a function second.
    intro opened
    split at opened
    · rename_i isClassBody
      cases opened
      exact .inl ⟨isClassBody.1, isClassBody.2, rfl⟩
    · split at opened
      · rename_i isBody
        cases opened
        exact .inr ⟨isBody.1.1, isBody.1.2, isBody.2.1, isBody.2.2, rfl⟩
      · cases opened
  · rintro (⟨wanted, isClassBody, rfl⟩ | ⟨wanted, isBlock, isFunction, isBody, rfl⟩)
    · rw [if_pos ⟨wanted, isClassBody⟩]
    · -- A statement block is no class body.
      rw [if_neg (by simp [isBlock]), if_pos ⟨⟨wanted, isBlock⟩, isFunction, isBody⟩]

/-- The root opens no scope besides the program, unless it is a class body that counts. -/
theorem scope?_root_eq_none (plain : options.classBodies → root.kind ≠ "class_body") :
    (⟨none, root⟩ : Visit).scope? source options = none := by
  -- It has no parent, so that it is not the body of a function either.
  have notClassBody : ¬ (options.classBodies && root.kind == "class_body") := by simpa using plain
  rw [Visit.scope?, if_neg notClassBody]
  simp [Visit.isFunctionBody]

/-- The sites in the order in which a walk meets them. -/
def sites (source : Text) (options : OrderingSettings) (root : Node) : List Site :=
  (root.stations fun _ => false).filterMap fun station =>
    ((root.visitAt? none station.address).bind (·.scope? source options)).map (⟨station.address, ·⟩)

/-- The scopes at the sites are those that the walk from the root meets. -/
theorem map_scope_sites (source : Text) (options : OrderingSettings) (root : Node) :
    (sites source options root).map (·.scope) = root.scopes source options none := by
  -- The stations of the walk are its visits by address, and both are asked for their scopes.
  calc (sites source options root).map (·.scope)
      = ((root.stations fun _ => false).map (root.visitAt? none ·.address)).filterMap
          (·.bind (·.scope? source options)) := by
        simp [sites, List.map_filterMap, List.filterMap_map, Function.comp_def]
    _ = ((root.visits (fun _ => false) none).map some).filterMap (·.bind (·.scope? source options)) := by
        rw [Node.map_visitAt?_stations]
    _ = root.scopes source options none := by
        simp [Node.scopes, List.filterMap_map]

/-- The sites stand in the order of their addresses. -/
theorem pairwise_sites (source : Text) (options : OrderingSettings) (root : Node) :
    (sites source options root).Pairwise fun earlier later => earlier.address < later.address := by
  -- The stations stand in this order, and leaving some of them out does not change it.
  refine List.pairwise_filterMap.2 ((Node.pairwise_stations (fun _ => false) root).imp ?_)
  intro earlier later before first opensFirst second opensSecond
  obtain ⟨_, _, rfl⟩ := Option.map_eq_some_iff.1 opensFirst
  obtain ⟨_, _, rfl⟩ := Option.map_eq_some_iff.1 opensSecond
  exact before

/-- There is a site wherever a visit finds a scope. -/
theorem mem_sites_iff {site : Site} :
    site ∈ sites source options root ↔
      ∃ visit, root.visitAt? none site.address = some visit ∧ visit.scope? source options = some site.scope := by
  obtain ⟨address, scope⟩ := site
  simp only [sites, List.mem_filterMap, Option.map_eq_some_iff, Option.bind_eq_some_iff, Site.mk.injEq]
  constructor
  · rintro ⟨station, _, _, ⟨visit, paid, opened⟩, rfl, rfl⟩
    exact ⟨visit, paid, opened⟩
  · rintro ⟨visit, paid, opened⟩
    -- The walk leaves nothing out, and so it has a station wherever an address leads.
    have leads : root.nodeAt? address = some visit.node := by
      rw [← Node.map_node_visitAt? none, paid]
      rfl
    exact ⟨⟨address, visit.node⟩, Node.mem_stations_iff.2 ⟨leads, fun _ _ _ _ => rfl⟩, scope,
      ⟨visit, paid, opened⟩, rfl, rfl⟩

/-- If the root is no class body that counts, the sites are those that the settings ask for below the root. -/
theorem mem_sites_iff_isOpened (plain : options.classBodies → root.kind ≠ "class_body") {site : Site} :
    site ∈ sites source options root ↔ site.IsOpened source options root := by
  rw [mem_sites_iff]
  constructor
  · rintro ⟨⟨parent?, node⟩, paid, opened⟩
    obtain ⟨address, scope⟩ := site
    rcases List.eq_nil_or_concat' address with rfl | ⟨above, index, rfl⟩
    · -- Only the root has the empty address.
      cases paid
      rw [scope?_root_eq_none plain] at opened
      cases opened
    · -- Any other address ends with a step from a parent to one of its named children.
      obtain ⟨parent, leads, rfl, isChild⟩ := Node.visitAt?_concat_eq_some_iff.1 paid
      rcases scope?_child_eq_some_iff.1 opened with
        ⟨wanted, isClassBody, rfl⟩ | ⟨wanted, isBlock, isFunction, isBody, rfl⟩
      · exact .classBody above index wanted leads isChild isClassBody
      · exact .block above index wanted leads isChild isBlock isFunction isBody
  · intro isOpened
    cases isOpened with
    | @classBody above index parent node wanted leads isChild isClassBody =>
      exact ⟨⟨some parent, node⟩, Node.visitAt?_concat_eq_some_iff.2 ⟨parent, leads, rfl, isChild⟩,
        scope?_child_eq_some_iff.2 (.inl ⟨wanted, isClassBody, rfl⟩)⟩
    | @block above index parent node wanted leads isChild isBlock isFunction isBody =>
      exact ⟨⟨some parent, node⟩, Node.visitAt?_concat_eq_some_iff.2 ⟨parent, leads, rfl, isChild⟩,
        scope?_child_eq_some_iff.2 (.inr ⟨wanted, isBlock, isFunction, isBody, rfl⟩)⟩

/-- A site that the settings ask for is not the root. -/
theorem Site.IsOpened.nil_lt_address {site : Site} (isOpened : site.IsOpened source options root) :
    [] < site.address := by
  have further : ∀ (above : List Nat) (index : Nat), [] < above ++ [index] := by
    intro above index
    cases above with
    | nil => exact List.nil_lt_cons _ _
    | cons => exact List.nil_lt_cons _ _
  -- Both kinds of scopes are opened by a child of some node.
  cases isOpened with
  | classBody => exact further _ _
  | block => exact further _ _

/-- Sites in the order of their addresses stand behind those that they are nested in. -/
theorem lt_of_isNestedIn {listed : List Site}
    (ordered : listed.Pairwise fun earlier later => earlier.address < later.address) {i j : Nat} {outer inner : Site}
    (isOuter : listed[i]? = some outer) (isInner : listed[j]? = some inner) (nested : inner.IsNestedIn outer) :
    i < j := by
  obtain ⟨outerBound, rfl⟩ := List.getElem?_eq_some_iff.1 isOuter
  obtain ⟨innerBound, rfl⟩ := List.getElem?_eq_some_iff.1 isInner
  rcases Nat.lt_trichotomy i j with before | rfl | behind
  · exact before
  · exact absurd rfl nested.differ
  · -- An address is not less than one that it starts with.
    exact absurd (List.pairwise_iff_getElem.1 ordered j i innerBound outerBound behind) nested.through.le

end Sites

/--
The scopes of a tree are found completely and in pre-order.

The program comes first. Then come the class bodies and the bodies of functions that are reached through named
children, as far as the settings ask for them, each once and in the order of their addresses. So every scope comes
before those that are nested in it. A class body has the name of its class.
The search with a stack ends with the same list.
A root that is itself a class body would be found a second time.
-/
theorem discover_inPreorder (source : Text) (options : OrderingSettings) (root : Node)
    (plain : options.classBodies → root.kind ≠ "class_body") :
    ∃ opened : List Site,
      discover source options root = (Site.program root :: opened).map (·.scope) ∧
      (∀ site, site ∈ opened ↔ site.IsOpened source options root) ∧
      ((Site.program root :: opened).Pairwise fun earlier later => earlier.address < later.address) ∧
      (∀ (i j : Nat) (outer inner : Site), (Site.program root :: opened)[i]? = some outer →
        (Site.program root :: opened)[j]? = some inner → inner.IsNestedIn outer → i < j) ∧
      search? source options root = some (discover source options root) := by
  have members : ∀ site, site ∈ sites source options root ↔ site.IsOpened source options root :=
    fun _ => mem_sites_iff_isOpened plain
  -- The root has the least address of all.
  have ordered : (Site.program root :: sites source options root).Pairwise fun earlier later =>
      earlier.address < later.address :=
    List.pairwise_cons.2 ⟨fun site member => ((members site).1 member).nil_lt_address,
      pairwise_sites source options root⟩
  refine ⟨sites source options root, ?_, members, ordered, fun i j outer inner => lt_of_isNestedIn ordered,
    search?_eq source options root⟩
  rw [List.map_cons, map_scope_sites]
  rfl

end Scope

/-! A class whose only method gives a class without a name. -/

namespace Sample

/-- The body of the class without a name. -/
def namelessBody : Node :=
  ⟨"class_body", true, ⟨24, 26⟩, some .body, [token "\x7b" 24 25, token "\x7d" 25 26]⟩

/-- The class without a name. -/
def namelessClass : Node :=
  ⟨"class", true, ⟨19, 26⟩, none, [token "class" 19 24, namelessBody]⟩

/-- The body of the method. -/
def methodBody : Node :=
  body 11 27 [⟨"return_statement", true, ⟨12, 26⟩, none, [token "return" 12 18, namelessClass]⟩]

/-- The method. -/
def method : Node :=
  ⟨"method_definition", true, ⟨8, 27⟩, none,
    [⟨"property_identifier", true, ⟨8, 9⟩, some .name, []⟩, parentheses "formal_parameters" 9, methodBody]⟩

/-- The body of the class with a name. -/
def namedBody : Node :=
  ⟨"class_body", true, ⟨7, 28⟩, some .body, [token "\x7b" 7 8, method, token "\x7d" 27 28]⟩

/-- The class with a name. -/
def namedClass : Node :=
  ⟨"class_declaration", true, ⟨0, 28⟩, none, [token "class" 0 5, identifier .name 6, namedBody]⟩

/-- The text of both classes. -/
def classSource : Text :=
  "class K\x7bm()\x7breturn class\x7b\x7d\x7d\x7d\n".toList

/-- The root of its tree. -/
def classRoot : Node :=
  ⟨"program", true, ⟨0, 29⟩, none, [namedClass]⟩

end Sample

/-- In the sample both class bodies are found, and between them the body of the method. -/
theorem Scope.discover_inPreorder_sample :
    (Sample.nestedOptions.classBodies → Sample.classRoot.kind ≠ "class_body") ∧
    Scope.discover Sample.classSource Sample.nestedOptions Sample.classRoot =
      [⟨.program, Sample.classRoot, none⟩, ⟨.classBody, Sample.namedBody, some "K"⟩,
        ⟨.block, Sample.methodBody, none⟩, ⟨.classBody, Sample.namelessBody, none⟩] ∧
    ∃ opened : List Scope.Site,
      Scope.discover Sample.classSource Sample.nestedOptions Sample.classRoot =
        (Scope.Site.program Sample.classRoot :: opened).map (·.scope) ∧
      ⟨[0, 1], ⟨.classBody, Sample.namedBody, some "K"⟩⟩ ∈ opened ∧
      ⟨[0, 1, 0, 2], ⟨.block, Sample.methodBody, none⟩⟩ ∈ opened ∧
      ⟨[0, 1, 0, 2, 0, 0, 0], ⟨.classBody, Sample.namelessBody, none⟩⟩ ∈ opened := by
  have plain : Sample.nestedOptions.classBodies → Sample.classRoot.kind ≠ "class_body" := fun _ => by decide
  obtain ⟨opened, listed, members, _⟩ :=
    Scope.discover_inPreorder Sample.classSource Sample.nestedOptions Sample.classRoot plain
  -- Keywords and braces are tokens, and so they do not count.
  have toNamed : Sample.classRoot.nodeAt? [0] = some Sample.namedClass := rfl
  have toMethod : Sample.classRoot.nodeAt? [0, 1, 0] = some Sample.method := rfl
  have toNameless : Sample.classRoot.nodeAt? [0, 1, 0, 2, 0, 0] = some Sample.namelessClass := rfl
  refine ⟨plain, rfl, opened, listed, (members _).2 ?_, (members _).2 ?_, (members _).2 ?_⟩
  · exact .classBody [0] 1 (by rfl) toNamed (by rfl) (by rfl)
  · exact .block [0, 1, 0] 2 (by rfl) toMethod (by rfl) (by rfl) (by decide) (by rfl)
  · exact .classBody [0, 1, 0, 2, 0, 0] 0 (by rfl) toNameless (by rfl) (by rfl)

end CallersFirst
