import CallersFirst.Proofs.Analysis.Arrangement
import CallersFirst.Proofs.Splice.Simultaneous

/-! One round over a text: its splices are nested like their scopes, and the accepted ones are made at once. -/

namespace CallersFirst

section Round

variable {source : Text} {tree : SyntaxTree}

/-- The reports of a round have the splices that its analyses ask for. -/
theorem filterMap_splice_reports (source : Text) (options : OrderingSettings) (tree : SyntaxTree) :
    ((reorder source options tree).reports source).filterMap (·.splice) =
      (analyzeTree source options tree).filterMap (·.splice?) := by
  -- A report shows the splice of its analysis.
  rw [Outcome.reports, List.filterMap_map]
  rfl

/-- The accepted splices of a well-formed tree with filled parts stand apart, from back to front. -/
theorem accepted_spec_of_analyzeTree (options : OrderingSettings)
    (wellFormed : tree.root.IsWellFormed source) (filled : tree.root.PartsFilled) :
    let accepted := Splice.accepted [] ((analyzeTree source options tree).filterMap (·.splice?))
    (Splice.backToFront accepted).Perm accepted ∧
      (Splice.backToFront accepted).Pairwise (fun later earlier => earlier.span.stop ≤ later.span.start) ∧
      ∀ splice ∈ Splice.backToFront accepted, splice.span.Fits source := by
  intro accepted
  have perm : (Splice.backToFront accepted).Perm accepted := List.mergeSort_perm _ _
  -- Every accepted splice is one that a scope asks for, and so fits the text and is not empty.
  obtain ⟨part, _, apart⟩ := Splice.accepted_spec [] ((analyzeTree source options tree).filterMap (·.splice?))
  have known : ∀ splice ∈ accepted, splice.KeepsInk source ∧ splice.span.start < splice.span.stop :=
    fun splice member => keepsInk_of_analyzeTree wellFormed filled (part.subset member)
  refine ⟨perm, Splice.pairwise_backToFront apart fun splice member => (known splice member).2, ?_⟩
  exact fun splice member => (known splice (perm.mem_iff.1 member)).1.fits

/--
A round replaces the spans of the accepted splices and nothing else.

The accepted splices do not overlap. Made from back to front, each of them finds its span within the
text as it is then, and together they give the old text with all their spans replaced at once. Every
splice is accepted or left for a later round, and the text changes exactly if there is a splice.
-/
theorem reorder_madeAtOnce (options : OrderingSettings) (wellFormed : tree.root.IsWellFormed source)
    (filled : tree.root.PartsFilled) :
    let outcome := reorder source options tree
    let splices := (outcome.reports source).filterMap (·.splice)
    let accepted := Splice.accepted [] splices
    accepted.Pairwise (fun first second => ¬ first.span.overlaps second.span) ∧
    (∀ done splice rest, Splice.backToFront accepted = done ++ splice :: rest →
      ∃ current, Splice.applyAll? done source = some current ∧ splice.span.Fits current) ∧
    (∀ text, outcome.newText = some text → ∃ ordered : List Splice, ordered.Perm accepted ∧
      ordered.Pairwise (fun first second => first.span.stop ≤ second.span.start) ∧
      (∀ splice ∈ ordered, splice.span.Fits source) ∧ text = Splice.madeAtOnce source 0 ordered) ∧
    accepted.length + outcome.deferred = splices.length ∧
    (outcome.newText = none ↔ ∀ report ∈ outcome.reports source, report.splice = none) := by
  intro outcome splices accepted
  have same : splices = (analyzeTree source options tree).filterMap (·.splice?) :=
    filterMap_splice_reports source options tree
  obtain ⟨perm, backToFront, fits⟩ : (Splice.backToFront accepted).Perm accepted ∧
      (Splice.backToFront accepted).Pairwise (fun later earlier => earlier.span.stop ≤ later.span.start) ∧
      ∀ splice ∈ Splice.backToFront accepted, splice.span.Fits source := by
    have spec := accepted_spec_of_analyzeTree options wellFormed filled
    rwa [← same] at spec
  have made : Splice.applyAll? (Splice.backToFront accepted) source =
      some (Splice.madeAtOnce source 0 (Splice.backToFront accepted).reverse) :=
    Splice.applyAll?_eq_madeAtOnce backToFront fits
  -- The new text is what making the accepted splices gives, if there are any.
  have newText : outcome.newText = if accepted.isEmpty then none else
      some (Splice.madeAtOnce source 0 (Splice.backToFront accepted).reverse) := by
    rw [← made]
    simp only [outcome, accepted, same, reorder]
  refine ⟨(Splice.accepted_spec [] splices).2.2, ?_, ?_, ?_, ?_⟩
  · exact fun done splice rest shape => Splice.exists_current_of_backToFront backToFront fits shape
  · intro text changed
    refine ⟨(Splice.backToFront accepted).reverse, (List.reverse_perm _).trans perm,
      List.pairwise_reverse.2 backToFront, fun splice member => fits splice (List.mem_reverse.1 member), ?_⟩
    rw [newText] at changed
    split at changed
    · cases changed
    · exact (Option.some.inj changed).symm
  · have counted := Splice.length_accepted_add_length_deferred [] splices
    simpa only [outcome, accepted, reorder, same] using counted
  · -- Without an accepted splice there is none at all, since the first one is always accepted.
    have none_iff : outcome.newText = none ↔ accepted = [] := by
      rw [newText]
      by_cases empty : accepted = []
      · simp [empty]
      · simp [empty]
    rw [none_iff, Splice.accepted_nil_eq_nil_iff]
    simp only [splices, List.filterMap_eq_nil_iff]

end Round

/-- A scope none of whose children defines anything asks for no splice. -/
theorem Scope.splice?_eq_none {source : Text} {scope : Scope} (free : ∀ child ∈ scope.node.children,
    child.statementKind ∉ [.functionDeclaration, .variableDeclaration, .exported, .method]) :
    (scope.analyze source).splice? = none := by
  have undefined : ∀ {child preceding definition}, Extraction.IsPlaceIn scope child preceding →
      child.definition? source scope.kind ≠ some definition := by
    intro child preceding definition place defined
    rw [Node.definition?_eq_none (free child (place.mem_children child (List.mem_cons_self ..)))] at defined
    cases defined
  -- Without definitions nothing is extracted, so there is nothing to put in order.
  have nothing : scope.extract source = [] :=
    List.eq_nil_iff_forall_not_mem.2 (Extraction.forall_extract (motive := fun _ => False)
      (fun child preceding definition place defined => undefined place defined)
      (fun latest child preceding definition found _ _ => found))
  simp only [Scope.analyze, Scope.resolvedUnits, nothing]
  rfl

/-! Two functions, the callee first, and the caller with two functions inside that call one another likewise. -/

namespace Sample

/-- Settings under which the bodies of functions are scopes. -/
def nestedOptions : OrderingSettings :=
  { nestedScopes := true }

/-- The text with a caller that has functions inside. -/
def nestedSource : Text :=
  "function b()\x7b\x7dfunction a()\x7bfunction d()\x7b\x7dfunction c()\x7bd()\x7db()\x7d\n".toList

/-- The body of the caller. -/
def callerBody : Node :=
  body 26 62 [declaration 27 41 [], declaration 41 58 [call 54], call 58]

/-- The tree of the text with a caller that has functions inside. -/
def nestedTree : SyntaxTree :=
  ⟨⟨"program", true, ⟨0, 63⟩, none, [declaration 0 14 [], declaration 14 62
    [declaration 27 41 [], declaration 41 58 [call 54], call 58]]⟩, false⟩

/-- The program as a scope. -/
def outerScope : Scope :=
  ⟨.program, nestedTree.root, none⟩

/-- The body of the caller as a scope. -/
def innerScope : Scope :=
  ⟨.block, callerBody, none⟩

/-- The splice that puts the caller first. -/
def outerSplice : Splice :=
  ⟨⟨0, 62⟩, "function a()\x7bfunction d()\x7b\x7dfunction c()\x7bd()\x7db()\x7d\n\nfunction b()\x7b\x7d".toList⟩

/-- The splice that puts the inner caller first. -/
def innerSplice : Splice :=
  ⟨⟨27, 58⟩, "function c()\x7bd()\x7d\n\nfunction d()\x7b\x7d".toList⟩

/-- The text after the first round. -/
def nestedSorted : Text :=
  "function a()\x7bfunction d()\x7b\x7dfunction c()\x7bd()\x7db()\x7d\n\nfunction b()\x7b\x7d\n".toList

/-- The tree with functions inside the caller is well-formed. -/
theorem isWellFormed_nestedTree : nestedTree.root.IsWellFormed nestedSource := by
  decide +kernel

/-- The scopes are the program and the four function bodies. -/
theorem discover_nestedTree : Scope.discover nestedSource nestedOptions nestedTree.root =
    [outerScope, ⟨.block, body 12 14 [], none⟩, innerScope, ⟨.block, body 39 41 [], none⟩,
      ⟨.block, body 53 58 [call 54], none⟩] := by
  rfl

/-- The units of the program are the callee and the caller. -/
theorem resolvedUnits_outerScope : outerScope.resolvedUnits nestedSource =
    [⟨"b", .declaration, ⟨0, 14⟩, [], []⟩, ⟨"a", .declaration, ⟨14, 62⟩, [], ["b"]⟩] := by
  -- The functions inside the caller's body are no children of the program, so two units are extracted.
  have extracted : outerScope.extract nestedSource =
      [⟨⟨"b", .declaration, ⟨0, 14⟩, [], []⟩, [body 12 14 []]⟩,
        ⟨⟨"a", .declaration, ⟨14, 62⟩, [], []⟩, [callerBody]⟩] := by
    have outside : ScopeKind.program ≠ .classBody := by decide
    simp only [Scope.extract, outerScope, nestedTree, Extraction.scan,
      definition?_declaration nestedSource outside]
    rfl
  rw [Scope.resolvedUnits, extracted]
  rfl

/-- The units of the caller's body are the two functions inside it. -/
theorem resolvedUnits_innerScope : innerScope.resolvedUnits nestedSource =
    [⟨"d", .declaration, ⟨27, 41⟩, [], []⟩, ⟨"c", .declaration, ⟨41, 58⟩, [], ["d"]⟩] := by
  -- Neither the braces nor the call define anything.
  have opening : (token "\x7b" 26 27).definition? nestedSource .block = none :=
    Node.definition?_eq_none (by decide)
  have calling : (call 58).definition? nestedSource .block = none := Node.definition?_eq_none (by decide)
  have closing : (token "\x7d" 61 62).definition? nestedSource .block = none :=
    Node.definition?_eq_none (by decide)
  have extracted : innerScope.extract nestedSource =
      [⟨⟨"d", .declaration, ⟨27, 41⟩, [], []⟩, [body 39 41 []]⟩,
        ⟨⟨"c", .declaration, ⟨41, 58⟩, [], []⟩, [body 53 58 [call 54]]⟩] := by
    have outside : ScopeKind.block ≠ .classBody := by decide
    simp only [Scope.extract, innerScope, callerBody, body, List.cons_append, List.nil_append,
      Extraction.scan, opening, calling, closing, definition?_declaration nestedSource outside]
    rfl
  rw [Scope.resolvedUnits, extracted]
  rfl

/-- The program asks for the splice that puts the caller first. -/
theorem splice?_outerScope : (outerScope.analyze nestedSource).splice? = some outerSplice := by
  have units : (CallGraph.build [⟨"b", .declaration, ⟨0, 14⟩, [], []⟩,
      ⟨"a", .declaration, ⟨14, 62⟩, [], ["b"]⟩]).readableOrder = ["a", "b"] := by cbv
  rw [ScopeAnalysis.splice?_eq_some_iff, Scope.planned_eq isWellFormed_nestedTree]
  simp only [ScopeAnalysis.arrangement, Scope.analyze, resolvedUnits_outerScope, units]
  decide +kernel

/-- The body of the caller asks for the splice that puts the inner caller first. -/
theorem splice?_innerScope : (innerScope.analyze nestedSource).splice? = some innerSplice := by
  have units : (CallGraph.build [⟨"d", .declaration, ⟨27, 41⟩, [], []⟩,
      ⟨"c", .declaration, ⟨41, 58⟩, [], ["d"]⟩]).readableOrder = ["c", "d"] := by cbv
  have wellFormed : innerScope.node.IsWellFormed nestedSource := by decide +kernel
  -- On a well-formed tree planning is a matter of the arrangement alone, which can be computed.
  rw [ScopeAnalysis.splice?_eq_some_iff, Scope.planned_eq wellFormed]
  simp only [ScopeAnalysis.arrangement, Scope.analyze, resolvedUnits_innerScope, units]
  decide +kernel

/-- Two of the scopes ask for a splice. -/
theorem splices_nestedTree :
    (analyzeTree nestedSource nestedOptions nestedTree).filterMap (·.splice?) = [outerSplice, innerSplice] := by
  -- The three bodies without definitions ask for nothing.
  have first : ((Scope.mk .block (body 12 14 []) none).analyze nestedSource).splice? = none :=
    Scope.splice?_eq_none (by decide)
  have third : ((Scope.mk .block (body 39 41 []) none).analyze nestedSource).splice? = none :=
    Scope.splice?_eq_none (by decide)
  have last : ((Scope.mk .block (body 53 58 [call 54]) none).analyze nestedSource).splice? = none :=
    Scope.splice?_eq_none (by decide)
  simp only [analyzeTree, discover_nestedTree, List.map_cons, List.map_nil, List.filterMap_cons,
    List.filterMap_nil, splice?_outerScope, splice?_innerScope, first, third, last]

end Sample

/-- The round over the nested sample makes the outer splice, and leaves the inner one. -/
theorem reorder_madeAtOnce_nested :
    let outcome := reorder Sample.nestedSource Sample.nestedOptions Sample.nestedTree
    outcome.newText = some Sample.nestedSorted ∧ outcome.deferred = 1 ∧
      ∃ ordered : List Splice, ordered.Perm [Sample.outerSplice] ∧
        Sample.nestedSorted = Splice.madeAtOnce Sample.nestedSource 0 ordered := by
  intro outcome
  have filled : Sample.nestedTree.root.PartsFilled := by decide +kernel
  obtain ⟨_, _, made, counted, _⟩ := reorder_madeAtOnce Sample.nestedOptions
    Sample.isWellFormed_nestedTree filled
  have changed : outcome.newText = some Sample.nestedSorted := by
    simp only [outcome, reorder, Sample.splices_nestedTree]
    decide +kernel
  obtain ⟨ordered, perm, _, _, same⟩ := made _ changed
  -- The outer splice comes first, and it leaves no room for the inner one.
  rw [filterMap_splice_reports, Sample.splices_nestedTree] at perm counted
  rw [show Splice.accepted [] [Sample.outerSplice, Sample.innerSplice] = [Sample.outerSplice] by decide]
    at perm counted
  exact ⟨changed, Nat.add_left_cancel counted, ordered, perm, same⟩

namespace Scope

section Nested

variable {source : Text} {outer inner : Scope} {outerSplice innerSplice : Splice}

/-- Scopes that stand apart ask for splices that do. -/
theorem not_overlaps_of_apart (outerFormed : outer.node.IsWellFormed source)
    (innerFormed : inner.node.IsWellFormed source)
    (outerPlanned : (outer.analyze source).planned = .ok (some outerSplice))
    (innerPlanned : (inner.analyze source).planned = .ok (some innerSplice))
    (apart : outer.node.span.stop ≤ inner.node.span.start) :
    ¬ outerSplice.span.overlaps innerSplice.span := by
  -- Each splice lies inside its own scope.
  have stops := (spans_of_analyze outerFormed outerPlanned).stop_le outerFormed.isPlaced
  have starts := (spans_of_analyze innerFormed innerPlanned).starts
  simp only [Span.overlaps, Bool.and_eq_true, decide_eq_true_eq, not_and]
  omega

/-- A splice of a nested scope lies inside that of the outer one, if the two overlap. -/
theorem inside_of_overlaps (outerFormed : outer.node.IsWellFormed source)
    (below : inner.node.IsBelow outer.node) (undeclared : inner.node.child? .declaration = none)
    (outerPlanned : (outer.analyze source).planned = .ok (some outerSplice))
    (innerPlanned : (inner.analyze source).planned = .ok (some innerSplice))
    (overlap : outerSplice.span.overlaps innerSplice.span) :
    innerSplice.span.IsInside outerSplice.span := by
  have innerFormed := outerFormed.of_mem below.mem_preorder
  -- Neither end of the outer splice falls into the inner one.
  obtain ⟨startUncut, stopUncut⟩ := isUncutAt_of_analyze outerFormed outerPlanned below undeclared
    (spans_of_analyze innerFormed innerPlanned)
  simp only [Span.overlaps, Bool.and_eq_true, decide_eq_true_eq] at overlap
  simp only [Span.IsUncutAt] at startUncut stopUncut
  exact ⟨by omega, by omega⟩

end Nested

end Scope

section Nesting

variable {source : Text} {tree : SyntaxTree}

/-- Of two scopes of a program whose splices overlap, the later one lies inside the earlier one. -/
theorem pairwise_analyzeTree (options : OrderingSettings) (wellFormed : tree.root.IsWellFormed source)
    (program : tree.root.kind = "program") :
    (analyzeTree source options tree).Pairwise fun earlier later =>
      ∀ outer inner, earlier.splice? = some outer → later.splice? = some inner →
        outer.span.overlaps inner.span →
        later.scope.node.IsBelow earlier.scope.node ∧
          (later.scope.node.child? .declaration = none → inner.span.IsInside outer.span) := by
  -- The later scope lies inside the earlier one or starts behind it.
  refine List.pairwise_map.2 ((Scope.pairwise_discover wellFormed program).imp_of_mem ?_)
  intro earlier later foundEarlier foundLater place outer inner asksOuter asksInner overlap
  have earlierFormed := wellFormed.of_mem (Scope.node_mem_preorder foundEarlier)
  have laterFormed := wellFormed.of_mem (Scope.node_mem_preorder foundLater)
  rw [ScopeAnalysis.splice?_eq_some_iff] at asksOuter asksInner
  rcases place with below | apart
  · exact ⟨below, fun undeclared =>
      Scope.inside_of_overlaps earlierFormed below undeclared asksOuter asksInner overlap⟩
  · exact absurd overlap (Scope.not_overlaps_of_apart earlierFormed laterFormed asksOuter asksInner apart)

end Nesting

namespace Sample

/-- The text with the body of a class inside a statement. -/
def straddledSource : Text :=
  "function b()\x7b\x7d\nconst a=()=>b()n()\x7b\x7dm()\x7bthis.n()\x7d\n;\n".toList

/-- A method of one letter, the label under which it is found and what follows its body. -/
def plainMethod (label : Option Field) (start bodyStop stop : Nat) (statements rest : List Node) : Node :=
  ⟨"method_definition", true, ⟨start, stop⟩, label,
    [⟨"property_identifier", true, ⟨start, start + 1⟩, some .name, []⟩,
      parentheses "formal_parameters" (start + 1), body (start + 3) bodyStop statements] ++ rest⟩

/-- A call of a method of one letter. -/
def methodCall (start : Nat) : Node :=
  ⟨"expression_statement", true, ⟨start, start + 8⟩, none,
    [⟨"call_expression", true, ⟨start, start + 8⟩, none,
      [⟨"member_expression", true, ⟨start, start + 6⟩, some .function,
        [⟨"this", true, ⟨start, start + 4⟩, some .object, []⟩, token "." (start + 4) (start + 5),
          ⟨"property_identifier", true, ⟨start + 5, start + 6⟩, some .property, []⟩]⟩,
        parentheses "arguments" (start + 6)]⟩]⟩

/-- The method that is called. -/
def calledMethod : Node :=
  plainMethod none 30 35 35 [] []

/-- The method that calls, with a semicolon on the line below it. -/
def callingMethod : Node :=
  plainMethod (some .declaration) 35 48 50 [methodCall 39] [token ";" 49 50]

/-- The body of the class, which labels the calling method as its declaration. -/
def straddledBody : Node :=
  ⟨"class_body", true, ⟨30, 50⟩, some .declaration, [calledMethod, callingMethod]⟩

/-- What the constant gives. -/
def straddledCall : Node :=
  ⟨"call_expression", true, ⟨27, 30⟩, some .body, [identifier .function 27, parentheses "arguments" 28]⟩

/-- The constant, whose statement labels the body of the class as its declaration. -/
def straddledBinding : Node :=
  ⟨"lexical_declaration", true, ⟨15, 50⟩, none,
    [token "const" 15 20,
      ⟨"variable_declarator", true, ⟨21, 30⟩, none,
        [identifier .name 21, token "=" 22 23,
          ⟨"arrow_function", true, ⟨23, 30⟩, some .value,
            [parentheses "formal_parameters" 23, token "=>" 25 27, straddledCall]⟩]⟩,
      straddledBody]⟩

/-- The tree of the text. -/
def straddledTree : SyntaxTree :=
  ⟨⟨"program", true, ⟨0, 51⟩, none, [declaration 0 14 [], straddledBinding]⟩, false⟩

/-- The program as a scope. -/
def straddledProgram : Scope :=
  ⟨.program, straddledTree.root, none⟩

/-- The body of the class as a scope. -/
def straddledClass : Scope :=
  ⟨.classBody, straddledBody, none⟩

/-- The splice that puts the constant first, up to the end of the calling method. -/
def straddledOuter : Splice :=
  ⟨⟨0, 48⟩, "const a=()=>b()n()\x7b\x7dm()\x7bthis.n()\x7d\n\nfunction b()\x7b\x7d".toList⟩

/-- The splice that puts the calling method first, together with the semicolon below it. -/
def straddledInner : Splice :=
  ⟨⟨30, 50⟩, "m()\x7bthis.n()\x7d\n;\n\nn()\x7b\x7d".toList⟩

/-- The tree with a class body inside a statement is well-formed. -/
theorem isWellFormed_straddledTree : straddledTree.root.IsWellFormed straddledSource := by
  decide +kernel

/-- The constant ends with the calling method, in front of the semicolon below it. -/
theorem resolvedUnits_straddledProgram : straddledProgram.resolvedUnits straddledSource =
    [⟨"b", .declaration, ⟨0, 14⟩, [], []⟩, ⟨"a", .expression, ⟨15, 48⟩, [], ["b"]⟩] := by
  -- The end of the statement is that of the class body, which is that of the calling method.
  have methodStop : callingMethod.statementStop straddledSource = 48 := by
    rw [Node.statementStop]
    decide +kernel
  have bodyStop : straddledBody.statementStop straddledSource = 48 := by
    rw [Node.statementStop]
    exact methodStop
  have stop : straddledBinding.statementStop straddledSource = 48 := by
    rw [Node.statementStop]
    exact bodyStop
  have bound : straddledBinding.definition? straddledSource .program =
      some ⟨"a", .expression, ⟨15, 48⟩, some straddledCall⟩ := by
    rw [Node.definition?, if_neg (by decide), Node.statementDefinition?]
    show straddledBinding.binding? straddledSource = _
    simp only [Node.binding?, stop]
    rfl
  -- The first declaration and the constant are all that is extracted.
  have extracted : straddledProgram.extract straddledSource =
      [⟨⟨"b", .declaration, ⟨0, 14⟩, [], []⟩, [body 12 14 []]⟩,
        ⟨⟨"a", .expression, ⟨15, 48⟩, [], []⟩, [straddledCall]⟩] := by
    have outside : ScopeKind.program ≠ .classBody := by decide
    simp only [Scope.extract, straddledProgram, straddledTree, Extraction.scan, bound,
      definition?_declaration straddledSource outside]
    rfl
  rw [Scope.resolvedUnits, extracted]
  rfl

/-- The calling method takes in the semicolon below it. -/
theorem resolvedUnits_straddledClass : straddledClass.resolvedUnits straddledSource =
    [⟨"n", .method, ⟨30, 35⟩, [], []⟩, ⟨"m", .method, ⟨35, 50⟩, [], ["n"]⟩] := by
  rfl

/-- The program asks for the splice that puts the constant first. -/
theorem splice?_straddledProgram :
    (straddledProgram.analyze straddledSource).splice? = some straddledOuter := by
  have order : (CallGraph.build [⟨"b", .declaration, ⟨0, 14⟩, [], []⟩,
      ⟨"a", .expression, ⟨15, 48⟩, [], ["b"]⟩]).readableOrder = ["a", "b"] := by cbv
  rw [ScopeAnalysis.splice?_eq_some_iff, Scope.planned_eq isWellFormed_straddledTree]
  simp only [ScopeAnalysis.arrangement, Scope.analyze, resolvedUnits_straddledProgram, order]
  decide +kernel

/-- The body of the class asks for the splice that puts the calling method first. -/
theorem splice?_straddledClass : (straddledClass.analyze straddledSource).splice? = some straddledInner := by
  have order : (CallGraph.build [⟨"n", .method, ⟨30, 35⟩, [], []⟩,
      ⟨"m", .method, ⟨35, 50⟩, [], ["n"]⟩]).readableOrder = ["m", "n"] := by cbv
  have wellFormed : straddledClass.node.IsWellFormed straddledSource := by decide +kernel
  -- On a well-formed tree planning is a matter of the arrangement alone, which can be computed.
  rw [ScopeAnalysis.splice?_eq_some_iff, Scope.planned_eq wellFormed]
  simp only [ScopeAnalysis.arrangement, Scope.analyze, resolvedUnits_straddledClass, order]
  decide +kernel

end Sample

end CallersFirst
