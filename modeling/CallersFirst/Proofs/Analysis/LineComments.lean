import CallersFirst.Proofs.Analysis.Arrangement
import CallersFirst.Proofs.Arrangement.Layout

/-! Line comments, which reach up to the next line break, and what a splice puts behind them. -/

namespace CallersFirst

/-- Whether a character ends a line. -/
def isLineBreak (c : Char) : Bool :=
  c ∈ ['\n', '\r', '\u2028', '\u2029']

/-- Whether a text ends at an offset or goes on there with a line break. -/
def Text.breaksAt (text : Text) (offset : Nat) : Bool :=
  match text.cut? offset with
  | some (_, after) => after.head?.all isLineBreak
  | none => false

/-- A comment that starts with two slashes, and has no parts. -/
structure Node.IsLineComment (source : Text) (node : Node) : Prop where
  /-- The node is a comment. -/
  comment : node.statementKind = .comment
  /-- The node has no parts. -/
  whole : node.children = []
  /-- The comment starts with two slashes. -/
  slashes : ['/', '/'] <+: node.text source

instance (source : Text) (node : Node) : Decidable (node.IsLineComment source) :=
  decidable_of_iff (node.statementKind = .comment ∧ node.children = [] ∧ ['/', '/'] <+: node.text source)
    ⟨fun ⟨comment, whole, slashes⟩ => ⟨comment, whole, slashes⟩,
      fun line => ⟨line.comment, line.whole, line.slashes⟩⟩

/-- What decides is the first character behind the offset, if there is one. -/
theorem Text.breaksAt_eq {text before after : Text} {offset : Nat} (parts : text = before ++ after)
    (size : before.byteSize = offset) : text.breaksAt offset = after.head?.all isLineBreak := by
  -- The cut falls where the two parts meet.
  rw [breaksAt, cut?_eq_some_iff.2 ⟨parts, size⟩]

namespace Layout

section Breaks

variable {source : Text} {layout : List Stretch} {index : Nat} {span carrier : Span}

/-- Inside of what is kept a span is followed by what followed it before. -/
theorem breaksAt_of_inside (sound : IsSound source layout) (fits : span.Fits source)
    (filled : span.start < span.stop) (found : layout[index]? = some (.kept carrier))
    (inside : span.IsInside carrier) (further : span.stop < carrier.stop) {place : Nat}
    (placed : place? source span layout = some place) :
    (text source layout).breaksAt (place + span.length) = source.breaksAt span.stop := by
  have carrierFits := sound.fits carrier (List.mem_of_getElem? found)
  obtain ⟨front, placed', parts⟩ := exists_parts sound fits filled found inside
  rw [placed, Option.some.injEq] at placed'
  -- Both texts go on with the rest of what is kept, which is not empty.
  have more : source.slice span.stop carrier.stop ≠ [] := by
    intro empty
    have size := Text.byteSize_slice fits.stops carrierFits.stops (Nat.le_of_lt further)
    rw [empty, Text.byteSize_nil] at size
    omega
  have whole := Text.slice_parts fits.stops carrierFits.stops (Nat.le_of_lt further)
  rw [List.append_assoc] at whole
  have wholeSize := Text.byteSize_slice (Text.isBoundary_zero source) fits.stops (Nat.zero_le _)
  have ownSize := Text.byteSize_slice fits.starts fits.stops fits.ordered
  rw [Text.breaksAt_eq parts (by rw [Text.byteSize_append, ownSize, placed', Span.length]),
    Text.breaksAt_eq whole (by rw [wholeSize, Nat.sub_zero]), List.head?_append_of_ne_nil _ more,
    List.head?_append_of_ne_nil _ more]

/-- At the end of the last stretch a text ends. -/
theorem breaksAt_of_last (sound : IsSound source layout) (fits : span.Fits source)
    (filled : span.start < span.stop) (found : layout[index]? = some (.kept carrier))
    (inside : span.IsInside carrier) (whole : span.stop = carrier.stop)
    (last : layout.drop (index + 1) = []) {place : Nat}
    (placed : place? source span layout = some place) :
    (text source layout).breaksAt (place + span.length) := by
  obtain ⟨front, placed', parts⟩ := exists_parts sound fits filled found inside
  rw [placed, Option.some.injEq] at placed'
  -- Neither what is kept nor the layout goes on behind the span.
  have rest : source.slice span.stop carrier.stop = [] := by
    rw [← Text.byteSize_eq_zero, ← whole, Text.byteSize_slice fits.stops fits.stops (Nat.le_refl _),
      Nat.sub_self]
  have ownSize := Text.byteSize_slice fits.starts fits.stops fits.ordered
  rw [Text.breaksAt_eq parts (by rw [Text.byteSize_append, ownSize, placed', Span.length]), rest, last]
  rfl

end Breaks

end Layout

/-- No node of a well-formed tree starts or stops inside a node that has no parts. -/
theorem Node.IsWellFormed.isUncutAt_leaf {source : Text} {root leaf part : Node}
    (wellFormed : root.IsWellFormed source) (isLeaf : leaf ∈ root.preorder) (whole : leaf.children = [])
    (isPart : part ∈ root.preorder) :
    leaf.span.IsUncutAt part.span.start ∧ leaf.span.IsUncutAt part.span.stop := by
  have leafOrdered := (wellFormed leaf isLeaf).fits.ordered
  have partOrdered := (wellFormed part isPart).fits.ordered
  -- The two nodes are nested one way or the other, or stand apart.
  simp only [Span.IsUncutAt]
  rcases wellFormed.nested_or_apart isLeaf isPart with inPart | inLeaf | before | behind
  · have inside := (wellFormed.of_mem isPart).span_inside inPart
    omega
  · -- A node without parts holds no node but itself.
    have same : part = leaf := by
      rcases mem_preorder_iff.1 inLeaf with same | ⟨child, isChild, _⟩
      · exact same
      · rw [whole] at isChild
        cases isChild
    rw [same]
    omega
  · omega
  · omega

/-- The text of a line comment is not blank, since it starts with slashes. -/
theorem Node.IsLineComment.not_isBlankText {source : Text} {node : Node} (line : node.IsLineComment source) :
    ¬ (node.text source).isBlankText := by
  -- A slash is no blank.
  obtain ⟨rest, same⟩ := line.slashes
  have slash : isBlank '/' = false := by decide
  simp [← same, Text.isBlankText, slash]

namespace Scope

section Comments

variable {source : Text} {options : OrderingSettings} {tree : SyntaxTree} {scope : Scope}

/-- No unit starts or stops inside a node that has no parts. -/
theorem isUncutAt_units (wellFormed : tree.root.IsWellFormed source)
    (found : scope ∈ Scope.discover source options tree.root) {leaf : Node}
    (isLeaf : leaf ∈ tree.root.preorder) (whole : leaf.children = []) :
    ∀ unit ∈ (scope.analyze source).graph.units,
      leaf.span.IsUncutAt unit.fullStart ∧ leaf.span.IsUncutAt unit.span.stop := by
  intro unit member
  have inTree : ∀ child ∈ scope.node.children, child ∈ tree.root.preorder := fun child isChild =>
    Node.mem_preorder_trans (Node.mem_preorder_of_mem_children isChild) (node_mem_preorder found)
  -- A unit starts where a child of the scope does, and stops where some node in a child does.
  obtain ⟨⟨first, isFirst, starts⟩, last, isLast, definition, defined, stops⟩ := frames_of_mem_units member
  obtain ⟨part, inLast, partStops⟩ := Node.definition?_stop defined
  have isPart := Node.mem_preorder_trans inLast (inTree last isLast)
  rw [starts, stops, partStops]
  exact ⟨(wellFormed.isUncutAt_leaf isLeaf whole (inTree first isFirst)).1,
    (wellFormed.isUncutAt_leaf isLeaf whole isPart).2⟩

/--
A line comment stays the end of its line, unless a unit starts or stops right behind it.

The comment stands in the new text, wherever the unit around it has moved, and what follows it there is a
line break or the end of the text.
-/
theorem breaksAt_lineComment {splice : Splice} (wellFormed : tree.root.IsWellFormed source)
    (found : scope ∈ Scope.discover source options tree.root)
    (planned : (scope.analyze source).planned = .ok (some splice)) {comment : Node}
    (member : comment ∈ tree.root.preorder) (line : comment.IsLineComment source)
    (breaks : source.breaksAt comment.span.stop)
    (clear : ∀ unit ∈ (scope.analyze source).graph.units,
      unit.fullStart ≠ comment.span.stop ∧ unit.span.stop ≠ comment.span.stop) :
    let layout := (scope.analyze source).arrangement.layout source
    splice.applyTo? source = some (Layout.text source layout) ∧ Layout.IsSound source layout ∧
      ∃ place, Layout.place? source comment.span layout = some place ∧
        (Layout.text source layout).slice place (place + comment.span.length) = comment.text source ∧
        (Layout.text source layout).breaksAt (place + comment.span.length) := by
  intro layout
  have formed := wellFormed.of_mem (node_mem_preorder found)
  obtain ⟨some_unit, rfl⟩ := splice_eq_of_analyze formed planned
  have sound := (arrangement_isSound formed).1
  have layoutSound := sound.isSound_layout some_unit
  have fits := (wellFormed comment member).fits
  have filled := fits.lt_of_ink line.not_isBlankText
  -- The comment lies in one of the units, or else in a margin, and is kept as a whole.
  obtain ⟨index, carried⟩ : ∃ index, Layout.CarriesAt layout index comment.span := by
    by_cases inside : ∃ unit ∈ (scope.analyze source).graph.units, comment.span.IsInside unit.fullSpan
    · obtain ⟨unit, isUnit, inside⟩ := inside
      obtain ⟨index, placed⟩ := List.mem_iff_getElem?.1 (sound.perm.mem_iff.2 isUnit)
      exact ⟨_, sound.carriesAt_unit some_unit placed inside⟩
    · exact ⟨_, sound.carriesAt_margin some_unit fits line.not_isBlankText
        (isUncutAt_units wellFormed found member line.whole)
        fun unit isUnit isInside => inside ⟨unit, isUnit, isInside⟩⟩
  obtain ⟨place, placed, same⟩ := Layout.exists_place layoutSound fits filled carried
  refine ⟨sound.applyTo?_splice some_unit, layoutSound, place, placed, same, ?_⟩
  obtain ⟨carrier, isCarrier, inside⟩ := carried
  -- What is kept goes on behind the comment, unless a unit or the text ends there.
  by_cases whole : comment.span.stop = carrier.stop
  · rcases sound.stop_of_kept some_unit isCarrier with ⟨unit, isUnit, edge⟩ | ⟨_, last⟩
    · have apart := clear unit isUnit
      omega
    · exact Layout.breaksAt_of_last layoutSound fits filled isCarrier inside whole last placed
  · have further : comment.span.stop < carrier.stop := by
      have stops := inside.2
      omega
    rw [Layout.breaksAt_of_inside layoutSound fits filled isCarrier inside further placed]
    exact breaks

end Comments

end Scope

/-! Two functions on one line, the callee first and below a comment. -/

namespace Sample

/-- The text with a comment above the callee. -/
def notedSource : Text :=
  "// c\nfunction b()\x7b\x7dfunction a()\x7bb()\x7d\n".toList

/-- The comment above the callee. -/
def note : Node :=
  ⟨"comment", true, ⟨0, 4⟩, none, []⟩

/-- The tree of the text with a comment above the callee. -/
def notedTree : SyntaxTree :=
  ⟨⟨"program", true, ⟨0, 37⟩, none, [note, declaration 5 19 [], declaration 19 36 [call 32]]⟩, false⟩

/-- The only scope of that tree. -/
def notedScope : Scope :=
  ⟨.program, notedTree.root, none⟩

/-- The splice that moves the callee and its comment behind the caller. -/
def notedSplice : Splice :=
  ⟨⟨0, 36⟩, "function a()\x7bb()\x7d\n\n// c\nfunction b()\x7b\x7d".toList⟩

/-- The tree with a comment above its callee is well-formed. -/
theorem isWellFormed_notedTree : notedTree.root.IsWellFormed notedSource := by
  decide +kernel

/-- The comment belongs to the callee. -/
theorem resolvedUnits_notedScope : notedScope.resolvedUnits notedSource =
    [⟨"b", .declaration, ⟨5, 19⟩, [⟨0, 4⟩], []⟩, ⟨"a", .declaration, ⟨19, 36⟩, [], ["b"]⟩] := by
  have outside : ScopeKind.program ≠ .classBody := by decide
  have noted : note.definition? notedSource .program = none := Node.definition?_eq_none (by decide)
  -- The comment on the line before is taken in with the first function.
  have extracted : notedScope.extract notedSource =
      [⟨⟨"b", .declaration, ⟨5, 19⟩, [⟨0, 4⟩], []⟩, [body 17 19 []]⟩,
        ⟨⟨"a", .declaration, ⟨19, 36⟩, [], []⟩, [body 31 36 [call 32]]⟩] := by
    simp only [Scope.extract, notedScope, notedTree, Extraction.scan, noted,
      definition?_declaration notedSource outside]
    rfl
  rw [Scope.resolvedUnits, extracted]
  rfl

/-- The splice for the scope moves the callee together with its comment. -/
theorem planned_notedScope : (notedScope.analyze notedSource).planned = .ok (some notedSplice) := by
  have order : (CallGraph.build [⟨"b", .declaration, ⟨5, 19⟩, [⟨0, 4⟩], []⟩,
      ⟨"a", .declaration, ⟨19, 36⟩, [], ["b"]⟩]).readableOrder = ["a", "b"] := by cbv
  rw [Scope.planned_eq isWellFormed_notedTree]
  simp only [ScopeAnalysis.arrangement, Scope.analyze, resolvedUnits_notedScope, order]
  decide +kernel

end Sample

/-- The comment of the sample goes with the callee, and has its line for itself there as well. -/
theorem Scope.breaksAt_lineComment_sample :
    Sample.notedSplice.applyTo? Sample.notedSource =
      some "function a()\x7bb()\x7d\n\n// c\nfunction b()\x7b\x7d\n".toList ∧
    ∃ text place, Sample.notedSplice.applyTo? Sample.notedSource = some text ∧
      text.slice place (place + 4) = "// c".toList ∧ text.breaksAt (place + 4) := by
  have found : Sample.notedScope ∈ Scope.discover Sample.notedSource {} Sample.notedTree.root :=
    List.mem_cons_self ..
  have line : Sample.note.IsLineComment Sample.notedSource := by decide +kernel
  -- Both units start and stop elsewhere.
  have clear : ∀ unit ∈ (Sample.notedScope.analyze Sample.notedSource).graph.units,
      unit.fullStart ≠ Sample.note.span.stop ∧ unit.span.stop ≠ Sample.note.span.stop := by
    rw [Scope.analyze, Sample.resolvedUnits_notedScope]
    decide
  have isNote : Sample.note ∈ Sample.notedTree.root.preorder :=
    Node.mem_preorder_of_mem_children (List.mem_cons_self ..)
  obtain ⟨applied, _, place, _, same, breaks⟩ := Scope.breaksAt_lineComment Sample.isWellFormed_notedTree found
    Sample.planned_notedScope isNote line (by decide +kernel) clear
  refine ⟨by decide +kernel, _, place, applied, same.trans (by decide +kernel), breaks⟩

/-! Two constants, the callee first and with a comment between its value and a semicolon on the next line. -/

namespace Sample

/-- An arrow function without parameters. -/
def arrow (start stop : Nat) (result : Node) : Node :=
  ⟨"arrow_function", true, ⟨start, stop⟩, some .value,
    [parentheses "formal_parameters" start, token "=>" (start + 3) (start + 5), result]⟩

/-- A constant with a function for its value, and what follows the value in the statement. -/
def binding (start stop : Nat) (value : Node) (rest : List Node) : Node :=
  ⟨"lexical_declaration", true, ⟨start, stop⟩, none,
    [token "const" start (start + 5), ⟨"variable_declarator", true, ⟨start + 6, value.span.stop⟩, none,
      [identifier .name (start + 6), token "=" (start + 8) (start + 9), value]⟩] ++ rest⟩

/-- A name of one letter without a role. -/
def word (start : Nat) : Node :=
  ⟨"identifier", true, ⟨start, start + 1⟩, none, []⟩

/-- The text with a comment in front of a semicolon. -/
def guardedSource : Text :=
  "const b = () => 1 // c\n;[x]\nconst a = () => b(); y\n".toList

/-- The comment in front of the semicolon. -/
def guardedNote : Node :=
  ⟨"comment", true, ⟨18, 22⟩, none, []⟩

/-- What the callee gives. -/
def one : Node :=
  ⟨"number", true, ⟨16, 17⟩, some .body, []⟩

/-- What the caller gives. -/
def calling : Node :=
  ⟨"call_expression", true, ⟨44, 47⟩, some .body, [identifier .function 44, parentheses "arguments" 45]⟩

/-- The callee, up to the semicolon. -/
def calleeBinding : Node :=
  binding 0 24 (arrow 10 17 one) [guardedNote, token ";" 23 24]

/-- The caller. -/
def callerBinding : Node :=
  binding 28 48 (arrow 38 47 calling) [token ";" 47 48]

/-- The statement between the two. -/
def listing : Node :=
  ⟨"expression_statement", true, ⟨24, 27⟩, none,
    [⟨"array", true, ⟨24, 27⟩, none, [token "[" 24 25, word 25, token "]" 26 27]⟩]⟩

/-- The statement on the line of the caller. -/
def mention : Node :=
  ⟨"expression_statement", true, ⟨49, 50⟩, none, [word 49]⟩

/-- The tree of the text with a comment in front of a semicolon. -/
def guardedTree : SyntaxTree :=
  ⟨⟨"program", true, ⟨0, 51⟩, none, [calleeBinding, listing, callerBinding, mention]⟩, false⟩

/-- The only scope of that tree. -/
def guardedScope : Scope :=
  ⟨.program, guardedTree.root, none⟩

/-- The splice that puts the caller first. -/
def guardedSplice : Splice :=
  ⟨⟨0, 48⟩, "const a = () => b();\n;[x]\nconst b = () => 1 // c".toList⟩

/-- The tree with a comment in front of a semicolon is well-formed. -/
theorem isWellFormed_guardedTree : guardedTree.root.IsWellFormed guardedSource := by
  decide +kernel

/-- The callee ends with the comment, and the semicolon on the next line is not a part of it. -/
theorem resolvedUnits_guardedScope : guardedScope.resolvedUnits guardedSource =
    [⟨"b", .expression, ⟨0, 22⟩, [], []⟩, ⟨"a", .expression, ⟨28, 48⟩, [], ["b"]⟩] := by
  -- The semicolon on the next line is cut off, and what is left of the statement ends with the comment.
  have calleeStop : calleeBinding.statementStop guardedSource = 22 := by
    rw [Node.statementStop]
    decide +kernel
  have callerStop : callerBinding.statementStop guardedSource = 48 := by
    rw [Node.statementStop]
    decide +kernel
  -- The two bindings are the units, and the statements between them define nothing.
  have first : calleeBinding.definition? guardedSource .program =
      some ⟨"b", .expression, ⟨0, 22⟩, some one⟩ := by
    rw [Node.definition?, if_neg (by decide), Node.statementDefinition?]
    show calleeBinding.binding? guardedSource = _
    simp only [Node.binding?, calleeStop]
    rfl
  have second : callerBinding.definition? guardedSource .program =
      some ⟨"a", .expression, ⟨28, 48⟩, some calling⟩ := by
    rw [Node.definition?, if_neg (by decide), Node.statementDefinition?]
    show callerBinding.binding? guardedSource = _
    simp only [Node.binding?, callerStop]
    rfl
  have listed : listing.definition? guardedSource .program = none := Node.definition?_eq_none (by decide)
  have mentioned : mention.definition? guardedSource .program = none := Node.definition?_eq_none (by decide)
  have extracted : guardedScope.extract guardedSource =
      [⟨⟨"b", .expression, ⟨0, 22⟩, [], []⟩, [one]⟩, ⟨⟨"a", .expression, ⟨28, 48⟩, [], []⟩, [calling]⟩] := by
    simp only [Scope.extract, guardedScope, guardedTree, Extraction.scan, first, second, listed, mentioned]
    rfl
  rw [Scope.resolvedUnits, extracted]
  rfl

/-- The caller comes first in the new arrangement. -/
theorem arrangement_guardedScope : (guardedScope.analyze guardedSource).arrangement =
    ⟨[⟨"b", .expression, ⟨0, 22⟩, [], []⟩, ⟨"a", .expression, ⟨28, 48⟩, [], ["b"]⟩],
      [⟨"a", .expression, ⟨28, 48⟩, [], ["b"]⟩, ⟨"b", .expression, ⟨0, 22⟩, [], []⟩]⟩ := by
  have order : (CallGraph.build [⟨"b", .expression, ⟨0, 22⟩, [], []⟩,
      ⟨"a", .expression, ⟨28, 48⟩, [], ["b"]⟩]).readableOrder = ["a", "b"] := by cbv
  simp only [ScopeAnalysis.arrangement, Scope.analyze, resolvedUnits_guardedScope, order]
  decide

/-- The splice for the scope is not refused. -/
theorem planned_guardedScope : (guardedScope.analyze guardedSource).planned = .ok (some guardedSplice) := by
  rw [Scope.planned_eq isWellFormed_guardedTree, arrangement_guardedScope]
  decide +kernel

end Sample

/--
A comment that ends a unit takes in what follows the unit at its new place.

Every line comment of the sample is followed by a line break, but the one that moves stands in front of
code afterwards.
-/
theorem Scope.lineComment_runs_on :
    Sample.guardedTree.root.IsWellFormed Sample.guardedSource ∧
    Sample.guardedScope ∈ Scope.discover Sample.guardedSource {} Sample.guardedTree.root ∧
    (∀ node ∈ Sample.guardedTree.root.preorder, node.IsLineComment Sample.guardedSource →
      Sample.guardedSource.breaksAt node.span.stop) ∧
    Sample.guardedNote ∈ Sample.guardedTree.root.preorder ∧
    Sample.guardedNote.IsLineComment Sample.guardedSource ∧
    (Sample.guardedScope.analyze Sample.guardedSource).planned = .ok (some Sample.guardedSplice) ∧
    Sample.guardedSplice.applyTo? Sample.guardedSource =
      some "const a = () => b();\n;[x]\nconst b = () => 1 // c y\n".toList ∧
    Layout.place? Sample.guardedSource Sample.guardedNote.span
      ((Sample.guardedScope.analyze Sample.guardedSource).arrangement.layout Sample.guardedSource) = some 44 ∧
    ¬ Text.breaksAt "const a = () => b();\n;[x]\nconst b = () => 1 // c y\n".toList
      (44 + Sample.guardedNote.span.length) := by
  refine ⟨Sample.isWellFormed_guardedTree, List.mem_cons_self .., by decide +kernel, ?_, by decide +kernel,
    Sample.planned_guardedScope, by decide +kernel, ?_, by decide +kernel⟩
  · -- The comment is a part of the statement of the callee.
    refine Node.mem_preorder_trans (Node.mem_preorder_of_mem_children ?_)
      (Node.mem_preorder_of_mem_children (List.mem_cons_self .. : Sample.calleeBinding ∈ _))
    simp [Sample.calleeBinding, Sample.binding]
  · rw [Sample.arrangement_guardedScope]
    decide +kernel

end CallersFirst
