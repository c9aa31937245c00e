import CallersFirst.Proofs.Analysis
import CallersFirst.Proofs.Extraction.Ends
import Mathlib.Data.List.Chain

/-! The comments attached to a unit: the longest run above it, unless that starts behind code and a comment. -/

namespace CallersFirst

namespace Text

/-- Counting never takes away from the running count. -/
theorem le_breaksFrom (text : Text) : ∀ count offset, count ≤ breaksFrom count text offset := by
  -- Each character adds one line feed or none.
  induction text with
  | nil => simp [breaksFrom]
  | cons c rest ih =>
    intro count offset
    cases offset with
    | zero => simp [breaksFrom]
    | succ offset =>
      rw [breaksFrom]
      refine Nat.le_trans ?_ (ih _ _)
      split <;> omega

/-- A higher running count and a later offset give no fewer line feeds. -/
theorem breaksFrom_mono (text : Text) : ∀ {count more start stop : Nat}, count ≤ more → start ≤ stop →
    breaksFrom count text start ≤ breaksFrom more text stop := by
  -- The same character comes first in both, as long as both offsets reach it.
  induction text with
  | nil =>
    intro count more start stop fewer _
    simpa [breaksFrom] using fewer
  | cons c rest ih =>
    intro count more start stop fewer earlier
    cases start with
    | zero =>
      rw [show breaksFrom count (c :: rest) 0 = count by simp [breaksFrom]]
      exact Nat.le_trans fewer (le_breaksFrom _ _ _)
    | succ start =>
      obtain ⟨stop, rfl⟩ : ∃ before, stop = before + 1 := ⟨stop - 1, by omega⟩
      rw [breaksFrom, breaksFrom]
      apply ih
      · split <;> omega
      · omega

/-- Rows do not decrease along a text. -/
theorem row_mono (text : Text) {start stop : Nat} (earlier : start ≤ stop) : text.row start ≤ text.row stop :=
  breaksFrom_mono text (Nat.le_refl 0) earlier

end Text

/-- A node other than a comment that ends on the line on which another node starts. -/
def Node.IsCodeBeside (source : Text) (code node : Node) : Prop :=
  code.statementKind ≠ .comment ∧ code.stopRow source = node.startRow source

namespace Extraction

/-- Two offsets with only blanks between them, and at most one line feed among these. -/
def IsClose (source : Text) (stop start : Nat) : Prop :=
  ∃ above gap below, source = above ++ gap ++ below ∧ above.byteSize = stop ∧
    (above ++ gap).byteSize = start ∧ (∀ c ∈ gap, isBlank c) ∧ gap.count '\n' ≤ 1

/-- A run of comments that ends right above a node, with no blank line and no code in between. -/
structure IsRun (source : Text) (first : Node) (run : List Node) : Prop where
  /-- The run holds comments only. -/
  comments : ∀ note ∈ run, note.statementKind = .comment
  /-- Each comment is close to the next one, and the last is close to the node. -/
  close : (run ++ [first]).IsChain fun upper lower => IsClose source upper.span.stop lower.span.start

/--
A run of which no comment starts on a line on which code before it ends.

As a run holds no code itself, the code before one of its comments stands before the whole run.
-/
structure IsClearRun (source : Text) (first : Node) (before run : List Node) : Prop
    extends IsRun source first run where
  /-- No code before the run ends on a line on which one of its comments starts. -/
  clear : ∀ note ∈ run, ∀ code ∈ before, ¬ code.IsCodeBeside source note

/-- A run whose first comment does not start on the line on which the sibling before it ends as code. -/
structure IsOpenRun (source : Text) (first : Node) (before run : List Node) : Prop
    extends IsRun source first run where
  /-- The sibling before the run is a comment or ends on an earlier line. -/
  opens : ∀ note ∈ run.head?, ∀ sibling ∈ before.getLast?, ¬ sibling.IsCodeBeside source note

/-- A run that satisfies a rule, of which no longer one exists among the same siblings. -/
structure IsLongest (rule : List Node → List Node → Prop) (before run : List Node) : Prop where
  /-- The run satisfies the rule. -/
  holds : rule before run
  /-- Every run of the same siblings that satisfies the rule is at most as long. -/
  longest : ∀ earlier longer, earlier ++ longer = before ++ run → rule earlier longer →
    longer.length ≤ run.length

/-- A run whose first comment follows other comments on the line of the code before these. -/
def OpensBehindNotes (source : Text) (before run : List Node) : Prop :=
  ∃ earlier code notes note rest, before = earlier ++ code :: notes ∧ notes ≠ [] ∧
    (∀ between ∈ notes, between.statementKind = .comment) ∧ run = note :: rest ∧
    code.IsCodeBeside source note

/-- A sibling that the search for comments goes past on its way up from a node. -/
def GoesPast (source : Text) (first note : Node) (siblings : List Node) : Prop :=
  note.statementKind = .comment ∧ isAdjacent source note.span.stop first.span.start ∧
    ¬ trailsCode source note siblings.reverse

section Rules

variable {source : Text} {first note : Node} {before run : List Node}

/-- Offsets are adjacent exactly if they are close. -/
theorem isAdjacent_iff {stop start : Nat} : isAdjacent source stop start ↔ IsClose source stop start := by
  -- The text between the offsets is the slice that is looked at.
  constructor
  · intro adjacent
    unfold isAdjacent at adjacent
    split at adjacent
    · rename_i gap found
      obtain ⟨above, below, parts, starts, stops⟩ := Text.slice?_eq_some_iff.1 found
      simp only [Text.isBlankText, Bool.and_eq_true, List.all_eq_true, decide_eq_true_eq] at adjacent
      exact ⟨above, gap, below, parts, starts, stops, adjacent⟩
    · cases adjacent
  · rintro ⟨above, gap, below, parts, starts, stops, blank, single⟩
    rw [isAdjacent, Text.slice?_eq_some_iff.2 ⟨above, below, parts, starts, stops⟩]
    simpa [Text.isBlankText] using ⟨blank, single⟩

/-- A node trails code exactly if the nearest sibling before it is code that ends on its line. -/
theorem trailsCode_iff {siblings : List Node} :
    trailsCode source note siblings ↔ ∃ sibling ∈ siblings.head?, sibling.IsCodeBeside source note := by
  cases siblings with
  | nil => simp [trailsCode]
  | cons sibling siblings => simp [trailsCode, Node.IsCodeBeside]

/--
A comment ends an open run exactly if the search goes on past it, and the rest is an open run above it.

The search looks at the sibling before the comment. Inside of the run that sibling is a comment, so that
only the first comment of the run can trail code.
-/
theorem isOpenRun_concat_iff : IsOpenRun source first before (run ++ [note]) ↔
    GoesPast source first note (before ++ run) ∧ IsOpenRun source note before run := by
  rw [GoesPast, isAdjacent_iff, trailsCode_iff, List.head?_reverse]
  constructor
  · rintro ⟨⟨comments, close⟩, opens⟩
    obtain ⟨upper, _, meets⟩ := List.isChain_append.1 close
    have upperComments : ∀ node ∈ run, node.statementKind = .comment :=
      fun node member => comments node (List.mem_append_left _ member)
    refine ⟨⟨comments note (by simp), meets note (by simp) first (by simp), ?_⟩, ⟨upperComments, upper⟩, ?_⟩
    · -- Right above the comment stands the lowest one of the run, or else the sibling before the run.
      rintro ⟨sibling, last, beside⟩
      rcases List.eq_nil_or_concat' run with rfl | ⟨front, lowest, rfl⟩
      · rw [List.append_nil] at last
        exact opens note (by simp) sibling last beside
      · have same : lowest = sibling := by simpa [← List.append_assoc] using last
        exact beside.1 (upperComments sibling (by simp [same]))
    · -- The first comment of the run above is the first one of the whole run.
      intro node isHead
      apply opens node
      cases run with
      | nil => cases isHead
      | cons head tail => exact isHead
  · rintro ⟨⟨comment, close, clear⟩, ⟨comments, upper⟩, opens⟩
    refine ⟨⟨?_, ?_⟩, ?_⟩
    · intro node member
      rcases List.mem_append.1 member with inside | new
      · exact comments node inside
      · rw [List.mem_singleton.1 new]
        exact comment
    · refine List.isChain_append.2 ⟨upper, List.isChain_singleton _, ?_⟩
      simpa using close
    · -- Only a run of this one comment starts with it, and then the search has looked at what stands before.
      intro node isHead sibling last beside
      cases run with
      | nil =>
        obtain rfl : note = node := by simpa using isHead
        exact clear ⟨sibling, by simpa using last, beside⟩
      | cons head tail => exact opens node isHead sibling last beside

/-- No comments at all are an open run. -/
theorem isOpenRun_nil (source : Text) (first : Node) (before : List Node) : IsOpenRun source first before [] :=
  ⟨⟨by simp, List.isChain_singleton _⟩, by simp⟩

/-- What is clear of all code is clear of the sibling before it. -/
theorem IsClearRun.isOpenRun (isClear : IsClearRun source first before run) :
    IsOpenRun source first before run :=
  ⟨isClear.toIsRun, fun note isHead sibling isLast =>
    isClear.clear note (List.mem_of_mem_head? isHead) sibling (List.mem_of_mem_getLast? isLast)⟩

end Rules

section Search

variable {source : Text} {first note : Node} {before run : List Node}

/-- An open run of siblings is empty or ends with the last of them, past which the search goes on. -/
theorem IsOpenRun.eq_nil_or_goesPast {earlier siblings : List Node} (isOpen : IsOpenRun source first earlier run)
    (same : earlier ++ run = siblings ++ [note]) :
    run = [] ∨ ∃ upper, run = upper ++ [note] ∧ earlier ++ upper = siblings ∧
      GoesPast source first note siblings ∧ IsOpenRun source note earlier upper := by
  -- A run that is not empty ends with the last sibling, and the rest of it lies above.
  rcases List.eq_nil_or_concat' run with empty | ⟨upper, lowest, rfl⟩
  · exact .inl empty
  · rw [← List.append_assoc] at same
    obtain ⟨rfl, lowestSame⟩ := List.append_inj' same rfl
    obtain rfl : lowest = note := by simpa using lowestSame
    exact .inr ⟨upper, rfl, rfl, isOpenRun_concat_iff.1 isOpen⟩

/-- A comment that the search goes past makes the longest run above it longer by one. -/
theorem IsLongest.concat (known : IsLongest (IsOpenRun source note) before run)
    (past : GoesPast source first note (before ++ run)) :
    IsLongest (IsOpenRun source first) before (run ++ [note]) := by
  refine ⟨isOpenRun_concat_iff.2 ⟨past, known.holds⟩, fun earlier longer same isOpen => ?_⟩
  rw [← List.append_assoc] at same
  rcases isOpen.eq_nil_or_goesPast same with rfl | ⟨upper, rfl, above, _, upperOpen⟩
  · simp
  · -- Above the same last comment the other run is no longer than the known one.
    simpa using known.longest earlier upper above upperOpen

/-- Where the search does not go on, there is no run above the node. -/
theorem isLongest_nil (stops : ¬ GoesPast source first note before) :
    IsLongest (IsOpenRun source first) (before ++ [note]) [] := by
  refine ⟨isOpenRun_nil source first _, fun earlier longer same isOpen => ?_⟩
  rw [List.append_nil] at same
  rcases isOpen.eq_nil_or_goesPast same with rfl | ⟨_, _, _, past, _⟩
  · simp
  · exact absurd past stops

/-- The comments found above a node are the longest open run. -/
theorem exists_longest_attachedComments (source : Text) (siblings : List Node) :
    ∀ first : Node, ∃ before run, siblings.reverse = before ++ run ∧
      (attachedComments source first.span.start siblings).reverse = run.map (·.span) ∧
      IsLongest (IsOpenRun source first) before run := by
  -- The search takes the nearest sibling and goes on from there, or it stops.
  induction siblings with
  | nil =>
    intro first
    refine ⟨[], [], rfl, rfl, isOpenRun_nil source first [], fun earlier longer same _ => ?_⟩
    simp_all
  | cons candidate earlier ih =>
    intro first
    rw [attachedComments]
    split
    · rename_i attached
      obtain ⟨before, run, same, spans, known⟩ := ih candidate
      refine ⟨before, run ++ [candidate], by simp [same], by simp [spans], known.concat ?_⟩
      rw [GoesPast, ← same, List.reverse_reverse]
      simpa [and_assoc] using attached
    · rename_i stops
      refine ⟨earlier.reverse ++ [candidate], [], by simp, rfl, isLongest_nil ?_⟩
      rw [GoesPast, List.reverse_reverse]
      simpa [and_assoc] using stops

end Search

section Clear

variable {source : Text} {first code note : Node} {before run : List Node}

/-- If there is any code among siblings, then there is a last piece of it, with only comments behind. -/
theorem exists_last_code (member : code ∈ before) (isCode : code.statementKind ≠ .comment) :
    ∃ earlier last notes, before = earlier ++ last :: notes ∧ last.statementKind ≠ .comment ∧
      ∀ between ∈ notes, between.statementKind = .comment := by
  -- The first piece of code is searched for from the back.
  obtain ⟨last, found⟩ : ∃ last, before.reverse.find? (·.statementKind ≠ .comment) = some last := by
    rw [← Option.isSome_iff_exists, List.find?_isSome]
    exact ⟨code, List.mem_reverse.2 member, by simpa using isCode⟩
  obtain ⟨isLast, notes, earlier, same, comments⟩ := List.find?_eq_some_iff_append.1 found
  refine ⟨earlier.reverse, last, notes.reverse, ?_, by simpa using isLast, ?_⟩
  · rw [← List.reverse_reverse before, same]
    simp
  · intro between inside
    simpa using comments between (List.mem_reverse.1 inside)

/-- Of siblings in order and apart, an earlier one stops on no later row than a later one starts. -/
theorem stopRow_le_startRow {upper lower : List Node}
    (apart : (upper ++ lower).Pairwise fun one other => one.span.stop ≤ other.span.start)
    (isUpper : code ∈ upper) (isLower : note ∈ lower) : code.stopRow source ≤ note.startRow source :=
  Text.row_mono source ((List.pairwise_append.1 apart).2.2 code isUpper note isLower)

/-- Of siblings in order and apart, the first one starts on no later row than any other. -/
theorem head_startRow_le {rest : List Node}
    (apart : (first :: rest).Pairwise fun one other => one.span.stop ≤ other.span.start)
    (ordered : first.span.start ≤ first.span.stop) (member : note ∈ first :: rest) :
    first.startRow source ≤ note.startRow source := by
  rcases List.mem_cons.1 member with rfl | later
  · exact Nat.le_refl _
  · exact Text.row_mono source (Nat.le_trans ordered ((List.pairwise_cons.1 apart).1 note later))

/-- Of siblings in order and apart, no piece of code stops on a later row than the last one. -/
theorem stopRow_le_last {earlier notes : List Node} {last : Node}
    (apart : (earlier ++ last :: notes).Pairwise fun one other => one.span.stop ≤ other.span.start)
    (ordered : last.span.start ≤ last.span.stop)
    (comments : ∀ between ∈ notes, between.statementKind = .comment) (member : code ∈ earlier ++ last :: notes)
    (isCode : code.statementKind ≠ .comment) : code.stopRow source ≤ last.stopRow source := by
  -- The code is before the last one, is that one, or would be one of the comments.
  rcases List.mem_append.1 member with before | here
  · have stops := (List.pairwise_append.1 apart).2.2 code before last (List.mem_cons_self ..)
    exact Text.row_mono source (Nat.le_trans stops ordered)
  · rcases List.mem_cons.1 here with rfl | behind
    · exact Nat.le_refl _
    · exact absurd (comments code behind) isCode

/--
An open run is clear of all code unless its first comment follows other comments behind code.

Rows do not decrease, so that of all code the last one counts, and of all comments the first.
-/
theorem IsOpenRun.isClearRun_iff (isOpen : IsOpenRun source first before run)
    (ordered : ∀ node ∈ before ++ run, node.span.start ≤ node.span.stop)
    (apart : (before ++ run).Pairwise fun one other => one.span.stop ≤ other.span.start) :
    IsClearRun source first before run ↔ ¬ OpensBehindNotes source before run := by
  constructor
  · rintro isClear ⟨earlier, code, notes, note, rest, rfl, _, _, rfl, beside⟩
    exact isClear.clear note (List.mem_cons_self ..) code (by simp) beside
  · intro notBehind
    refine ⟨isOpen.toIsRun, fun note member code isBefore beside => ?_⟩
    obtain ⟨earlier, last, notes, rfl, isCode, comments⟩ := exists_last_code isBefore beside.1
    obtain ⟨head, rest, rfl⟩ := List.exists_cons_of_ne_nil (List.ne_nil_of_mem member)
    -- The last piece of code stops where the first comment starts, between the two given ones.
    have lastBeside : last.IsCodeBeside source head := by
      have codeFirst : code.stopRow source ≤ last.stopRow source :=
        stopRow_le_last (List.pairwise_append.1 apart).1 (ordered last (by simp)) comments isBefore beside.1
      have meets : last.stopRow source ≤ head.startRow source :=
        stopRow_le_startRow apart (by simp) (List.mem_cons_self ..)
      have headFirst : head.startRow source ≤ note.startRow source :=
        head_startRow_le (List.pairwise_append.1 apart).2.1 (ordered head (by simp)) member
      have sameRow := beside.2
      exact ⟨isCode, by omega⟩
    by_cases direct : notes = []
    · -- With nothing in between, the last piece of code is the sibling that the run was checked against.
      subst direct
      exact isOpen.opens head rfl last (by simp) lastBeside
    · exact notBehind ⟨earlier, last, notes, head, rest, rfl, direct, comments, rfl, lastBeside⟩

/-- The longest open run is the longest clear one as soon as it is clear. -/
theorem IsLongest.isLongest_clear_iff (known : IsLongest (IsOpenRun source first) before run) :
    IsLongest (IsClearRun source first) before run ↔ IsClearRun source first before run :=
  ⟨fun longest => longest.holds, fun isClear => ⟨isClear, fun earlier longer same other =>
    known.longest earlier longer same other.isOpenRun⟩⟩

end Clear

end Extraction

namespace Scope

/-- A unit that starts with a child of its scope and has a run of the children before it for its comments. -/
structure StandsBelow (scope : Scope) (unit : CallableUnit) (before run : List Node) (first : Node) : Prop where
  /-- The run ends right before the child. -/
  children : ∃ after, scope.node.children = before ++ run ++ first :: after
  /-- The unit starts where the child does. -/
  starts : unit.span.start = first.span.start
  /-- The comments of the unit are those of the run. -/
  comments : unit.comments = run.map (·.span)

open Extraction

variable {source : Text} {scope : Scope}

/-- The comments of every extracted unit are the longest open run above it. -/
theorem exists_longest_openRun (source : Text) (scope : Scope) : ∀ extracted ∈ scope.extract source,
    ∃ before run first, scope.StandsBelow extracted.unit before run first ∧
      IsLongest (IsOpenRun source first) before run := by
  refine forall_extract (motive := fun unit => ∃ before run first, scope.StandsBelow unit before run first ∧
    IsLongest (IsOpenRun source first) before run) (fun child preceding definition place _ => ?_)
    (fun latest child preceding definition known _ _ => ?_)
  · -- The comments are searched for above the child that the unit starts with.
    obtain ⟨passed, back⟩ := (leadIn_looksBack source scope.kind definition.name preceding
      ⟨child, preceding⟩ List.suffix_rfl).suffix
    obtain ⟨after, children⟩ := place
    obtain ⟨before, run, siblings, comments, longest⟩ := exists_longest_attachedComments source
      (leadIn source definition.name ⟨child, preceding⟩ preceding).preceding
      (leadIn source definition.name ⟨child, preceding⟩ preceding).node
    refine ⟨before, run, _, ⟨⟨passed.reverse ++ after, ?_⟩, rfl, comments⟩, longest⟩
    rw [← children, ← back, ← siblings]
    simp
  · -- A partner leaves the start of the unit and its comments as they are.
    obtain ⟨before, run, first, below, longest⟩ := known
    exact ⟨before, run, first, ⟨below.children, below.starts, below.comments⟩, longest⟩

/--
The comments of a unit are the longest run of comments right above it that is clear of code.

The only exception is a run that starts on the line of some code and other comments behind it. Of these
siblings the search has seen the nearest comment only, and has taken the run for a clear one.
-/
theorem comments_longestRun (wellFormed : scope.node.IsWellFormed source) :
    ∀ extracted ∈ scope.extract source, ∃ before run first,
      scope.StandsBelow extracted.unit before run first ∧
      IsLongest (IsOpenRun source first) before run ∧
      (IsLongest (IsClearRun source first) before run ↔ ¬ OpensBehindNotes source before run) := by
  intro extracted member
  obtain ⟨before, run, first, below, longest⟩ := exists_longest_openRun source scope extracted member
  refine ⟨before, run, first, below, longest, longest.isLongest_clear_iff.trans ?_⟩
  obtain ⟨after, children⟩ := below.children
  -- The siblings of a well-formed scope stand in order and apart.
  apply longest.holds.isClearRun_iff
  · intro node inside
    have isChild : node ∈ scope.node.children := by
      rw [children]
      exact List.mem_append_left _ inside
    exact (wellFormed node (Node.mem_preorder_of_mem_children isChild)).fits.ordered
  · have apart := wellFormed.isPlaced.apart
    rw [children] at apart
    exact (List.pairwise_append.1 apart).1

end Scope

/-! A call with a comment on its line, and a function below: first under more comments, then under none. -/

namespace Sample

/-- A call without arguments, closed by a semicolon. -/
def closedCall (start : Nat) : Node :=
  ⟨"expression_statement", true, ⟨start, start + 4⟩, none,
    [⟨"call_expression", true, ⟨start, start + 3⟩, none,
      [identifier .function start, parentheses "arguments" (start + 1)]⟩, token ";" (start + 3) (start + 4)]⟩

/-- A comment at a place. -/
def remark (start stop : Nat) : Node :=
  ⟨"comment", true, ⟨start, stop⟩, none, []⟩

/-- The text with comments above the function. -/
def remarkedSource : Text :=
  "b(); /* a */\n// c\n/* d */ function f()\x7b\x7d\n".toList

/-- The scope of the text with comments above the function. -/
def remarkedScope : Scope :=
  ⟨.program, ⟨"program", true, ⟨0, 41⟩, none,
    [closedCall 0, remark 5 12, remark 13 17, remark 18 25, declaration 26 40 []]⟩, none⟩

/-- The function with the comments above it. -/
def remarkedUnit : CallableUnit :=
  ⟨"f", .declaration, ⟨26, 40⟩, [⟨13, 17⟩, ⟨18, 25⟩], []⟩

/-- The text with two comments behind the call. -/
def crowdedSource : Text :=
  "b(); /* a */ /* c */\nfunction f()\x7b\x7d\n".toList

/-- The scope of the text with two comments behind the call. -/
def crowdedScope : Scope :=
  ⟨.program, ⟨"program", true, ⟨0, 36⟩, none,
    [closedCall 0, remark 5 12, remark 13 20, declaration 21 35 []]⟩, none⟩

/-- The function with the second comment behind the call. -/
def crowdedUnit : CallableUnit :=
  ⟨"f", .declaration, ⟨21, 35⟩, [⟨13, 20⟩], []⟩

/-- A call defines nothing. -/
theorem definition?_closedCall (source : Text) (start : Nat) :
    (closedCall start).definition? source .program = none :=
  Node.definition?_eq_none (by rw [show (closedCall start).statementKind = .other from rfl]; decide)

/-- A comment defines nothing. -/
theorem definition?_remark (source : Text) (start stop : Nat) :
    (remark start stop).definition? source .program = none :=
  Node.definition?_eq_none (by rw [show (remark start stop).statementKind = .comment from rfl]; decide)

/-- The function has the two comments below the line of the call. -/
theorem extract_remarkedScope :
    remarkedScope.extract remarkedSource = [⟨remarkedUnit, [body 38 40 []]⟩] := by
  have outside : ScopeKind.program ≠ .classBody := by decide
  simp only [Scope.extract, remarkedScope, Extraction.scan, definition?_closedCall, definition?_remark,
    definition?_declaration remarkedSource outside]
  rfl

/-- The function has the second of the comments behind the call. -/
theorem extract_crowdedScope : crowdedScope.extract crowdedSource = [⟨crowdedUnit, [body 33 35 []]⟩] := by
  have outside : ScopeKind.program ≠ .classBody := by decide
  simp only [Scope.extract, crowdedScope, Extraction.scan, definition?_closedCall, definition?_remark,
    definition?_declaration crowdedSource outside]
  rfl

/-- The tree with comments above the function is well-formed. -/
theorem isWellFormed_remarkedScope : remarkedScope.node.IsWellFormed remarkedSource := by
  decide +kernel

/-- The tree with two comments behind the call is well-formed. -/
theorem isWellFormed_crowdedScope : crowdedScope.node.IsWellFormed crowdedSource := by
  decide +kernel

end Sample

namespace Scope

open Extraction

/-- The sample's function has the two comments below the line of the call, which are its longest clear run. -/
theorem comments_longestRun_sample :
    Sample.remarkedScope.node.IsWellFormed Sample.remarkedSource ∧
    Sample.remarkedScope.extract Sample.remarkedSource = [⟨Sample.remarkedUnit, [Sample.body 38 40 []]⟩] ∧
    ∃ before run first, Sample.remarkedScope.StandsBelow Sample.remarkedUnit before run first ∧
      IsLongest (IsClearRun Sample.remarkedSource first) before run := by
  have extracted := Sample.extract_remarkedScope
  refine ⟨Sample.isWellFormed_remarkedScope, extracted, ?_⟩
  obtain ⟨before, run, first, below, _, clearIff⟩ :=
    comments_longestRun Sample.isWellFormed_remarkedScope _ (extracted ▸ List.mem_singleton_self _)
  refine ⟨before, run, first, below, clearIff.2 ?_⟩
  -- The run starts on the second line, on which no code ends.
  rintro ⟨earlier, code, notes, note, rest, rfl, _, _, rfl, isCode, sameRow⟩
  obtain ⟨after, children⟩ := below.children
  have isChild : code ∈ Sample.remarkedScope.node.children := by simp [children]
  have noteSpan : note.span = ⟨13, 17⟩ := (List.cons.inj below.comments).1.symm
  rw [Node.startRow, noteSpan] at sameRow
  have elsewhere : ∀ child ∈ Sample.remarkedScope.node.children, child.statementKind ≠ .comment →
      child.stopRow Sample.remarkedSource ≠ Sample.remarkedSource.row 13 := by decide +kernel
  exact elsewhere code isChild isCode sameRow

/--
A comment that starts on the line on which code ends is attached behind another comment on that line.

The function of the sample has the second comment behind the call, so that its comments are no clear run.
-/
theorem comment_beside_code_attached :
    Sample.crowdedScope.node.IsWellFormed Sample.crowdedSource ∧
    Sample.crowdedScope.extract Sample.crowdedSource = [⟨Sample.crowdedUnit, [Sample.body 33 35 []]⟩] ∧
    (Sample.closedCall 0).IsCodeBeside Sample.crowdedSource (Sample.remark 13 20) ∧
    ¬ ∃ before run first, Sample.crowdedScope.StandsBelow Sample.crowdedUnit before run first ∧
      IsLongest (IsClearRun Sample.crowdedSource first) before run := by
  have beside : (Sample.closedCall 0).IsCodeBeside Sample.crowdedSource (Sample.remark 13 20) :=
    ⟨by decide, by decide +kernel⟩
  refine ⟨Sample.isWellFormed_crowdedScope, Sample.extract_crowdedScope, beside, ?_⟩
  rintro ⟨before, run, first, below, longest⟩
  obtain ⟨after, children⟩ := below.children
  obtain ⟨note, rfl, noteSpan⟩ := List.map_eq_singleton_iff.1 below.comments.symm
  -- The call stands before the comment, and so before the run.
  have isBefore : Sample.closedCall 0 ∈ before := by
    have isChild : Sample.closedCall 0 ∈ before ++ [note] ++ first :: after := by
      rw [← children]
      exact List.mem_cons_self ..
    have apart := Sample.isWellFormed_crowdedScope.isPlaced.apart
    rw [children] at apart
    rcases List.mem_append.1 isChild with upper | lower
    · rcases List.mem_append.1 upper with isBefore | same
      · exact isBefore
      · rw [← List.mem_singleton.1 same] at noteSpan
        exact absurd noteSpan (by decide)
    · have stops := (List.pairwise_append.1 apart).2.2 note (by simp) _ lower
      rw [noteSpan] at stops
      exact absurd stops (by decide)
  refine longest.holds.clear note (List.mem_singleton_self _) _ isBefore ⟨beside.1, ?_⟩
  rw [Node.startRow, noteSpan]
  exact beside.2

end Scope

end CallersFirst
