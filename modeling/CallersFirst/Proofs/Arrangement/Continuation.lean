import CallersFirst.Proofs.Arrangement.Weave
import CallersFirst.Proofs.Text.Significant

/-! Units that do not end by themselves are not read together with what follows them in the new text. -/

namespace CallersFirst

/-- A unit whose text, blanks at its end left aside, can go on: it has no semicolon at its end, and no
closing brace that would end it. -/
def CallableUnit.IsOpenEnded (unit : CallableUnit) (text : Text) : Prop :=
  (unit.text text).trimEnd.getLast? ≠ some ';' ∧
    (unit.kind = .expression ∨ (unit.text text).trimEnd.getLast? ≠ some '}')

/-- An open-ended unit does not count as terminated. -/
theorem CallableUnit.IsOpenEnded.isTerminated_eq_false {unit : CallableUnit} {text : Text}
    (openEnded : unit.IsOpenEnded text) : unit.isTerminated (unit.text text) = false := by
  obtain ⟨noSemicolon, noBrace⟩ := openEnded
  unfold CallableUnit.isTerminated
  split
  · rename_i semicolon
    exact absurd semicolon noSemicolon
  · -- A closing brace ends every unit but a bound function.
    rename_i brace
    rcases noBrace with expression | other
    · simp [expression]
    · exact absurd brace other
  · rfl

/--
Looking on in two texts one after the other finds what looking on in both at once would find.

The first text must not end inside a comment.
A slash at its end counts as a continuation, so that it opens no comment with what comes behind.
-/
theorem not_mem_continuationStarts {rest behind : Text} (quiet : continuesExpression rest behind = false)
    (closed : ¬ rest.EndsInComment) {c : Char} (first : Text.IsFirstSignificant (rest ++ behind) c) :
    c ∉ continuationStarts := by
  have found := Text.nextSignificant_eq_some_iff.2 first
  unfold continuesExpression at quiet
  cases inside : rest.nextSignificant with
  | some d =>
    have harmless : d ∉ continuationStarts := by simpa [inside] using quiet
    have noSlash : d ≠ '/' := by
      rintro rfl
      exact harmless (by decide)
    -- The character found in the first text is the first one of both.
    have same := (Text.nextSignificant_eq_some_iff.1 inside).append noSlash behind
    rw [← Text.nextSignificant_eq_some_iff, found, Option.some.injEq] at same
    exact same ▸ harmless
  | none =>
    -- The first text is passed as a whole, and the second one decides.
    have passed := Text.isPassed_of_nextSignificant_eq_none inside closed
    rw [passed.nextSignificant_append] at found
    simpa [inside, found] using quiet

section Following

variable {pieces : List Text} {piece : Text} {index : Nat}

/-- What follows contains each of the pieces, with the further ones behind it. -/
theorem exists_following_eq (joiners : List Text) (found : pieces[index]? = some piece) :
    ∃ lead, following pieces joiners =
      lead ++ piece ++ following (pieces.drop (index + 1)) (joiners.drop (index + 1)) := by
  -- Every piece before the index moves into the lead, together with its joiner if there is one.
  induction pieces generalizing joiners index with
  | nil => simp at found
  | cons head tail ih =>
    cases joiners with
    | nil =>
      cases index with
      -- The first piece has an empty lead, or the joiner in front of it.
      | zero =>
        cases found
        exact ⟨[], by simp [following]⟩
      | succ index =>
        obtain ⟨lead, same⟩ := ih [] found
        exact ⟨head ++ lead, by simpa [following] using same⟩
    | cons joiner joiners =>
      cases index with
      | zero =>
        cases found
        exact ⟨joiner, by simp [following]⟩
      | succ index =>
        obtain ⟨lead, same⟩ := ih joiners found
        exact ⟨joiner ++ head ++ lead, by simp [following, same]⟩

/-- Woven pieces contain each of the pieces, with the further ones behind it. -/
theorem exists_weave_eq (joiners : List Text) (found : pieces[index]? = some piece) :
    ∃ lead, weave pieces joiners =
      lead ++ piece ++ following (pieces.drop (index + 1)) (joiners.drop index) := by
  rw [weave_eq_following]
  exact exists_following_eq ([] :: joiners) found

end Following

namespace Arrangement

/-- The part of the new text of the block behind the unit of an index. -/
def behindUnit (arrangement : Arrangement) (text : Text) (index : Nat) : Text :=
  following ((arrangement.pieces text).drop (index + 1)) ((arrangement.joiners text).drop index)

section Guard

variable {text behind : Text} {arrangement : Arrangement} {index : Nat}

/-- If no unit runs on, none of those that are not terminated is continued by what follows it. -/
theorem continuesExpression_of_runningOn? {units : List CallableUnit} {joiners : List Text}
    {unit : CallableUnit} (clear : runningOn? text behind units joiners = none)
    (found : units[index]? = some unit) (unterminated : unit.isTerminated (unit.text text) = false) :
    continuesExpression (following ((units.map (·.text text)).drop (index + 1)) (joiners.drop index)) behind =
      false := by
  -- The search goes through the units in turn, each time with one joiner fewer.
  induction units generalizing joiners index with
  | nil => simp at found
  | cons first rest ih =>
    rw [runningOn?] at clear
    split at clear
    · cases clear
    · rename_i quiet
      cases index with
      | zero =>
        cases found
        simpa [unterminated] using quiet
      | succ index =>
        have further := ih clear found
        rw [List.drop_drop, Nat.add_comm 1 index] at further
        exact further

/-- An arrangement that asks for a splice has no unit that runs on into the text behind the block. -/
theorem runningOn?_of_splice? {splice : Splice} (boundary : text.IsBoundary arrangement.block.stop)
    (asked : arrangement.splice? text = .ok (some splice)) :
    runningOn? text (text.slice arrangement.block.stop text.byteSize) arrangement.target
      (arrangement.joiners text) = none := by
  have behind : ((text.cut? arrangement.block.stop).map (·.2)).getD [] =
      text.slice arrangement.block.stop text.byteSize := by
    rw [Text.cut?_eq boundary, Option.map_some, Option.getD_some]
  unfold splice? at asked
  simp only [behind] at asked
  -- Neither a text that stays the same nor a unit that runs on asks for a splice.
  split at asked
  · cases asked
  · split at asked
    · cases asked
    · split at asked
      · cases asked
      · assumption

end Guard

end Arrangement

/--
In the text that a planned splice leads to, no open-ended unit is continued by what follows it.

Every unit stands at the index of its name, behind some lead and in front of the further units.
The first character behind it outside of blanks and comments, in the rest of the block and the text
behind it taken together, is no bracket, backtick, sign or slash with which an expression would go on,
unless the block ends inside a comment that starts behind the unit.
-/
theorem plan_guards_ends {text : Text} {units : List CallableUnit} {order : List String} {splice : Splice}
    (planned : plan text units order = .ok (some splice)) :
    ∃ arrangement result, arrange text units order = .ok arrangement ∧
      splice.applyTo? text = some result ∧
      ∀ unit ∈ units, ∃ index lead,
        order[index]? = some unit.name ∧
        splice.replacement = lead ++ unit.text text ++ arrangement.behindUnit text index ∧
        result = text.slice 0 splice.span.start ++ lead ++ unit.text text ++
          (arrangement.behindUnit text index ++ text.slice splice.span.stop text.byteSize) ∧
        (unit.IsOpenEnded text → ¬ (arrangement.behindUnit text index).EndsInComment →
          ∀ c, Text.IsFirstSignificant
              (arrangement.behindUnit text index ++ text.slice splice.span.stop text.byteSize) c →
            c ∉ ['(', '[', '\x60', '+', '-', '/']) := by
  obtain ⟨arrangement, arranged, some_unit, rfl, _⟩ := exists_arrangement_of_plan planned
  obtain ⟨_, _, _, _, perm, named⟩ := arrange_eq_ok_iff.1 arranged
  obtain ⟨sound, same⟩ := isSound_of_arrange arranged
  obtain ⟨fits, _⟩ := sound.block_spec some_unit
  have applied : (arrangement.splice text).applyTo? text = some _ := Splice.applyTo?_of_fits fits
  refine ⟨arrangement, _, arranged, applied, fun unit member => ?_⟩
  -- The unit has an index in the new order, and its text the same one among the pieces.
  obtain ⟨index, found⟩ := List.mem_iff_getElem?.1 (perm.mem_iff.2 member)
  have isPiece : (arrangement.pieces text)[index]? = some (unit.text text) := by
    rw [Arrangement.pieces, List.getElem?_map, found, Option.map_some]
  obtain ⟨lead, parts⟩ := exists_weave_eq (arrangement.joiners text) isPiece
  refine ⟨index, lead, ?_, parts, ?_, fun openEnded closed c first => ?_⟩
  · rw [← named, List.getElem?_map, found, Option.map_some]
  · rw [show (arrangement.splice text).replacement = _ from parts]
    simp [Arrangement.behindUnit]
  · -- The splice was only asked for because no unit runs on.
    have some_given : units ≠ [] := List.ne_nil_of_mem member
    rw [plan_eq some_given, arranged] at planned
    have clear := Arrangement.runningOn?_of_splice? fits.stops planned
    have quiet := Arrangement.continuesExpression_of_runningOn? clear found openEnded.isTerminated_eq_false
    exact not_mem_continuationStarts quiet closed first

namespace Sample

/-- A text with two functions, and a comment and a statement between them. -/
def looseEnds : Text :=
  "b /*(*/ ;x a".toList

/-- The function in front. -/
def firstLoose : CallableUnit :=
  ⟨"b", .expression, ⟨0, 1⟩, [], []⟩

/-- The function behind. -/
def lastLoose : CallableUnit :=
  ⟨"a", .expression, ⟨11, 12⟩, [], []⟩

/-- The two functions are listed in source order. -/
theorem inSourceOrder_looseEnds : inSourceOrder [firstLoose, lastLoose] = [firstLoose, lastLoose] := by
  simp [inSourceOrder, List.mergeSort, firstLoose, lastLoose, CallableUnit.fullStart]

/-- The two functions can change places. -/
theorem arrange_looseEnds : arrange looseEnds [firstLoose, lastLoose] ["a", "b"] =
    .ok ⟨[firstLoose, lastLoose], [lastLoose, firstLoose]⟩ := by
  rw [arrange_eq_ok_iff, inSourceOrder_looseEnds]
  exact ⟨by decide +kernel, by decide, rfl, by decide, .swap .., rfl⟩

/-- The splice makes them do so, and leaves alone what stands between them. -/
theorem plan_looseEnds : plan looseEnds [firstLoose, lastLoose] ["a", "b"] =
    .ok (some ⟨⟨0, 12⟩, "a /*(*/ ;x b".toList⟩) := by
  rw [plan_eq (by simp), arrange_looseEnds]
  decide +kernel

end Sample

/-- In the sample the parenthesis in the comment does no harm to the function moved to the front. -/
theorem plan_guards_ends_sample :
    Sample.lastLoose.IsOpenEnded Sample.looseEnds ∧ ¬ Text.EndsInComment " /*(*/ ;x b".toList ∧
      ∀ c, Text.IsFirstSignificant " /*(*/ ;x b".toList c → c ∉ ['(', '[', '\x60', '+', '-', '/'] := by
  have openEnded : Sample.lastLoose.IsOpenEnded Sample.looseEnds := by
    unfold CallableUnit.IsOpenEnded
    decide +kernel
  have closed : ¬ Text.EndsInComment " /*(*/ ;x b".toList := by
    intro ends
    exact absurd ends.nextSignificant_eq_none (by decide +kernel)
  refine ⟨openEnded, closed, ?_⟩
  obtain ⟨arrangement, result, arranged, _, guarded⟩ := plan_guards_ends Sample.plan_looseEnds
  rw [Sample.arrange_looseEnds, Except.ok.injEq] at arranged
  subst arranged
  obtain ⟨index, lead, atIndex, _, _, harmless⟩ := guarded Sample.lastLoose (by simp)
  -- Only the unit moved to the front is open-ended, so the index is the first.
  obtain rfl : index = 0 := by
    match index, atIndex with
    | 0, _ => rfl
    | 1, other => exact absurd other (by decide)
  -- Behind it stand the comment, the semicolon and the other unit.
  have rest : Arrangement.behindUnit ⟨[Sample.firstLoose, Sample.lastLoose],
      [Sample.lastLoose, Sample.firstLoose]⟩ Sample.looseEnds 0 = " /*(*/ ;x b".toList := by
    decide +kernel
  have behind : Sample.looseEnds.slice 12 Sample.looseEnds.byteSize = [] := by decide +kernel
  rw [rest, behind, List.append_nil] at harmless
  exact harmless openEnded closed

end CallersFirst
