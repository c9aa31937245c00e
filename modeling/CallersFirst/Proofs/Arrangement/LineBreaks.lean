import CallersFirst.Proofs.Arrangement.Layout
import Mathlib.Data.List.Chain

/-! A rearranged text breaks its lines in the manner of the text it comes from. -/

namespace CallersFirst

namespace Text

/-- A text in which every line feed stands behind a carriage return. -/
def IsCrlf (text : Text) : Prop :=
  ∀ before after, text = before ++ '\n' :: after → before.getLast? = some '\r'

/-- An offset between a carriage return and the line feed behind it. -/
def SplitsCrlf (text : Text) (offset : Nat) : Prop :=
  ∃ before after, text = before ++ after ∧ before.byteSize = offset ∧
    before.getLast? = some '\r' ∧ after.head? = some '\n'

section Deciding

variable {text : Text} {offset : Nat}

/-- With a character in front that ends no line, every line feed comes next to a carriage return. -/
theorem isCrlf_iff_isChain :
    text.IsCrlf ↔ (' ' :: text).IsChain fun first second => second = '\n' → first = '\r' := by
  rw [List.isChain_iff_forall_rel_of_append_cons_cons]
  constructor
  · rintro crlf first second front back shape rfl
    -- The first of the two characters is the one in front, or the one before the line feed in the text.
    cases front with
    | nil =>
      obtain ⟨_, rfl⟩ := List.cons.inj shape
      cases crlf [] back rfl
    | cons space front =>
      obtain ⟨_, rfl⟩ := List.cons.inj shape
      simpa using crlf (front ++ [first]) back (by simp)
  · rintro chain before after rfl
    obtain rfl | ⟨front, last, rfl⟩ := List.eq_nil_or_concat before
    · cases @chain _ _ [] after rfl rfl
    · have isReturn : last = '\r' := @chain _ _ (' ' :: front) after (by simp) rfl
      rw [isReturn, List.concat_eq_append, List.getLast?_concat]

instance (text : Text) : Decidable text.IsCrlf :=
  decidable_of_iff _ isCrlf_iff_isChain.symm

/-- An offset is seen to split a line break where the text is cut. -/
theorem splitsCrlf_iff_any_cut? :
    text.SplitsCrlf offset ↔
      (text.cut? offset).any fun parts => parts.1.getLast? = some '\r' && parts.2.head? = some '\n' := by
  constructor
  · rintro ⟨before, after, whole, size, last, first⟩
    rw [cut?_eq_some_iff.2 ⟨whole, size⟩]
    simp [last, first]
  · intro found
    -- An offset that cuts nothing splits nothing; otherwise the two parts are the witnesses.
    cases isCut : text.cut? offset with
    | none => simp [isCut] at found
    | some parts =>
      obtain ⟨whole, size⟩ := cut?_eq_some_iff.1 isCut
      rw [isCut, Option.any_some, Bool.and_eq_true, decide_eq_true_eq, decide_eq_true_eq] at found
      exact ⟨parts.1, parts.2, whole, size, found⟩

instance (text : Text) (offset : Nat) : Decidable (text.SplitsCrlf offset) :=
  decidable_of_iff _ splitsCrlf_iff_any_cut?.symm

end Deciding

section Joining

variable {text left right : Text} {start stop offset : Nat}

/-- Line feeds of joined texts stand in one of them, behind the same character. -/
theorem IsCrlf.append (leftCrlf : left.IsCrlf) (rightCrlf : right.IsCrlf) : Text.IsCrlf (left ++ right) := by
  intro before after same
  rcases List.append_eq_append_iff.1 same with ⟨between, rfl, rfl⟩ | ⟨between, rfl, joined⟩
  · rw [List.getLast?_append, rightCrlf between after rfl, Option.some_or]
  · cases between with
    | nil =>
      -- A line feed at the start of the right text would stand behind nothing.
      cases rightCrlf [] after joined.symm
    | cons first between =>
      obtain ⟨rfl, _⟩ := List.cons.inj joined
      exact leftCrlf before between rfl

/-- A text without line feeds has no lone one. -/
theorem isCrlf_of_not_mem (unbroken : '\n' ∉ text) : text.IsCrlf := by
  rintro before after rfl
  simp at unbroken

/-- A part of a text that starts within no line break has its carriage returns with their line feeds. -/
theorem IsCrlf.slice (crlf : text.IsCrlf) (starts : text.IsBoundary start) (stops : text.IsBoundary stop)
    (ordered : start ≤ stop) (whole : ¬ text.SplitsCrlf start) : (text.slice start stop).IsCrlf := by
  obtain ⟨front, between, back, rfl, startSize, stopSize⟩ := starts.exists_parts stops ordered
  rw [slice_eq rfl startSize stopSize]
  rintro before after rfl
  have last := crlf (front ++ before) (after ++ back) (by simp)
  obtain rfl | ⟨more, c, rfl⟩ := List.eq_nil_or_concat before
  · -- The carriage return would stand right before the part.
    refine absurd ⟨front, '\n' :: (after ++ back), by simp, startSize, ?_, rfl⟩ whole
    simpa using last
  · simpa using last

/-- The first line that ends from some place on ends with a carriage return. -/
theorem IsCrlf.getLast?_takeWhile {before after : Text} (crlf : Text.IsCrlf (before ++ after))
    (broken : '\n' ∈ after) : (before ++ after.takeWhile (· ≠ '\n')).getLast? = some '\r' := by
  -- What the line leaves of the text starts with its line feed.
  obtain ⟨line, rest, shape, unbroken⟩ := List.eq_append_cons_of_mem broken
  have isLine : after.takeWhile (· ≠ '\n') = line := by
    have within : ∀ c ∈ line, decide (c ≠ '\n') = true :=
      fun c member => decide_eq_true fun same => unbroken (same ▸ member)
    rw [shape, List.takeWhile_append_of_pos within, List.takeWhile_cons_of_neg (by simp), List.append_nil]
  rw [isLine]
  exact crlf (before ++ line) rest (by rw [shape, List.append_assoc])

/-- A cut, or the whole text in front where there is none, loses nothing. -/
theorem append_getD_cut? (text : Text) (offset : Nat) :
    ((text.cut? offset).getD (text, [])).1 ++ ((text.cut? offset).getD (text, [])).2 = text := by
  cases isCut : text.cut? offset with
  | none => simp
  | some parts => exact (cut?_eq_some_iff.1 isCut).1.symm

/-- A text that ends its lines in this manner is seen to do so wherever one looks. -/
theorem IsCrlf.usesCrlf (crlf : text.IsCrlf) (broken : '\n' ∈ text) (offset : Nat) :
    text.usesCrlf offset = true := by
  have joined := append_getD_cut? text offset
  unfold Text.usesCrlf
  generalize (text.cut? offset).getD (text, []) = parts at joined
  obtain ⟨before, after⟩ := parts
  simp only at joined ⊢
  -- Either a line ends behind the offset, or the first line of the whole text decides.
  split
  · rename_i further
    exact decide_eq_true (IsCrlf.getLast?_takeWhile (joined ▸ crlf) further)
  · simp only [broken, decide_true, Bool.true_and]
    exact decide_eq_true (@IsCrlf.getLast?_takeWhile [] text crlf broken)

/-- A text without carriage returns is seen to have none wherever one looks. -/
theorem usesCrlf_eq_false (plain : '\r' ∉ text) (offset : Nat) : text.usesCrlf offset = false := by
  have joined := append_getD_cut? text offset
  unfold Text.usesCrlf
  generalize (text.cut? offset).getD (text, []) = parts at joined
  obtain ⟨before, after⟩ := parts
  simp only at joined ⊢
  -- The last character of a line is one of the text.
  split
  · refine decide_eq_false fun last => plain ?_
    rw [← joined]
    refine List.mem_append.2 ((List.mem_append.1 (List.mem_of_getLast? last)).imp id ?_)
    exact fun member => (List.takeWhile_sublist _).subset member
  · rw [Bool.and_eq_false_iff]
    exact .inr (decide_eq_false fun last =>
      plain ((List.takeWhile_sublist _).subset (List.mem_of_getLast? last)))

/-- The characters of a part of a text are characters of the text. -/
theorem mem_of_mem_slice {c : Char} (member : c ∈ text.slice start stop) : c ∈ text := by
  unfold Text.slice at member
  -- A part that cannot be taken is empty; any other stands between a front and a back.
  cases found : text.slice? start stop with
  | none => simp [found] at member
  | some between =>
    obtain ⟨front, back, rfl, _⟩ := slice?_eq_some_iff.1 found
    rw [found, Option.getD_some] at member
    simp [member]

/-- Indentation is spaces and tabs. -/
theorem eq_of_mem_indentation {c : Char} (member : c ∈ text.indentation offset) : c = ' ' ∨ c = '\t' := by
  unfold Text.indentation at member
  simp only at member
  -- Anything but spaces and tabs in front of the offset gives no indentation at all.
  split at member
  · rename_i spaces
    simpa using List.all_eq_true.1 spaces c member
  · cases member

/-- An empty line ends in the manner of the text. -/
theorem IsCrlf.separator (crlf : text.IsCrlf) (broken : '\n' ∈ text) (offset : Nat) :
    (text.separator offset).IsCrlf := by
  have indented : (text.indentation offset).IsCrlf :=
    isCrlf_of_not_mem fun member => by rcases eq_of_mem_indentation member with same | same <;> cases same
  have pair : Text.IsCrlf ['\r', '\n'] := by decide
  simp only [Text.separator, crlf.usesCrlf broken, if_true]
  exact (pair.append pair).append indented

/-- A text without carriage returns gives a separator without them. -/
theorem not_mem_separator (plain : '\r' ∉ text) (offset : Nat) : '\r' ∉ text.separator offset := by
  intro member
  simp only [Text.separator, usesCrlf_eq_false plain, Bool.false_eq_true, if_false, List.mem_append,
    List.mem_singleton] at member
  -- Two line feeds and the indentation make the separator.
  rcases member with (same | same) | indented
  · cases same
  · cases same
  · rcases eq_of_mem_indentation indented with same | same <;> cases same

end Joining

end Text

namespace Arrangement

variable {text : Text} {arrangement : Arrangement}

/-- What is kept starts with the text or where a unit starts or stops, and only empty lines are new. -/
theorem IsSound.stretch_cases (sound : arrangement.IsSound text) (some_unit : arrangement.source ≠ [])
    {stretch : Stretch} (member : stretch ∈ arrangement.layout text) :
    (∃ span, stretch = .kept span ∧ (span.start = 0 ∨
      ∃ unit ∈ arrangement.source, span.start = unit.fullStart ∨ span.start = unit.span.stop)) ∨
    stretch = .fresh (text.separator arrangement.block.start) := by
  have length : (arrangement.margins text).length = arrangement.target.length + 1 := by
    rw [length_margins some_unit, sound.perm.length_eq]
  -- The stretches are the units in their new order with the margins around them.
  rcases List.mem_append.1 ((alternate_perm length).mem_iff.1 member) with isMargin | isUnit
  · rw [margins, List.mem_cons, List.mem_append, List.mem_singleton] at isMargin
    rcases isMargin with rfl | isGap | rfl
    · exact .inl ⟨_, rfl, .inl rfl⟩
    · obtain ⟨gap, isSpan, rfl⟩ := List.mem_map.1 isGap
      obtain ⟨unit, isUnit, _, _, rfl⟩ := exists_neighbours_of_mem_gapSpans isSpan
      unfold between
      split
      · exact .inl ⟨_, rfl, .inr ⟨unit, isUnit, .inr rfl⟩⟩
      · exact .inr rfl
    · obtain ⟨_, last, isLast, stops⟩ := block_ends some_unit
      exact .inl ⟨_, rfl, .inr ⟨last, isLast, .inr stops⟩⟩
  · obtain ⟨unit, isTarget, rfl⟩ := List.mem_map.1 isUnit
    exact .inl ⟨_, rfl, .inr ⟨unit, sound.perm.mem_iff.1 isTarget, .inl rfl⟩⟩

/-- Units that start and stop within no line break leave all line breaks as they are. -/
theorem IsSound.isCrlf_layout (sound : arrangement.IsSound text) (some_unit : arrangement.source ≠ [])
    (whole : ∀ unit ∈ arrangement.source, ¬ text.SplitsCrlf unit.fullStart ∧ ¬ text.SplitsCrlf unit.span.stop)
    (broken : '\n' ∈ text) (crlf : text.IsCrlf) : (Layout.text text (arrangement.layout text)).IsCrlf := by
  have each : ∀ stretch ∈ arrangement.layout text, (stretch.text text).IsCrlf := by
    intro stretch member
    rcases sound.stretch_cases some_unit member with ⟨span, rfl, starts⟩ | rfl
    · have fits := (sound.isSound_layout some_unit).fits span member
      refine crlf.slice fits.starts fits.stops fits.ordered ?_
      rcases starts with zero | ⟨unit, isUnit, start | stop⟩
      · -- Nothing stands before the start of the text.
        rintro ⟨before, after, _, size, last, _⟩
        rw [zero, Text.byteSize_eq_zero] at size
        simp [size] at last
      · exact start ▸ (whole unit isUnit).1
      · exact stop ▸ (whole unit isUnit).2
    · exact crlf.separator broken _
  revert each
  -- The text is all its stretches, joined.
  induction arrangement.layout text with
  | nil => exact fun _ => Text.isCrlf_of_not_mem (by simp [Layout.text])
  | cons stretch rest ih =>
    intro each
    obtain ⟨first, others⟩ := List.forall_mem_cons.1 each
    rw [Layout.text_cons]
    exact first.append (ih others)

/-- No carriage return comes into a text without any. -/
theorem IsSound.not_mem_layout (sound : arrangement.IsSound text) (some_unit : arrangement.source ≠ [])
    (plain : '\r' ∉ text) : '\r' ∉ Layout.text text (arrangement.layout text) := by
  intro found
  obtain ⟨stretch, member, inside⟩ := List.mem_flatMap.1 found
  rcases sound.stretch_cases some_unit member with ⟨span, rfl, _⟩ | rfl
  · exact plain (Text.mem_of_mem_slice inside)
  · exact Text.not_mem_separator plain _ inside

end Arrangement

/--
Rearranging keeps the line endings of a text.

If no unit starts or stops between a carriage return and its line feed, then a text with lines that all end with
both leads to such a text. A text without carriage returns leads to one without in any case.
-/
theorem plan_keeps_lineEndings {text : Text} {units : List CallableUnit} {order : List String}
    {splice : Splice} (planned : plan text units order = .ok (some splice))
    (whole : ∀ unit ∈ units, ¬ text.SplitsCrlf unit.fullStart ∧ ¬ text.SplitsCrlf unit.span.stop) :
    ∃ result, splice.applyTo? text = some result ∧
      ('\n' ∈ text → text.IsCrlf → result.IsCrlf) ∧ ('\r' ∉ text → '\r' ∉ result) := by
  obtain ⟨arrangement, arranged, some_unit, rfl, _⟩ := exists_arrangement_of_plan planned
  obtain ⟨sound, same⟩ := isSound_of_arrange arranged
  refine ⟨_, sound.applyTo?_splice some_unit, ?_, sound.not_mem_layout some_unit⟩
  exact sound.isCrlf_layout some_unit fun unit member => whole unit (same.mem_iff.1 member)

/-! Two functions on lines that end with a carriage return and a line feed. -/

namespace Sample

/-- The text with the callee first. -/
def crlfText : Text :=
  "function b(){}\r\nfunction a(){b()}\r\n".toList

/-- The two functions, as they stand. -/
def crlfUnits : List CallableUnit :=
  [⟨"b", .declaration, ⟨0, 14⟩, [], []⟩, ⟨"a", .declaration, ⟨16, 33⟩, [], ["b"]⟩]

/-- The splice that puts the caller first, with an empty line behind it. -/
def crlfSplice : Splice :=
  ⟨⟨0, 33⟩, "function a(){b()}\r\n\r\nfunction b(){}".toList⟩

/-- The units of the sample are listed in source order. -/
theorem inSourceOrder_crlfUnits : inSourceOrder crlfUnits = crlfUnits := by
  simp [inSourceOrder, List.mergeSort, crlfUnits, CallableUnit.fullStart]

/-- The splice for the sample puts the caller first, with line breaks of two characters. -/
theorem plan_crlfText : plan crlfText crlfUnits ["a", "b"] = .ok (some crlfSplice) := by
  have arranged : arrange crlfText crlfUnits ["a", "b"] = .ok ⟨crlfUnits, crlfUnits.reverse⟩ := by
    rw [arrange_eq_ok_iff, inSourceOrder_crlfUnits]
    exact ⟨by decide, by decide, rfl, by decide, List.reverse_perm _, rfl⟩
  rw [plan_eq (by simp [crlfUnits]), arranged]
  decide

end Sample

/-- In the sample the new empty line ends as the lines of the text do. -/
theorem plan_keeps_lineEndings_sample :
    '\n' ∈ Sample.crlfText ∧ Sample.crlfText.IsCrlf ∧
    plan Sample.crlfText Sample.crlfUnits ["a", "b"] = .ok (some Sample.crlfSplice) ∧
    (∀ unit ∈ Sample.crlfUnits,
      ¬ Sample.crlfText.SplitsCrlf unit.fullStart ∧ ¬ Sample.crlfText.SplitsCrlf unit.span.stop) ∧
    ∃ result, Sample.crlfSplice.applyTo? Sample.crlfText = some result ∧ result.IsCrlf := by
  have broken : '\n' ∈ Sample.crlfText := by decide
  have crlf : Sample.crlfText.IsCrlf := by decide
  -- No unit starts or stops inside of a line break.
  have whole : ∀ unit ∈ Sample.crlfUnits,
      ¬ Sample.crlfText.SplitsCrlf unit.fullStart ∧ ¬ Sample.crlfText.SplitsCrlf unit.span.stop := by
    decide
  obtain ⟨result, applied, keeps, _⟩ := plan_keeps_lineEndings Sample.plan_crlfText whole
  exact ⟨broken, crlf, Sample.plan_crlfText, whole, result, applied, keeps broken crlf⟩

end CallersFirst
