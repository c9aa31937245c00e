import CallersFirst.Proofs.Arrangement.Checks
import CallersFirst.Proofs.Splice
import Mathlib.Algebra.BigOperators.Group.List.Basic
import Mathlib.Algebra.Order.Group.Multiset
import Mathlib.Data.List.Perm.Basic
import Mathlib.Tactic.Abel

/-! An arrangement replaces a block of units by one with the same ink. -/

namespace CallersFirst

/-- Nothing stands in front of the first of woven pieces. -/
theorem weave_eq_following (pieces joiners : List Text) :
    weave pieces joiners = following pieces ([] :: joiners) := by
  cases pieces <;> simp [weave, following]

section Measure

variable {M : Type} [AddCommMonoid M] {measure : Text → M}

/-- What adds up over joined texts adds up over pieces with as many joiners in front. -/
theorem measure_following (empty : measure [] = 0)
    (joined : ∀ left right, measure (left ++ right) = measure left + measure right) {pieces : List Text} :
    ∀ {joiners : List Text}, joiners.length = pieces.length →
      measure (following pieces joiners) = (pieces.map measure).sum + (joiners.map measure).sum := by
  -- Every piece comes with one joiner.
  induction pieces with
  | nil =>
    intro joiners length
    rw [List.length_eq_zero_iff.1 length]
    simp [following, empty]
  | cons piece pieces ih =>
    intro joiners length
    cases joiners with
    | nil => simp at length
    | cons joiner joiners =>
      rw [following, joined, joined, ih (Nat.succ.inj length)]
      simp only [List.map_cons, List.sum_cons]
      abel

/-- What adds up over joined texts adds up over pieces with a joiner between each two. -/
theorem measure_weave (empty : measure [] = 0)
    (joined : ∀ left right, measure (left ++ right) = measure left + measure right)
    {pieces joiners : List Text} (length : joiners.length + 1 = pieces.length) :
    measure (weave pieces joiners) = (pieces.map measure).sum + (joiners.map measure).sum := by
  -- The first piece stands behind nothing.
  have inFront : ([] :: joiners).length = pieces.length := length
  rw [weave_eq_following, measure_following empty joined inFront, List.map_cons, List.sum_cons, empty, zero_add]

end Measure

/-- Indentation is blank. -/
theorem Text.isBlankText_indentation (text : Text) (offset : Nat) :
    (text.indentation offset).isBlankText := by
  -- What stands before the offset counts only if it is spaces and tabs throughout.
  unfold Text.indentation
  split
  rename_i before after cut
  simp only
  split
  · rename_i spaces
    refine List.all_eq_true.2 fun c member => ?_
    have space := List.all_eq_true.1 spaces c member
    simp only [Bool.or_eq_true, decide_eq_true_eq] at space
    rcases space with rfl | rfl <;> decide
  · rfl

/-- An empty line has no ink. -/
theorem Text.ink_separator (text : Text) (offset : Nat) : (text.separator offset).ink = 0 := by
  -- Line breaks of either kind are blank, and so is the indentation behind them.
  have lineBreak : ∀ crlf : Bool, Text.ink (if crlf then ['\r', '\n'] else ['\n']) = 0 := by decide
  simp only [Text.separator, Text.ink_append, lineBreak, zero_add]
  exact ink_eq_zero_of_isBlankText (text.isBlankText_indentation offset)

namespace Arrangement

section Block

variable {text : Text} {first : CallableUnit} {rest : List CallableUnit}

/-- There is one gap before each unit but the first. -/
theorem length_gapsBetween (text : Text) (first : CallableUnit) (rest : List CallableUnit) :
    (gapsBetween text (first :: rest)).length = rest.length := by
  induction rest generalizing first with
  | nil => rfl
  | cons second rest ih => rw [gapsBetween, List.length_cons, List.length_cons, ih]

/-- The last unit of a list that starts with some unit. -/
theorem getLast?_getD_mem (first : CallableUnit) (rest : List CallableUnit) :
    rest.getLast?.getD first ∈ first :: rest := by
  -- Without further units the first one is the last.
  cases found : rest.getLast? with
  | none => exact List.mem_cons_self ..
  | some last => exact List.mem_cons_of_mem _ (List.mem_of_getLast? found)

/-- The first of some units that stand apart stops no later than the last. -/
theorem stop_le_stop_last (placed : ∀ unit ∈ first :: rest, unit.IsPlaced text)
    (apart : (first :: rest).Pairwise fun first second => first.span.stop ≤ second.fullStart) :
    first.span.stop ≤ (rest.getLast?.getD first).span.stop := by
  -- The last unit is the first one itself, or starts after it has stopped.
  have member := getLast?_getD_mem first rest
  have ordered := (placed _ member).fullSpan_fits.ordered
  rcases List.mem_cons.1 member with same | later
  · rw [same]
  · exact Nat.le_trans ((List.pairwise_cons.1 apart).1 _ later) ordered

/-- Units with the gaps between them are the text from the end of the first to that of the last. -/
theorem following_gapsBetween (placed : ∀ unit ∈ first :: rest, unit.IsPlaced text)
    (apart : (first :: rest).Pairwise fun first second => first.span.stop ≤ second.fullStart) :
    following (rest.map (·.text text)) (gapsBetween text (first :: rest)) =
      text.slice first.span.stop (rest.getLast?.getD first).span.stop := by
  -- The gap and the unit after it bring the text on to the end of that unit.
  induction rest generalizing first with
  | nil =>
    have stops := (placed first (List.mem_cons_self ..)).fits.stops
    exact (Text.byteSize_eq_zero.1 (by
      rw [List.getLast?_nil, Option.getD_none, Text.byteSize_slice stops stops (Nat.le_refl _),
        Nat.sub_self])).symm
  | cons second rest ih =>
    obtain ⟨before, restApart⟩ := List.pairwise_cons.1 apart
    have restPlaced : ∀ unit ∈ second :: rest, unit.IsPlaced text :=
      fun unit member => placed unit (List.mem_cons_of_mem _ member)
    have stops := (placed first (List.mem_cons_self ..)).fits.stops
    have full := (restPlaced second (List.mem_cons_self ..)).fullSpan_fits
    have lastStops := (restPlaced _ (getLast?_getD_mem second rest)).fits.stops
    have gap := before second (List.mem_cons_self ..)
    have onward := stop_le_stop_last restPlaced restApart
    rw [gapsBetween, List.map_cons, following, ih restPlaced restApart, List.getLast?_cons,
      Option.getD_some]
    -- The unit starts where the gap stops, and stops where the further text starts.
    calc text.slice first.span.stop second.fullStart ++ second.text text ++
          text.slice second.span.stop (rest.getLast?.getD second).span.stop
        = text.slice first.span.stop second.span.stop ++
          text.slice second.span.stop (rest.getLast?.getD second).span.stop :=
          congrArg (· ++ _) (Text.slice_append_slice stops full.starts full.stops gap full.ordered)
      _ = text.slice first.span.stop (rest.getLast?.getD second).span.stop :=
          Text.slice_append_slice stops full.stops lastStops (Nat.le_trans gap full.ordered) onward

end Block

/-- An arrangement of units that lie apart on a text, none of them lost or added. -/
structure IsSound (text : Text) (arrangement : Arrangement) : Prop where
  /-- Every unit fits the text. -/
  placed : ∀ unit ∈ arrangement.source, unit.IsPlaced text
  /-- Every unit stops before the next ones start. -/
  apart : arrangement.source.Pairwise fun first second => first.span.stop ≤ second.fullStart
  /-- The new order has the same units. -/
  perm : arrangement.target.Perm arrangement.source

end Arrangement

/-- What is arranged is sound, and has the units that were given. -/
theorem isSound_of_arrange {text : Text} {units : List CallableUnit} {order : List String}
    {arrangement : Arrangement} (arranged : arrange text units order = .ok arrangement) :
    arrangement.IsSound text ∧ arrangement.source.Perm units := by
  -- Sorting keeps the units, so that both orders have those that were given.
  obtain ⟨placed, apart, same, _, perm, _⟩ := arrange_eq_ok_iff.1 arranged
  have sorted : arrangement.source.Perm units := same ▸ inSourceOrder_perm units
  exact ⟨⟨fun unit member => placed unit (sorted.mem_iff.1 member), same ▸ apart, perm.trans sorted.symm⟩,
    sorted⟩

namespace Arrangement

section Sound

variable {text : Text} {arrangement : Arrangement}

/-- There is one gap fewer than there are units. -/
theorem length_gaps (some_unit : arrangement.source ≠ []) (text : Text) :
    (arrangement.gaps text).length + 1 = arrangement.source.length := by
  obtain ⟨first, rest, shape⟩ := List.exists_cons_of_ne_nil some_unit
  rw [gaps, shape, length_gapsBetween, List.length_cons]

/-- Every joiner takes the place of one gap. -/
theorem length_joiners (arrangement : Arrangement) (text : Text) :
    (arrangement.joiners text).length = (arrangement.gaps text).length := by
  unfold joiners
  split <;> simp

/-- The joiners of an arrangement have the ink of the gaps between its units. -/
theorem sum_ink_joiners (text : Text) (arrangement : Arrangement) :
    ((arrangement.joiners text).map (·.ink)).sum = ((arrangement.gaps text).map (·.ink)).sum := by
  unfold joiners
  split
  · rfl
  · rename_i blank
    -- Blank gaps have no ink, and neither have the empty lines in their place.
    simp only [isInterleaved, List.any_eq_true, Bool.not_eq_true', not_exists, not_and,
      Bool.not_eq_false] at blank
    rw [List.map_map, List.sum_eq_zero, List.sum_eq_zero]
    · intro ink member
      obtain ⟨gap, isGap, rfl⟩ := List.mem_map.1 member
      exact Text.ink_eq_zero_of_isBlankText (blank gap isGap)
    · intro ink member
      obtain ⟨gap, isGap, rfl⟩ := List.mem_map.1 member
      exact text.ink_separator _

/-- A sound arrangement of some units spans from the first of them to the last. -/
theorem IsSound.block_spec (sound : arrangement.IsSound text) (some_unit : arrangement.source ≠ []) :
    arrangement.block.Fits text ∧
    (∃ unit ∈ arrangement.source, arrangement.block.start ≤ unit.span.start ∧
      unit.span.stop ≤ arrangement.block.stop) ∧
    weave (arrangement.source.map (·.text text)) (arrangement.gaps text) =
      text.slice arrangement.block.start arrangement.block.stop := by
  -- The first unit opens the block, and the rest is told by the text behind it.
  obtain ⟨source, target⟩ := arrangement
  obtain ⟨placed, apart, perm⟩ := sound
  cases source with
  | nil => exact absurd rfl some_unit
  | cons first rest =>
    have full := (placed first (List.mem_cons_self ..)).fullSpan_fits
    have lastStops := (placed _ (getLast?_getD_mem first rest)).fits.stops
    have onward := stop_le_stop_last placed apart
    -- The block is the full span of the first unit and what follows up to the end of the last.
    simp only [block, gaps, List.head?_cons, Option.map_some, Option.getD_some, List.getLast?_cons,
      List.map_cons, weave]
    refine ⟨⟨full.starts, lastStops, Nat.le_trans full.ordered onward⟩,
      ⟨first, List.mem_cons_self .., first.fullStart_le, onward⟩, ?_⟩
    rw [following_gapsBetween placed apart]
    exact Text.slice_append_slice full.starts full.stops lastStops full.ordered onward

/-- A block of some units starts with one of them and stops with one of them. -/
theorem block_ends {arrangement : Arrangement} (some_unit : arrangement.source ≠ []) :
    (∃ unit ∈ arrangement.source, arrangement.block.start = unit.fullStart) ∧
      ∃ unit ∈ arrangement.source, arrangement.block.stop = unit.span.stop := by
  obtain ⟨source, target⟩ := arrangement
  -- The first unit is the head of the list, and the last one is found behind it.
  cases source with
  | nil => exact absurd rfl some_unit
  | cons first rest =>
    refine ⟨⟨first, List.mem_cons_self .., rfl⟩, _, getLast?_getD_mem first rest, ?_⟩
    simp only [block, List.getLast?_cons, Option.map_some, Option.getD_some]

/-- The splice of a sound arrangement keeps the ink of the text. -/
theorem IsSound.keepsInk (sound : arrangement.IsSound text) (some_unit : arrangement.source ≠ []) :
    (arrangement.splice text).KeepsInk text := by
  obtain ⟨fits, _, whole⟩ := sound.block_spec some_unit
  have length := length_gaps some_unit text
  refine ⟨fits, ?_⟩
  -- The pieces change places, and the joiners have the ink of the gaps.
  calc (arrangement.replacement text).ink
      = ((arrangement.pieces text).map (·.ink)).sum + ((arrangement.joiners text).map (·.ink)).sum :=
        measure_weave rfl Text.ink_append
          (by rw [length_joiners, length, pieces, List.length_map, sound.perm.length_eq])
    _ = ((arrangement.source.map (·.text text)).map (·.ink)).sum +
          ((arrangement.gaps text).map (·.ink)).sum := by
        rw [sum_ink_joiners, pieces, ((sound.perm.map _).map _).sum_eq]
    _ = (text.slice arrangement.block.start arrangement.block.stop).ink := by
        rw [← whole, measure_weave rfl Text.ink_append (by rw [length, List.length_map])]

end Sound

/-- An arrangement asks for no splice, for its own splice, or is refused for an unterminated unit. -/
theorem splice?_cases (arrangement : Arrangement) (text : Text) :
    arrangement.splice? text = .ok none ∨ arrangement.splice? text = .ok (some (arrangement.splice text)) ∨
      ∃ name, arrangement.splice? text = .error (.unterminatedUnit name) := by
  -- The names, the text and the run-on test are asked in turn.
  unfold splice?
  simp only
  split
  · exact .inl rfl
  · split
    · exact .inl rfl
    · split
      · exact .inr (.inr ⟨_, rfl⟩)
      · exact .inr (.inl rfl)

/-- No splice is asked for exactly if the order or the text of the block stays the same. -/
theorem splice?_eq_none_iff {arrangement : Arrangement} {text : Text} :
    arrangement.splice? text = .ok none ↔
      arrangement.target.map (·.name) = arrangement.source.map (·.name) ∨
        arrangement.replacement text = text.slice arrangement.block.start arrangement.block.stop := by
  -- The order is asked first, then the text, and a run-on unit is no reason for no splice.
  unfold splice?
  simp only
  split
  · rename_i sameOrder
    simp [sameOrder, pure, Except.pure]
  · rename_i moved
    split
    · rename_i sameText
      simp [sameText, pure, Except.pure]
    · rename_i changed
      split <;> simp [moved, changed, pure, Except.pure, throw, throwThe, MonadExceptOf.throw]

end Arrangement

section Plan

variable {text : Text} {units : List CallableUnit} {order : List String} {splice : Splice}

/-- Planning some units is arranging them and making the splice that the arrangement asks for. -/
theorem plan_eq (some_unit : units ≠ []) :
    plan text units order = arrange text units order >>= fun arrangement => arrangement.splice? text := by
  rw [plan, if_neg (by simpa using some_unit)]

/-- A planned splice is that of an arrangement of the units that changes both their order and the text. -/
theorem exists_arrangement_of_plan (planned : plan text units order = .ok (some splice)) :
    ∃ arrangement, arrange text units order = .ok arrangement ∧ arrangement.source ≠ [] ∧
      splice = arrangement.splice text ∧ order ≠ arrangement.source.map (·.name) ∧
      arrangement.replacement text ≠ text.slice arrangement.block.start arrangement.block.stop := by
  -- A splice can only come from an arrangement of at least one unit.
  have some_unit : units ≠ [] := by
    rintro rfl
    cases planned
  rw [plan_eq some_unit] at planned
  obtain ⟨arrangement, arranged, asked⟩ := bind_eq_ok_iff.1 planned
  have some_source : arrangement.source ≠ [] :=
    fun none => some_unit (none ▸ (isSound_of_arrange arranged).2).nil_eq.symm
  -- Had the order or the text stayed the same, no splice would have been asked for.
  have wanted : ¬ (arrangement.target.map (·.name) = arrangement.source.map (·.name) ∨
      arrangement.replacement text = text.slice arrangement.block.start arrangement.block.stop) := by
    rw [← Arrangement.splice?_eq_none_iff, asked]
    simp
  obtain ⟨_, _, _, _, _, named⟩ := arrange_eq_ok_iff.1 arranged
  rw [not_or, named] at wanted
  rcases arrangement.splice?_cases text with none | found | ⟨name, refused⟩
  · rw [none] at asked
    cases asked
  · rw [found] at asked
    cases asked
    exact ⟨arrangement, arranged, some_source, rfl, wanted⟩
  · rw [refused] at asked
    cases asked

/-- A planned splice keeps the ink of the text, and covers one of the units. -/
theorem keepsInk_of_plan (planned : plan text units order = .ok (some splice)) :
    splice.KeepsInk text ∧
      ∃ unit ∈ units, splice.span.start ≤ unit.span.start ∧ unit.span.stop ≤ splice.span.stop := by
  -- The splice is that of the arrangement, over its block.
  obtain ⟨arrangement, arranged, some_unit, rfl, _⟩ := exists_arrangement_of_plan planned
  obtain ⟨sound, same⟩ := isSound_of_arrange arranged
  obtain ⟨_, ⟨unit, member, starts, stops⟩, _⟩ := sound.block_spec some_unit
  exact ⟨sound.keepsInk some_unit, unit, same.mem_iff.1 member, starts, stops⟩

/-- Units that lie apart in the order of the text are in source order. -/
theorem inSourceOrder_eq_self (placed : ∀ unit ∈ units, unit.IsPlaced text)
    (apart : units.Pairwise fun first second => first.span.stop ≤ second.fullStart) :
    inSourceOrder units = units := by
  -- Each unit starts before it stops, hence before the next one starts.
  refine List.mergeSort_of_pairwise (apart.imp_of_mem fun {first second} member _ before => ?_)
  have ordered := (placed first member).fullSpan_fits.ordered
  simp only [CallableUnit.fullSpan] at ordered
  exact decide_eq_true (Nat.le_trans ordered before)

/-- Units that lie apart on the text, all named differently, are refused only if one is unterminated. -/
theorem unterminated_of_plan {refusal : ArrangeError} (placed : ∀ unit ∈ units, unit.IsPlaced text)
    (apart : units.Pairwise fun first second => first.span.stop ≤ second.fullStart)
    (distinct : (units.map (·.name)).Nodup) (listed : order.Perm (units.map (·.name)))
    (planned : plan text units order = .error refusal) : ∃ name, refusal = .unterminatedUnit name := by
  have some_unit : units ≠ [] := by
    rintro rfl
    cases planned
  obtain ⟨target, named, perm⟩ : ∃ target : List CallableUnit, order = target.map (·.name) ∧ target.Perm units :=
    (congrFun₂ (List.eq_map_comp_perm _) order units).mpr listed
  -- All checks pass, so that only the splice can be refused.
  have arranged : arrange text units order = .ok ⟨units, target⟩ :=
    arrange_eq_ok_iff.2 ⟨placed, (inSourceOrder_eq_self placed apart).symm ▸ apart,
      (inSourceOrder_eq_self placed apart).symm, distinct, perm, named.symm⟩
  rw [plan_eq some_unit, arranged] at planned
  replace planned : Arrangement.splice? ⟨units, target⟩ text = .error refusal := planned
  rcases Arrangement.splice?_cases ⟨units, target⟩ text with none | found | ⟨name, refused⟩
  · rw [none] at planned
    cases planned
  · rw [found] at planned
    cases planned
  · rw [refused] at planned
    cases planned
    exact ⟨name, rfl⟩

end Plan

end CallersFirst
