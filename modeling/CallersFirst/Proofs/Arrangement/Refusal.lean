import CallersFirst.Proofs.Arrangement.Rendering

/-! Which units and names are refused before any of them is moved. -/

namespace CallersFirst

/--
Units or names that cannot be trusted.

Two members of a list stand at different places in it, even if they are equal.
-/
inductive IsCorrupted (text : Text) (units : List CallableUnit) (order : List String) : Prop where
  /-- The span of a unit is reversed, leaves the text or cuts a character. -/
  | misplacedUnit {unit : CallableUnit} (member : unit ∈ units) (misplaced : ¬ unit.span.Fits text)
  /-- The span of a comment is reversed, leaves the text or cuts a character. -/
  | misplacedComment {unit : CallableUnit} {comment : Span} (member : unit ∈ units)
      (attached : comment ∈ unit.comments) (misplaced : ¬ comment.Fits text)
  /-- A comment starts before one listed earlier has stopped. -/
  | tangledComments {unit : CallableUnit} {first second : Span} (member : unit ∈ units)
      (attached : [first, second].Sublist unit.comments) (tangled : second.start < first.stop)
  /-- A comment runs past the start of its unit. -/
  | lateComment {unit : CallableUnit} {comment : Span} (member : unit ∈ units)
      (attached : comment ∈ unit.comments) (late : unit.span.start < comment.stop)
  /-- Two units overlap once their comments are counted in. -/
  | overlappingUnits {first second : CallableUnit} (listed : [first, second].Sublist units)
      (overlap : first.fullSpan.overlaps second.fullSpan)
  /-- Two units have the same name. -/
  | sharedName {first second : CallableUnit} (listed : [first, second].Sublist units)
      (same : first.name = second.name)
  /-- The names do not list the units once each. -/
  | mislisted (differs : ¬ order.Perm (units.map (·.name)))

section Accepted

variable {text : Text} {units : List CallableUnit} {order : List String}

/-- Nothing is corrupted exactly if all units are placed, none overlap, and the names list them once each. -/
theorem not_isCorrupted_iff :
    ¬ IsCorrupted text units order ↔
      (∀ unit ∈ units, unit.IsPlaced text) ∧
      units.Pairwise (fun first second => ¬ first.fullSpan.overlaps second.fullSpan) ∧
      (units.map (·.name)).Nodup ∧ order.Perm (units.map (·.name)) := by
  constructor
  · -- Each part can only fail in a way that one of the faults names.
    intro sane
    refine ⟨fun unit member => ⟨?_, ?_, ?_, ?_⟩, ?_, ?_, ?_⟩
    · by_contra misplaced
      exact sane (.misplacedUnit member misplaced)
    · intro comment attached
      by_contra misplaced
      exact sane (.misplacedComment member attached misplaced)
    · refine List.pairwise_iff_forall_sublist.2 fun attached => ?_
      by_contra tangled
      exact sane (.tangledComments member attached (Nat.lt_of_not_le tangled))
    · intro comment attached
      by_contra late
      exact sane (.lateComment member attached (Nat.lt_of_not_le late))
    · exact List.pairwise_iff_forall_sublist.2 fun listed overlap => sane (.overlappingUnits listed overlap)
    · refine List.pairwise_map.2 (List.pairwise_iff_forall_sublist.2 fun listed same => ?_)
      exact sane (.sharedName listed same)
    · by_contra differs
      exact sane (.mislisted differs)
  · rintro ⟨placed, clear, distinct, listed⟩ corrupted
    -- Each fault contradicts the part that rules it out.
    cases corrupted with
    | misplacedUnit member misplaced => exact misplaced (placed _ member).fits
    | misplacedComment member attached misplaced =>
      exact misplaced ((placed _ member).comments_fit _ attached)
    | tangledComments member attached tangled =>
      have apart := List.pairwise_iff_forall_sublist.1 (placed _ member).comments_apart attached
      omega
    | lateComment member attached late =>
      have before := (placed _ member).comments_before _ attached
      omega
    | overlappingUnits listed overlap => exact List.pairwise_iff_forall_sublist.1 clear listed overlap
    | sharedName listed same =>
      exact List.pairwise_iff_forall_sublist.1 (List.pairwise_map.1 distinct) listed same
    | mislisted differs => exact differs listed

/-- Sorted units stop before the next ones start exactly if no two of them overlap, wherever listed. -/
theorem pairwise_inSourceOrder_iff (filled : ∀ unit ∈ units, unit.fullStart < unit.span.stop) :
    (inSourceOrder units).Pairwise (fun first second => first.span.stop ≤ second.fullStart) ↔
      units.Pairwise fun first second => ¬ first.fullSpan.overlaps second.fullSpan := by
  have perm := inSourceOrder_perm units
  -- Overlapping is mutual, so that the order of the list makes no difference to it.
  rw [← perm.pairwise_iff fun {first second} (clear : ¬ first.fullSpan.overlaps second.fullSpan) => by
    rwa [Span.overlaps_comm]]
  simp only [Span.overlaps_iff, CallableUnit.fullSpan]
  constructor
  · intro apart
    refine apart.imp fun {first second} before overlap => ?_
    omega
  · -- Of two units that start in order, the first one reaches into the second one or stops before it.
    intro clear
    refine (clear.and (pairwise_inSourceOrder units)).imp_of_mem fun {first second} _ isSecond both => ?_
    have width := filled second (perm.mem_iff.1 isSecond)
    omega

/-- Units that hold a byte each can be arranged exactly if nothing is corrupted. -/
theorem exists_arrangement_iff
    (filled : ∀ unit ∈ units, unit.fullSpan.Fits text → unit.fullStart < unit.span.stop) :
    (∃ arrangement, arrange text units order = .ok arrangement) ↔ ¬ IsCorrupted text units order := by
  rw [not_isCorrupted_iff]
  constructor
  · rintro ⟨arrangement, arranged⟩
    obtain ⟨placed, apart, _, distinct, perm, named⟩ := arrange_eq_ok_iff.1 arranged
    have allFilled : ∀ unit ∈ units, unit.fullStart < unit.span.stop :=
      fun unit member => filled unit member (placed unit member).fullSpan_fits
    exact ⟨placed, (pairwise_inSourceOrder_iff allFilled).1 apart, distinct, named ▸ perm.map _⟩
  · rintro ⟨placed, clear, distinct, listed⟩
    have allFilled : ∀ unit ∈ units, unit.fullStart < unit.span.stop :=
      fun unit member => filled unit member (placed unit member).fullSpan_fits
    -- The names put the units themselves in order.
    obtain ⟨target, named, perm⟩ : ∃ target : List CallableUnit,
        order = target.map (·.name) ∧ target.Perm units :=
      (congrFun₂ (List.eq_map_comp_perm _) order units).mpr listed
    exact ⟨⟨inSourceOrder units, target⟩, arrange_eq_ok_iff.2
      ⟨placed, (pairwise_inSourceOrder_iff allFilled).2 clear, rfl, distinct, perm, named.symm⟩⟩

end Accepted

section Refused

variable {text : Text} {units : List CallableUnit} {order : List String} {refusal : ArrangeError}

/-- A span is refused for being out of place. -/
theorem checkSpan_eq_error {name : String} {span : Span} (refused : checkSpan text name span = .error refusal) :
    refusal = .invalidRange name span text.byteSize := by
  unfold checkSpan at refused
  split at refused
  · cases refused
  · cases refused
    rfl

/-- Comments are refused for one of them being out of place. -/
theorem checkComments_eq_error {unit : CallableUnit} {comments : List Span} {floor : Nat}
    (refused : checkComments text unit floor comments = .error refusal) :
    ∃ comment ∈ comments, refusal = .invalidRange unit.name comment text.byteSize := by
  induction comments generalizing floor with
  | nil => cases refused
  | cons comment rest ih =>
    rw [checkComments] at refused
    -- The comment does not fit, starts too early, or a later one is at fault.
    rcases bind_eq_error_iff.1 refused with misplaced | ⟨_, _, refused⟩
    · exact ⟨comment, List.mem_cons_self .., checkSpan_eq_error misplaced⟩
    · split at refused
      · cases refused
        exact ⟨comment, List.mem_cons_self .., rfl⟩
      · obtain ⟨other, member, same⟩ := ih refused
        exact ⟨other, List.mem_cons_of_mem _ member, same⟩

/-- Units are refused one by one for a span of their own. -/
theorem forM_checkUnit_eq_error (refused : units.forM (checkUnit text) = .error refusal) :
    ∃ unit ∈ units, ∃ span ∈ unit.span :: unit.comments,
      refusal = .invalidRange unit.name span text.byteSize := by
  induction units with
  | nil => cases refused
  | cons unit rest ih =>
    rw [List.forM] at refused
    rcases bind_eq_error_iff.1 refused with first | ⟨_, _, later⟩
    · refine ⟨unit, List.mem_cons_self .., ?_⟩
      -- The span of the definition is looked at before those of the comments.
      rw [checkUnit] at first
      rcases bind_eq_error_iff.1 first with misplaced | ⟨_, _, tangled⟩
      · exact ⟨unit.span, List.mem_cons_self .., checkSpan_eq_error misplaced⟩
      · obtain ⟨comment, member, same⟩ := checkComments_eq_error tangled
        exact ⟨comment, List.mem_cons_of_mem _ member, same⟩
    · obtain ⟨other, member, span⟩ := ih later
      exact ⟨other, List.mem_cons_of_mem _ member, span⟩

/-- Units that are placed are refused together for two neighbours that overlap. -/
theorem checkApart_eq_error (refused : checkApart units = .error refusal) :
    ∃ first ∈ units, ∃ second ∈ units, refusal = .overlappingUnits first.name second.name := by
  fun_induction checkApart units with
  -- The check goes through neighbours and stops at the first two that overlap.
  | case1 first second rest overlap =>
    cases refused
    exact ⟨first, by simp, second, by simp, rfl⟩
  | case2 first second rest apart ih =>
    obtain ⟨other, isOther, another, isAnother, same⟩ := ih refused
    exact ⟨other, List.mem_cons_of_mem _ isOther, another, List.mem_cons_of_mem _ isAnother, same⟩
  | case3 => cases refused

/-- Units are refused an arrangement for a span, for an overlap or for the names, each told as such. -/
theorem arrange_eq_error (refused : arrange text units order = .error refusal) :
    (∃ unit ∈ units, ∃ span ∈ unit.span :: unit.comments,
      refusal = .invalidRange unit.name span text.byteSize) ∨
    (∃ first ∈ units, ∃ second ∈ units, refusal = .overlappingUnits first.name second.name) ∨
    ∃ mismatch, inListedOrder units order = .error mismatch ∧ refusal = .orderMismatch mismatch := by
  rw [arrange] at refused
  -- The checks are made one after the other, and the first one to fail gives the refusal.
  rcases bind_eq_error_iff.1 refused with misplaced | ⟨_, _, refused⟩
  · exact .inl (forM_checkUnit_eq_error misplaced)
  rcases bind_eq_error_iff.1 refused with overlap | ⟨_, _, refused⟩
  · obtain ⟨first, isFirst, second, isSecond, same⟩ := checkApart_eq_error overlap
    have perm := inSourceOrder_perm units
    exact .inr (.inl ⟨first, perm.mem_iff.1 isFirst, second, perm.mem_iff.1 isSecond, same⟩)
  · cases listed : inListedOrder units order with
    | ok target =>
      rw [listed] at refused
      cases refused
    | error mismatch =>
      rw [listed] at refused
      cases refused
      exact .inr (.inr ⟨mismatch, rfl, rfl⟩)

end Refused

/--
Corrupted units and names are refused, and no others are.

All pairs of units count, wherever they are listed, although only neighbours in the text are compared.
What is not corrupted is refused at most for a unit that would run into the text behind it.
-/
theorem plan_refused_iff {text : Text} {units : List CallableUnit} (some_unit : units ≠ [])
    (filled : ∀ unit ∈ units, unit.fullSpan.Fits text → unit.fullStart < unit.span.stop)
    (order : List String) :
    (∃ refusal, plan text units order = .error refusal ∧ ∀ name, refusal ≠ .unterminatedUnit name) ↔
      IsCorrupted text units order := by
  rw [plan_eq some_unit]
  constructor
  · rintro ⟨refusal, refused, other⟩
    -- An arrangement could only be refused for an unterminated unit.
    by_contra sane
    obtain ⟨arrangement, arranged⟩ := (exists_arrangement_iff filled).2 sane
    rw [arranged] at refused
    rcases arrangement.splice?_cases text with none | found | ⟨name, unterminated⟩
    · exact absurd (none.symm.trans refused) (by simp)
    · exact absurd (found.symm.trans refused) (by simp)
    · obtain rfl : .unterminatedUnit name = refusal := Except.error.inj (unterminated.symm.trans refused)
      exact other name rfl
  · intro corrupted
    cases arranged : arrange text units order with
    | ok arrangement => exact absurd corrupted ((exists_arrangement_iff filled).1 ⟨arrangement, arranged⟩)
    | error refusal =>
      refine ⟨refusal, rfl, fun name same => ?_⟩
      subst same
      rcases arrange_eq_error arranged with ⟨_, _, _, _, same⟩ | ⟨_, _, _, _, same⟩ | ⟨_, _, same⟩
      all_goals cases same

namespace Sample

/-- A function that holds two others, which stand apart. -/
def nestedUnits : List CallableUnit :=
  [⟨"outer", .declaration, ⟨0, 6⟩, [], []⟩, ⟨"first", .declaration, ⟨1, 2⟩, [], []⟩,
    ⟨"last", .declaration, ⟨3, 5⟩, [], []⟩]

end Sample

/-- A unit is refused for holding another one that is not its neighbour in the list. -/
theorem plan_refused_iff_nested :
    (∀ unit ∈ Sample.nestedUnits, unit.IsPlaced "{a;bb}".toList) ∧
    ∃ refusal, plan "{a;bb}".toList Sample.nestedUnits ["last", "outer", "first"] = .error refusal ∧
      ∀ name, refusal ≠ .unterminatedUnit name := by
  have listed : [⟨"outer", .declaration, ⟨0, 6⟩, [], []⟩, ⟨"last", .declaration, ⟨3, 5⟩, [], []⟩].Sublist
      Sample.nestedUnits := by decide
  exact ⟨by decide, (plan_refused_iff (by decide) (by decide) _).2 (.overlappingUnits listed (by decide))⟩

end CallersFirst
