import CallersFirst.Proofs.Arrangement.Weave

/-! A rearranged text stretch by stretch, and where the parts of the old text stand in it. -/

namespace CallersFirst

/-- A part of a new text: a span of the old one, or text that was not there before. -/
inductive Stretch where
  /-- A span of the old text. -/
  | kept (span : Span)
  /-- Text that was not there before. -/
  | fresh (text : Text)
deriving DecidableEq, Repr

namespace Stretch

/-- The text of a stretch. -/
def text (source : Text) : Stretch → Text
  | kept span => source.slice span.start span.stop
  | fresh text => text

/-- How far inside a stretch a span of the old text stands, if the stretch holds it. -/
def offset? (span : Span) : Stretch → Option Nat
  | kept carrier => if span.IsInside carrier then some (span.start - carrier.start) else none
  | fresh _ => none

/-- Stretches that have no byte of the old text in common. -/
def Apart (first second : Stretch) : Prop :=
  ∀ span other, first = kept span → second = kept other →
    span.stop ≤ other.start ∨ other.stop ≤ span.start

/-- Stretches stand apart whichever of them is named first. -/
theorem Apart.symm {first second : Stretch} (apart : first.Apart second) : second.Apart first :=
  fun span other isSpan isOther => (apart other span isOther isSpan).symm

end Stretch

namespace Layout

/-- The text of some stretches. -/
def text (source : Text) (layout : List Stretch) : Text :=
  layout.flatMap (·.text source)

/-- Where the stretch of an index starts. -/
def offset (source : Text) (layout : List Stretch) (index : Nat) : Nat :=
  (text source (layout.take index)).byteSize

/-- Where a span of the old text stands in some stretches, if one of them holds it. -/
def place? (source : Text) (span : Span) : List Stretch → Option Nat
  | [] => none
  | stretch :: rest =>
    -- The first stretch that holds the span decides, and others only move the rest on.
    (stretch.offset? span).or ((place? source span rest).map (· + (stretch.text source).byteSize))

/-- A span that stands wholly before another one in some stretches. -/
def Before (source : Text) (layout : List Stretch) (first second : Span) : Prop :=
  ∃ place other, place? source first layout = some place ∧ place? source second layout = some other ∧
    place + first.length ≤ other

/-- The stretch of an index holds a span. -/
def CarriesAt (layout : List Stretch) (index : Nat) (span : Span) : Prop :=
  ∃ carrier, layout[index]? = some (.kept carrier) ∧ span.IsInside carrier

/-- Stretches that keep parts of the old text, and none of its bytes twice. -/
structure IsSound (source : Text) (layout : List Stretch) : Prop where
  /-- What is kept is a part of the old text. -/
  fits : ∀ span, .kept span ∈ layout → span.Fits source
  /-- No byte of the old text is kept twice. -/
  apart : layout.Pairwise Stretch.Apart

section Places

variable {source : Text} {layout : List Stretch} {index : Nat} {span carrier : Span}

/-- The text of stretches starts with that of the first one. -/
@[simp] theorem text_cons (source : Text) (stretch : Stretch) (rest : List Stretch) :
    text source (stretch :: rest) = stretch.text source ++ text source rest :=
  List.flatMap_cons

/-- The texts of two lists of stretches follow one another. -/
@[simp] theorem text_append (source : Text) (front back : List Stretch) :
    text source (front ++ back) = text source front ++ text source back :=
  List.flatMap_append

/-- A text is what stands before a stretch, the stretch and what stands behind it. -/
theorem text_parts {stretch : Stretch} (found : layout[index]? = some stretch) :
    text source layout = text source (layout.take index) ++ stretch.text source ++
      text source (layout.drop (index + 1)) := by
  -- The list is cut in front of the stretch and behind it.
  obtain ⟨bound, same⟩ := List.getElem?_eq_some_iff.1 found
  conv_lhs => rw [← List.take_append_drop index layout, List.drop_eq_getElem_cons bound, same]
  simp

/-- A span stands in the one stretch that holds it. -/
theorem place?_eq (apart : layout.Pairwise Stretch.Apart) (found : layout[index]? = some (.kept carrier))
    (inside : span.IsInside carrier) (filled : span.start < span.stop) :
    place? source span layout =
      some (offset source layout index + (span.start - carrier.start)) := by
  -- Every stretch before the index is passed, and moves the place on by its size.
  induction layout generalizing index with
  | nil => simp at found
  | cons stretch rest ih =>
    obtain ⟨first, restApart⟩ := List.pairwise_cons.1 apart
    rw [place?]
    cases index with
    | zero =>
      simp only [List.getElem?_cons_zero, Option.some.injEq] at found
      subst found
      simp [Stretch.offset?, inside, offset, text]
    | succ index =>
      rw [List.getElem?_cons_succ] at found
      -- The span has a byte, which no other stretch can have as well.
      have passed : stretch.offset? span = none := by
        cases stretch with
        | fresh text => rfl
        | kept other =>
          have apart := first _ (List.mem_of_getElem? found) other carrier rfl rfl
          refine if_neg fun again => ?_
          obtain ⟨starts, stops⟩ := inside
          obtain ⟨otherStarts, otherStops⟩ := again
          omega
      rw [passed, ih restApart found, Option.none_or, Option.map_some, offset, offset, List.take_succ_cons,
        text_cons, Text.byteSize_append]
      congr 1
      omega

/-- A stretch of a larger index does not start earlier. -/
theorem offset_le_offset {further : Nat} (onward : index ≤ further) :
    offset source layout index ≤ offset source layout further := by
  -- The longer front starts with the shorter one.
  obtain ⟨more, same⟩ := List.take_prefix_take_left onward
  rw [offset, offset, ← same, text_append, Text.byteSize_append]
  exact Nat.le_add_right _ _

/-- The next stretch starts where a stretch stops. -/
theorem offset_succ {stretch : Stretch} (found : layout[index]? = some stretch) :
    offset source layout (index + 1) = offset source layout index + (stretch.text source).byteSize := by
  rw [offset, offset, List.take_add_one, found, text_append, Text.byteSize_append]
  simp [text]

/-- Between the offsets of two neighbours stands the text of the first. -/
theorem slice_offset {stretch : Stretch} (found : layout[index]? = some stretch) :
    (text source layout).slice (offset source layout index) (offset source layout (index + 1)) =
      stretch.text source := by
  refine Text.slice_eq (text_parts found) rfl ?_
  rw [Text.byteSize_append, offset_succ found, offset]

/-- Spans stand in the order of the stretches that hold them, and within one stretch as they did. -/
theorem before_of_carriesAt (sound : IsSound source layout) {first second : Span} {other : Nat}
    (firstCarried : CarriesAt layout index first) (secondCarried : CarriesAt layout other second)
    (firstFilled : first.start < first.stop) (secondFilled : second.start < second.stop)
    (ordered : index < other ∨ index = other ∧ first.stop ≤ second.start) :
    Before source layout first second := by
  obtain ⟨carrier, found, inside⟩ := firstCarried
  obtain ⟨carrier', found', inside'⟩ := secondCarried
  refine ⟨_, _, place?_eq sound.apart found inside firstFilled,
    place?_eq sound.apart found' inside' secondFilled, ?_⟩
  obtain ⟨starts, stops⟩ := inside
  obtain ⟨starts', stops'⟩ := inside'
  simp only [Span.length]
  rcases ordered with further | ⟨same, behind⟩
  · -- The whole stretch that holds the first span stands before the second one.
    have carrierFits := sound.fits carrier (List.mem_of_getElem? found)
    have size : offset source layout (index + 1) =
        offset source layout index + (carrier.stop - carrier.start) := by
      rw [offset_succ found, Stretch.text,
        Text.byteSize_slice carrierFits.starts carrierFits.stops carrierFits.ordered]
    have later : offset source layout (index + 1) ≤ offset source layout other := offset_le_offset further
    omega
  · -- In one and the same stretch the distance stays what it was.
    subst same
    rw [found, Option.some.injEq, Stretch.kept.injEq] at found'
    subst found'
    omega

/-- A text around a span: something as long as its place, the span and the rest of what was kept there. -/
theorem exists_parts (sound : IsSound source layout) (spanFits : span.Fits source)
    (filled : span.start < span.stop) (found : layout[index]? = some (.kept carrier))
    (inside : span.IsInside carrier) :
    ∃ front, place? source span layout = some front.byteSize ∧
      text source layout = front ++ source.slice span.start span.stop ++
        (source.slice span.stop carrier.stop ++ text source (layout.drop (index + 1))) := by
  have carrierFits := sound.fits carrier (List.mem_of_getElem? found)
  -- In front stand the earlier stretches and the start of the one that holds the span.
  refine ⟨text source (layout.take index) ++ source.slice carrier.start span.start, ?_, ?_⟩
  · rw [place?_eq sound.apart found inside filled, offset, Text.byteSize_append,
      Text.byteSize_slice carrierFits.starts spanFits.starts inside.1]
  · rw [text_parts found, Stretch.text, inside.slice_parts spanFits carrierFits]
    simp only [List.append_assoc]

/-- Where a span stands there is its text. -/
theorem exists_place (sound : IsSound source layout) (spanFits : span.Fits source)
    (filled : span.start < span.stop) (carried : CarriesAt layout index span) :
    ∃ place, place? source span layout = some place ∧
      (text source layout).slice place (place + span.length) = source.slice span.start span.stop := by
  obtain ⟨carrier, found, inside⟩ := carried
  obtain ⟨front, placed, parts⟩ := exists_parts sound spanFits filled found inside
  refine ⟨_, placed, Text.slice_eq parts rfl ?_⟩
  rw [Text.byteSize_append, Text.byteSize_slice spanFits.starts spanFits.stops spanFits.ordered, Span.length]

end Places

end Layout

/-- Stretches and units in turn, beginning and ending with a stretch. -/
def alternate : List Stretch → List CallableUnit → List Stretch
  | stretch :: stretches, unit :: units => stretch :: .kept unit.fullSpan :: alternate stretches units
  | stretches, _ => stretches

section Alternate

variable {stretches : List Stretch} {units : List CallableUnit}

/-- Stretches stand at the even places, and units at the odd ones. -/
theorem getElem?_alternate (length : stretches.length = units.length + 1) (index : Nat) :
    (alternate stretches units)[2 * index]? = stretches[index]? ∧
      (alternate stretches units)[2 * index + 1]? = units[index]?.map (.kept ·.fullSpan) := by
  -- The last stretch is left over when the units are used up.
  induction units generalizing stretches index with
  | nil =>
    obtain ⟨only, rfl⟩ := List.length_eq_one_iff.1 length
    cases index with
    | zero => exact ⟨rfl, rfl⟩
    | succ index => simp [alternate]
  | cons unit units ih =>
    cases stretches with
    | nil => simp at length
    | cons stretch stretches =>
      cases index with
      | zero => exact ⟨rfl, rfl⟩
      | succ index =>
        -- One place further means one stretch and one unit further.
        simp only [alternate, Nat.mul_succ, List.getElem?_cons_succ]
        exact ih (Nat.succ.inj length) index

/-- Taking turns loses and adds nothing. -/
theorem alternate_perm (length : stretches.length = units.length + 1) :
    (alternate stretches units).Perm (stretches ++ units.map (.kept ·.fullSpan)) := by
  induction units generalizing stretches with
  | nil =>
    obtain ⟨only, rfl⟩ := List.length_eq_one_iff.1 length
    simp [alternate]
  | cons unit units ih =>
    cases stretches with
    | nil => simp at length
    | cons stretch stretches =>
      rw [alternate, List.map_cons, List.cons_append]
      -- The unit comes to stand behind all stretches.
      exact .cons _ (((ih (Nat.succ.inj length)).cons _).trans List.perm_middle.symm)

/-- Stretches and units in turn, behind a first piece, read as the units with the stretches as joiners. -/
theorem text_alternate (source : Text) (last : Stretch) (length : stretches.length = units.length) :
    Layout.text source (alternate (stretches ++ [last]) units) =
      following (units.map (·.text source)) (stretches.map (·.text source)) ++ last.text source := by
  -- Both sides put a joiner in front of each unit, and the left one ends with the last stretch.
  induction units generalizing stretches with
  | nil =>
    rw [List.length_eq_zero_iff.1 length]
    simp [alternate, following, Layout.text]
  | cons unit units ih =>
    cases stretches with
    | nil => simp at length
    | cons stretch stretches =>
      rw [List.cons_append, alternate, Layout.text_cons, Layout.text_cons, ih (Nat.succ.inj length)]
      simp only [List.map_cons, following, List.append_assoc]
      rfl

end Alternate

namespace Arrangement

/-- The spans between neighbouring units of a list. -/
def gapSpans : List CallableUnit → List Span
  | first :: second :: rest => ⟨first.span.stop, second.fullStart⟩ :: gapSpans (second :: rest)
  | _ => []

/-- What stands in the place of a gap: the gap itself, or an empty line where all gaps are blank. -/
def between (arrangement : Arrangement) (text : Text) (gap : Span) : Stretch :=
  if arrangement.isInterleaved text then .kept gap else .fresh (text.separator arrangement.block.start)

/-- The stretches in front of the units, between each two of them and behind them. -/
def margins (arrangement : Arrangement) (text : Text) : List Stretch :=
  .kept ⟨0, arrangement.block.start⟩ :: ((gapSpans arrangement.source).map (arrangement.between text) ++
    [.kept ⟨arrangement.block.stop, text.byteSize⟩])

/-- The rearranged text: the margins stay where they are, and the units stand between them in their new
order. -/
def layout (arrangement : Arrangement) (text : Text) : List Stretch :=
  alternate (arrangement.margins text) arrangement.target

section Gaps

variable {text : Text} {first : CallableUnit} {rest : List CallableUnit}

/-- The spans between units cover the gaps between them. -/
theorem map_slice_gapSpans (text : Text) (units : List CallableUnit) :
    (gapSpans units).map (fun gap => text.slice gap.start gap.stop) = gapsBetween text units := by
  fun_induction gapSpans units with
  | case1 first second rest ih => rw [List.map_cons, ih, gapsBetween]
  | case2 units short =>
    -- Fewer than two units have no gap.
    rw [gapsBetween]
    · rfl
    · exact short

/-- What is put between the units has the texts of the joiners. -/
theorem map_text_between (arrangement : Arrangement) (text : Text) :
    ((gapSpans arrangement.source).map (arrangement.between text)).map (·.text text) =
      arrangement.joiners text := by
  -- The same question decides in both places whether the gaps are kept.
  rw [joiners, gaps, ← map_slice_gapSpans, List.map_map]
  unfold between
  split
  · rfl
  · rw [List.map_map]
    rfl

/-- There is one span fewer between units than there are units. -/
theorem length_gapSpans (first : CallableUnit) (rest : List CallableUnit) :
    (gapSpans (first :: rest)).length = rest.length := by
  rw [← length_gapsBetween [] first rest, ← map_slice_gapSpans, List.length_map]

/-- Stretches that keep parts of the old text behind an offset, in the order in which they were. -/
structure IsOrderedFrom (source : Text) (floor : Nat) (layout : List Stretch) : Prop where
  /-- What is kept is a part of the old text. -/
  fits : ∀ span, .kept span ∈ layout → span.Fits source
  /-- What is kept starts behind the offset. -/
  behind : ∀ span, .kept span ∈ layout → floor ≤ span.start
  /-- What is kept stops before what is kept later starts. -/
  ordered : layout.Pairwise fun front back => ∀ span other, front = .kept span → back = .kept other →
    span.stop ≤ other.start

/-- A margin and the unit behind it come before whatever starts behind the unit. -/
theorem IsOrderedFrom.step {unit : CallableUnit} {layout : List Stretch} {front : Stretch} {floor : Nat}
    (known : IsOrderedFrom text unit.span.stop layout) (placed : unit.IsPlaced text)
    (isFront : ∀ span, front = .kept span → span = ⟨floor, unit.fullStart⟩)
    (boundary : text.IsBoundary floor) (before : floor ≤ unit.fullStart) :
    IsOrderedFrom text floor (front :: .kept unit.fullSpan :: layout) := by
  have full := placed.fullSpan_fits
  have width : unit.fullStart ≤ unit.span.stop := full.ordered
  -- A stretch is the margin, the unit or one of those behind it.
  constructor
  · intro span member
    rcases List.mem_cons.1 member with same | member
    · rw [isFront span same.symm]
      exact ⟨boundary, full.starts, before⟩
    · rcases List.mem_cons.1 member with same | member
      · cases same
        exact full
      · exact known.fits span member
  · intro span member
    rcases List.mem_cons.1 member with same | member
    · rw [isFront span same.symm]
    · rcases List.mem_cons.1 member with same | member
      · cases same
        exact before
      · have behind := known.behind span member
        omega
  · refine List.pairwise_cons.2 ⟨fun back member span other isSpan isOther => ?_,
      List.pairwise_cons.2 ⟨fun back member span other isSpan isOther => ?_, known.ordered⟩⟩
    · -- The margin stops where the unit starts.
      rw [isFront span isSpan]
      subst isOther
      rcases List.mem_cons.1 member with same | member
      · cases same
        exact Nat.le_refl _
      · exact Nat.le_trans width (known.behind other member)
    · cases isSpan
      subst isOther
      exact known.behind other member

/-- Gaps and units in turn, behind a first unit, are as they were. -/
theorem isOrderedFrom_alternate (placed : ∀ unit ∈ first :: rest, unit.IsPlaced text)
    (apart : (first :: rest).Pairwise fun first second => first.span.stop ≤ second.fullStart)
    {join : Span → Stretch} (keeps : ∀ gap span, join gap = .kept span → span = gap) :
    IsOrderedFrom text first.span.stop (alternate ((gapSpans (first :: rest)).map join ++
      [.kept ⟨(rest.getLast?.getD first).span.stop, text.byteSize⟩]) rest) := by
  -- Each gap and the unit behind it are one step.
  induction rest generalizing first with
  | nil =>
    -- Only the margin behind the unit is left.
    have stops := (placed first (List.mem_cons_self ..)).fits.stops
    have only : ∀ span, Stretch.kept span ∈ [.kept ⟨first.span.stop, text.byteSize⟩] →
        span = ⟨first.span.stop, text.byteSize⟩ := by simp
    refine ⟨fun span member => ?_, fun span member => ?_, List.pairwise_singleton ..⟩
    · rw [only span member]
      exact ⟨stops, text.isBoundary_byteSize, stops.le_byteSize⟩
    · rw [only span member]
  | cons second rest ih =>
    obtain ⟨before, restApart⟩ := List.pairwise_cons.1 apart
    have restPlaced : ∀ unit ∈ second :: rest, unit.IsPlaced text :=
      fun unit member => placed unit (List.mem_cons_of_mem _ member)
    simp only [gapSpans, List.map_cons, List.cons_append, alternate, List.getLast?_cons, Option.getD_some]
    exact (ih restPlaced restApart).step (restPlaced second (List.mem_cons_self ..)) (keeps _)
      (placed first (List.mem_cons_self ..)).fits.stops (before second (List.mem_cons_self ..))

/-- What lies between units that stand apart is a part of the text. -/
theorem fits_of_mem_gapSpans (placed : ∀ unit ∈ first :: rest, unit.IsPlaced text)
    (apart : (first :: rest).Pairwise fun first second => first.span.stop ≤ second.fullStart) {gap : Span}
    (isGap : gap ∈ gapSpans (first :: rest)) : gap.Fits text := by
  -- If all gaps were kept, they would be among what fits the text.
  have known : IsOrderedFrom text first.span.stop (alternate ((gapSpans (first :: rest)).map .kept ++
      [.kept ⟨(rest.getLast?.getD first).span.stop, text.byteSize⟩]) rest) :=
    isOrderedFrom_alternate placed apart fun gap span same => (Stretch.kept.inj same).symm
  refine known.fits gap ((alternate_perm ?_).mem_iff.2 ?_)
  · simp [length_gapSpans]
  · simp [isGap]

/-- A gap lies between two units: it starts where one stops, and stops where another starts. -/
theorem exists_neighbours_of_mem_gapSpans {units : List CallableUnit} {gap : Span}
    (isGap : gap ∈ gapSpans units) :
    ∃ first ∈ units, ∃ second ∈ units, gap = ⟨first.span.stop, second.fullStart⟩ := by
  fun_induction gapSpans units with
  | case1 first second rest ih =>
    -- The gap is the first one, or it lies further on between two later units.
    rcases List.mem_cons.1 isGap with rfl | further
    · exact ⟨first, by simp, second, by simp, rfl⟩
    · obtain ⟨earlier, isEarlier, later, isLater, same⟩ := ih further
      exact ⟨earlier, List.mem_cons_of_mem _ isEarlier, later, List.mem_cons_of_mem _ isLater, same⟩
  | case2 units short => cases isGap

variable {span : Span}

/-- No unit has stopped where a span starts that stops before the first of them starts. -/
theorem countP_stop_eq_zero (placed : ∀ unit ∈ first :: rest, unit.IsPlaced text)
    (apart : (first :: rest).Pairwise fun first second => first.span.stop ≤ second.fullStart)
    (filled : span.start < span.stop) (before : span.stop ≤ first.fullStart) :
    (first :: rest).countP (·.span.stop ≤ span.start) = 0 := by
  -- All units stop behind the start of the first one.
  refine List.countP_eq_zero.2 fun unit member => ?_
  have width : unit.fullStart ≤ unit.span.stop := (placed unit member).fullSpan_fits.ordered
  have firstWidth : first.fullStart ≤ first.span.stop :=
    (placed first (List.mem_cons_self ..)).fullSpan_fits.ordered
  rw [decide_eq_true_eq]
  rcases List.mem_cons.1 member with rfl | later
  · omega
  · have behind := (List.pairwise_cons.1 apart).1 unit later
    omega

/-- A span behind a unit that cuts no further unit and lies in none lies in a gap, or behind them all. -/
theorem exists_gap_behind (placed : ∀ unit ∈ first :: rest, unit.IsPlaced text)
    (apart : (first :: rest).Pairwise fun first second => first.span.stop ≤ second.fullStart)
    (filled : span.start < span.stop) (within : span.stop ≤ text.byteSize)
    (behind : first.span.stop ≤ span.start)
    (uncut : ∀ unit ∈ rest, span.IsUncutAt unit.fullStart ∧ span.IsUncutAt unit.span.stop)
    (outside : ∀ unit ∈ rest, ¬ span.IsInside unit.fullSpan) :
    ∃ free, (gapSpans (first :: rest) ++ [⟨(rest.getLast?.getD first).span.stop, text.byteSize⟩])[
        rest.countP (·.span.stop ≤ span.start)]? = some free ∧ span.IsInside free := by
  -- Either the span stops before the next unit starts, or that unit is passed and counted.
  induction rest generalizing first with
  | nil => exact ⟨_, rfl, behind, within⟩
  | cons second rest ih =>
    have restPlaced : ∀ unit ∈ second :: rest, unit.IsPlaced text :=
      fun unit member => placed unit (List.mem_cons_of_mem _ member)
    have restApart := (List.pairwise_cons.1 apart).2
    obtain ⟨⟨atStart, atStop⟩, restUncut⟩ := List.forall_mem_cons.1 uncut
    obtain ⟨notInside, restOutside⟩ := List.forall_mem_cons.1 outside
    rw [gapSpans, List.getLast?_cons, Option.getD_some]
    rcases atStart with before | started
    · -- The span lies in front of the second unit.
      rw [countP_stop_eq_zero restPlaced restApart filled before]
      exact ⟨_, rfl, behind, before⟩
    · -- It cannot start inside the unit, since then it would lie in it or be cut by its end.
      have stopped : second.span.stop ≤ span.start := by
        rcases atStop with stops | stopped
        · exact absurd ⟨started, stops⟩ notInside
        · exact stopped
      rw [List.countP_cons_of_pos (by simpa using stopped), List.cons_append, List.getElem?_cons_succ]
      exact ih restPlaced restApart stopped restUncut restOutside

end Gaps

section Layout

variable {text : Text} {arrangement : Arrangement}

/-- Nothing but the gap itself is kept in its place. -/
theorem eq_of_between_eq_kept {gap span : Span} (kept : arrangement.between text gap = .kept span) :
    span = gap := by
  unfold between at kept
  split at kept
  · cases kept
    rfl
  · cases kept

/-- There is a margin on either side of every unit. -/
theorem length_margins (some_unit : arrangement.source ≠ []) (text : Text) :
    (arrangement.margins text).length = arrangement.source.length + 1 := by
  obtain ⟨first, rest, shape⟩ := List.exists_cons_of_ne_nil some_unit
  simp [margins, shape, length_gapSpans]

/-- The layout of a sound arrangement keeps parts of the text, and none of its bytes twice. -/
theorem IsSound.isSound_layout (sound : arrangement.IsSound text) (some_unit : arrangement.source ≠ []) :
    Layout.IsSound text (arrangement.layout text) := by
  have length := length_margins some_unit text
  have targetLength : (arrangement.margins text).length = arrangement.target.length + 1 := by
    rw [length, sound.perm.length_eq]
  -- The units change places among themselves only.
  have perm : (arrangement.layout text).Perm (alternate (arrangement.margins text) arrangement.source) :=
    (alternate_perm targetLength).trans (((sound.perm.map _).append_left _).trans (alternate_perm length).symm)
  -- In the order of the source the stretches follow one another and do not overlap.
  have inOrder : IsOrderedFrom text 0 (alternate (arrangement.margins text) arrangement.source) := by
    obtain ⟨source, target⟩ := arrangement
    obtain ⟨placed, apart, _⟩ := sound
    cases source with
    | nil => exact absurd rfl some_unit
    | cons first rest =>
      simp only [margins, block, List.head?_cons, Option.map_some, Option.getD_some, List.getLast?_cons,
        alternate]
      refine (isOrderedFrom_alternate placed apart (fun gap span => eq_of_between_eq_kept)).step
        (placed first (List.mem_cons_self ..)) ?_
        text.isBoundary_zero (Nat.zero_le _)
      intro span same
      cases same
      rfl
  refine ⟨fun span member => inOrder.fits span (perm.mem_iff.1 member),
    (perm.pairwise_iff Stretch.Apart.symm).2 (inOrder.ordered.imp ?_)⟩
  exact fun follows span other isSpan isOther => .inl (follows span other isSpan isOther)

/-- A margin that is kept stops where a unit starts, or is the last one and stops with the text. -/
theorem stop_of_margin (some_unit : arrangement.source ≠ []) {place : Nat} {free : Span}
    (found : (arrangement.margins text)[place]? = some (.kept free)) :
    (∃ unit ∈ arrangement.source, free.stop = unit.fullStart) ∨
      free.stop = text.byteSize ∧ place = arrangement.source.length := by
  -- The first margin stops where the block starts, and the last one starts where the block stops.
  rw [margins] at found
  cases place with
  | zero =>
    cases found
    exact .inl (block_ends some_unit).1
  | succ place =>
    rw [List.getElem?_cons_succ] at found
    by_cases isGap : place < (gapSpans arrangement.source).length
    · rw [List.getElem?_append_left (by simpa using isGap), List.getElem?_map,
        Option.map_eq_some_iff] at found
      obtain ⟨gap, member, kept⟩ := found
      obtain ⟨_, _, unit, isUnit, same⟩ := exists_neighbours_of_mem_gapSpans (List.mem_of_getElem? member)
      rw [eq_of_between_eq_kept kept, same]
      exact .inl ⟨unit, isUnit, rfl⟩
    · -- Behind the gaps there is only the last margin.
      rw [List.getElem?_append_right (by simpa using isGap), List.length_map,
        List.getElem?_singleton] at found
      split at found
      · rename_i last
        cases found
        obtain ⟨first, rest, shape⟩ := List.exists_cons_of_ne_nil some_unit
        rw [shape, length_gapSpans] at last isGap
        exact .inr ⟨rfl, by rw [shape, List.length_cons]; omega⟩
      · cases found

/-- Where something kept stops, a unit starts or stops, or both the old and the new text end. -/
theorem IsSound.stop_of_kept (sound : arrangement.IsSound text) (some_unit : arrangement.source ≠ [])
    {index : Nat} {carrier : Span} (found : (arrangement.layout text)[index]? = some (.kept carrier)) :
    (∃ unit ∈ arrangement.source, carrier.stop = unit.fullStart ∨ carrier.stop = unit.span.stop) ∨
      carrier.stop = text.byteSize ∧ (arrangement.layout text).drop (index + 1) = [] := by
  have same := sound.perm.length_eq
  have length : (arrangement.margins text).length = arrangement.target.length + 1 := by
    rw [length_margins some_unit, same]
  -- An even index is that of a margin, an odd one that of a unit.
  obtain ⟨place, rfl | rfl⟩ : ∃ place, index = 2 * place ∨ index = 2 * place + 1 := ⟨index / 2, by omega⟩
  · rw [layout, (getElem?_alternate length place).1] at found
    rcases stop_of_margin some_unit found with ⟨unit, member, starts⟩ | ⟨stops, last⟩
    · exact .inl ⟨unit, member, .inl starts⟩
    · -- There are as many units as margins before the last one.
      have size := (alternate_perm length).length_eq
      rw [List.length_append, List.length_map, length] at size
      exact .inr ⟨stops, List.drop_eq_nil_of_le (by rw [layout, size]; omega)⟩
  · rw [layout, (getElem?_alternate length place).2, Option.map_eq_some_iff] at found
    obtain ⟨unit, isTarget, kept⟩ := found
    cases kept
    exact .inl ⟨unit, sound.perm.mem_iff.1 (List.mem_of_getElem? isTarget), .inr rfl⟩

/-- The splice of a sound arrangement gives the text of its layout. -/
theorem IsSound.applyTo?_splice (sound : arrangement.IsSound text) (some_unit : arrangement.source ≠ []) :
    (arrangement.splice text).applyTo? text = some (Layout.text text (arrangement.layout text)) := by
  have fits : (arrangement.splice text).span.Fits text := (sound.block_spec some_unit).1
  rw [Splice.applyTo?_of_fits fits]
  -- The first unit of the new order follows the front margin, the others each their own margin.
  obtain ⟨first, rest, shape⟩ := List.exists_cons_of_ne_nil some_unit
  obtain ⟨lead, others, targetShape⟩ : ∃ lead others, arrangement.target = lead :: others :=
    List.exists_cons_of_ne_nil fun empty => some_unit (empty ▸ sound.perm).nil_eq.symm
  have length : ((gapSpans arrangement.source).map (arrangement.between text)).length = others.length := by
    have same := sound.perm.length_eq
    rw [shape, targetShape, List.length_cons, List.length_cons] at same
    rw [List.length_map, shape, length_gapSpans]
    omega
  rw [layout, margins, targetShape, alternate, Layout.text_cons, Layout.text_cons,
    text_alternate text _ length, map_text_between]
  simp only [splice, replacement, pieces, targetShape, List.map_cons, weave, Stretch.text, List.append_assoc]
  rfl

/-- A gap with ink in it is kept. -/
theorem between_eq_kept {gap : Span} (isGap : gap ∈ gapSpans arrangement.source)
    (ink : ¬ (text.slice gap.start gap.stop).isBlankText) : arrangement.between text gap = .kept gap := by
  -- One such gap is enough for all of them to be kept.
  have interleaved : arrangement.isInterleaved text := by
    rw [isInterleaved, gaps, ← map_slice_gapSpans, List.any_map, List.any_eq_true]
    exact ⟨gap, isGap, by simpa using ink⟩
  rw [between, if_pos interleaved]

/-- What lies behind a unit is kept where it lies behind all of them, and in a gap if that has ink. -/
theorem getElem?_map_between {last free : Span} {index : Nat}
    (found : (gapSpans arrangement.source ++ [last])[index]? = some free)
    (ink : free ∈ gapSpans arrangement.source → ¬ (text.slice free.start free.stop).isBlankText) :
    ((gapSpans arrangement.source).map (arrangement.between text) ++ [.kept last])[index]? =
      some (.kept free) := by
  -- The last one is kept in any case, and a gap for its ink.
  by_cases isLast : (gapSpans arrangement.source).length ≤ index
  · rw [List.getElem?_append_right isLast] at found
    rw [List.getElem?_append_right (by simpa using isLast), List.length_map]
    exact List.getElem?_map.trans (congrArg (Option.map Stretch.kept) found)
  · rw [List.getElem?_append_left (by omega)] at found
    have isGap := List.mem_of_getElem? found
    rw [List.getElem?_append_left (by rw [List.length_map]; omega), List.getElem?_map, found,
      Option.map_some, between_eq_kept isGap (ink isGap)]

section Carried

variable {span : Span}

/-- A span with ink that cuts no unit and lies in none is held by the margin behind the units before it. -/
theorem IsSound.carriesAt_margin (sound : arrangement.IsSound text) (some_unit : arrangement.source ≠ [])
    (fits : span.Fits text) (ink : ¬ (text.slice span.start span.stop).isBlankText)
    (uncut : ∀ unit ∈ arrangement.source, span.IsUncutAt unit.fullStart ∧ span.IsUncutAt unit.span.stop)
    (outside : ∀ unit ∈ arrangement.source, ¬ span.IsInside unit.fullSpan) :
    Layout.CarriesAt (arrangement.layout text)
      (2 * arrangement.source.countP (·.span.stop ≤ span.start)) span := by
  have filled := fits.lt_of_ink ink
  have length : (arrangement.margins text).length = arrangement.target.length + 1 := by
    rw [length_margins some_unit, sound.perm.length_eq]
  -- It is enough to find the margin.
  suffices held : ∃ free, (arrangement.margins text)[arrangement.source.countP
      (·.span.stop ≤ span.start)]? = some (.kept free) ∧ span.IsInside free by
    obtain ⟨free, found, inside⟩ := held
    exact ⟨free, (getElem?_alternate length _).1.trans found, inside⟩
  obtain ⟨placed, apart, _⟩ := sound
  obtain ⟨first, rest, shape⟩ := List.exists_cons_of_ne_nil some_unit
  have start : arrangement.block.start = first.fullStart := by simp [block, shape]
  have stop : arrangement.block.stop = (rest.getLast?.getD first).span.stop := by
    simp [block, shape, List.getLast?_cons]
  rw [margins, start, stop]
  rw [shape] at placed apart uncut outside
  have restMember : ∀ unit ∈ rest, unit ∈ first :: rest := fun unit => List.mem_cons_of_mem first
  obtain ⟨atStart, atStop⟩ := uncut first (List.mem_cons_self ..)
  rcases atStart with before | started
  -- Ink before the first unit lies in front of the block.
  · rw [shape, countP_stop_eq_zero placed apart filled before]
    exact ⟨_, rfl, Nat.zero_le _, before⟩
  -- Past the first unit the ink lies behind it, in one of the gaps or behind the last unit.
  · have stopped : first.span.stop ≤ span.start := by
      rcases atStop with stops | stopped
      · exact absurd ⟨started, stops⟩ (outside first (List.mem_cons_self ..))
      · exact stopped
    rw [shape, List.countP_cons_of_pos (by simpa using stopped), List.getElem?_cons_succ, ← shape]
    obtain ⟨free, found, inside⟩ := exists_gap_behind placed apart filled fits.stops.le_byteSize stopped
      (fun unit member => uncut unit (restMember unit member))
      (fun unit member => outside unit (restMember unit member))
    rw [← shape] at found
    refine ⟨free, getElem?_map_between found fun isGap => ?_, inside⟩
    exact inside.ink fits (fits_of_mem_gapSpans placed apart (shape ▸ isGap)) ink

/-- The unit of an index stands behind as many margins and units, and one margin more. -/
theorem IsSound.getElem?_layout (sound : arrangement.IsSound text) (some_unit : arrangement.source ≠ [])
    {unit : CallableUnit} {index : Nat} (found : arrangement.target[index]? = some unit) :
    (arrangement.layout text)[2 * index + 1]? = some (.kept unit.fullSpan) := by
  have length : (arrangement.margins text).length = arrangement.target.length + 1 := by
    rw [length_margins some_unit, sound.perm.length_eq]
  rw [layout, (getElem?_alternate length index).2, found, Option.map_some]

/-- A span inside a unit is held by the place that the unit has in the new order. -/
theorem IsSound.carriesAt_unit (sound : arrangement.IsSound text) (some_unit : arrangement.source ≠ [])
    {unit : CallableUnit} {index : Nat} (found : arrangement.target[index]? = some unit)
    (inside : span.IsInside unit.fullSpan) :
    Layout.CarriesAt (arrangement.layout text) (2 * index + 1) span :=
  ⟨unit.fullSpan, sound.getElem?_layout some_unit found, inside⟩

end Carried

end Layout

end Arrangement

end CallersFirst
