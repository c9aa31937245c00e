import CallersFirst.Proofs.Arrangement.Weave
import CallersFirst.Proofs.Text.Guarded
import Mathlib.Data.List.Forall2

/-!
Rearranging by positions in lists and offsets in texts. A position outside of its list, a slice out of order,
out of bounds or through a character and a difference below zero would each make the whole fail. It never
does, and comes to the same result.
-/

namespace CallersFirst

namespace Guarded

/-- How a step ends. -/
inductive Step (α : Type) where
  /-- A position, an offset or a difference is out of place. -/
  | failed
  /-- The input is refused. -/
  | refused (refusal : ArrangeError)
  /-- There is a result. -/
  | done (value : α)

/-- Goes on with the result of a step, if there is one. -/
def Step.andThen {α β : Type} (step : Step α) (next : α → Step β) : Step β :=
  match step with
  | .failed => .failed
  | .refused refusal => .refused refusal
  | .done value => next value

instance : Monad Step where
  pure := .done
  bind := .andThen

/-- Fails without a value. -/
def need {α : Type} : Option α → Step α
  | none => .failed
  | some value => .done value

/-- Takes a refusal or a result as it is. -/
def Step.of {α : Type} : Except ArrangeError α → Step α
  | .error refusal => .refused refusal
  | .ok value => .done value

/-- The positions of units by where the units start, those that start together as they were listed. -/
def sourcePositions (units : List CallableUnit) : Option (List Nat) := do
  let keyed ← (List.range units.length).mapM fun position => do
    let unit ← units[position]?
    return (unit.fullStart, position)
  return (keyed.mergeSort fun first second => first.1 ≤ second.1).map (·.2)

/-- Accepts pairs of positions if the first unit of each ends before the second starts. -/
def checkApart (units : List CallableUnit) : List (Nat × Nat) → Step Unit
  | [] => return ()
  | (earlier, later) :: rest => do
    let first ← need units[earlier]?
    let second ← need units[later]?
    if second.fullStart < first.span.stop then Step.refused (.overlappingUnits first.name second.name)
    checkApart units rest

/-- Enters the positions of units, from a first one on, into a table by their names. -/
def register (table : List (String × Nat)) (position : Nat) :
    List CallableUnit → Step (List (String × Nat))
  | [] => return table
  | unit :: rest =>
    if (table.lookup unit.name).isSome then .refused (.orderMismatch (.repeatedUnit unit.name))
    else register (table ++ [(unit.name, position)]) (position + 1) rest

/-- The positions that a table has for names, each of them marked when it is met. -/
def follow (table : List (String × Nat)) (met : List Bool) : List String → Step (List Nat)
  | [] => return []
  | name :: rest =>
    match table.lookup name with
    | none => .refused (.orderMismatch (.unknownUnit name))
    | some position => do
      if ← need met[position]? then Step.refused (.orderMismatch (.listedTwice name))
      let further ← follow table (met.set position true) rest
      return position :: further

/-- The positions of units in the order of a list of names. -/
def listedPositions (units : List CallableUnit) (order : List String) : Step (List Nat) := do
  let table ← register [] 0 units
  if order.length ≠ units.length then
    Step.refused (.orderMismatch (.countDiffers order.length units.length))
  follow table (List.replicate units.length false) order

/-- The text of a unit. -/
def unitText (text : Text) (unit : CallableUnit) : Option Text :=
  text.slice? unit.fullStart unit.span.stop

/-- The texts between the units of pairs of positions. -/
def gaps (text : Text) (units : List CallableUnit) (pairs : List (Nat × Nat)) : Option (List Text) :=
  pairs.mapM fun (earlier, later) => do
    let first ← units[earlier]?
    let second ← units[later]?
    text.slice? first.span.stop second.fullStart

/-- The text put in front of the unit of a slot. -/
def joiner (gaps : List Text) (separator : Text) (slot : Nat) : Option Text := do
  if slot = 0 then return []
  if gaps.any (!·.isBlankText) then gaps[← minus slot 1]? else return separator

/-- Puts units into the slots from a first one on, behind what is there, and notes where each ends. -/
def fill (text : Text) (units : List CallableUnit) (joiner : Nat → Option Text) (slot : Nat) (filled : Text) :
    List Nat → Option (Text × List (Nat × Nat))
  | [] => return (filled, [])
  | position :: rest => do
    let unit ← units[position]?
    let further := filled ++ (← joiner slot) ++ (← unitText text unit)
    let (whole, ends) ← fill text units joiner (slot + 1) further rest
    return (whole, (position, further.byteSize) :: ends)

/-- Whether what follows an offset in a text, or else an offset in the source, continues an expression. -/
def continues (whole : Text) (offset : Nat) (source : Text) (stop : Nat) : Option Bool := do
  let next ← match ← nextSignificant (← onward whole offset) with
    | some c => some (some c)
    | none => nextSignificant (← onward source stop)
  return next.any (· ∈ continuationStarts)

/-- Accepts units of which none is read together with what follows its end. -/
def checkEnds (text : Text) (units : List CallableUnit) (whole : Text) (stop : Nat) :
    List (Nat × Nat) → Step Unit
  | [] => return ()
  | (position, offset) :: rest => do
    let unit ← need units[position]?
    let own ← need (unitText text unit)
    if !unit.isTerminated own then
      if ← need (continues whole offset text stop) then Step.refused (.unterminatedUnit unit.name)
    checkEnds text units whole stop rest

/-- The span from the start of the unit of the first position to the end of that of the last. -/
def block (units : List CallableUnit) (positions : List Nat) : Option Span := do
  let first ← units[← positions[0]?]?
  let last ← units[← positions[← minus positions.length 1]?]?
  return ⟨first.fullStart, last.span.stop⟩

/-- The splice that brings units from one order of their positions into another. -/
def splice (text : Text) (units : List CallableUnit) (source target : List Nat) : Step (Option Splice) := do
  if target = source then return none
  let block ← need (block units source)
  let between ← need (gaps text units (source.zip source.tail))
  let separator ← need (separator text block.start)
  let (replacement, ends) ← need (fill text units (joiner between separator) 0 [] target)
  if replacement = (← need (text.slice? block.start block.stop)) then return none
  checkEnds text units replacement block.stop ends
  return some ⟨block, replacement⟩

/-- The splice that puts units in the order of a list of names. -/
def plan (text : Text) (units : List CallableUnit) (order : List String) : Step (Option Splice) := do
  if units.isEmpty then return none
  Step.of (units.forM (checkUnit text))
  let source ← need (sourcePositions units)
  checkApart units (source.zip source.tail)
  let target ← listedPositions units order
  splice text units source target

/-- The text with a splice made. -/
def applyTo (splice : Splice) (text : Text) : Option Text := do
  let _ ← minus text.byteSize splice.span.length
  return (← upTo text splice.span.start) ++ splice.replacement ++ (← onward text splice.span.stop)

/-- Whether the text is to change, and what it becomes. -/
def render (text : Text) (units : List CallableUnit) (order : List String) : Option (Bool × Option Text) :=
  match plan text units order with
  | .failed => none
  | .refused _ => some (false, none)
  | .done none => some (false, none)
  | .done (some splice) => (applyTo splice text).map fun result => (true, some result)

section Steps

variable {α β : Type}

/-- A value that is simply given is done. -/
@[simp] theorem pure_eq_done (value : α) : (pure value : Step α) = .done value := rfl

/-- After a step that is done the next one goes on with its value. -/
@[simp] theorem done_bind (value : α) (next : α → Step β) : (Step.done value >>= next) = next value := rfl

/-- What is there can be taken. -/
@[simp] theorem need_some (value : α) : need (some value) = .done value := rfl

/-- A result that is no error is done. -/
@[simp] theorem of_ok (value : α) : Step.of (.ok value) = .done value := rfl

end Steps

/-- Positions in a list of units, with the units that stand there. -/
abbrev Points (units : List CallableUnit) : List Nat → List CallableUnit → Prop :=
  List.Forall₂ fun position unit => units[position]? = some unit

section Positions

variable {units listed : List CallableUnit} {positions : List Nat}

/-- What is listed at an index stands at the position of that index. -/
theorem Points.exists_position (points : Points units positions listed) {index : Nat} {unit : CallableUnit}
    (found : listed[index]? = some unit) :
    ∃ position, positions[index]? = some position ∧ units[position]? = some unit := by
  induction points generalizing index with
  | nil => simp at found
  | @cons position unit _ _ isUnit _ ih =>
    -- The index either is the first or leads into the rest, where it is found by induction.
    cases index with
    | zero => exact ⟨position, rfl, isUnit.trans (by simpa using found)⟩
    | succ index => simpa using ih (by simpa using found)

/-- Where all names are different, a position goes with a name. -/
theorem position_eq_iff (distinct : (units.map (·.name)).Nodup) {position other : Nat}
    {unit found : CallableUnit} (isUnit : units[position]? = some unit) (isFound : units[other]? = some found) :
    position = other ↔ unit.name = found.name := by
  have bound := (List.getElem?_eq_some_iff.1 isUnit).1
  -- The two positions have the same name exactly if they are one in the list of names.
  rw [← List.getElem?_inj (by simpa using bound) distinct, List.getElem?_map, List.getElem?_map, isUnit,
    isFound]
  simp

/-- Where all names are different, positions are the same exactly if the names there are. -/
theorem Points.eq_iff (distinct : (units.map (·.name)).Nodup) {others : List Nat}
    {further : List CallableUnit} (points : Points units positions listed)
    (otherPoints : Points units others further) :
    positions = others ↔ listed.map (·.name) = further.map (·.name) := by
  induction points generalizing others further with
  | nil => cases otherPoints <;> simp
  | cons isUnit _ ih =>
    cases otherPoints with
    | nil => simp
    | cons isOther otherPoints =>
      -- The first positions agree exactly if their names do, and so do the rest.
      simp only [List.cons.injEq, List.map_cons, position_eq_iff distinct isUnit isOther, ih otherPoints]

/-- Sorting positions sorts the units that stand there. -/
theorem exists_sourcePositions (units : List CallableUnit) :
    ∃ positions, sourcePositions units = some positions ∧ Points units positions (inSourceOrder units) := by
  -- All keys are found, since every position of a list is one of its own.
  have keyed : ((List.range units.length).mapM fun position => do
      let unit ← units[position]?
      return (unit.fullStart, position)) =
      some (units.zipIdx.map fun indexed => (indexed.1.fullStart, indexed.2)) := by
    refine mapM_eq_some ?_
    rw [List.range_eq_range', ← List.zipIdx_map_snd, List.forall₂_map_left_iff, List.forall₂_map_right_iff,
      List.forall₂_same]
    intro indexed member
    simp [List.mem_zipIdx_iff_getElem?.1 member]
  -- The sorted positions and the sorted units are two views of the same pairs.
  obtain ⟨sorted, isSorted⟩ : ∃ sorted, sorted = units.zipIdx.mergeSort fun first second =>
    decide (first.1.fullStart ≤ second.1.fullStart) := ⟨_, rfl⟩
  have byKey : sorted.map (fun indexed => (indexed.1.fullStart, indexed.2)) =
      (units.zipIdx.map fun indexed => (indexed.1.fullStart, indexed.2)).mergeSort
        fun first second => decide (first.1 ≤ second.1) := by
    rw [isSorted]
    exact List.map_mergeSort (by simp)
  have byUnit : sorted.map (·.1) = inSourceOrder units := by
    rw [isSorted, inSourceOrder]
    conv_rhs => rw [← List.zipIdx_map_fst 0 units]
    exact List.map_mergeSort (by simp)
  refine ⟨sorted.map (·.2), ?_, ?_⟩
  · rw [sourcePositions, keyed]
    simp [← byKey]
  · rw [← byUnit, Points, List.forall₂_map_left_iff, List.forall₂_map_right_iff, List.forall₂_same]
    intro indexed member
    rw [isSorted, List.mem_mergeSort] at member
    exact List.mem_zipIdx_iff_getElem?.1 member

/-- Comparing the units of neighbouring positions is comparing neighbouring units. -/
theorem checkApart_eq (points : Points units positions listed) :
    checkApart units (positions.zip positions.tail) = Step.of (CallersFirst.checkApart listed) := by
  -- Each position is compared with the next one, if there is one.
  induction points with
  | nil => rfl
  | cons isFirst points ih =>
    cases points with
    | nil => rfl
    | cons isSecond points =>
      simp only [List.tail_cons, List.zip_cons_cons] at ih ⊢
      rw [checkApart, CallersFirst.checkApart, isFirst, isSecond, ih]
      simp only [need_some, done_bind]
      split
      · rfl
      · rfl

end Positions

section Listing

variable {units : List CallableUnit}

/-- The table of names and positions, from a first position on. -/
def table (start : Nat) (units : List CallableUnit) : List (String × Nat) :=
  (units.zipIdx start).map fun indexed => (indexed.1.name, indexed.2)

/-- A name is found in the table exactly if some unit has it, with the position of the first such unit. -/
theorem lookup_table_cases (name : String) (start : Nat) (units : List CallableUnit) :
    (table start units).lookup name = none ∧ units.find? (·.name = name) = none ∨
      ∃ index unit, (table start units).lookup name = some (start + index) ∧ units[index]? = some unit ∧
        units.find? (·.name = name) = some unit := by
  induction units generalizing start with
  | nil => exact .inl ⟨rfl, rfl⟩
  | cons unit rest ih =>
    simp only [table, List.zipIdx_cons, List.map_cons, List.lookup_cons]
    by_cases same : unit.name = name
    · exact .inr ⟨0, unit, by simp [same], rfl, by simp [same]⟩
    · have other : (name == unit.name) = false := by simpa using Ne.symm same
      rw [other, List.find?_cons_of_neg (by simpa using same)]
      rcases ih (start + 1) with ⟨missing, nowhere⟩ | ⟨index, found, listed, isUnit, first⟩
      · exact .inl ⟨missing, nowhere⟩
      · -- One unit has been passed, and the positions go on from the next one.
        rw [Nat.add_assoc, Nat.add_comm 1] at listed
        exact .inr ⟨index + 1, found, listed, isUnit, first⟩

/-- Entering units into a table finds the first name that is repeated. -/
theorem register_eq {known : List (String × Nat)} {seen : List String} (start : Nat)
    (same : ∀ name, (known.lookup name).isSome ↔ name ∈ seen) :
    register known start units =
      match firstRepeated seen (units.map (·.name)) with
      | some name => .refused (.orderMismatch (.repeatedUnit name))
      | none => .done (known ++ table start units) := by
  -- The table has the names that were seen, so that both stop at the same name.
  induction units generalizing known seen start with
  | nil => simp [register, firstRepeated, table]
  | cons unit rest ih =>
    rw [register, List.map_cons, firstRepeated]
    by_cases old : unit.name ∈ seen
    · rw [if_pos ((same _).2 old), if_pos old]
    · have further : ∀ name, ((known ++ [(unit.name, start)]).lookup name).isSome ↔
          name ∈ unit.name :: seen := by
        intro name
        rw [List.lookup_append, Option.isSome_or, Bool.or_eq_true, same, List.mem_cons, or_comm]
        refine or_congr_left ?_
        by_cases own : name = unit.name
        · simp [own]
        · simp [own, List.lookup_cons, beq_eq_false_iff_ne.2 own]
      rw [if_neg (mt (same _).1 old), if_neg old, ih (start + 1) further]
      simp [table]

/-- The positions picked by names, or the reason why there are none. -/
def Picks (units : List CallableUnit) (step : Step (List Nat)) :
    Except OrderMismatch (List CallableUnit) → Prop
  | .error mismatch => step = .refused (.orderMismatch mismatch)
  | .ok target => ∃ positions, step = .done positions ∧ Points units positions target

/-- Marks at the positions of the units whose names have been seen, and only there. -/
def Marks (units : List CallableUnit) (met : List Bool) (seen : List String) : Prop :=
  ∀ (position : Nat) (unit : CallableUnit), units[position]? = some unit →
    met[position]? = some (decide (unit.name ∈ seen))

/-- Where no name has been seen, there is no mark. -/
theorem marks_replicate (units : List CallableUnit) : Marks units (List.replicate units.length false) [] := by
  intro position unit isUnit
  have bound := (List.getElem?_eq_some_iff.1 isUnit).1
  simp [bound]

/-- Marking a unit makes its name a seen one. -/
theorem Marks.set {met : List Bool} {seen : List String} {position : Nat} {unit : CallableUnit}
    (marks : Marks units met seen) (distinct : (units.map (·.name)).Nodup)
    (isUnit : units[position]? = some unit) :
    Marks units (met.set position true) (unit.name :: seen) := by
  intro other found isFound
  by_cases same : position = other
  · subst same
    rw [isUnit, Option.some.injEq] at isFound
    have bound := (List.getElem?_eq_some_iff.1 (marks position unit isUnit)).1
    simp [List.getElem?_set_self bound, isFound]
  · -- Another position has another name, so that its mark stays as it is.
    have differs : unit.name ≠ found.name := mt (position_eq_iff distinct isUnit isFound).2 same
    rw [List.getElem?_set_ne same, marks other found isFound]
    simp [Ne.symm differs]

/-- Following the table with marks picks the units that the names pick. -/
theorem follow_picks (distinct : (units.map (·.name)).Nodup) {order seen : List String} {met : List Bool}
    (marks : Marks units met seen) :
    Picks units (follow (table 0 units) met order) (pick units seen order) := by
  -- Each name leads to one position, the mark of which tells whether the name was listed before.
  induction order generalizing seen met with
  | nil => exact ⟨[], rfl, .nil⟩
  | cons name rest ih =>
    rw [follow, pick]
    rcases lookup_table_cases name 0 units with ⟨missing, nowhere⟩ | ⟨position, unit, listed, isUnit, first⟩
    · rw [missing, nowhere]
      rfl
    · rw [Nat.zero_add] at listed
      obtain ⟨_, rfl⟩ := (CallableUnit.find?_name_eq_some_iff distinct).1 first
      simp only [listed, first, marks position unit isUnit, need_some, done_bind]
      by_cases old : unit.name ∈ seen
      · simp only [old]
        rfl
      · have picks := ih (marks.set distinct isUnit)
        simp only [old]
        -- What the further names lead to decides.
        cases picked : pick units (unit.name :: seen) rest with
        | error mismatch =>
          rw [picked] at picks
          simp only [Picks] at picks
          rw [picks]
          rfl
        | ok target =>
          rw [picked] at picks
          obtain ⟨positions, went, points⟩ := picks
          rw [went]
          exact ⟨position :: positions, rfl, .cons isUnit points⟩

/-- Listing positions by names picks the units that the names pick. -/
theorem listedPositions_picks (units : List CallableUnit) (order : List String) :
    Picks units (listedPositions units order) (inListedOrder units order) := by
  rw [listedPositions, inListedOrder, @register_eq units [] [] 0 (by simp)]
  -- A repeated name makes both refuse; otherwise both go on to the lengths.
  cases repeated : firstRepeated [] (units.map (·.name)) with
  | some name => rfl
  | none =>
    obtain ⟨distinct, _⟩ := firstRepeated_eq_none_iff.1 repeated
    simp only [done_bind, List.nil_append]
    split
    · rfl
    · exact follow_picks distinct (marks_replicate units)

end Listing

section Filling

variable {text : Text} {units listed : List CallableUnit} {positions : List Nat}

/-- A placed unit has a text. -/
theorem unitText_eq {unit : CallableUnit} (placed : unit.IsPlaced text) :
    unitText text unit = some (unit.text text) :=
  have full := placed.fullSpan_fits
  Text.slice?_eq full.starts full.stops full.ordered

/-- Between units that lie apart there are gaps. -/
theorem gaps_eq (points : Points units positions listed) (placed : ∀ unit ∈ listed, unit.IsPlaced text)
    (apart : listed.Pairwise fun first second => first.span.stop ≤ second.fullStart) :
    gaps text units (positions.zip positions.tail) = some (Arrangement.gapsBetween text listed) := by
  induction points with
  | nil => rfl
  | cons isFirst points ih =>
    cases points with
    | nil => rfl
    | @cons _ second _ rest isSecond points =>
      obtain ⟨before, restApart⟩ := List.pairwise_cons.1 apart
      obtain ⟨firstPlaced, restPlaced⟩ := List.forall_mem_cons.1 placed
      have further := ih restPlaced restApart
      -- The gap starts where a unit stops, and stops where the next one starts.
      have gap := Text.slice?_eq firstPlaced.fits.stops
        (restPlaced second (List.mem_cons_self ..)).fullSpan_fits.starts
        (before second (List.mem_cons_self ..))
      simp only [CallableUnit.fullSpan] at gap
      simp only [gaps, List.tail_cons, List.zip_cons_cons] at further ⊢
      rw [List.mapM_cons, further, isFirst, isSecond]
      simp [gap, Arrangement.gapsBetween]

/-- What follows an offset tells whether an expression is continued. -/
theorem continues_eq {source behind : Text} {stop : Nat} (isBehind : onward source stop = some behind)
    (front rest : Text) :
    continues (front ++ rest) front.byteSize source stop = some (continuesExpression rest behind) := by
  -- The text behind is asked only where the rest has nothing significant.
  rw [continues, onward_append, isBehind]
  simp only [Option.bind_eq_bind, Option.bind_some, nextSignificant_eq]
  unfold continuesExpression
  cases rest.nextSignificant with
  | some c => simp
  | none => cases behind.nextSignificant <;> simp

/-- A unit is refused exactly if it has no end of its own and what follows continues it. -/
theorem checkEnds_cons {unit : CallableUnit} {position offset stop : Nat} {whole : Text} {runsOn : Bool}
    (isUnit : units[position]? = some unit) (placed : unit.IsPlaced text)
    (follows : continues whole offset text stop = some runsOn) (rest : List (Nat × Nat)) :
    checkEnds text units whole stop ((position, offset) :: rest) =
      if !unit.isTerminated (unit.text text) && runsOn then .refused (.unterminatedUnit unit.name)
      else checkEnds text units whole stop rest := by
  -- What follows is asked only where the unit has no end of its own.
  rw [checkEnds, isUnit, follows]
  simp only [need_some, done_bind, unitText_eq placed]
  cases unit.isTerminated (unit.text text) <;> cases runsOn <;> rfl

/-- Filling slots gives the units with the joiners in front, and the ends that are noted are theirs. -/
theorem exists_fill {behind : Text} {stop : Nat} {joiner : Nat → Option Text}
    (isBehind : onward text stop = some behind) (points : Points units positions listed)
    (placed : ∀ unit ∈ listed, unit.IsPlaced text) {joiners : List Text} (slot : Nat) (filled : Text)
    (length : joiners.length = listed.length)
    (answers : ∀ index < joiners.length, joiner (slot + index) = joiners[index]?) :
    ∃ whole ends, whole = filled ++ following (listed.map (·.text text)) joiners ∧
      fill text units joiner slot filled positions = some (whole, ends) ∧
      checkEnds text units whole stop ends =
        match Arrangement.runningOn? text behind listed (joiners.drop 1) with
        | some unit => .refused (.unterminatedUnit unit.name)
        | none => .done () := by
  -- With every slot one joiner and one unit are used up.
  induction points generalizing joiners slot filled with
  | nil => exact ⟨filled, [], by simp [following], rfl, rfl⟩
  | @cons position unit _ rest isUnit points ih =>
    cases joiners with
    | nil => simp at length
    | cons first joiners =>
      obtain ⟨unitPlaced, restPlaced⟩ := List.forall_mem_cons.1 placed
      have isFirst : joiner slot = some first := by simpa using answers 0 (by simp)
      have further : ∀ index < joiners.length, joiner (slot + 1 + index) = joiners[index]? := by
        intro index bound
        rw [Nat.add_assoc, Nat.add_comm 1]
        simpa using answers (index + 1) (by simpa using bound)
      obtain ⟨whole, ends, same, went, checked⟩ :=
        ih restPlaced (slot + 1) (filled ++ first ++ unit.text text) (Nat.succ.inj length) further
      refine ⟨whole, (position, (filled ++ first ++ unit.text text).byteSize) :: ends, ?_, ?_, ?_⟩
      · simp [same, following]
      · rw [fill, isUnit, isFirst]
        simp only [Option.bind_eq_bind, Option.bind_some, unitText_eq unitPlaced, went, Option.pure_def]
      · -- Behind the end of the unit stand the further ones.
        have follows := continues_eq isBehind (filled ++ first ++ unit.text text)
          (following (rest.map (·.text text)) joiners)
        rw [← same] at follows
        rw [checkEnds_cons isUnit unitPlaced follows, checked, List.drop_succ_cons, List.drop_zero,
          Arrangement.runningOn?]
        split <;> rfl

end Filling

section Splicing

variable {text : Text} {units : List CallableUnit} {arrangement : Arrangement}

/-- In front of every unit stands what an arrangement puts there. -/
theorem joiner_eq (text : Text) (arrangement : Arrangement) {slot : Nat}
    (bound : slot < (arrangement.joiners text).length + 1) :
    joiner (arrangement.gaps text) (text.separator arrangement.block.start) slot =
      ([] :: arrangement.joiners text)[slot]? := by
  cases slot with
  | zero => rfl
  | succ slot =>
    -- Behind the first unit the joiners are one step ahead of the slots.
    rw [Arrangement.length_joiners] at bound
    have within : slot < (arrangement.gaps text).length := by omega
    rw [joiner, if_neg (by simp), minus_of_le (by omega), List.getElem?_cons_succ, Arrangement.joiners,
      Arrangement.isInterleaved]
    simp only [Option.bind_eq_bind, Option.bind_some, Nat.add_sub_cancel]
    -- Gaps are kept or replaced by the separator, as the arrangement is interleaved or not.
    split
    · rfl
    · simp [within]

/-- The first and the last position give the block. -/
theorem block_eq {source : List Nat} (some_unit : arrangement.source ≠ [])
    (points : Points units source arrangement.source) : block units source = some arrangement.block := by
  -- A block that is not empty has a first and a last unit, each at a position.
  obtain ⟨first, isFirst⟩ := Option.isSome_iff_exists.1 (List.isSome_head?.2 some_unit)
  obtain ⟨last, isLast⟩ := Option.isSome_iff_exists.1 (List.getLast?_isSome.2 some_unit)
  obtain ⟨start, startFound, startUnit⟩ := points.exists_position (List.head?_eq_getElem? ▸ isFirst)
  obtain ⟨stop, stopFound, stopUnit⟩ := points.exists_position (List.getLast?_eq_getElem? ▸ isLast)
  have positive := List.length_pos_iff.2 some_unit
  rw [block, startFound, points.length_eq, minus_of_le positive]
  simp [startUnit, stopFound, stopUnit, Arrangement.block, isFirst, isLast]

/-- Positions in the new order give the new text of the block. -/
theorem exists_replacement {target : List Nat} {behind : Text} (sound : arrangement.IsSound text)
    (some_unit : arrangement.source ≠ []) (isBehind : onward text arrangement.block.stop = some behind)
    (points : Points units target arrangement.target) :
    ∃ ends,
      fill text units (joiner (arrangement.gaps text) (text.separator arrangement.block.start)) 0 [] target =
        some (arrangement.replacement text, ends) ∧
      checkEnds text units (arrangement.replacement text) arrangement.block.stop ends =
        match Arrangement.runningOn? text behind arrangement.target (arrangement.joiners text) with
        | some unit => .refused (.unterminatedUnit unit.name)
        | none => .done () := by
  -- What filling asks for: the units are placed, and there is a joiner for each.
  have placed : ∀ unit ∈ arrangement.target, unit.IsPlaced text :=
    fun unit member => sound.placed unit (sound.perm.mem_iff.1 member)
  have length : ([] :: arrangement.joiners text).length = arrangement.target.length := by
    rw [List.length_cons, Arrangement.length_joiners, Arrangement.length_gaps some_unit, sound.perm.length_eq]
  obtain ⟨whole, ends, same, filled, checked⟩ := exists_fill isBehind points placed 0 [] length
    fun index bound => (congrArg _ (Nat.zero_add index)).trans (joiner_eq text arrangement bound)
  rw [List.nil_append, ← weave_eq_following] at same
  subst same
  exact ⟨ends, filled, checked⟩

/-- Positions lead to the splice that an arrangement asks for. -/
theorem splice_eq {source target : List Nat} (sound : arrangement.IsSound text)
    (some_unit : arrangement.source ≠ []) (distinct : (units.map (·.name)).Nodup)
    (sourcePoints : Points units source arrangement.source)
    (targetPoints : Points units target arrangement.target) :
    splice text units source target = Step.of (arrangement.splice? text) := by
  obtain ⟨fits, _⟩ := sound.block_spec some_unit
  rw [splice, Arrangement.splice?]
  simp only [targetPoints.eq_iff distinct sourcePoints]
  split
  · rfl
  · have between : gaps text units (source.zip source.tail) = some (arrangement.gaps text) :=
      gaps_eq sourcePoints sound.placed sound.apart
    have slice := Text.slice?_eq fits.starts fits.stops fits.ordered
    obtain ⟨before, behind, whole, size⟩ := fits.stops
    have isCut : text.cut? arrangement.block.stop = some (before, behind) :=
      Text.cut?_eq_some_iff.2 ⟨whole, size⟩
    have isBehind : onward text arrangement.block.stop = some behind := by rw [onward, isCut, Option.map_some]
    obtain ⟨ends, filled, checked⟩ := exists_replacement sound some_unit isBehind targetPoints
    -- Every position and every offset is in place.
    simp only [block_eq some_unit sourcePoints, between, separator_eq fits.starts, filled, slice, need_some,
      done_bind, checked, isCut, Option.map_some, Option.getD_some]
    split
    · rfl
    · -- The same unit is found to run on, or none is.
      cases Arrangement.runningOn? text behind arrangement.target (arrangement.joiners text) with
      | some unit => rfl
      | none => rfl

/-- Planning by positions never fails, and comes to the same splice. -/
theorem plan_never_fails (text : Text) (units : List CallableUnit) (order : List String) :
    plan text units order = Step.of (CallersFirst.plan text units order) := by
  by_cases none : units = []
  · subst none
    rfl
  · obtain ⟨source, sorted, sourcePoints⟩ := exists_sourcePositions units
    rw [plan, if_neg (by simpa using none), sorted, CallersFirst.plan_eq none]
    simp only [need_some, done_bind, checkApart_eq sourcePoints]
    have picks := listedPositions_picks units order
    -- The checks are made one after the other, in the same order.
    cases checked : units.forM (checkUnit text) with
    | error refusal =>
      rw [arrange, checked]
      rfl
    | ok _ =>
      cases apart : CallersFirst.checkApart (inSourceOrder units) with
      | error refusal =>
        rw [arrange, checked]
        simp only [apart]
        rfl
      | ok _ =>
        cases listed : inListedOrder units order with
        | error mismatch =>
          rw [listed] at picks
          simp only [Picks] at picks
          rw [picks, arrange, checked]
          simp only [apart, listed]
          rfl
        | ok target =>
          rw [listed] at picks
          -- All checks are passed, so that there is an arrangement to make a splice of.
          obtain ⟨positions, went, targetPoints⟩ := picks
          have arranged : arrange text units order = .ok ⟨inSourceOrder units, target⟩ := by
            rw [arrange, checked]
            simp only [apart, listed]
            rfl
          obtain ⟨sound, perm⟩ := isSound_of_arrange arranged
          obtain ⟨_, _, _, distinct, _⟩ := arrange_eq_ok_iff.1 arranged
          have some_unit : inSourceOrder units ≠ [] := fun empty => none (empty ▸ perm).nil_eq.symm
          rw [went, arranged]
          exact splice_eq sound some_unit distinct sourcePoints targetPoints

/-- A splice that fits a text is made. -/
theorem applyTo_eq {splice : Splice} (fits : splice.span.Fits text) :
    applyTo splice text = splice.applyTo? text := by
  obtain ⟨before, between, after, whole, startSize, stopSize⟩ :=
    fits.starts.exists_parts fits.stops fits.ordered
  have inside := fits.stops.le_byteSize
  -- Both sides cut the text at the two ends of the span, where the parts meet.
  rw [applyTo, minus_of_le (by rw [Span.length]; omega), whole, Splice.applyTo?_eq_some startSize stopSize,
    ← stopSize, onward_append, List.append_assoc, ← startSize, upTo_append]
  rfl

end Splicing

/--
Rearranging by positions and offsets never fails, whatever the units and the names are.

It comes to the same plan and the same text, and a refused plan changes nothing.
-/
theorem render_never_fails (text : Text) (units : List CallableUnit) (order : List String) :
    plan text units order = Step.of (CallersFirst.plan text units order) ∧
    render text units order =
      some ((CallersFirst.render text units order).isSome, CallersFirst.render text units order) ∧
    ∀ refusal, CallersFirst.plan text units order = .error refusal →
      render text units order = some (false, none) := by
  have same := plan_never_fails text units order
  refine ⟨same, ?_, fun refusal refused => ?_⟩
  · rw [render, same, CallersFirst.render]
    cases planned : CallersFirst.plan text units order with
    | error refusal => rfl
    | ok asked =>
      cases asked with
      | none => rfl
      | some splice =>
        -- A planned splice fits the text, so that it can be made.
        have fits := (keepsInk_of_plan planned).1.fits
        simp only [of_ok, applyTo_eq fits, Splice.applyTo?_of_fits fits]
        rfl
  · rw [render, same, refused]
    rfl

/-- A unit that stops inside a character, before it starts, is refused. -/
theorem render_never_fails_misplaced :
    CallersFirst.plan ['é'] [⟨"f", .declaration, ⟨2, 1⟩, [], []⟩] ["f"] =
      .error (.invalidRange "f" ⟨2, 1⟩ 2) ∧
    render ['é'] [⟨"f", .declaration, ⟨2, 1⟩, [], []⟩] ["f"] = some (false, none) :=
  ⟨rfl, (render_never_fails _ _ _).2.2 _ rfl⟩

end Guarded

end CallersFirst
