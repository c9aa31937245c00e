import CallersFirst.Arrangement
import CallersFirst.Proofs.CallableUnit
import CallersFirst.Proofs.Except
import Mathlib.Data.List.Perm.Subperm

/-! Exactly which units and names an arrangement is made of. -/

namespace CallersFirst

/-- A check and a further step succeed together if both succeed. -/
theorem check_bind_eq_ok_iff {ε α : Type} {check : Except ε Unit} {next : Unit → Except ε α} {result : α} :
    (check >>= next) = .ok result ↔ check = .ok () ∧ next () = .ok result := by
  rw [bind_eq_ok_iff]
  exact ⟨fun ⟨(), checked, went⟩ => ⟨checked, went⟩, fun both => ⟨(), both⟩⟩

section Units

variable {text : Text} {unit : CallableUnit}

/-- A span is accepted exactly if it fits the text. -/
theorem checkSpan_eq_ok_iff {name : String} {span : Span} :
    checkSpan text name span = .ok () ↔ span.Fits text := by
  -- The check asks for a slice, which exists exactly where a span fits.
  rw [Span.fits_iff_isSome_slice?, checkSpan]
  split
  · simp_all
  · simp_all

/-- Comments are accepted if they fit the text between a floor and the unit, in order and apart. -/
theorem checkComments_eq_ok_iff {comments : List Span} :
    ∀ {floor : Nat}, checkComments text unit floor comments = .ok () ↔
      (∀ comment ∈ comments, comment.Fits text) ∧
      (∀ comment ∈ comments, floor ≤ comment.start ∧ comment.stop ≤ unit.span.start) ∧
      comments.Pairwise fun first second => first.stop ≤ second.start := by
  -- The end of each comment is the floor of those after it.
  induction comments with
  | nil => simp [checkComments]
  | cons comment rest ih =>
    intro floor
    rw [checkComments, check_bind_eq_ok_iff, checkSpan_eq_ok_iff]
    simp only [List.forall_mem_cons, List.pairwise_cons]
    constructor
    · rintro ⟨fits, checked⟩
      split at checked
      · cases checked
      · rename_i inOrder
        -- Those after the comment start behind it, and so behind the floor below it.
        obtain ⟨restFit, restBetween, restApart⟩ := ih.1 checked
        have ordered := fits.ordered
        refine ⟨⟨fits, restFit⟩, ⟨by omega, fun other member => ?_⟩,
          fun other member => (restBetween other member).1, restApart⟩
        have between := restBetween other member
        omega
    · rintro ⟨⟨fits, restFit⟩, ⟨between, restBetween⟩, before, restApart⟩
      refine ⟨fits, ?_⟩
      rw [if_neg (by omega)]
      exact ih.2 ⟨restFit, fun other member => ⟨before other member, (restBetween other member).2⟩, restApart⟩

/-- A unit is accepted exactly if it is placed. -/
theorem checkUnit_eq_ok_iff : checkUnit text unit = .ok () ↔ unit.IsPlaced text := by
  -- No comment can start before the first byte, so that the first floor asks for nothing.
  rw [checkUnit, check_bind_eq_ok_iff, checkSpan_eq_ok_iff, checkComments_eq_ok_iff]
  constructor
  · rintro ⟨fits, commentsFit, between, apart⟩
    exact ⟨fits, commentsFit, apart, fun comment member => (between comment member).2⟩
  · intro placed
    exact ⟨placed.fits, placed.comments_fit,
      fun comment member => ⟨Nat.zero_le _, placed.comments_before comment member⟩, placed.comments_apart⟩

/-- Units are accepted one by one. -/
theorem forM_checkUnit_eq_ok_iff {units : List CallableUnit} :
    units.forM (checkUnit text) = .ok () ↔ ∀ unit ∈ units, unit.IsPlaced text := by
  induction units with
  | nil => simp [List.forM, pure, Except.pure]
  | cons unit rest ih => rw [List.forM, check_bind_eq_ok_iff, checkUnit_eq_ok_iff, ih, List.forall_mem_cons]

/-- Placed units are accepted together exactly if each of them stops before all later ones start. -/
theorem checkApart_eq_ok_iff {units : List CallableUnit} (placed : ∀ unit ∈ units, unit.IsPlaced text) :
    checkApart units = .ok () ↔ units.Pairwise fun first second => first.span.stop ≤ second.fullStart := by
  -- Only neighbours are compared, but a placed unit does not stop before it starts.
  induction units with
  | nil => simp [checkApart]
  | cons first rest ih =>
    cases rest with
    | nil => simp [checkApart]
    | cons second rest =>
      have restPlaced : ∀ unit ∈ second :: rest, unit.IsPlaced text :=
        fun unit member => placed unit (List.mem_cons_of_mem _ member)
      have ordered := (restPlaced second (List.mem_cons_self ..)).fullSpan_fits.ordered
      simp only [CallableUnit.fullSpan] at ordered
      rw [checkApart, List.pairwise_cons, ← ih restPlaced]
      split
      · rename_i overlap
        simp only [reduceCtorEq, false_iff, not_and]
        -- The neighbours alone contradict the order.
        intro before
        have := before second (List.mem_cons_self ..)
        omega
      · rename_i apart
        refine ⟨fun checked => ⟨fun other member => ?_, checked⟩, fun both => both.2⟩
        -- Everything after the neighbour starts even later.
        rcases List.mem_cons.1 member with rfl | member
        · omega
        · have := (List.pairwise_cons.1 ((ih restPlaced).1 checked)).1 other member
          omega

end Units

section Names

variable {units picked target : List CallableUnit}

/-- No name is repeated exactly if the names are all different and none was seen before. -/
theorem firstRepeated_eq_none_iff {names : List String} :
    ∀ {seen}, firstRepeated seen names = none ↔ names.Nodup ∧ ∀ name ∈ names, name ∉ seen := by
  -- Each name counts as seen for those after it.
  induction names with
  | nil => simp [firstRepeated]
  | cons name rest ih =>
    intro seen
    rw [firstRepeated, List.nodup_cons, List.forall_mem_cons]
    split
    · rename_i old
      simp [old]
    · rename_i new
      rw [ih]
      simp only [List.mem_cons, not_or]
      constructor
      · rintro ⟨distinct, apart⟩
        exact ⟨⟨fun again => (apart name again).1 rfl, distinct⟩, new, fun other member => (apart other member).2⟩
      · rintro ⟨⟨missing, distinct⟩, _, apart⟩
        exact ⟨distinct, fun other member => ⟨fun same => missing (same ▸ member), apart other member⟩⟩

/-- Names pick units exactly if they are the names of these units, all different and new. -/
theorem pick_eq_ok_iff (distinct : (units.map (·.name)).Nodup) {order : List String} :
    ∀ {seen picked}, pick units seen order = .ok picked ↔
      picked.map (·.name) = order ∧ (∀ unit ∈ picked, unit ∈ units) ∧ order.Nodup ∧
        ∀ name ∈ order, name ∉ seen := by
  -- Each name picks the one unit it belongs to, and counts as seen from then on.
  induction order with
  | nil =>
    intro seen picked
    simp only [pick, Except.ok.injEq, List.map_eq_nil_iff, List.nodup_nil, List.not_mem_nil]
    constructor
    · rintro rfl
      simp
    · rintro ⟨rfl, _⟩
      rfl
  | cons name rest ih =>
    intro seen picked
    rw [pick]
    split
    · -- No unit has the name, so no list of units can start with it.
      rename_i missing
      simp only [reduceCtorEq, false_iff]
      rintro ⟨named, inside, _⟩
      cases picked with
      | nil => simp at named
      | cons unit others =>
        have found := (CallableUnit.find?_name_eq_some_iff distinct).2
          ⟨inside unit (by simp), (List.cons.inj named).1⟩
        rw [missing] at found
        cases found
    · -- The unit that has the name comes first, unless the name was listed before.
      rename_i unit found
      obtain ⟨member, rfl⟩ := (CallableUnit.find?_name_eq_some_iff distinct).1 found
      split
      · rename_i old
        simp [old]
      · rename_i new
        constructor
        · intro joined
          obtain ⟨others, further, same⟩ := bind_eq_ok_iff.1 joined
          cases same
          obtain ⟨rfl, inside, distinctRest, unseen⟩ := ih.1 further
          have fresh : unit.name ∉ others.map (·.name) := fun again => unseen _ again (List.mem_cons_self ..)
          exact ⟨rfl, List.forall_mem_cons.2 ⟨member, inside⟩, List.nodup_cons.2 ⟨fresh, distinctRest⟩,
            List.forall_mem_cons.2 ⟨new, fun name listed old => unseen name listed (List.mem_cons_of_mem _ old)⟩⟩
        · -- The first unit of any such list has the name, and no other unit does.
          rintro ⟨named, inside, distinctAll, unseen⟩
          cases picked with
          | nil => simp at named
          | cons first others =>
            obtain ⟨sameName, rfl⟩ := List.cons.inj named
            obtain ⟨firstInside, othersInside⟩ := List.forall_mem_cons.1 inside
            obtain ⟨fresh, distinctRest⟩ := List.nodup_cons.1 distinctAll
            have same : first = unit := List.inj_on_of_nodup_map distinct firstInside member sameName
            have further : pick units (unit.name :: seen) (others.map (·.name)) = .ok others :=
              ih.2 ⟨rfl, othersInside, distinctRest, fun name listed => List.not_mem_cons_of_ne_of_not_mem
                (fun same => fresh (same ▸ listed)) (unseen name (List.mem_cons_of_mem _ listed))⟩
            rw [further, same]
            rfl

/-- Units can be listed in an order exactly if it is a permutation of their names, all different. -/
theorem inListedOrder_eq_ok_iff {order : List String} :
    inListedOrder units order = .ok target ↔
      (units.map (·.name)).Nodup ∧ target.Perm units ∧ target.map (·.name) = order := by
  unfold inListedOrder
  split
  · -- A repeated name rules out every order.
    rename_i name repeated
    simp only [reduceCtorEq, false_iff, not_and]
    intro distinct
    rw [firstRepeated_eq_none_iff.2 ⟨distinct, by simp⟩] at repeated
    cases repeated
  · rename_i unrepeated
    have distinct := (firstRepeated_eq_none_iff.1 unrepeated).1
    split
    · -- A permutation has as many names as there are units.
      rename_i differs
      simp only [reduceCtorEq, false_iff, not_and]
      rintro _ perm rfl
      exact differs (by rw [List.length_map, perm.length_eq])
    · rename_i sameLength
      rw [pick_eq_ok_iff distinct]
      constructor
      · rintro ⟨rfl, inside, distinctOrder, _⟩
        -- As many different units as there are, all of them from the list, are the whole list.
        have part : target.Subperm units := List.subperm_of_subset distinctOrder.of_map inside
        rw [List.length_map, not_not] at sameLength
        exact ⟨distinct, part.perm_of_length_le (Nat.le_of_eq sameLength.symm), rfl⟩
      · rintro ⟨_, perm, rfl⟩
        exact ⟨rfl, fun unit => perm.mem_iff.1, (perm.map _).nodup_iff.2 distinct, by simp⟩

end Names

/-- Sorting units by where they start loses and adds none. -/
theorem inSourceOrder_perm (units : List CallableUnit) : (inSourceOrder units).Perm units :=
  List.mergeSort_perm _ _

/-- Sorted units do not start before those in front of them. -/
theorem pairwise_inSourceOrder (units : List CallableUnit) :
    (inSourceOrder units).Pairwise fun first second => first.fullStart ≤ second.fullStart := by
  have sorted : (inSourceOrder units).Pairwise fun first second =>
      decide (first.fullStart ≤ second.fullStart) = true :=
    List.pairwise_mergeSort (by simp; omega) (by simp; omega) units
  simpa only [decide_eq_true_eq] using sorted

/-- Units are arranged exactly if all are placed, apart in the text and listed once each. -/
theorem arrange_eq_ok_iff {text : Text} {units : List CallableUnit} {order : List String}
    {arrangement : Arrangement} :
    arrange text units order = .ok arrangement ↔
      (∀ unit ∈ units, unit.IsPlaced text) ∧
      (inSourceOrder units).Pairwise (fun first second => first.span.stop ≤ second.fullStart) ∧
      arrangement.source = inSourceOrder units ∧
      (units.map (·.name)).Nodup ∧ arrangement.target.Perm units ∧
      arrangement.target.map (·.name) = order := by
  -- The checks are made one after the other, each on what the earlier ones have accepted.
  rw [arrange, check_bind_eq_ok_iff, forM_checkUnit_eq_ok_iff]
  refine and_congr_right fun placed => ?_
  have sortedPlaced : ∀ unit ∈ inSourceOrder units, unit.IsPlaced text :=
    fun unit member => placed unit ((inSourceOrder_perm units).mem_iff.1 member)
  rw [check_bind_eq_ok_iff, checkApart_eq_ok_iff sortedPlaced, ← inListedOrder_eq_ok_iff]
  refine and_congr_right fun _ => ?_
  -- What is listed becomes the target, whatever was sorted.
  cases listed : inListedOrder units order with
  | error mismatch => simp [throw, throwThe, MonadExceptOf.throw]
  | ok target =>
    obtain ⟨source, target'⟩ := arrangement
    simp only [pure, Except.pure, Except.ok.injEq, Arrangement.mk.injEq]
    exact and_congr_left fun _ => eq_comm

end CallersFirst
