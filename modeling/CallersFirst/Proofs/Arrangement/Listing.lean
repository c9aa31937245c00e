import CallersFirst.Proofs.Arrangement.Guarded
import CallersFirst.Proofs.Arrangement.Relocation

/-! The order in which units are listed makes no difference to how they are rearranged. -/

namespace CallersFirst

section Perm

variable {text : Text} {units listed : List CallableUnit} {order : List String}

/-- Units that are not empty lead to the same arrangement in whatever order they are listed. -/
theorem arrange_of_perm {arrangement : Arrangement} (perm : listed.Perm units)
    (filled : ∀ unit ∈ units, unit.fullStart < unit.span.stop)
    (arranged : arrange text units order = .ok arrangement) : arrange text listed order = .ok arrangement := by
  obtain ⟨placed, apart, isSource, distinct, isTarget, named⟩ := arrange_eq_ok_iff.1 arranged
  -- The units start at different offsets, so that sorting either listing gives the same.
  have sorted : inSourceOrder listed = inSourceOrder units := by
    refine inSourceOrder_eq_of_perm ((inSourceOrder_perm units).trans perm.symm) apart fun unit member => ?_
    exact filled unit ((inSourceOrder_perm units).mem_iff.1 member)
  rw [arrange_eq_ok_iff, sorted]
  exact ⟨fun unit member => placed unit (perm.mem_iff.1 member), apart, isSource,
    (perm.map _).nodup_iff.2 distinct, isTarget.trans perm.symm, named⟩

/-- What is planned for some units is planned for every other listing of them. -/
theorem plan_of_perm {result : Option Splice} (perm : listed.Perm units)
    (filled : ∀ unit ∈ units, unit.fullStart < unit.span.stop)
    (planned : plan text units order = .ok result) : plan text listed order = .ok result := by
  by_cases none : units = []
  · subst none
    rw [perm.eq_nil]
    exact planned
  · have some_listed : listed ≠ [] := fun empty => none (empty ▸ perm).nil_eq.symm
    -- The arrangement depends on the units and not on their listing, and all else depends on it alone.
    rw [plan_eq none] at planned
    obtain ⟨arrangement, arranged, asked⟩ := bind_eq_ok_iff.1 planned
    rw [plan_eq some_listed, arrange_of_perm perm filled arranged]
    exact asked

end Perm

namespace Guarded

/-- Planning by positions ends with a result exactly if planning does. -/
theorem plan_eq_done_iff {text : Text} {units : List CallableUnit} {order : List String}
    {result : Option Splice} :
    plan text units order = .done result ↔ CallersFirst.plan text units order = .ok result := by
  rw [plan_never_fails]
  cases CallersFirst.plan text units order with
  | error refusal => simp [Step.of]
  | ok asked => simp [Step.of]

end Guarded

/--
The order in which units are listed has no effect on what is planned for them.

If none of them is empty, any two listings lead to the same splice, to none, or are both refused. So they do if
positions in the one list or in the other are worked with all along.
-/
theorem plan_relisted {text : Text} {units listed : List CallableUnit} {order : List String}
    {result : Option Splice} (filled : ∀ unit ∈ units, unit.fullStart < unit.span.stop)
    (perm : listed.Perm units) :
    (plan text units order = .ok result ↔ plan text listed order = .ok result) ∧
    (Guarded.plan text units order = .done result ↔ Guarded.plan text listed order = .done result) := by
  have relisted : plan text units order = .ok result ↔ plan text listed order = .ok result :=
    ⟨plan_of_perm perm filled, plan_of_perm perm.symm fun unit member => filled unit (perm.mem_iff.1 member)⟩
  refine ⟨relisted, ?_⟩
  rw [Guarded.plan_eq_done_iff, Guarded.plan_eq_done_iff, relisted]

/-- In the sample the second function is put first, whichever of the two is listed first. -/
theorem plan_relisted_sample :
    (∀ unit ∈ [Sample.plain, Sample.commented], unit.fullStart < unit.span.stop) ∧
    plan Sample.mixed [Sample.plain, Sample.commented] ["a", "b"] = .ok (some Sample.mixedSplice) ∧
    plan Sample.mixed [Sample.commented, Sample.plain] ["a", "b"] = .ok (some Sample.mixedSplice) ∧
    Guarded.plan Sample.mixed [Sample.commented, Sample.plain] ["a", "b"] = .done (some Sample.mixedSplice) := by
  have filled : ∀ unit ∈ [Sample.plain, Sample.commented], unit.fullStart < unit.span.stop := by decide
  obtain ⟨relisted, byPositions⟩ := plan_relisted filled (List.Perm.swap Sample.plain Sample.commented [])
  exact ⟨filled, Sample.plan_mixed, relisted.1 Sample.plan_mixed,
    byPositions.1 (Guarded.plan_eq_done_iff.2 Sample.plan_mixed)⟩

end CallersFirst
