import Mathlib.Data.PFun

/-! Loops that take turns until one of them gives a result. -/

namespace CallersFirst

namespace Loops

/-- Turns as a partial function, without a value where a turn fails. -/
def turns {σ ρ : Type} (turn : σ → Option (ρ ⊕ σ)) : σ →. ρ ⊕ σ :=
  fun state => Part.ofOption (turn state)

open Classical in
/--
Takes turns until one of them gives a result instead of a new state.

There is no result if the turns never come to an end, or if one of them fails.
-/
noncomputable def loop? {σ ρ : Type} (turn : σ → Option (ρ ⊕ σ)) (state : σ) : Option ρ :=
  ((turns turn).fix state).toOption

section Loop

variable {σ ρ : Type} {turn : σ → Option (ρ ⊕ σ)} {state : σ}

/-- A turn has the value that it gives. -/
theorem mem_turns {value : ρ ⊕ σ} (gives : turn state = some value) : value ∈ turns turn state :=
  Part.mem_ofOption.2 gives

/-- A turn with a result ends the loop. -/
theorem loop?_of_inl {result : ρ} (ends : turn state = some (.inl result)) : loop? turn state = some result := by
  classical
  exact Part.toOption_eq_some_iff.2 (PFun.fix_stop (mem_turns ends))

/-- After a turn with a new state the loop goes on from there. -/
theorem loop?_of_inr {other : σ} (goesOn : turn state = some (.inr other)) :
    loop? turn state = loop? turn other := by
  rw [loop?, loop?, PFun.fix_fwd_eq (mem_turns goesOn)]

end Loop

end Loops

end CallersFirst
