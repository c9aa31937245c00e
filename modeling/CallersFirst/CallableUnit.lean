import CallersFirst.Span

/-! Callable units: the function-like definitions that can change places within a scope. -/

namespace CallersFirst

/-- How a callable unit is written in the source. -/
inductive UnitKind where
  /-- A function declaration. -/
  | declaration
  /-- A variable bound to a function value. -/
  | expression
  /-- A method of a class body. -/
  | method
deriving DecidableEq, Repr

/-- One function-like definition of a scope. -/
structure CallableUnit where
  /-- The name the definition binds. -/
  name : String
  /-- How the definition is written. -/
  kind : UnitKind
  /-- The bytes of the definition, from its first keyword through its end. -/
  span : Span
  /-- The comments attached above the definition, in source order. -/
  comments : List Span := []
  /-- The sibling units that the body invokes, in order of discovery. -/
  calls : List String := []
deriving DecidableEq, Repr

namespace CallableUnit

/-- Where a unit starts once the comments attached to it are counted in. -/
def fullStart (unit : CallableUnit) : Nat :=
  match unit.comments with
  | [] => unit.span.start
  | comment :: _ => min comment.start unit.span.start

/-- The bytes of a unit together with the comments attached to it. -/
def fullSpan (unit : CallableUnit) : Span :=
  ⟨unit.fullStart, unit.span.stop⟩

/-- Records a call unless it is recorded already. -/
def addCall (unit : CallableUnit) (callee : String) : CallableUnit :=
  if callee ∈ unit.calls then unit else { unit with calls := unit.calls ++ [callee] }

/-- Whether a unit calls itself. -/
def callsItself (unit : CallableUnit) : Bool :=
  unit.calls.contains unit.name

/-- The comments attached to a unit never make it start later. -/
theorem fullStart_le (unit : CallableUnit) : unit.fullStart ≤ unit.span.start := by
  -- Without comments the two starts agree, and with comments the smaller one is taken.
  unfold fullStart
  split
  · exact Nat.le_refl _
  · exact Nat.min_le_right _ _

/-- Recording calls keeps the list free of repetitions. -/
theorem nodup_calls_addCall {unit : CallableUnit} (distinct : unit.calls.Nodup) (callee : String) :
    (unit.addCall callee).calls.Nodup := by
  -- Only a name that is missing is put at the end.
  unfold addCall
  split
  · exact distinct
  · next missing =>
    simp only [List.nodup_append, distinct, List.nodup_cons, List.not_mem_nil, not_false_eq_true,
      List.nodup_nil, and_self, List.mem_singleton, true_and]
    rintro name known _ rfl rfl
    exact missing known

end CallableUnit

end CallersFirst
