import CallersFirst.Span

/-! Why units cannot be rearranged. -/

namespace CallersFirst

/-- How a list of names fails to list the units of a scope once each. -/
inductive OrderMismatch where
  /-- Two units have the same name. -/
  | repeatedUnit (name : String)
  /-- There are more or fewer names than units. -/
  | countDiffers (names units : Nat)
  /-- No unit has this name. -/
  | unknownUnit (name : String)
  /-- A name is listed a second time. -/
  | listedTwice (name : String)
deriving DecidableEq, Repr

/-- Why a rearrangement is refused. -/
inductive ArrangeError where
  /-- A range of a unit is no part of the text, or a comment of it is out of place. -/
  | invalidRange (name : String) (span : Span) (size : Nat)
  /-- A unit ends after the next one starts. -/
  | overlappingUnits (first second : String)
  /-- At its new place a unit would be read together with what follows it. -/
  | unterminatedUnit (name : String)
  /-- The names do not list the units once each. -/
  | orderMismatch (mismatch : OrderMismatch)
deriving DecidableEq, Repr

/-- The wording of a mismatch. -/
def OrderMismatch.message : OrderMismatch → String
  | .repeatedUnit name => s!"unit `{name}` appears more than once"
  | .countDiffers names units => s!"{names} names for {units} units"
  | .unknownUnit name => s!"unknown unit `{name}`"
  | .listedTwice name => s!"unit `{name}` is listed twice"

/-- The wording of a refusal. -/
def ArrangeError.message : ArrangeError → String
  | .invalidRange name ⟨start, stop⟩ size =>
    s!"Invalid range for `{name}`: [{start}, {stop}) in a source of {size} bytes"
  | .overlappingUnits first second => s!"Units `{first}` and `{second}` overlap"
  | .unterminatedUnit name => s!"Moving `{name}` would run it into the statement after it"
  | .orderMismatch mismatch => "Order is not a permutation of the units: " ++ mismatch.message

end CallersFirst
