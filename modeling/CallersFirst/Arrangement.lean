import CallersFirst.Arrangement.Continuation
import CallersFirst.Arrangement.Error
import CallersFirst.Notice
import CallersFirst.Splice

/-! Rearranging the units of a source text into a given order by one splice. -/

namespace CallersFirst

/-- The same units in the order of the source and in the order they are to have. -/
structure Arrangement where
  /-- The units by where they start. -/
  source : List CallableUnit
  /-- The units in the new order. -/
  target : List CallableUnit
deriving DecidableEq, Repr

/-- The text of a unit, from its first attached comment through its end. -/
def CallableUnit.text (unit : CallableUnit) (source : Text) : Text :=
  source.slice unit.fullStart unit.span.stop

/-- The line break of a text at an offset: that of the first line ended from there on, or else that of
the first line of all. -/
def Text.usesCrlf (text : Text) (offset : Nat) : Bool :=
  let (before, after) := (text.cut? offset).getD (text, [])
  if '\n' ∈ after then (before ++ after.takeWhile (· ≠ '\n')).getLast? = some '\r'
  else '\n' ∈ text && (text.takeWhile (· ≠ '\n')).getLast? = some '\r'

/-- What stands before an offset on its line, if that is spaces and tabs only. -/
def Text.indentation (text : Text) (offset : Nat) : Text :=
  let (before, _) := (text.cut? offset).getD (text, [])
  let lead := (before.reverse.takeWhile (· ≠ '\n')).reverse
  if lead.all fun c => c = ' ' || c = '\t' then lead else []

/-- An empty line in the manner of the text at an offset, up to the indentation found there. -/
def Text.separator (text : Text) (offset : Nat) : Text :=
  let lineBreak := if text.usesCrlf offset then ['\r', '\n'] else ['\n']
  lineBreak ++ lineBreak ++ text.indentation offset

/-- What follows a piece: the further pieces, each behind its joiner. -/
def following : List Text → List Text → Text
  | [], _ => []
  | piece :: pieces, [] => piece ++ following pieces []
  | piece :: pieces, joiner :: joiners => joiner ++ piece ++ following pieces joiners

/-- Pieces put together with one joiner between each two. -/
def weave : List Text → List Text → Text
  | [], _ => []
  | piece :: pieces, joiners => piece ++ following pieces joiners

namespace Arrangement

/-- The span from the start of the first unit to the end of the last. -/
def block (arrangement : Arrangement) : Span :=
  ⟨(arrangement.source.head?.map (·.fullStart)).getD 0,
    (arrangement.source.getLast?.map (·.span.stop)).getD 0⟩

/-- The texts between neighbouring units of a list. -/
def gapsBetween (text : Text) : List CallableUnit → List Text
  | first :: second :: rest =>
    text.slice first.span.stop second.fullStart :: gapsBetween text (second :: rest)
  | _ => []

/-- The texts between neighbouring units of the source. -/
def gaps (arrangement : Arrangement) (text : Text) : List Text :=
  gapsBetween text arrangement.source

/-- Whether something other than blanks stands between units of the source. -/
def isInterleaved (arrangement : Arrangement) (text : Text) : Bool :=
  (arrangement.gaps text).any (!·.isBlankText)

/-- The texts put between units in their new order.

Content between the units stays where it is, and only blanks are replaced by empty lines. -/
def joiners (arrangement : Arrangement) (text : Text) : List Text :=
  if arrangement.isInterleaved text then arrangement.gaps text
  else (arrangement.gaps text).map fun _ => text.separator arrangement.block.start

/-- The texts of the units in their new order. -/
def pieces (arrangement : Arrangement) (text : Text) : List Text :=
  arrangement.target.map (·.text text)

/-- The text of the block with the units in their new order. -/
def replacement (arrangement : Arrangement) (text : Text) : Text :=
  weave (arrangement.pieces text) (arrangement.joiners text)

/-- The splice that puts the units in their new order. -/
def splice (arrangement : Arrangement) (text : Text) : Splice :=
  ⟨arrangement.block, arrangement.replacement text⟩

/-- The first of the units that would be read together with what follows it, with the given joiners
between them and the given text behind them. -/
def runningOn? (text behind : Text) : List CallableUnit → List Text → Option CallableUnit
  | [], _ => none
  | unit :: rest, joiners =>
    if !unit.isTerminated (unit.text text) &&
        continuesExpression (following (rest.map (·.text text)) joiners) behind then
      some unit
    else runningOn? text behind rest (joiners.drop 1)

/-- The splice that an arrangement asks for, if it changes the text and tears no statement open. -/
def splice? (arrangement : Arrangement) (text : Text) : Except ArrangeError (Option Splice) :=
  let block := arrangement.block
  if arrangement.target.map (·.name) = arrangement.source.map (·.name) then return none
  else if arrangement.replacement text = text.slice block.start block.stop then return none
  else
    let behind := ((text.cut? block.stop).map (·.2)).getD []
    match runningOn? text behind arrangement.target (arrangement.joiners text) with
    | some unit => throw (.unterminatedUnit unit.name)
    | none => return some (arrangement.splice text)

end Arrangement

/-- Accepts a span that is a part of the text. -/
def checkSpan (text : Text) (name : String) (span : Span) : Except ArrangeError Unit :=
  if (text.slice? span.start span.stop).isSome then .ok ()
  else .error (.invalidRange name span text.byteSize)

/-- Accepts comments that are parts of the text, in order, and end before the unit starts. -/
def checkComments (text : Text) (unit : CallableUnit) (floor : Nat) :
    List Span → Except ArrangeError Unit
  | [] => .ok ()
  | comment :: rest => do
    checkSpan text unit.name comment
    if comment.start < floor ∨ unit.span.start < comment.stop then
      throw (.invalidRange unit.name comment text.byteSize)
    checkComments text unit comment.stop rest

/-- Accepts a unit whose own span and comments are where they can be. -/
def checkUnit (text : Text) (unit : CallableUnit) : Except ArrangeError Unit := do
  checkSpan text unit.name unit.span
  checkComments text unit 0 unit.comments

/-- Accepts units of which each ends before the next starts. -/
def checkApart : List CallableUnit → Except ArrangeError Unit
  | first :: second :: rest =>
    if second.fullStart < first.span.stop then
      .error (.overlappingUnits first.name second.name)
    else checkApart (second :: rest)
  | _ => .ok ()

/-- The units by where they start, those that start together as they were listed. -/
def inSourceOrder (units : List CallableUnit) : List CallableUnit :=
  units.mergeSort fun first second => first.fullStart ≤ second.fullStart

/-- The first name of a list that occurs earlier in it or among the names already seen. -/
def firstRepeated (seen : List String) : List String → Option String
  | [] => none
  | name :: rest => if name ∈ seen then some name else firstRepeated (name :: seen) rest

/-- The units that a list of names picks, each at most once. -/
def pick (units : List CallableUnit) (seen : List String) :
    List String → Except OrderMismatch (List CallableUnit)
  | [] => .ok []
  | name :: rest =>
    match units.find? (·.name = name) with
    | none => .error (.unknownUnit name)
    | some unit =>
      if name ∈ seen then .error (.listedTwice name)
      else do
        let picked ← pick units (name :: seen) rest
        return unit :: picked

/-- The units in the order of a list of names, which must list each of them once. -/
def inListedOrder (units : List CallableUnit) (order : List String) :
    Except OrderMismatch (List CallableUnit) :=
  match firstRepeated [] (units.map (·.name)) with
  | some name => .error (.repeatedUnit name)
  | none =>
    if order.length ≠ units.length then .error (.countDiffers order.length units.length)
    else pick units [] order

/-- The arrangement of units into the order of a list of names, if all of them can be trusted. -/
def arrange (text : Text) (units : List CallableUnit) (order : List String) :
    Except ArrangeError Arrangement := do
  units.forM (checkUnit text)
  let source := inSourceOrder units
  checkApart source
  match inListedOrder units order with
  | .ok target => return ⟨source, target⟩
  | .error mismatch => throw (.orderMismatch mismatch)

/-- The splice that puts units in the order of a list of names, if one is needed. -/
def plan (text : Text) (units : List CallableUnit) (order : List String) :
    Except ArrangeError (Option Splice) := do
  if units.isEmpty then return none
  let arrangement ← arrange text units order
  arrangement.splice? text

/-- The text with its units in the order of a list of names, if that differs from the source and can
be done safely. -/
def render (text : Text) (units : List CallableUnit) (order : List String) : Option Text :=
  match plan text units order with
  | .ok (some splice) => splice.applyTo? text
  | _ => none

/-- What is said when a rearrangement is refused. -/
def refusalNotices (planned : Except ArrangeError (Option Splice)) : List Notice :=
  match planned with
  | .ok _ => []
  | .error refusal => [⟨.warn, "Leaving source untouched: " ++ refusal.message⟩]

end CallersFirst
