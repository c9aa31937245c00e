import CallersFirst.Ignore.Glob

/-! How deep a glob is nested, once it is written as a regular expression. -/

namespace CallersFirst

/-- How many pieces a part of a glob has in a regular expression. -/
def GlobToken.pieces : GlobToken → Nat
  | .literal c => (String.utf8EncodeChar c).length
  -- A slash is followed by a repetition.
  | .trailing => 2
  | .alternatives branches => if GlobToken.allVoidBranches branches then 0 else 1
  | _ => 1

/-- How many pieces the parts of a glob have together. -/
def GlobToken.piecesOfAll (tokens : List GlobToken) : Nat :=
  tokens.foldl (fun count token => count + token.pieces) 0

mutual

/-- How deep the regular expression of a part is nested. Groups, choices, sequences, repetitions and
character classes count. -/
def GlobToken.nesting : GlobToken → Nat
  | .literal _ => 0
  | .any | .trailing => 1
  | .run => 2
  -- A group of a choice, one side of which is a sequence with a repetition in it.
  | .leading | .inner => 4
  | .oneOf _ ranges => if ranges.length ≤ 1 then 1 else 2
  | .alternatives branches =>
    let filled := branches.filter fun branch => !GlobToken.allVoid branch
    let group := if filled.length ≤ 1 then 1 else 2
    if filled.isEmpty then 0 else group + GlobToken.nestingOfAny branches

/-- The deepest nesting of some parts. -/
def GlobToken.nestingOfAll : List GlobToken → Nat
  | [] => 0
  | token :: tokens => max token.nesting (GlobToken.nestingOfAll tokens)

/-- The deepest nesting of some alternatives, those of several pieces being sequences. -/
def GlobToken.nestingOfAny : List (List GlobToken) → Nat
  | [] => 0
  | branch :: branches =>
    let sequence := if GlobToken.piecesOfAll branch ≤ 1 then 0 else 1
    max (sequence + GlobToken.nestingOfAll branch) (GlobToken.nestingOfAny branches)

end

namespace Glob

/-- How deep a glob may be nested. -/
def nestingLimit : Nat := 250

/-- Whether a glob is nested too deep to be used. A whole glob is a sequence. -/
def isTooDeep (glob : Glob) : Bool :=
  nestingLimit < 1 + GlobToken.nestingOfAll glob.tokens

end Glob

end CallersFirst
