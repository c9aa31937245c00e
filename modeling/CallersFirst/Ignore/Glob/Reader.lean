import CallersFirst.Ignore.Glob
import CallersFirst.Text

/-! Reading of globs. -/

namespace CallersFirst

/-- Why a text is no glob. -/
inductive GlobError where
  /-- A backslash has nothing behind it. -/
  | danglingEscape
  /-- A character class has no end. -/
  | unclosedClass
  /-- The ends of a range in a character class are the wrong way round. -/
  | reversedRange (first last : Char)
  /-- A group of alternatives is closed and was not opened. -/
  | unopenedGroup
  /-- A group of alternatives has no end. -/
  | unclosedGroup
deriving DecidableEq, Repr

/-- The wording of a fault in a glob. -/
def GlobError.message : GlobError → String
  | .danglingEscape => "dangling '\\'"
  | .unclosedClass => "unclosed character class; missing ']'"
  | .reversedRange first last =>
    String.ofList ("invalid range; '".toList ++ first :: "' > '".toList ++ last :: ['\''])
  | .unopenedGroup => "unopened alternate group; missing '\x7b' (maybe escape '\x7d' with '[\x7d]'?)"
  | .unclosedGroup => "unclosed alternate group; missing '\x7d' (maybe escape '\x7b' with '[\x7b]'?)"

/-- The bytes that a range of characters admits, taken byte by byte as the range is written. -/
def byteRanges (low high : Char) : List (UInt8 × UInt8) :=
  let single (byte : UInt8) := (byte, byte)
  let lows := String.utf8EncodeChar low
  let highs := String.utf8EncodeChar high
  if low = high then lows.map single
  else
    match lows.getLast?, highs with
    | some start, stop :: others => lows.dropLast.map single ++ (start, stop) :: others.map single
    | _, _ => []

/-- The ranges of a character class, last first, and the text behind it. `fresh` holds at the start of
the class and `pending` behind a hyphen that may make a range. -/
def classFrom (fresh pending : Bool) (ranges : List (Char × Char)) :
    Text → Except GlobError (Option (List (Char × Char) × Text))
  | [] => .ok none
  | c :: rest =>
    if c = ']' ∧ ¬fresh then
      -- A hyphen at the end stands for itself.
      .ok (some (if pending then ('-', '-') :: ranges else ranges, rest))
    else if c = '-' ∧ ¬fresh ∧ ¬pending then classFrom false true ranges rest
    else
      match pending, ranges with
      | true, (low, _) :: others =>
        if c < low then .error (.reversedRange low c)
        else classFrom false false ((low, c) :: others) rest
      | _, _ => classFrom false false ((c, c) :: ranges) rest

/-- The character class behind its opening bracket and the text behind it, if it has an end. -/
def characterClass (text : Text) : Except GlobError (Option (GlobToken × Text)) := do
  let (negated, text) :=
    match text with
    | '!' :: rest | '^' :: rest => (true, rest)
    | text => (false, text)
  let found ← classFrom true false [] text
  return found.map fun (ranges, rest) =>
    (.oneOf negated (ranges.reverse.flatMap fun (low, high) => byteRanges low high), rest)

/-- A group of alternatives that has been opened. -/
structure OpenGroup where
  /-- The parts before the group, last first. -/
  before : List GlobToken
  /-- The alternatives that are complete, last first. -/
  branches : List (List GlobToken)

/-- What has been read of a glob. -/
structure GlobReading where
  /-- The groups that are open, innermost first. -/
  groups : List OpenGroup := []
  /-- The parts of the current alternative, last first. -/
  tokens : List GlobToken := []
  /-- The character read last. -/
  previous : Option Char := none
  /-- Whether brackets stand for themselves from here on. -/
  plainBrackets : Bool := false

namespace GlobReading

/-- Adds a part that ends with a character. -/
def push (reading : GlobReading) (token : GlobToken) (last : Char) : GlobReading :=
  { reading with tokens := token :: reading.tokens, previous := some last }

/-- Adds two runs, which is what two stars mean that do not stand for directories. -/
def pushRuns (reading : GlobReading) : GlobReading :=
  (reading.push .run '*').push .run '*'

/-- Puts a part for directories in place of the last one, unless that stands for directories at an end
already. -/
def widen (reading : GlobReading) (token : GlobToken) (last : Char) : GlobReading :=
  match reading.tokens with
  | .leading :: _ | .trailing :: _ => { reading with previous := some last }
  | _ :: tokens => { reading with tokens := token :: tokens, previous := some last }
  | [] => reading.push token last

/-- Whether two stars may stand for directories behind the character read last. -/
def atBoundary (reading : GlobReading) : Bool :=
  reading.previous = some '/' ||
    (!reading.groups.isEmpty && (reading.previous = some ',' || reading.previous = some '\x7b'))

/-- Reads on behind two stars. -/
def doubleStar (reading : GlobReading) (rest : Text) : GlobReading × Text :=
  if reading.tokens.isEmpty then
    match rest with
    | [] => (reading.push .leading '*', [])
    | '/' :: rest => (reading.push .leading '/', rest)
    | rest => (reading.pushRuns, rest)
  else if reading.atBoundary then
    match rest with
    | [] => (reading.widen .trailing '*', [])
    | '/' :: rest => (reading.widen .inner '/', rest)
    | c :: rest =>
      if (c = ',' ∨ c = '\x7d') ∧ ¬reading.groups.isEmpty then (reading.widen .trailing '*', c :: rest)
      else (reading.pushRuns, c :: rest)
  else (reading.pushRuns, rest)

/-- Reads a bracket, which may open a character class. In a lenient reading one that is never closed
stands for itself, and so do all that follow. -/
def bracket (lenient : Bool) (reading : GlobReading) (rest : Text) :
    Except GlobError (GlobReading × Text) := do
  if reading.plainBrackets then return (reading.push (.literal '[') '[', rest)
  match ← characterClass rest with
  | some (token, rest) => return (reading.push token ']', rest)
  | none =>
    if lenient then return ({ reading.push (.literal '[') '[' with plainBrackets := true }, rest)
    else throw .unclosedClass

/-- Reads one part of a glob, whose first character is given. -/
def step (lenient : Bool) (reading : GlobReading) (c : Char) (rest : Text) :
    Except GlobError (GlobReading × Text) :=
  match c with
  | '?' => .ok (reading.push .any c, rest)
  | '*' =>
    match rest with
    | '*' :: rest => .ok (reading.doubleStar rest)
    | rest => .ok (reading.push .run c, rest)
  | '[' => reading.bracket lenient rest
  | '\x7b' =>
    let group : OpenGroup := ⟨reading.tokens, []⟩
    .ok ({ reading with groups := group :: reading.groups, tokens := [], previous := some c }, rest)
  | '\x7d' =>
    match reading.groups with
    | [] => .error .unopenedGroup
    | group :: groups =>
      let branches := (reading.tokens.reverse :: group.branches).reverse
      let closed : GlobReading := { reading with groups, tokens := group.before }
      .ok (closed.push (.alternatives branches) c, rest)
  | ',' =>
    match reading.groups with
    | [] => .ok (reading.push (.literal c) c, rest)
    | group :: groups =>
      let longer : OpenGroup := { group with branches := reading.tokens.reverse :: group.branches }
      .ok ({ reading with groups := longer :: groups, tokens := [], previous := some c }, rest)
  | '\\' =>
    match rest with
    | [] => .error .danglingEscape
    | escaped :: rest => .ok (reading.push (.literal escaped) escaped, rest)
  | c => .ok (reading.push (.literal c) c, rest)

/-- The glob that has been read, if all its groups are closed. -/
def finish (reading : GlobReading) : Except GlobError Glob :=
  if reading.groups.isEmpty then .ok ⟨reading.tokens.reverse⟩ else .error .unclosedGroup

/-- Reads part after part. Every part takes at least one character, so as many rounds as there are
characters suffice. -/
def readFrom (lenient : Bool) : Nat → GlobReading → Text → Except GlobError Glob
  | _, reading, [] => reading.finish
  | 0, reading, _ => reading.finish
  | rounds + 1, reading, c :: rest => do
    let (reading, rest) ← reading.step lenient c rest
    readFrom lenient rounds reading rest

end GlobReading

/-- The glob that a text stands for. -/
def Glob.parse (lenient : Bool) (text : Text) : Except GlobError Glob :=
  GlobReading.readFrom lenient text.length {} text

end CallersFirst
