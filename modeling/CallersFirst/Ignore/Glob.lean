import CallersFirst.Ignore.Glob.Marks

/-! Globs over paths: what each part of one matches. -/

namespace CallersFirst

/-- A part of a glob. -/
inductive GlobToken where
  /-- A character that stands for itself. -/
  | literal (c : Char)
  /-- One byte other than a slash. -/
  | any
  /-- Any number of bytes other than slashes. -/
  | run
  /-- Any directories at the start of a path, or none. -/
  | leading
  /-- Everything below a directory. -/
  | trailing
  /-- Any directories in the middle of a path, or none. -/
  | inner
  /-- One byte inside the given inclusive ranges, or outside all of them. -/
  | oneOf (negated : Bool) (ranges : List (UInt8 × UInt8))
  /-- One of several globs. -/
  | alternatives (branches : List (List GlobToken))

namespace Glob

/-- The byte that divides the names of a path. -/
def slash : UInt8 := 47

/-- Whether a byte lies in one of some inclusive ranges. -/
def inRanges (ranges : List (UInt8 × UInt8)) (byte : UInt8) : Bool :=
  ranges.any fun range => range.1 ≤ byte && byte ≤ range.2

/-- Marks moved over one slash. -/
def afterSlash (path : PathBytes) (marks : Marks) : Marks :=
  Marks.afterByte (· = slash) path marks

/-- Marks moved over any number of bytes and a slash behind them, or over nothing. -/
def afterDirectories (path : PathBytes) (marks : Marks) : Marks :=
  marks.union (afterSlash path (marks.spread (fun _ => true) path))

end Glob

mutual

/-- Whether a part of a glob has nothing in it to match. -/
def GlobToken.isVoid : GlobToken → Bool
  | .alternatives branches => GlobToken.allVoidBranches branches
  | _ => false

/-- Whether none of some parts has anything in it to match. -/
def GlobToken.allVoid : List GlobToken → Bool
  | [] => true
  | token :: tokens => token.isVoid && GlobToken.allVoid tokens

/-- Whether none of some alternatives has anything in it to match. -/
def GlobToken.allVoidBranches : List (List GlobToken) → Bool
  | [] => true
  | branch :: branches => GlobToken.allVoid branch && GlobToken.allVoidBranches branches

end

mutual

/-- The marks that a part of a glob moves given ones to. -/
def GlobToken.advance (path : PathBytes) : GlobToken → Marks → Marks
  | .literal c, marks =>
    (String.utf8EncodeChar c).foldl (fun marks byte => marks.afterByte (· = byte) path) marks
  | .any, marks => marks.afterByte (· ≠ Glob.slash) path
  | .run, marks => marks.spread (· ≠ Glob.slash) path
  | .leading, marks => Glob.afterDirectories path marks
  | .trailing, marks => (Glob.afterSlash path marks).spread (fun _ => true) path
  | .inner, marks => Glob.afterDirectories path (Glob.afterSlash path marks)
  | .oneOf negated ranges, marks => marks.afterByte (fun byte => Glob.inRanges ranges byte != negated) path
  | .alternatives branches, marks =>
    -- Alternatives that are all empty take no bytes.
    if GlobToken.allVoidBranches branches then marks
    else GlobToken.advanceAny path branches marks

/-- The marks that parts of a glob move given ones to, one after another. -/
def GlobToken.advanceAll (path : PathBytes) : List GlobToken → Marks → Marks
  | [], marks => marks
  | token :: tokens, marks => GlobToken.advanceAll path tokens (token.advance path marks)

/-- The marks that one of several globs moves given ones to. Empty globs are passed over. -/
def GlobToken.advanceAny (path : PathBytes) : List (List GlobToken) → Marks → Marks
  | [], marks => marks.map fun _ => false
  | branch :: branches, marks =>
    let others := GlobToken.advanceAny path branches marks
    if GlobToken.allVoid branch then others
    else (GlobToken.advanceAll path branch marks).union others

end

/-- A glob: its parts from left to right. -/
structure Glob where
  /-- The parts. -/
  tokens : List GlobToken

/-- Whether a glob matches a path as a whole. -/
def Glob.accepts (glob : Glob) (path : PathBytes) : Bool :=
  match glob.tokens with
  -- Any directories and nothing more stand for every path.
  | [.leading] => true
  | tokens => (GlobToken.advanceAll path tokens (Marks.start path)).atEnd

end CallersFirst
