import CallersFirst.FileTree
import CallersFirst.Ignore.Pattern

/-! Ignore files: the patterns of their lines, and the lines that are none. -/

namespace CallersFirst

/-- Why something about an ignore file cannot be used. -/
inductive IgnoreFault.Cause where
  /-- A line is no pattern. -/
  | pattern (line : String) (error : GlobError)
  /-- The file cannot be read on. -/
  | io (error : IoError)
  /-- A pattern of the file is nested too deep, and so none can be used. -/
  | nesting
deriving DecidableEq, Repr

/-- A place of an ignore file that cannot be used. -/
structure IgnoreFault where
  /-- The path of the file. -/
  path : String
  /-- The number of the line, if a line is at fault. -/
  line : Option Nat
  /-- What is wrong there. -/
  cause : IgnoreFault.Cause
deriving DecidableEq, Repr

namespace IgnoreFault

/-- Whether the file rather than a pattern is at fault. -/
def isIo (fault : IgnoreFault) : Bool :=
  match fault.cause with
  | .io _ => true
  | .pattern .. | .nesting => false

/-- The wording of a cause. -/
def Cause.message : Cause → String
  | .pattern line error => "error parsing glob '" ++ line ++ "': " ++ error.message
  | .io error => error.message
  | .nesting => "error parsing pattern 0"

/-- The wording of a fault. -/
def message (fault : IgnoreFault) : String :=
  let place :=
    match fault.line with
    | some number => s!"line {number}: "
    | none => ""
  match fault.cause with
  -- A file refused as a whole is not named.
  | .nesting => fault.cause.message
  | _ => fault.path ++ ": " ++ place ++ fault.cause.message

end IgnoreFault

/-- What an ignore file says. -/
structure IgnoreFile where
  /-- The patterns of its lines. -/
  patterns : List IgnorePattern := []
  /-- The lines that cannot be used. -/
  faults : List IgnoreFault := []
  /-- What keeps all lines from being used. -/
  refusals : List IgnoreFault := []

/-- The lines of a file without their ends, which are line feeds with or without a carriage return. -/
def byteLines : List UInt8 → List (List UInt8)
  | [] => []
  | 13 :: 10 :: rest => [] :: byteLines rest
  | 10 :: rest => [] :: byteLines rest
  | byte :: rest =>
    match byteLines rest with
    | [] => [[byte]]
    | line :: lines => (byte :: line) :: lines

/-- The text of a line, if it is text. -/
def lineText? (line : List UInt8) : Option Text :=
  (String.fromUTF8? ⟨line.toArray⟩).map String.toList

namespace IgnoreFile

/-- Reads lines on from the one with the given number, up to the first that is no text. -/
def ofLines (path : String) (number : Nat) : List (List UInt8) → IgnoreFile
  | [] => {}
  | bytes :: rest =>
    match lineText? bytes with
    | none => { faults := [⟨path, some number, .io .invalidUtf8⟩] }
    | some text =>
      -- A file may start with byte order marks.
      let text := if number = 1 then text.dropWhile (· = '\uFEFF') else text
      let line := IgnorePattern.trimmed text
      let others := ofLines path (number + 1) rest
      match IgnorePattern.ofLine? true line with
      | .ok none => others
      | .ok (some pattern) => { others with patterns := pattern :: others.patterns }
      | .error error =>
        let fault : IgnoreFault := ⟨path, some number, .pattern (String.ofList line) error⟩
        { others with faults := fault :: others.faults }

/-- The file without its patterns if one of them is nested too deep. -/
def refuseTooDeep (path : String) (file : IgnoreFile) : IgnoreFile :=
  if file.patterns.any (·.glob.isTooDeep) then
    { file with patterns := [], refusals := [⟨path, none, .nesting⟩] }
  else file

/-- The faults of a file that are worth telling. A file that merely cannot be read is none. -/
def reported (file : IgnoreFile) : List IgnoreFault :=
  let lines :=
    match file.faults with
    | [fault] => if fault.isIo then [] else [fault]
    | faults => faults
  lines ++ file.refusals

/-- What the ignore file with the given content says. -/
def ofEntry (path : String) : Option Entry → IgnoreFile
  | some (.file content) => (ofLines path 1 (byteLines content.toList)).refuseTooDeep path
  | _ => {}

end IgnoreFile

end CallersFirst
