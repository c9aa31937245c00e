/-! Marks on the places between the bytes of a path, as a glob is matched part by part. -/

namespace CallersFirst

/-- The bytes of a path. -/
abbrev PathBytes := List UInt8

/-- For the start of a path and the end of each of its bytes, whether what has been read of a glob can
end there. -/
abbrev Marks := List Bool

namespace Marks

/-- The mark on the start of a path alone. -/
def start (path : PathBytes) : Marks :=
  true :: List.replicate path.length false

/-- Marks moved over one byte of some kind. -/
def afterByte (fits : UInt8 → Bool) (path : PathBytes) (marks : Marks) : Marks :=
  false :: List.zipWith (fun mark byte => mark && fits byte) marks path

/-- Marks moved over any number of bytes of some kind. Behind a mark and such bytes `carried` holds. -/
def spreadFrom (fits : UInt8 → Bool) (carried : Bool) : PathBytes → Marks → Marks
  | _, [] => []
  | [], mark :: _ => [carried || mark]
  | byte :: path, mark :: marks =>
    (carried || mark) :: spreadFrom fits ((carried || mark) && fits byte) path marks

/-- Marks moved over any number of bytes of some kind, or none. -/
def spread (fits : UInt8 → Bool) (path : PathBytes) (marks : Marks) : Marks :=
  spreadFrom fits false path marks

/-- The marks of either of two kinds. -/
def union (first second : Marks) : Marks :=
  List.zipWith (· || ·) first second

/-- Whether the end of the path is marked. -/
def atEnd (marks : Marks) : Bool :=
  marks.getLast? = some true

end Marks

end CallersFirst
