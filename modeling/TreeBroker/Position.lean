import TreeBroker.Json
import TreeBroker.Text.Utf8
import TreeBroker.Text.Diagnostic

/-!
# Positions and edits

A place in a source is a byte offset or a point, that is a row and a column in
bytes. Rows are counted by newline bytes, and an offset past the end of the
source is the end. An edit says which bytes of an old source were replaced and
where the replacement ends in the new one, in both ways of speaking.
-/

namespace TreeBroker

/-- **A point**: a row and a column, both from zero, the column in bytes. -/
structure Point where
  /-- The number of newlines before. -/
  row : Nat
  /-- The number of bytes since the last of them. -/
  column : Nat
  deriving Repr, DecidableEq, Inhabited

namespace Point

/-- The newline byte. -/
def newline : UInt8 := 10

/-- The place after a piece of source that begins at the origin. -/
def atEnd (before : List UInt8) : Point :=
  ⟨before.count newline, (before.reverse.takeWhile (· ≠ newline)).length⟩

/-- **The point of a byte offset.** -/
def ofOffset (source : List UInt8) (offset : Nat) : Point := atEnd (source.take offset)

/-- A coordinate by its name. -/
def get? (p : Point) (key : String) : Option Nat :=
  if key = "row" then some p.row else if key = "column" then some p.column else none

/-- A coordinate by its number: the row is the first, the column the second. -/
def coordinate? (p : Point) : Nat → Option Nat
  | 0 => some p.row
  | 1 => some p.column
  | _ => none

/-- What is said of a coordinate that no point has. -/
def noCoordinate (index : Nat) : String :=
  "point index out of range: " ++ toString index ++ " (expected 0 or 1)"

/-- Points in source order: by row, then by column. -/
def cmp (p q : Point) : Ordering := (compare p.row q.row).then (compare p.column q.column)

/-- A point as shown. -/
def display (p : Point) : String := "(" ++ toString p.row ++ ", " ++ toString p.column ++ ")"

/-- The diagnostic form. -/
def diagnostic (p : Point) : String :=
  Diagnostic.record "Point" [("row", toString p.row), ("column", toString p.column)]

/-- The fields of a point. -/
def keys : List String := ["row", "column"]

/-- A point as data. -/
def toJson (p : Point) : Json := .object [("row", .nat p.row), ("column", .nat p.column)]

/-- A point from data. -/
def ofJson? (j : Json) : Option Point := do
  let [row, column] ← j.fields? keys | none
  return ⟨← row.toNat?, ← column.toNat?⟩

end Point

/-- **An edit**: the bytes from `start` to `oldEnd` became those from `start` to
`newEnd`. -/
structure Edit where
  /-- Where the edit begins. -/
  start : Nat
  /-- Where the replaced bytes end, in the old source. -/
  oldEnd : Nat
  /-- Where the replacement ends, in the new source. -/
  newEnd : Nat
  /-- The point of `start`. -/
  startPoint : Point
  /-- The point of `oldEnd`. -/
  oldEndPoint : Point
  /-- The point of `newEnd`. -/
  newEndPoint : Point
  deriving Repr, DecidableEq

namespace Edit

/-- **An edit from byte offsets**, with its points read off the two sources. -/
def ofOffsets (old new : List UInt8) (start oldEnd newEnd : Nat) : Edit where
  start := start
  oldEnd := oldEnd
  newEnd := newEnd
  startPoint := Point.ofOffset old start
  oldEndPoint := Point.ofOffset old oldEnd
  newEndPoint := Point.ofOffset new newEnd

/-- The fields of an edit. -/
def keys : List String :=
  ["start_byte", "old_end_byte", "new_end_byte", "start_point", "old_end_point", "new_end_point"]

/-- An edit as data. -/
def toJson (e : Edit) : Json :=
  .object (keys.zip [.nat e.start, .nat e.oldEnd, .nat e.newEnd, e.startPoint.toJson,
    e.oldEndPoint.toJson, e.newEndPoint.toJson])

/-- An edit from data. -/
def ofJson? (j : Json) : Option Edit := do
  let [start, oldEnd, newEnd, startPoint, oldEndPoint, newEndPoint] ← j.fields? keys | none
  return {
    start := ← start.toNat?
    oldEnd := ← oldEnd.toNat?
    newEnd := ← newEnd.toNat?
    startPoint := ← Point.ofJson? startPoint
    oldEndPoint := ← Point.ofJson? oldEndPoint
    newEndPoint := ← Point.ofJson? newEndPoint }

end Edit

@[simp] theorem Point.ofOffset_zero (source : List UInt8) : Point.ofOffset source 0 = ⟨0, 0⟩ := by
  simp [Point.ofOffset, Point.atEnd]

end TreeBroker
