import Formula.Value

/-!
Arrays of arrays: their extents, and exchanging their rows and columns.
-/

namespace Formula

/-- Why rows and columns cannot be exchanged. -/
inductive MatrixError where
  /-- Only some of the items are rows. -/
  | mixedItems
  /-- Rows of different lengths. -/
  | lengths
deriving DecidableEq, Repr

/-- The text of an error. -/
def MatrixError.message : MatrixError → String
  | .mixedItems => "matrix rows must be arrays"
  | .lengths => "dimension mismatch"

namespace Matrix

/-- The number of items of a value, then of its first item, and so on while these are arrays. -/
def extents : Value → List Nat
  | .array [] => [0]
  | .array (.array items :: rest) => (rest.length + 1) :: extents (.array items)
  | .array items => [items.length]
  | .string s => [s.length]
  | _ => []

/-- The items of a row. -/
def row? : Value → Option (List Value)
  | .array items => some items
  | _ => none

/-- The columns of rows, as many as are asked for. -/
def columns (count : Nat) (rows : List (List Value)) : List (List Value) :=
  (List.range count).map fun c => rows.filterMap (·[c]?)

/-- The items of an array with its rows and columns exchanged. An array without rows stays as it
is. -/
def transpose (items : List Value) : Except MatrixError (List Value) :=
  match items.filterMap row? with
  | [] => .ok items
  | first :: others =>
    let rows := first :: others
    if rows.length ≠ items.length then .error .mixedItems
    else if others.any fun row => row.length ≠ first.length then .error .lengths
    else .ok ((columns first.length rows).map .array)

end Matrix

end Formula
