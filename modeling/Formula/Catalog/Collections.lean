import Formula.Catalog
import Formula.Matrix
import Formula.Progression
import Formula.Selection

/-!
Operations on strings and arrays.
-/

namespace Formula.Catalog

/-- A parameter for arrays. -/
abbrev array : Param :=
  .of .array

/-- A parameter for strings. -/
abbrev string : Param :=
  .of .string

/-- A parameter for the dimensions of an index. -/
abbrev index : Param :=
  .of .index

/-- The range of a progression. -/
def range (start stop step : Float) : Except DispatchError Value :=
  match progression start stop step with
  | .ok xs => .ok (.array (xs.map .number))
  | .error e => .error (.failed "range" e.message)

/-- The result of reading or replacing a part. -/
def subset (result : Except SelectionError Value) : Except DispatchError Value :=
  result.mapError fun e => .failed "subset" e.message

/-- The operations on strings. -/
def strings : List (String × Signature) := [
  ("add", .fixed [string, string] fun (a b : String) => .ok (.string (a ++ b))),
  ("unaryPlus", .fixed [.of .boolean] fun (b : Bool) => .ok (.number (if b then 1.0 else 0.0)))]

/-- The operations on arrays, and on what indexes select. -/
def collections : List (String × Signature) := [
  ("range", .fixed [.of .number, .of .number, .of .number] fun (start stop step : Float) =>
    range start stop step),
  ("range", .fixed [.of .number, .of .number] fun (start stop : Float) => range start stop 1.0),
  ("size", .fixed [.any] fun (v : Value) =>
    .ok (.array ((Matrix.extents v).map fun n => .number (Float.ofNat n)))),
  ("index", .fixed [] (.ok (.index []))),
  ("index", .variadic [] .any fun (v : Value) (vs : List Value) => .ok (.index (v :: vs))),
  ("matrix", .fixed [] (.ok (.array []))),
  ("matrix", .fixed [array] fun (items : List Value) => .ok (.array items)),
  ("transpose", .fixed [.of .number] fun (x : Float) => .ok (.number x)),
  ("transpose", .fixed [array] fun (items : List Value) =>
    match Matrix.transpose items with
    | .ok columns => .ok (.array columns)
    | .error e => .error (.failed "transpose" e.message)),
  ("subset", .fixed [array, index] fun (items dimensions : List Value) =>
    subset do
      let selections ← Selection.ofDimensions dimensions
      Selection.get selections (.array items)),
  ("subset", .fixed [string, index] fun (s : String) (dimensions : List Value) =>
    subset do
      let selections ← Selection.ofDimensions dimensions
      return .string (← Selection.getChars selections s)),
  ("subset", .fixed [array, index, .any] fun (items dimensions : List Value) (new : Value) =>
    subset do
      let selections ← Selection.ofDimensions dimensions
      Selection.set selections new (.array items))]

end Formula.Catalog
