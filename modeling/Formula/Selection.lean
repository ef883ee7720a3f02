import Formula.Value

/-!
Parts of arrays: what the dimensions of an index select, reading it and replacing it.

The first selection chooses among the items of an array and the others are for the chosen items, so a
single position takes one level of nesting away and a list of positions keeps it. Writing behind the
end of an array makes it longer.
-/

namespace Formula

/-- What one dimension of an index selects, counted from zero. -/
inductive Selection where
  /-- One item. -/
  | one (position : Nat)
  /-- An array of items, in the order of the positions. -/
  | many (positions : List Nat)
deriving DecidableEq, Repr

/-- Why a part cannot be read or replaced. -/
inductive SelectionError where
  /-- A number that counts no item. -/
  | notPosition (x : Float)
  /-- An item of a dimension that is no number. -/
  | notNumber (got : ValueKind)
  /-- A dimension that is neither a number nor an array. -/
  | notDimension (got : ValueKind)
  /-- A position, counted from zero, with no item. -/
  | outOfRange (position length : Nat)
  /-- A value that has no items. -/
  | notArray (got : ValueKind)
  /-- A string with other than one dimension. -/
  | stringDimensions
  /-- Other than one value for each position. -/
  | lengths (positions values : Nat)

namespace SelectionError

/-- The text of an error. -/
def message : SelectionError → String
  | .notPosition x => "index must be a positive integer, got " ++ Value.reasonFormat.write x
  | .notNumber got => "index must be a number, got " ++ got.name
  | .notDimension got => "unsupported index dimension " ++ got.name
  | .outOfRange position length =>
    "index out of range (" ++ toString (position + 1) ++ " > " ++ toString length ++ ")"
  | .notArray got => "cannot index into " ++ got.name
  | .stringDimensions => "strings have one dimension"
  | .lengths positions values =>
    "dimension mismatch (" ++ toString positions ++ " != " ++ toString values ++ ")"

end SelectionError

namespace Selection

/-- The position of the item that a number counts. -/
def position (x : Float) : Except SelectionError Nat :=
  if x ≥ 1.0 ∧ Decimal.isWhole x then .ok (x.toUInt64.toNat - 1) else .error (.notPosition x)

/-- The position that an item of a dimension says. -/
def ofItem : Value → Except SelectionError Nat
  | .number x => position x
  | v => .error (.notNumber v.kind)

/-- What a dimension selects. -/
def ofDimension : Value → Except SelectionError Selection
  | .number x => (position x).map .one
  | .array items => (items.mapM ofItem).map .many
  | v => .error (.notDimension v.kind)

/-- What the dimensions of an index select. -/
def ofDimensions (dimensions : List Value) : Except SelectionError (List Selection) :=
  dimensions.mapM ofDimension

/-- The element at a position. -/
def pick {α : Type} (xs : List α) (i : Nat) : Except SelectionError α :=
  match xs[i]? with
  | some x => .ok x
  | none => .error (.outOfRange i xs.length)

/-- The part of a value that is selected. -/
def get : List Selection → Value → Except SelectionError Value
  | [], v => .ok v
  | .one i :: rest, .array items => pick items i >>= get rest
  | .many is :: rest, .array items =>
    (is.mapM fun i => pick items i >>= get rest).map .array
  | _ :: _, v => .error (.notArray v.kind)

/-- The characters of a string that are selected. -/
def getChars (selections : List Selection) (s : String) : Except SelectionError String :=
  match selections with
  | [.one i] => (pick s.toList i).map fun c => String.ofList [c]
  | [.many is] => (is.mapM (pick s.toList)).map String.ofList
  | _ => .error .stringDimensions

/-- The items that can be replaced in a value; what is undefined becomes an array. -/
def itemsOf : Value → Except SelectionError (List Value)
  | .array items => .ok items
  | .undefined => .ok []
  | v => .error (.notArray v.kind)

/-- What fills the items that a longer array has between its old ones and the new one, under
the selections that are left. -/
def filler : List Selection → Value
  | [] => .number 0.0
  | _ => .array []

/-- Items, with as many fillers behind them that there is one at the position. -/
def reach (rest : List Selection) (i : Nat) (items : List Value) : List Value :=
  items ++ List.replicate (i + 1 - items.length) (filler rest)

/-- Changes the item at a position, which is made if there is none. -/
def modifyAt (rest : List Selection) (i : Nat) (change : Value → Except SelectionError Value)
    (items : List Value) : Except SelectionError (List Value) :=
  let items := reach rest i items
  match items[i]? with
  | some old => (change old).map (items.set i)
  | none => .ok items

/-- The values that are written to some positions: one for each, or the same for all. -/
def spread (is : List Nat) : Value → Except SelectionError (List (Nat × Value))
  | .array values =>
    if values.length = is.length then .ok (is.zip values)
    else .error (.lengths is.length values.length)
  | v => .ok (is.map fun i => (i, v))

/-- A value with the selected part replaced. -/
def set : List Selection → Value → Value → Except SelectionError Value
  | [], new, _ => .ok new
  | .one i :: rest, new, target => do
    let items ← itemsOf target
    return .array (← modifyAt rest i (set rest new) items)
  | .many is :: rest, new, target => do
    let items ← itemsOf target
    let writes ← spread is new
    return .array (← writes.foldlM
      (fun items (i, v) => modifyAt rest i (set rest v) items) items)

end Selection

end Formula
