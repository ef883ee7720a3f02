import Formula.Catalog

/-!
Operations on all values: comparing them for equality and taking them as conditions.
-/

namespace Formula.Catalog

/-- Whether an argument of an operation holds as a condition. -/
def condition (name : String) (v : Value) : Except DispatchError Bool :=
  match v.truthy with
  | .ok b => .ok b
  | .error e => .error (.failed name e.message)

/-- An operation on two conditions that looks at the second one only if the first one leaves it
open. -/
def onConditions (name : String) (decisive : Bool) : String × Signature :=
  (name, .fixed [.any, .any] decide)
where
  decide (a b : Value) : Except DispatchError Value := do
    if (← condition name a) == decisive then return .bool decisive
    return .bool (← condition name b)

/-- Whether exactly one of two conditions holds. -/
def exclusive (a b : Value) : Except DispatchError Value := do
  let first ← condition "xor" a
  let second ← condition "xor" b
  return .bool (first != second)

/-- The operations on conditions. -/
def logic : List (String × Signature) := [
  onConditions "and" false,
  onConditions "or" true,
  ("xor", .fixed [.any, .any] exclusive),
  ("not", .fixed [.any] fun (a : Value) => (condition "not" a).map fun holds => .bool !holds)]

/-- The operations that compare any values. -/
def equality : List (String × Signature) := [
  ("equal", .fixed [.any, .any] fun (a b : Value) => .ok (.bool (a == b))),
  ("unequal", .fixed [.any, .any] fun (a b : Value) => .ok (.bool (!(a == b))))]

/-- The operations that tell what a value is. -/
def inspection : List (String × Signature) := [
  ("typeof", .fixed [.any] fun (a : Value) => .ok (.string a.typeName))]

end Formula.Catalog
