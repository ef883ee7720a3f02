import Formula.Resolver

/-!
A resolver that writes down what it is asked instead of working it out.

It shows that an evaluation relies on nothing about numbers: literals are quantities of a unit `u`,
arrays are objects, and the result of an operation is its text.
-/

namespace Formula.Resolver.Symbolic

/-- The result of an operation is its text. Equality is decided, and factorials are refused. -/
def call (name : String) (args : List Value) : Except DispatchError Value :=
  match name, args with
  | "factorial", _ => .error (.failed name (Value.textOfAll args))
  | "equal", [a, b] => .ok (.bool (a == b))
  | _, _ => .ok (.string (name ++ "(" ++ Value.textOfAll args ++ ")"))

/-- Whether the quantity of a literal holds as a condition: zero does not, and of seven it is not
known. -/
def truth (literal : String) : Option Bool :=
  if literal = "7" then none else some (literal ≠ "0")

/-- The value of a literal is a quantity. Literals with a leading nine are refused. -/
def number (literal : String) : Except DispatchError Value :=
  if literal.toList.head? = some '9' then .error (.failed "number" literal)
  else .ok (.custom (.unit (literal ++ "u") (truth literal)))

/-- The names that begin with a `k` are constants. -/
def lookup (name : String) : Option Value :=
  match name.toList with
  | 'k' :: rest => some (.string ("const " ++ String.ofList rest))
  | _ => none

/-- An array is an object with numbered keys. -/
def array (items : List Value) : Value :=
  .object (items.mapIdx fun i v => ("i" ++ toString i, v))

/-- A range is its text. -/
def range (start stop step : Value) : Value :=
  .string (start.text ++ " to " ++ stop.text ++ " by " ++ step.text)

/-- The resolver that writes down what it is asked. -/
def resolver : Resolver Unit where
  call name args := ExceptT.mk (pure (call name args))
  number literal := ExceptT.mk (pure (number literal))
  lookup name := pure (lookup name)
  array items := pure (array items)
  range start stop step := pure (range start stop step)

end Formula.Resolver.Symbolic
