import Formula.Catalog

/-!
Operations on numbers.
-/

namespace Formula.Catalog

/-- A parameter for numbers. -/
abbrev number : Param :=
  .of .number

/-- An operation on one number. -/
def onNumber (f : Float → Float) : Signature :=
  .fixed [number] fun (x : Float) => .ok (.number (f x))

/-- An operation on two numbers. -/
def onNumbers (f : Float → Float → Float) : Signature :=
  .fixed [number, number] fun (x y : Float) => .ok (.number (f x y))

/-- A comparison of two numbers. -/
def comparison (holds : Float → Float → Bool) : Signature :=
  .fixed [number, number] fun (x y : Float) => .ok (.bool (holds x y))

/-- The remainder of a division that rounds down; nothing is taken away for a zero. -/
def remainder (x y : Float) : Float :=
  if y == 0.0 then x else x - y * (x / y).floor

/-- The product of the whole numbers from one on. It is infinite from `171!` on. -/
def factorial (x : Float) : Except DispatchError Value :=
  if x < 0.0 || !Decimal.isWhole x then
    .error (.failed "factorial" "value must be a non-negative integer")
  else
    let n := min x.toUInt64.toNat 171
    .ok (.number ((List.range n).foldl (fun product k => product * Float.ofNat (k + 1)) 1.0))

/-- The greater of two numbers; one that is no number does not count. -/
def greater (x y : Float) : Float :=
  if y.isNaN || x > y then x else y

/-- The smaller of two numbers; one that is no number does not count. -/
def lesser (x y : Float) : Float :=
  if y.isNaN || x < y then x else y

/-- The word of 64 bits that a whole number is; beyond the range of words it is the nearest one. -/
def word (name : String) (x : Float) : Except DispatchError Int64 :=
  if Decimal.isWhole x then .ok x.toInt64 else .error (.failed name "integers expected")

/-- An operation on two words. -/
def onWords (name : String) (f : Int64 → Int64 → Int64) : String × Signature :=
  (name, .fixed [number, number] combine)
where
  combine (x y : Float) : Except DispatchError Value := do
    let a ← word name x
    let b ← word name y
    return .number (f a b).toFloat

/-- The word with all bits changed. -/
def complement (x : Float) : Except DispatchError Value :=
  (word "bitNot" x).map fun a => .number (~~~a).toFloat

/-- The operations on numbers. -/
def arithmetic : List (String × Signature) := [
  ("add", onNumbers (· + ·)),
  ("subtract", onNumbers (· - ·)),
  ("multiply", onNumbers (· * ·)),
  ("dotMultiply", onNumbers (· * ·)),
  ("divide", onNumbers (· / ·)),
  ("dotDivide", onNumbers (· / ·)),
  ("pow", onNumbers Float.pow),
  ("dotPow", onNumbers Float.pow),
  ("mod", onNumbers remainder),
  ("unaryMinus", onNumber (- ·)),
  ("unaryPlus", onNumber id),
  ("factorial", .fixed [number] factorial)]

/-- The comparisons of numbers. -/
def orderings : List (String × Signature) := [
  ("smaller", comparison fun x y => x < y),
  ("larger", comparison fun x y => x > y),
  ("smallerEq", comparison fun x y => x ≤ y),
  ("largerEq", comparison fun x y => x ≥ y)]

/-- The operations on numbers as words of 64 bits. Words are shifted by an amount of six bits. -/
def bitwise : List (String × Signature) := [
  onWords "bitAnd" (· &&& ·),
  onWords "bitOr" (· ||| ·),
  onWords "bitXor" (· ^^^ ·),
  onWords "leftShift" (· <<< ·),
  onWords "rightArithShift" (· >>> ·),
  onWords "rightLogShift" fun a b => (a.toUInt64 >>> b.toUInt64).toInt64,
  ("bitNot", .fixed [number] complement)]

/-- The elementary functions. -/
def elementary : List (String × Signature) := [
  ("sqrt", onNumber Float.sqrt),
  ("abs", onNumber Float.abs),
  ("floor", onNumber Float.floor),
  ("ceil", onNumber Float.ceil),
  ("round", onNumber Float.round),
  ("exp", onNumber Float.exp),
  ("log", onNumber Float.log),
  ("log10", onNumber Float.log10),
  ("sin", onNumber Float.sin),
  ("cos", onNumber Float.cos),
  ("tan", onNumber Float.tan),
  ("log", onNumbers fun x base => x.log / base.log),
  ("nthRoot", onNumbers fun x n => x.pow (1.0 / n)),
  ("max", .variadic [] number fun (x : Float) (xs : List Float) =>
    .ok (.number ((x :: xs).foldl greater (-1.0 / 0.0)))),
  ("min", .variadic [] number fun (x : Float) (xs : List Float) =>
    .ok (.number ((x :: xs).foldl lesser (1.0 / 0.0))))]

/-- The constants. -/
def numbers : List (String × Value) := [
  ("pi", .number 3.141592653589793),
  ("e", .number 2.718281828459045),
  ("tau", .number 6.283185307179586),
  ("phi", .number 1.618033988749895)]

end Formula.Catalog
