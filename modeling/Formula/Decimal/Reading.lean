/-!
Reading a double from decimal text.

The text is a sign or none, and then `inf`, `infinity` or `nan` in any case, or digits with at most one
point among or around them and an exponent or none. The double is the one nearest to the number that
the text says.
-/

namespace Formula.Decimal

/-- The number that a list of decimal digits says. -/
def ofDigits (cs : List Char) : Nat :=
  cs.foldl (fun n c => 10 * n + (c.toNat - 48)) 0

/-- The double nearest to `m · 10^e`. Beyond the range of doubles the power of ten is not worked
out. -/
def toFloat (m : Nat) (e : Int) : Float :=
  let top : Int := (Nat.toDigits 10 m).length + e
  if m = 0 ∨ top < -400 then 0.0
  else if 400 < top then Float.ofBits 0x7FF0000000000000
  else Float.ofScientific m (e < 0) e.natAbs

/-- A sign in front and what follows it: whether it is a minus. -/
def splitSign : List Char → Bool × List Char
  | '-' :: cs => (true, cs)
  | '+' :: cs => (false, cs)
  | cs => (false, cs)

/-- The exponent that a text says after its mantissa. -/
def readExponent? : List Char → Option Int
  | [] => some 0
  | e :: cs =>
    let (negative, digits) := splitSign cs
    if (e = 'e' ∨ e = 'E') ∧ digits ≠ [] ∧ digits.all Char.isDigit then
      let n : Int := ofDigits digits
      some (if negative then -n else n)
    else
      none

/-- The double that digits, with a point and an exponent, say. -/
def readDigits? (cs : List Char) : Option Float := do
  let whole := cs.takeWhile Char.isDigit
  let rest := cs.drop whole.length
  let (fraction, rest) := match rest with
    | '.' :: rest => (rest.takeWhile Char.isDigit, rest.dropWhile Char.isDigit)
    | rest => ([], rest)
  if whole = [] ∧ fraction = [] then none
  else
    let e ← readExponent? rest
    some (toFloat (ofDigits (whole ++ fraction)) (e - fraction.length))

/-- The double that a text says. -/
def readFloat? (text : String) : Option Float :=
  let (negative, cs) := splitSign text.toList
  let word := String.ofList (cs.map Char.toLower)
  let magnitude :=
    if word = "inf" ∨ word = "infinity" then some (Float.ofBits 0x7FF0000000000000)
    else if word = "nan" then some (Float.ofBits 0x7FF8000000000000)
    else readDigits? cs
  magnitude.map fun x => if negative then -x else x

end Formula.Decimal
