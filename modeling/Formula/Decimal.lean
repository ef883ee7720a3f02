/-!
The shortest decimal text of a double.

A finite double is `mantissa · 2^exponent`; the reals that round to it form an interval around it,
whose ends belong to it exactly if the mantissa is even. `shortest` looks on the grids of multiples of
powers of ten, from the coarsest on that has a nonzero multiple below the double, for a point of that
interval, and takes the nearer one of two. All of it is arithmetic of natural numbers.

How the digits are laid out is a `Format`.
-/

namespace Formula

/-- `digits · 10^exponent`. -/
structure Decimal where
  digits : Nat
  exponent : Int
deriving DecidableEq, Repr

namespace Decimal

/-- Which one of two equally near decimals is taken. -/
inductive Tie where
  | up
  | even
deriving DecidableEq, Repr

/-- A positive double, and whether the doubles below it are closer together than those above. -/
structure Binary where
  mantissa : Nat
  exponent : Int
  closerBelow : Bool
deriving DecidableEq, Repr

/-- The magnitude of a finite double. -/
def Binary.ofFloat (x : Float) : Binary :=
  let bits := x.toBits.toNat
  let field : Nat := bits / Nat.pow 2 52 % Nat.pow 2 11
  let fraction : Nat := bits % Nat.pow 2 52
  if field = 0 then
    { mantissa := fraction, exponent := -1074, closerBelow := false }
  else
    { mantissa := Nat.pow 2 52 + fraction, exponent := (field : Int) - 1075,
      closerBelow := fraction = 0 ∧ 1 < field }

/-- Whether the magnitude of a double is a whole number. -/
def Binary.isWhole (b : Binary) : Bool :=
  b.mantissa % Nat.pow 2 (-b.exponent).toNat = 0

/-- Whether a double is a whole number. -/
def isWhole (x : Float) : Bool :=
  x.isFinite && (Binary.ofFloat x).isWhole

/-- A double and the ends of its interval, over one denominator. -/
structure Interval where
  value : Nat
  low : Nat
  high : Nat
  denominator : Nat
  /-- Whether the ends belong to it. -/
  closed : Bool

/-- The interval of the reals that round to a double. -/
def Binary.interval (b : Binary) : Interval :=
  let quarter := b.exponent - 2
  let scale := Nat.pow 2 quarter.toNat
  { value := 4 * b.mantissa * scale
    low := (4 * b.mantissa - if b.closerBelow then 1 else 2) * scale
    high := (4 * b.mantissa + 2) * scale
    denominator := Nat.pow 2 (-quarter).toNat
    closed := b.mantissa % 2 = 0 }

/-- The number of decimal digits of a natural number. -/
def digitCount (n : Nat) : Nat :=
  (Nat.toDigits 10 n).length

/-- The greatest exponent of a power of ten that is at most `n / d`. -/
def magnitude (n d : Nat) : Int :=
  let k : Int := (digitCount n : Int) - digitCount d
  if d * Nat.pow 10 k.toNat ≤ n * Nat.pow 10 (-k).toNat then k else k - 1

/-- The point of an interval on the grid of multiples of `10^k` that is nearest to its value. -/
def Interval.onGrid? (i : Interval) (tie : Tie) (k : Int) : Option Nat :=
  let up := Nat.pow 10 (-k).toNat
  let step := i.denominator * Nat.pow 10 k.toNat
  let holds (n : Nat) : Bool :=
    if i.closed then i.low * up ≤ n * step && n * step ≤ i.high * up
    else i.low * up < n * step && n * step < i.high * up
  let below := i.value * up / step
  let rest := i.value * up % step
  let above : Bool :=
    if 2 * rest = step then
      match tie with
      | .up => true
      | .even => below % 2 = 1
    else step < 2 * rest
  match holds below, holds (below + 1) with
  | true, true => some (if above then below + 1 else below)
  | true, false => some below
  | false, true => some (below + 1)
  | false, false => none

/-- The coarsest point of an interval among the grids from `10^k` on, for `n` of them. -/
def Interval.search (i : Interval) (tie : Tie) (k : Int) : Nat → Decimal
  | 0 => { digits := i.value / i.denominator, exponent := 0 }
  | n + 1 =>
    match i.onGrid? tie k with
    | some d => if d % 10 = 0 then { digits := d / 10, exponent := k + 1 }
      else { digits := d, exponent := k }
    | none => i.search tie (k - 1) n

/-- The decimal with the fewest digits that rounds to a positive double, and of those the nearest.
Seventeen digits always suffice. -/
def shortest (tie : Tie) (b : Binary) : Decimal :=
  let i := b.interval
  i.search tie (magnitude i.value i.denominator) 17

/-- How the text of a double is laid out. -/
structure Format where
  tie : Tie
  /-- Whether a number whose first digit stands for this power of ten is written without an
  exponent. -/
  positional : Int → Bool
  /-- What follows the digits of a whole number written without an exponent. -/
  whole : String
  nan : String
  infinity : String

/-- The digits of a decimal, with a point where it belongs. -/
def positionalText (whole : String) (d : Decimal) : String :=
  let ds := Nat.toDigits 10 d.digits
  let point : Int := ds.length + d.exponent
  if 0 ≤ d.exponent then
    String.ofList (ds ++ List.replicate d.exponent.toNat '0') ++ whole
  else if 0 < point then
    String.ofList (ds.take point.toNat ++ '.' :: ds.drop point.toNat)
  else
    String.ofList ('0' :: '.' :: List.replicate (-point).toNat '0' ++ ds)

/-- The power of ten that the first digit of a decimal stands for. -/
def firstExponent (d : Decimal) : Int :=
  digitCount d.digits + d.exponent - 1

/-- The digits of a decimal, with a point behind the first one, and an exponent. -/
def exponentText (d : Decimal) : String :=
  let mantissa := match Nat.toDigits 10 d.digits with
    | first :: c :: cs => first :: '.' :: c :: cs
    | ds => ds
  let e := firstExponent d
  String.ofList mantissa ++ (if e < 0 then "e-" else "e+") ++ toString e.natAbs

/-- The text of a decimal. -/
def Format.text (format : Format) (d : Decimal) : String :=
  if format.positional (firstExponent d) then positionalText format.whole d else exponentText d

/-- The text of a double. -/
def Format.write (format : Format) (x : Float) : String :=
  if x.isNaN then format.nan
  else
    let negative := x.toBits.toNat / Nat.pow 2 63 = 1
    let magnitude :=
      if x.isInf then format.infinity
      else
        let b := Binary.ofFloat x
        format.text (if b.mantissa = 0 then { digits := 0, exponent := 0 }
          else shortest format.tie b)
    if negative then "-" ++ magnitude else magnitude

end Decimal

end Formula
