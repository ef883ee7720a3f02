import Formula.Decimal
import Formula.Record
import Formula.Text.Quoted

/-!
JSON documents and their compact text.

The fields of an object are a record: they keep their order, and a repeated key keeps its first place
with its last value.
-/

namespace Formula

/-- A number of a document. -/
inductive JsonNumber where
  /-- A whole number of at most 64 bits. -/
  | integer (n : Int)
  /-- Any other number. -/
  | double (x : Float)

/-- A document. -/
inductive Json where
  | null
  | bool (b : Bool)
  | number (n : JsonNumber)
  | string (s : String)
  | array (items : List Json)
  | object (fields : List (String × Json))
deriving Inhabited

namespace JsonNumber

/-- Doubles always show that they are no integers: by `.0`, or by an exponent from `10^16` on and
below `10^-5`. -/
def format : Decimal.Format where
  tie := .even
  positional e := -5 ≤ e ∧ e < 16
  whole := ".0"
  nan := "null"
  infinity := "null"

/-- The text of a number. -/
def text : JsonNumber → String
  | .integer n => toString n
  | .double x => format.write x

/-- The double nearest to a number. -/
def toFloat : JsonNumber → Float
  | .integer n => if n < 0 then -Float.ofNat n.natAbs else Float.ofNat n.natAbs
  | .double x => x

end JsonNumber

namespace Json

/-- A whole number. -/
def nat (n : Nat) : Json :=
  .number (.integer n)

/-- The text of a document, without blanks. -/
def text : Json → String
  | .null => "null"
  | .bool b => if b then "true" else "false"
  | .number n => n.text
  | .string s => Text.quote s
  | .array items => "[" ++ ",".intercalate (items.map fun item => item.text) ++ "]"
  | .object fields =>
    "\x7b" ++ ",".intercalate (fields.map fun field => Text.quote field.1 ++ ":" ++ field.2.text)
      ++ "\x7d"
termination_by json => sizeOf json
decreasing_by all_goals grind

/-- The fields of an object. -/
def fields? : Json → Option (List (String × Json))
  | .object fields => some fields
  | _ => none

/-- The characters of a string. -/
def string? : Json → Option String
  | .string s => some s
  | _ => none

/-- The items of an array. -/
def items? : Json → Option (List Json)
  | .array items => some items
  | _ => none

end Json

end Formula
