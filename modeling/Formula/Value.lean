import Formula.Decimal
import Formula.Record
import Formula.Text.Shown

/-!
The values that expressions have.

Functions and values of the host are opaque: a function is known by its number in a store
(`Formula.Store`), a host value by what it tells about itself.
-/

namespace Formula

/-- What sort of value a value is. -/
inductive ValueKind where
  | undefined | null | boolean | number | string | array | object | index | function | custom
deriving DecidableEq, Repr

namespace ValueKind

/-- Every sort of value. -/
def all : List ValueKind :=
  [.undefined, .null, .boolean, .number, .string, .array, .object, .index, .function, .custom]

/-- The name of a sort of value. -/
def name : ValueKind → String
  | .undefined => "undefined"
  | .null => "null"
  | .boolean => "boolean"
  | .number => "number"
  | .string => "string"
  | .array => "array"
  | .object => "object"
  | .index => "index"
  | .function => "function"
  | .custom => "custom"

/-- The sort of value of a name. -/
def ofName? (s : String) : Option ValueKind :=
  all.find? fun kind => kind.name == s

@[simp] theorem ofName?_name (kind : ValueKind) : ofName? kind.name = some kind := by
  cases kind <;> decide

end ValueKind

/-- A function: its number in the store, its name, and its parameters if an expression defined
it. -/
structure Function where
  id : Nat
  name : String
  params : Option (List String)
deriving DecidableEq, Repr

namespace Function

/-- The text of a function. -/
def text (f : Function) : String :=
  match f.params with
  | some params => f.name ++ "(" ++ ", ".intercalate params ++ ")"
  | none => f.name ++ "(...)"

end Function

/-- What makes two host values the same. -/
inductive Identity where
  /-- A value that is equal to itself alone. -/
  | unique (id : Nat)
  /-- A value that is equal to all of its type with the same content. -/
  | content (key : String)
deriving DecidableEq, Repr

/-- A value of a type that the host brings along. -/
structure Custom where
  typeName : String
  text : String
  /-- Whether the value holds as a condition; none if it cannot be one. -/
  truth : Option Bool
  identity : Identity
deriving DecidableEq, Repr

namespace Custom

/-- Whether two host values are equal. -/
def beq (a b : Custom) : Bool :=
  a.typeName == b.typeName && a.identity == b.identity

/-- A quantity with a unit, known by its text. -/
def unit (text : String) (truth : Option Bool) : Custom :=
  { typeName := "Unit", text, truth, identity := .content text }

/-- A value that is equal to itself alone and cannot be a condition. -/
def plain (content : String) (id : Nat) : Custom :=
  { typeName := "Plain", text := "<" ++ content ++ ">", truth := none, identity := .unique id }

end Custom

/-- A value. -/
inductive Value where
  | undefined
  | null
  | bool (b : Bool)
  | number (x : Float)
  | string (s : String)
  | array (items : List Value)
  | object (fields : List (String × Value))
  /-- The dimensions of an index, worked out. -/
  | index (dimensions : List Value)
  | function (f : Function)
  | custom (c : Custom)
deriving Inhabited

namespace Value

/-- The sort of a value. -/
def kind : Value → ValueKind
  | .undefined => .undefined
  | .null => .null
  | .bool _ => .boolean
  | .number _ => .number
  | .string _ => .string
  | .array _ => .array
  | .object _ => .object
  | .index _ => .index
  | .function _ => .function
  | .custom _ => .custom

/-- The name of a value's type. -/
def typeName : Value → String
  | .custom c => c.typeName
  | v => v.kind.name

/-- Whether a value holds as a condition; none if it cannot be one. -/
def truth? : Value → Option Bool
  | .bool b => some b
  | .number x => some (!(x == 0.0) && !x.isNaN)
  | .string s => some (s != "")
  | .null | .undefined => some false
  | .custom c => c.truth
  | .array _ | .object _ | .index _ | .function _ => none

mutual

/-- Whether two values are equal. Numbers are compared as numbers, so that no value that holds a NaN
is equal to itself; functions are the same or different. -/
def beq : Value → Value → Bool
  | .undefined, .undefined => true
  | .null, .null => true
  | .bool a, .bool b => a == b
  | .number a, .number b => a == b
  | .string a, .string b => a == b
  | .array a, .array b => beqList a b
  | .index a, .index b => beqList a b
  | .object a, .object b => beqFields a b
  | .function f, .function g => f.id == g.id
  | .custom a, .custom b => a.beq b
  | _, _ => false

/-- Whether two lists of values are equal. -/
def beqList : List Value → List Value → Bool
  | [], [] => true
  | a :: as, b :: bs => beq a b && beqList as bs
  | _, _ => false

/-- Whether two lists of fields are equal, in order. -/
def beqFields : List (String × Value) → List (String × Value) → Bool
  | [], [] => true
  | (k, a) :: as, (l, b) :: bs => k == l && beq a b && beqFields as bs
  | _, _ => false

end

instance : BEq Value := ⟨beq⟩

/-- Numbers are written with all their digits, never with an exponent. -/
def numberFormat : Decimal.Format where
  tie := .up
  positional _ := true
  whole := ""
  nan := "NaN"
  infinity := "Infinity"

/-- In the reasons of errors, infinity has its short name. -/
def reasonFormat : Decimal.Format :=
  { numberFormat with infinity := "inf" }

/-- The text of a value. -/
def text : Value → String
  | .undefined => "undefined"
  | .null => "null"
  | .bool b => if b then "true" else "false"
  | .number x => numberFormat.write x
  | .string s => Text.shown s
  | .array items => "[" ++ ", ".intercalate (items.map fun v => v.text) ++ "]"
  | .object fields =>
    "\x7b" ++ ", ".intercalate (fields.map fun p => Text.shown p.1 ++ ": " ++ p.2.text) ++ "\x7d"
  | .index dimensions => "index(" ++ ", ".intercalate (dimensions.map fun v => v.text) ++ ")"
  | .function f => f.text
  | .custom c => c.text
termination_by v => sizeOf v
decreasing_by all_goals grind

/-- The texts of values, between commas. -/
def textOfAll (vs : List Value) : String :=
  ", ".intercalate (vs.map text)

/-- The numbers of the functions in a value. -/
def functions : Value → List Nat
  | .function f => [f.id]
  | .array items => items.flatMap fun v => v.functions
  | .index dimensions => dimensions.flatMap fun v => v.functions
  | .object fields => fields.flatMap fun p => p.2.functions
  | _ => []
termination_by v => sizeOf v
decreasing_by all_goals grind

end Value

end Formula
