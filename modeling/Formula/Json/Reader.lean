import Formula.Decimal.Reading
import Formula.Json
import Formula.Reading

/-!
Reading JSON text.

The text may have blanks between its tokens and nothing behind its value. Arrays and objects may nest
as deep as the reader is told. Numbers that are too large for a double are refused.
-/

namespace Formula.JsonText

open Reading (repeatedly)

/-- A reader of characters. -/
abbrev Reader := StateT (List Char) Option

/-- Passes blanks. -/
def skipBlanks : Reader Unit :=
  modify fun cs => cs.dropWhile fun c => c == ' ' || c == '\n' || c == '\t' || c == '\r'

/-- Passes blanks and gives the character behind them. -/
def peekToken : Reader Char := do
  skipBlanks
  StateT.lift (← get).head?

/-- Passes a character, after blanks. -/
def passToken (c : Char) : Reader Unit := do
  if (← peekToken) = c then
    modify List.tail
  else
    failure

/-- Passes a word. -/
def passWord (word : String) : Reader Unit := do
  let cs ← get
  if word.toList.isPrefixOf cs then
    set (cs.drop word.length)
  else
    failure

/-- Reads digits. -/
def digits : Reader (List Char) := do
  let cs ← get
  let ds := cs.takeWhile Char.isDigit
  set (cs.drop ds.length)
  return ds

/-- The largest whole number of 64 bits. -/
def maxWord : Nat := 18446744073709551615

/-- The longest beginning of a list of digits that says a number of 64 bits, going on from `n`: that
number, and the digits left. -/
def takeWord (n : Nat) : List Char → Nat × List Char
  | [] => (n, [])
  | c :: cs =>
    let n' := 10 * n + (c.toNat - 48)
    if maxWord < n' then (n, c :: cs) else takeWord n' cs

/-- A power of ten, as a double. -/
def tenTo (n : Nat) : Float :=
  Float.ofScientific 1 false n

/-- The double of a word scaled by a power of ten: one multiplication or division, after divisions by
`10^308` as long as the exponent is below `-308`. None if it is too large. -/
def scaled? (x : Float) (e : Int) : Nat → Option Float
  | 0 => some x
  | n + 1 =>
    if 308 < e.natAbs then
      if x == 0.0 then some x
      else if 0 ≤ e then none
      else scaled? (x / tenTo 308) (e + 308) n
    else if 0 ≤ e then
      let y := x * tenTo e.natAbs
      if y.isInf then none else some y
    else
      some (x / tenTo e.natAbs)

/-- The number of a word of digits and a power of ten. Exponents are cut off at 32 bits. -/
def double? (word : Nat) (e : Int) : Option Float :=
  let e := max (-2147483648) (min e 2147483647)
  scaled? (Float.ofNat word) e 16

/-- Reads an exponent, if there is one. None if a sign or `e` is not followed by digits. -/
def exponent? : Reader (Option Int) := do
  match (← get).head? with
  | some c =>
    if c = 'e' ∨ c = 'E' then
      modify List.tail
      let (negative, cs) := Decimal.splitSign (← get)
      set cs
      let ds ← digits
      if ds = [] then
        failure
      let n : Int := Decimal.ofDigits ds
      return some (if negative then -n else n)
    else
      return none
  | none => return none

/-- Reads the digits behind a point, if there is one. -/
def fraction? : Reader (Option (List Char)) := do
  match ← get with
  | '.' :: cs =>
    set cs
    let ds ← digits
    if ds = [] then
      failure
    return some ds
  | _ => return none

/-- The number said by its digits: whole numbers of 64 bits stay whole, minus zero apart. The digits
of any other number count as far as they fit 64 bits. -/
def ofDigits? (negative : Bool) (whole : List Char) (fraction : Option (List Char))
    (e : Option Int) : Option JsonNumber :=
  let (word, left) := takeWord 0 whole
  let sign (x : Float) : JsonNumber := .double (if negative then -x else x)
  match fraction, e with
  | none, none =>
    if left = [] ∧ !negative then some (.integer word)
    else if left = [] ∧ 0 < word ∧ word ≤ 9223372036854775808 then some (.integer (-word))
    else (double? word left.length).map sign
  | _, _ =>
    let (word, unread) := takeWord word (fraction.getD [])
    let used := (fraction.getD []).length - unread.length
    (double? word (left.length - used + e.getD 0)).map sign

/-- Reads a number. -/
def number : Reader JsonNumber := do
  let negative := (← get).head? = some '-'
  if negative then
    modify List.tail
  let whole ← digits
  match whole with
  | [] => failure
  | '0' :: _ :: _ => failure
  | _ =>
    let fraction ← fraction?
    let e ← exponent?
    StateT.lift (ofDigits? negative whole fraction e)

/-- Reads a string, from its opening quote on. -/
def str : Reader String := do
  passToken '"'
  let (s, rest) ← StateT.lift (Text.unquote? (← get))
  set rest
  return String.ofList s

/-- Reads things between commas and a closing bracket, from behind the opening one on. -/
def commaSeparated {α : Type} (closing : Char) (item : Reader α) : Reader (List α) := do
  if (← peekToken) = closing then
    modify List.tail
    return []
  let first ← item
  let reversed ← repeatedly [first] fun found => do
    if (← peekToken) = ',' then
      modify List.tail
      return .yield ((← item) :: found)
    else
      return .done found
  passToken closing
  return reversed.reverse

/-- Reads a field, given a reader for its value. -/
def field (value : Reader Json) : Reader (String × Json) := do
  let key ← str
  passToken ':'
  return (key, ← value)

/-- Reads a value, given a reader for what stands inside it, if anything may. -/
def valueAround (inner : Option (Reader Json)) : Reader Json := do
  let c ← peekToken
  if c = '"' then
    return .string (← str)
  else if c = '[' then
    modify List.tail
    return .array (← commaSeparated ']' (← StateT.lift inner))
  else if c = '\x7b' then
    modify List.tail
    return .object (Record.ofList (← commaSeparated '\x7d' (field (← StateT.lift inner))))
  else if c = 't' then
    passWord "true"
    return .bool true
  else if c = 'f' then
    passWord "false"
    return .bool false
  else if c = 'n' then
    passWord "null"
    return .null
  else
    return .number (← number)

/-- Reads a value in which arrays and objects nest at most `depth` deep. -/
def value : Nat → Reader Json
  | 0 => valueAround none
  | depth + 1 => valueAround (some (value depth))

/-- Reads a value and the blanks behind it. -/
def document (depth : Nat) : Reader Json := do
  let json ← value depth
  skipBlanks
  return json

end Formula.JsonText

namespace Formula.Json

/-- The deepest nesting that documents are accepted with. -/
def maxDepth : Nat := 127

/-- The document at the front of a text, nested at most `depth` deep, and what is left of the text
behind it and the blanks after it. -/
def readFront? (depth : Nat) (text : String) : Option (Json × List Char) :=
  (JsonText.document depth).run text.toList

/-- The document of a text, nested at most `depth` deep. -/
def readDeep? (depth : Nat) (text : String) : Option Json :=
  match readFront? depth text with
  | some (json, []) => some json
  | _ => none

/-- The document of a text. -/
def read? (text : String) : Option Json :=
  readDeep? maxDepth text

end Formula.Json
