import Formula.Text.CharClass

/-!
The tokens of an expression and how a source is cut into them.

`Token.scan` never fails: a character that starts no token becomes a token of its own kind, which no
rule of the grammar accepts. The tokens carry the positions of their first characters, and the last
one is always the end.
-/

namespace Formula

/-- What a token is. -/
inductive TokenKind where
  | number
  | identifier
  /-- Symbols and words that operate, and `=`, `?` and `:`. -/
  | operator
  /-- Brackets, `,`, `;` and `.`. -/
  | delimiter
  /-- A string literal, without its quotes and with its escapes as they stand. -/
  | str
  | newline
  | unknown
  | stop
deriving DecidableEq, Repr

namespace TokenKind

/-- The name of a kind. -/
def name : TokenKind → String
  | .number => "Number"
  | .identifier => "Identifier"
  | .operator => "Operator"
  | .delimiter => "Delimiter"
  | .str => "Str"
  | .newline => "Newline"
  | .unknown => "Unknown"
  | .stop => "End"

end TokenKind

/-- A piece of a source, at the position of its first character. -/
structure Token where
  kind : TokenKind
  text : String
  position : Nat
deriving DecidableEq, Repr

namespace Token

/-- Whether a token is the operator of a spelling. -/
def isOperator (t : Token) (text : String) : Bool :=
  t.kind == .operator && t.text == text

/-- Whether a token is the delimiter of a spelling. -/
def isDelimiter (t : Token) (text : String) : Bool :=
  t.kind == .delimiter && t.text == text

/-- The characters of the source that a token stands for. -/
def spelling (t : Token) : String :=
  if t.kind = .str then "\"" ++ t.text ++ "\"" else t.text

/-- The words that are operators. -/
def namedOperators : List String :=
  ["mod", "and", "or", "xor", "not"]

/-- The symbols that are operators, longer ones before their own beginnings. -/
def symbols : List String :=
  [">>>", ".*", "./", ".^", "^|", "==", "!=", "<=", ">=", "<<", ">>", "+", "-", "*", "/", "%",
    "^", "'", "!", "~", "&", "|", "=", "<", ">", "?", ":"]

/-- The characters that are delimiters. -/
def delimiters : List Char :=
  ['(', ')', '[', ']', '\x7b', '\x7d', ',', ';', '.']

/-- The number of characters of an exponent at the front: `e`, a sign or none, and digits. -/
def exponentLength : List Char → Nat
  | e :: cs =>
    if e = 'e' ∨ e = 'E' then
      let sign := match cs with
        | '+' :: _ | '-' :: _ => 1
        | _ => 0
      match ((cs.drop sign).takeWhile Char.isDigit).length with
      | 0 => 0
      | digits => 1 + sign + digits
    else 0
  | [] => 0

/-- The number of characters of a number at the front, zero if there is none: digits with at most
one point among or around them, then an exponent or none. -/
def numberLength (cs : List Char) : Nat :=
  let whole := (cs.takeWhile Char.isDigit).length
  let mantissa := match cs.drop whole with
    | '.' :: cs =>
      let fraction := (cs.takeWhile Char.isDigit).length
      if whole = 0 ∧ fraction = 0 then 0 else whole + 1 + fraction
    | _ => whole
  if mantissa = 0 then 0 else mantissa + exponentLength (cs.drop mantissa)

/-- The number of characters up to and including the first quote that no backslash escapes. -/
def closingQuote? (escaped : Bool) : List Char → Option Nat
  | [] => none
  | c :: cs =>
    if c = '"' ∧ !escaped then some 1
    else (closingQuote? (c = '\\' ∧ !escaped) cs).map (· + 1)

/-- The kind and the number of further characters of the token that starts with `c`, with `cs`
behind it. -/
def shape (c : Char) (cs : List Char) : TokenKind × Nat :=
  if c = '\n' then (.newline, 0)
  else if c = '"' then
    match closingQuote? false cs with
    | some n => (.str, n)
    | none => (.unknown, cs.length)
  else match symbols.find? fun s => s.toList.isPrefixOf (c :: cs) with
    | some s => (.operator, s.length - 1)
    | none =>
      match numberLength (c :: cs) with
      | n + 1 => (.number, n)
      | 0 =>
        if Text.isNameStart c then
          let more := cs.takeWhile Text.isNamePart
          let name := String.ofList (c :: more)
          (if namedOperators.contains name then .operator else .identifier, more.length)
        else if delimiters.contains c then (.delimiter, 0)
        else (.unknown, 0)

/-- The token of a kind made of the character `c` and the characters `more`; a string literal loses
its quotes. -/
def ofChars (kind : TokenKind) (c : Char) (more : List Char) (position : Nat) : Token :=
  { kind, position,
    text := String.ofList (if kind = .str then more.dropLast else c :: more) }

/-- Characters between tokens. -/
def isBlank (c : Char) : Bool :=
  c == ' ' || c == '\t' || c == '\r'

/-- The number of further characters that are skipped together with `c`, if it starts no token:
a blank goes alone, `#` takes the rest of its line with it. -/
def skipped? (c : Char) (cs : List Char) : Option Nat :=
  if isBlank c then some 0
  else if c = '#' then some (cs.takeWhile (· != '\n')).length
  else none

/-- The tokens of a text that starts at a position of its source. -/
def scanFrom (position : Nat) : List Char → List Token
  | [] => [{ kind := .stop, text := "", position }]
  | c :: cs =>
    match skipped? c cs with
    | some n => scanFrom (position + n + 1) (cs.drop n)
    | none =>
      let (kind, n) := shape c cs
      ofChars kind c (cs.take n) position :: scanFrom (position + n + 1) (cs.drop n)
termination_by cs => cs.length
decreasing_by all_goals simp only [List.length_drop, List.length_cons]; omega

/-- The tokens of a source. -/
def scan (source : String) : List Token :=
  scanFrom 0 source.toList

/-- Whether a name can be given to a variable, a function or a parameter. -/
def isIdentifier (name : String) : Bool :=
  match name.toList with
  | [] => false
  | c :: cs => Text.isNameStart c && cs.all Text.isNamePart && !namedOperators.contains name

end Token

end Formula
