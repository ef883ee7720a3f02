import Formula.Expr.WellFormed

/-!
Why a source is no expression, and how that is shown beside the source.
-/

namespace Formula

/-- What is wrong with a sequence of tokens. -/
inductive SyntaxFault where
  | unclosedString
  | unreadable (text : String)
  | unexpectedOperator (text : String)
  | unexpected (text : String)
  | unexpectedEnd
  | valueExpected
  | singleQuotes
  | invalidString
  | invalidTarget
  | shape (error : ShapeError)
  | falsePartExpected
  | tooManyRangeParts
  | tooDeep
  | propertyNameExpected
  /-- A closing parenthesis or bracket is missing. -/
  | unclosed (bracket : String)
  | unclosedMatrix
  | columns (got expected : Nat)
  | keyExpected
  | colonExpected
  | unclosedObject
deriving DecidableEq, Repr

/-- A fault, at the position of the character where it shows. -/
structure SyntaxError where
  fault : SyntaxFault
  position : Nat
deriving DecidableEq, Repr

namespace SyntaxFault

/-- The text of a fault. -/
def message : SyntaxFault → String
  | .unclosedString => "End of string \" expected"
  | .unreadable text => "Syntax error in part \"" ++ text ++ "\""
  | .unexpectedOperator text => "Unexpected operator " ++ text
  | .unexpected text => "Unexpected \"" ++ text ++ "\""
  | .unexpectedEnd => "Unexpected end of expression"
  | .valueExpected => "Value expected"
  | .singleQuotes => "Value expected. Note: strings must be enclosed by double quotes"
  | .invalidString => "Invalid string literal"
  | .invalidTarget => "Invalid left hand side of assignment operator ="
  | .shape error => error.message
  | .falsePartExpected => "False part of conditional expression expected"
  | .tooManyRangeParts => "too many range parts"
  | .tooDeep => "Maximum nesting depth exceeded"
  | .propertyNameExpected => "Property name expected after dot"
  | .unclosed bracket => "Parenthesis " ++ bracket ++ " expected"
  | .unclosedMatrix => "End of matrix ] expected"
  | .columns got expected =>
    "Column dimensions mismatch (" ++ toString got ++ " !== " ++ toString expected ++ ")"
  | .keyExpected => "Symbol or string expected as object key"
  | .colonExpected => "Colon : expected after object key"
  | .unclosedObject => "Comma , or bracket \x7d expected after object value"

end SyntaxFault

namespace SyntaxError

/-- A message with the position that it is about. -/
def describe (message : String) (position : Nat) : String :=
  message ++ " (char " ++ toString position ++ ")"

/-- The number of characters in front of the line that holds a position. -/
def lineStart (position : Nat) (source : List Char) : Nat :=
  let before := source.take position
  before.length - (before.reverse.takeWhile (· != '\n')).length

/-- A line without the carriage return at its end. -/
def withoutReturn (line : List Char) : List Char :=
  if line.getLast? = some '\r' then line.dropLast else line

/-- The line of the source that holds a position, and below it a caret under the position, with the
message. -/
def pretty (message : String) (position : Nat) (source : String) : String :=
  let start := lineStart position source.toList
  let rest := source.toList.drop start
  let line := rest.takeWhile (· != '\n')
  let line := if line.length < rest.length then withoutReturn line else line
  let column := min rest.length (position - start)
  String.ofList (line ++ '\n' :: List.replicate column ' ') ++ "^ " ++ describe message position

end SyntaxError

end Formula
