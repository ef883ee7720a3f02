/-!
The operators of the expression language: their names as functions, their spellings, and how tightly
they bind.

`Operator.name` and `Operator.symbol` are the two spellings; `ofName?` reads the first, and the three
fixities have a reader each for the second, since `-` and `+` are spelled alike in two of them.
-/

namespace Formula

/-- A function that can be written as an operator. -/
inductive Operator where
  | or | xor | and
  | bitOr | bitXor | bitAnd
  | equal | unequal | smaller | larger | smallerEq | largerEq
  | leftShift | rightArithShift | rightLogShift
  | add | subtract
  | multiply | divide | dotMultiply | dotDivide | mod
  | unaryMinus | unaryPlus | bitNot | not
  | pow | dotPow
  | factorial | transpose
deriving DecidableEq, Repr

/-- How operators of equal strength group. -/
inductive Associativity where
  | left | right
deriving DecidableEq, Repr

/-- The side of an operator that an operand stands on. -/
inductive Side where
  | left | right
deriving DecidableEq, Repr

/-- How tightly the forms bind that are not operators; comparisons share one strength. -/
def Precedence.assignment : Nat := 0

/-- The strength of `c ? t : f`. -/
def Precedence.conditional : Nat := 1

/-- The strength of `start:end`. -/
def Precedence.range : Nat := 2

/-- The strength of comparisons and of their chains. -/
def Precedence.relational : Nat := 9

namespace Operator

/-- Every operator, weakest first. -/
def all : List Operator :=
  [.or, .xor, .and, .bitOr, .bitXor, .bitAnd, .equal, .unequal, .smaller, .larger, .smallerEq,
    .largerEq, .leftShift, .rightArithShift, .rightLogShift, .add, .subtract, .multiply, .divide,
    .dotMultiply, .dotDivide, .mod, .unaryMinus, .unaryPlus, .bitNot, .not, .pow, .dotPow,
    .factorial, .transpose]

/-- The name of the function that an operator applies. -/
def name : Operator → String
  | .or => "or"
  | .xor => "xor"
  | .and => "and"
  | .bitOr => "bitOr"
  | .bitXor => "bitXor"
  | .bitAnd => "bitAnd"
  | .equal => "equal"
  | .unequal => "unequal"
  | .smaller => "smaller"
  | .larger => "larger"
  | .smallerEq => "smallerEq"
  | .largerEq => "largerEq"
  | .leftShift => "leftShift"
  | .rightArithShift => "rightArithShift"
  | .rightLogShift => "rightLogShift"
  | .add => "add"
  | .subtract => "subtract"
  | .multiply => "multiply"
  | .divide => "divide"
  | .dotMultiply => "dotMultiply"
  | .dotDivide => "dotDivide"
  | .mod => "mod"
  | .unaryMinus => "unaryMinus"
  | .unaryPlus => "unaryPlus"
  | .bitNot => "bitNot"
  | .not => "not"
  | .pow => "pow"
  | .dotPow => "dotPow"
  | .factorial => "factorial"
  | .transpose => "transpose"

/-- The operator that applies the function of a name. -/
def ofName? (s : String) : Option Operator :=
  all.find? fun op => op.name == s

/-- The default spelling of an operator. -/
def symbol : Operator → String
  | .or => "or"
  | .xor => "xor"
  | .and => "and"
  | .bitOr => "|"
  | .bitXor => "^|"
  | .bitAnd => "&"
  | .equal => "=="
  | .unequal => "!="
  | .smaller => "<"
  | .larger => ">"
  | .smallerEq => "<="
  | .largerEq => ">="
  | .leftShift => "<<"
  | .rightArithShift => ">>"
  | .rightLogShift => ">>>"
  | .add | .unaryPlus => "+"
  | .subtract | .unaryMinus => "-"
  | .multiply => "*"
  | .divide => "/"
  | .dotMultiply => ".*"
  | .dotDivide => "./"
  | .mod => "mod"
  | .bitNot => "~"
  | .not => "not"
  | .pow => "^"
  | .dotPow => ".^"
  | .factorial => "!"
  | .transpose => "'"

/-- The LaTeX spelling of an operator. -/
def latexSymbol : Operator → String
  | .or => "\\vee"
  | .xor => "\\veebar"
  | .and => "\\wedge"
  | .bitOr => "|"
  | .bitXor => "\\underline\x7b|\x7d"
  | .bitAnd => "\\&"
  | .equal => "="
  | .unequal => "\\neq"
  | .smaller => "<"
  | .larger => ">"
  | .smallerEq => "\\leq"
  | .largerEq => "\\geq"
  | .leftShift => "<<"
  | .rightArithShift => ">>"
  | .rightLogShift => ">>>"
  | .add | .unaryPlus => "+"
  | .subtract | .unaryMinus => "-"
  | .multiply => "\\cdot"
  | .divide => "\\frac"
  | .dotMultiply => ".\\cdot"
  | .dotDivide => ".:"
  | .mod => "\\mod"
  | .bitNot => "\\~"
  | .not => "\\neg"
  | .pow => "^"
  | .dotPow => ".^\\wedge"
  | .factorial => "!"
  | .transpose => "^\\top"

/-- How tightly an operator binds; a larger number binds tighter. -/
def precedence : Operator → Nat
  | .or => 3
  | .xor => 4
  | .and => 5
  | .bitOr => 6
  | .bitXor => 7
  | .bitAnd => 8
  | .equal | .unequal | .smaller | .larger | .smallerEq | .largerEq => Precedence.relational
  | .leftShift | .rightArithShift | .rightLogShift => 10
  | .add | .subtract => 11
  | .multiply | .divide | .dotMultiply | .dotDivide | .mod => 12
  | .unaryMinus | .unaryPlus | .bitNot | .not => 13
  | .pow | .dotPow => 14
  | .factorial => 15
  | .transpose => 16

/-- Operators in front of their operand and powers group to the right, all others to the left. -/
def associativity : Operator → Associativity
  | .unaryMinus | .unaryPlus | .bitNot | .not | .pow | .dotPow => .right
  | _ => .left

/-- The operators that may stand, without parentheses, in the right operand of an operator as strong
as themselves: `a + (b - c)` is `a + b - c`. -/
def associativeWith : Operator → List Operator
  | .add => [.add, .subtract]
  | .multiply => [.multiply, .divide]
  | .dotMultiply => [.multiply, .divide, .dotMultiply, .dotDivide]
  | _ => []

/-- Operators of one operand. -/
def isUnary : Operator → Bool
  | .unaryMinus | .unaryPlus | .bitNot | .not | .factorial | .transpose => true
  | _ => false

/-- Comparisons, which can be chained. -/
def isRelational (op : Operator) : Bool :=
  op.precedence == Precedence.relational

/-- Whether LaTeX sets an operand apart without parentheses: in a fraction, or as an exponent. -/
def latexOmitsParens : Operator → Side → Bool
  | .divide, _ => true
  | .pow, .right | .dotPow, .right => true
  | _, _ => false

/-- The binary operator spelled by a token; `%` is a second spelling of `mod`. -/
def binary? (s : String) : Option Operator :=
  if s == "%" then some .mod else all.find? fun op => !op.isUnary && op.symbol == s

/-- The operator that a token spells in front of its operand. -/
def leading? : String → Option Operator
  | "-" => some .unaryMinus
  | "+" => some .unaryPlus
  | "~" => some .bitNot
  | "not" => some .not
  | _ => none

/-- The operator that a token spells behind its operand. -/
def trailing? : String → Option Operator
  | "!" => some .factorial
  | "'" => some .transpose
  | _ => none

theorem mem_all (op : Operator) : op ∈ all := by
  cases op <;> decide

@[simp] theorem ofName?_name (op : Operator) : ofName? op.name = some op := by
  cases op <;> decide

end Operator

end Formula
