import Formula.Expr
import Formula.Token

/-!
Which trees make sense: what `Expr.check` demands of the parts that the top node of a tree has.

Children are looked at only as far as their own top nodes; a tree is well formed when every node of
it passes.
-/

namespace Formula

/-- What is wrong with the parts of a node. -/
inductive ShapeError where
  /-- Only symbols and accesses can be assigned to. -/
  | target (got : Form)
  /-- An access or an assignment to a part takes an index. -/
  | notIndex (owner got : Form)
  /-- A name that is no identifier, is reserved, or names no comparison. -/
  | invalidName (owner : Form) (name : String)
  /-- A parameter that is declared twice. -/
  | repeatedParameter (name : String)
  /-- An operation without operands. -/
  | noOperands
  /-- A chain needs one more operand than comparisons, and at least one comparison. -/
  | comparisonCount (operands : Nat)
  /-- A dotted index is one string constant. -/
  | dotted
deriving DecidableEq, Repr

namespace ShapeError

/-- The text of an error. -/
def message : ShapeError → String
  | .target got =>
    Form.assignment.name ++ " expects SymbolNode or AccessorNode in slot 'object', got " ++ got.name
  | .notIndex owner got => owner.name ++ " expects IndexNode in slot 'index', got " ++ got.name
  | .invalidName owner name => owner.name ++ ": '" ++ name ++ "' is not a valid identifier"
  | .repeatedParameter name =>
    Form.definition.name ++ ": parameter '" ++ name ++ "' is declared more than once"
  | .noOperands => Form.operation.name ++ " expects at least 1 arguments, got 0"
  | .comparisonCount operands =>
    Form.comparison.name ++ " expects one more than the number of comparisons arguments, got "
      ++ toString operands
  | .dotted => "dot notation index must hold exactly one string constant"

end ShapeError

namespace Expr

/-- The word that stands for the size of what is indexed, and cannot be assigned to. -/
def endName : String := "end"

/-- The first element that comes a second time. -/
def firstRepeated? : List String → Option String
  | names => go [] names
where
  go (seen : List String) : List String → Option String
    | [] => none
    | name :: rest => if seen.contains name then some name else go (name :: seen) rest

/-- Whether a name is that of a comparison. -/
def isComparison (function : String) : Bool :=
  match Operator.ofName? function with
  | some op => op.isRelational
  | none => false

/-- Whether an expression can be assigned to. -/
def checkTarget : Expr → Except ShapeError Unit
  | .symbol name => if name == endName then .error (.invalidName .assignment name) else .ok ()
  | .access .. => .ok ()
  | other => .error (.target other.form)

/-- Whether an expression is an index, as its owner needs one. -/
def checkIndex (owner : Form) : Expr → Except ShapeError Unit
  | .index .. => .ok ()
  | other => .error (.notIndex owner other.form)

/-- Whether a function can have a name and parameters. -/
def checkNames (name : String) (params : List String) : Except ShapeError Unit :=
  match (name :: params).find? fun n => !Token.isIdentifier n with
  | some n => .error (.invalidName .definition n)
  | none =>
    match firstRepeated? params with
    | some n => .error (.repeatedParameter n)
    | none => .ok ()

/-- Whether dimensions can be written behind a dot. -/
def checkDotted : List Expr → Except ShapeError Unit
  | [.constant _ .string] => .ok ()
  | _ => .error .dotted

/-- Whether functions can compare a number of operands, each with the next. -/
def checkChain (functions : List String) (operands : Nat) : Except ShapeError Unit :=
  if functions.isEmpty || operands != functions.length + 1 then
    .error (.comparisonCount operands)
  else
    match functions.find? fun f => !isComparison f with
    | some f => .error (.invalidName .comparison f)
    | none => .ok ()

/-- Whether the parts of the top node are what it needs. -/
def check : Expr → Except ShapeError Unit
  | .operation _ _ [] _ => .error .noOperands
  | .assignment target none _ => checkTarget target
  | .assignment target (some part) _ => do
    checkTarget target
    checkIndex .assignment part
  | .definition name params _ => checkNames name params
  | .index dimensions true => checkDotted dimensions
  | .access _ part => checkIndex .access part
  | .comparison functions operands => checkChain functions operands.length
  | _ => .ok ()

/-- A tree whose top node has the parts that it needs. -/
def checked (e : Expr) : Except ShapeError Expr :=
  e.check.map fun _ => e

end Expr

end Formula
