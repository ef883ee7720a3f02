import Formula.Value

/-!
Why an evaluation fails.
-/

namespace Formula

/-- Why a resolver has no result. -/
inductive DispatchError where
  | unknownOperation (name : String)
  | noMatchingSignature (name : String) (args : List ValueKind)
  | failed (name reason : String)
deriving DecidableEq, Repr

/-- The text of an error. -/
def DispatchError.message : DispatchError → String
  | .unknownOperation name => "undefined function " ++ name
  | .noMatchingSignature name args =>
    "no matching signature for " ++ name ++ "(" ++ ", ".intercalate (args.map ValueKind.name) ++ ")"
  | .failed name reason => name ++ ": " ++ reason

/-- Why an expression has no value. -/
inductive EvalError where
  | undefinedSymbol (name : String)
  | notAFunction (name : String) (kind : ValueKind)
  | wrongArgumentCount (name : String) (expected got : Nat)
  | unsupportedCondition (kind : ValueKind)
  | notAnObject (property : String) (kind : ValueKind)
  | dispatch (error : DispatchError)
  /-- Functions called each other deeper than the evaluation was allowed to follow. -/
  | tooDeep
deriving DecidableEq, Repr

/-- The text of an error. -/
def EvalError.message : EvalError → String
  | .undefinedSymbol name => "undefined symbol " ++ name
  | .notAFunction name kind => name ++ " is not a function but " ++ kind.name
  | .wrongArgumentCount name expected got =>
    "too " ++ (if expected < got then "many" else "few") ++ " arguments in function " ++ name
      ++ " (expected: " ++ toString expected ++ ", actual: " ++ toString got ++ ")"
  | .unsupportedCondition kind => "unsupported type of condition: " ++ kind.name
  | .notAnObject property kind =>
    "cannot read or write property '" ++ property ++ "' of " ++ kind.name
  | .dispatch error => error.message
  | .tooDeep => "calls nest too deep"

/-- Whether a value holds as a condition. -/
def Value.truthy (v : Value) : Except EvalError Bool :=
  match v.truth? with
  | some b => .ok b
  | none => .error (.unsupportedCondition v.kind)

end Formula
