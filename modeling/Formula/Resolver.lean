import Formula.Decimal.Reading
import Formula.EvalError

/-!
Resolvers: whom an evaluation asks for everything that it does not decide itself.

An evaluation only moves values about. What operators, calls of unbound names, literals, ranges and
arrays mean is a resolver's answer. A resolver has a state of its own and may answer the same
question differently each time.
-/

namespace Formula

/-- Answers of a resolver with states `σ`; one that fails keeps what it did to the state. -/
abbrev Answer (σ : Type) := ExceptT DispatchError (StateM σ)

/-- The number that a decimal literal says. -/
def decimalLiteral (literal : String) : Except DispatchError Value :=
  match Decimal.readFloat? literal with
  | some x => .ok (.number x)
  | none => .error (.failed "number" ("invalid number literal " ++ literal))

/-- A resolver with states `σ`. -/
structure Resolver (σ : Type) where
  /-- The result of an operation. -/
  call : String → List Value → Answer σ Value
  /-- The value of a number literal. -/
  number : String → Answer σ Value := fun literal => ExceptT.mk (pure (decimalLiteral literal))
  /-- The value of a name that is not bound. -/
  lookup : String → StateM σ (Option Value) := fun _ => pure none
  /-- The value of an array with the given items. -/
  array : List Value → Answer σ Value := fun items => pure (.array items)
  /-- The value of a range from its start, its end and its step. -/
  range : Value → Value → Value → Answer σ Value := fun start stop step =>
    call "range" [start, stop, step]

namespace Resolver

/-- The resolver that answers calls alone, and always alike. -/
def ofCall (call : String → List Value → Except DispatchError Value) : Resolver Unit where
  call name args := ExceptT.mk (pure (call name args))

/-- What a resolver can be asked; a range that it takes to be a call is a call. -/
inductive Question where
  | call (name : String) (args : List Value)
  | number (literal : String)
  | lookup (name : String)
  | array (items : List Value)

/-- The text of a question. -/
def Question.text : Question → String
  | .call name args => "call " ++ name ++ "(" ++ Value.textOfAll args ++ ")"
  | .number literal => "number " ++ literal
  | .lookup name => "lookup " ++ name
  | .array items => "array [" ++ Value.textOfAll items ++ "]"

/-- Adds a question to the list of those asked, and then asks it. -/
def noting {σ α : Type} (question : Question) (answer : StateM σ α) :
    StateM (σ × List Question) α :=
  fun (s, asked) =>
    let (a, s) := answer s
    (a, s, asked ++ [question])

/-- The resolver that answers as another one does, takes ranges to be calls, and keeps a list of the
questions it was asked. -/
def recording {σ : Type} (r : Resolver σ) : Resolver (σ × List Question) where
  call name args := noting (.call name args) (r.call name args)
  number literal := noting (.number literal) (r.number literal)
  lookup name := noting (.lookup name) (r.lookup name)
  array items := noting (.array items) (r.array items)

end Resolver

end Formula
