import Formula.Expr
import Formula.EvalError

/-!
Code: expressions made ready for evaluation.

Literals have their values, or the reasons why they have none, targets of assignments are taken apart
into a root and what is selected of it, and the operands that need not be evaluated are told apart from
those that always are.
-/

namespace Formula

/-- A dimension of an index, and whether it mentions the size of what is indexed. -/
structure Dimension (α : Type) where
  body : α
  sized : Bool

/-- An index: the property that it selects if it is one string, whether it is written with a dot,
and its dimensions. -/
structure Selector (α : Type) where
  property : Option String
  dotted : Bool
  dimensions : List (Dimension α)

/-- Where the selectors of an assignment start. -/
inductive Root (α : Type) where
  | name (name : String)
  /-- A value that nobody keeps, so that writing to it has no effect. -/
  | temporary (body : α)

/-- Code. -/
inductive Code where
  /-- A literal. -/
  | constant (result : Except DispatchError Value)
  | symbol (name : String)
  /-- An operation whose operands are all evaluated. -/
  | operation (function : String) (operands : List Code)
  /-- An operation on two conditions that is over once the first one is `decisive`. -/
  | lazy (function : String) (decisive : Bool) (left right : Code)
  | comparison (functions : List String) (operands : List Code)
  | conditional (condition yes no : Code)
  | block (entries : List (Entry Code))
  | range (start stop : Code) (step : Option Code)
  /-- An assignment to what the selectors select, the last one first. -/
  | assignment (root : Root Code) (selectors : List (Selector Code)) (value : Code)
  | definition (name : String) (params : List String) (body : Code)
  /-- A call of a function that is bound to a name, or else of an operation of that name. -/
  | call (name : String) (args : List Code)
  /-- A call of a function that is the value of an expression with the given text. -/
  | callValue (text : String) (callee : Code) (args : List Code)
  | array (items : List Code)
  | object (properties : List (String × Code))
  /-- An index of nothing. -/
  | index (selector : Selector Code)
  | access (object : Code) (selector : Selector Code)
deriving Inhabited

end Formula
