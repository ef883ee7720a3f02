import Formula.Operator
import Formula.Record

/-!
Expression trees.

A tree may hold anything its type allows; `Formula.Expr.WellFormed` says which trees the grammar and
the JSON form produce. `Expr.form` names the kind of a tree's top node, and the other functions here
read off what the top node says about itself.
-/

namespace Formula

/-- How the text of a constant is read. -/
inductive ConstantKind where
  /-- A literal, whose value the resolver decides. -/
  | number
  /-- The characters themselves. -/
  | string
  | boolean
  | null
  | undefined
deriving DecidableEq, Repr

namespace ConstantKind

/-- Every kind of constant. -/
def all : List ConstantKind :=
  [.number, .string, .boolean, .null, .undefined]

/-- The name of a kind of constant. -/
def name : ConstantKind → String
  | .number => "number"
  | .string => "string"
  | .boolean => "boolean"
  | .null => "null"
  | .undefined => "undefined"

/-- The kind of constant of a name. -/
def ofName? (s : String) : Option ConstantKind :=
  all.find? fun kind => kind.name == s

@[simp] theorem ofName?_name (kind : ConstantKind) : ofName? kind.name = some kind := by
  cases kind <;> decide

end ConstantKind

/-- The forms that the top node of a tree can have. -/
inductive Form where
  | access | array | assignment | block | conditional | constant | definition | call | index
  | object | operation | parenthesis | range | comparison | symbol
deriving DecidableEq, Repr

namespace Form

/-- Every form. -/
def all : List Form :=
  [.access, .array, .assignment, .block, .conditional, .constant, .definition, .call, .index,
    .object, .operation, .parenthesis, .range, .comparison, .symbol]

/-- The name of a form. -/
def name : Form → String
  | .access => "AccessorNode"
  | .array => "ArrayNode"
  | .assignment => "AssignmentNode"
  | .block => "BlockNode"
  | .conditional => "ConditionalNode"
  | .constant => "ConstantNode"
  | .definition => "FunctionAssignmentNode"
  | .call => "FunctionNode"
  | .index => "IndexNode"
  | .object => "ObjectNode"
  | .operation => "OperatorNode"
  | .parenthesis => "ParenthesisNode"
  | .range => "RangeNode"
  | .comparison => "RelationalNode"
  | .symbol => "SymbolNode"

/-- The form of a name. -/
def ofName? (s : String) : Option Form :=
  all.find? fun form => form.name == s

@[simp] theorem ofName?_name (form : Form) : ofName? form.name = some form := by
  cases form <;> decide

end Form

/-- A statement of a block, and whether its value can be the value of the block. -/
structure Entry (α : Type) where
  body : α
  visible : Bool
deriving DecidableEq, Repr

/-- An expression. -/
inductive Expr where
  /-- A literal. -/
  | constant (value : String) (kind : ConstantKind)
  /-- A name. -/
  | symbol (name : String)
  /-- An operator and its operands: its spelling, the name of the function it applies, and whether
  it is a product written by juxtaposition. -/
  | operation (spelling function : String) (operands : List Expr) (juxtaposed : Bool)
  /-- `callee(args)` -/
  | call (callee : Expr) (args : List Expr)
  /-- `start:stop` or `start:step:stop` -/
  | range (start stop : Expr) (step : Option Expr)
  /-- `condition ? yes : no` -/
  | conditional (condition yes no : Expr)
  /-- `target = value`, or, with an index, an assignment to a part of the target. -/
  | assignment (target : Expr) (index : Option Expr) (value : Expr)
  /-- `name(params) = body` -/
  | definition (name : String) (params : List String) (body : Expr)
  /-- Statements, one after another. -/
  | block (entries : List (Entry Expr))
  /-- `[items]` -/
  | array (items : List Expr)
  /-- Named values, in braces. -/
  | object (properties : List (String × Expr))
  /-- `(content)` -/
  | parenthesis (content : Expr)
  /-- `[dimensions]`, or `.name` when dotted. -/
  | index (dimensions : List Expr) (dotted : Bool)
  /-- An object followed by an index. -/
  | access (object index : Expr)
  /-- A chain of comparisons: the names of the functions between the operands. -/
  | comparison (functions : List String) (operands : List Expr)
deriving Inhabited

/-- The body of a statement is smaller than the list of statements. -/
@[grind →] theorem sizeOf_body_lt_of_mem {entry : Entry Expr} {entries : List (Entry Expr)}
    (h : entry ∈ entries) : sizeOf entry.body < sizeOf entries := by
  have := List.sizeOf_lt_of_mem h
  obtain ⟨e, v⟩ := entry
  simp only [Entry.mk.sizeOf_spec] at this ⊢
  omega

namespace Expr

/-- The number literal of a text. -/
def number (literal : String) : Expr :=
  .constant literal .number

/-- The constant of a text. -/
def string (value : String) : Expr :=
  .constant value .string

/-- The constant of a truth value. -/
def boolean (value : Bool) : Expr :=
  .constant (if value then "true" else "false") .boolean

/-- The null constant. -/
def null : Expr :=
  .constant "null" .null

/-- The undefined constant. -/
def undefined : Expr :=
  .constant "undefined" .undefined

/-- An operator in its default spelling, with its operands. -/
def apply (op : Operator) (operands : List Expr) : Expr :=
  .operation op.symbol op.name operands false

/-- A product written by juxtaposition. -/
def juxtapose (left right : Expr) : Expr :=
  .operation "*" Operator.multiply.name [left, right] true

/-- The index `.name`. -/
def property (name : String) : Expr :=
  .index [string name] true

/-- The form of the top node. -/
def form : Expr → Form
  | .constant .. => .constant
  | .symbol _ => .symbol
  | .operation .. => .operation
  | .call .. => .call
  | .range .. => .range
  | .conditional .. => .conditional
  | .assignment .. => .assignment
  | .definition .. => .definition
  | .block _ => .block
  | .array _ => .array
  | .object _ => .object
  | .parenthesis _ => .parenthesis
  | .index .. => .index
  | .access .. => .access
  | .comparison .. => .comparison

/-- The expression inside all enclosing parentheses. -/
def content : Expr → Expr
  | .parenthesis e => e.content
  | e => e

/-- The form, with the function's name if it is an operation. -/
def identifier : Expr → String
  | .operation _ function _ _ => Form.operation.name ++ ":" ++ function
  | e => e.form.name

/-- The operator of an operation whose function is known. -/
def operator? : Expr → Option Operator
  | .operation _ function _ _ => Operator.ofName? function
  | _ => none

/-- The name of the function that is called by name. -/
def calledName? : Expr → Option String
  | .call (.symbol name) _ => some name
  | _ => none

/-- The property that an index of one string selects. -/
def propertyName? : Expr → Option String
  | .index [.constant value .string] _ => some value
  | _ => none

/-- Whether an expression is the symbol of a name. -/
def isSymbol (name : String) : Expr → Bool
  | .symbol n => n == name
  | _ => false

end Expr

end Formula
