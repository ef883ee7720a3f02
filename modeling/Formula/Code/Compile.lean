import Formula.Code
import Formula.Expr.Revision
import Formula.Rendering.Plain
import Formula.Resolver

/-!
Code from expressions.

Every node is checked before its children are looked at, and each number literal is given to the
resolver once, in the order of evaluation. A literal that the resolver refuses is no reason not to
compile: its code fails when it is evaluated.
-/

namespace Formula.Code

/-- Compiling asks a resolver for the values of literals, and fails on trees that make no sense. -/
abbrev Compilation (σ : Type) := ExceptT ShapeError (StateM σ)

/-- Goes on if a check succeeds. -/
def require {σ : Type} (check : Except ShapeError Unit) : Compilation σ Unit :=
  ExceptT.mk (pure check)

/-- The code of a literal. -/
def ofConstant {σ : Type} (r : Resolver σ) (value : String) : ConstantKind → Compilation σ Code
  | .number => do
    let result ← ExceptT.lift (r.number value).run
    return .constant result
  | .string => return .constant (.ok (.string value))
  | .boolean => return .constant (.ok (.bool (value == "true")))
  | .null => return .constant (.ok .null)
  | .undefined => return .constant (.ok .undefined)

/-- The code of an operation: `and` and `or` of two operands are lazy. -/
def ofOperation (function : String) : List Code → Code
  | [left, right] =>
    match Operator.ofName? function with
    | some .and => .lazy function false left right
    | some .or => .lazy function true left right
    | _ => .operation function [left, right]
  | operands => .operation function operands

/-- Whether an expression mentions the size of what is indexed. -/
def mentionsEnd (e : Expr) : Bool :=
  e.nodes.any (Expr.isSymbol Expr.endName)

variable {σ : Type} (r : Resolver σ)

mutual

/-- The code of an expression. -/
def ofExpr (e : Expr) : Compilation σ Code := do
  require e.check
  match e with
  | .constant value kind => ofConstant r value kind
  | .symbol name => return .symbol name
  | .operation _ function operands _ => return ofOperation function (← ofExprs operands)
  | .call (.symbol name) args => return .call name (← ofExprs args)
  | .call callee args => do
    let args ← ofExprs args
    return .callValue callee.text (← ofExpr callee) args
  | .range start stop step => do
    let start ← ofExpr start
    let stop ← ofExpr stop
    return .range start stop (← ofStep step)
  | .conditional condition yes no => do
    let condition ← ofExpr condition
    let yes ← ofExpr yes
    return .conditional condition yes (← ofExpr no)
  | .assignment target none value => do
    let value ← ofExpr value
    let (root, selectors) ← ofTarget target
    return .assignment root selectors value
  | .assignment target (some part) value => do
    let value ← ofExpr value
    let (root, selectors) ← ofTarget target
    return .assignment root (selectors ++ [← ofPart part]) value
  | .definition name params body => return .definition name params (← ofExpr body)
  | .block entries => return .block (← ofEntries entries)
  | .array items => return .array (← ofExprs items)
  | .object properties => return .object (← ofProperties properties)
  | .parenthesis content => ofExpr content
  | .index dimensions dotted =>
    return .index
      { property := Expr.propertyName? (.index dimensions dotted), dotted
        dimensions := ← ofDimensions dimensions }
  | .access owner part => do
    let owner ← ofExpr owner
    return .access owner (← ofPart part)
  | .comparison functions operands => return .comparison functions (← ofExprs operands)

/-- The code of each of some expressions. -/
def ofExprs : List Expr → Compilation σ (List Code)
  | [] => return []
  | e :: es => do
    let code ← ofExpr e
    return code :: (← ofExprs es)

/-- The code of the step of a range. -/
def ofStep : Option Expr → Compilation σ (Option Code)
  | none => return none
  | some e => return some (← ofExpr e)

/-- The code of each statement of a block. -/
def ofEntries : List (Entry Expr) → Compilation σ (List (Entry Code))
  | [] => return []
  | ⟨e, visible⟩ :: entries => do
    let code ← ofExpr e
    return ⟨code, visible⟩ :: (← ofEntries entries)

/-- The code of each property of an object. -/
def ofProperties : List (String × Expr) → Compilation σ (List (String × Code))
  | [] => return []
  | (key, e) :: properties => do
    let code ← ofExpr e
    return (key, code) :: (← ofProperties properties)

/-- The code of each dimension of an index. -/
def ofDimensions : List Expr → Compilation σ (List (Dimension Code))
  | [] => return []
  | e :: es => do
    let code ← ofExpr e
    return { body := code, sized := mentionsEnd e } :: (← ofDimensions es)

/-- The selector of an index. -/
def ofPart (part : Expr) : Compilation σ (Selector Code) := do
  require part.check
  match part with
  | .index dimensions dotted =>
    return { property := Expr.propertyName? (.index dimensions dotted), dotted
             dimensions := ← ofDimensions dimensions }
  | other => throw (.notIndex .access other.form)

/-- The root and the selectors of what is assigned to. Accesses on the way are not checked, but their
indexes are. -/
def ofTarget : Expr → Compilation σ (Root Code × List (Selector Code))
  | .symbol name => return (.name name, [])
  | .access owner part => do
    let (root, selectors) ← match owner with
      | .symbol _ | .access .. => ofTarget owner
      | _ => do
        let body ← ofExpr owner
        pure (.temporary body, [])
    return (root, selectors ++ [← ofPart part])
  | other => throw (.target other.form)

end

end Formula.Code

namespace Formula.Expr

/-- The code of an expression. -/
abbrev compile {σ : Type} (r : Resolver σ) (e : Expr) : Code.Compilation σ Code :=
  Code.ofExpr r e

end Formula.Expr
