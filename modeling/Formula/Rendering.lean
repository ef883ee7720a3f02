import Formula.Expr.Children

/-!
Where parentheses go when an expression is written.

An operand is parenthesized if, without parentheses, a neighbouring operator would take it apart:
strengths of operators decide, then on which side it stands, then whether regrouping is harmless.
-/

namespace Formula

/-- When parentheses are written. -/
inductive Parentheses where
  /-- Those of the tree, and those that the operators need. -/
  | keep
  /-- Only those that the operators need. -/
  | auto
  /-- Around every operand that is no plain value. -/
  | all
deriving DecidableEq, Repr

namespace Parentheses

/-- The name of a way of writing parentheses. -/
def name : Parentheses → String
  | .keep => "keep"
  | .auto => "auto"
  | .all => "all"

/-- The way of writing parentheses of a name. -/
def ofName? : String → Option Parentheses
  | "keep" => some .keep
  | "auto" => some .auto
  | "all" => some .all
  | _ => none

@[simp] theorem ofName?_name (p : Parentheses) : ofName? p.name = some p := by
  cases p <;> rfl

end Parentheses

/-- How products by juxtaposition are written. -/
inductive Juxtaposition where
  /-- As they are. -/
  | hide
  /-- With their operator. -/
  | spell
deriving DecidableEq, Repr

namespace Juxtaposition

/-- The name of a way of writing juxtaposition. -/
def name : Juxtaposition → String
  | .hide => "hide"
  | .spell => "show"

/-- The way of writing juxtaposition of a name. -/
def ofName? : String → Option Juxtaposition
  | "hide" => some .hide
  | "show" => some .spell
  | _ => none

@[simp] theorem ofName?_name (j : Juxtaposition) : ofName? j.name = some j := by
  cases j <;> rfl

end Juxtaposition

/-- How expressions are written. -/
structure Style where
  parentheses : Parentheses := .keep
  juxtaposition : Juxtaposition := .hide
  /-- Writes an expression in its own way, from the texts of its children. -/
  custom : Expr → Option (List String → String) := fun _ => none

namespace Rendering

/-- The expression that counts as an operand: parentheses of the tree count only if they are kept. -/
def visible (p : Parentheses) (e : Expr) : Expr :=
  match p with
  | .keep => e
  | .auto | .all => e.content

/-- How tightly an expression binds as an operand; none if it never needs parentheses. -/
def strength? (p : Parentheses) (e : Expr) : Option Nat :=
  match visible p e with
  | .assignment .. | .definition .. => some Precedence.assignment
  | .conditional .. => some Precedence.conditional
  | .range .. => some Precedence.range
  | .comparison .. => some Precedence.relational
  | e => e.operator?.map Operator.precedence

/-- How an expression groups with operators of its own strength. -/
def grouping? (p : Parentheses) (e : Expr) : Option Associativity :=
  match visible p e with
  | .comparison .. => some .left
  | e => e.operator?.map Operator.associativity

/-- Whether an operand may be regrouped with the operation that it stands in. -/
def regroups (p : Parentheses) (root e : Expr) : Bool :=
  match (visible p root).operator?, (visible p e).operator? with
  | some op, some inner => op.associativeWith.contains inner
  | _, _ => false

/-- Whether an operand binds looser than the operation that it stands in, or as tightly while
grouping the `other` way and not being free to regroup. -/
def isLooser (p : Parentheses) (root e : Expr) (other : Bool) : Bool :=
  match strength? p e, strength? p root with
  | some inner, some outer => inner < outer || (inner == outer && other && !regroups p root e)
  | _, _ => false

/-- Whether an operand is a value that no operator can take apart. -/
def isPlain (e : Expr) : Bool :=
  match e.content with
  | .array _ | .constant .. | .symbol _ => true
  | _ => false

/-- Whether an operation can have any number of operands. -/
def isVariadic (root : Expr) : Bool :=
  root.operator? = some .add ∨ root.operator? = some .multiply

/-- Whether typesetting sets an operand apart on a side, so that it needs no parentheses. -/
def isSetApart (p : Parentheses) (root e : Expr) (side : Side) : Bool :=
  (strength? p e).isSome
    && (root.operator?.any (·.latexOmitsParens side)
      || (visible p e).operator? = some .divide)

/-- Whether a product by juxtaposition is written as one. -/
def juxtaposes (style : Style) (root : Expr) (juxtaposed : Bool) : Bool :=
  juxtaposed && style.juxtaposition = .hide && root.operator? = some .multiply

/-- Which operands of an operation need parentheses for the sake of its operator. -/
def looseOperands (p : Parentheses) (typeset : Bool) (root : Expr) : List Expr → List Bool
  | [e] =>
    let wrap := match strength? p e, strength? p root with
      | some inner, some outer => decide (inner ≤ outer)
      | _, _ => false
    [wrap && !(typeset && isSetApart p root e .left)]
  | [left, right] =>
    [isLooser p root left (grouping? p root = some .right)
        && !(typeset && isSetApart p root left .left),
      isLooser p root right (grouping? p root = some .left)
        && !(typeset && isSetApart p root right .right)]
  | es => es.map fun e => isLooser p root e (grouping? p root = grouping? p e)

/-- Which operands of an operation are written in parentheses. Without the parentheses of the tree,
factors of a product by juxtaposition keep theirs, since they would run together. -/
def wrappedOperands (style : Style) (typeset : Bool) (root : Expr) (operands : List Expr)
    (juxtaposed : Bool) : List Bool :=
  let p := style.parentheses
  if p = .all ∨ (2 < operands.length ∧ !isVariadic root) then
    operands.map fun e => !isPlain e
  else
    let loose := looseOperands p typeset root operands
    if 2 ≤ operands.length ∧ juxtaposes style root juxtaposed ∧ p = .auto then
      List.zipWith (fun wrap e => wrap || e.form = .parenthesis) loose operands
    else loose

/-- Whether a part is written in parentheses where nothing may stand that binds as loosely as
`limit`. -/
def wrapsAt (p : Parentheses) (limit : Nat) (e : Expr) : Bool :=
  p = .all ∨ (strength? p e).any (· ≤ limit)

/-- Whether an expression needs parentheses to be followed by an index. -/
def wrapsAccessed (e : Expr) : Bool :=
  match e.form with
  | .access | .array | .constant | .call | .object | .parenthesis | .symbol => false
  | _ => true

end Rendering

end Formula
