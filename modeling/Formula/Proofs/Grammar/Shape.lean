import Formula.Grammar

/-!
What the grammar sees of an expression from outside: how tightly it holds together (`Expr.level`), how
it opens (`Expr.opening`), and how it ends.

Nearly all of this depends on the expression alone. A quotient of two numbers is the exception: with a
factor behind it, it is read as one number, as in `1/2x`.
-/

namespace Formula

/-- How a token or an expression opens, as far as that matters to what stands in front of it. -/
inductive Opening where
  | name
  | parenthesis
  | number
  | other
deriving DecidableEq, Repr

/-- Openings of factors, whatever stands in front of them. -/
def Opening.isFactor : Opening → Bool
  | .name | .parenthesis => true
  | .number | .other => false

/-- How a token opens an expression. -/
def Token.opening (t : Token) : Opening :=
  match t.kind with
  | .identifier => .name
  | .number => .number
  | .delimiter => if t.text = "(" then .parenthesis else .other
  | _ => .other

theorem Grammar.startsFactor_eq (t : Token) : startsFactor t = t.opening.isFactor := by
  obtain ⟨kind, text, position⟩ := t
  by_cases h : text = "(" <;> cases kind <;>
    simp [startsFactor, Token.isDelimiter, Token.opening, Opening.isFactor, h]

theorem Token.isDelimiter_of_opening {t : Token} (h : t.opening = .parenthesis) :
    t.isDelimiter "(" = true := by
  unfold opening at h
  split at h
  · cases h
  · cases h
  · split at h
    · simp [Token.isDelimiter, *]
    · cases h
  · cases h

namespace Operator

/-- The level of the grammar that reads an operator. -/
def level : Operator → Nat
  | .unaryMinus | .unaryPlus | .bitNot | .not => 15
  | .pow | .dotPow => 16
  | .factorial | .transpose => 17
  | op => op.precedence

theorem level_of_leading {spelling : String} {op : Operator} (h : leading? spelling = some op) :
    op.level = 15 := by
  unfold leading? at h
  split at h <;> cases h <;> rfl

theorem level_of_trailing {spelling : String} {op : Operator} (h : trailing? spelling = some op) :
    op.level = 17 := by
  unfold trailing? at h
  split at h <;> cases h <;> rfl

theorem leading?_of_trailing {spelling : String} {op : Operator} (h : trailing? spelling = some op) :
    leading? spelling = none := by
  unfold trailing? at h
  split at h <;> cases h <;> rfl

theorem binary?_mem {spelling : String} {op : Operator} (h : binary? spelling = some op) :
    op.isUnary = false ∧ (spelling = "%" ∧ op = .mod ∨ op.symbol = spelling) := by
  unfold binary? at h
  split at h
  · rename_i hspelling
    obtain rfl := Option.some.inj h
    exact ⟨rfl, .inl ⟨by simpa using hspelling, rfl⟩⟩
  · have := List.find?_some h
    simp only [Bool.and_eq_true, Bool.not_eq_true', beq_iff_eq] at this
    exact ⟨this.1, .inr this.2⟩

/-- Binary operators are told apart by their levels: powers, and the weaker ones. -/
theorem level_of_binary {spelling : String} {op : Operator} (h : binary? spelling = some op) :
    (spelling = "^" ∨ spelling = ".^") ∧ op.level = 16 ∨
      spelling ≠ "^" ∧ spelling ≠ ".^" ∧ 3 ≤ op.level ∧ op.level ≤ 12 := by
  obtain ⟨hunary, ⟨rfl, rfl⟩ | rfl⟩ := binary?_mem h
  · decide
  · cases op <;> first | decide | exact absurd hunary (by decide)

theorem trailing?_of_binary {spelling : String} {op : Operator} (h : binary? spelling = some op) :
    trailing? spelling = none := by
  obtain ⟨hunary, ⟨rfl, rfl⟩ | rfl⟩ := binary?_mem h
  · decide
  · cases op <;> first | decide | exact absurd hunary (by decide)

theorem binary?_divide {op : Operator} (h : binary? "/" = some op) : op = .divide := by
  have : binary? "/" = some .divide := by decide
  exact Option.some.inj (h.symm.trans this)

theorem eq_of_binary?_divide {spelling : String} (h : binary? spelling = some .divide) :
    spelling = "/" := by
  obtain ⟨_, ⟨_, h⟩ | h⟩ := binary?_mem h
  · cases h
  · exact h.symm

theorem isRelational_iff (op : Operator) : op.isRelational = true ↔ op.level = 9 := by
  cases op <;> decide

end Operator

namespace Expr

/-- Numbers that are written with digits. -/
def isLiteral : Expr → Bool
  | .constant value .number => value != "NaN" && value != "Infinity"
  | _ => false

/-- Whether two operands make a quotient that is read as one number, if a factor follows it. -/
def isFraction (left right : Expr) : Bool :=
  Grammar.isNumeral left && right.isLiteral

/-- The level of the grammar that reads an expression, where a factor follows it or not: the higher,
the tighter it holds together. -/
def level (follow : Bool) : Expr → Nat
  | .assignment .. | .definition .. => 0
  | .conditional .. => 1
  | .range .. => 2
  | .comparison .. => 9
  | .operation _ function operands juxtaposed =>
    if juxtaposed then 13
    else
      match Operator.ofName? function, operands with
      | some .divide, [left, right] => if follow && isFraction left right then 14 else 12
      | some op, _ => op.level
      | none, _ => 17
  | _ => 17

/-- How an expression opens. -/
def opening : Expr → Opening
  | .constant value .number =>
    if value = "NaN" ∨ value = "Infinity" then .name else .number
  | .constant _ .string => .other
  | .constant .. => .name
  | .symbol name | .definition name _ _ =>
    if Token.namedOperators.contains name then .other else .name
  | .operation spelling _ [e] _ =>
    if (Operator.leading? spelling).isSome then .other else e.opening
  | .operation _ _ (e :: _) _ => e.opening
  | .call callee _ => callee.opening
  | .range start _ _ => start.opening
  | .conditional condition _ _ => condition.opening
  | .assignment target _ _ => target.opening
  | .parenthesis _ => .parenthesis
  | .access owner _ => owner.opening
  | .comparison _ (e :: _) => e.opening
  | _ => .other

/-- Whether an expression opens with the start of a range. -/
def opensRange : Expr → Bool
  | .operation spelling _ [e] _ => (Operator.leading? spelling).isNone && e.opensRange
  | .operation _ _ (e :: _) _ => e.opensRange
  | .call callee _ => callee.opensRange
  | .range .. => true
  | .conditional condition _ _ => condition.opensRange
  | .assignment target _ _ => target.opensRange
  | .access owner _ => owner.opensRange
  | .comparison _ (e :: _) => e.opensRange
  | _ => false

/-- Whether parentheses behind an expression are those of a call. -/
def endsCallable : Expr → Bool
  | .symbol _ | .access .. => true
  | .operation spelling _ [e] _ => (Operator.leading? spelling).isSome && e.endsCallable
  | .operation _ _ [_, e] _ => e.endsCallable
  | _ => false

/-- The factor at the end of an expression. -/
def lastFactor : Expr → Expr
  | .operation spelling function [left, right] juxtaposed =>
    if juxtaposed || (Operator.ofName? function).any (·.level ≤ 12) then right.lastFactor
    else .operation spelling function [left, right] juxtaposed
  | .range _ stop _ => stop.lastFactor
  | .conditional _ _ no => no.lastFactor
  | .assignment _ _ value => value.lastFactor
  | .definition _ _ body => body.lastFactor
  | .comparison functions operands => lastOf (.comparison functions operands) operands
  | e => e
where
  lastOf (default : Expr) : List Expr → Expr
    | [] => default
    | [e] => e.lastFactor
    | _ :: es => lastOf default es

/-- Whether an expression opens with a number and goes on with a factor. -/
def opensProduct (follow : Bool) : Expr → Bool
  | .operation _ _ [left, right] true => left.opensProduct right.opening.isFactor
  | e => e.isLiteral && follow

/-- Whether a `:` behind an expression would go on with it. -/
def exposesColon : Expr → Bool
  | .range .. | .conditional .. => true
  | .assignment _ _ value => value.exposesColon
  | .definition _ _ body => body.exposesColon
  | _ => false

end Expr

end Formula
