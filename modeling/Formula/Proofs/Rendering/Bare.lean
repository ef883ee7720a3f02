import Formula.Expr.Children

/-!
What an expression is apart from its parentheses.

`Expr.bare` leaves out parentheses, and blocks of one visible statement, which is what such a block
stands for. `Expr.Regrouped` also takes operations for the same that differ in how they are grouped or
written only.
-/

namespace Formula.Expr

theorem form_content_ne : ∀ e : Expr, e.content.form ≠ .parenthesis
  | .parenthesis e => form_content_ne e
  | .constant .. | .symbol _ | .operation .. | .call .. | .range .. | .conditional ..
  | .assignment .. | .definition .. | .block _ | .array _ | .object _ | .index .. | .access ..
  | .comparison .. => nofun

/-- A block of statements; a single visible one stands for itself. -/
def ofStatements : List (Entry Expr) → Expr
  | [⟨e, true⟩] => e
  | entries => .block entries

theorem ofStatements_of_ne {entries : List (Entry Expr)}
    (h : ∀ e, entries ≠ [{ body := e, visible := true }]) : ofStatements entries = .block entries := by
  unfold ofStatements
  split
  · exact absurd rfl (h _)
  · rfl

mutual

/-- An expression without parentheses, and without blocks of one visible statement. -/
def bare : Expr → Expr
  | .constant value kind => .constant value kind
  | .symbol name => .symbol name
  | .operation spelling function operands juxtaposed =>
    .operation spelling function (bareAll operands) juxtaposed
  | .call callee args => .call callee.bare (bareAll args)
  | .range start stop step => .range start.bare stop.bare (bareOption step)
  | .conditional condition yes no => .conditional condition.bare yes.bare no.bare
  | .assignment target part value => .assignment target.bare (bareOption part) value.bare
  | .definition name params body => .definition name params body.bare
  | .block entries => ofStatements (bareEntries entries)
  | .array items => .array (bareAll items)
  | .object properties => .object (bareProperties properties)
  | .parenthesis e => e.bare
  | .index dimensions dotted => .index (bareAll dimensions) dotted
  | .access owner part => .access owner.bare part.bare
  | .comparison functions operands => .comparison functions (bareAll operands)

/-- Expressions without parentheses. -/
def bareAll : List Expr → List Expr
  | [] => []
  | e :: es => e.bare :: bareAll es

/-- An expression without parentheses, if there is one. -/
def bareOption : Option Expr → Option Expr
  | none => none
  | some e => some e.bare

/-- Statements without parentheses. -/
def bareEntries : List (Entry Expr) → List (Entry Expr)
  | [] => []
  | ⟨e, visible⟩ :: entries => ⟨e.bare, visible⟩ :: bareEntries entries

/-- Properties without parentheses. -/
def bareProperties : List (String × Expr) → List (String × Expr)
  | [] => []
  | (key, e) :: properties => (key, e.bare) :: bareProperties properties

end

/-- Two expressions differ in how products and sums are grouped, and in which products are written by
juxtaposition: an operation in the right operand of an operator that takes it without parentheses may
as well have the operands in front of it for its left operand. -/
inductive Regrouped : Expr → Expr → Prop
  | refl (e : Expr) : Regrouped e e
  | symm {e e' : Expr} (h : Regrouped e e') : Regrouped e' e
  | trans {e e' e'' : Expr} (h : Regrouped e e') (h' : Regrouped e' e'') : Regrouped e e''
  | juxtaposed (spelling function : String) (operands : List Expr) (j j' : Bool) :
      Regrouped (.operation spelling function operands j) (.operation spelling function operands j')
  | regroup {op inner : Operator} (h : inner ∈ op.associativeWith) (spelling spelling' : String)
      (x y z : Expr) (j j' : Bool) :
      Regrouped (.operation spelling op.name [x, .operation spelling' inner.name [y, z] j'] j)
        (.operation spelling' inner.name [.operation spelling op.name [x, y] j, z] j')
  | child {e e' : Expr} (parent : Expr) (front back : List Expr) (h : Regrouped e e') :
      Regrouped (parent.withChildren (front ++ e :: back)) (parent.withChildren (front ++ e' :: back))

theorem form_withChildren (e : Expr) (es : List Expr) : (e.withChildren es).form = e.form := by
  unfold withChildren
  split <;> rfl

/-- Regrouping never makes another form of an expression. -/
theorem Regrouped.form_eq {e e' : Expr} (h : Regrouped e e') : e.form = e'.form := by
  induction h with
  | refl => rfl
  | symm _ ih => exact ih.symm
  | trans _ _ ih ih' => exact ih.trans ih'
  | juxtaposed => rfl
  | regroup => rfl
  | child => rw [form_withChildren, form_withChildren]

end Formula.Expr
