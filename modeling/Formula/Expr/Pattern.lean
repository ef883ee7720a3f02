import Formula.Expr.Revision
import Formula.Rendering.Plain

/-!
Patterns for nodes, and rules that replace the nodes that match.
-/

namespace Formula

/-- Conditions on a visit; one that is absent is met. -/
structure Pattern where
  /-- The name of the node's form. -/
  form : Option String := none
  identifier : Option String := none
  path : Option String := none
  /-- The name of the form of the node's parent, empty for the root. -/
  parent : Option String := none
  /-- The source text of the node. -/
  text : Option String := none

/-- Whether a visit meets all conditions. -/
def Pattern.matches (p : Pattern) (v : Visit) : Bool :=
  p.form.all (v.node.form.name == ·)
    && p.identifier.all (v.node.identifier == ·)
    && p.path.all (v.path == ·)
    && p.parent.all ((v.parent.map (·.form.name)).getD "" == ·)
    && p.text.all (v.node.text == ·)

/-- A pattern and what replaces the nodes that match it. -/
structure Rule where
  pattern : Pattern
  replacement : Expr

/-- The replacement by the first rule that matches. -/
def Rule.replace (rules : List Rule) (v : Visit) : Option Expr :=
  (rules.find? fun rule => rule.pattern.matches v).map (·.replacement)

/-- The replacement by the first rule that matches, noting the path of the visit. -/
def Rule.replaceNoting (rules : List Rule) (v : Visit) : StateM (List String) (Option Expr) := do
  modify (· ++ [v.path])
  return replace rules v

end Formula
