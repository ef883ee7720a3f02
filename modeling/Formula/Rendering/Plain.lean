import Formula.Rendering

/-!
Expressions as source text.

The text of a tree is an expression again, written with the parentheses that `Formula.Rendering` asks
for and with one space around binary operators.
-/

namespace Formula.Expr

open Rendering

/-- A text, in parentheses if it needs them. -/
def enclose (wrap : Bool) (s : String) : String :=
  if wrap then "(" ++ s ++ ")" else s

/-- The spelling of a comparison in a chain. -/
def comparisonSymbol (function : String) : String :=
  match Operator.ofName? function with
  | some op => op.symbol
  | none => function

/-- An operation, from the texts of its operands, as they are and in their parentheses. -/
def renderOperation (style : Style) (root : Expr) (spelling function : String)
    (juxtaposed : Bool) (bare wrapped : List String) : String :=
  let hidden := juxtaposes style root juxtaposed
  match wrapped with
  | [e] =>
    let space := if spelling.toList.any Text.isAlphabetic then " " else ""
    match grouping? style.parentheses root with
    | some .right => spelling ++ space ++ e
    | some .left => e ++ space ++ spelling
    | none => e ++ spelling
  | [left, right] => if hidden then left ++ " " ++ right else left ++ " " ++ spelling ++ " " ++ right
  | _ =>
    if wrapped ≠ [] ∧ hidden then " ".intercalate wrapped
    else if wrapped ≠ [] ∧ isVariadic root then (" " ++ spelling ++ " ").intercalate wrapped
    else function ++ "(" ++ ", ".intercalate bare ++ ")"

/-- The source text of a tree. -/
def render (style : Style) (e : Expr) : String :=
  match style.custom e with
  | some write => write (e.children.attach.map fun ⟨p, _⟩ => p.2.render style)
  | none =>
    match e with
    | .constant value kind => if kind = .string then Text.quote value else value
    | .symbol name => name
    | .operation spelling function operands juxtaposed =>
      let root := .operation spelling function operands juxtaposed
      let bare := operands.map fun e => e.render style
      let wraps := wrappedOperands style false root operands juxtaposed
      renderOperation style root spelling function juxtaposed bare (List.zipWith enclose wraps bare)
    | .call callee args =>
      let wrap := match callee.form with
        | .symbol | .access | .call | .parenthesis => false
        | _ => true
      enclose wrap (callee.render style) ++ "("
        ++ ", ".intercalate (args.map fun e => e.render style) ++ ")"
    | .range start stop none =>
      part style Precedence.range start (start.render style) ++ ":"
        ++ part style Precedence.range stop (stop.render style)
    | .range start stop (some step) =>
      part style Precedence.range start (start.render style) ++ ":"
        ++ part style Precedence.range step (step.render style) ++ ":"
        ++ part style Precedence.range stop (stop.render style)
    | .conditional condition yes no =>
      let wrap := condition.form = .operation
        ∨ wrapsAt style.parentheses Precedence.conditional condition
      enclose wrap (condition.render style) ++ " ? "
        ++ part style Precedence.conditional yes (yes.render style) ++ " : "
        ++ part style Precedence.conditional no (no.render style)
    | .assignment target none value =>
      target.render style ++ " = " ++ part style Precedence.assignment value (value.render style)
    | .assignment target (some selector) value =>
      target.render style ++ selector.render style ++ " = "
        ++ part style Precedence.assignment value (value.render style)
    | .definition name params body =>
      name ++ "(" ++ ", ".intercalate params ++ ") = "
        ++ part style Precedence.assignment body (body.render style)
    | .block entries =>
      "\n".intercalate (entries.map fun entry =>
        entry.body.render style ++ if entry.visible then "" else ";")
    | .array items => "[" ++ ", ".intercalate (items.map fun e => e.render style) ++ "]"
    | .object properties =>
      "\x7b" ++ ", ".intercalate (properties.map fun p =>
        Text.quote p.1 ++ ": " ++ p.2.render style) ++ "\x7d"
    | .parenthesis e => enclose (style.parentheses = .keep) (e.render style)
    | .index dimensions dotted =>
      match dotted, propertyName? (.index dimensions dotted) with
      | true, some name => "." ++ name
      | _, _ => "[" ++ ", ".intercalate (dimensions.map fun e => e.render style) ++ "]"
    | .access target selector =>
      enclose (wrapsAccessed target) (target.render style) ++ selector.render style
    | .comparison functions operands =>
      let texts := operands.map fun e => part style Precedence.relational e (e.render style)
      texts.headD "" ++ String.join (List.zipWith
        (fun function text => " " ++ comparisonSymbol function ++ " " ++ text) functions texts.tail)
termination_by sizeOf e
decreasing_by all_goals grind
where
  part (style : Style) (limit : Nat) (e : Expr) (s : String) : String :=
    enclose (wrapsAt style.parentheses limit e) s

/-- The source text of a tree in the default style. -/
def text (e : Expr) : String :=
  e.render {}

end Formula.Expr
