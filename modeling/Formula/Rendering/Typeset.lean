import Formula.Latex
import Formula.Rendering

/-!
Expressions as LaTeX markup.

Parentheses are left out also where a fraction bar or an exponent sets an operand apart.
-/

namespace Formula.Expr

open Rendering

/-- Markup, in parentheses if it needs them. -/
def typesetEnclosed (wrap : Bool) (s : String) : String :=
  if wrap then Latex.parens s else s

/-- The markup of a number: an exponent is written as a power of ten. -/
def typesetNumber (literal : String) : String :=
  let isMark (c : Char) : Bool := c = 'e' ∨ c = 'E'
  let mantissa := literal.toList.takeWhile (!isMark ·)
  match literal.toList.drop mantissa.length with
  | _ :: c :: cs =>
    if (c :: cs).contains '\n' then Latex.symbol literal
    else String.ofList mantissa ++ "\\cdot10^" ++ Latex.group (String.ofList (c :: cs))
  | _ => Latex.symbol literal

/-- The markup of a name; a space keeps letters apart from a command in front of them. -/
def typesetSymbol (name : String) : String :=
  let s := Latex.symbol name
  if s.toList.head? = some '\\' then s else " " ++ s

/-- The markup of a comparison in a chain. -/
def comparisonLatex (function : String) : String :=
  match Operator.ofName? function with
  | some op => op.latexSymbol
  | none => function

/-- Whether the base of a power needs parentheses although it is a group. -/
def wrapsBase (p : Parentheses) (base : Expr) : Bool :=
  (visible p base).form = .conditional ∨ (visible p base).operator? = some .divide

/-- An operation, from the markup of its operands, as they are and in their parentheses. -/
def typesetOperation (style : Style) (root : Expr) (spelling function : String)
    (operands : List Expr) (juxtaposed : Bool) (bare wrapped : List String) : String :=
  let hidden := juxtaposes style root juxtaposed
  let symbol := (root.operator?.map Operator.latexSymbol).getD spelling
  match wrapped with
  | [e] =>
    match grouping? style.parentheses root with
    | some .right => symbol ++ e
    | _ => e ++ symbol
  | [left, right] =>
    match root.operator? with
    | some .divide => symbol ++ Latex.group left ++ Latex.group right
    | some .pow =>
      let wrap := operands.head?.any (wrapsBase style.parentheses)
      typesetEnclosed wrap (Latex.group left) ++ symbol ++ Latex.group right
    | _ => if hidden then left ++ "~" ++ right else left ++ symbol ++ right
  | _ =>
    if wrapped ≠ [] ∧ isVariadic root then (if hidden then "~" else symbol).intercalate wrapped
    else Latex.command "mathrm" function ++ Latex.parens (",".intercalate bare)

/-- A call, from the markup of the function and its arguments. -/
def typesetCall (e : Expr) (callee : String) (args : List String) : String :=
  match e.calledName? with
  | some name =>
    match Latex.function? name args.length with
    | some template => Latex.fill template args
    | none =>
      Latex.command "mathrm" (Latex.escape name) ++ Latex.parens (",".intercalate args)
  | none => callee ++ Latex.parens (",".intercalate args)

/-- Markup in an environment. -/
def environment (name s : String) : String :=
  Latex.command "begin" name ++ s ++ Latex.command "end" name

/-- The LaTeX markup of a tree. -/
def typeset (style : Style) (e : Expr) : String :=
  match style.custom e with
  | some write => write (e.children.attach.map fun ⟨p, _⟩ => p.2.typeset style)
  | none =>
    match e with
    | .constant value kind =>
      match kind with
      | .number => typesetNumber value
      | .string => Latex.command "mathtt" ("\"" ++ Latex.escape value ++ "\"")
      | _ => Latex.symbol value
    | .symbol name => typesetSymbol name
    | .operation spelling function operands juxtaposed =>
      let root := .operation spelling function operands juxtaposed
      let bare := operands.map fun e => e.typeset style
      let wraps := wrappedOperands style true root operands juxtaposed
      typesetOperation style root spelling function operands juxtaposed bare
        (List.zipWith typesetEnclosed wraps bare)
    | .call callee args =>
      typesetCall (.call callee args) (callee.typeset style) (args.map fun e => e.typeset style)
    | .range start stop none =>
      part style Precedence.range start (start.typeset style) ++ ":"
        ++ part style Precedence.range stop (stop.typeset style)
    | .range start stop (some step) =>
      part style Precedence.range start (start.typeset style) ++ ":"
        ++ part style Precedence.range step (step.typeset style) ++ ":"
        ++ part style Precedence.range stop (stop.typeset style)
    | .conditional condition yes no =>
      environment "cases" (" " ++ Latex.group (yes.typeset style) ++ ", &\\quad"
        ++ Latex.group (Latex.command "text" "if " ++ "\\;" ++ condition.typeset style) ++ "\\\\"
        ++ Latex.group (no.typeset style) ++ ", &\\quad"
        ++ Latex.group (Latex.command "text" "otherwise"))
    | .assignment target none value =>
      target.typeset style ++ ":=" ++ part style Precedence.assignment value (value.typeset style)
    | .assignment target (some selector) value =>
      target.typeset style ++ selector.typeset style ++ ":="
        ++ part style Precedence.assignment value (value.typeset style)
    | .definition name params body =>
      Latex.command "mathrm" (Latex.escape name)
        ++ Latex.parens (",".intercalate (params.map Latex.symbol)) ++ ":="
        ++ part style Precedence.assignment body (body.typeset style)
    | .block entries =>
      "\\;\\;\n".intercalate (entries.map fun entry =>
        entry.body.typeset style ++ if entry.visible then "" else ";")
    | .array items =>
      environment "bmatrix" (String.join (items.map fun item =>
        match _h : item with
        | .array row => "&".intercalate (row.map fun e => e.typeset style) ++ "\\\\"
        | _ => item.typeset style ++ "\\\\"))
    | .object properties =>
      "\\left\\\x7b" ++ Latex.command "begin" "array" ++ Latex.group "ll"
        ++ "\n".intercalate (properties.map fun p =>
          Latex.command "mathbf" (Latex.escape p.1 ++ ":") ++ " & " ++ p.2.typeset style ++ "\\\\")
        ++ Latex.command "end" "array" ++ "\\right\\\x7d"
    | .parenthesis e => typesetEnclosed (style.parentheses = .keep) (e.typeset style)
    | .index dimensions dotted =>
      match dotted, propertyName? (.index dimensions dotted) with
      | true, some name => "." ++ Latex.escape name
      | _, _ => "_" ++ Latex.group (",".intercalate (dimensions.map fun e => e.typeset style))
    | .access target selector =>
      typesetEnclosed (wrapsAccessed target) (target.typeset style) ++ selector.typeset style
    | .comparison functions operands =>
      let texts := operands.map fun e => part style Precedence.relational e (e.typeset style)
      texts.headD "" ++ String.join (List.zipWith
        (fun function text => comparisonLatex function ++ text) functions texts.tail)
termination_by sizeOf e
decreasing_by all_goals grind
where
  part (style : Style) (limit : Nat) (e : Expr) (s : String) : String :=
    typesetEnclosed (wrapsAt style.parentheses limit e) s

end Formula.Expr
