import Formula.Grammar.Bracket

/-!
The ladder of operators, from the tightest to the loosest: postfix operators, powers, prefix
operators, fractions of numbers, juxtaposition, and the binary operators level by level.
-/

namespace Formula.Grammar

open Reading (repeatedly)

/-- The deepest nesting of operands. -/
def maxDepth : Nat := 100

/-- The operation of a binary operator's spelling. -/
def binary (spelling : String) (left right : Expr) : Parser Expr :=
  match Operator.binary? spelling with
  | some op => return .operation spelling op.name [left, right] false
  | none => fail (.unexpectedOperator spelling)

/-- Operators behind an operand, each with the accesses that follow it. -/
def postfixed (p : Productions) (ctx : Context) : Parser Expr := do
  let e ← primary p ctx
  let e ← accesses p ctx e
  repeatedly e fun e => do
    let t ← peek
    match if t.kind = .operator then Operator.trailing? t.text else none with
    | some op =>
      advance ctx
      return .yield (← accesses p ctx (.operation t.text op.name [e] false))
    | none => return .done e

/-- A power, which groups to the right; the exponent may have operators in front. -/
def power (p : Productions) (ctx : Context) : Parser Expr := do
  let base ← postfixed p ctx
  match ← operatorIn ["^", ".^"] with
  | some spelling =>
    advanceLine ctx
    binary spelling base (← p.operand ctx)
  | none => return base

/-- An operand with the operators in front of it. All nesting passes through here, so that bounding
it here bounds it altogether. -/
def operand (p : Productions) (ctx : Context) : Parser Expr := do
  if maxDepth ≤ ctx.depth then
    fail .tooDeep
  let ctx := ctx.deeper
  let t ← peek
  match if t.kind = .operator then Operator.leading? t.text else none with
  | some op =>
    advanceLine ctx
    return .operation t.text op.name [← p.operand ctx] false
  | none => power p ctx

/-- A number, with or without signs in front. -/
def isNumeral : Expr → Bool
  | .constant _ kind => kind == .number
  | .operation spelling _ [e] _ =>
    (spelling == "-" || spelling == "+" || spelling == "~") && isNumeral e
  | _ => false

/-- Expressions after which a number does not mean a product. -/
def endsLikeNumber : Expr → Bool
  | .constant .. => true
  | .operation spelling .. => spelling != "!"
  | _ => false

/-- Whether a token can be a factor, whatever stands before it. -/
def startsFactor (t : Token) : Bool :=
  t.kind == .identifier || t.isDelimiter "("

/-- A quotient of numbers, if a factor follows it: `1/2x` is `(1/2)*x`. Looks ahead over the
denominator and leaves the slash alone if it is not such a quotient. -/
def fraction (p : Productions) (ctx : Context) : Parser Expr := do
  let first ← operand p ctx
  let (e, _) ← repeatedly (first, first) fun (e, last) => do
    let denominator := nextLine ctx (← get)
    if (← peek).isOperator "/" && isNumeral last && (head denominator).kind == .number
        && startsFactor (head (nextLine ctx denominator)) then
      set denominator
      let last ← operand p ctx
      return .yield (← binary "/" e last, last)
    else
      return .done (e, last)
  return e

/-- Products by juxtaposition: `2x`, `(1+2)(3+4)`, `x y`. A number is a factor only behind something
that does not end like a number. -/
def juxtaposition (p : Productions) (ctx : Context) : Parser Expr := do
  let first ← fraction p ctx
  let (e, _) ← repeatedly (first, endsLikeNumber first) fun (e, afterNumber) => do
    let t ← peek
    if startsFactor t || t.kind == .number && !afterNumber then
      let factor ← fraction p ctx
      return .yield (.juxtapose e factor, endsLikeNumber factor)
    else
      return .done (e, afterNumber)
  return e

/-- Operands with operators of one level between them, grouped to the left. -/
def leftGrouped (ctx : Context) (operators : List String) (operand : Parser Expr) :
    Parser Expr := do
  let first ← operand
  repeatedly first fun left => do
    match ← operatorIn operators with
    | some spelling =>
      advanceLine ctx
      return .yield (← binary spelling left (← operand))
    | none => return .done left

/-- The levels of binary operators that bind tighter than comparisons, tightest first. -/
def tightLevels : List (List String) :=
  [["*", "/", ".*", "./", "%", "mod"], ["+", "-"], ["<<", ">>", ">>>"]]

/-- The levels of binary operators that bind looser than comparisons, tightest first. -/
def looseLevels : List (List String) :=
  [["&"], ["^|"], ["|"], ["and"], ["xor"], ["or"]]

/-- The comparisons. -/
def comparisons : List String :=
  ["==", "!=", "<", ">", "<=", ">="]

/-- Levels of binary operators on top of an operand. -/
def levels (ctx : Context) (operators : List (List String)) (operand : Parser Expr) :
    Parser Expr :=
  operators.foldl (fun operand level => leftGrouped ctx level operand) operand

/-- The tree of operands with comparisons between them: a single comparison is an operation. -/
def ofComparisons (operands : List Expr) : List String → Parser Expr
  | [] => return operands.headD .undefined
  | [spelling] => binary spelling (operands.headD .undefined) (operands.getD 1 .undefined)
  | spellings =>
    return .comparison ((spellings.filterMap Operator.binary?).map Operator.name) operands

/-- Operands with comparisons between them; each compares its two neighbours. -/
def chain (p : Productions) (ctx : Context) : Parser Expr := do
  let operand := levels ctx tightLevels (juxtaposition p ctx)
  let first ← operand
  let (operands, spellings) ← repeatedly ([first], []) fun (operands, spellings) => do
    match ← operatorIn comparisons with
    | some spelling =>
      advanceLine ctx
      return .yield ((← operand) :: operands, spelling :: spellings)
    | none => return .done (operands, spellings)
  ofComparisons operands.reverse spellings.reverse

/-- Operands with binary operators of all levels between them. -/
def disjunction (p : Productions) (ctx : Context) : Parser Expr :=
  levels ctx looseLevels (chain p ctx)

end Formula.Grammar
