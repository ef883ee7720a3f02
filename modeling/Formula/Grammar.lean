import Formula.Grammar.Ladder

/-!
The loosest part of the grammar (ranges, conditionals, assignments) and whole sources.

`productions n` reads sources of at most `n` tokens: a production that contains itself has passed a
token before it does so again. `Expr.parse` reads a source with as many as it has.
-/

namespace Formula.Grammar

open Reading (repeatedly)

/-- Whether a token closes what a range stands in, so that the range goes on to the end. -/
def closesRange (t : Token) : Bool :=
  t.kind == .stop || t.isDelimiter ")" || t.isDelimiter "]" || t.isDelimiter ","

/-- The range of one to three parts: `start:end` or `start:step:end`. -/
def ofParts : List Expr → Parser Expr
  | [e] => return e
  | [start, stop] => return .range start stop none
  | [start, step, stop] => return .range start stop (some step)
  | _ => fail .valueExpected

/-- A range; a start that is left out is `1`, and an end that is left out is `end`. -/
def range (p : Productions) (ctx : Context) : Parser Expr := do
  let first ←
    if (← peek).isOperator ":" && !ctx.awaits then pure (.number "1") else disjunction p ctx
  let reversed ← repeatedly [first] fun parts => do
    if (← peek).isOperator ":" && !ctx.awaits then
      if parts.length = 3 then
        fail .tooManyRangeParts
      advance ctx
      if closesRange (← peek) then
        return .yield (.symbol Expr.endName :: parts)
      else
        return .yield ((← disjunction p ctx) :: parts)
    else
      return .done parts
  ofParts reversed.reverse

/-- A condition with its branches; what follows the branches can be decided on again. -/
def conditional (p : Productions) (ctx : Context) : Parser Expr := do
  let first ← range p ctx
  repeatedly first fun condition => do
    if (← peek).isOperator "?" then
      advanceLine ctx
      let yes ← p.expression ctx.awaiting
      unless (← peek).isOperator ":" do
        fail .falsePartExpected
      advanceLine ctx
      let no ← p.expression ctx.answered
      return .yield (.conditional condition yes no)
    else
      return .done condition

/-- The names of parameters, if all expressions are symbols. -/
def paramNames? (args : List Expr) : Option (List String) :=
  args.mapM fun
    | .symbol name => some name
    | _ => none

/-- What `target = value` assigns: a variable, a part of one, or a function. -/
def assign (target value : Expr) : Except SyntaxFault Expr :=
  let made : Option Expr := match target with
    | .symbol _ => some (.assignment target none value)
    | .access object index => some (.assignment object (some index) value)
    | .call (.symbol name) args =>
      (paramNames? args).map fun params => .definition name params value
    | _ => none
  match made with
  | some e => e.checked.mapError .shape
  | none => .error .invalidTarget

/-- An expression: anything but a sequence of statements. -/
def expression (p : Productions) (ctx : Context) : Parser Expr := do
  let target ← conditional p ctx
  let t ← peek
  if t.isOperator "=" then
    advanceLine ctx
    let value ← p.expression ctx
    match assign target value with
    | .ok e => return e
    | .error fault => throw { fault, position := t.position }
  else
    return target

/-- The productions that contain themselves, for at most `n` tokens. -/
def productions : Nat → Productions
  | 0 => { expression := fun _ => fail .unexpectedEnd, operand := fun _ => fail .unexpectedEnd }
  | n + 1 => { expression := expression (productions n), operand := operand (productions n) }

/-- Whether a token stands between statements. -/
def separates (t : Token) : Bool :=
  t.kind == .newline || t.isDelimiter ";"

/-- A statement, if there is one before the next separator; a `;` after it hides its value. -/
def statement (p : Productions) : Parser (List (Entry Expr)) := do
  let t ← peek
  if t.kind = .stop ∨ separates t then
    return []
  let body ← p.expression {}
  return [{ body, visible := !(← peek).isDelimiter ";" }]

/-- Statements between separators. One statement without a separator stands for itself, and none for
an undefined value. -/
def statements (p : Productions) : Parser Expr := do
  let first ← statement p
  let separated := separates (← peek)
  let reversed ← repeatedly first.reverse fun entries => do
    if separates (← peek) then
      advance {}
      return .yield ((← statement p).reverse ++ entries)
    else
      return .done entries
  match reversed.reverse with
  | [] => return .undefined
  | [entry] => return if separated then .block [entry] else entry.body
  | entries => return .block entries

/-- A whole source. -/
def source (p : Productions) : Parser Expr := do
  let e ← statements p
  let t ← peek
  match t.kind with
  | .stop => return e
  | .unknown => fail (unknownFault t)
  | .operator | .delimiter => fail (.unexpectedOperator t.text)
  | _ => fail (.unexpected t.text)

/-- The tree of a list of tokens. -/
def ofTokens (tokens : List Token) : Except SyntaxError Expr :=
  (source (productions tokens.length)).run' tokens

end Formula.Grammar

namespace Formula.Expr

/-- The tree of a source. -/
def parse (source : String) : Except SyntaxError Expr :=
  Grammar.ofTokens (Token.scan source)

end Formula.Expr
