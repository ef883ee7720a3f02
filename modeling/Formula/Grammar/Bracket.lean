import Formula.Grammar.Cursor
import Formula.Record
import Formula.Text.Quoted

/-!
The tightest part of the grammar: constants, names, everything between brackets, and the calls,
indexes and properties that follow it.
-/

namespace Formula.Grammar

open Reading (repeatedly)

/-- Expressions between commas, at least one. -/
def items (p : Productions) (ctx : Context) : Parser (List Expr) := do
  let first ← p.expression ctx
  let reversed ← repeatedly [first] fun es => do
    if (← peek).isDelimiter "," then
      advance ctx
      return .yield ((← p.expression ctx) :: es)
    else
      return .done es
  return reversed.reverse

/-- Expressions between commas, from the opening bracket to the closing one. -/
def list (p : Productions) (ctx : Context) (closing : String) : Parser (List Expr) := do
  advance ctx.inside
  let es ← if (← peek).isDelimiter closing then pure [] else items p ctx.inside
  expectDelimiter closing (.unclosed closing)
  advance ctx
  return es

/-- Calls `f(x)`, indexes `a[1, 2]` and properties `a.b`, in any sequence, that follow an
expression. -/
def accesses (p : Productions) (ctx : Context) (e : Expr) : Parser Expr :=
  repeatedly e fun e => do
    let t ← peek
    if t.isDelimiter "(" then
      match e.form with
      | .symbol | .access => return .yield (.call e (← list p ctx ")"))
      | _ => return .done e
    else if t.isDelimiter "[" then
      return .yield (.access e (.index (← list p ctx "]") false))
    else if t.isDelimiter "." then
      advance ctx
      let name ← peek
      if name.kind = .identifier then
        advance ctx
        return .yield (.access e (.property name.text))
      else
        fail .propertyNameExpected
    else
      return .done e

/-- An expression in parentheses, from the opening one on. -/
def parenthesis (p : Productions) (ctx : Context) : Parser Expr := do
  advance ctx.inside
  let e ← p.expression ctx.inside
  expectDelimiter ")" (.unclosed ")")
  advance ctx
  return .parenthesis e

/-- The array of the rows of a matrix; a single row is an array of its own. -/
def ofRows (position : Nat) : List (List Expr) → Except SyntaxError Expr
  | [row] => .ok (.array row)
  | rows =>
    let columns := (rows.headD []).length
    match rows.find? fun row => row.length != columns with
    | some row => .error { fault := .columns row.length columns, position }
    | none => .ok (.array (rows.map .array))

/-- `[1, 2]`, a flat array, or `[1, 2; 3, 4]`, an array of rows, from the opening bracket on. -/
def matrix (p : Productions) (ctx : Context) : Parser Expr := do
  advance ctx.inside
  if (← peek).isDelimiter "]" then
    advance ctx
    return .array []
  let first ← items p ctx.inside
  let reversed ← repeatedly [first] fun rows => do
    if (← peek).isDelimiter ";" then
      advance ctx.inside
      return .yield ((← items p ctx.inside) :: rows)
    else
      return .done rows
  expectDelimiter "]" .unclosedMatrix
  let position := (← peek).position
  advance ctx
  ofRows position reversed.reverse

/-- The key that a token stands for: a string, a name or an operator that is a word. -/
def key? (t : Token) : Except SyntaxFault String :=
  match t.kind with
  | .str =>
    match Text.unescape? t.text with
    | some key => .ok key
    | none => .error .invalidString
  | .identifier => .ok t.text
  | .operator => if Token.namedOperators.contains t.text then .ok t.text else .error .keyExpected
  | _ => .error .keyExpected

/-- `key: value` pairs in braces, from the opening brace on; the last one may have a comma too. -/
def object (p : Productions) (ctx : Context) : Parser Expr := do
  advance ctx.inside
  let properties ← repeatedly ([] : Record Expr) fun properties => do
    let t ← peek
    if t.isDelimiter "\x7d" then
      return .done properties
    match key? t with
    | .error fault => fail fault
    | .ok key =>
      advance ctx.inside
      unless (← peek).isOperator ":" do
        fail .colonExpected
      advance ctx.inside
      let properties := Record.set key (← p.expression ctx.inside) properties
      if (← peek).isDelimiter "," then
        advance ctx.inside
        return .yield properties
      else
        return .done properties
  expectDelimiter "\x7d" .unclosedObject
  advance ctx
  return .object properties

/-- What a name stands for: a constant, if it is the word for one. -/
def ofName (name : String) : Expr :=
  if name = "true" then .boolean true
  else if name = "false" then .boolean false
  else if name = "null" then .null
  else if name = "undefined" then .undefined
  else if name = "NaN" ∨ name = "Infinity" then .number name
  else .symbol name

/-- The fault of a token that is no token of the language. -/
def unknownFault (t : Token) : SyntaxFault :=
  if t.text.toList.head? = some '"' then .unclosedString else .unreadable t.text

/-- A constant, a name, or an expression in brackets. An operator that is a word is a name here, so
that it can be called. -/
def primary (p : Productions) (ctx : Context) : Parser Expr := do
  let t ← peek
  match t.kind with
  | .number =>
    advance ctx
    return .number t.text
  | .str =>
    match Text.unescape? t.text with
    | some value =>
      advance ctx
      return .string value
    | none => fail .invalidString
  | .identifier =>
    advance ctx
    return ofName t.text
  | .operator =>
    if Token.namedOperators.contains t.text then
      advance ctx
      return .symbol t.text
    else if t.text = "'" then
      fail .singleQuotes
    else
      fail .valueExpected
  | .delimiter =>
    if t.text = "(" then parenthesis p ctx
    else if t.text = "[" then matrix p ctx
    else if t.text = "\x7b" then object p ctx
    else fail .valueExpected
  | .unknown => fail (unknownFault t)
  | .stop => fail .unexpectedEnd
  | .newline => fail .valueExpected

end Formula.Grammar
