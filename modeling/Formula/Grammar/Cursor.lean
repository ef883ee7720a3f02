import Formula.Reading
import Formula.SyntaxError

/-!
Moving over the tokens of a source.

A production is a function of its surroundings (`Context`) that reads from the tokens that are left.
What it depends on comes down to it and never back up, so a production cannot leave a trace in its
surroundings; all it changes is which tokens are left.
-/

namespace Formula.Grammar

/-- What surrounds a production. -/
structure Context where
  /-- The number of open brackets; inside brackets, line ends mean nothing. -/
  nesting : Nat := 0
  /-- The number of open brackets at the innermost `?` that still lacks its `:`. -/
  pending : Option Nat := none
  /-- The number of operands that the production is nested in. -/
  depth : Nat := 0
deriving DecidableEq, Repr

namespace Context

/-- The surroundings of what stands between brackets. -/
def inside (ctx : Context) : Context :=
  { ctx with nesting := ctx.nesting + 1 }

/-- The surroundings of an operand. -/
def deeper (ctx : Context) : Context :=
  { ctx with depth := ctx.depth + 1 }

/-- The surroundings of what stands between `?` and `:`. -/
def awaiting (ctx : Context) : Context :=
  { ctx with pending := some ctx.nesting }

/-- The surroundings of what follows `:`. -/
def answered (ctx : Context) : Context :=
  { ctx with pending := none }

/-- Whether the next `:` on this level belongs to a `?`. -/
def awaits (ctx : Context) : Bool :=
  ctx.pending == some ctx.nesting

end Context

/-- A reader of tokens. -/
abbrev Parser := StateT (List Token) (Except SyntaxError)

/-- The first token that is left. -/
def head (tokens : List Token) : Token :=
  tokens.headD { kind := .stop, text := "", position := 0 }

/-- Line ends in front. -/
def dropLines (tokens : List Token) : List Token :=
  tokens.dropWhile fun t => t.kind == .newline

/-- The tokens behind the first one; the end is never passed. -/
def next (ctx : Context) (tokens : List Token) : List Token :=
  let rest := if (head tokens).kind = .stop then tokens else tokens.tail
  if ctx.nesting = 0 then rest else dropLines rest

/-- The tokens behind the first one and the line ends after it. -/
def nextLine (ctx : Context) (tokens : List Token) : List Token :=
  dropLines (next ctx tokens)

/-- The first token that is left. -/
def peek : Parser Token := do
  return head (← get)

/-- Passes the first token. -/
def advance (ctx : Context) : Parser Unit :=
  modify (next ctx)

/-- Passes the first token and the line ends after it. -/
def advanceLine (ctx : Context) : Parser Unit :=
  modify (nextLine ctx)

/-- Fails at the first token that is left. -/
def fail {α : Type} (fault : SyntaxFault) : Parser α := do
  throw { fault, position := (← peek).position }

/-- Fails at the first token unless it is the delimiter of a spelling. -/
def expectDelimiter (text : String) (fault : SyntaxFault) : Parser Unit := do
  unless (← peek).isDelimiter text do
    fail fault

/-- The spelling of the first token, if it is one of some operators. -/
def operatorIn (operators : List String) : Parser (Option String) := do
  let t ← peek
  return if t.kind = .operator ∧ operators.contains t.text then some t.text else none

/-- The productions that contain themselves. -/
structure Productions where
  /-- What may stand between brackets, on the right of `=`, and in the branches of a conditional. -/
  expression : Context → Parser Expr
  /-- What may stand behind a prefix operator and in an exponent. -/
  operand : Context → Parser Expr

end Formula.Grammar
