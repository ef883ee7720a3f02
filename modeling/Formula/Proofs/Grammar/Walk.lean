import Formula.Expr.Children
import Formula.Grammar

/-!
The grammar as a walk over the tokens of a source.

All productions share one state (`Cursor`): the number of the current token, and what surrounds it, which
a production changes for its parts and puts back. The current token is looked up by its number, each loop
and each production that contains itself has so many turns, and a walk that needs a token or a turn which
is not there breaks off (`Halt`). Beside a tree stand the ways to its leaves, with what each of them
crosses in the source (`Trail`).
-/

namespace Formula

namespace Expr

/-- The nodes without children, from left to right. -/
def leaves (e : Expr) : List Expr :=
  if e.children.isEmpty then [e] else e.children.attach.flatMap fun p => p.1.2.leaves
termination_by sizeOf e
decreasing_by exact sizeOf_lt_of_mem_children p.2

end Expr

namespace Grammar

/-! ### Trees with their trails -/

/-- What is crossed in a source on the way down to a part of its tree. -/
inductive Crossing where
  | bracket
  /-- An operator in front of its operand. -/
  | operator
  | exponent
deriving DecidableEq, Repr

/-- The way from the root of a tree to one of its leaves. -/
structure Trail where
  crossings : List Crossing
  leaf : Expr

/-- A tree with the trails to its leaves, from left to right. -/
structure Walked where
  tree : Expr
  trails : List Trail

namespace Walked

/-- The trails through a part, which may be behind a crossing. -/
def through (crossing : Option Crossing) (w : Walked) : List Trail :=
  w.trails.map fun t => { t with crossings := crossing.toList ++ t.crossings }

/-- A node with its parts. -/
def node (e : Expr) (parts : List (Option Crossing × Walked)) : Walked where
  tree := e
  trails := if parts.isEmpty then [⟨[], e⟩] else parts.flatMap fun p => p.2.through p.1

/-- A node without parts. -/
def leaf (e : Expr) : Walked :=
  node e []

/-- The trees of parts. -/
def trees (ws : List Walked) : List Expr :=
  ws.map tree

/-- Parts on the level of their node. -/
def beside (ws : List Walked) : List (Option Crossing × Walked) :=
  ws.map (none, ·)

/-- Parts between the brackets of their node. -/
def inside (ws : List Walked) : List (Option Crossing × Walked) :=
  ws.map (some .bracket, ·)

/-- An owner with an index. -/
def indexed (owner : Walked) (dimensions : List Walked) : Walked :=
  let index := node (.index (trees dimensions) false) (inside dimensions)
  node (.access owner.tree index.tree) (beside [owner, index])

/-- An owner with a property. -/
def property (owner : Walked) (name : String) : Walked :=
  let part := node (.property name) (beside [leaf (.string name)])
  node (.access owner.tree part.tree) (beside [owner, part])

/-- The array of the rows of a matrix, all between the same brackets; a single row is an array of its
own. -/
def ofRows (e : Expr) : List (List Walked) → Walked
  | [row] => node e (inside row)
  | rows => node e (beside (rows.map fun row => node (.array (trees row)) (inside row)))

/-- What an assignment makes of its target and its value: the target of a definition is gone. -/
def assigned (e : Expr) (target value : Walked) : Walked where
  tree := e
  trails := (if e.form = .definition then [] else target.trails) ++ value.trails

/-- The trees of statements. -/
def bodies (entries : List (Entry Walked)) : List (Entry Expr) :=
  entries.map fun entry => { entry with body := entry.body.tree }

/-- A block of statements. -/
def block (entries : List (Entry Walked)) : Walked :=
  node (.block (bodies entries)) (beside (entries.map (·.body)))

end Walked

open Walked (node leaf trees beside inside)

/-! ### Walking -/

/-- Where a walk stands. -/
structure Cursor extends Context where
  /-- The number of the current token. -/
  index : Nat := 0

/-- Why a walk has no result. -/
inductive Halt where
  /-- There is no token of a number. -/
  | outOfTokens
  /-- A loop or a production that contains itself has had its turns. -/
  | outOfTurns
  | error (e : SyntaxError)

/-- A reader of tokens by their numbers. -/
abbrev Walk := ReaderT (List Token) (StateT Cursor (Except Halt))

namespace Walk

variable {α : Type}

/-- The current token. -/
def token : Walk Token := do
  match (← read)[(← get).index]? with
  | some t => return t
  | none => throw .outOfTokens

/-- Goes to the token of a number. -/
def goTo (index : Nat) : Walk Unit := do
  if index < (← read).length then
    modify fun c => { c with index }
  else
    throw .outOfTokens

/-- Goes to the next token. -/
def forward : Walk Unit := do
  goTo ((← get).index + 1)

/-- Fails at the current token. -/
def fail (fault : SyntaxFault) : Walk α := do
  throw (.error { fault, position := (← token).position })

/-- Takes steps until one says that it is done, for at most so many turns. -/
def turns (step : α → Walk (ForInStep α)) : Nat → α → Walk α
  | 0, _ => throw .outOfTurns
  | n + 1, a => do
    match ← step a with
    | .done b => return b
    | .yield b => turns step n b

/-- Takes steps until one says that it is done, for at most as many turns as there are tokens. -/
def loop (a : α) (step : α → Walk (ForInStep α)) : Walk α := do
  turns step (← read).length a

/-- Passes a line end, if there is one. -/
def skipLine : Walk (ForInStep Unit) := do
  if (← token).kind = .newline then
    forward
    return .yield ()
  else
    return .done ()

/-- Passes line ends. -/
def skipLines : Walk Unit :=
  loop () fun _ => skipLine

/-- Passes the current token unless it is the end, and between brackets the line ends behind it. -/
def advance : Walk Unit := do
  if (← token).kind ≠ .stop then
    forward
  if 0 < (← get).nesting then
    skipLines

/-- Passes the current token and the line ends behind it. -/
def advanceLine : Walk Unit := do
  advance
  skipLines

/-- Passes an opening bracket. -/
def openBracket : Walk Unit := do
  modify fun c => { c with nesting := c.nesting + 1 }
  advance

/-- Passes a closing bracket. -/
def closeBracket : Walk Unit := do
  modify fun c => { c with nesting := c.nesting - 1 }
  advance

/-- Fails at the current token unless it is the delimiter of a spelling. -/
def expectDelimiter (text : String) (fault : SyntaxFault) : Walk Unit := do
  unless (← token).isDelimiter text do
    fail fault

/-- The spelling of the current token, if it is one of some operators. -/
def operatorIn (operators : List String) : Walk (Option String) := do
  let t ← token
  return if t.kind = .operator ∧ operators.contains t.text then some t.text else none

/-- Whether the next `:` on this level belongs to a `?`. -/
def awaits : Walk Bool :=
  return (← get).toContext.awaits

/-! ### Productions -/

/-- The productions that contain themselves. -/
structure Routines where
  expression : Walk Walked
  operand : Walk Walked

def items (r : Routines) : Walk (List Walked) := do
  let first ← r.expression
  let reversed ← loop [first] fun ws => do
    if (← token).isDelimiter "," then
      advance
      return .yield ((← r.expression) :: ws)
    else
      return .done ws
  return reversed.reverse

def list (r : Routines) (closing : String) : Walk (List Walked) := do
  openBracket
  let ws ← if (← token).isDelimiter closing then pure [] else items r
  expectDelimiter closing (.unclosed closing)
  closeBracket
  return ws

def accesses (r : Routines) (w : Walked) : Walk Walked :=
  loop w fun w => do
    let t ← token
    if t.isDelimiter "(" then
      match w.tree.form with
      | .symbol | .access =>
        let args ← list r ")"
        return .yield (node (.call w.tree (trees args)) ((none, w) :: inside args))
      | _ => return .done w
    else if t.isDelimiter "[" then
      return .yield (w.indexed (← list r "]"))
    else if t.isDelimiter "." then
      advance
      let name ← token
      if name.kind = .identifier then
        advance
        return .yield (w.property name.text)
      else
        fail .propertyNameExpected
    else
      return .done w

def parenthesis (r : Routines) : Walk Walked := do
  openBracket
  let w ← r.expression
  expectDelimiter ")" (.unclosed ")")
  closeBracket
  return node (.parenthesis w.tree) (inside [w])

def matrix (r : Routines) : Walk Walked := do
  openBracket
  if (← token).isDelimiter "]" then
    closeBracket
    return leaf (.array [])
  else
    let first ← items r
    let reversed ← loop [first] fun rows => do
      if (← token).isDelimiter ";" then
        advance
        return .yield ((← items r) :: rows)
      else
        return .done rows
    expectDelimiter "]" .unclosedMatrix
    let position := (← token).position
    closeBracket
    let rows := reversed.reverse
    match ofRows position (rows.map trees) with
    | .ok e => return Walked.ofRows e rows
    | .error e => throw (.error e)

def object (r : Routines) : Walk Walked := do
  openBracket
  let properties ← loop ([] : Record Walked) fun properties => do
    let t ← token
    if t.isDelimiter "\x7d" then
      return .done properties
    else
      match key? t with
      | .error fault => fail fault
      | .ok key =>
        advance
        if (← token).isOperator ":" then
          advance
          let value ← r.expression
          if (← token).isDelimiter "," then
            advance
            return .yield (Record.set key value properties)
          else
            return .done (Record.set key value properties)
        else
          fail .colonExpected
  expectDelimiter "\x7d" .unclosedObject
  closeBracket
  return node (.object (properties.map fun p => (p.1, p.2.tree))) (inside (Record.values properties))

def primary (r : Routines) : Walk Walked := do
  let t ← token
  match t.kind with
  | .number =>
    advance
    return leaf (.number t.text)
  | .str =>
    match Text.unescape? t.text with
    | some value =>
      advance
      return leaf (.string value)
    | none => fail .invalidString
  | .identifier =>
    advance
    return leaf (ofName t.text)
  | .operator =>
    if Token.namedOperators.contains t.text then
      advance
      return leaf (.symbol t.text)
    else if t.text = "'" then
      fail .singleQuotes
    else
      fail .valueExpected
  | .delimiter =>
    if t.text = "(" then parenthesis r
    else if t.text = "[" then matrix r
    else if t.text = "\x7b" then object r
    else fail .valueExpected
  | .unknown => fail (unknownFault t)
  | .stop => fail .unexpectedEnd
  | .newline => fail .valueExpected

/-- The operation of a binary operator's spelling; its right operand may be behind a crossing. -/
def binary (spelling : String) (left : Walked) (crossing : Option Crossing) (right : Walked) :
    Walk Walked :=
  match Operator.binary? spelling with
  | some op =>
    return node (.operation spelling op.name [left.tree, right.tree] false)
      [(none, left), (crossing, right)]
  | none => fail (.unexpectedOperator spelling)

def postfixed (r : Routines) : Walk Walked := do
  let w ← primary r
  let w ← accesses r w
  loop w fun w => do
    let t ← token
    match if t.kind = .operator then Operator.trailing? t.text else none with
    | some op =>
      advance
      return .yield (← accesses r (node (.operation t.text op.name [w.tree] false) (beside [w])))
    | none => return .done w

def power (r : Routines) : Walk Walked := do
  let base ← postfixed r
  match ← operatorIn ["^", ".^"] with
  | some spelling =>
    advanceLine
    binary spelling base (some .exponent) (← r.operand)
  | none => return base

def signed (r : Routines) : Walk Walked := do
  let t ← token
  match if t.kind = .operator then Operator.leading? t.text else none with
  | some op =>
    advanceLine
    let w ← r.operand
    return node (.operation t.text op.name [w.tree] false) [(some .operator, w)]
  | none => power r

def operand (r : Routines) : Walk Walked := do
  if maxDepth ≤ (← get).depth then
    fail .tooDeep
  else
    modify fun c => { c with depth := c.depth + 1 }
    let w ← signed r
    modify fun c => { c with depth := c.depth - 1 }
    return w

/-- Whether a slash and a number with a factor behind it follow a numerator. Goes over the slash if so;
otherwise goes back to it after looking ahead. -/
def quotient (numerator : Expr) : Walk Bool := do
  if (← token).isOperator "/" && isNumeral numerator then
    let beforeSlash := (← get).index
    advanceLine
    if (← token).kind == .number then
      let beforeDenominator := (← get).index
      advanceLine
      let followed := startsFactor (← token)
      goTo beforeDenominator
      if followed then
        return true
      else
        goTo beforeSlash
        return false
    else
      goTo beforeSlash
      return false
  else
    return false

def fraction (r : Routines) : Walk Walked := do
  let first ← operand r
  let s ← loop (first, first) fun s => do
    if ← quotient s.2.tree then
      let last ← operand r
      return .yield (← binary "/" s.1 none last, last)
    else
      return .done s
  return s.1

def juxtaposition (r : Routines) : Walk Walked := do
  let first ← fraction r
  let s ← loop (first, endsLikeNumber first.tree) fun s => do
    let t ← token
    if startsFactor t || t.kind == .number && !s.2 then
      let factor ← fraction r
      return .yield (node (.juxtapose s.1.tree factor.tree) (beside [s.1, factor]),
        endsLikeNumber factor.tree)
    else
      return .done s
  return s.1

def leftGrouped (operators : List String) (operand : Walk Walked) : Walk Walked := do
  let first ← operand
  loop first fun left => do
    match ← operatorIn operators with
    | some spelling =>
      advanceLine
      return .yield (← binary spelling left none (← operand))
    | none => return .done left

def levels (operators : List (List String)) (operand : Walk Walked) : Walk Walked :=
  operators.foldl (fun operand level => leftGrouped level operand) operand

def ofComparisons (operands : List Walked) : List String → Walk Walked
  | [] => return operands.headD (leaf .undefined)
  | [spelling] =>
    binary spelling (operands.headD (leaf .undefined)) none (operands.getD 1 (leaf .undefined))
  | spellings =>
    return node (.comparison ((spellings.filterMap Operator.binary?).map Operator.name) (trees operands))
      (beside operands)

def chain (r : Routines) : Walk Walked := do
  let operand := levels tightLevels (juxtaposition r)
  let first ← operand
  let s ← loop ([first], []) fun s => do
    match ← operatorIn comparisons with
    | some spelling =>
      advanceLine
      return .yield ((← operand) :: s.1, spelling :: s.2)
    | none => return .done s
  ofComparisons s.1.reverse s.2.reverse

def disjunction (r : Routines) : Walk Walked :=
  levels looseLevels (chain r)

def ofParts : List Walked → Walk Walked
  | [w] => return w
  | [start, stop] => return node (.range start.tree stop.tree none) (beside [start, stop])
  | [start, step, stop] =>
    return node (.range start.tree stop.tree (some step.tree)) (beside [start, stop, step])
  | _ => fail .valueExpected

def range (r : Routines) : Walk Walked := do
  let first ←
    if (← token).isOperator ":" && !(← awaits) then pure (leaf (.number "1")) else disjunction r
  let reversed ← loop [first] fun parts => do
    if (← token).isOperator ":" && !(← awaits) then
      if parts.length = 3 then
        fail .tooManyRangeParts
      else
        advance
        if closesRange (← token) then
          return .yield (leaf (.symbol Expr.endName) :: parts)
        else
          return .yield ((← disjunction r) :: parts)
    else
      return .done parts
  ofParts reversed.reverse

def conditional (r : Routines) : Walk Walked := do
  let first ← range r
  loop first fun condition => do
    if (← token).isOperator "?" then
      let outer := (← get).pending
      modify fun c => { c with pending := some c.nesting }
      advanceLine
      let yes ← r.expression
      if (← token).isOperator ":" then
        modify fun c => { c with pending := none }
        advanceLine
        let no ← r.expression
        modify fun c => { c with pending := outer }
        return .yield (node (.conditional condition.tree yes.tree no.tree) (beside [condition, yes, no]))
      else
        fail .falsePartExpected
    else
      return .done condition

def expression (r : Routines) : Walk Walked := do
  let target ← conditional r
  let t ← token
  if t.isOperator "=" then
    advanceLine
    let value ← r.expression
    match assign target.tree value.tree with
    | .ok e => return .assigned e target value
    | .error fault => throw (.error { fault, position := t.position })
  else
    return target

/-- The productions that contain themselves, for at most so many turns. -/
def routines : Nat → Routines
  | 0 => { expression := throw .outOfTurns, operand := throw .outOfTurns }
  | n + 1 => { expression := expression (routines n), operand := operand (routines n) }

def statement (r : Routines) : Walk (List (Entry Walked)) := do
  let t ← token
  if t.kind = .stop ∨ separates t then
    return []
  else
    let body ← r.expression
    return [{ body, visible := !(← token).isDelimiter ";" }]

def statements (r : Routines) : Walk Walked := do
  let first ← statement r
  let separated := separates (← token)
  let reversed ← loop first.reverse fun entries => do
    if separates (← token) then
      advance
      return .yield ((← statement r).reverse ++ entries)
    else
      return .done entries
  match reversed.reverse with
  | [] => return leaf .undefined
  | [entry] => return if separated then .block [entry] else entry.body
  | entries => return .block entries

def source (r : Routines) : Walk Walked := do
  let w ← statements r
  let t ← token
  match t.kind with
  | .stop => return w
  | .unknown => fail (unknownFault t)
  | .operator | .delimiter => fail (.unexpectedOperator t.text)
  | _ => fail (.unexpected t.text)

/-- Tokens with an end behind them, if they do not end with one. -/
def closed (tokens : List Token) : List Token :=
  match tokens.getLast? with
  | none => [{ kind := .stop, text := "", position := 0 }]
  | some t =>
    if t.kind = .stop then tokens
    else tokens ++ [{ kind := .stop, text := "", position := t.position + t.text.length }]

/-- The tree of a source, with its trails. -/
def parse (text : String) : Except Halt Walked :=
  let tokens := closed (Token.scan text)
  (source (routines tokens.length) tokens {}).map (·.1)

end Walk

end Grammar

end Formula
