import Formula.Expr.WellFormed
import Formula.Resolver
import Formula.Store.Liveness

/-!
Evaluating code.

`Code.run` goes through code and leaves calls of functions to a given rule, so that its recursion is
that of the code. The rule for functions runs their bodies in turn, as deep as it is told
(`callWithin`), each in a new frame below the one in which the function was defined.

The context of an evaluation says in which frame it works and what is held meanwhile: the frames of the
calls on the way and the values that are worked out but not used yet. Only the question whether the root
of a function is still alive depends on what is held.
-/

namespace Formula

/-- What an evaluation changes: the store, and the state of the resolver. -/
structure Machine (σ : Type) where
  store : Store
  resolver : σ

/-- Evaluations with a resolver of states `σ`; one that fails keeps what it did. -/
abbrev Evaluation (σ : Type) := ExceptT EvalError (StateM (Machine σ))

/-- Where an evaluation works, and what is held meanwhile. -/
structure Context where
  frame : Nat
  frames : List Nat := []
  values : List Value := []

/-- The context in which values are held too. -/
def Context.holding (ctx : Context) (values : List Value) : Context :=
  { ctx with values := values ++ ctx.values }

namespace Evaluation

variable {σ α : Type}

/-- Asks the resolver. -/
def ask (answer : Answer σ α) : Evaluation σ α := fun m =>
  let (result, resolver) := answer.run m.resolver
  (result.mapError .dispatch, { m with resolver })

/-- Reads from the store. -/
def read (f : Store → α) : Evaluation σ α := fun m =>
  (.ok (f m.store), m)

/-- Changes the store. -/
def update (f : Store → α × Store) : Evaluation σ α := fun m =>
  let (a, store) := f m.store
  (.ok a, { m with store })

/-- A result or an error. -/
def ofResult (result : Except EvalError α) : Evaluation σ α :=
  ExceptT.mk (pure result)

/-- Whether a value holds as a condition. -/
def holds (v : Value) : Evaluation σ Bool :=
  ofResult v.truthy

/-- Binds a name in the frame. -/
def bindName (ctx : Context) (name : String) (value : Value) : Evaluation σ Unit :=
  update fun s => ((), s.bind ctx.frame name value)

end Evaluation

/-- Something that can be read and written. -/
structure Reference (σ : Type) where
  get : Context → Evaluation σ Value
  set : Value → Context → Evaluation σ Unit

/-- What is to be done for a call of a function. -/
abbrev Calling (σ : Type) := Function → List Value → Context → Evaluation σ Value

namespace Code

open Evaluation

variable {σ : Type} (r : Resolver σ)

/-- The value of a name: what it is bound to, or else the resolver's. -/
def valueOf (name : String) (ctx : Context) : Evaluation σ Value := do
  match ← read (·.get? ctx.frame name) with
  | some v => return v
  | none =>
    match ← ask (ExceptT.lift (r.lookup name)) with
    | some v => return v
    | none => throw (.undefinedSymbol name)

/-- Defines a function in the frame, and binds it to its name there. -/
def define (name : String) (params : List String) (body : Code) (ctx : Context) :
    Evaluation σ Value := do
  let id ← update fun s => s.newFunction (.defined body (s.capture ctx.frame))
  let f := .function { id, name, params := some params }
  bindName ctx name f
  return f

/-- The extent of a dimension in the size of a value. -/
def extent (size : Value) (i : Nat) : Value :=
  match size with
  | .array extents => extents.getD i .undefined
  | other => other

/-- The context for a dimension that mentions the size of what is indexed: a frame of its own in
which the extent is bound. The size is asked for once for all dimensions. -/
def sizedContext (owner : Value) (size : Option Value) (i : Nat) (ctx : Context) :
    Evaluation σ (Option Value × Context) := do
  let size ← match size with
    | some size => pure size
    | none => ask (r.call "size" [owner])
  let frame ← update fun s => s.newFrame (some ctx.frame)
  let inner := { ctx with frame }
  bindName inner Expr.endName (extent size i)
  return (some size, inner)

/-- The part of a value that dimensions select, once they are evaluated. -/
def readPart (property : Option String) (dotted : Bool)
    (evaluate : Context → Evaluation σ (List Value)) (owner : Value) (ctx : Context) :
    Evaluation σ Value := do
  match property, owner with
  | some key, .object fields => return (Record.get? key fields).getD .undefined
  | some key, other => if dotted then throw (.notAnObject key other.kind) else subset
  | none, _ => subset
where
  subset : Evaluation σ Value := do
    let dimensions ← evaluate (ctx.holding [owner])
    let index ← ask (r.call "index" dimensions)
    ask (r.call "subset" [owner, index])

/-- A value with the part that dimensions select replaced, once they are evaluated. -/
def writePart (property : Option String) (dotted : Bool)
    (evaluate : Context → Evaluation σ (List Value)) (owner new : Value) (ctx : Context) :
    Evaluation σ Value := do
  match property, owner with
  | some key, .object fields => return .object (Record.set key new fields)
  | some key, other => if dotted then throw (.notAnObject key other.kind) else subset
  | none, _ => subset
where
  subset : Evaluation σ Value := do
    let dimensions ← evaluate (ctx.holding [owner])
    let index ← ask (r.call "index" dimensions)
    ask (r.call "subset" [owner, index, new])

/-- The name that an assignment writes to; it must be bound to be read. -/
def nameReference (name : String) : Reference σ where
  get ctx := do
    match ← read (·.get? ctx.frame name) with
    | some v => return v
    | none => throw (.undefinedSymbol name)
  set v ctx := bindName ctx name v

variable (calling : Calling σ)

mutual

/-- The value of code. -/
def run : Code → Context → Evaluation σ Value
  | .constant result, _ => ofResult (result.mapError .dispatch)
  | .symbol name, ctx => valueOf r name ctx
  | .operation function operands, ctx => do
    let args ← runAll operands ctx
    ask (r.call function args)
  | .lazy function decisive left right, ctx => do
    let a ← run left ctx
    if (← holds a) == decisive then return .bool decisive
    let b ← run right (ctx.holding [a])
    ask (r.call function [a, b])
  | .comparison _ [], _ => return .bool true
  | .comparison functions (first :: rest), ctx => do
    let a ← run first ctx
    runChain functions rest a ctx
  | .conditional condition yes no, ctx => do
    let c ← run condition ctx
    if ← holds c then run yes ctx else run no ctx
  | .block entries, ctx => runEntries entries .undefined ctx
  | .range start stop step, ctx => do
    let a ← run start ctx
    let b ← run stop (ctx.holding [a])
    let c ← runStep step (ctx.holding [a, b])
    ask (r.range a b c)
  | .assignment root selectors value, ctx => do
    let v ← run value ctx
    (runSelectors selectors (runRoot root)).set v (ctx.holding [v])
    return v
  | .definition name params body, ctx => define name params body ctx
  | .call name args, ctx => do
    match ← read (·.get? ctx.frame name) with
    | some (.function f) =>
      let vs ← runAll args (ctx.holding [.function f])
      calling f vs ctx
    | some other => throw (.notAFunction name other.kind)
    | none =>
      let vs ← runAll args ctx
      ask (r.call name vs)
  | .callValue text callee args, ctx => do
    match ← run callee ctx with
    | .function f =>
      let vs ← runAll args (ctx.holding [.function f])
      calling f vs ctx
    | other => throw (.notAFunction text other.kind)
  | .array items, ctx => do
    let vs ← runAll items ctx
    ask (r.array vs)
  | .object properties, ctx => do
    let fields ← runProperties properties ctx
    return .object (Record.ofList fields)
  | .index ⟨_, _, dimensions⟩, ctx => do
    let vs ← runDimensions dimensions none none 0 ctx
    ask (r.call "index" vs)
  | .access owner ⟨property, dotted, dimensions⟩, ctx => do
    let v ← run owner ctx
    readPart r property dotted (runDimensions dimensions (some v) none 0) v ctx

/-- The values of code, one after another. -/
def runAll : List Code → Context → Evaluation σ (List Value)
  | [], _ => return []
  | code :: rest, ctx => do
    let v ← run code ctx
    let vs ← runAll rest (ctx.holding [v])
    return v :: vs

/-- Whether each value compares with the next one, as far as the comparisons hold. -/
def runChain : List String → List Code → Value → Context → Evaluation σ Value
  | function :: functions, code :: rest, left, ctx => do
    let right ← run code (ctx.holding [left])
    let result ← ask (r.call function [left, right])
    if ← holds result then runChain functions rest right ctx else return .bool false
  | _, _, _, _ => return .bool true

/-- The value of the last visible statement, or the given one if there is none. -/
def runEntries : List (Entry Code) → Value → Context → Evaluation σ Value
  | [], v, _ => return v
  | ⟨code, visible⟩ :: entries, v, ctx => do
    let w ← run code (ctx.holding [v])
    runEntries entries (if visible then w else v) ctx

/-- The value of the step of a range; it is the literal `1` if there is none. -/
def runStep : Option Code → Context → Evaluation σ Value
  | none, _ => ask (r.number "1")
  | some code, ctx => run code ctx

/-- The values of properties, one after another. -/
def runProperties : List (String × Code) → Context → Evaluation σ (List (String × Value))
  | [], _ => return []
  | (key, code) :: properties, ctx => do
    let v ← run code ctx
    let fields ← runProperties properties (ctx.holding [v])
    return (key, v) :: fields

/-- The values of the dimensions of an index from the `i`-th on. -/
def runDimensions : List (Dimension Code) → Option Value → Option Value → Nat → Context →
    Evaluation σ (List Value)
  | [], _, _, _, _ => return []
  | ⟨code, sized⟩ :: dimensions, owner, size, i, ctx => do
    let (size, inner) ← match owner, sized with
      | some owner, true => sizedContext r owner size i ctx
      | _, _ => pure (size, ctx)
    let v ← run code inner
    let vs ← runDimensions dimensions owner size (i + 1) (ctx.holding [v])
    return v :: vs

/-- What the selectors of an assignment start from. -/
def runRoot : Root Code → Reference σ
  | .name name => nameReference name
  | .temporary code => { get := fun ctx => run code ctx, set := fun _ _ => return }

/-- What selectors select of a reference. To write to a part, the whole is read, changed, and written
back. -/
def runSelectors : List (Selector Code) → Reference σ → Reference σ
  | [], whole => whole
  | ⟨property, dotted, dimensions⟩ :: selectors, whole =>
    runSelectors selectors {
      get := fun ctx => do
        let owner ← whole.get ctx
        readPart r property dotted (runDimensions dimensions (some owner) none 0) owner ctx
      set := fun new ctx => do
        let owner ← whole.get ctx
        let changed ←
          writePart r property dotted (runDimensions dimensions (some owner) none 0) owner new ctx
        whole.set changed (ctx.holding [changed]) }

end

/-- The frame of a call: a new one below the frame where the function was defined, or below the
caller's if that is gone. -/
def enter (captured : Captured) (ctx : Context) (bindings : List (String × Value)) :
    Evaluation σ Nat :=
  update fun s =>
    let parent := match captured with
      | .frame frame => frame
      | .root frame =>
        if s.isAlive (s.chain ctx.frame ++ ctx.frames) ctx.values frame then frame else ctx.frame
    let (frame, s) := s.newFrame (some parent)
    (frame, s.bindAll frame bindings)

/-- Calls a function, given how its body is run. -/
def callWith (runBody : Code → Context → Evaluation σ Value) : Calling σ := fun f args ctx => do
  match ← read (·.closure? f) with
  | none => throw (.undefinedSymbol f.name)
  | some (.host rule) => ofResult (rule args)
  | some (.defined body captured) =>
    let params := f.params.getD []
    if args.length ≠ params.length then
      throw (.wrongArgumentCount f.name params.length args.length)
    let ctx := ctx.holding (.function f :: args)
    let frame ← enter captured ctx (params.zip args)
    runBody body { ctx with frame, frames := ctx.frame :: ctx.frames }

/-- Calls a function whose calls nest no deeper than told. -/
def callWithin : Nat → Calling σ
  | 0 => callWith fun _ _ => throw .tooDeep
  | depth + 1 => callWith fun body ctx => body.run r (callWithin depth) ctx

/-- How deep calls may nest. -/
def depthLimit : Nat := 1000000

/-- The value of code. -/
def evaluate (code : Code) (ctx : Context) : Evaluation σ Value :=
  code.run r (callWithin r depthLimit) ctx

end Code

/-- Calls a function. -/
def Function.call {σ : Type} (r : Resolver σ) (f : Function) (args : List Value) (ctx : Context) :
    Evaluation σ Value :=
  Code.callWithin r Code.depthLimit f args ctx

end Formula
