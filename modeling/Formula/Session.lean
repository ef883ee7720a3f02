import Formula.Code.Compile
import Formula.Evaluation
import Formula.Grammar

/-!
Sessions: source texts that are evaluated one after another in the same frame.
-/

namespace Formula

/-- Why a source text has no value. -/
inductive Failure where
  /-- It is no expression. -/
  | source (error : SyntaxError)
  /-- Its tree makes no sense. -/
  | shape (error : ShapeError)
  /-- Its evaluation failed. -/
  | evaluation (error : EvalError)

/-- Compiles an expression with the state of a machine's resolver. -/
def Machine.compile {σ : Type} (r : Resolver σ) (e : Expr) (m : Machine σ) :
    Except ShapeError Code × Machine σ :=
  let (result, resolver) := (e.compile r).run m.resolver
  (result, { m with resolver })

/-- Compiles and evaluates an expression. -/
def Machine.evaluate {σ : Type} (r : Resolver σ) (e : Expr) (ctx : Context) (m : Machine σ) :
    Except Failure Value × Machine σ :=
  match m.compile r e with
  | (.error error, m) => (.error (.shape error), m)
  | (.ok code, m) =>
    let (result, m) := (code.evaluate r ctx).run m
    (result.mapError .evaluation, m)

/-- Reads, compiles and evaluates a source text. -/
def Machine.evaluateText {σ : Type} (r : Resolver σ) (source : String) (ctx : Context)
    (m : Machine σ) : Except Failure Value × Machine σ :=
  match Expr.parse source with
  | .error error => (.error (.source error), m)
  | .ok e => m.evaluate r e ctx

/-- A frame without parent, and the machine that works in it. -/
structure Session (σ : Type) where
  machine : Machine σ
  frame : Nat

namespace Session

variable {σ : Type}

/-- A session in a new frame of a store. -/
def start (store : Store) (resolver : σ) : Session σ :=
  let (frame, store) := store.newFrame none
  { machine := { store, resolver }, frame }

/-- The context of the session's evaluations. -/
def context (s : Session σ) : Context :=
  { frame := s.frame }

/-- The bindings, in order. -/
def bindings (s : Session σ) : Record Value :=
  s.machine.store.bindings s.frame

/-- The names that are bound, in order. -/
def names (s : Session σ) : List String :=
  s.machine.store.names s.frame

/-- The value of a name. -/
def get (s : Session σ) (name : String) : Except EvalError Value :=
  match s.machine.store.get? s.frame name with
  | some v => .ok v
  | none => .error (.undefinedSymbol name)

/-- Whether a name is bound. -/
def has (s : Session σ) (name : String) : Bool :=
  s.machine.store.has s.frame name

/-- Changes the store. -/
def modify (change : Store → Store) (s : Session σ) : Session σ :=
  { s with machine := { s.machine with store := change s.machine.store } }

/-- Binds a name. -/
def set (name : String) (value : Value) (s : Session σ) : Session σ :=
  s.modify (·.bind s.frame name value)

/-- Binds names, one after another. -/
def setAll (bindings : List (String × Value)) (s : Session σ) : Session σ :=
  s.modify (·.bindAll s.frame bindings)

/-- Unbinds a name, and tells what it was bound to. -/
def remove (name : String) (s : Session σ) : Option Value × Session σ :=
  (s.machine.store.own? s.frame name, s.modify (·.unbind s.frame name))

/-- Unbinds all names. -/
def clear (s : Session σ) : Session σ :=
  s.modify (·.clear s.frame)

/-- Evaluates a source text. -/
def eval (r : Resolver σ) (source : String) (s : Session σ) : Except Failure Value × Session σ :=
  let (result, machine) := s.machine.evaluateText r source s.context
  (result, { s with machine })

/-- Evaluates code. -/
def run (r : Resolver σ) (code : Code) (s : Session σ) : Except EvalError Value × Session σ :=
  let (result, machine) := (code.evaluate r s.context).run s.machine
  (result, { s with machine })

end Session

end Formula
