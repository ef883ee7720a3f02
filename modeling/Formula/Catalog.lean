import Formula.Resolver

/-!
Catalogs of operations.

An operation has signatures in the order in which they were defined, and a call is answered by the
first one whose parameters accept the arguments (`Catalog.call`). A signature's rule is typed by its
parameters: it gets numbers where it asks for numbers, so no rule can meet an argument that it is not
made for.
-/

namespace Formula

/-- What a parameter accepts. -/
inductive Param where
  | any
  /-- Values of one kind. -/
  | of (kind : ValueKind)
deriving DecidableEq, Repr

namespace Param

/-- What a value of a kind consists of. -/
abbrev Content : ValueKind → Type
  | .undefined | .null => Unit
  | .boolean => Bool
  | .number => Float
  | .string => String
  | .array | .index => List Value
  | .object => List (String × Value)
  | .function => Function
  | .custom => Custom

/-- What a rule gets for an argument. -/
abbrev Carrier : Param → Type
  | .any => Value
  | .of kind => Content kind

/-- What a value of the given kind consists of. -/
def content? : (kind : ValueKind) → Value → Option (Content kind)
  | .undefined, .undefined => some ()
  | .null, .null => some ()
  | .boolean, .bool b => some b
  | .number, .number x => some x
  | .string, .string s => some s
  | .array, .array items => some items
  | .object, .object fields => some fields
  | .index, .index dimensions => some dimensions
  | .function, .function f => some f
  | .custom, .custom c => some c
  | _, _ => none

/-- What a rule gets for a value, if the parameter accepts it. -/
def take? : (p : Param) → Value → Option p.Carrier
  | .any, v => some v
  | .of kind, v => content? kind v

/-- Whether a parameter accepts a value. -/
def accepts : Param → Value → Bool
  | .any, _ => true
  | .of kind, v => v.kind == kind

@[simp] theorem isSome_content? (kind : ValueKind) (v : Value) :
    (content? kind v).isSome = (v.kind == kind) := by
  cases kind <;> cases v <;> rfl

@[simp] theorem isSome_take? (p : Param) (v : Value) : (p.take? v).isSome = p.accepts v := by
  cases p with
  | any => rfl
  | of => exact isSome_content? ..

end Param

/-- Rules that take what the parameters accept, one after another, to a `β`. -/
abbrev RuleOn : List Param → Type → Type
  | [], β => β
  | p :: ps, β => p.Carrier → RuleOn ps β

namespace RuleOn

/-- The result of a rule, if each parameter accepts its argument, and the arguments that are left. -/
def feed? {β : Type} : (ps : List Param) → RuleOn ps β → List Value → Option (β × List Value)
  | [], result, args => some (result, args)
  | _ :: _, _, [] => none
  | p :: ps, rule, v :: args => (p.take? v).bind fun a => feed? ps (rule a) args

/-- The rule that has one result for all arguments. -/
def constant {β : Type} (result : β) : (ps : List Param) → RuleOn ps β
  | [] => result
  | _ :: ps => fun _ => constant result ps

end RuleOn

/-- How an operation is done on arguments of certain kinds. -/
inductive Signature where
  /-- One argument for each parameter. -/
  | fixed (params : List Param) (rule : RuleOn params (Except DispatchError Value))
  /-- One argument for each parameter, and then at least one that the last parameter accepts. -/
  | variadic (params : List Param) (last : Param)
      (rule : RuleOn params (last.Carrier → List last.Carrier → Except DispatchError Value))
  /-- Any arguments. -/
  | anything (rule : List Value → Except DispatchError Value)

namespace Signature

/-- The signature that has one result for all arguments that it accepts. If the last parameter may
repeat and there is none, it accepts everything. -/
def constant (result : Value) (params : List Param) (repeats : Bool) : Signature :=
  match repeats, params.getLast? with
  | false, _ => .fixed params (RuleOn.constant (.ok result) params)
  | true, some last =>
    .variadic params.dropLast last (RuleOn.constant (fun _ _ => .ok result) params.dropLast)
  | true, none => .anything fun _ => .ok result

/-- The answer of a signature, if it accepts the arguments. -/
def answer? : Signature → List Value → Option (Except DispatchError Value)
  | .fixed params rule, args =>
    match RuleOn.feed? params rule args with
    | some (result, []) => some result
    | _ => none
  | .variadic params last rule, args =>
    match RuleOn.feed? params rule args with
    | some (rule, more) =>
      match more.mapM last.take? with
      | some (a :: as) => some (rule a as)
      | _ => none
    | none => none
  | .anything rule, args => some (rule args)

end Signature

/-- A table of operations and constants. -/
structure Catalog where
  operations : Record (List Signature) := []
  constants : Record Value := []

namespace Catalog

/-- Adds a signature to those of an operation. -/
def define (c : Catalog) (name : String) (signature : Signature) : Catalog :=
  { c with operations := c.operations.set name ((c.operations.get? name).getD [] ++ [signature]) }

/-- Gives a constant its value. -/
def defineConstant (c : Catalog) (name : String) (value : Value) : Catalog :=
  { c with constants := c.constants.set name value }

/-- Whether an operation is defined. -/
def has (c : Catalog) (name : String) : Bool :=
  (c.operations.get? name).isSome

/-- The names of the operations, sorted. -/
def names (c : Catalog) : List String :=
  c.operations.keys.mergeSort fun a b => decide (a ≤ b)

/-- The value of a constant. -/
def lookup (c : Catalog) (name : String) : Option Value :=
  c.constants.get? name

/-- The result of an operation, by its first signature that accepts the arguments. -/
def call (c : Catalog) (name : String) (args : List Value) : Except DispatchError Value :=
  match c.operations.get? name with
  | none => .error (.unknownOperation name)
  | some signatures =>
    match signatures.findSome? (·.answer? args) with
    | none => .error (.noMatchingSignature name (args.map Value.kind))
    | some answer => answer

/-- The resolver that looks everything up in a catalog. -/
def resolver (c : Catalog) : Resolver Unit where
  call name args := ExceptT.mk (pure (c.call name args))
  lookup name := pure (c.lookup name)

end Catalog

end Formula
