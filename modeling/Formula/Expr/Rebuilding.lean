import Formula.Expr.Children

/-!
Putting a node together anew from what becomes of its children.

The children are taken one after another, in the order of their slots, and each is handed over with
its path. What is done with them may have effects: a state that is carried from one child to the next,
or an error that ends it all.
-/

namespace Formula.Expr

variable {m : Type → Type} [Monad m]

/-- A list of children with something else in the place of each. -/
def mapItems (slot : String) (es : List Expr)
    (f : (path : String) → (child : Expr) → sizeOf child < sizeOf es → m Expr) : m (List Expr) :=
  (itemChildren slot es).attach.mapM fun ⟨p, hp⟩ =>
    f p.1 p.2 (sizeOf_lt_of_mem (mem_of_mem_itemChildren hp))

/-- A node with something else in the place of each child. -/
def mapChildren : (e : Expr) →
    ((path : String) → (child : Expr) → sizeOf child < sizeOf e → m Expr) → m Expr
  | .constant value kind, _ => return .constant value kind
  | .symbol name, _ => return .symbol name
  | .operation spelling function operands juxtaposed, f => do
    let operands ← mapItems "args" operands fun path child h => f path child (by grind)
    return .operation spelling function operands juxtaposed
  | .call callee args, f => do
    let callee ← f "fn" callee (by grind)
    let args ← mapItems "args" args fun path child h => f path child (by grind)
    return .call callee args
  | .range start stop step, f => do
    let start ← f "start" start (by grind)
    let stop ← f "end" stop (by grind)
    let step ← step.attach.mapM fun ⟨step, h⟩ => f "step" step (by grind)
    return .range start stop step
  | .conditional condition yes no, f => do
    let condition ← f "condition" condition (by grind)
    let yes ← f "trueExpr" yes (by grind)
    let no ← f "falseExpr" no (by grind)
    return .conditional condition yes no
  | .assignment target part value, f => do
    let target ← f "object" target (by grind)
    let part ← part.attach.mapM fun ⟨part, h⟩ => f "index" part (by grind)
    let value ← f "value" value (by grind)
    return .assignment target part value
  | .definition name params body, f => do
    let body ← f "expr" body (by grind)
    return .definition name params body
  | .block entries, f => do
    let entries ← entries.attach.zipIdx.mapM fun ⟨⟨entry, h⟩, i⟩ => do
      let body ← f (entryPath i) entry.body (by grind)
      return { entry with body }
    return .block entries
  | .array items, f => do
    let items ← mapItems "items" items fun path child h => f path child (by grind)
    return .array items
  | .object properties, f => do
    let properties ← properties.attach.mapM fun ⟨(key, value), h⟩ => do
      let value ← f (propertyPath key) value (by have := sizeOf_snd_lt_of_mem h; grind)
      return (key, value)
    return .object properties
  | .parenthesis content, f => do
    let content ← f "content" content (by grind)
    return .parenthesis content
  | .index dimensions dotted, f => do
    let dimensions ← mapItems "dimensions" dimensions fun path child h => f path child (by grind)
    return .index dimensions dotted
  | .access target part, f => do
    let target ← f "object" target (by grind)
    let part ← f "index" part (by grind)
    return .access target part
  | .comparison functions operands, f => do
    let operands ← mapItems "params" operands fun path child h => f path child (by grind)
    return .comparison functions operands

end Formula.Expr
