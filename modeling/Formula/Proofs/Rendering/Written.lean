import Formula.Proofs.Rendering.Bare
import Formula.Rendering.Plain

/-!
The parentheses that are written, as parentheses of a tree.

The text of an expression is that of `Expr.written`, where each part that is written in parentheses
stands in parentheses. Apart from parentheses, this is the expression itself (`bare_written`).
-/

namespace Formula.Expr

open Rendering

/-- An expression, in parentheses if it needs them. -/
def enclosed (wrap : Bool) (e : Expr) : Expr :=
  if wrap then .parenthesis e else e

/-- Whether a callee is written in parentheses. -/
def wrapsCallee (callee : Expr) : Bool :=
  match callee.form with
  | .symbol | .access | .call | .parenthesis => false
  | _ => true

/-- Whether a condition is written in parentheses. -/
def wrapsCondition (p : Parentheses) (condition : Expr) : Bool :=
  condition.form = .operation ∨ wrapsAt p Precedence.conditional condition

mutual

/-- An expression with the parentheses that are written around its parts. -/
def written (style : Style) : Expr → Expr
  | .constant value kind => .constant value kind
  | .symbol name => .symbol name
  | .operation spelling function operands juxtaposed =>
    .operation spelling function
      (List.zipWith enclosed (wrappedOperands style false
          (.operation spelling function operands juxtaposed) operands juxtaposed)
        (writtenAll style operands))
      (juxtaposed && style.juxtaposition = .hide)
  | .call callee args =>
    .call (enclosed callee.wrapsCallee (callee.written style)) (writtenAll style args)
  | .range start stop step =>
    .range (enclosed (wrapsAt style.parentheses Precedence.range start) (start.written style))
      (enclosed (wrapsAt style.parentheses Precedence.range stop) (stop.written style))
      (writtenStep style step)
  | .conditional condition yes no =>
    .conditional
      (enclosed (wrapsCondition style.parentheses condition) (condition.written style))
      (enclosed (wrapsAt style.parentheses Precedence.conditional yes) (yes.written style))
      (enclosed (wrapsAt style.parentheses Precedence.conditional no) (no.written style))
  | .assignment target part value =>
    .assignment (target.written style) (writtenPart style part)
      (enclosed (wrapsAt style.parentheses Precedence.assignment value) (value.written style))
  | .definition name params body =>
    .definition name params
      (enclosed (wrapsAt style.parentheses Precedence.assignment body) (body.written style))
  | .block entries => .block (writtenEntries style entries)
  | .array items => .array (writtenAll style items)
  | .object properties => .object (writtenProperties style properties)
  | .parenthesis e => enclosed (style.parentheses = .keep) (e.written style)
  | .index dimensions dotted => .index (writtenAll style dimensions) dotted
  | .access owner part => .access (enclosed (wrapsAccessed owner) (owner.written style)) (part.written style)
  | .comparison functions operands =>
    .comparison functions (writtenOperands style operands)

/-- Expressions with the parentheses that are written around their parts. -/
def writtenAll (style : Style) : List Expr → List Expr
  | [] => []
  | e :: es => e.written style :: writtenAll style es

/-- The step of a range, as it is written. -/
def writtenStep (style : Style) : Option Expr → Option Expr
  | none => none
  | some step =>
    some (enclosed (wrapsAt style.parentheses Precedence.range step) (step.written style))

/-- The part that is assigned to, as it is written. -/
def writtenPart (style : Style) : Option Expr → Option Expr
  | none => none
  | some part => some (part.written style)

/-- Operands of comparisons, as they are written. -/
def writtenOperands (style : Style) : List Expr → List Expr
  | [] => []
  | e :: es =>
    enclosed (wrapsAt style.parentheses Precedence.relational e) (e.written style)
      :: writtenOperands style es

/-- Statements, as they are written. -/
def writtenEntries (style : Style) : List (Entry Expr) → List (Entry Expr)
  | [] => []
  | ⟨e, visible⟩ :: entries => ⟨e.written style, visible⟩ :: writtenEntries style entries

/-- Properties, as they are written. -/
def writtenProperties (style : Style) : List (String × Expr) → List (String × Expr)
  | [] => []
  | (key, e) :: properties => (key, e.written style) :: writtenProperties style properties

end

/-! ### Parts that are written one by one -/

section

variable {style : Style}

theorem writtenAll_eq (es : List Expr) : writtenAll style es = es.map (written style) := by
  induction es with
  | nil => rfl
  | cons e es ih => rw [writtenAll, ih, List.map_cons]

theorem writtenOperands_eq (es : List Expr) : writtenOperands style es = es.map fun e =>
    enclosed (wrapsAt style.parentheses Precedence.relational e) (e.written style) := by
  induction es with
  | nil => rfl
  | cons e es ih => rw [writtenOperands, ih, List.map_cons]

theorem writtenProperties_eq (properties : List (String × Expr)) :
    writtenProperties style properties = properties.map fun p => (p.1, p.2.written style) := by
  induction properties with
  | nil => rfl
  | cons p properties ih => rw [writtenProperties, ih, List.map_cons]

theorem writtenEntries_eq (entries : List (Entry Expr)) : writtenEntries style entries
    = entries.map fun entry => { entry with body := entry.body.written style } := by
  induction entries with
  | nil => rfl
  | cons entry entries ih => rw [writtenEntries, ih, List.map_cons]

end

theorem length_wrappedOperands (style : Style) (typeset : Bool) (root : Expr) (operands : List Expr)
    (juxtaposed : Bool) :
    (wrappedOperands style typeset root operands juxtaposed).length = operands.length := by
  have hloose : (looseOperands style.parentheses typeset root operands).length = operands.length := by
    unfold looseOperands
    split
    · rfl
    · rfl
    · rw [List.length_map]
  unfold wrappedOperands
  dsimp only
  split
  · rw [List.length_map]
  · split
    · rw [List.length_zipWith, hloose, Nat.min_self]
    · exact hloose

/-! ### What is written apart from parentheses -/

theorem bare_enclosed (wrap : Bool) (e : Expr) : (enclosed wrap e).bare = e.bare := by
  cases wrap <;> rfl

theorem bareAll_enclosed {wraps : List Bool} {es : List Expr} (h : wraps.length = es.length) :
    bareAll (List.zipWith enclosed wraps es) = bareAll es := by
  induction wraps generalizing es with
  | nil =>
      cases es with
      | nil => rfl
      | cons => cases h
  | cons wrap wraps ih =>
      cases es with
      | nil => cases h
      | cons e es => rw [List.zipWith_cons_cons, bareAll, bareAll, bare_enclosed, ih (Nat.succ.inj h)]

section

variable {style : Style}

mutual

/-- Apart from parentheses, an expression is written as it is. -/
theorem bare_written (hide : style.juxtaposition = .hide) : ∀ e : Expr, (e.written style).bare = e.bare
  | .constant .. | .symbol _ => rfl
  | .operation spelling function operands juxtaposed => by
      rw [written, bare, bare, bareAll_enclosed, bareAll_written hide operands, hide]
      · simp
      · rw [length_wrappedOperands, writtenAll_eq, List.length_map]
  | .call callee args => by
      rw [written, bare, bare, bare_enclosed, bare_written hide callee, bareAll_written hide args]
  | .range start stop step => by
      rw [written, bare, bare, bare_enclosed, bare_enclosed, bare_written hide start, bare_written hide stop,
        bareOption_writtenStep hide step]
  | .conditional condition yes no => by
      rw [written, bare, bare, bare_enclosed, bare_enclosed, bare_enclosed, bare_written hide condition,
        bare_written hide yes, bare_written hide no]
  | .assignment target part value => by
      rw [written, bare, bare, bare_enclosed, bare_written hide target, bareOption_writtenPart hide part,
        bare_written hide value]
  | .definition name params body => by
      rw [written, bare, bare, bare_enclosed, bare_written hide body]
  | .block entries => by
      rw [written, bare, bare, bareEntries_written hide entries]
  | .array items => by
      rw [written, bare, bare, bareAll_written hide items]
  | .object properties => by
      rw [written, bare, bare, bareProperties_written hide properties]
  | .parenthesis e => by
      rw [written, bare, bare_enclosed, bare_written hide e]
  | .index dimensions dotted => by
      rw [written, bare, bare, bareAll_written hide dimensions]
  | .access owner part => by
      rw [written, bare, bare, bare_enclosed, bare_written hide owner, bare_written hide part]
  | .comparison functions operands => by
      rw [written, bare, bare, bareAll_writtenOperands hide operands]

theorem bareAll_written (hide : style.juxtaposition = .hide) : ∀ es : List Expr, bareAll (writtenAll style es) = bareAll es
  | [] => rfl
  | e :: es => by rw [writtenAll, bareAll, bareAll, bare_written hide e, bareAll_written hide es]

theorem bareOption_writtenStep (hide : style.juxtaposition = .hide) : ∀ step : Option Expr, bareOption (writtenStep style step) = bareOption step
  | none => rfl
  | some e => by rw [writtenStep, bareOption, bareOption, bare_enclosed, bare_written hide e]

theorem bareOption_writtenPart (hide : style.juxtaposition = .hide) : ∀ part : Option Expr, bareOption (writtenPart style part) = bareOption part
  | none => rfl
  | some e => by rw [writtenPart, bareOption, bareOption, bare_written hide e]

theorem bareAll_writtenOperands (hide : style.juxtaposition = .hide) : ∀ es : List Expr, bareAll (writtenOperands style es) = bareAll es
  | [] => rfl
  | e :: es => by
      rw [writtenOperands, bareAll, bareAll, bare_enclosed, bare_written hide e, bareAll_writtenOperands hide es]

theorem bareEntries_written (hide : style.juxtaposition = .hide) : ∀ entries : List (Entry Expr),
    bareEntries (writtenEntries style entries) = bareEntries entries
  | [] => rfl
  | ⟨e, visible⟩ :: entries => by
      rw [writtenEntries, bareEntries, bareEntries, bare_written hide e, bareEntries_written hide entries]

theorem bareProperties_written (hide : style.juxtaposition = .hide) : ∀ properties : List (String × Expr),
    bareProperties (writtenProperties style properties) = bareProperties properties
  | [] => rfl
  | (key, e) :: properties => by
      rw [writtenProperties, bareProperties, bareProperties, bare_written hide e,
        bareProperties_written hide properties]

end

end

end Formula.Expr
