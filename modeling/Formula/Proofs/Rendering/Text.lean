import Mathlib.Data.List.Forall2
import Formula.Proofs.Grammar.Telling
import Formula.Proofs.Nodes
import Formula.Proofs.Rendering.Written

/-!
The text of an expression tells the expression as it is written.

The text also tells what is read part by part (`Partwise`): an operation may be read as any other that its
tokens spell, and every other node from what its parts are read as.
-/

namespace Formula.Expr

open Grammar Rendering

/-- A text tells an expression, wherever it is not nested too deeply. -/
def ToldBy (text : String) (e : Expr) : Prop :=
  ∀ n d, d + e.nesting < maxDepth → Tells n d text e

theorem ToldBy.enclose {text : String} {e : Expr} (h : ToldBy text e) (wrap : Bool) :
    ToldBy (enclose wrap text) (enclosed wrap e) := by
  cases wrap with
  | false => exact h
  | true =>
      intro n d fits
      rw [enclosed, if_pos rfl, nesting] at fits
      exact tells_parenthesis (by omega) (h (n + 1) (d + 1) (by omega))

section

variable {style : Style}

theorem forall₂_tells {es : List Expr} {text : Expr → String} {write : Expr → Expr} {n d : Nat}
    (h : ∀ e ∈ es, ToldBy (text e) (write e)) (fits : d + nestingInside (es.map write) < maxDepth) :
    List.Forall₂ (Tells (n + 1) (d + 1)) (es.map text) (es.map write) := by
  rw [List.forall₂_map_left_iff, List.forall₂_map_right_iff, List.forall₂_same]
  intro e he
  have := nesting_lt_of_mem (List.mem_map_of_mem (f := write) he)
  exact h e he _ _ (by omega)

/-! ### Operations -/

/-- An operand is written in parentheses or not. -/
theorem exists_wrappedOperand (style : Style) (root e : Expr) (juxtaposed : Bool) : ∃ wrap,
    wrappedOperands style false root [e] juxtaposed = [wrap] := by
  exact List.length_eq_one_iff.1 (length_wrappedOperands style false root [e] juxtaposed)

theorem exists_wrappedOperands (style : Style) (root left right : Expr) (juxtaposed : Bool) :
    ∃ wrap wrap',
    wrappedOperands style false root [left, right] juxtaposed = [wrap, wrap'] := by
  exact List.length_eq_two.1 (length_wrappedOperands style false root [left, right] juxtaposed)

theorem written_one {spelling function : String} {e : Expr} {juxtaposed : Bool} {wrap : Bool}
    (hwrap : wrappedOperands style false (.operation spelling function [e] juxtaposed) [e] juxtaposed
      = [wrap]) :
    (Expr.operation spelling function [e] juxtaposed).written style
      = .operation spelling function [enclosed wrap (e.written style)]
        (juxtaposed && style.juxtaposition = .hide) := by
  rw [written, hwrap, writtenAll, writtenAll, List.zipWith_cons_cons, List.zipWith_nil_left]

theorem written_two {spelling function : String} {left right : Expr} {juxtaposed : Bool}
    {wrap wrap' : Bool} (hwrap : wrappedOperands style false
      (.operation spelling function [left, right] juxtaposed) [left, right] juxtaposed = [wrap, wrap']) :
    (Expr.operation spelling function [left, right] juxtaposed).written style
      = .operation spelling function
        [enclosed wrap (left.written style), enclosed wrap' (right.written style)]
        (juxtaposed && style.juxtaposition = .hide) := by
  rw [written, hwrap, writtenAll, writtenAll, writtenAll, List.zipWith_cons_cons,
    List.zipWith_cons_cons, List.zipWith_nil_left]

/-! ### Reading part by part -/

/-- A way to read texts in a style part by part: each part is read as it is on its own, in the parentheses
that are written around it, and an operation as something that its text tells. -/
structure Partwise (style : Style) (read : Expr → Expr) : Prop where
  constant : ∀ value kind, read (.constant value kind) = .constant value kind
  symbol : ∀ name, read (.symbol name) = .symbol name
  operation : ∀ {spelling function : String} {operands : List Expr} {juxtaposed : Bool} {text : String},
    ToldBy text (.operation spelling function
        (List.zipWith enclosed (wrappedOperands style false
            (.operation spelling function operands juxtaposed) operands juxtaposed)
          (operands.map read))
        (juxtaposed && style.juxtaposition = .hide)) →
      ToldBy text (read (.operation spelling function operands juxtaposed))
  call : ∀ callee args,
    read (.call callee args) = .call (enclosed callee.wrapsCallee (read callee)) (args.map read)
  range : ∀ start stop step, read (.range start stop step) =
    .range (enclosed (wrapsAt style.parentheses Precedence.range start) (read start))
      (enclosed (wrapsAt style.parentheses Precedence.range stop) (read stop))
      (step.map fun step => enclosed (wrapsAt style.parentheses Precedence.range step) (read step))
  conditional : ∀ condition yes no, read (.conditional condition yes no) =
    .conditional (enclosed (wrapsCondition style.parentheses condition) (read condition))
      (enclosed (wrapsAt style.parentheses Precedence.conditional yes) (read yes))
      (enclosed (wrapsAt style.parentheses Precedence.conditional no) (read no))
  assignment : ∀ target part value, read (.assignment target part value) =
    .assignment (read target) (part.map read)
      (enclosed (wrapsAt style.parentheses Precedence.assignment value) (read value))
  definition : ∀ name params body, read (.definition name params body) =
    .definition name params (enclosed (wrapsAt style.parentheses Precedence.assignment body) (read body))
  array : ∀ items, read (.array items) = .array (items.map read)
  object : ∀ properties, read (.object properties) = .object (properties.map fun p => (p.1, read p.2))
  parenthesis : ∀ e, read (.parenthesis e) = enclosed (style.parentheses = .keep) (read e)
  index : ∀ dimensions dotted, read (.index dimensions dotted) = .index (dimensions.map read) dotted
  access : ∀ owner part,
    read (.access owner part) = .access (enclosed (wrapsAccessed owner) (read owner)) (read part)
  comparison : ∀ functions operands, read (.comparison functions operands) = .comparison functions
    (operands.map fun e => enclosed (wrapsAt style.parentheses Precedence.relational e) (read e))

/-- What is written is read part by part. -/
theorem partwise_written (style : Style) : Partwise style (written style) where
  constant _ _ := rfl
  symbol _ := rfl
  operation h := by rwa [written, writtenAll_eq]
  call _ _ := by rw [written, writtenAll_eq]
  range _ _ step := by cases step <;> rfl
  conditional _ _ _ := rfl
  assignment _ part _ := by cases part <;> rfl
  definition _ _ _ := rfl
  array _ := by rw [written, writtenAll_eq]
  object _ := by rw [written, writtenProperties_eq]
  parenthesis _ := rfl
  index _ _ := by rw [written, writtenAll_eq]
  access _ _ := rfl
  comparison _ _ := by rw [written, writtenOperands_eq]

section

variable {read : Expr → Expr} (partwise : Partwise style read)
include partwise

theorem Partwise.one {spelling function text : String} {e : Expr} {juxtaposed wrap : Bool}
    (hwrap : wrappedOperands style false (.operation spelling function [e] juxtaposed) [e] juxtaposed
      = [wrap])
    (h : ToldBy text (.operation spelling function [enclosed wrap (read e)]
      (juxtaposed && style.juxtaposition = .hide))) :
    ToldBy text (read (.operation spelling function [e] juxtaposed)) := by
  refine partwise.operation ?_
  rwa [hwrap]

theorem Partwise.two {spelling function text : String} {left right : Expr} {juxtaposed wrap wrap' : Bool}
    (hwrap : wrappedOperands style false (.operation spelling function [left, right] juxtaposed)
      [left, right] juxtaposed = [wrap, wrap'])
    (h : ToldBy text (.operation spelling function
      [enclosed wrap (read left), enclosed wrap' (read right)]
      (juxtaposed && style.juxtaposition = .hide))) :
    ToldBy text (read (.operation spelling function [left, right] juxtaposed)) := by
  refine partwise.operation ?_
  rwa [hwrap]

theorem Partwise.ofName (name : String) : read (ofName name) = Grammar.ofName name := by
  unfold Grammar.ofName
  repeat' split
  · exact partwise.constant "true" .boolean
  · exact partwise.constant "false" .boolean
  · exact partwise.constant "null" .null
  · exact partwise.constant "undefined" .undefined
  · exact partwise.constant name .number
  · exact partwise.symbol name

/-- What can be called is read as something that can be called. -/
theorem Partwise.callee {callee : Expr} (callable : callee.form = .symbol ∨ callee.form = .access) :
    callee.wrapsCallee = false ∧ ((read callee).form = .symbol ∨ (read callee).form = .access) := by
  cases callee with
  | symbol name => exact ⟨rfl, .inl (by rw [partwise.symbol]; rfl)⟩
  | access owner part => exact ⟨rfl, .inr (by rw [partwise.access]; rfl)⟩
  | _ => rcases callable with h | h <;> cases h

theorem Partwise.checkTarget {owner : Expr} (h : checkTarget owner = .ok ()) :
    checkTarget (read owner) = .ok () ∧ wrapsAccessed owner = false ∧
      (read owner).takesPoint = true := by
  cases owner with
  | symbol name =>
      rw [partwise.symbol]
      exact ⟨h, rfl, rfl⟩
  | access owner part =>
      rw [partwise.access]
      exact ⟨rfl, rfl, rfl⟩
  | _ => cases h

theorem Partwise.checkIndex {part : Expr} (h : checkIndex .assignment part = .ok ()) :
    checkIndex .assignment (read part) = .ok () := by
  cases part with
  | index dimensions dotted =>
      rw [partwise.index]
      rfl
  | _ => cases h

/-- An assignment is read as the assignment of what is read. -/
theorem Partwise.assign {target value e : Expr} (he : assign target value = .ok e) :
    assign (read target) (enclosed (wrapsAt style.parentheses Precedence.assignment value)
      (read value)) = .ok (read e) := by
  obtain ⟨name, rfl, hcheck, rfl⟩ | ⟨owner, part, rfl, howner, hpart, rfl⟩ |
    ⟨name, params, rfl, hcheck, rfl⟩ := assign_eq_ok_iff.1 he
  · rw [partwise.assignment, partwise.symbol]
    exact assign_eq_ok_iff.2 (.inl ⟨name, rfl, hcheck, rfl⟩)
  · obtain ⟨howner', hwrap, _⟩ := partwise.checkTarget howner
    rw [partwise.assignment, partwise.access, hwrap]
    exact assign_eq_ok_iff.2 (.inr (.inl ⟨_, _, rfl, howner', partwise.checkIndex hpart, rfl⟩))
  · have hparams : (params.map Expr.symbol).map read = params.map .symbol := by
      rw [List.map_map]
      exact List.map_congr_left fun name _ => partwise.symbol name
    rw [partwise.definition, partwise.call, partwise.symbol, hparams]
    exact assign_eq_ok_iff.2 (.inr (.inr ⟨name, params, rfl, hcheck, rfl⟩))

end

theorem written_ofName (name : String) : (ofName name).written style = ofName name :=
  (partwise_written style).ofName name

theorem enclosed_callee (style : Style) {callee : Expr} (callable : callee.form = .symbol ∨ callee.form = .access) :
    callee.wrapsCallee = false ∧ ((callee.written style).form = .symbol ∨
      (callee.written style).form = .access) :=
  (partwise_written style).callee callable

theorem checkTarget_written (style : Style) {owner : Expr} (h : checkTarget owner = .ok ()) :
    checkTarget (owner.written style) = .ok () ∧ wrapsAccessed owner = false ∧
      (owner.written style).takesPoint = true :=
  (partwise_written style).checkTarget h

/-- What is written of an assignment is the assignment of what is written. -/
theorem assign_written {target value e : Expr} (he : assign target value = .ok e) :
    assign (target.written style) (enclosed (wrapsAt style.parentheses Precedence.assignment value)
      (value.written style)) = .ok (e.written style) :=
  (partwise_written style).assign he

theorem nestingInside_symbols (names : List String) :
    nestingInside (names.map .symbol) = if names.isEmpty then 0 else 1 := by
  induction names with
  | nil => rfl
  | cons name names ih =>
      rw [List.map_cons, nestingInside, nesting, ih]
      split <;> rfl

theorem nesting_assigned {target value e : Expr} (he : assign target value = .ok e) {d k : Nat}
    (h : d + e.nesting < k) : d + target.nesting < k ∧ d + value.nesting < k := by
  obtain ⟨name, rfl, rfl⟩ | ⟨owner, part, rfl, rfl⟩ | ⟨name, params, rfl, rfl⟩ := assign_eq_ok he
  · rw [nesting] at h
    omega
  · rw [nesting, nestingOption] at h
    rw [nesting]
    omega
  · rw [nesting] at h
    rw [nesting, nesting, nestingInside_symbols]
    omega

theorem everywhere_assigned {P : Expr → Prop} (names : ∀ name, P (.symbol name))
    (targets : ∀ {target value e}, assign target value = .ok e → P target) {target value e : Expr}
    (he : assign target value = .ok e) (h : e.Everywhere P) :
    target.Everywhere P ∧ value.Everywhere P := by
  have leaf : ∀ name, (Expr.symbol name).Everywhere P :=
    fun name => .node (names name) (by simp [children])
  have here := targets he
  obtain ⟨name, rfl, rfl⟩ | ⟨owner, part, rfl, rfl⟩ | ⟨name, params, rfl, rfl⟩ := assign_eq_ok he
  · exact ⟨leaf name, h.child _ (by simp [children])⟩
  · refine ⟨.node here fun e' he' => h.child e' ?_, h.child _ (by simp [children])⟩
    simp only [children, List.map_cons, List.map_nil, List.mem_cons, List.not_mem_nil, or_false] at he' ⊢
    tauto
  · refine ⟨.node here ?_, h.child _ (by simp [children])⟩
    simp [children, leaf]

/-! ### The texts of nodes -/

section

variable (plain : ∀ e, style.custom e = none)
include plain

/-- The text of an operation of one operand. -/
theorem render_one {spelling : String} {op : Operator} {e : Expr}
    {wrap : Bool} (hwrap : wrappedOperands style false (.operation spelling op.name [e] false) [e] false
      = [wrap]) :
    (Expr.operation spelling op.name [e] false).render style =
      let space := if spelling.toList.any Text.isAlphabetic then " " else ""
      if op.associativity = .right then spelling ++ space ++ enclose wrap (e.render style)
      else enclose wrap (e.render style) ++ space ++ spelling := by
  have grouping : grouping? style.parentheses (.operation spelling op.name [e] false)
      = some op.associativity := by
    have hoperator : (Operator.ofName? op.name).map Operator.associativity = some op.associativity := by
      rw [Operator.ofName?_name, Option.map_some]
    cases hp : style.parentheses <;> exact hoperator
  rw [render, plain]
  dsimp only
  rw [List.map_singleton, hwrap, List.zipWith_cons_cons, List.zipWith_nil_left, renderOperation,
    grouping]
  cases op.associativity <;> rfl

/-- The text of an operation of two operands. -/
theorem render_two {spelling function : String}
    {left right : Expr} {juxtaposed : Bool} {wrap wrap' : Bool}
    (hwrap : wrappedOperands style false (.operation spelling function [left, right] juxtaposed)
      [left, right] juxtaposed = [wrap, wrap']) :
    (Expr.operation spelling function [left, right] juxtaposed).render style =
      if juxtaposes style (.operation spelling function [left, right] juxtaposed) juxtaposed then
        enclose wrap (left.render style) ++ " " ++ enclose wrap' (right.render style)
      else enclose wrap (left.render style) ++ " " ++ spelling ++ " "
        ++ enclose wrap' (right.render style) := by
  rw [render, plain]
  dsimp only
  rw [List.map_cons, List.map_singleton, hwrap, List.zipWith_cons_cons, List.zipWith_cons_cons,
    List.zipWith_nil_left, renderOperation]

theorem render_constant (value : String) (kind : ConstantKind) :
    (Expr.constant value kind).render style = if kind = .string then Text.quote value else value := by
  rw [render, plain]

theorem render_symbol (name : String) : (Expr.symbol name).render style = name := by
  rw [render, plain]

theorem render_ofName (name : String) : (ofName name).render style = name := by
  unfold ofName
  repeat' split
  · subst name
    exact render_constant plain "true" .boolean
  · subst name
    exact render_constant plain "false" .boolean
  · subst name
    exact render_constant plain "null" .null
  · subst name
    exact render_constant plain "undefined" .undefined
  · exact render_constant plain name .number
  · exact render_symbol plain name

theorem render_call (callee : Expr) (args : List Expr) : (Expr.call callee args).render style
    = enclose callee.wrapsCallee (callee.render style)
      ++ ("(" ++ ", ".intercalate (args.map fun e => e.render style) ++ ")") := by
  rw [render, plain]
  simp only [String.append_assoc]
  rfl

theorem render_access (owner part : Expr) : (Expr.access owner part).render style
    = enclose (wrapsAccessed owner) (owner.render style) ++ part.render style := by
  rw [render, plain]

theorem render_selector (dimensions : List Expr) : (Expr.index dimensions false).render style
    = "[" ++ ", ".intercalate (dimensions.map fun e => e.render style) ++ "]" := by
  rw [render, plain]
  simp

theorem render_property (name : String) : (Expr.property name).render style = "." ++ name := by
  rw [Expr.property, string, render, plain]
  rfl

theorem render_assigned {target value e : Expr} (he : assign target value = .ok e) :
    e.render style = target.render style ++ " = "
      ++ enclose (wrapsAt style.parentheses Precedence.assignment value) (value.render style) := by
  obtain ⟨name, rfl, hcheck, rfl⟩ | ⟨owner, part, rfl, howner, hpart, rfl⟩ |
    ⟨name, params, rfl, hcheck, rfl⟩ := assign_eq_ok_iff.1 he
  · conv_lhs => rw [render, plain]
    rfl
  · obtain ⟨_, hwrap, _⟩ := checkTarget_written style howner
    conv_lhs => rw [render, plain]
    rw [render_access plain, hwrap]
    rfl
  · conv_lhs => rw [render, plain]
    have hparams : ((params.map Expr.symbol).map fun e => e.render style) = params := by
      rw [List.map_map]
      exact (List.map_congr_left fun name _ => render_symbol plain name).trans (List.map_id _)
    rw [render_call plain, hparams, render_symbol plain]
    have hclose : ") = " = ")" ++ " = " := rfl
    dsimp only
    rw [hclose]
    simp only [render.part, String.append_assoc]
    rfl

/-! ### What the texts tell -/

section

variable {read : Expr → Expr} (partwise : Partwise style read)
include partwise

theorem told_prefixed {spelling : String} {op : Operator} {e : Expr}
    (hop : Operator.leading? spelling = some op) (h : ToldBy (e.render style) (read e)) :
    ToldBy ((Expr.operation spelling op.name [e] false).render style)
      (read (.operation spelling op.name [e] false)) := by
  obtain ⟨wrap, hwrap⟩ := exists_wrappedOperand style (.operation spelling op.name [e] false) e
    false
  have right : op.associativity = .right := by
    unfold Operator.leading? at hop
    split at hop <;> cases hop <;> rfl
  refine partwise.one hwrap ?_
  rw [render_one plain hwrap, Bool.false_and]
  dsimp only
  rw [if_pos right, String.append_assoc]
  intro n d fits
  rw [nesting, groupsRight_name, right, if_pos (by simp)] at fits
  have hoperand := (h.enclose wrap n (d + 1) (by omega)).loose
  split
  · refine tells_prefixed (by omega) hop hoperand.indented fun _ => ?_
    exact ⟨_, String.toList_append ..⟩
  · rename_i hsymbol
    rw [String.empty_append]
    refine tells_prefixed (by omega) hop hoperand fun hword => ?_
    subst hword
    exact absurd (by decide) hsymbol

theorem told_postfixed {spelling : String} {op : Operator} {e : Expr}
    (hop : Operator.trailing? spelling = some op) (h : ToldBy (e.render style) (read e)) :
    ToldBy ((Expr.operation spelling op.name [e] false).render style)
      (read (.operation spelling op.name [e] false)) := by
  obtain ⟨wrap, hwrap⟩ := exists_wrappedOperand style (.operation spelling op.name [e] false) e
    false
  obtain ⟨left, symbol⟩ : op.associativity = .left ∧ spelling.toList.any Text.isAlphabetic = false := by
    unfold Operator.trailing? at hop
    split at hop <;> cases hop <;> exact ⟨rfl, by decide⟩
  refine partwise.one hwrap ?_
  rw [render_one plain hwrap, Bool.false_and]
  dsimp only
  rw [left, symbol, if_neg nofun, if_neg nofun, String.append_empty]
  intro n d fits
  rw [nesting, groupsRight_name, left, if_neg (by simp)] at fits
  refine tells_postfixed hop (h.enclose wrap n d fits) fun c more hc => ?_
  simp only [List.mem_cons, List.not_mem_nil, or_false] at hc
  rcases hc with rfl | rfl <;> exact Token.apart_cons (by decide) _ _

theorem told_power {spelling : String} {op : Operator} {left right : Expr}
    (hspelling : spelling = "^" ∨ spelling = ".^") (hop : Operator.binary? spelling = some op)
    (hleft : ToldBy (left.render style) (read left)) (hright : ToldBy (right.render style) (read right)) :
    ToldBy ((Expr.operation spelling op.name [left, right] false).render style)
      (read (.operation spelling op.name [left, right] false)) := by
  obtain ⟨wrap, wrap', hwrap⟩ := exists_wrappedOperands style
    (.operation spelling op.name [left, right] false) left right false
  have grouping : op.associativity = .right := by
    rcases hspelling with rfl | rfl <;> cases hop <;> rfl
  refine partwise.two hwrap ?_
  rw [render_two plain hwrap, if_neg nofun, Bool.false_and]
  intro n d fits
  rw [nesting, groupsRight_name, grouping, if_pos (by simp)] at fits
  exact tells_power hspelling hop (hleft.enclose wrap n d (by omega))
    (hright.enclose wrap' n (d + 1) (by omega))

theorem told_binary {spelling : String} {op : Operator} {left right : Expr}
    (hop : Operator.binary? spelling = some op) (weak : op.level ≤ 12)
    (hleft : ToldBy (left.render style) (read left)) (hright : ToldBy (right.render style) (read right)) :
    ToldBy ((Expr.operation spelling op.name [left, right] false).render style)
      (read (.operation spelling op.name [left, right] false)) := by
  obtain ⟨wrap, wrap', hwrap⟩ := exists_wrappedOperands style
    (.operation spelling op.name [left, right] false) left right false
  refine partwise.two hwrap ?_
  rw [render_two plain hwrap, if_neg nofun, Bool.false_and]
  intro n d fits
  have fits' : d + max (enclosed wrap (read left)).nesting (enclosed wrap' (read right)).nesting
      < maxDepth := by
    rw [nesting] at fits
    split at fits <;> omega
  exact tells_binary hop weak (hleft.enclose wrap n d (by omega)) (hright.enclose wrap' n d (by omega))

theorem told_juxtaposition {left right : Expr} (hleft : ToldBy (left.render style) (read left))
    (hright : ToldBy (right.render style) (read right)) :
    ToldBy ((juxtapose left right).render style) (read (juxtapose left right)) := by
  obtain ⟨wrap, wrap', hwrap⟩ := exists_wrappedOperands style (juxtapose left right) left right
    true
  rw [juxtapose] at hwrap ⊢
  refine partwise.two hwrap ?_
  rw [render_two plain hwrap]
  intro n d fits
  have fits' : d + max (enclosed wrap (read left)).nesting (enclosed wrap' (read right)).nesting
      < maxDepth := by
    rw [nesting] at fits
    split at fits <;> omega
  have hleft := hleft.enclose wrap n d (by omega)
  have hright := hright.enclose wrap' n d (by omega)
  cases hstyle : style.juxtaposition with
  | hide =>
      rw [if_pos (by simp [juxtaposes, hstyle, operator?])]
      exact tells_juxtaposition hleft hright
  | spell =>
      rw [if_neg (by simp [juxtaposes, hstyle])]
      have hop : Operator.binary? "*" = some .multiply := by decide
      exact tells_binary hop (by decide) hleft hright

theorem told_string (value : String) : ToldBy ((Expr.string value).render style) (read (.string value)) := by
  intro n d fits
  rw [Expr.string, render_constant plain, partwise.constant] at *
  exact tells_string (by omega) value

theorem told_number {literal : String} (lexical : Token.IsNumber literal)
    (hliteral : (Expr.number literal).isLiteral = true) :
    ToldBy ((Expr.number literal).render style) (read (.number literal)) := by
  intro n d fits
  rw [Expr.number, render_constant plain, partwise.constant]
  exact tells_number (by omega) lexical hliteral

theorem told_name {name : String} (lexical : Token.isIdentifier name = true) :
    ToldBy ((ofName name).render style) (read (ofName name)) := by
  intro n d fits
  rw [render_ofName plain, partwise.ofName]
  exact tells_name (by omega) lexical

theorem told_array {items : List Expr} (h : ∀ e ∈ items, ToldBy (e.render style) (read e)) :
    ToldBy ((Expr.array items).render style) (read (.array items)) := by
  intro n d fits
  rw [partwise.array, nesting] at fits
  rw [render, plain, partwise.array]
  exact tells_array (by omega) (forall₂_tells h fits)

theorem told_object {properties : List (String × Expr)} (nodup : (Record.keys properties).Nodup)
    (h : ∀ p ∈ properties, ToldBy (p.2.render style) (read p.2) ∧ Legible false (read p.2)) :
    ToldBy ((Expr.object properties).render style) (read (.object properties)) := by
  intro n d fits
  rw [partwise.object, nesting] at fits
  rw [render, plain, partwise.object]
  refine tells_object (by omega) ?_ ?_
  · rw [List.forall₂_map_left_iff, List.forall₂_map_right_iff, List.forall₂_same]
    intro p hp
    have : (read p.2).nesting < _ :=
      nesting_lt_of_mem_properties (List.mem_map_of_mem (f := fun p => (p.1, read p.2)) hp)
    exact ⟨_, rfl, (h p hp).1 _ _ (by omega), (h p hp).2⟩
  · rw [Record.keys, List.map_map]
    exact nodup

end

/-- A property of nodes that makes sure that their tokens spell them: no property is written behind a
number of digits alone, and what is written of legible parts is legible. What is assigned to has it. -/
structure Writable (style : Style) (P : Expr → Prop) : Prop where
  name : ∀ name, P (.symbol name)
  target : ∀ {target value e}, assign target value = .ok e → P target
  point : ∀ {owner name}, Legible false owner → Everywhere P (.access owner (.property name)) →
    (enclosed (wrapsAccessed owner) (owner.written style)).takesPoint = true
  legible : ∀ {e}, Legible false e → e.Everywhere P → Legible false (e.written style)

/-- A property of nodes that makes sure that their tokens spell what is read of them. -/
structure Readable (style : Style) (read : Expr → Expr) (P : Expr → Prop) : Prop
    extends Partwise style read where
  name : ∀ name, P (.symbol name)
  target : ∀ {target value e}, assign target value = .ok e → P target
  point : ∀ {owner name}, Legible false owner → Everywhere P (.access owner (.property name)) →
    (enclosed (wrapsAccessed owner) (read owner)).takesPoint = true
  legible : ∀ {e}, Legible false e → e.Everywhere P → Legible false (read e)

omit plain in
theorem Writable.readable {P : Expr → Prop} (writable : Writable style P) :
    Readable style (written style) P :=
  { partwise_written style with
    name := writable.name, target := writable.target, point := writable.point, legible := writable.legible }

/-- The text of an expression tells it as it is read part by part. -/
theorem Legible.told_read {read : Expr → Expr} {P : Expr → Prop} (readable : Readable style read P)
    {f : Bool} {e : Expr} (h : Legible f e) (everywhere : e.Everywhere P) :
    ToldBy (e.render style) (read e) := by
  have partwise := readable.toPartwise
  induction h with
  | number lexical hliteral => exact told_number plain partwise lexical hliteral
  | string value => exact told_string plain partwise value
  | name lexical he => exact he ▸ told_name plain partwise lexical
  | word hname infix_ =>
      intro n d fits
      rw [render_symbol plain, partwise.symbol]
      exact tells_word (by omega) hname infix_
  | parenthesis h ih =>
      have hcontent := ih (everywhere.child _ (by simp [children]))
      rw [render, plain, partwise.parenthesis]
      exact hcontent.enclose _
  | array h ih =>
      refine told_array plain partwise fun e he => ih e he (everywhere.child e ?_)
      simpa [children] using he
  | object h nodup ih =>
      refine told_object plain partwise nodup fun p hp => ?_
      have below := everywhere.child p.2 (List.mem_map.2 ⟨_, List.mem_map_of_mem hp, rfl⟩)
      exact ⟨ih p hp below, readable.legible (h p hp) below⟩
  | @call f callee args hcallee callable h ihcallee ih =>
      have hcallee' := ihcallee (everywhere.child _ (by simp [children]))
      have hargs := fun e he => ih e he (everywhere.child e (by simp [children, he]))
      obtain ⟨hwrap, callable'⟩ := partwise.callee callable
      intro n d fits
      rw [partwise.call, hwrap, enclosed, if_neg Bool.false_ne_true, nesting] at fits
      rw [render_call plain, partwise.call, hwrap, Expr.enclose, if_neg Bool.false_ne_true]
      exact tells_call (hcallee' n d (by omega)) callable' (forall₂_tells hargs (by omega))
  | @index f owner dimensions howner level h ihowner ih =>
      have howner' := ihowner (everywhere.child _ (by simp [children]))
      have hpart := everywhere.child (.index dimensions false) (by simp [children])
      have hdimensions := fun e he => ih e he (hpart.child e (by simp [children, he]))
      intro n d fits
      rw [partwise.access, nesting, partwise.index, nesting, if_neg Bool.false_ne_true] at fits
      rw [render_access plain, render_selector plain, partwise.access, partwise.index]
      exact tells_index (howner'.enclose _ n d (by omega)) (forall₂_tells hdimensions (by omega))
  | @property f owner name howner level lexical ih =>
      have howner' := ih (everywhere.child _ (by simp [children]))
      have hname : read (.property name) = .property name := by
        rw [Expr.property, partwise.index, List.map_singleton, Expr.string, partwise.constant]
      intro n d fits
      rw [partwise.access, nesting] at fits
      rw [render_access plain, render_property plain, partwise.access, hname]
      exact tells_property (howner'.enclose _ n d (by omega)) (readable.point howner everywhere) lexical
  | postfixed hop h level ih =>
      exact told_postfixed plain partwise hop (ih (everywhere.child _ (by simp [children])))
  | power hspelling hop _ _ _ _ ih ih' =>
      exact told_power plain partwise hspelling hop (ih (everywhere.child _ (by simp [children])))
        (ih' (everywhere.child _ (by simp [children])))
  | prefixed hop h level ih =>
      exact told_prefixed plain partwise hop (ih (everywhere.child _ (by simp [children])))
  | fraction hfraction _ _ ih ih' =>
      exact told_binary plain partwise (by decide) (by decide)
        (ih (everywhere.child _ (by simp [children]))) (ih' (everywhere.child _ (by simp [children])))
  | juxtaposition _ _ _ _ _ _ ih ih' =>
      exact told_juxtaposition plain partwise
        (ih (everywhere.child _ (by simp [children, juxtapose])))
        (ih' (everywhere.child _ (by simp [children, juxtapose])))
  | binary hop weak _ _ _ _ _ ih ih' =>
      exact told_binary plain partwise hop weak (ih (everywhere.child _ (by simp [children])))
        (ih' (everywhere.child _ (by simp [children])))
  | @comparison f functions operands last comparisons many length h levels hlast lastLevel ih ihlast =>
      have hoperands : ∀ e ∈ operands ++ [last], ToldBy (e.render style) (read e) := by
        have below : ∀ e ∈ operands ++ [last], Everywhere P e :=
          fun e he => everywhere.child e (by simpa [children] using he)
        rw [List.forall_mem_append, List.forall_mem_singleton] at below ⊢
        exact ⟨fun e he => ih e he (below.1 e he), ihlast below.2⟩
      intro n d fits
      rw [partwise.comparison, nesting] at fits
      rw [render, plain, partwise.comparison]
      refine tells_comparison comparisons many (by simp [length]) ?_
      rw [List.forall₂_map_left_iff, List.forall₂_map_right_iff, List.forall₂_same]
      intro e he
      have := nesting_le_of_mem (List.mem_map_of_mem (f := fun e =>
        enclosed (wrapsAt style.parentheses Precedence.relational e) (read e)) he)
      exact (hoperands e he).enclose _ n d (by omega)
  | range _ _ _ _ ih ih' =>
      have hstart := ih (everywhere.child _ (by simp [children]))
      have hstop := ih' (everywhere.child _ (by simp [children]))
      intro n d fits
      rw [partwise.range, nesting, Option.map_none, nestingOption] at fits
      rw [render, plain, partwise.range]
      exact tells_range (hstart.enclose _ n d (by omega)) (hstop.enclose _ n d (by omega))
  | steppedRange _ _ _ _ _ _ ih ih' ih'' =>
      have hstart := ih (everywhere.child _ (by simp [children]))
      have hstep := ih' (everywhere.child _ (by simp [children]))
      have hstop := ih'' (everywhere.child _ (by simp [children]))
      intro n d fits
      rw [partwise.range, nesting, Option.map_some, nestingOption] at fits
      rw [render, plain, partwise.range]
      exact tells_steppedRange (hstart.enclose _ n d (by omega)) (hstep.enclose _ n d (by omega))
        (hstop.enclose _ n d (by omega))
  | @conditional f condition yes no _ _ _ _ _ ih ih' ih'' =>
      have hcondition := ih (everywhere.child _ (by simp [children]))
      have hyes := ih' (everywhere.child _ (by simp [children]))
      have hno := ih'' (everywhere.child _ (by simp [children]))
      intro n d fits
      rw [partwise.conditional, nesting] at fits
      rw [render, plain, partwise.conditional]
      exact tells_conditional
        (hcondition.enclose (wrapsCondition style.parentheses condition) n d (by omega)) (hyes.enclose _ n d (by omega))
        (hno.enclose _ n d (by omega))
  | assigned he _ _ ih ih' =>
      obtain ⟨htarget, hvalue⟩ := everywhere_assigned readable.name readable.target he everywhere
      have htarget := ih htarget
      have hvalue := ih' hvalue
      intro n d fits
      obtain ⟨fits, fits'⟩ := nesting_assigned (partwise.assign he) fits
      rw [render_assigned plain he]
      exact tells_assigned (htarget n d fits) (hvalue.enclose _ n d fits') (partwise.assign he)

/-- The text of an expression tells it as it is written. -/
theorem Legible.told {P : Expr → Prop} (writable : Writable style P) {f : Bool} {e : Expr}
    (h : Legible f e) (everywhere : e.Everywhere P) :
    ToldBy (e.render style) (e.written style) :=
  h.told_read plain writable.readable everywhere

end

end

end Formula.Expr
