import Formula.Proofs.Precedence
import Formula.Proofs.Rendering.Regular
import Formula.Proofs.Rendering.Text

/-!
The text of trees of operators.

Which operands of an operator are written in parentheses is decided operand by operand (`Places`).
The text of a tree is that of the tree as it is written (`Built.text_eq`), where it tells the words
of the tree, however the operators group (`Operated.tells`).
-/

namespace Formula

namespace Operator

/-- Operators that may be regrouped are as strong as one another, and regroup with what each of them
regroups with. -/
theorem of_mem_associativeWith {op inner : Operator} (h : inner ∈ op.associativeWith) :
    inner.precedence = op.precedence ∧ inner.associativity = .left ∧ op.associativity = .left ∧
      ∀ further ∈ inner.associativeWith, further ∈ op.associativeWith := by
  revert inner
  cases op <;> decide

/-- Operators behind their operand are no words. -/
theorem symbol_of_postfixed {op : Operator} (unary : op.isUnary = true)
    (left : op.associativity = .left) : op.symbol.toList.any Text.isAlphabetic = false := by
  revert unary left
  cases op <;> decide

end Operator

namespace Expr

open Grammar Rendering

/-- Expressions made of names and operators, each operator with as many operands as it takes. -/
inductive Built : Expr → Prop
  | symbol {name : String} (identifier : Token.isIdentifier name = true)
      (free : ofName name = .symbol name) : Built (.symbol name)
  | unary {op : Operator} {e : Expr} (unary : op.isUnary = true) (h : Built e) :
      Built (.apply op [e])
  | binary {op : Operator} {left right : Expr} (binary : op.isUnary = false) (hleft : Built left)
      (hright : Built right) : Built (.apply op [left, right])

/-- Expressions made of names, operators, parentheses and chains of comparisons. -/
inductive Operated : Expr → Prop
  | symbol {name : String} (identifier : Token.isIdentifier name = true)
      (free : ofName name = .symbol name) : Operated (.symbol name)
  | parenthesis {e : Expr} (h : Operated e) : Operated (.parenthesis e)
  | unary {op : Operator} {e : Expr} (unary : op.isUnary = true) (h : Operated e) :
      Operated (.apply op [e])
  | binary {op : Operator} {left right : Expr} (binary : op.isUnary = false) (hleft : Operated left)
      (hright : Operated right) : Operated (.apply op [left, right])
  | comparison {ops : List Operator} {operands : List Expr}
      (relational : ∀ op ∈ ops, op.isRelational = true) (many : 2 ≤ ops.length)
      (length : operands.length = ops.length + 1) (h : ∀ e ∈ operands, Operated e) :
      Operated (.comparison (ops.map Operator.name) operands)

theorem BindsAtLeast.mono {e : Expr} {k l : Nat} (h : e.BindsAtLeast k) (hle : l ≤ k) :
    e.BindsAtLeast l :=
  fun precedence hprecedence => Nat.le_trans hle (h precedence hprecedence)

/-- What binds as tightly as an operator, and not just as tightly, binds tighter. -/
theorem BindsAtLeast.succ {e : Expr} {k : Nat} (h : e.BindsAtLeast k)
    (hne : strength? .keep e ≠ some k) :
    e.BindsAtLeast (k + 1) := by
  intro precedence hprecedence
  have := h precedence hprecedence
  have : precedence ≠ k := fun heq => hne (heq ▸ hprecedence)
  omega

/-! ### The text without further parentheses -/

/-- The text of a chain of comparisons between texts. -/
def chainText (functions texts : List String) : String :=
  texts.headD "" ++ String.join (List.zipWith
    (fun function text => " " ++ comparisonSymbol function ++ " " ++ text) functions texts.tail)

mutual

/-- The text of an expression of operators, with no parentheses but its own. -/
def flatText : Expr → String
  | .symbol name => name
  | .parenthesis e => "(" ++ e.flatText ++ ")"
  | .operation spelling function [e] _ =>
    let space := if spelling.toList.any Text.isAlphabetic then " " else ""
    if groupsRight function then spelling ++ space ++ e.flatText
    else e.flatText ++ space ++ spelling
  | .operation spelling _ [left, right] _ =>
    left.flatText ++ " " ++ spelling ++ " " ++ right.flatText
  | .comparison functions operands => chainText functions (flatTexts operands)
  | _ => ""

/-- The texts of expressions of operators. -/
def flatTexts : List Expr → List String
  | [] => []
  | e :: es => e.flatText :: flatTexts es

end

theorem flatTexts_eq (es : List Expr) : flatTexts es = es.map flatText := by
  induction es with
  | nil => rfl
  | cons e es ih => rw [flatTexts, ih, List.map_cons]

theorem flatText_enclosed (wrap : Bool) (e : Expr) :
    (enclosed wrap e).flatText = enclose wrap e.flatText := by
  cases wrap
  · rfl
  · rw [enclosed, if_pos rfl, flatText]
    rfl

theorem Operated.enclosed {e : Expr} (h : Operated e) (wrap : Bool) :
    Operated (enclosed wrap e) := by
  cases wrap with
  | false => exact h
  | true => exact .parenthesis h

theorem grouping?_apply (op : Operator) (operands : List Expr) :
    grouping? .keep (apply op operands) = some op.associativity := by
  show (Operator.ofName? op.name).map Operator.associativity = _
  rw [Operator.ofName?_name, Option.map_some]

theorem operator?_apply (op : Operator) (operands : List Expr) :
    (apply op operands).operator? = some op :=
  Operator.ofName?_name op

theorem strength?_of_operator? {e : Expr} {op : Operator} (h : e.operator? = some op) :
    strength? .keep e = some op.precedence := by
  cases e with
  | operation spelling function operands juxtaposed =>
      show (Operator.ofName? function).map Operator.precedence = _
      rw [show Operator.ofName? function = some op from h, Option.map_some]
  | _ => cases h

/-- A single operand is written in parentheses unless it binds tighter than the operator. -/
theorem wrappedOperands_unary (op : Operator) (e : Expr) : ∃ wrap,
    wrappedOperands {} false (apply op [e]) [e] false = [wrap] ∧
      (wrap = false → e.BindsAtLeast (op.precedence + 1)) := by
  refine ⟨(strength? .keep e).any (· ≤ op.precedence), ?_, fun h precedence hprecedence => ?_⟩
  · have hstrength := strength?_apply op [e]
    cases he : strength? .keep e <;> simp [wrappedOperands, looseOperands, hstrength, he]
  · rw [hprecedence, Option.any_some, decide_eq_false_iff_not] at h
    omega

theorem regroups_iff {p : Parentheses} {op : Operator} {root e : Expr}
    (hop : (visible p root).operator? = some op) : regroups p root e = true ↔
      ∃ inner ∈ op.associativeWith, (visible p e).operator? = some inner := by
  rw [regroups, hop]
  cases he : (visible p e).operator? with
  | none => exact ⟨nofun, fun ⟨_, _, h⟩ => nomatch h⟩
  | some inner =>
      constructor
      · exact fun h => ⟨inner, List.contains_iff_mem.1 h, rfl⟩
      · rintro ⟨inner', hinner', h⟩
        obtain rfl := Option.some.inj h
        exact List.contains_iff_mem.2 hinner'

theorem regroups_apply {op : Operator} (operands : List Expr) {e : Expr} :
    regroups .keep (apply op operands) e = true ↔
      ∃ inner ∈ op.associativeWith, e.operator? = some inner :=
  regroups_iff (operator?_apply op operands)

/-- What an operand is that is not looser than what it stands in. -/
theorem tight_of_not_looser {p : Parentheses} {op : Operator} {root e : Expr} {other : Bool} {k : Nat}
    (hop : (visible p root).operator? = some op) (h : isLooser p root e other = false)
    (hk : strength? p e = some k) : op.precedence ≤ k ∧ (other = true → k = op.precedence →
      ∃ inner ∈ op.associativeWith, (visible p e).operator? = some inner) := by
  have hroot : strength? p root = some op.precedence := strength?_of_operator? hop
  rw [isLooser, hk, hroot] at h
  dsimp only at h
  rw [Bool.or_eq_false_iff, decide_eq_false_iff_not] at h
  refine ⟨by omega, fun hother heq => (regroups_iff hop).1 ?_⟩
  simpa [hother, heq] using h.2

theorem tight_of_isLooser {op : Operator} {operands : List Expr} {e : Expr} {other : Bool}
    (h : isLooser .keep (apply op operands) e other = false) : e.BindsAtLeast op.precedence ∧
      (other = true → strength? .keep e = some op.precedence →
        ∃ inner ∈ op.associativeWith, e.operator? = some inner) := by
  have hop : (visible .keep (apply op operands)).operator? = some op := operator?_apply op operands
  exact ⟨fun _ hk => (tight_of_not_looser hop h hk).1,
    fun hother hk => (tight_of_not_looser hop h hk).2 hother rfl⟩

/-- What an operand is that is looser than its operation. -/
theorem loose_of_isLooser {op : Operator} {operands : List Expr} {e : Expr} {other : Bool}
    (h : isLooser .keep (apply op operands) e other = true) : ∃ precedence,
      strength? .keep e = some precedence ∧
        (precedence < op.precedence ∨ precedence = op.precedence ∧
        other = true ∧ ¬ ∃ inner ∈ op.associativeWith, e.operator? = some inner) := by
  rw [isLooser, strength?_apply] at h
  cases hstrength : strength? .keep e with
  | none => rw [hstrength] at h; cases h
  | some precedence =>
      rw [hstrength] at h
      simp only [Bool.or_eq_true, decide_eq_true_eq, Bool.and_eq_true, beq_iff_eq,
        Bool.not_eq_true'] at h
      refine ⟨precedence, rfl, h.imp id fun h => ⟨h.1.1, h.1.2, fun hinner => ?_⟩⟩
      rw [← regroups_apply operands, h.2] at hinner
      cases hinner

/-- How an operation of two operands is written, and what its operands are if they are written
without parentheses. -/
structure Places (op : Operator) (left right : Expr) (wrap wrap' : Bool) : Prop where
  written : (apply op [left, right]).written {}
    = apply op [enclosed wrap (left.written {}), enclosed wrap' (right.written {})]
  text : (apply op [left, right]).text
    = enclose wrap left.text ++ " " ++ op.symbol ++ " " ++ enclose wrap' right.text
  ofLeft : wrap = false → left.BindsAtLeast op.precedence
  tighter : op.associativity = .right → wrap = false → left.BindsAtLeast (op.precedence + 1)
  ofRight : wrap' = false → right.BindsAtLeast op.precedence
  regroups : op.associativity = .left → wrap' = false → strength? .keep right = some op.precedence →
    ∃ inner ∈ op.associativeWith, right.operator? = some inner
  loose : op.associativity = .left → wrap = true →
    ∃ precedence < op.precedence, strength? .keep left = some precedence
  barred : wrap' = true → ¬ ∃ inner ∈ op.associativeWith, right.operator? = some inner

section

variable (op : Operator) (e left right : Expr)

theorem exists_written_unary : ∃ wrap,
    (apply op [e]).written {} = apply op [enclosed wrap (e.written {})] ∧
      (apply op [e]).text = (let space := if op.symbol.toList.any Text.isAlphabetic then " " else ""
        if groupsRight op.name then op.symbol ++ space ++ enclose wrap e.text
        else enclose wrap e.text ++ space ++ op.symbol) ∧
      (wrap = false → e.BindsAtLeast (op.precedence + 1)) := by
  obtain ⟨wrap, hwrap, htight⟩ := wrappedOperands_unary op e
  refine ⟨wrap, written_one hwrap, ?_, htight⟩
  rw [text, apply, render_one (fun _ => rfl) hwrap, groupsRight_name]
  simp only [decide_eq_true_eq]
  rfl

theorem exists_places : ∃ wrap wrap', Places op left right wrap wrap' := by
  have hwrap : wrappedOperands {} false (apply op [left, right]) [left, right] false = _ :=
    wrappedOperands_two
  refine ⟨_, _, written_two hwrap, ?_, fun h => (tight_of_isLooser h).1, fun grouping h => ?_,
    fun h => (tight_of_isLooser h).1, fun grouping h => (tight_of_isLooser h).2 ?_,
    fun grouping h => ?_, fun h => ?_⟩
  · rw [Expr.text, apply, render_two (fun _ => rfl) hwrap, if_neg (by simp [juxtaposes])]
    rfl
  · refine (tight_of_isLooser h).1.succ fun hstrength => ?_
    rw [grouping?_apply, grouping] at h
    obtain ⟨inner, hinner, _⟩ := (tight_of_isLooser h).2 (decide_eq_true rfl) hstrength
    cases grouping.symm.trans (Operator.of_mem_associativeWith hinner).2.2.1
  · rw [grouping?_apply, grouping]
    exact decide_eq_true rfl
  · obtain ⟨precedence, hstrength, hlt | ⟨_, hother, _⟩⟩ := loose_of_isLooser h
    · exact ⟨precedence, hlt, hstrength⟩
    · rw [grouping?_apply, grouping] at hother
      cases hother
  · rintro ⟨inner, hinner, hoperator⟩
    obtain ⟨precedence, hstrength, hlt | ⟨_, _, hbarred⟩⟩ := loose_of_isLooser h
    · rw [strength?_of_operator? hoperator, (Operator.of_mem_associativeWith hinner).1] at hstrength
      exact absurd hlt (Nat.not_lt_of_le (Nat.le_of_eq (Option.some.inj hstrength)))
    · exact hbarred ⟨inner, hinner, hoperator⟩

end

/-- The text of an expression of operators is that of the expression as it is written. -/
theorem Built.text_eq {e : Expr} (h : Built e) :
    e.text = (e.written {}).flatText ∧ Operated (e.written {}) := by
  induction h with
  | symbol identifier free => exact ⟨render_symbol (fun _ => rfl) _, .symbol identifier free⟩
  | @unary op e unary h ih =>
      obtain ⟨wrap, hwritten, htext, _⟩ := exists_written_unary op e
      rw [hwritten, htext, ih.1, ← flatText_enclosed, apply, flatText]
      exact ⟨rfl, .unary unary (ih.2.enclosed wrap)⟩
  | @binary op left right binary hleft hright ihleft ihright =>
      obtain ⟨wrap, wrap', places⟩ := exists_places op left right
      rw [places.written, places.text, ihleft.1, ihright.1, ← flatText_enclosed,
        ← flatText_enclosed, apply, flatText]
      exact ⟨rfl, .binary binary (ihleft.2.enclosed wrap) (ihright.2.enclosed wrap')⟩

/-- The text of an expression of operators, without further parentheses, tells it. -/
theorem Operated.tells {e : Expr} (h : Operated e) {n d : Nat} (fits : d + e.nesting < maxDepth) :
    Tells n d e.flatText e := by
  induction h generalizing d n with
  | @symbol name identifier free =>
      have htells := tells_name (n := n) fits identifier
      rwa [free] at htells
  | parenthesis h ih =>
      rw [nesting] at fits
      exact tells_parenthesis (by omega) (ih (by omega))
  | @unary op e unary h ih =>
      rw [apply, flatText, groupsRight_name]
      rw [apply, nesting, groupsRight_name] at fits
      cases hgrouping : op.associativity with
      | right =>
          rw [hgrouping, if_pos (by simp)] at fits
          have hoperand := (ih (n := n) (d := d + 1) (by omega)).loose
          have hop := Operator.leading?_symbol unary hgrouping
          rw [if_pos (by simp), String.append_assoc]
          split
          · refine tells_prefixed (by omega) hop hoperand.indented fun _ => ?_
            exact ⟨_, String.toList_append ..⟩
          · rename_i hsymbol
            rw [String.empty_append]
            refine tells_prefixed (by omega) hop hoperand fun hword => ?_
            rw [hword] at hsymbol
            exact absurd (by decide) hsymbol
      | left =>
          rw [hgrouping, if_neg (by simp)] at fits
          rw [if_neg (by simp), Operator.symbol_of_postfixed unary hgrouping, if_neg Bool.false_ne_true,
            String.append_empty]
          refine tells_postfixed (Operator.trailing?_symbol unary hgrouping) (ih fits)
            fun c more hc => ?_
          simp only [List.mem_cons, List.not_mem_nil, or_false] at hc
          rcases hc with rfl | rfl <;> exact Token.apart_cons (by decide) _ _
  | @binary op left right binary hleft hright ihleft ihright =>
      rw [apply, nesting, groupsRight_name] at fits
      cases hgrouping : op.associativity with
      | right =>
          rw [hgrouping, if_pos (by simp)] at fits
          exact tells_power (Operator.symbol_of_power binary hgrouping)
            (Operator.binary?_symbol binary)
            (ihleft (by omega)) (ihright (by omega))
      | left =>
          rw [hgrouping, if_neg (by simp)] at fits
          exact tells_binary (Operator.binary?_symbol binary)
            (Operator.level_of_left binary hgrouping).2
            (ihleft (by omega)) (ihright (by omega))
  | @comparison ops operands relational many length h ih =>
      rw [nesting] at fits
      rw [flatText, flatTexts_eq]
      refine tells_comparison (isComparison_names relational) (by simpa using many)
        (by simpa using length) ?_
      rw [List.forall₂_map_left_iff, List.forall₂_same]
      intro e he
      have := nesting_le_of_mem he
      exact ih e he (by omega)

end Expr

end Formula
