import Formula.Proofs.Rendering.Reassociation

/-!
What an operation is read as whose right operand stands without parentheses.

Operators as strong as one another group to the left where they are read: the operations down the left of
the right operand take the left operand in (`Expr.absorb`). They are told by the same text
(`ToldBy.absorb`), the result is legible (`Legible.absorb`), and it is only regrouped if the right operand
joins the operator (`regrouped_absorb`).
-/

namespace Formula

namespace Operator

theorem precedence_eq_level {op : Operator} (h : op.level ≤ 12) : op.precedence = op.level := by
  revert h
  cases op <;> decide

theorem level_eq (op : Operator) :
    op.level = if op.precedence ≤ 12 then op.precedence else min 17 (op.precedence + 2) := by
  cases op <;> rfl

/-- Operators as strong as one another are on one level. -/
theorem level_of_precedence_eq {op inner : Operator} (h : inner.precedence = op.precedence) :
    inner.level = op.level := by
  rw [level_eq, level_eq op, h]

theorem name_injective {op op' : Operator} (h : op.name = op'.name) : op = op' := by
  have := op.ofName?_name
  rw [h, op'.ofName?_name] at this
  exact (Option.some.inj this).symm

/-- Operators between their operands that group to the left are no powers. -/
theorem level_of_binary_left {spelling : String} {op : Operator} (hop : binary? spelling = some op)
    (grouping : op.associativity = .left) : op.level ≤ 12 := by
  obtain ⟨hspelling, _⟩ | ⟨_, _, _, h⟩ := level_of_binary hop
  · rcases hspelling with rfl | rfl <;> cases hop <;> cases grouping
  · exact h

theorem left_of_weak {op : Operator} (weak : op.level ≤ 12) : op.associativity = .left := by
  revert weak
  cases op <;> decide

end Operator

namespace Expr

open Grammar Rendering

/-- Whether an expression is an operation, spelled out, whose operator is as strong as another one. -/
def alike (op : Operator) : Expr → Bool
  | .operation _ function [_, _] false =>
    (Operator.ofName? function).map Operator.precedence = some op.precedence
  | _ => false

/-- An operation as it is read if its right operand stands without parentheses: the operations down the
left of the right operand that are as strong take the left operand in. -/
def absorb (spelling : String) (op : Operator) (left : Expr) : Expr → Expr
  | .operation spelling' function [y, z] false =>
    if (Operator.ofName? function).map Operator.precedence = some op.precedence then
      .operation spelling' function [absorb spelling op left y, z] false
    else .operation spelling op.name [left, .operation spelling' function [y, z] false] false
  | right => .operation spelling op.name [left, right] false

section

variable {op inner : Operator} {spelling spelling' : String} {left right y z : Expr}

theorem absorb_apart (h : right.alike op = false) :
    absorb spelling op left right = .operation spelling op.name [left, right] false := by
  unfold absorb
  split
  · exact if_neg (of_decide_eq_false h)
  · rfl

theorem absorb_alike (h : inner.precedence = op.precedence) :
    absorb spelling op left (.operation spelling' inner.name [y, z] false)
      = .operation spelling' inner.name [absorb spelling op left y, z] false := by
  rw [absorb, Operator.ofName?_name, if_pos (by rw [Option.map_some, h])]

theorem exists_of_alike (h : right.alike op = true) :
    ∃ (spelling : String) (inner : Operator) (y z : Expr),
      right = .operation spelling inner.name [y, z] false ∧ inner.precedence = op.precedence := by
  unfold alike at h
  split at h
  · obtain ⟨inner, hinner, hprecedence⟩ := Option.map_eq_some_iff.1 (of_decide_eq_true h)
    exact ⟨_, inner, _, _, by rw [Operator.name_of_ofName? hinner], hprecedence⟩
  · cases h

/-- Down the left of an expression are operations with operators as strong as one, and then something
else. -/
@[elab_as_elim]
theorem alike_induction (op : Operator) {motive : Expr → Prop}
    (apart : ∀ e, e.alike op = false → motive e)
    (alike : ∀ (spelling : String) (inner : Operator) (y z : Expr), inner.precedence = op.precedence →
      motive y → motive (.operation spelling inner.name [y, z] false)) (e : Expr) : motive e := by
  cases h : e.alike op with
  | false => exact apart e h
  | true =>
      obtain ⟨spelling, inner, y, z, rfl, hprecedence⟩ := exists_of_alike h
      exact alike spelling inner y z hprecedence (alike_induction op apart alike y)
termination_by sizeOf e
decreasing_by
  subst_vars
  simp
  omega

/-! ### What the text of an operation tells -/

theorem strength?_operation (op : Operator) (operands : List Expr) (juxtaposed : Bool) :
    strength? .keep (.operation spelling op.name operands juxtaposed) = some op.precedence := by
  show (Operator.ofName? op.name).map _ = _
  rw [Operator.ofName?_name, Option.map_some]

theorem strength?_of_alike (h : right.alike op = true) : strength? .keep right = some op.precedence := by
  obtain ⟨spelling, inner, y, z, rfl, hprecedence⟩ := exists_of_alike h
  rw [strength?_operation, hprecedence]

theorem strength?_absorb (spelling : String) (op : Operator) (left right : Expr) :
    strength? .keep (absorb spelling op left right) = some op.precedence := by
  induction right using alike_induction op with
  | apart right h => rw [absorb_apart h, strength?_operation]
  | alike spelling' inner y z hprecedence =>
      rw [absorb_alike hprecedence, strength?_operation, hprecedence]

theorem takesPoint_absorb (spelling : String) (op : Operator) (left right : Expr) :
    (absorb spelling op left right).takesPoint = false := by
  induction right using alike_induction op with
  | apart right h =>
      rw [absorb_apart h]
      rfl
  | alike spelling' inner y z hprecedence =>
      rw [absorb_alike hprecedence]
      rfl

theorem nesting_left (spelling : String) (grouping : op.associativity = .left) (left right : Expr) :
    (Expr.operation spelling op.name [left, right] false).nesting = max left.nesting right.nesting := by
  rw [nesting, groupsRight_name, grouping, if_neg (by simp)]

theorem nesting_absorb (spelling : String) (grouping : op.associativity = .left) (left right : Expr) :
    (absorb spelling op left right).nesting = max left.nesting right.nesting := by
  induction right using alike_induction op with
  | apart right h => rw [absorb_apart h, nesting_left spelling grouping]
  | alike spelling' inner y z hprecedence ih =>
      have grouping' := (Operator.of_precedence_eq hprecedence).2.1.trans grouping
      rw [absorb_alike hprecedence, nesting_left spelling' grouping', nesting_left spelling' grouping', ih,
        Nat.max_assoc]

end

end Expr

namespace Grammar

open Expr

variable {n d : Nat} {tokens : List Token} {op : Operator} {spelling : String} {left right : Expr}

/-- The tokens of an operation with an operator that groups to the left: those of its operands, and the
operator between them. -/
theorem Spells.operands (grouping : op.associativity = .left)
    (h : Spells n d tokens (.expression (.operation spelling op.name [left, right] false) false)) :
    Operator.binary? spelling = some op ∧ op.level ≤ 12 ∧ ∃ front o lines back,
      tokens = front ++ o :: lines ++ back ∧ o.kind = .operator ∧ o.text = spelling ∧ Lines lines ∧
      Spells n d front (.expression left false) ∧ Spells n d back (.expression right false) := by
  obtain ⟨front, o, lines, back, op', rfl, hkind, htext, hop, hname, gap, hleft, hright⟩ := h.as
  obtain rfl := Operator.name_injective hname
  have weak := Operator.level_of_binary_left hop grouping
  rw [if_neg (by omega)] at hright
  exact ⟨hop, weak, front, o, lines, back, rfl, hkind, htext, gap, hleft, hright⟩

/-- The tokens of an operation spell the operation that they are read as. -/
theorem Spells.absorb (grouping : op.associativity = .left)
    (h : Spells n d tokens (.expression (.operation spelling op.name [left, right] false) false)) :
    Spells n d tokens (.expression (Expr.absorb spelling op left right) false) := by
  induction right using alike_induction op generalizing tokens with
  | apart right hright => rwa [absorb_apart hright]
  | alike spelling' inner y z hprecedence ih =>
      have grouping' := (Operator.of_precedence_eq hprecedence).2.1.trans grouping
      obtain ⟨hop, weak, front, o, lines, back, rfl, hkind, rfl, gap, hfront, hback⟩ := h.operands grouping
      obtain ⟨hop', weak', between, o', lines', back, rfl, hkind', rfl, gap', hbetween, hback⟩ :=
        hback.operands grouping'
      have taken := ih (.binary hfront hkind hop weak gap hbetween)
      have hspells := Spells.binary taken hkind' hop' weak' gap' hback
      rw [absorb_alike hprecedence]
      simpa only [List.append_assoc, List.cons_append] using hspells

end Grammar

namespace Expr

open Grammar Rendering

section

variable {op inner : Operator} {spelling spelling' : String} {left right y z : Expr}

/-- What tells an operation tells what it is read as. -/
theorem ToldBy.absorb {text : String} (grouping : op.associativity = .left)
    (h : ToldBy text (.operation spelling op.name [left, right] false)) :
    ToldBy text (Expr.absorb spelling op left right) := by
  intro n d fits
  rw [nesting_absorb spelling grouping, ← nesting_left spelling grouping] at fits
  rw [Tells, takesPoint_absorb]
  exact (h n d fits).imp fun tokens htokens => htokens.absorb grouping

/-! ### How tightly it holds together -/

theorem level_operation :
    (Expr.operation spelling op.name [left, right] false).level false = op.level := by
  rw [level_false_operation, if_neg Bool.false_ne_true, Operator.ofName?_name]
  rfl

theorem level_absorb (spelling : String) (op : Operator) (left right : Expr) :
    (absorb spelling op left right).level false = op.level := by
  induction right using alike_induction op with
  | apart right h => rw [absorb_apart h, level_operation]
  | alike spelling' inner y z hprecedence =>
      rw [absorb_alike hprecedence, level_operation, Operator.level_of_precedence_eq hprecedence]

theorem lastFactor_absorb (spelling : String) (weak : op.level ≤ 12) (left right : Expr) :
    (absorb spelling op left right).lastFactor = right.lastFactor := by
  induction right using alike_induction op with
  | apart right h => rw [absorb_apart h, lastFactor_binary weak]
  | alike spelling' inner y z hprecedence =>
      have hlevel := Operator.level_of_precedence_eq hprecedence
      rw [absorb_alike hprecedence, lastFactor_binary (by omega), lastFactor_binary (by omega)]

/-- The operands of a legible operation are tight enough for its operator. -/
theorem Legible.operands (h : Legible false (.operation spelling op.name [left, right] false))
    (weak : op.level ≤ 12) : Operator.binary? spelling = some op ∧ Legible false left ∧
      (if op.isRelational then 10 else op.level) ≤ left.level false ∧ Legible false right ∧
      op.level < right.level false ∧
      (op = .divide → isNumeral left.lastFactor = true → right.opensProduct false = false) := by
  generalize hname : op.name = function at h
  cases h with
  | @binary _ _ op' _ _ hop _ hleft leftLevel hright rightLevel divides =>
      obtain rfl := Operator.name_injective hname
      exact ⟨hop, hleft, leftLevel, hright, rightLevel, divides⟩
  | @power _ _ op' _ _ hspelling hop =>
      obtain rfl := Operator.name_injective hname
      obtain ⟨_, hlevel⟩ | ⟨h, h', _⟩ := Operator.level_of_binary hop
      · omega
      · exact absurd hspelling (not_or.2 ⟨h, h'⟩)
  | name _ he => rcases form_ofName _ with h | h <;> rw [he] at h <;> cases h
  | assigned he => rcases form_assigned he with h | h <;> cases h

theorem alike_operation : (Expr.operation spelling inner.name [left, right] false).alike op = true ↔
    inner.precedence = op.precedence := by
  rw [alike, Operator.ofName?_name, Option.map_some, decide_eq_true_iff, Option.some.injEq]

/-- What is on the level of an operator between its operands, other than a comparison, is an operation. -/
theorem Legible.exists_operation (h : Legible false right) (strong : 3 ≤ right.level false)
    (weak : right.level false ≤ 12) (plain : right.level false ≠ 9) : ∃ spelling inner y z,
      right = .operation spelling (Operator.name inner) [y, z] false ∧ inner.level = right.level false := by
  cases h with
  | binary => exact ⟨_, _, _, _, rfl, level_operation.symm⟩
  | power => exact ⟨_, _, _, _, rfl, level_operation.symm⟩
  | prefixed hop => simp [level_prefixed hop] at weak
  | postfixed hop => simp [level_postfixed hop] at weak
  | name _ he => simp [← he, level_ofName] at weak
  | juxtaposition => simp [level_juxtapose] at weak
  | assigned he => simp [level_assigned he] at strong
  | comparison => exact absurd rfl plain
  | range | steppedRange | conditional => simp [Expr.level] at strong
  | _ => exact absurd (show 17 ≤ 12 from weak) (by decide)

/-- What is on the level of an operator is alike, but for chains of comparisons. -/
theorem Legible.lt_level (h : Legible false right) (hop : Operator.binary? spelling = some op)
    (weak : op.level ≤ 12) (apart : right.alike op = false)
    (level : (if op.isRelational then 10 else op.level) ≤ right.level false) :
    op.level < right.level false := by
  obtain ⟨_, hpower⟩ | ⟨_, _, strong, _⟩ := Operator.level_of_binary hop
  · omega
  cases relational : op.isRelational with
  | true =>
      rw [relational, if_pos rfl] at level
      have := op.isRelational_iff.1 relational
      omega
  | false =>
      rw [relational, if_neg Bool.false_ne_true] at level
      refine Nat.lt_of_le_of_ne level fun heq => ?_
      have plain : op.level ≠ 9 := fun h9 => by
        rw [op.isRelational_iff.2 h9] at relational
        cases relational
      obtain ⟨_, inner, _, _, rfl, hlevel⟩ := h.exists_operation (by omega) (by omega) (by omega)
      have hprecedence : inner.precedence = op.precedence := by
        rw [Operator.precedence_eq_level (by omega), Operator.precedence_eq_level weak]
        omega
      rw [alike_operation.2 hprecedence] at apart
      cases apart

/-- An operation is legible as it is read, if its operands are not looser than the operator. -/
theorem Legible.absorb (hop : Operator.binary? spelling = some op) (weak : op.level ≤ 12)
    (hleft : Legible false left)
    (leftLevel : (if op.isRelational then 10 else op.level) ≤ left.level false)
    (hright : Legible false right)
    (rightLevel : (if op.isRelational then 10 else op.level) ≤ right.level false)
    (divides : op = .divide → right.alike op = false ∧ right.opensProduct false = false) :
    Legible false (Expr.absorb spelling op left right) := by
  induction right using alike_induction op with
  | apart right h =>
      rw [absorb_apart h]
      exact .binary hop weak hleft leftLevel hright (hright.lt_level hop weak h rightLevel)
        fun hdivide _ => (divides hdivide).2
  | alike spelling' inner y z hprecedence ih =>
      have hlevel := Operator.level_of_precedence_eq hprecedence
      have hrelational := (Operator.of_precedence_eq hprecedence).2.2
      obtain ⟨hop', hy, yLevel, hz, zLevel, divides'⟩ := hright.operands (by omega)
      have plain : op.isRelational = false := by
        rw [Bool.eq_false_iff]
        intro relational
        rw [relational, if_pos rfl, level_operation, hlevel, op.isRelational_iff.1 relational] at rightLevel
        omega
      have hdivide : op ≠ .divide := fun hdivide => by
        have := (divides hdivide).1
        rw [alike_operation.2 hprecedence] at this
        cases this
      rw [hrelational, hlevel] at yLevel
      rw [absorb_alike hprecedence]
      refine .binary hop' (by omega) (ih hy yLevel (absurd · hdivide)) ?_ hz zLevel ?_
      · rw [hrelational, plain, if_neg Bool.false_ne_true, level_absorb, hlevel]
      · rw [lastFactor_absorb spelling weak]
        exact divides'

/-! ### What is regrouped -/

/-- An operation is read regrouped if its right operand joins the operator. -/
theorem regrouped_absorb (joins : right.joins op = true) :
    Regrouped (.operation spelling op.name [left.bare, right.bare] false)
      (absorb spelling op left right).bare := by
  induction right using alike_induction op with
  | apart right h =>
      rw [absorb_apart h, bare, bareAll, bareAll, bareAll]
      exact .refl _
  | alike spelling' inner y z hprecedence ih =>
      obtain ⟨associative, hjoins⟩ := joins_operation.1 joins hprecedence
      rw [absorb_alike hprecedence, bare, bare, bareAll, bareAll, bareAll, bareAll, bareAll]
      exact (Regrouped.regroup associative spelling spelling' left.bare y.bare z.bare false false).trans
        (.child (.operation spelling' inner.name [] false) [] [z.bare] (ih hjoins))

end

end Expr

end Formula
