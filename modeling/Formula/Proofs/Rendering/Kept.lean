import Formula.Proofs.Rendering.Text

/-!
What writing keeps of an expression: how tightly it holds together, how it opens and how it ends.
-/

namespace Formula.Expr

open Grammar Rendering

/-! ### How tightly what is written holds together -/

section

variable {f : Bool} {e left right : Expr} {wrap : Bool}

theorem isLiteral_written (e : Expr) : (e.written {}).isLiteral = e.isLiteral := by
  cases e <;> rfl

theorem level_false_operation {spelling function : String} {operands : List Expr} {juxtaposed : Bool} :
    (Expr.operation spelling function operands juxtaposed).level false
      = if juxtaposed then 13 else (Operator.ofName? function).elim 17 Operator.level := by
  simp only [level, Bool.false_and]
  split
  · rfl
  · cases Operator.ofName? function with
    | none => rfl
    | some op => split <;> simp_all [Operator.level, Operator.precedence]

theorem level_written (e : Expr) : (e.written {}).level false = e.level false := by
  cases e with
  | operation spelling function operands juxtaposed =>
      rw [written, level_false_operation, level_false_operation]
      cases juxtaposed <;> rfl
  | _ => rfl

theorem level_enclosed {k : Nat} (hk : k ≤ 17) (h : k ≤ e.level f) : k ≤ (enclosed wrap e).level f := by
  cases wrap with
  | false => exact h
  | true => exact hk

theorem le_level_enclosed {k : Nat} (hk : k ≤ 17) (h : k ≤ e.level false) :
    k ≤ (enclosed wrap (e.written {})).level false :=
  level_enclosed hk (by rwa [level_written])

theorem Legible.enclosed (h : Legible false e) : Legible false (enclosed wrap e) := by
  cases wrap with
  | false => exact h
  | true => exact .parenthesis h

/-- Tight expressions are never looser than operators that are not. -/
theorem strength?_of_level {k : Nat} (h : 15 ≤ e.level f) (hk : strength? .keep e = some k) : 13 ≤ k := by
  have tight : ∀ op : Operator, 15 ≤ op.level → 13 ≤ op.precedence := by
    intro op
    cases op <;> decide
  rw [← level_eq h false] at h
  cases e with
  | operation spelling function operands juxtaposed =>
      rw [level_false_operation] at h
      obtain ⟨op, hop, rfl⟩ := Option.map_eq_some_iff.1 (show (Operator.ofName? function).map _ = _ from hk)
      rw [hop] at h
      split at h
      · omega
      · exact tight op h
  | assignment | definition | conditional | range | comparison => simp [level] at h
  | _ => cases hk

/-! ### How what is written opens and ends -/

/-- Whether an expression opens as another one, or with a parenthesis. -/
def OpensLike (e e' : Expr) : Prop :=
  e'.opening = e.opening ∨ e'.opening = .parenthesis

theorem OpensLike.enclosed {e' : Expr} (h : OpensLike e e') : OpensLike e (enclosed wrap e') := by
  cases wrap with
  | false => exact h
  | true => exact .inr rfl

theorem opening_written (h : Legible f e) : OpensLike e (e.written {}) := by
  induction h with
  | number | string | word | parenthesis | array | object => exact .inl rfl
  | @name _ name _ _ he =>
      subst he
      rw [written_ofName]
      exact .inl rfl
  | call _ _ _ ih _ => exact ih.enclosed
  | index _ _ _ ih _ => exact ih.enclosed
  | property _ _ _ ih => exact ih.enclosed
  | @postfixed _ spelling op e hop _ _ ih =>
      obtain ⟨wrap, hwrap⟩ := exists_wrappedOperand {} (.operation spelling op.name [e] false) e false
      rw [written_one hwrap]
      have hleading := Operator.leading?_of_trailing hop
      simpa [OpensLike, opening, hleading] using ih.enclosed
  | @prefixed _ spelling op e hop _ _ _ =>
      obtain ⟨wrap, hwrap⟩ := exists_wrappedOperand {} (.operation spelling op.name [e] false) e false
      rw [written_one hwrap]
      simp [OpensLike, opening, hop]
  | @power _ spelling op left right _ _ _ _ _ _ ih _ | @binary _ spelling op left right _ _ _ _ _ _ _ ih _ =>
      obtain ⟨wrap, wrap', hwrap⟩ := exists_wrappedOperands {} (.operation spelling op.name [left, right] false) left right false
      rw [written_two hwrap]
      exact ih.enclosed
  | @fraction left right _ _ _ ih _ =>
      obtain ⟨wrap, wrap', hwrap⟩ := exists_wrappedOperands {} (.operation "/" Operator.divide.name [left, right] false) left right false
      rw [written_two hwrap]
      exact ih.enclosed
  | @juxtaposition _ left right _ _ _ _ _ _ ih _ =>
      obtain ⟨wrap, wrap', hwrap⟩ := exists_wrappedOperands {} (juxtapose left right) left right true
      rw [juxtapose] at hwrap ⊢
      rw [written_two hwrap]
      exact ih.enclosed
  | @comparison _ functions operands last _ _ _ _ _ _ _ ih ihlast =>
      cases operands with
      | nil => exact ihlast.enclosed
      | cons e operands => exact (ih e (List.mem_cons_self ..)).enclosed
  | range _ _ _ _ ih _ => exact ih.enclosed
  | steppedRange _ _ _ _ _ _ ih _ _ => exact ih.enclosed
  | conditional _ _ _ _ _ ih _ _ => exact ih.enclosed
  | assigned he _ _ ih _ =>
      obtain ⟨_, rfl, _, rfl⟩ | ⟨owner, _, rfl, howner, _, rfl⟩ | ⟨_, _, rfl, _, rfl⟩ :=
        assign_eq_ok_iff.1 he
      · exact .inl rfl
      · obtain ⟨_, hwrap, _⟩ := checkTarget_written {} howner
        rw [written, hwrap] at ih
        exact ih
      · exact .inl rfl

/-- Whether an expression ends in what is written of a factor, or in parentheses around it. -/
def EndsLike (factor e' : Expr) : Prop :=
  e'.lastFactor = factor.written {} ∨ e'.lastFactor.form = .parenthesis

theorem EndsLike.enclosed {e' : Expr} (h : EndsLike e e') : EndsLike e (enclosed wrap e') := by
  cases wrap with
  | false => exact h
  | true => exact .inr rfl

theorem lastFactor_power {spelling : String} {op : Operator} (tight : 13 ≤ op.level) :
    (Expr.operation spelling op.name [left, right] false).lastFactor
      = .operation spelling op.name [left, right] false := by
  rw [lastFactor, if_neg]
  simp
  omega

/-- The last factor of what is written is what is written of the last factor, unless that is in
parentheses. -/
theorem lastFactor_written (h : Legible f e) : EndsLike e.lastFactor (e.written {}) := by
  induction h with
  | number | string | word | array | object | call | index | property => exact .inl rfl
  | parenthesis => exact .inr rfl
  | @name _ name _ _ he =>
      subst he
      refine .inl ?_
      rw [written_ofName]
      unfold ofName
      repeat' split
      all_goals rfl
  | @postfixed _ spelling op e | @prefixed _ spelling op e =>
      obtain ⟨wrap, hwrap⟩ := exists_wrappedOperand {} (.operation spelling op.name [e] false) e false
      refine .inl ?_
      show _ = (Expr.operation spelling op.name [e] false).written {}
      rw [written_one hwrap]
      rfl
  | @power _ spelling op left right hspelling hop =>
      obtain ⟨wrap, wrap', hwrap⟩ := exists_wrappedOperands {} (.operation spelling op.name [left, right] false) left right false
      have tight : 13 ≤ op.level := by
        obtain ⟨_, h⟩ | ⟨h, h', _⟩ := Operator.level_of_binary hop
        · omega
        · exact absurd hspelling (not_or.2 ⟨h, h'⟩)
      refine .inl ?_
      rw [lastFactor_power tight, written_two hwrap, Bool.false_and, lastFactor_power tight]
  | @binary _ spelling op left right hop weak _ _ _ _ _ _ ih =>
      obtain ⟨wrap, wrap', hwrap⟩ := exists_wrappedOperands {} (.operation spelling op.name [left, right] false) left right false
      rw [EndsLike, written_two hwrap, Bool.false_and, lastFactor_binary weak, lastFactor_binary weak]
      exact ih.enclosed
  | @fraction left right _ _ _ _ ih =>
      obtain ⟨wrap, wrap', hwrap⟩ := exists_wrappedOperands {} (.operation "/" Operator.divide.name [left, right] false) left right false
      rw [EndsLike, written_two hwrap, Bool.false_and, lastFactor_binary (by decide), lastFactor_binary (by decide)]
      exact ih.enclosed
  | @juxtaposition _ left right _ _ _ _ _ _ _ ih =>
      obtain ⟨wrap, wrap', hwrap⟩ := exists_wrappedOperands {} (juxtapose left right) left right true
      rw [juxtapose] at hwrap ⊢
      rw [EndsLike, written_two hwrap]
      exact ih.enclosed
  | @comparison _ functions operands last _ _ _ _ _ _ _ _ ih =>
      rw [EndsLike, written, writtenOperands_eq, List.map_append, List.map_singleton,
        lastFactor_comparison, lastFactor_comparison]
      exact ih.enclosed
  | range _ _ _ _ _ ih => exact ih.enclosed
  | steppedRange _ _ _ _ _ _ _ _ ih => exact ih.enclosed
  | conditional _ _ _ _ _ _ _ ih => exact ih.enclosed
  | assigned he _ _ _ ih =>
      rw [EndsLike, lastFactor_assigned (assign_written he), lastFactor_assigned he]
      exact ih.enclosed

theorem exists_written_operation (style : Style) (spelling function : String) (operands : List Expr)
    (juxtaposed : Bool) : ∃ operands', (Expr.operation spelling function operands juxtaposed).written style
      = .operation spelling function operands' (juxtaposed && style.juxtaposition = .hide) ∧
      operands'.length = operands.length := by
  refine ⟨_, rfl, ?_⟩
  rw [List.length_zipWith, length_wrappedOperands, writtenAll_eq, List.length_map, Nat.min_self]

theorem isNumeral_of_enclosed (h : isNumeral (Expr.enclosed wrap e) = true) : isNumeral e = true := by
  cases wrap with
  | false => exact h
  | true => cases h

theorem isNumeral_of_written : ∀ {e : Expr}, isNumeral (e.written {}) = true → isNumeral e = true
  | .constant .., h => h
  | .operation spelling function [e] juxtaposed, h => by
      obtain ⟨wrap, hwrap⟩ := exists_wrappedOperand {} (.operation spelling function [e] juxtaposed) e
        juxtaposed
      rw [written_one hwrap, isNumeral, Bool.and_eq_true] at h
      rw [isNumeral, Bool.and_eq_true]
      exact ⟨h.1, isNumeral_of_written (isNumeral_of_enclosed h.2)⟩
  | .operation spelling function [] juxtaposed, h => by
      rw [written] at h
      cases h
  | .operation spelling function (e :: e' :: es) juxtaposed, h => by
      obtain ⟨operands, hwritten, hlength⟩ :=
        exists_written_operation {} spelling function (e :: e' :: es) juxtaposed
      rw [hwritten] at h
      rcases operands with _ | ⟨_, _ | ⟨_, _⟩⟩
      · cases hlength
      · cases hlength
      · cases h

theorem exists_of_form_parenthesis (h : e.form = .parenthesis) : ∃ content, e = .parenthesis content := by
  cases e with
  | parenthesis content => exact ⟨content, rfl⟩
  | _ => cases h

theorem EndsLike.isNumeral {factor e' : Expr} (h : EndsLike factor e')
    (hnumeral : isNumeral e'.lastFactor = true) : Grammar.isNumeral factor = true := by
  rcases h with h | h
  · rw [h] at hnumeral
    exact isNumeral_of_written hnumeral
  · obtain ⟨_, h⟩ := exists_of_form_parenthesis h
    rw [h] at hnumeral
    cases hnumeral

theorem EndsLike.endsLikeNumber {factor e' : Expr} (h : EndsLike factor e')
    (hends : endsLikeNumber factor = false) : Grammar.endsLikeNumber e'.lastFactor = false := by
  rcases h with h | h
  · rw [h]
    cases factor with
    | parenthesis => rfl
    | _ => exact hends
  · obtain ⟨_, h⟩ := exists_of_form_parenthesis h
    rw [h]
    rfl

end

end Formula.Expr
