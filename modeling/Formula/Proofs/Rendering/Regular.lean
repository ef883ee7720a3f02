import Formula.Proofs.Lines
import Formula.Proofs.Rendering.Kept

/-!
What is written of a legible expression is legible.

The parentheses that are written are enough, but they can be too many: behind a name, parentheses that
are added in front of a factor are those of a call, and a quotient of numbers in parentheses, or with
parentheses in it, is no longer held together by the factor behind it. `Regular` says that this does not
happen.
-/

namespace Formula.Expr

open Grammar Rendering

/-! ### Quotients of numbers in front of factors -/

/-- A quotient of numbers, which a factor behind it holds together. -/
def isNumericQuotient : Expr → Bool
  | .operation _ function [left, right] false =>
    Operator.ofName? function = some .divide && isFraction left right
  | _ => false

/-- Whether an expression ends in a product with a quotient of numbers that holds together in front of a
factor only. -/
def exposesFraction : Expr → Bool
  | .operation _ function [_, right] juxtaposed =>
    if juxtaposed then right.isNumericQuotient || right.exposesFraction
    else (Operator.ofName? function).any (·.level = 12) && right.isNumericQuotient
      || (Operator.ofName? function).any (·.level ≤ 12) && right.exposesFraction
  | .range _ stop _ => stop.exposesFraction
  | .conditional _ _ no => no.exposesFraction
  | .assignment _ _ value => value.exposesFraction
  | .definition _ _ body => body.exposesFraction
  | .comparison _ operands => lastOf operands
  | _ => false
where
  lastOf : List Expr → Bool
    | [] => false
    | [e] => e.exposesFraction
    | _ :: es => lastOf es

/-- Whether a number has one sign at most, so that it is written without parentheses. -/
def isSignedOnce : Expr → Bool
  | .operation _ _ [e] _ => e.form ≠ .operation
  | _ => true

/-- Whether a quotient of numbers at the end of an expression stays one where a factor follows: no
parentheses are written around a part of it, or between it and the factor. -/
def settles : Expr → Bool
  | .operation spelling function [left, right] juxtaposed =>
    let root := .operation spelling function [left, right] juxtaposed
    (!root.isNumericQuotient || left.isSignedOnce) && right.settles
      && !(isLooser .keep root right (grouping? .keep root = some .left)
        && (right.written {}).exposesFraction)
  | .range _ stop _ => stop.settles
  | .conditional _ _ no =>
    no.settles && !(wrapsAt .keep Precedence.conditional no && (no.written {}).exposesFraction)
  | .assignment _ _ value =>
    value.settles && !(wrapsAt .keep Precedence.assignment value && (value.written {}).exposesFraction)
  | .definition _ _ body =>
    body.settles && !(wrapsAt .keep Precedence.assignment body && (body.written {}).exposesFraction)
  | .comparison _ operands => lastOf operands
  | _ => true
where
  lastOf : List Expr → Bool
    | [] => true
    | [e] => e.settles
    | _ :: es => lastOf es

section

variable {f : Bool} {e left right : Expr} {wrap : Bool}

theorem exposesFraction_comparison {functions : List String} {operands : List Expr} {last : Expr} :
    (Expr.comparison functions (operands ++ [last])).exposesFraction = last.exposesFraction := by
  rw [exposesFraction]
  induction operands with
  | nil => rfl
  | cons e operands ih =>
      cases operands with
      | nil => rfl
      | cons e' operands => exact ih

theorem settles_comparison {functions : List String} {operands : List Expr} {last : Expr} :
    (Expr.comparison functions (operands ++ [last])).settles = last.settles := by
  rw [settles]
  induction operands with
  | nil => rfl
  | cons e operands ih =>
      cases operands with
      | nil => rfl
      | cons e' operands => exact ih

theorem exposesFraction_assigned {target value : Expr} (he : assign target value = .ok e) :
    e.exposesFraction = value.exposesFraction := by
  obtain ⟨_, _, rfl⟩ | ⟨_, _, _, rfl⟩ | ⟨_, _, _, rfl⟩ := assign_eq_ok he <;> rfl

theorem settles_assigned {target value : Expr} (he : assign target value = .ok e) :
    e.settles = (value.settles
      && !(wrapsAt .keep Precedence.assignment value && (value.written {}).exposesFraction)) := by
  obtain ⟨_, _, rfl⟩ | ⟨_, _, _, rfl⟩ | ⟨_, _, _, rfl⟩ := assign_eq_ok he <;> rfl

/-- Only quotients of numbers hold together more tightly in front of a factor. -/
theorem level_eq_of_not_quotient (h : e.isNumericQuotient = false) (f g : Bool) :
    e.level f = e.level g := by
  cases e with
  | operation spelling function operands juxtaposed =>
      simp only [level]
      split
      · rfl
      · rename_i hjuxtaposed
        split
        · rename_i left right hdivide
          obtain rfl : juxtaposed = false := by simpa using hjuxtaposed
          have hfraction : isFraction left right = false := by
            simpa [isNumericQuotient, hdivide] using h
          rw [hfraction, Bool.and_false, Bool.and_false]
        · rfl
        · rfl
  | _ => rfl

theorem isNumericQuotient_ofName (name : String) : (ofName name).isNumericQuotient = false := by
  unfold ofName
  repeat' split
  all_goals rfl

theorem exists_of_isNumericQuotient (h : e.isNumericQuotient = true) : ∃ spelling left right,
    e = .operation spelling Operator.divide.name [left, right] false ∧ isFraction left right = true := by
  unfold isNumericQuotient at h
  split at h
  · obtain ⟨hdivide, hfraction⟩ := Bool.and_eq_true_iff.1 h
    exact ⟨_, _, _, by rw [Operator.name_of_ofName? (by simpa using hdivide)], hfraction⟩
  · cases h

theorem level_of_isNumericQuotient (h : e.isNumericQuotient = true) : e.level false = 12 := by
  obtain ⟨_, _, _, rfl, _⟩ := exists_of_isNumericQuotient h
  rfl

theorem opensProduct_false_of {f : Bool} (h : e.opensProduct f = false) : e.opensProduct false = false := by
  unfold opensProduct at h ⊢
  split
  · exact h
  · exact Bool.and_false _

theorem level_of_isLiteral (h : e.isLiteral = true) (f : Bool) : e.level f = 17 := by
  unfold isLiteral at h
  split at h
  · rfl
  · cases h

/-- An expression that ends in no such product may stand alone as well as in front of a factor. -/
theorem Legible.of_unfollowed (h : Legible f e) (alone : e.exposesFraction = false) : Legible false e := by
  induction h with
  | number lexical literal => exact .number lexical literal
  | string value => exact .string value
  | name lexical he => exact .name lexical he
  | word hname infix_ => exact .word hname infix_
  | parenthesis h => exact .parenthesis h
  | array h => exact .array h
  | object h nodup => exact .object h nodup
  | call hcallee callable h => exact .call hcallee callable h
  | index howner level h => exact .index howner level h
  | property howner level lexical => exact .property howner level lexical
  | postfixed hop h level => exact .postfixed hop h level
  | power hspelling hop hleft leftLevel hright rightLevel =>
      exact .power hspelling hop hleft leftLevel hright rightLevel
  | prefixed hop h level => exact .prefixed hop h level
  | @fraction left right hfraction hleft hright =>
      obtain ⟨hnumeral, hliteral⟩ := Bool.and_eq_true_iff.1 hfraction
      have leftLevel := level_of_isNumeral hleft hnumeral
      refine .binary (by decide) (by decide) hleft ?_ hright ?_ fun _ _ =>
        opensProduct_of_isLiteral hliteral
      · exact Nat.le_trans (by decide) leftLevel
      · rw [level_of_isLiteral hliteral]
        decide
  | juxtaposition hleft leftLevel hright rightLevel opens called _ ih =>
      obtain ⟨hquotient, halone⟩ := Bool.or_eq_false_iff.1 (show (_ || _) = false from alone)
      exact .juxtaposition hleft leftLevel (ih halone)
        (by rwa [level_eq_of_not_quotient hquotient false]) opens called
  | @binary f spelling op left right hop weak hleft leftLevel hright rightLevel divides _ ih =>
      simp only [exposesFraction, Operator.ofName?_name, Option.any_some, weak, decide_true,
        Bool.true_and, Bool.false_eq_true, if_false, Bool.or_eq_false_iff] at alone
      obtain ⟨hquotient, halone⟩ := alone
      refine .binary hop weak hleft leftLevel (ih halone) ?_ fun hdivide hnumeral =>
        opensProduct_false_of (divides hdivide hnumeral)
      by_cases h : right.isNumericQuotient = true
      · rw [level_of_isNumericQuotient h]
        have hlevel : op.level ≠ 12 := by simpa [h] using hquotient
        omega
      · rwa [level_eq_of_not_quotient (by simpa using h) false f]
  | comparison comparisons many length h levels hlast lastLevel _ ih =>
      exact .comparison comparisons many length h levels (ih (exposesFraction_comparison ▸ alone))
        (le_level (by decide) lastLevel false)
  | range hstart startLevel hstop stopLevel _ ih =>
      exact .range hstart startLevel (ih alone) (le_level (by decide) stopLevel false)
  | steppedRange hstart startLevel hstep stepLevel hstop stopLevel _ _ ih =>
      exact .steppedRange hstart startLevel hstep stepLevel (ih alone)
        (le_level (by decide) stopLevel false)
  | conditional hcondition conditionLevel hyes hcolon hno _ _ ih =>
      exact .conditional hcondition conditionLevel hyes hcolon (ih alone)
  | assigned he htarget hvalue _ ih =>
      exact .assigned he htarget (ih (exposesFraction_assigned he ▸ alone))

/-! ### What is written is legible -/

theorem wrappedOperands_one {spelling function : String} {juxtaposed : Bool}
    (h : strength? .keep e = none) :
    wrappedOperands {} false (.operation spelling function [e] juxtaposed) [e] juxtaposed = [false] := by
  simp [wrappedOperands, looseOperands, h]

theorem wrappedOperands_two {root : Expr} {juxtaposed : Bool} :
    wrappedOperands {} false root [left, right] juxtaposed
      = [isLooser .keep root left (grouping? .keep root = some .right),
        isLooser .keep root right (grouping? .keep root = some .left)] := by
  simp [wrappedOperands, looseOperands]

/-- A number with one sign is written as it is. -/
theorem isNumeral_written (h : isNumeral e = true) (once : e.isSignedOnce = true) :
    isNumeral (e.written {}) = true := by
  cases e with
  | constant => exact h
  | operation spelling function operands juxtaposed =>
      match operands with
      | [] | _ :: _ :: _ => cases h
      | [e] =>
          rw [isNumeral, Bool.and_eq_true] at h
          cases e with
          | constant value kind =>
              rw [written_one (wrappedOperands_one rfl), isNumeral, Bool.and_eq_true]
              exact h
          | operation => cases once
          | _ => cases h.2
  | _ => cases h

/-- Legible expressions hold together as tightly as their operators bind, up to products. -/
theorem Legible.strength_cases (h : Legible f e) {k : Nat} (hk : strength? .keep e = some k) :
    e.level f ≤ k ∨ 12 ≤ k := by
  have precedence_eq : ∀ {spelling : String} {op : Operator} {operands : List Expr} {juxtaposed : Bool},
      strength? .keep (.operation spelling op.name operands juxtaposed) = some k → k = op.precedence := by
    intro spelling op operands juxtaposed hk
    have hop : (Operator.ofName? op.name).map Operator.precedence = some k := hk
    rw [Operator.ofName?_name, Option.map_some] at hop
    exact (Option.some.inj hop).symm
  have tight : ∀ op : Operator, 12 ≤ op.level → 12 ≤ op.precedence := by
    intro op
    cases op <;> decide
  have weak : ∀ op : Operator, op.level ≤ 12 → op.level = op.precedence := by
    intro op
    cases op <;> decide
  cases h with
  | postfixed hop =>
      rw [precedence_eq hk]
      exact .inr (tight _ (by rw [Operator.level_of_trailing hop]; decide))
  | prefixed hop =>
      rw [precedence_eq hk]
      exact .inr (tight _ (by rw [Operator.level_of_leading hop]; decide))
  | power hspelling hop =>
      rw [precedence_eq hk]
      obtain ⟨_, hlevel⟩ | ⟨h, h', _⟩ := Operator.level_of_binary hop
      · exact .inr (tight _ (by rw [hlevel]; decide))
      · exact absurd hspelling (not_or.2 ⟨h, h'⟩)
  | fraction => exact .inr (Nat.le_of_eq (precedence_eq hk).symm)
  | juxtaposition => exact .inr (Nat.le_of_eq (Option.some.inj hk))
  | binary hop hweak hleft leftLevel hright rightLevel divides =>
      rw [precedence_eq hk, level_binary, if_neg (not_fraction hleft divides), weak _ hweak]
      exact .inl (Nat.le_refl _)
  | comparison => exact .inl (Nat.le_of_eq (Option.some.inj hk))
  | range => exact .inl (Nat.le_of_eq (Option.some.inj hk))
  | steppedRange => exact .inl (Nat.le_of_eq (Option.some.inj hk))
  | conditional => exact .inl (Nat.le_of_eq (Option.some.inj hk))
  | assigned he =>
      rw [level_assigned he]
      exact .inl (Nat.zero_le _)
  | @name _ name _ _ he =>
      rw [← he] at hk
      obtain ⟨_, _, h, _⟩ | h := ofName_cases name <;> rw [h] at hk <;> cases hk
  | _ => cases hk

theorem wrapsAt_eq_false (h : Legible f e) {limit : Nat} (weak : limit < 12) (level : limit < e.level f) :
    wrapsAt .keep limit e = false := by
  cases hk : strength? .keep e with
  | none => simp [wrapsAt, hk]
  | some k =>
      have : ¬ k ≤ limit := by rcases h.strength_cases hk with h | h <;> omega
      simp [wrapsAt, hk, this]

theorem not_isLooser {root : Expr} {other : Bool} {k : Nat} (hroot : strength? .keep root = some k)
    (h : ∀ l, strength? .keep e = some l → k < l ∨ k = l ∧ (other = true → regroups .keep root e = true)) :
    isLooser .keep root e other = false := by
  unfold isLooser
  rw [hroot]
  cases he : strength? .keep e with
  | none => rfl
  | some l =>
      rcases h l he with h | ⟨rfl, h⟩
      · have : ¬ l < k := by omega
        have : ¬ l = k := by omega
        simp [*]
      · cases other <;> simp_all

theorem isLooser_of_level {spelling : String} {op : Operator} {operands : List Expr} {other : Bool}
    (weak : op.level ≤ 12) (h : 15 ≤ e.level f) :
    isLooser .keep (.operation spelling op.name operands false) e other = false := by
  have hstrength : op.precedence ≤ 12 := by
    revert weak
    cases op <;> decide
  refine not_isLooser (k := op.precedence) ?_ fun l hl => .inl ?_
  · show (Operator.ofName? op.name).map _ = _
    rw [Operator.ofName?_name, Option.map_some]
  · have := strength?_of_level h hl
    omega

/-- What is written of a quotient of numbers is a quotient of numbers. -/
theorem isFraction_written {f : Bool} (hleft : Legible f left) (h : isFraction left right = true)
    (once : left.isSignedOnce = true) :
    (Expr.operation "/" Operator.divide.name [left, right] false).written {}
      = .operation "/" Operator.divide.name [left.written {}, right.written {}] false ∧
      isFraction (left.written {}) (right.written {}) = true := by
  obtain ⟨hnumeral, hliteral⟩ := Bool.and_eq_true_iff.1 h
  have hright : 15 ≤ right.level false := by
    rw [level_of_isLiteral hliteral]
    decide
  have hwrap : wrappedOperands {} false (.operation "/" Operator.divide.name [left, right] false)
      [left, right] false = [false, false] := by
    rw [wrappedOperands_two, isLooser_of_level (by decide) (level_of_isNumeral hleft hnumeral),
      isLooser_of_level (by decide) hright]
  refine ⟨by rw [written_two hwrap]; rfl, ?_⟩
  rw [isFraction, isNumeral_written hnumeral once, isLiteral_written, hliteral]
  rfl

/-- What is written holds together as tightly, also in front of a factor. -/
theorem le_level_written (h : Legible f e) (settled : f = true → e.settles = true) :
    e.level f ≤ (e.written {}).level f := by
  cases f with
  | false => exact Nat.le_of_eq (level_written e).symm
  | true =>
      cases hquotient : e.isNumericQuotient with
      | false =>
          rw [level_eq_of_not_quotient hquotient true false, ← level_written]
          exact level_false_le _
      | true =>
          cases h with
          | fraction hfraction hleft hright =>
              have hsettled := settled rfl
              simp only [settles, hquotient, Bool.not_true, Bool.false_or, Bool.and_eq_true] at hsettled
              obtain ⟨hwritten, hfraction'⟩ := isFraction_written hleft hfraction hsettled.1.1
              rw [hwritten, level_binary, level_binary, if_pos ⟨rfl, rfl, hfraction⟩, if_pos ⟨rfl, rfl, hfraction'⟩]
          | power hspelling hop =>
              obtain ⟨hdivide, _⟩ := Bool.and_eq_true_iff.1 (show (_ && _) = true from hquotient)
              obtain rfl : _ = Operator.divide := by simpa using hdivide
              rcases hspelling with rfl | rfl <;> exact absurd hop (by decide)
          | binary hop weak hleft leftLevel hright rightLevel divides =>
              obtain ⟨hdivide, hfraction⟩ := Bool.and_eq_true_iff.1 (show (_ && _) = true from hquotient)
              exact absurd ⟨by simpa using hdivide, rfl, hfraction⟩ (not_fraction hleft divides)
          | name lexical he =>
              rw [← he, isNumericQuotient_ofName] at hquotient
              cases hquotient
          | assigned he =>
              obtain ⟨_, _, rfl⟩ | ⟨_, _, _, rfl⟩ | ⟨_, _, _, rfl⟩ := assign_eq_ok he <;> cases hquotient
          | _ => cases hquotient

/-- What it takes for the tokens of a node to be read as the node: a property is not behind a number of
digits alone, which would go on with its point, and a factor that is written with parentheses in front
is not behind what could be called with them. A quotient of numbers stays together as a factor. -/
def Regular : Expr → Prop
  | .access owner (.index _ true) => owner.isWhole = false
  | .operation _ _ [left, right] true =>
    ((right.written {}).opening = .parenthesis → (left.written {}).endsCallable = false) ∧
      left.settles = true
  | _ => True

theorem Regular.of_assigned {target value : Expr} (he : assign target value = .ok e) :
    Regular target := by
  obtain ⟨_, rfl, _, rfl⟩ | ⟨owner, part, rfl, howner, _, rfl⟩ | ⟨_, _, rfl, _, rfl⟩ :=
    assign_eq_ok_iff.1 he
  · trivial
  · have hwhole : owner.isWhole = false := by
      cases owner with
      | symbol | access => rfl
      | _ => cases howner
    unfold Regular
    split
    · rename_i heq
      obtain ⟨rfl, _⟩ := Expr.access.inj heq
      exact hwhole
    · trivial
    · trivial
  · trivial

theorem exposesQuotient_of_tight (tight : 15 ≤ e.level false) : e.exposesQuotient = false := by
  cases e with
  | operation spelling function operands juxtaposed =>
      rw [level_false_operation] at tight
      unfold exposesQuotient
      split
      · rename_i left right _ heq
        obtain ⟨rfl, rfl, rfl, rfl⟩ := Expr.operation.inj heq
        cases juxtaposed with
        | true => simp at tight
        | false =>
            cases hop : Operator.ofName? function with
            | none => rfl
            | some op =>
                have hlevel : 15 ≤ op.level := by simpa [hop] using tight
                have hdivide : op ≠ .divide := by
                  rintro rfl
                  exact absurd hlevel (by decide)
                have : ¬ op.level ≤ 12 := by omega
                simp [hdivide, this]
      all_goals first | rfl | simp_all
  | assignment | definition | conditional | range | comparison => simp [level] at tight
  | _ => rfl

theorem exposesQuotient_of_level (h : Legible false e) (level : 13 ≤ e.level false) :
    e.exposesQuotient = false := by
  obtain h | ⟨h, _⟩ | ⟨left, right, rfl, _, _, hright, rightLevel, _⟩ := h.factor_cases level
  · exact exposesQuotient_of_tight h
  · cases h
  · obtain h | ⟨h, _⟩ := hright.operand_or_fraction rightLevel
    · exact exposesQuotient_of_tight (e := right) h
    · cases h

theorem le_level_before {g : Bool} {k : Nat} (h : k ≤ e.level f) (hg : f = true → g = true) :
    k ≤ e.level g := by
  cases f with
  | true => rwa [hg rfl]
  | false =>
      cases g with
      | false => exact h
      | true => exact Nat.le_trans h (level_false_le e)

/-- What stands in front of a factor or not may as well stand in front of one, if it is a product or
tighter. -/
theorem Legible.before {g : Bool} (h : Legible f e) (level : 13 ≤ e.level f) (hg : f = true → g = true) :
    Legible g e := by
  cases f with
  | true => rwa [hg rfl]
  | false =>
      cases g with
      | false => exact h
      | true => exact h.of_followed rfl (exposesQuotient_of_level h level)

theorem written_juxtapose (hleft : Legible right.opening.isFactor left)
    (leftLevel : 13 ≤ left.level right.opening.isFactor) (hright : Legible f right)
    (rightLevel : 14 ≤ right.level f) :
    (juxtapose left right).written {} = juxtapose (left.written {}) (right.written {}) := by
  have hroot : strength? .keep (juxtapose left right) = some 12 := rfl
  have hwrap : wrappedOperands {} false (juxtapose left right) [left, right] true = [false, false] := by
    rw [wrappedOperands_two, not_isLooser hroot, not_isLooser hroot]
    · intro l hl
      obtain h | ⟨_, _, _, rfl, _⟩ := hright.operand_or_fraction rightLevel
      · have := strength?_of_level h hl
        omega
      · exact .inr ⟨Option.some.inj hl, fun _ => rfl⟩
    · intro l hl
      rcases hleft.strength_cases hl with h | h
      · omega
      · rcases Nat.eq_or_lt_of_le h with h | h
        · exact .inr ⟨h, nofun⟩
        · exact .inl h
  exact written_two hwrap

theorem exposesColon_enclosed {e : Expr} (h : e.exposesColon = false) :
    (Expr.enclosed wrap e).exposesColon = false := by
  cases wrap with
  | false => exact h
  | true => rfl

theorem opensProduct_of_enclosed {e : Expr} (h : (Expr.enclosed wrap e).opensProduct f = true) :
    e.opensProduct f = true := by
  cases wrap with
  | false => exact h
  | true => cases h

theorem Legible.exists_juxtapose {spelling function : String} {operands : List Expr}
    (h : Legible f (.operation spelling function operands true)) : ∃ left right,
    Expr.operation spelling function operands true = juxtapose left right := by
  cases h with
  | juxtaposition => exact ⟨_, _, rfl⟩
  | name _ he => rcases form_ofName _ with h | h <;> rw [he] at h <;> cases h
  | assigned he => rcases form_assigned he with h | h <;> cases h

/-- Behind a division, a product by juxtaposition is written in parentheses. -/
theorem Legible.opensProduct_of_divided {spelling : String} (h : Legible f right)
    (hopens : (Expr.enclosed (isLooser .keep (.operation spelling Operator.divide.name [left, right] false)
      right (grouping? .keep (.operation spelling Operator.divide.name [left, right] false) = some .left))
      (right.written {})).opensProduct f = true) : right.opensProduct f = true := by
  have grouping : grouping? .keep (.operation spelling Operator.divide.name [left, right] false)
      = some .left := rfl
  rw [grouping] at hopens
  have hwritten := opensProduct_of_enclosed hopens
  cases right with
  | operation spelling' function operands juxtaposed =>
      cases juxtaposed with
      | false =>
          obtain ⟨operands', heq, _⟩ := exists_written_operation {} spelling' function operands false
          rw [heq, Bool.false_and, opensProduct] at hwritten
          · cases hwritten
          · simp
      | true =>
          obtain ⟨left', right', hjuxtapose⟩ := h.exists_juxtapose
          rw [hjuxtapose] at hopens
          have hloose : isLooser .keep (.operation spelling Operator.divide.name [left, juxtapose left' right'] false) (juxtapose left' right') true = true := rfl
          simp [hloose, Expr.enclosed, opensProduct, isLiteral] at hopens
  | _ => exact hwritten

/-- A part is legible in its parentheses, which may keep away what follows. -/
theorem Legible.part {e : Expr} (h : Legible f (e.written {})) (wrap : Bool)
    (settled : f = true → (!(wrap && (e.written {}).exposesFraction)) = true) :
    Legible f (Expr.enclosed wrap (e.written {})) := by
  cases wrap with
  | false => exact h
  | true =>
      cases f with
      | false => exact .parenthesis h
      | true => exact .parenthesis (h.of_unfollowed (by simpa using settled rfl))

theorem Legible.written (h : Legible f e) (regular : e.Everywhere Regular)
    (settled : f = true → e.settles = true) : Legible f (e.written {}) := by
  have unsettled {e : Expr} : false = true → e.settles = true := (absurd · Bool.false_ne_true)
  induction h with
  | number lexical literal => exact .number lexical literal
  | string value => exact .string value
  | @name f name e lexical he =>
      subst he
      rw [written_ofName]
      exact .name lexical rfl
  | word hname infix_ => exact .word hname infix_
  | parenthesis h ih => exact .parenthesis (ih (regular.child _ (by simp [children])) unsettled)
  | array h ih =>
      rw [Expr.written, writtenAll_eq]
      refine .array (List.forall_mem_map.2 fun e he => ih e he (regular.child e ?_) unsettled)
      simpa [children] using he
  | object h nodup ih =>
      rw [Expr.written, writtenProperties_eq]
      refine .object (List.forall_mem_map.2 fun p hp => ih p hp (regular.child p.2 ?_) unsettled) ?_
      · exact List.mem_map.2 ⟨_, List.mem_map_of_mem hp, rfl⟩
      · rw [Record.keys, List.map_map]
        exact nodup
  | call hcallee callable h ihcallee ih =>
      obtain ⟨hwrap, callable'⟩ := enclosed_callee {} callable
      rw [Expr.written, hwrap, writtenAll_eq]
      refine .call (ihcallee (regular.child _ (by simp [children])) unsettled) callable' ?_
      refine List.forall_mem_map.2 fun e he => ih e he (regular.child e ?_) unsettled
      simp [children, he]
  | @index f owner dimensions howner level h ihowner ih =>
      have hpart := regular.child (.index dimensions false) (by simp [children])
      rw [Expr.written, Expr.written, writtenAll_eq]
      refine .index (ihowner (regular.child _ (by simp [children])) unsettled).enclosed
        (le_level_enclosed (by decide) level) ?_
      refine List.forall_mem_map.2 fun e he => ih e he (hpart.child e ?_) unsettled
      simpa [children] using he
  | property howner level lexical ih =>
      rw [Expr.written]
      exact .property (ih (regular.child _ (by simp [children])) unsettled).enclosed
        (le_level_enclosed (by decide) level) lexical
  | @postfixed f spelling op e hop h level ih =>
      obtain ⟨wrap, hwrap⟩ := exists_wrappedOperand {} (.operation spelling op.name [e] false) e false
      rw [written_one hwrap]
      exact .postfixed hop (ih (regular.child _ (by simp [children])) unsettled).enclosed
        (le_level_enclosed (by decide) level)
  | @prefixed f spelling op e hop h level ih =>
      obtain ⟨wrap, hwrap⟩ := exists_wrappedOperand {} (.operation spelling op.name [e] false) e false
      rw [written_one hwrap]
      exact .prefixed hop (ih (regular.child _ (by simp [children])) unsettled).enclosed
        (le_level_enclosed (by decide) level)
  | @power f spelling op left right hspelling hop _ leftLevel _ rightLevel ih ih' =>
      rw [written_two wrappedOperands_two]
      exact .power hspelling hop (ih (regular.child _ (by simp [children])) unsettled).enclosed
        (le_level_enclosed (by decide) leftLevel)
        (ih' (regular.child _ (by simp [children])) unsettled).enclosed
        (le_level_enclosed (by decide) rightLevel)
  | @fraction left right hfraction hleft hright ih ih' =>
      have hsettled := settled rfl
      have hquotient : (Expr.operation "/" Operator.divide.name [left, right] false).isNumericQuotient
          = true := hfraction
      simp only [settles, hquotient, Bool.not_true, Bool.false_or, Bool.and_eq_true] at hsettled
      obtain ⟨hwritten, hfraction'⟩ := isFraction_written hleft hfraction hsettled.1.1
      rw [hwritten]
      exact .fraction hfraction' (ih (regular.child _ (by simp [children])) unsettled)
        (ih' (regular.child _ (by simp [children])) unsettled)
  | @juxtaposition f left right hleft leftLevel hright rightLevel opens called ih ih' =>
      obtain ⟨hcall, hsettles⟩ : _ ∧ left.settles = true := regular.here
      have hsettled : f = true → right.settles = true := fun hf =>
        (Bool.and_eq_true_iff.1 (Bool.and_eq_true_iff.1 (settled hf)).1).2
      have opening := opening_written hright
      have hflag : right.opening.isFactor = true → (right.written {}).opening.isFactor = true := by
        rcases opening with h | h
        · rw [h]
          exact id
        · rw [h]
          exact fun _ => rfl
      have hleft' := ih (regular.child _ (by simp [children, juxtapose])) fun _ => hsettles
      have hright' := ih' (regular.child _ (by simp [children, juxtapose])) hsettled
      have leftLevel' := Nat.le_trans leftLevel (le_level_written hleft fun _ => hsettles)
      rw [written_juxtapose hleft leftLevel hright rightLevel]
      refine .juxtaposition (hleft'.before leftLevel' hflag) (le_level_before leftLevel' hflag) hright'
        (Nat.le_trans rightLevel (le_level_written hright hsettled)) ?_ hcall
      rcases opening with h | h
      · rw [h]
        exact opens.imp_right (And.imp_right (lastFactor_written hleft).endsLikeNumber)
      · rw [h]
        exact .inl rfl
  | @binary f spelling op left right hop weak hleft leftLevel hright rightLevel divides ih ih' =>
      have hsettled := fun hf => Bool.and_eq_true_iff.1 (settled hf)
      have hright' := ih' (regular.child _ (by simp [children])) fun hf =>
        (Bool.and_eq_true_iff.1 (hsettled hf).1).2
      rw [written_two wrappedOperands_two]
      refine .binary hop weak (ih (regular.child _ (by simp [children])) unsettled).enclosed
        (le_level_enclosed ?_ leftLevel) (hright'.part _ fun hf => (hsettled hf).2) ?_ ?_
      · split <;> omega
      · exact level_enclosed (by omega) (Nat.le_trans rightLevel (le_level_written hright fun hf =>
          (Bool.and_eq_true_iff.1 (hsettled hf).1).2))
      · rintro rfl hnumeral
        have hnumeral' := (lastFactor_written hleft).enclosed.isNumeral hnumeral
        have hopens := divides rfl hnumeral'
        rw [Bool.eq_false_iff]
        intro h
        rw [hright.opensProduct_of_divided h] at hopens
        cases hopens
  | @comparison f functions operands last comparisons many length h levels hlast lastLevel ih ihlast =>
      have below : ∀ e ∈ operands ++ [last], Everywhere Regular e :=
        fun e he => regular.child e (by simpa [children] using he)
      rw [List.forall_mem_append, List.forall_mem_singleton] at below
      rw [settles_comparison] at settled
      have hwrap : wrapsAt .keep Precedence.relational last = false :=
        wrapsAt_eq_false hlast (by decide) lastLevel
      rw [Expr.written, writtenOperands_eq, List.map_append, List.map_singleton, hwrap]
      refine .comparison comparisons many (by simpa using length) ?_ ?_ (ihlast below.2 settled)
        (Nat.le_trans lastLevel (le_level_written hlast settled))
      · exact List.forall_mem_map.2 fun e he => (ih e he (below.1 e he) unsettled).enclosed
      · exact List.forall_mem_map.2 fun e he => le_level_enclosed (by decide) (levels e he)
  | @range f start stop hstart startLevel hstop stopLevel ih ih' =>
      have hwrap : wrapsAt .keep Precedence.range stop = false :=
        wrapsAt_eq_false hstop (by decide) stopLevel
      rw [Expr.written, hwrap]
      exact .range (ih (regular.child _ (by simp [children])) unsettled).enclosed
        (le_level_enclosed (by decide) startLevel)
        (ih' (regular.child _ (by simp [children])) settled)
        (Nat.le_trans stopLevel (le_level_written hstop settled))
  | @steppedRange f start stop step hstart startLevel hstep stepLevel hstop stopLevel ih ih' ih'' =>
      have hwrap : wrapsAt .keep Precedence.range stop = false :=
        wrapsAt_eq_false hstop (by decide) stopLevel
      rw [Expr.written, hwrap]
      exact .steppedRange (ih (regular.child _ (by simp [children])) unsettled).enclosed
        (le_level_enclosed (by decide) startLevel)
        (ih' (regular.child _ (by simp [children])) unsettled).enclosed
        (le_level_enclosed (by decide) stepLevel)
        (ih'' (regular.child _ (by simp [children])) settled)
        (Nat.le_trans stopLevel (le_level_written hstop settled))
  | @conditional f condition yes no hcondition conditionLevel hyes hcolon hno ih ih' ih'' =>
      have hsettled := fun hf => Bool.and_eq_true_iff.1 (settled hf)
      rw [Expr.written]
      refine .conditional (ih (regular.child _ (by simp [children])) unsettled).enclosed
        (le_level_enclosed (by decide) conditionLevel)
        (ih' (regular.child _ (by simp [children])) unsettled).enclosed ?_
        ((ih'' (regular.child _ (by simp [children])) fun hf => (hsettled hf).1).part _
          fun hf => (hsettled hf).2)
      cases yes with
      | assignment | definition => rfl
      | conditional | range => cases hcolon
      | _ => exact exposesColon_enclosed rfl
  | assigned he htarget hvalue ih ih' =>
      obtain ⟨htarget, hvalue⟩ := everywhere_assigned (fun _ => trivial) Regular.of_assigned he regular
      have hsettled := fun hf => Bool.and_eq_true_iff.1 ((settles_assigned he).symm.trans (settled hf))
      exact .assigned (assign_written he) (ih htarget unsettled)
        ((ih' hvalue fun hf => (hsettled hf).1).part _ fun hf => (hsettled hf).2)

theorem writable_regular : Writable {} Regular where
  name _ := trivial
  target := Regular.of_assigned
  point {owner name} _ regular := by
    have hwhole : owner.isWhole = false := regular.here
    have hform : (owner.written {}).form = owner.form := by
      cases owner <;> rfl
    cases hwrap : wrapsAccessed owner with
    | true => rfl
    | false =>
        have hwhole' : (owner.written {}).isWhole = false := by
          cases owner with
          | constant => exact hwhole
          | _ => rfl
        have hwrap' : wrapsAccessed (owner.written {}) = false := by
          rwa [wrapsAccessed, hform]
        simp [Expr.enclosed, takesPoint, hwhole', hwrap']
  legible h regular := h.written regular nofun

end

end Formula.Expr
