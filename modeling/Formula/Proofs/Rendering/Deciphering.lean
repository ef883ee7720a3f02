import Formula.Expr
import Formula.Rendering.Typeset

/-!
The markup of operators is unambiguous.

`Latex.Reads` says which stretches of markup are operands, level by level: a stretch on a level is an
operand of the next one with operators and operands behind it, so that it is read from the left. What
follows an operand tells the operator that it belongs to (`operatorBehind?`), so no markup can be read in
two ways (`Reads.unique`).
-/

namespace Formula.Latex

open Expr

/-! ### Operators behind an operand -/

/-- The operators that may stand behind an operand, longer ones before their own beginnings. -/
def operatorsBehind : List Operator :=
  [.rightLogShift, .rightArithShift, .larger, .leftShift, .smaller, .xor, .or, .and, .bitOr, .bitXor,
    .bitAnd, .equal, .unequal, .smallerEq, .largerEq, .add, .subtract, .multiply, .dotMultiply,
    .dotDivide, .mod, .pow, .dotPow, .factorial, .transpose]

/-- How an operator begins behind its operand: behind `^` there is a group, which tells it from the
other operators that begin so. -/
def beginning (op : Operator) : List Char :=
  if op = .pow then ['^', '\x7b'] else op.latexSymbol.toList

/-- The operator that a text begins with, behind an operand. -/
def operatorBehind? (cs : List Char) : Option Operator :=
  operatorsBehind.find? fun op => (beginning op).isPrefixOf cs

/-- Whether a text begins as an operand can. -/
def opens (cs : List Char) : Bool :=
  cs.head?.any [' ', '\\', '\x7b', '-', '+'].contains

/-- Whether an operator stands between its operands, both of them in line with it. -/
def isInline (op : Operator) : Bool :=
  !op.isUnary && op.associativity = .left && op ≠ .divide

/-- Whether an operator stands behind its only operand. -/
def isTrailing (op : Operator) : Bool :=
  op.isUnary && op.associativity = .left

/-- Whether an operator stands in front of its operand. -/
def isLeading (op : Operator) : Bool :=
  op.isUnary && op.associativity = .right

variable {op : Operator}

theorem isInline_iff : isInline op = true ↔
    op.isUnary = false ∧ op.associativity = .left ∧ op ≠ .divide := by
  rw [isInline, Bool.and_eq_true, Bool.and_eq_true, Bool.not_eq_true', decide_eq_true_iff,
    decide_eq_true_iff, and_assoc]

theorem divide_or_power_or_isInline (binary : op.isUnary = false) :
    op = .divide ∨ op = .pow ∨ op = .dotPow ∨ isInline op = true := by
  revert binary
  cases op <;> decide

theorem precedence_ne_of_isInline (h : isInline op = true) : op.precedence ≠ 14 := by
  cases op <;> first | decide | exact absurd h (by decide)

theorem not_isTrailing_of_isInline (h : isInline op = true) :
    ¬ isTrailing op = true := by
  cases op <;> first | decide | exact absurd h (by decide)

/-- Behind an operand, an operator is found by its spelling, if an operand follows. -/
theorem operatorBehind?_inline (h : isInline op = true ∨ op = .dotPow) {cs : List Char}
    (hcs : opens cs = true) : operatorBehind? (op.latexSymbol.toList ++ cs) = some op := by
  cases cs with
  | nil => cases hcs
  | cons c cs =>
      simp only [opens, List.head?_cons, Option.any_some, List.contains_cons, List.contains_nil,
        Bool.or_false, Bool.or_eq_true, beq_iff_eq] at hcs
      rcases hcs with rfl | rfl | rfl | rfl | rfl
      all_goals cases op <;> first | rfl | exact absurd h (by decide)

theorem operatorBehind?_trailing (h : isTrailing op = true) (cs : List Char) :
    operatorBehind? (op.latexSymbol.toList ++ cs) = some op := by
  cases op <;> first | rfl | exact absurd h (by decide)

/-- Operators in front of an operand begin in ways of their own. -/
theorem leading_inj {op' : Operator} (h : isLeading op = true) (h' : isLeading op' = true)
    {cs cs' : List Char} (heq : op.latexSymbol.toList ++ cs = op'.latexSymbol.toList ++ cs') :
    op = op' := by
  cases op <;> cases op' <;>
    first
      | rfl
      | exact absurd h (by decide)
      | exact absurd h' (by decide)
      | simp [Operator.latexSymbol] at heq

/-! ### Operands and what follows them -/

/-- What stretches of markup are. -/
inductive Stretch where
  /-- An operand that binds as tightly as a level. -/
  | operand (level : Nat)
  /-- Operators of a level with what is behind them, behind an operand. -/
  | behind (level : Nat) (e : Expr)
  /-- What is behind an operator that is behind an operand. -/
  | after (op : Operator) (e : Expr)

/-- The level on which operators go on behind an operation of a level. Exponents are no bases, and no
operator behind an operand is of level 13. -/
def tail (level : Nat) : Nat :=
  if level = 14 then 13 else level

theorem tail_of_ne {level : Nat} (h : level ≠ 14) : tail level = level :=
  if_neg h

/-- The level that ends a stretch. -/
def Stretch.level : Stretch → Nat
  | .operand level | .behind level _ => level
  | .after op _ => tail op.precedence + 1

/-- Whether operands of a level have operators of the level behind them. -/
def isGrouped (level : Nat) : Bool :=
  level ≤ 16 && level ≠ 13

/-- Which expression a stretch of markup is, together with the operand in front of it. -/
inductive Reads : Stretch → List Char → Expr → Prop
  | letter (c : Char) : Reads (.operand 17) [' ', c] (.symbol (String.singleton c))
  | parens {s : List Char} {e : Expr} (h : Reads (.operand 0) s e) :
      Reads (.operand 17) ("\\left(".toList ++ (s ++ "\\right)".toList)) e
  | group {s : List Char} {e : Expr} (h : Reads (.operand 0) s e) :
      Reads (.operand 17) ('\x7b' :: (s ++ ['\x7d'])) e
  | fraction {s t : List Char} {left right : Expr} (hleft : Reads (.operand 0) s left)
      (hright : Reads (.operand 0) t right) :
      Reads (.operand 17) ("\\frac\x7b".toList ++ (s ++ ("\x7d\x7b".toList ++ (t ++ ['\x7d']))))
        (.apply .divide [left, right])
  | level {k : Nat} {s t : List Char} {e e' : Expr} (grouped : isGrouped k = true)
      (h : Reads (.operand (k + 1)) s e) (more : Reads (.behind k e) t e') :
      Reads (.operand k) (s ++ t) e'
  | unled {s : List Char} {e : Expr} (h : Reads (.operand 14) s e) : Reads (.operand 13) s e
  | led {op : Operator} {s : List Char} {e : Expr} (leading : isLeading op = true)
      (h : Reads (.operand 14) s e) : Reads (.operand 13) (op.latexSymbol.toList ++ s) (.apply op [e])
  | done {k : Nat} {e : Expr} : Reads (.behind k e) [] e
  | operator {op : Operator} {k : Nat} {s t : List Char} {e e' e'' : Expr} (level : op.precedence = k)
      (h : Reads (.after op e) s e') (more : Reads (.behind (tail k) e') t e'') :
      Reads (.behind k e) (op.latexSymbol.toList ++ (s ++ t)) e''
  | inline {op : Operator} {s : List Char} {e right : Expr} (inline : isInline op = true)
      (h : Reads (.operand (op.precedence + 1)) s right) : Reads (.after op e) s (.apply op [e, right])
  | trailing {op : Operator} {e : Expr} (trailing : isTrailing op = true) :
      Reads (.after op e) [] (.apply op [e])
  | powered {s : List Char} {e right : Expr} (h : Reads (.operand 0) s right) :
      Reads (.after .pow e) ('\x7b' :: (s ++ ['\x7d'])) (.apply .pow [e, right])
  | raised {s : List Char} {e right : Expr} (h : Reads (.operand 13) s right) :
      Reads (.after .dotPow e) s (.apply .dotPow [e, right])

/-- Whether operands of a level end in front of a text. -/
def Stops (level : Nat) (rest : List Char) : Prop :=
  ∀ op, operatorBehind? rest = some op → op.precedence < level

section

variable {k : Nat} {s t : List Char} {e e' : Expr}

/-- Operands begin with one of few characters. -/
theorem Reads.opens (h : Reads (.operand k) s e) (rest : List Char) : opens (s ++ rest) = true := by
  generalize hp : Stretch.operand k = p at h
  induction h generalizing k rest with
  | letter | parens | group | fraction => rfl
  | level _ _ _ ih => rw [List.append_assoc]; exact ih _ rfl
  | unled _ ih => exact ih _ rfl
  | @led op _ _ leading =>
      cases op <;> first | rfl | exact absurd leading (by decide)
  | _ => cases hp

/-- Operands of levels above begin with no operator in front of an operand. -/
theorem Reads.ne_leading (h : Reads (.operand k) s e) (hk : 14 ≤ k) (leading : isLeading op = true)
    (rest rest' : List Char) : s ++ rest ≠ op.latexSymbol.toList ++ rest' := by
  generalize hp : Stretch.operand k = p at h
  induction h generalizing k rest with
  | letter | parens | group | fraction =>
      cases op <;> first | exact absurd leading (by decide) | simp [Operator.latexSymbol]
  | level _ _ _ ih =>
      cases hp
      rw [List.append_assoc]
      exact ih (Nat.le_succ_of_le hk) _ rfl
  | unled | led => cases hp; exact absurd hk (by decide)
  | _ => cases hp

/-- What is behind an operator tells it. -/
theorem Reads.operatorBehind? (h : Reads (.after op e) s e') (rest : List Char) :
    operatorBehind? (op.latexSymbol.toList ++ (s ++ rest)) = some op := by
  cases h with
  | inline inline h => exact operatorBehind?_inline (.inl inline) (h.opens rest)
  | trailing trailing => exact operatorBehind?_trailing trailing rest
  | powered => rfl
  | raised h => exact operatorBehind?_inline (.inr rfl) (h.opens rest)

variable {rest : List Char}

theorem Stops.succ (h : Stops k rest) : Stops (k + 1) rest :=
  fun op hop => Nat.lt_succ_of_lt (h op hop)

/-- Operators in front of their operand do not stand behind one. -/
theorem Stops.unled (h : Stops 14 rest) : Stops 13 rest := by
  have behind : ∀ op ∈ operatorsBehind, op.precedence ≠ 13 := by decide
  intro op hop
  have := h op hop
  have := behind op (List.mem_of_find?_eq_some hop)
  omega

theorem stops_of_none (h : operatorBehind? rest = none) : Stops k rest := by
  intro op hop
  rw [h] at hop
  cases hop

/-- What goes on behind an operation ends where operators of its level do. -/
theorem Stops.tail (h : Stops k rest) : Stops (tail k) rest := by
  unfold Latex.tail
  split
  next hk =>
    subst hk
    exact h.unled
  next => exact h

/-- What stands behind an operand of a level does not go on with a tighter one. -/
theorem Reads.stops (h : Reads (.behind k e) t e') (stops : Stops k rest) :
    Stops (k + 1) (t ++ rest) := by
  cases h with
  | done => exact stops.succ
  | operator level h =>
      intro op hop
      rw [List.append_assoc, List.append_assoc, h.operatorBehind?] at hop
      obtain rfl := Option.some.inj hop
      exact level ▸ Nat.lt_succ_self _

end

/-- Markup is read in one way. -/
theorem Reads.unique {p : Stretch} {s s' r r' : List Char} {e e' : Expr} (h : Reads p s e)
    (h' : Reads p s' e') (heq : s ++ r = s' ++ r') (stops : Stops p.level r)
    (stops' : Stops p.level r') : e = e' ∧ r = r' := by
  -- by the rule of one reading: how the markup goes on tells that the other reading has the same rule
  induction h generalizing s' e' r r' with
  | letter =>
      cases h' with
      | letter =>
          obtain ⟨rfl, rfl⟩ : _ ∧ r = r' := by simpa using heq
          exact ⟨rfl, rfl⟩
      | parens | group | fraction => simp at heq
      | level grouped => cases grouped
  | parens h ih =>
      cases h' with
      | parens h' =>
          simp only [List.append_assoc, List.append_cancel_left_eq] at heq
          obtain ⟨rfl, hrest⟩ := ih h' heq (stops_of_none rfl) (stops_of_none rfl)
          exact ⟨rfl, List.append_cancel_left hrest⟩
      | letter | group | fraction => simp at heq
      | level grouped => cases grouped
  | group h ih =>
      cases h' with
      | group h' =>
          simp only [List.cons_append, List.append_assoc, List.cons.injEq, true_and, List.nil_append]
            at heq
          obtain ⟨rfl, hrest⟩ := ih h' heq (stops_of_none rfl) (stops_of_none rfl)
          exact ⟨rfl, List.tail_eq_of_cons_eq hrest⟩
      | letter | parens | fraction => simp at heq
      | level grouped => cases grouped
  | fraction hleft hright ih ih' =>
      cases h' with
      | fraction hleft' hright' =>
          simp only [List.append_assoc, List.append_cancel_left_eq] at heq
          obtain ⟨rfl, hrest⟩ := ih hleft' heq (stops_of_none rfl) (stops_of_none rfl)
          rw [List.append_cancel_left_eq] at hrest
          obtain ⟨rfl, hrest⟩ := ih' hright' hrest (stops_of_none rfl) (stops_of_none rfl)
          exact ⟨rfl, List.tail_eq_of_cons_eq hrest⟩
      | letter | parens | group => simp at heq
      | level grouped => cases grouped
  | level grouped h more ih ih' =>
      cases h' with
      | level _ h' more' =>
          rw [List.append_assoc, List.append_assoc] at heq
          obtain ⟨rfl, hrest⟩ := ih h' heq (more.stops stops) (more'.stops stops')
          exact ih' more' hrest stops stops'
      | _ => cases grouped
  | unled h ih =>
      cases h' with
      | unled h' => exact ih h' heq stops.succ stops'.succ
      | led leading h' =>
          rw [List.append_assoc] at heq
          exact absurd heq (h.ne_leading (Nat.le_refl _) leading _ _)
      | level grouped => cases grouped
  | led leading h ih =>
      rw [List.append_assoc] at heq
      cases h' with
      | unled h' => exact absurd heq.symm (h'.ne_leading (Nat.le_refl _) leading _ _)
      | led leading' h' =>
          rw [List.append_assoc] at heq
          obtain rfl := leading_inj leading leading' heq
          obtain ⟨rfl, hrest⟩ := ih h' (List.append_cancel_left heq) stops.succ stops'.succ
          exact ⟨rfl, hrest⟩
      | level grouped => cases grouped
  | done =>
      cases h' with
      | done => exact ⟨rfl, heq⟩
      | operator level' h' =>
          obtain rfl : r = _ := heq
          rw [List.append_assoc, List.append_assoc] at stops
          exact absurd level' (Nat.ne_of_lt (stops _ (h'.operatorBehind? _)))
  | @operator op k s t e e' e'' level h more ih ih' =>
      rw [List.append_assoc, List.append_assoc] at heq
      cases h' with
      | done =>
          obtain rfl : _ = r' := heq
          exact absurd level (Nat.ne_of_lt (stops' _ (h.operatorBehind? _)))
      | operator level' h' more' =>
          rw [List.append_assoc, List.append_assoc] at heq
          have found := h.operatorBehind? (t ++ r)
          rw [heq, h'.operatorBehind?] at found
          obtain rfl := Option.some.inj found
          subst level
          obtain ⟨rfl, hrest⟩ := ih h' (List.append_cancel_left heq) (more.stops stops.tail)
            (more'.stops stops'.tail)
          exact ih' more' hrest stops.tail stops'.tail
  | inline inline h ih =>
      rw [Stretch.level, tail_of_ne (precedence_ne_of_isInline inline)] at stops stops'
      cases h' with
      | inline _ h' =>
          obtain ⟨rfl, hrest⟩ := ih h' heq stops stops'
          exact ⟨rfl, hrest⟩
      | trailing trailing => exact absurd trailing (not_isTrailing_of_isInline inline)
      | powered | raised => cases inline
  | trailing trailing =>
      cases h' with
      | inline inline => exact absurd trailing (not_isTrailing_of_isInline inline)
      | trailing => exact ⟨rfl, heq⟩
      | powered | raised => cases trailing
  | powered h ih =>
      cases h' with
      | powered h' =>
          simp only [List.cons_append, List.append_assoc, List.cons.injEq, true_and] at heq
          obtain ⟨rfl, hrest⟩ := ih h' heq (stops_of_none rfl) (stops_of_none rfl)
          exact ⟨rfl, List.tail_eq_of_cons_eq hrest⟩
      | inline inline => cases inline
      | trailing trailing => cases trailing
  | raised h ih =>
      cases h' with
      | raised h' =>
          obtain ⟨rfl, hrest⟩ := ih h' heq stops.unled stops'.unled
          exact ⟨rfl, hrest⟩
      | inline inline => cases inline
      | trailing trailing => cases trailing

/-! ### Putting operands together -/

section

variable {j k : Nat} {s t : List Char} {e l r x : Expr}

/-- An operand of a level is one of the levels below. -/
theorem Reads.succ (h : Reads (.operand (k + 1)) s e) (hk : k ≤ 16) : Reads (.operand k) s e := by
  by_cases hunled : k = 13
  · subst hunled
    exact .unled h
  · have grouped : isGrouped k = true := by simp [isGrouped, hk, hunled]
    have hlevel := Reads.level grouped h .done
    rwa [List.append_nil] at hlevel

theorem Reads.mono (h : Reads (.operand k) s e) (hjk : j ≤ k) (hk : k ≤ 17) :
    Reads (.operand j) s e := by
  obtain ⟨d, rfl⟩ := Nat.exists_eq_add_of_le hjk
  induction d with
  | zero => exact h
  | succ d ih => exact ih (h.succ (k := j + d) (by omega)) (by omega) (by omega)

/-- What stands behind an operand goes on. -/
theorem Reads.append (h : Reads (.behind k x) s l) (hk : k ≠ 14) (h' : Reads (.behind k l) t e) :
    Reads (.behind k x) (s ++ t) e := by
  generalize hp : Stretch.behind k x = p at h
  induction h generalizing x with
  | done => cases hp; exact h'
  | operator level hafter _ _ ih =>
      cases hp
      rw [List.append_assoc, List.append_assoc]
      have more := ih h' (by rw [tail_of_ne hk])
      exact .operator level hafter more
  | _ => cases hp

theorem Reads.operated (h : Reads (.operand k) s l) (grouped : isGrouped k = true) (hk : k ≠ 14)
    (h' : Reads (.behind k l) t e) : Reads (.operand k) (s ++ t) e := by
  cases h with
  | level _ hfirst more =>
      rw [List.append_assoc]
      exact .level grouped hfirst (more.append hk h')
  | _ => cases grouped

/-- An operation of a level, behind its first operand. -/
theorem Reads.operation (h : Reads (.after op l) t e) :
    Reads (.behind op.precedence l) (op.latexSymbol.toList ++ t) e := by
  have hread := Reads.operator rfl h .done
  rwa [List.append_nil] at hread

theorem toList_group (s : String) : (group s).toList = '\x7b' :: (s.toList ++ ['\x7d']) := by
  rw [group, String.toList_append, String.toList_append, List.append_assoc]
  rfl

theorem Reads.enclosed {s : String} {wrap : Bool} (h : Reads (.operand j) s.toList e) (hj : j ≤ 17)
    (hk : k ≤ 17) (tight : wrap = false → k ≤ j) :
    Reads (.operand k) (typesetEnclosed wrap s).toList e := by
  cases wrap with
  | false => exact h.mono (tight rfl) hj
  | true =>
      have hparens : (typesetEnclosed true s).toList
          = "\\left(".toList ++ (s.toList ++ "\\right)".toList) := by
        rw [typesetEnclosed, if_pos rfl, Latex.parens, String.toList_append, String.toList_append,
          List.append_assoc]
      rw [hparens]
      exact (Reads.parens (h.mono (Nat.zero_le j) hj)).mono hk (Nat.le_refl 17)

/-- A fraction. -/
theorem Reads.divided {s t : String} (h : Reads (.operand 0) s.toList l) (h' : Reads (.operand 0) t.toList r) :
    Reads (.operand 17) (Operator.divide.latexSymbol ++ Latex.group s ++ Latex.group t).toList
      (.apply .divide [l, r]) := by
  have hread := Reads.fraction h h'
  simpa [toList_group, Operator.latexSymbol] using hread

/-- A power of a group. -/
theorem Reads.toPower {s t : String} {wrap : Bool} (h : Reads (.operand 0) s.toList l)
    (h' : Reads (.operand 0) t.toList r) :
    Reads (.operand 14) (typesetEnclosed wrap (Latex.group s) ++ Operator.pow.latexSymbol
      ++ Latex.group t).toList (.apply .pow [l, r]) := by
  have hgroup : Reads (.operand 17) (Latex.group s).toList l := toList_group s ▸ .group h
  have base : Reads (.operand 15) (typesetEnclosed wrap (Latex.group s)).toList l :=
    hgroup.enclosed (Nat.le_refl 17) (by decide) fun _ => by decide
  have hread := Reads.level rfl base (Reads.powered h').operation
  simpa [toList_group, Operator.latexSymbol] using hread

end

end Formula.Latex
