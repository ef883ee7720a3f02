import Formula.Proofs.Rendering.Deciphering
import Formula.Proofs.Rendering.Reassociation
import Formula.Proofs.Rendering.Typesetting

/-!
The markup of trees of operators is unambiguous.

The markup of a tree is read as the tree, but for how operators group that may be regrouped
(`Built.reads`), so trees of the same markup are reassociations of one another (`IsClear.reassociated`).
This asks of right operands that they hold together next to their operators (`Delimited`): exponents of
`.^` are written without parentheses as if they were raised, but in line with their base.
-/

namespace Formula

namespace Operator

theorem precedence_le (op : Operator) : op.precedence ≤ 16 := by
  cases op <;> decide

/-- Operands that are set apart are those of fractions, and exponents. -/
theorem of_latexOmitsParens {op : Operator} {side : Side} (h : op.latexOmitsParens side = true) :
    op = .divide ∨ side = .right ∧ (op = .pow ∨ op = .dotPow) := by
  revert h
  cases op <;> cases side <;> decide

theorem latexOmitsParens_of_unary {op : Operator} (unary : op.isUnary = true) (side : Side) :
    op.latexOmitsParens side = false := by
  revert unary
  cases op <;> cases side <;> decide

end Operator

end Formula

namespace Formula.Expr

open Rendering Latex

/-! ### How markup holds together -/

/-- How tightly the markup of an expression holds together; a fraction does so like a name. -/
def hold (e : Expr) : Nat :=
  if e.operator? = some .divide then 17 else (strength? .keep e).getD 17

/-- Whether all operators down the left of an expression, as far as the first fraction, that are as
strong as an operator may be regrouped with it. -/
def meets (op : Operator) : Expr → Bool
  | .operation _ function [left, _] _ => (Operator.ofName? function).all fun inner =>
    inner = .divide || inner.precedence ≠ op.precedence
      || (op.associativeWith.contains inner && meets op left)
  | _ => true

/-- The right operand of an operator holds together next to it: an exponent of `.^` is no looser than
an operator in front of its operand, and what may be regrouped with its operator meets it. -/
def Delimited : Expr → Prop
  | .operation _ function [_, right] _ => ∀ op, Operator.ofName? function = some op →
    (op = .dotPow → 13 ≤ right.hold) ∧
      ∀ inner ∈ op.associativeWith, right.operator? = some inner → right.meets op = true
  | _ => True

/-- Names are single letters. -/
def IsLettered : Expr → Prop
  | .symbol name => ∃ c, Text.isLetter c = true ∧ name = String.singleton c
  | _ => True

section

variable {op inner : Operator} {e e' e'' x x' y y' z : Expr} {k : Nat}

theorem meets_binary : (apply inner [y, z]).meets op = true ↔
    (inner ≠ .divide → inner.precedence = op.precedence →
      inner ∈ op.associativeWith ∧ y.meets op = true) := by
  rw [apply, meets, Operator.ofName?_name, Option.all_some, Bool.or_eq_true, Bool.or_eq_true,
    Bool.and_eq_true, List.contains_iff_mem, decide_eq_true_iff, decide_eq_true_iff,
    or_iff_not_imp_left, not_or, Ne, not_not, and_imp]

theorem delimited_binary : Delimited (apply op [x, y]) ↔ (op = .dotPow → 13 ≤ y.hold) ∧
    ∀ inner ∈ op.associativeWith, y.operator? = some inner → y.meets op = true := by
  constructor
  · exact fun h => h op op.ofName?_name
  · intro h op' hop
    obtain rfl := Option.some.inj (op.ofName?_name.symm.trans hop)
    exact h

theorem hold_divide (h : e.operator? = some .divide) : e.hold = 17 :=
  if_pos h

theorem hold_apply (h : op ≠ .divide) (operands : List Expr) :
    (apply op operands).hold = op.precedence := by
  rw [hold, operator?_apply, if_neg (by simpa using h), strength?_apply]
  rfl

theorem Built.hold_le (h : Built e) : e.hold ≤ 17 := by
  have : ∀ op operands, (apply op operands).hold ≤ 17 := by
    intro op operands
    by_cases hop : op = .divide
    · exact Nat.le_of_eq (hold_divide (hop ▸ operator?_apply ..))
    · exact hold_apply hop operands ▸ Nat.le_succ_of_le op.precedence_le
  cases h with
  | symbol => exact Nat.le_refl 17
  | unary | binary => exact this _ _

theorem BindsAtLeast.le_hold (h : e.BindsAtLeast k) (hk : k ≤ 17) : k ≤ e.hold := by
  unfold hold
  split
  · exact hk
  · cases hstrength : strength? .keep e with
    | none => exact hk
    | some precedence => exact h precedence hstrength

/-! ### Reading up to reassociation -/

/-- An expression that another is read as: it is the other reassociated, and meets what the other
meets. -/
structure IsReadAs (e e' : Expr) : Prop where
  reassociated : Reassociated e' e
  meets : ∀ op, e.meets op = true → e'.meets op = true

theorem IsReadAs.refl (e : Expr) : IsReadAs e e :=
  ⟨.refl e, fun _ h => h⟩

theorem IsReadAs.trans (h : IsReadAs e e') (h' : IsReadAs e' e'') : IsReadAs e e'' :=
  ⟨h'.reassociated.trans h.reassociated, fun op hop => h'.meets op (h.meets op hop)⟩

theorem IsReadAs.unary (op : Operator) (h : IsReadAs e e') : IsReadAs (apply op [e]) (apply op [e']) :=
  ⟨.unary op h.reassociated, fun _ _ => rfl⟩

theorem IsReadAs.left (op : Operator) (h : IsReadAs e e') (y : Expr) :
    IsReadAs (apply op [e, y]) (apply op [e', y]) := by
  refine ⟨.left op y h.reassociated, fun outer houter => meets_binary.2 fun hdivide heq => ?_⟩
  obtain ⟨hop, hmeets⟩ := meets_binary.1 houter hdivide heq
  exact ⟨hop, h.meets outer hmeets⟩

theorem IsReadAs.binary (op : Operator) (h : IsReadAs x x') (h' : IsReadAs y y') :
    IsReadAs (apply op [x, y]) (apply op [x', y']) :=
  (h.left op y).trans
    ⟨.right op x' h'.reassociated, fun _ houter => meets_binary.2 (meets_binary.1 houter)⟩

/-- Operators that may be regrouped are read from the left. -/
theorem IsReadAs.regroup (h : inner ∈ op.associativeWith) (hop : op ≠ .divide) (x y z : Expr) :
    IsReadAs (apply op [x, apply inner [y, z]]) (apply inner [apply op [x, y], z]) := by
  obtain ⟨heq, _, _, hfurther⟩ := Operator.of_mem_associativeWith h
  refine ⟨.symm (.regroup h x y z), fun outer houter => meets_binary.2 fun _ hinner => ?_⟩
  obtain ⟨hassociative, hmeets⟩ := meets_binary.1 houter hop (heq.symm.trans hinner)
  exact ⟨(Operator.of_mem_associativeWith hassociative).2.2.2 inner h,
    meets_binary.2 fun _ _ => ⟨hassociative, hmeets⟩⟩

end

end Formula.Expr

namespace Formula.Latex

open Expr

section

variable {op : Operator} {k : Nat} {s t : List Char} {l r x x' : Expr}

/-- Operators of two operands and of one operand are not as strong as one another. -/
theorem precedence_ne_of_isTrailing {inner : Operator} (inline : isInline op = true)
    (trailing : isTrailing inner = true) : inner.precedence ≠ op.precedence := by
  intro heq
  rw [isTrailing, Bool.and_eq_true, (Operator.of_precedence_eq heq).1, (isInline_iff.1 inline).1]
    at trailing
  cases trailing.1

/-- What stands behind an operand on the level of an operator between operands is between operands. -/
theorem Reads.exists_inline {inner : Operator} (h : Reads (.after inner x) s r)
    (inline : isInline op = true) (level : inner.precedence = op.precedence) : ∃ y,
    isInline inner = true ∧ Reads (.operand (inner.precedence + 1)) s y ∧ r = .apply inner [x, y] := by
  have hne := precedence_ne_of_isInline inline
  cases h with
  | inline inline' h => exact ⟨_, inline', h, rfl⟩
  | trailing trailing => exact absurd level (precedence_ne_of_isTrailing inline trailing)
  | powered | raised => exact absurd level.symm hne

/-- What is read behind an operand meets an operator only if the operand does. -/
theorem Reads.meets_behind (h : Reads (.behind k x) t r) (inline : isInline op = true)
    (level : op.precedence = k) (meets : r.meets op = true) : x.meets op = true := by
  have hk : k ≠ 14 := level ▸ precedence_ne_of_isInline inline
  generalize hp : Stretch.behind k x = p at h
  induction h generalizing x with
  | done => cases hp; exact meets
  | operator level' hafter _ _ ih =>
      cases hp
      obtain ⟨y, inline', _, rfl⟩ := hafter.exists_inline inline (level'.trans level.symm)
      have hinner := ih meets (by rw [tail_of_ne hk])
      exact (meets_binary.1 hinner (isInline_iff.1 inline').2.2 (level'.trans level.symm)).2
  | _ => cases hp

/-- What is read behind the right operand of an operator is read behind the operation. -/
theorem Reads.graft_behind (h : Reads (.behind k x) t r) (inline : isInline op = true)
    (level : op.precedence = k) (meets : r.meets op = true)
    (hread : IsReadAs (.apply op [l, x]) x') :
    ∃ e, Reads (.behind k x') t e ∧ IsReadAs (.apply op [l, r]) e := by
  have hk : k ≠ 14 := level ▸ precedence_ne_of_isInline inline
  generalize hp : Stretch.behind k x = p at h
  -- each operator that is read takes in the operation that is read so far
  induction h generalizing x x' with
  | done => cases hp; exact ⟨x', .done, hread⟩
  | @operator inner _ _ _ x₀ _ _ level' hafter more _ ih =>
      cases hp
      obtain ⟨y, inline', hy, rfl⟩ := hafter.exists_inline inline (level'.trans level.symm)
      have hoperand : (Expr.apply inner [x₀, y]).meets op = true := by
        rw [tail_of_ne hk] at more
        exact more.meets_behind inline level meets
      obtain ⟨hassociative, _⟩ := meets_binary.1 hoperand (isInline_iff.1 inline').2.2
        (level'.trans level.symm)
      have hregrouped := (IsReadAs.regroup hassociative (isInline_iff.1 inline).2.2 l x₀ y).trans
        (hread.left inner y)
      obtain ⟨e, he, hread⟩ := ih meets hregrouped (by rw [tail_of_ne hk])
      exact ⟨e, .operator level' (.inline inline' hy) (by rwa [tail_of_ne hk]), hread⟩
  | _ => cases hp

/-- An operation is read as grouped to the left. -/
theorem Reads.graft (hl : Reads (.operand k) s l) (hr : Reads (.operand k) t r)
    (inline : isInline op = true) (level : op.precedence = k) (grouped : isGrouped k = true)
    (meets : r.meets op = true) : ∃ e,
      Reads (.operand k) (s ++ (op.latexSymbol.toList ++ t)) e ∧ IsReadAs (.apply op [l, r]) e := by
  have hk : k ≠ 14 := level ▸ precedence_ne_of_isInline inline
  cases hr with
  | level _ hfirst more =>
      obtain ⟨e, he, hread⟩ := more.graft_behind inline level meets (.refl _)
      have hoperand : Reads (.operand (op.precedence + 1)) _ _ := level ▸ hfirst
      exact ⟨e, hl.operated grouped hk (.operator level (.inline inline hoperand) (by rwa [tail_of_ne hk])),
        hread⟩
  | _ => cases grouped

end

end Formula.Latex

namespace Formula.Expr

open Rendering Latex

/-- An operand is set apart by an operator, or as a fraction. -/
theorem isSetApart_apply (op : Operator) (operands : List Expr) (e : Expr) (side : Side) :
    isSetApart .keep (apply op operands) e side
      = ((strength? .keep e).isSome && (op.latexOmitsParens side || e.operator? = some .divide)) := by
  rw [isSetApart, operator?_apply, Option.any_some]
  rfl

/-- What an operand is that stands without parentheses where its operator does not set it apart. -/
theorem hold_of_isLooser {op : Operator} {operands : List Expr} {e : Expr} {side : Side} {other : Bool}
    (h : (isLooser .keep (apply op operands) e other
      && !(true && isSetApart .keep (apply op operands) e side)) = false)
    (inLine : op.latexOmitsParens side = false) : op.precedence ≤ e.hold ∧
      (other = true → e.hold = op.precedence →
        ∃ inner ∈ op.associativeWith, e.operator? = some inner) := by
  have hlevel := op.precedence_le
  by_cases hdivide : e.operator? = some .divide
  · rw [hold_divide hdivide]
    exact ⟨Nat.le_succ_of_le hlevel, fun _ heq => by omega⟩
  · rw [isSetApart_apply, inLine, decide_eq_false hdivide, Bool.or_false, Bool.and_false,
      Bool.and_false, Bool.not_false, Bool.and_true] at h
    obtain ⟨htight, hregroups⟩ := tight_of_isLooser h
    refine ⟨htight.le_hold (Nat.le_succ_of_le hlevel), fun hother heq => hregroups hother ?_⟩
    rw [hold, if_neg hdivide] at heq
    cases hstrength : strength? .keep e with
    | none =>
        rw [hstrength, Option.getD_none] at heq
        omega
    | some precedence => rw [hstrength, Option.getD_some] at heq; rw [heq]

/-- What the operands of an operation are that stand without parentheses in its markup, where it does
not set them apart. -/
structure Seats (op : Operator) (left right : Expr) (wrap wrap' : Bool) : Prop where
  wraps : wrappedOperands {} true (apply op [left, right]) [left, right] false = [wrap, wrap']
  ofLeft : wrap = false → op.latexOmitsParens .left = false → op.precedence ≤ left.hold
  tighter : wrap = false → op.latexOmitsParens .left = false → op.associativity = .right →
    op.precedence + 1 ≤ left.hold
  ofRight : wrap' = false → op.latexOmitsParens .right = false → op.precedence ≤ right.hold
  regroups : wrap' = false → op.latexOmitsParens .right = false → op.associativity = .left →
    right.hold = op.precedence → ∃ inner ∈ op.associativeWith, right.operator? = some inner

section

variable (op : Operator) (e left right : Expr)

theorem exists_seats : ∃ wrap wrap', Seats op left right wrap wrap' := by
  refine ⟨_, _, rfl, fun h inLine => (hold_of_isLooser h inLine).1, fun h inLine grouping => ?_,
    fun h inLine => (hold_of_isLooser h inLine).1,
    fun h inLine grouping => (hold_of_isLooser h inLine).2 ?_⟩
  · obtain ⟨hle, hregroups⟩ := hold_of_isLooser h inLine
    refine Nat.lt_of_le_of_ne hle fun heq => ?_
    rw [grouping?_apply, grouping] at hregroups
    obtain ⟨inner, hinner, _⟩ := hregroups (decide_eq_true rfl) heq.symm
    cases grouping.symm.trans (Operator.of_mem_associativeWith hinner).2.2.1
  · rw [grouping?_apply, grouping]
    exact decide_eq_true rfl

/-- How an operation of one operand is typeset. -/
theorem exists_typeset_unary (unary : op.isUnary = true) : ∃ wrap, (apply op [e]).typeset {}
    = (if op.associativity = .right then op.latexSymbol ++ typesetEnclosed wrap (e.typeset {})
      else typesetEnclosed wrap (e.typeset {}) ++ op.latexSymbol) ∧
    (wrap = false → op.precedence + 1 ≤ e.hold) := by
  have hwrap : wrappedOperands {} true (apply op [e]) [e] false = _ := rfl
  refine ⟨_, typeset_one (fun _ => rfl) (Operator.ofName?_name op) hwrap, fun h => ?_⟩
  have hlevel := op.precedence_le
  have inLine := Operator.latexOmitsParens_of_unary unary .left
  by_cases hdivide : e.operator? = some .divide
  · rw [hold_divide hdivide]
    omega
  · rw [isSetApart_apply, inLine, decide_eq_false hdivide, strength?_apply, Bool.or_false,
      Bool.and_false, Bool.and_false, Bool.not_false, Bool.and_true] at h
    rw [hold, if_neg hdivide]
    cases hstrength : strength? .keep e with
    | none => exact Nat.succ_le_succ hlevel
    | some precedence =>
        rw [hstrength] at h
        exact Nat.lt_of_not_le (of_decide_eq_false h)

end

variable {op : Operator} {e e' left right x y : Expr} {wrap wrap' : Bool}

/-- How an operation of two operands is typeset. -/
theorem Seats.typeset_eq (seats : Seats op left right wrap wrap') : (apply op [left, right]).typeset {}
    = let first := typesetEnclosed wrap (left.typeset {})
      let second := typesetEnclosed wrap' (right.typeset {})
      if op = .divide then op.latexSymbol ++ Latex.group first ++ Latex.group second
      else if op = .pow then
        typesetEnclosed (wrapsBase .keep left) (Latex.group first) ++ op.latexSymbol ++ Latex.group second
      else first ++ op.latexSymbol ++ second :=
  typeset_two (fun _ => rfl) (Operator.ofName?_name op) seats.wraps

/-! ### Trees and their markup -/

/-- No letter is a word that has markup of its own. -/
theorem word?_letter (c : Char) : word? (String.singleton c) = none := by
  have long : ∀ name s, word? name = some s → name.toList.length ≠ 1 := by
    intro name s h
    have letters : ∀ name ∈ greek, name.toList.length ≠ 1 := by decide
    unfold word? at h
    split at h
    next hgreek => exact letters name (List.contains_iff_mem.1 hgreek)
    next =>
      unfold glyph? at h
      split at h
      all_goals first | decide | cases h
  exact Option.eq_none_iff_forall_ne_some.2 fun s h => long _ s h (by rw [String.toList_singleton]; rfl)

/-- The markup of a letter is the letter. -/
theorem typesetSymbol_letter {c : Char} (h : Text.isLetter c = true) :
    (typesetSymbol (String.singleton c)).toList = [' ', c] := by
  have hne : ∀ d, Text.isLetter d = false → c ≠ d := by
    rintro d hd rfl
    exact absurd (hd.symm.trans h) Bool.false_ne_true
  have hsymbol : Latex.symbol (String.singleton c) = String.singleton c := by
    have plain : plainName (String.singleton c) = String.singleton c := by
      rw [plainName, word?_letter, if_neg (by simp [hne '$' rfl, hne '_' rfl])]
    rw [Latex.symbol, String.toList_singleton, nameOfChars]
    split
    next _ _ _ hdrop =>
      simp [hne '_' rfl] at hdrop
    next => exact plain
  rw [typesetSymbol, hsymbol, String.toList_singleton, if_neg (by simp [hne '\\' rfl])]
  rw [String.toList_append, String.toList_singleton]
  rfl

/-- The markup of an operation of one operand is read as the operation. -/
theorem Built.reads_unary (built : Built e) (unary : op.isUnary = true)
    (h : Reads (.operand e.hold) (e.typeset {}).toList x) :
    Reads (.operand op.precedence) ((apply op [e]).typeset {}).toList (apply op [x]) := by
  obtain ⟨wrap, htypeset, tight⟩ := exists_typeset_unary op e unary
  have hoperand := h.enclosed built.hold_le (Nat.succ_le_succ op.precedence_le) tight
  rw [htypeset]
  cases grouping : op.associativity with
  | right =>
      obtain ⟨leading, hlevel⟩ : isLeading op = true ∧ op.precedence = 13 := by
        revert unary grouping
        cases op <;> decide
      rw [hlevel] at hoperand ⊢
      rw [if_pos rfl, String.toList_append]
      exact .led leading hoperand
  | left =>
      obtain ⟨trailing, grouped⟩ : isTrailing op = true ∧ isGrouped op.precedence = true := by
        revert unary grouping
        cases op <;> decide
      have hread := Reads.level grouped hoperand (Reads.trailing trailing).operation
      rw [if_neg nofun, String.toList_append]
      rwa [List.append_nil] at hread

/-- The markup of an operation in line with its operands is read as grouped to the left. -/
theorem Seats.reads_inline (seats : Seats op left right wrap wrap') (inline : isInline op = true)
    (meets : ∀ inner ∈ op.associativeWith, right.operator? = some inner → right.meets op = true)
    (hleft : Built left) (hright : Built right)
    (h : Reads (.operand left.hold) (left.typeset {}).toList x) (hread : IsReadAs left x)
    (h' : Reads (.operand right.hold) (right.typeset {}).toList y) (hread' : IsReadAs right y) :
    ∃ e, Reads (.operand op.precedence) ((typesetEnclosed wrap (left.typeset {})).toList
        ++ (op.latexSymbol.toList ++ (typesetEnclosed wrap' (right.typeset {})).toList)) e ∧
      IsReadAs (apply op [left, right]) e := by
  obtain ⟨_, grouping, _⟩ := isInline_iff.1 inline
  obtain ⟨grouped, inLine, inLine'⟩ : isGrouped op.precedence = true ∧
      op.latexOmitsParens .left = false ∧ op.latexOmitsParens .right = false := by
    revert inline
    cases op <;> decide
  have hlevel := op.precedence_le
  have hne := precedence_ne_of_isInline inline
  have first := h.enclosed hleft.hold_le (Nat.le_succ_of_le hlevel) fun hwrap => seats.ofLeft hwrap inLine
  by_cases alike : wrap' = false ∧ right.hold = op.precedence
  · obtain ⟨rfl, heq⟩ := alike
    obtain ⟨inner, hinner, hoperator⟩ := seats.regroups rfl inLine' grouping heq
    obtain ⟨e, he, hreadAs⟩ := first.graft (heq ▸ h') inline rfl grouped
      (hread'.meets op (meets inner hinner hoperator))
    exact ⟨e, he, (hread.binary op hread').trans hreadAs⟩
  · have second := h'.enclosed hright.hold_le (Nat.succ_le_succ hlevel) fun hwrap =>
      Nat.lt_of_le_of_ne (seats.ofRight hwrap inLine') fun heq => alike ⟨hwrap, heq.symm⟩
    exact ⟨_, first.operated grouped hne (Reads.inline inline second).operation, hread.binary op hread'⟩

/-- The markup of an expression of operators is read as the expression, reassociated. -/
theorem Built.reads {e : Expr} (h : Built e) (lettered : e.Everywhere IsLettered)
    (delimited : e.Everywhere Delimited) :
    ∃ e', Reads (.operand e.hold) (e.typeset {}).toList e' ∧ IsReadAs e e' := by
  induction h with
  | @symbol name =>
      obtain ⟨c, hletter, rfl⟩ := lettered.here
      have htypeset : ((Expr.symbol (String.singleton c)).typeset {}).toList = [' ', c] := by
        rw [typeset]
        exact typesetSymbol_letter hletter
      exact ⟨_, htypeset ▸ .letter c, .refl _⟩
  | @unary op e unary h ih =>
      obtain ⟨e', hread, hreadAs⟩ := ih (everywhere_unary.1 lettered).2 (everywhere_unary.1 delimited).2
      have hdivide : op ≠ .divide := by
        rintro rfl
        cases unary
      rw [hold_apply hdivide]
      exact ⟨_, h.reads_unary unary hread, hreadAs.unary op⟩
  | @binary op left right binary hleft hright ihleft ihright =>
      obtain ⟨-, lettered, lettered'⟩ := everywhere_binary.1 lettered
      obtain ⟨here, delimited, delimited'⟩ := everywhere_binary.1 delimited
      obtain ⟨exponent, meets⟩ := delimited_binary.1 here
      obtain ⟨x, hx, hread⟩ := ihleft lettered delimited
      obtain ⟨y, hy, hread'⟩ := ihright lettered' delimited'
      obtain ⟨wrap, wrap', seats⟩ := exists_seats op left right
      have first := hx.enclosed hleft.hold_le (Nat.zero_le 17) fun (_ : wrap = false) => Nat.zero_le _
      have second := hy.enclosed hright.hold_le (Nat.zero_le 17) fun (_ : wrap' = false) => Nat.zero_le _
      -- fractions and powers have their operands in groups; next to all others, operands must hold
      obtain rfl | rfl | rfl | inline := divide_or_power_or_isInline binary
      · rw [hold_divide (operator?_apply ..), seats.typeset_eq, if_pos rfl]
        exact ⟨_, first.divided second, hread.binary .divide hread'⟩
      · have hdivide : Operator.pow ≠ .divide := by decide
        rw [hold_apply hdivide, seats.typeset_eq, if_neg hdivide, if_pos rfl]
        exact ⟨_, first.toPower second, hread.binary .pow hread'⟩
      · have hdivide : Operator.dotPow ≠ .divide := by decide
        have hpow : Operator.dotPow ≠ .pow := by decide
        have base := hx.enclosed hleft.hold_le (by decide : 15 ≤ 17) fun hwrap =>
          seats.tighter hwrap rfl rfl
        have power := hy.enclosed hright.hold_le (by decide : 13 ≤ 17)
          fun (_ : wrap' = false) => exponent rfl
        rw [hold_apply hdivide, seats.typeset_eq, if_neg hdivide, if_neg hpow, String.toList_append,
          String.toList_append, List.append_assoc]
        exact ⟨_, .level rfl base (Reads.raised power).operation, hread.binary .dotPow hread'⟩
      · have hdivide := (isInline_iff.1 inline).2.2
        have hpow : op ≠ .pow := by
          rintro rfl
          cases inline
        rw [hold_apply hdivide, seats.typeset_eq, if_neg hdivide, if_neg hpow, String.toList_append,
          String.toList_append, List.append_assoc]
        exact seats.reads_inline inline meets hleft hright hx hread hy hread'

/-! ### Parentheses that are left out -/

/-- Whether an operand of an operation stands in parentheses in its text, but not in its markup. -/
def LeavesOut (op : Operator) (operands : List Expr) (i : Nat) : Prop :=
  (wrappedOperands {} false (apply op operands) operands false)[i]? = some true ∧
    (wrappedOperands {} true (apply op operands) operands false)[i]? = some false

/-- Whether the markup of an operand stands apart without parentheses: in a group, or as a fraction. -/
def StandsApart (markup operand : String) : Prop :=
  (∃ front back, markup = front ++ Latex.group operand ++ back) ∨
    ∃ upper lower, operand = "\\frac" ++ Latex.group upper ++ Latex.group lower

/-- Parentheses are left out only of operands that stand apart, but for exponents of `.^`. -/
def SetsApart : Expr → Prop
  | .operation _ function operands _ => ∀ op, Operator.ofName? function = some op → op ≠ .dotPow →
    ∀ i e, operands[i]? = some e → LeavesOut op operands i →
      StandsApart ((apply op operands).typeset {}) (e.typeset {})
  | _ => True

theorem Built.exists_fraction (h : Built e) (hdivide : e.operator? = some .divide) :
    ∃ upper lower, e.typeset {} = "\\frac" ++ Latex.group upper ++ Latex.group lower := by
  cases h with
  | symbol => cases hdivide
  | unary unary =>
      rw [operator?_apply] at hdivide
      obtain rfl := Option.some.inj hdivide
      cases unary
  | @binary op left right =>
      rw [operator?_apply] at hdivide
      obtain rfl := Option.some.inj hdivide
      obtain ⟨wrap, wrap', seats⟩ := exists_seats .divide left right
      exact ⟨_, _, seats.typeset_eq⟩

/-- What is not written in parentheses in markup only is set apart. -/
theorem setApart_of_wrap {operands : List Expr} {side : Side}
    (h : (wrap && !(false && isSetApart .keep (apply op operands) e side)) = true)
    (h' : (wrap && !(true && isSetApart .keep (apply op operands) e side)) = false) :
    op.latexOmitsParens side = true ∨ e.operator? = some .divide := by
  rw [Bool.false_and, Bool.not_false, Bool.and_true] at h
  rw [h, Bool.true_and, Bool.true_and, Bool.not_eq_false', isSetApart_apply, Bool.and_eq_true,
    Bool.or_eq_true, decide_eq_true_iff] at h'
  exact h'.2

/-- What parentheses are left out of stands apart, unless it is an exponent of `.^`. -/
theorem standsApart_of_leavesOut {operands : List Expr} {i : Nat} (hop : op ≠ .dotPow)
    (arity : operands.length = if op.isUnary then 1 else 2) (built : ∀ e ∈ operands, Built e)
    (he : operands[i]? = some e) (hleaves : LeavesOut op operands i) :
    StandsApart ((apply op operands).typeset {}) (e.typeset {}) := by
  have fraction (hdivide : e.operator? = some .divide) :
      StandsApart ((apply op operands).typeset {}) (e.typeset {}) :=
    .inr ((built e (List.mem_of_getElem? he)).exists_fraction hdivide)
  obtain ⟨htext, hmarkup⟩ := hleaves
  cases unary : op.isUnary with
  | true =>
      rw [unary, if_pos rfl] at arity
      obtain ⟨operand, rfl⟩ := List.length_eq_one_iff.1 arity
      rcases i with _ | i
      · obtain rfl := Option.some.inj he
        obtain omits | hdivide := setApart_of_wrap (Option.some.inj htext) (Option.some.inj hmarkup)
        · rw [Operator.latexOmitsParens_of_unary unary] at omits
          cases omits
        · exact fraction hdivide
      · cases he
  | false =>
      rw [unary, if_neg Bool.false_ne_true] at arity
      obtain ⟨left, right, rfl⟩ := List.length_eq_two.1 arity
      obtain ⟨wrap, wrap', seats⟩ := exists_seats op left right
      rcases i with _ | _ | i
      · obtain rfl := Option.some.inj he
        obtain omits | hdivide := setApart_of_wrap (Option.some.inj htext) (Option.some.inj hmarkup)
        · rw [seats.wraps] at hmarkup
          obtain rfl : wrap = false := Option.some.inj hmarkup
          obtain rfl | ⟨hside, _⟩ := Operator.of_latexOmitsParens omits
          · rw [seats.typeset_eq]
            exact .inl ⟨_, _, rfl⟩
          · cases hside
        · exact fraction hdivide
      · obtain rfl := Option.some.inj he
        obtain omits | hdivide := setApart_of_wrap (Option.some.inj htext) (Option.some.inj hmarkup)
        · rw [seats.wraps] at hmarkup
          obtain rfl : wrap' = false := Option.some.inj hmarkup
          rw [seats.typeset_eq]
          obtain rfl | ⟨_, rfl | rfl⟩ := Operator.of_latexOmitsParens omits
          · exact .inl ⟨_, "", (String.append_empty).symm⟩
          · exact .inl ⟨_, "", (String.append_empty).symm⟩
          · exact absurd rfl hop
        · exact fraction hdivide
      · cases he

theorem setsApart_apply {operands : List Expr} (arity : operands.length = if op.isUnary then 1 else 2)
    (built : ∀ e ∈ operands, Built e) : SetsApart (apply op operands) := by
  intro op' hop' hne i e he hleaves
  obtain rfl := Option.some.inj (op.ofName?_name.symm.trans hop')
  exact standsApart_of_leavesOut hne arity built he hleaves

theorem Built.setsApart (h : Built e) : e.Everywhere SetsApart := by
  induction h with
  | symbol => exact everywhere_symbol trivial
  | unary unary h ih =>
      refine everywhere_unary.2 ⟨setsApart_apply ?_ ?_, ih⟩
      · rw [unary]
        rfl
      · exact List.forall_mem_singleton.2 h
  | binary binary hleft hright ihleft ihright =>
      refine everywhere_binary.2 ⟨setsApart_apply ?_ ?_, ihleft, ihright⟩
      · rw [binary]
        rfl
      · exact List.forall_mem_cons.2 ⟨hleft, List.forall_mem_singleton.2 hright⟩

/-! ### Unambiguous markup -/

/-- Expressions of operators and letters, with right operands that hold together next to their
operators. -/
structure IsClear (e : Expr) : Prop where
  built : Built e
  lettered : e.Everywhere IsLettered
  delimited : e.Everywhere Delimited

/-- Letters are names. -/
theorem IsClear.letter {c : Char} (h : Text.isLetter c = true) :
    IsClear (.symbol (String.singleton c)) := by
  have length : (String.singleton c).toList.length = 1 := by rw [String.toList_singleton]; rfl
  have hne : ∀ {name : String}, name.toList.length ≠ 1 → String.singleton c ≠ name :=
    fun hname heq => hname (heq ▸ length)
  refine ⟨.symbol ?_ ?_, everywhere_symbol ⟨c, h, rfl⟩, everywhere_symbol trivial⟩
  · have words : ∀ name ∈ Token.namedOperators, name.toList.length ≠ 1 := by decide
    have hword : Token.namedOperators.contains (String.singleton c) = false :=
      Bool.eq_false_iff.2 fun hword => words _ (List.contains_iff_mem.1 hword) length
    rw [Token.isIdentifier, String.toList_singleton, hword]
    simp [Text.isNameStart, h]
  · rw [Grammar.ofName, if_neg (hne (by decide)), if_neg (hne (by decide)), if_neg (hne (by decide)),
      if_neg (hne (by decide)), if_neg (not_or.2 ⟨hne (by decide), hne (by decide)⟩)]

theorem IsClear.binary (binary : op.isUnary = false) (hx : IsClear x) (hy : IsClear y)
    (here : Delimited (apply op [x, y])) : IsClear (apply op [x, y]) :=
  ⟨.binary binary hx.built hy.built, everywhere_binary.2 ⟨trivial, hx.lettered, hy.lettered⟩,
    everywhere_binary.2 ⟨here, hx.delimited, hy.delimited⟩⟩

/-- Clear expressions that are typeset alike are reassociations of one another. -/
theorem IsClear.reassociated (h : IsClear e) (h' : IsClear e') (heq : e.typeset {} = e'.typeset {}) :
    Reassociated e e' := by
  obtain ⟨r, hr, hread⟩ := h.built.reads h.lettered h.delimited
  obtain ⟨r', hr', hread'⟩ := h'.built.reads h'.lettered h'.delimited
  have whole := hr.mono (Nat.zero_le _) h.built.hold_le
  have whole' := hr'.mono (Nat.zero_le _) h'.built.hold_le
  rw [← heq] at whole'
  obtain ⟨rfl, -⟩ := whole.unique whole' (rfl : _ ++ [] = _) (stops_of_none rfl) (stops_of_none rfl)
  exact hread.reassociated.symm.trans hread'.reassociated

/-- Expressions of operators and letters that are typeset alike are reassociations of one another if
their right operands hold together next to their operators, and parentheses are left out only of what
stands apart, but for exponents of `.^`. -/
theorem typeset_unambiguous (h : Built e) (h' : Built e') (lettered : e.Everywhere IsLettered)
    (lettered' : e'.Everywhere IsLettered) :
    (e.Everywhere Delimited → e'.Everywhere Delimited → e.typeset {} = e'.typeset {} →
      Reassociated e e') ∧ e.Everywhere SetsApart :=
  ⟨fun delimited delimited' heq =>
    IsClear.reassociated ⟨h, lettered, delimited⟩ ⟨h', lettered', delimited'⟩ heq, h.setsApart⟩

/-- The tree of `c * (d / (a + b))`. -/
def scaled : Expr :=
  .apply .multiply [.symbol "c", .apply .divide [.symbol "d", .apply .add [.symbol "a", .symbol "b"]]]

/-- A difference in a sum, a sum in a difference, and a sum under a fraction bar. -/
theorem typeset_unambiguous_scaled :
    let difference := Expr.apply .add [.symbol "a", .apply .subtract [.symbol "b", scaled]]
    let sum := Expr.apply .subtract [.apply .add [.symbol "a", .symbol "b"], scaled]
    let divided := [.symbol "d", .apply .add [.symbol "a", .symbol "b"]]
    difference.typeset {} = sum.typeset {} ∧ Reassociated difference sum ∧
      LeavesOut .divide divided 1 ∧ difference.Everywhere SetsApart := by
  intro difference sum divided
  have a : IsClear (.symbol "a") := .letter (c := 'a') rfl
  have b : IsClear (.symbol "b") := .letter (c := 'b') rfl
  have c : IsClear (.symbol "c") := .letter (c := 'c') rfl
  have d : IsClear (.symbol "d") := .letter (c := 'd') rfl
  have inner : IsClear (.apply .add [.symbol "a", .symbol "b"]) :=
    .binary rfl a b (delimited_binary.2 ⟨nofun, fun _ _ => nofun⟩)
  have fraction : IsClear (.apply .divide divided) :=
    .binary rfl d inner (delimited_binary.2 ⟨nofun, nofun⟩)
  have product : IsClear scaled :=
    .binary rfl c fraction (delimited_binary.2 ⟨nofun, fun _ _ _ => meets_binary.2 (absurd rfl)⟩)
  have hsum : IsClear sum := .binary rfl inner product (delimited_binary.2 ⟨nofun, nofun⟩)
  have hdifference : IsClear difference :=
    .binary rfl a (.binary rfl b product (delimited_binary.2 ⟨nofun, nofun⟩))
      (delimited_binary.2 ⟨nofun, fun _ _ _ => meets_binary.2 fun _ _ => ⟨by decide, rfl⟩⟩)
  have alike : difference.typeset {} = sum.typeset {} := by decide +kernel
  have leaves : LeavesOut .divide divided 1 := by
    constructor <;> rfl
  obtain ⟨reassociated, apart⟩ :=
    typeset_unambiguous hdifference.built hsum.built hdifference.lettered hsum.lettered
  exact ⟨alike, reassociated hdifference.delimited hsum.delimited alike, leaves, apart⟩

/-! ### Ambiguous markup -/

theorem Reassociated.strength?_eq (h : Reassociated e e') : strength? .keep e = strength? .keep e' := by
  induction h with
  | refl => rfl
  | symm _ ih => exact ih.symm
  | trans _ _ ih ih' => exact ih.trans ih'
  | regroup h =>
      rw [strength?_apply, strength?_apply, (Operator.of_mem_associativeWith h).1]
  | unary | left | right => rw [strength?_apply, strength?_apply]

/-- The tree of `a .^ (b + c)`. -/
def unraised : Expr :=
  .apply .dotPow [.symbol "a", .apply .add [.symbol "b", .symbol "c"]]

/-- A sum is not set apart as an exponent of `.^`, and a remainder on the left of a right operand is
captured. -/
theorem not_unambiguous :
    let exponent := Expr.apply .add [.symbol "b", .symbol "c"]
    let sum := Expr.apply .add [.apply .dotPow [.symbol "a", .symbol "b"], .symbol "c"]
    let product := Expr.apply .multiply
      [.apply .mod [.apply .multiply [.symbol "a", .symbol "b"], .symbol "c"], .symbol "d"]
    (∀ e ∈ [unraised, sum, captured, product], Built e ∧ e.Everywhere IsLettered) ∧
      (unraised.typeset {} = sum.typeset {} ∧ ¬ Reassociated unraised sum ∧
        LeavesOut .dotPow [.symbol "a", exponent] 1 ∧
          ¬ StandsApart (unraised.typeset {}) (exponent.typeset {})) ∧
      captured.typeset {} = product.typeset {} ∧ ¬ Reassociated captured product := by
  intro exponent sum product
  have a : IsClear (.symbol "a") := .letter (c := 'a') rfl
  have b : IsClear (.symbol "b") := .letter (c := 'b') rfl
  have c : IsClear (.symbol "c") := .letter (c := 'c') rfl
  have d : IsClear (.symbol "d") := .letter (c := 'd') rfl
  have operated : ∀ {op : Operator} {x y : Expr}, op.isUnary = false →
      Built x ∧ x.Everywhere IsLettered → Built y ∧ y.Everywhere IsLettered →
        Built (apply op [x, y]) ∧ (apply op [x, y]).Everywhere IsLettered :=
    fun binary hx hy => ⟨.binary binary hx.1 hy.1, everywhere_binary.2 ⟨trivial, hx.2, hy.2⟩⟩
  have leaf : ∀ {e}, IsClear e → Built e ∧ e.Everywhere IsLettered := fun h => ⟨h.built, h.lettered⟩
  refine ⟨?_, ⟨by decide +kernel, fun h => ?_, by constructor <;> rfl, ?_⟩, by decide +kernel, fun h => ?_⟩
  · simp only [List.forall_mem_cons, List.not_mem_nil, false_imp_iff, implies_true, and_true]
    refine ⟨?_, ?_, ?_, ?_⟩
    · exact operated rfl (leaf a) (operated rfl (leaf b) (leaf c))
    · exact operated rfl (operated rfl (leaf a) (leaf b)) (leaf c)
    · exact operated rfl (leaf a) (operated rfl (operated rfl (leaf b) (leaf c)) (leaf d))
    · exact operated rfl (operated rfl (operated rfl (leaf a) (leaf b)) (leaf c)) (leaf d)
  · exact absurd h.strength?_eq (by decide)
  · have markup : unraised.typeset {} = " a.^\\wedge b+ c" := by decide +kernel
    have operand : exponent.typeset {} = " b+ c" := by decide +kernel
    rintro (⟨front, back, h⟩ | ⟨upper, lower, h⟩)
    · have hbrace : '\x7b' ∈ (unraised.typeset {}).toList := by
        rw [h]
        simp [Latex.group]
      rw [markup] at hbrace
      exact absurd hbrace (by decide)
    · have hhead := congrArg (·.toList.head?) h
      rw [operand] at hhead
      simp at hhead
  · exact absurd h.strays_eq (by decide +kernel)

end Formula.Expr
