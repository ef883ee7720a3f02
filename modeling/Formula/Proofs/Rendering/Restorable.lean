import Formula.Proofs.Rendering.Sparing

/-!
What is read of a legible expression is legible, if every node of it can be read again without the
parentheses of the tree.

`Restorable` says what this takes of a node. It is decided by what is read of the operands
(`readOperands`), since that is what the tokens show. A product by juxtaposition has an operand in front
of a factor: what stands there must stay one operand (`Firm`). The induction is on how an expression is
legible (`Legible.reading`), with one lemma for each kind of operation.
-/

namespace Formula.Expr

open Grammar Rendering

section

variable {j : Juxtaposition} {spelling function : String} {op : Operator} {e left right : Expr}
  {wrap wrap' juxtaposed : Bool}

/-! ### Expressions that are read again -/

/-- Whether two operands next to each other are read as a product: the right one opens as a factor
does, or with a number that goes on with none in front of it, and its parentheses are not those of a
call. -/
def Adjoins (left right : Expr) : Prop :=
  (right.opening.isFactor = true ∨ right.opening = .number ∧ endsLikeNumber left.lastFactor = false) ∧
    (right.opening = .parenthesis → left.endsCallable = false)

/-- What it takes for a node to be read again when only the parentheses are written that the operators
need. What an index or a property follows has to hold together without its own, a property is not behind
a number of digits alone, and no range stands without parentheses between a condition and its
alternative. Operators down the left of a right operand are taken in only if they may be regrouped, no
comparison is taken into a chain, and the operands of a product by juxtaposition are read as one, where
quotients of numbers stay what they are. -/
def Restorable (j : Juxtaposition) : Expr → Prop
  | .access owner (.index _ dotted) =>
    (owner.form = .parenthesis → 17 ≤ owner.content.level false) ∧
      (dotted = true → owner.content.isWhole = false)
  | .conditional _ yes _ => yes.content.form ≠ .range
  | .operation spelling function [left, right] juxtaposed =>
    match readOperands j spelling function [left, right] juxtaposed, Operator.ofName? function with
    | [left', right'], some op =>
      if juxtaposed = true ∧ j = .hide then
        Adjoins left' right' ∧ (left.isNumericQuotient = true → left'.isNumericQuotient = true) ∧
          (right.isNumericQuotient = true → right'.isNumericQuotient = true)
      else op.associativity = .left → right'.joins op = true ∧
        (op.isRelational = true → Rendering.strength? .keep left' ≠ some Precedence.relational)
    | _, _ => True
  | _ => True

theorem Restorable.of_assigned {target value : Expr} (he : assign target value = .ok e) :
    Restorable j target := by
  obtain ⟨_, rfl, _, rfl⟩ | ⟨owner, part, rfl, howner, hpart, rfl⟩ | ⟨_, _, rfl, _, rfl⟩ :=
    assign_eq_ok_iff.1 he
  · trivial
  · cases part with
    | index =>
        cases owner with
        | symbol => exact ⟨nofun, fun _ => rfl⟩
        | access => exact ⟨nofun, fun _ => rfl⟩
        | _ => cases howner
    | _ => trivial
  · trivial

/-- What an index or a property follows is read so that it holds together. -/
theorem level_readOwner (restorable : e.form = .parenthesis → 17 ≤ e.content.level false) :
    17 ≤ (enclosed (wrapsAccessed e) (e.reading j)).level false := by
  cases e with
  | parenthesis => exact level_reading_of_tight (restorable rfl)
  | _ => exact Nat.le_refl 17

/-- Operands of a product by juxtaposition. -/
theorem Restorable.adjoins {wrap wrap' : Bool} (h : Restorable .hide (juxtapose left right))
    (slots : Slots .hide "*" .multiply left right true wrap wrap') :
    Adjoins (enclosed wrap (left.reading .hide)) (enclosed wrap' (right.reading .hide)) ∧
      (left.isNumericQuotient = true →
        (enclosed wrap (left.reading .hide)).isNumericQuotient = true) ∧
      (right.isNumericQuotient = true →
        (enclosed wrap' (right.reading .hide)).isNumericQuotient = true) := by
  rw [juxtapose, Restorable, slots.operands, Operator.ofName?_name] at h
  exact h

theorem Restorable.joins {wrap wrap' : Bool}
    (h : Restorable j (.operation spelling op.name [left, right] juxtaposed))
    (slots : Slots j spelling op left right juxtaposed wrap wrap')
    (spelled : juxtaposed = true → j = .spell) (grouping : op.associativity = .left) :
    (enclosed wrap' (right.reading j)).joins op = true ∧ (op.isRelational = true →
      Rendering.strength? .keep (enclosed wrap (left.reading j)) ≠ some Precedence.relational) := by
  rw [Restorable, slots.operands, Operator.ofName?_name] at h
  dsimp only at h
  rw [if_neg] at h
  · exact h grouping
  · rintro ⟨hjuxtaposed, hide⟩
    rw [spelled hjuxtaposed] at hide
    cases hide

/-! ### Quotients of numbers -/

theorem exposesFraction_of_tight (tight : 15 ≤ e.level false) : e.exposesFraction = false := by
  cases e with
  | operation spelling function operands juxtaposed =>
      rw [level_false_operation] at tight
      unfold exposesFraction
      split
      · rename_i heq
        obtain ⟨rfl, rfl, rfl, rfl⟩ := Expr.operation.inj heq
        cases juxtaposed with
        | true => simp at tight
        | false =>
            cases hop : Operator.ofName? function with
            | none => rfl
            | some op =>
                have hlevel : 15 ≤ op.level := by simpa [hop] using tight
                have : op.level ≠ 12 := by omega
                have : ¬ op.level ≤ 12 := by omega
                simp [*]
      all_goals first | rfl | simp_all
  | assignment | definition | conditional | range | comparison => simp [level] at tight
  | _ => rfl

theorem endsLikeNumber_of_isFraction (h : isFraction left right = true) : endsLikeNumber
    (Expr.operation spelling Operator.divide.name [left, right] false).lastFactor = true := by
  have hliteral := (Bool.and_eq_true_iff.1 h).2
  rw [lastFactor_binary (by decide), lastFactor_of_isLiteral hliteral]
  exact endsLikeNumber_of_isLiteral hliteral

/-- A product that does not end like a number ends in no quotient of numbers. -/
theorem Legible.not_quotient_of_ends {f : Bool} (h : Legible f e) (level : 13 ≤ e.level f)
    (ends : endsLikeNumber e.lastFactor = false) :
    e.isNumericQuotient = false ∧ e.exposesFraction = false := by
  have tight : ∀ {e : Expr}, 15 ≤ e.level f → endsLikeNumber e.lastFactor = false →
      e.isNumericQuotient = false ∧ e.exposesFraction = false := by
    intro e hlevel hends
    refine ⟨Bool.eq_false_iff.2 fun hquotient => ?_,
      exposesFraction_of_tight (le_level_of_tight (by decide) hlevel false)⟩
    obtain ⟨_, left, right, rfl, hfraction⟩ := exists_of_isNumericQuotient hquotient
    rw [endsLikeNumber_of_isFraction hfraction] at hends
    cases hends
  obtain h | ⟨_, left, right, rfl, hfraction, _⟩ | ⟨left, right, rfl, _, _, hright, rightLevel, _⟩ :=
    h.factor_cases level
  · exact tight h ends
  · rw [endsLikeNumber_of_isFraction hfraction] at ends
    cases ends
  · have hends : endsLikeNumber right.lastFactor = false := ends
    have hright' : right.isNumericQuotient = false ∧ right.exposesFraction = false := by
      obtain h | ⟨_, _, _, rfl, hfraction, _⟩ := hright.operand_or_fraction rightLevel
      · exact tight h hends
      · rw [endsLikeNumber_of_isFraction hfraction] at hends
        cases hends
    exact ⟨rfl, by rw [juxtapose, exposesFraction, if_pos rfl, hright'.1, hright'.2]; rfl⟩

/-- A product stands in front of what is no factor as well as in front of a factor, unless it ends like a
number. -/
theorem Legible.of_ends {f g : Bool} (h : Legible f e) (level : 13 ≤ e.level f)
    (ends : g = true ∨ endsLikeNumber e.lastFactor = false) : Legible g e ∧ 13 ≤ e.level g := by
  cases f with
  | false => exact ⟨h.before level nofun, le_level_before level nofun⟩
  | true =>
      rcases ends with rfl | ends
      · exact ⟨h, level⟩
      · obtain ⟨hquotient, hfraction⟩ := h.not_quotient_of_ends level ends
        cases g with
        | true => exact ⟨h, level⟩
        | false =>
            rw [level_eq_of_not_quotient hquotient true false] at level
            exact ⟨h.of_unfollowed hfraction, level⟩

theorem level_true_of_isNumericQuotient (h : e.isNumericQuotient = true) : e.level true = 14 := by
  obtain ⟨_, _, _, rfl, hfraction⟩ := exists_of_isNumericQuotient h
  rw [level_binary, if_pos ⟨rfl, rfl, hfraction⟩]

/-- A quotient of numbers that is legible on its own is one number in front of a factor. -/
theorem Legible.fraction_of_quotient (h : Legible false e) (hquotient : e.isNumericQuotient = true) :
    Legible true e := by
  obtain ⟨spelling, left, right, rfl, hfraction⟩ := exists_of_isNumericQuotient hquotient
  generalize hname : Operator.divide.name = name at h
  cases h with
  | binary hop weak hleft leftLevel hright =>
      cases Operator.name_injective hname
      rw [Operator.eq_of_binary?_divide hop]
      exact .fraction hfraction hleft hright
  | power hspelling hop =>
      cases Operator.name_injective hname
      rcases hspelling with rfl | rfl <;> cases hop
  | name _ he => rcases form_ofName _ with h | h <;> rw [he] at h <;> cases h
  | assigned he => rcases form_assigned he with h | h <;> cases h

/-! ### Products by juxtaposition -/

/-- Whether a factor that follows an expression follows what is read of it: it is written next to the
expression, which is in no parentheses. -/
def meetsFactor (j : Juxtaposition) (f : Bool) (e : Expr) : Bool :=
  f && (j = .hide && e.form ≠ .parenthesis)

/-- Whether an expression that meets a factor is one operand with it, and read as one. -/
def Firm (j : Juxtaposition) (f : Bool) (e : Expr) : Prop :=
  e.meetsFactor j f = true →
    13 ≤ e.level true ∧ (e.isNumericQuotient = true → (e.reading j).isNumericQuotient = true)

theorem meetsFactor_hide (hform : e.form ≠ .parenthesis) (f : Bool) : e.meetsFactor .hide f = f := by
  simp [meetsFactor, hform]

theorem meetsFactor_loose {f : Bool} (h : (f && decide (j = .hide)) = false) (e : Expr) :
    e.meetsFactor j f = false := by
  rw [meetsFactor, ← Bool.and_assoc, h, Bool.false_and]

/-- In front of a factor that is written next to it, nothing looser than a product is read as one. -/
theorem Firm.alone {f : Bool} (h : Firm j f e) (hform : e.form ≠ .parenthesis)
    (loose : e.level true ≤ 12) : (f && decide (j = .hide)) = false := by
  rw [Bool.eq_false_iff]
  intro hf
  have := (h (by simpa [meetsFactor, hform] using hf)).1
  omega

theorem firm_of_loose {f : Bool} (h : (f && decide (j = .hide)) = false) (e : Expr) : Firm j f e :=
  fun hmeets => absurd ((meetsFactor_loose h e).symm.trans hmeets) Bool.false_ne_true

theorem firm_of_alone (j : Juxtaposition) (e : Expr) : Firm j false e :=
  fun h => absurd h Bool.false_ne_true

theorem reading_juxtapose (slots : Slots .hide "*" .multiply left right true wrap wrap') :
    (juxtapose left right).reading .hide
      = juxtapose (enclosed wrap (left.reading .hide)) (enclosed wrap' (right.reading .hide)) := by
  rw [juxtapose, reading_operation, slots.operands]
  exact readOperation_juxtaposed

/-- What may stand next to another operand binds as tightly as a product. -/
theorem Legible.strength_of_factor {f : Bool} {k : Nat} (h : Legible f e) (level : 13 ≤ e.level f)
    (hk : Rendering.strength? .keep e = some k) : 12 ≤ k := by
  obtain tight | ⟨_, _, _, rfl, _⟩ | ⟨_, _, rfl, _⟩ := h.factor_cases level
  · exact Nat.le_trans (by decide) (strength?_of_level tight hk)
  all_goals
    cases hk
    decide

theorem Legible.strength_of_operand {f : Bool} {k : Nat} (h : Legible f e) (level : 14 ≤ e.level f)
    (hquotient : e.isNumericQuotient = false) (hk : Rendering.strength? .keep e = some k) : 13 ≤ k := by
  obtain tight | ⟨_, _, _, rfl, hfraction, _⟩ := h.operand_or_fraction level
  · exact strength?_of_level tight hk
  · have : isFraction _ _ = false := hquotient
    rw [hfraction] at this
    cases this

theorem strength?_auto (hform : e.form ≠ .parenthesis) :
    Rendering.strength? .auto e = Rendering.strength? .keep e := by
  cases e with
  | parenthesis => exact absurd rfl hform
  | _ => rfl

/-- The operands of a product by juxtaposition are read in the parentheses that the tree has around
them, unless an operand is a quotient of numbers. -/
theorem Slots.wraps_juxtaposed {f g : Bool} (slots : Slots .hide "*" .multiply left right true wrap wrap')
    (hleft : Legible g left) (leftLevel : 13 ≤ left.level g) (hright : Legible f right)
    (rightLevel : 14 ≤ right.level f) : (left.form = .parenthesis ↔ wrap = true) ∧
      (right.form = .parenthesis → wrap' = true) ∧
      (wrap' = true → right.form = .parenthesis ∨ right.isNumericQuotient = true) := by
  have loose : ∀ {e : Expr} {other : Bool}, e.form ≠ .parenthesis →
      (∀ k, Rendering.strength? .keep e = some k → 12 ≤ k ∧ (other = true → 13 ≤ k)) →
      isLooser .auto (juxtapose left right) e other = false := by
    intro e other hform h
    have hroot : Rendering.strength? .auto (juxtapose left right) = some 12 := rfl
    rw [isLooser, strength?_auto hform, hroot]
    cases hk : Rendering.strength? .keep e with
    | none => rfl
    | some k =>
        obtain ⟨strong, stronger⟩ := h k hk
        cases other with
        | false => simpa using strong
        | true =>
            have := stronger rfl
            simp [strong, show k ≠ 12 by omega]
  obtain ⟨hwrap, hwrap'⟩ : _ ∧ _ := by
    have := slots.wraps.symm.trans wrappedOperands_sparing
    simpa [keepsParentheses] using this
  rw [hwrap, hwrap', Bool.or_eq_true, Bool.or_eq_true, decide_eq_true_iff, decide_eq_true_iff]
  refine ⟨⟨.inr, fun h => ?_⟩, .inr, fun h => ?_⟩
  · by_contra hform
    refine absurd (h.resolve_right hform) (Bool.eq_false_iff.1 (loose hform fun k hk => ⟨?_, (absurd · (by decide))⟩))
    exact hleft.strength_of_factor leftLevel hk
  · by_contra hform
    obtain ⟨hform, hquotient⟩ := not_or.1 hform
    refine absurd (h.resolve_right hform) (Bool.eq_false_iff.1 (loose hform fun k hk => ?_))
    have := hright.strength_of_operand rightLevel (by simpa using hquotient) hk
    exact ⟨by omega, fun _ => this⟩

/-- An operand of a product by juxtaposition is read as one. -/
theorem legible_readFactor {f : Bool}
    (read : Firm .hide f e → Legible (e.meetsFactor .hide f) (e.reading .hide))
    (level : 13 ≤ e.level f) (kept : e.form = .parenthesis → wrap = true)
    (needed : wrap = true → e.form = .parenthesis ∨ e.isNumericQuotient = true)
    (quotient : e.isNumericQuotient = true →
      (enclosed wrap (e.reading .hide)).isNumericQuotient = true) :
    Legible f (enclosed wrap (e.reading .hide)) ∧
      e.level f ≤ (enclosed wrap (e.reading .hide)).level f := by
  by_cases hform : e.form = .parenthesis
  · have alone : e.meetsFactor .hide f = false := by simp [meetsFactor, hform]
    obtain rfl := kept hform
    have hread := read fun hmeets => absurd (alone.symm.trans hmeets) Bool.false_ne_true
    rw [alone] at hread
    refine ⟨.parenthesis hread, ?_⟩
    cases e with
    | parenthesis => exact Nat.le_refl 17
    | _ => cases hform
  · obtain rfl : wrap = false := by
      rw [Bool.eq_false_iff]
      intro hwrap
      have := quotient ((needed hwrap).resolve_left hform)
      rw [hwrap] at this
      cases this
    rw [meetsFactor_hide hform] at read
    refine ⟨read fun hmeets => ?_, ?_⟩
    · rw [meetsFactor_hide hform] at hmeets
      exact ⟨hmeets ▸ level, quotient⟩
    · cases hquotient : e.isNumericQuotient with
      | false =>
          refine le_level_before (f := false) ?_ nofun
          rw [enclosed, if_neg Bool.false_ne_true, level_reading hform]
          exact Nat.le_of_eq (level_eq_of_not_quotient hquotient f false)
      | true =>
          have hread := quotient hquotient
          cases f with
          | false => rw [level_of_isNumericQuotient hquotient, level_of_isNumericQuotient hread]
          | true => rw [level_true_of_isNumericQuotient hquotient, level_true_of_isNumericQuotient hread]

theorem Legible.readJuxtaposed {f : Bool} (restorable : Restorable .hide (juxtapose left right))
    (hleft : Legible right.opening.isFactor left) (leftLevel : 13 ≤ left.level right.opening.isFactor)
    (hright : Legible f right) (rightLevel : 14 ≤ right.level f)
    (readLeft : Firm .hide right.opening.isFactor left →
      Legible (left.meetsFactor .hide right.opening.isFactor) (left.reading .hide))
    (readRight : Firm .hide f right → Legible (right.meetsFactor .hide f) (right.reading .hide)) :
    Legible f ((juxtapose left right).reading .hide) := by
  obtain ⟨wrap, wrap', slots⟩ := exists_slots .hide "*" .multiply left right true
  obtain ⟨⟨opens, called⟩, quotient, quotient'⟩ := restorable.adjoins slots
  obtain ⟨wraps, kept, needed⟩ := slots.wraps_juxtaposed hleft leftLevel hright rightLevel
  obtain ⟨hleft', leftLevel'⟩ :=
    legible_readFactor readLeft leftLevel wraps.1 (fun h => .inl (wraps.2 h)) quotient
  obtain ⟨hright', rightLevel'⟩ :=
    legible_readFactor readRight (Nat.le_trans (by decide) rightLevel) kept needed quotient'
  obtain ⟨hleft', leftLevel'⟩ :=
    hleft'.of_ends (Nat.le_trans leftLevel leftLevel') (opens.imp_right And.right)
  rw [reading_juxtapose slots]
  exact .juxtaposition hleft' leftLevel' hright' (Nat.le_trans rightLevel rightLevel') opens called

/-! ### Operations that are spelled out -/

theorem reading_left (slots : Slots j spelling op left right juxtaposed wrap wrap')
    (grouping : op.associativity = .left) (spelled : (juxtaposed && decide (j = .hide)) = false) :
    (Expr.operation spelling op.name [left, right] juxtaposed).reading j
      = absorb spelling op (enclosed wrap (left.reading j)) (enclosed wrap' (right.reading j)) := by
  rw [reading_operation, slots.operands, spelled, readOperation_left grouping]

theorem reading_right (slots : Slots j spelling op left right false wrap wrap')
    (grouping : op.associativity = .right) :
    (Expr.operation spelling op.name [left, right] false).reading j = .operation spelling op.name
      [enclosed wrap (left.reading j), enclosed wrap' (right.reading j)] false := by
  rw [reading_operation, slots.operands]
  exact readOperation_right grouping

theorem reading_one (hwrap : wrappedOperands (.sparing j) false
      (.operation spelling function [e] juxtaposed) [e] juxtaposed = [wrap]) :
    (Expr.operation spelling function [e] juxtaposed).reading j
      = .operation spelling function [enclosed wrap (e.reading j)] (juxtaposed && j = .hide) := by
  rw [reading_operation, readOperands, hwrap]
  exact readOperation_one

theorem Legible.readPostfixed (hop : Operator.trailing? spelling = some op)
    (h : Legible false (e.reading j)) (f : Bool) : Legible f ((Expr.operation spelling op.name [e] false).reading j) := by
  obtain ⟨wrap, hwrap⟩ :=
    exists_wrappedOperand (.sparing j) (.operation spelling op.name [e] false) e false
  have strong : 15 ≤ op.precedence + 1 := by
    have := Operator.level_of_trailing hop
    rw [Operator.level_eq] at this
    split at this <;> omega
  rw [reading_one hwrap]
  exact .postfixed hop h.enclosed ((h.enclosed.le_level_tight (binds_one hwrap)).2 strong)

theorem Legible.readPrefixed (hop : Operator.leading? spelling = some op)
    (h : Legible false (e.reading j)) (f : Bool) : Legible f ((Expr.operation spelling op.name [e] false).reading j) := by
  obtain ⟨wrap, hwrap⟩ :=
    exists_wrappedOperand (.sparing j) (.operation spelling op.name [e] false) e false
  have strong : 13 ≤ op.precedence + 1 := by
    have := Operator.level_of_leading hop
    rw [Operator.level_eq] at this
    split at this <;> omega
  rw [reading_one hwrap]
  exact .prefixed hop h.enclosed ((h.enclosed.le_level_tight (binds_one hwrap)).1 strong)

theorem Legible.readPower (hspelling : spelling = "^" ∨ spelling = ".^")
    (hop : Operator.binary? spelling = some op) (hleft : Legible false (left.reading j))
    (hright : Legible false (right.reading j)) (f : Bool) :
    Legible f ((Expr.operation spelling op.name [left, right] false).reading j) := by
  obtain ⟨wrap, wrap', slots⟩ := exists_slots j spelling op left right false
  obtain ⟨grouping, hprecedence⟩ : op.associativity = .right ∧ op.precedence = 14 := by
    rcases hspelling with rfl | rfl <;> cases hop <;> exact ⟨rfl, rfl⟩
  rw [reading_right slots grouping]
  exact .power hspelling hop hleft.enclosed
    ((hleft.enclosed.le_level_tight (slots.base grouping)).2 (by omega)) hright.enclosed
    ((hright.enclosed.le_level_tight slots.ofRight).1 (by omega))

/-- An operation is read as a legible one, from operands that are. -/
theorem Restorable.readLeft
    (restorable : Restorable j (.operation spelling op.name [left, right] juxtaposed))
    (spelled : juxtaposed = true → j = .spell) (hop : Operator.binary? spelling = some op)
    (grouping : op.associativity = .left) (hleft : Legible false (left.reading j))
    (hright : Legible false (right.reading j)) :
    Legible false ((Expr.operation spelling op.name [left, right] juxtaposed).reading j) := by
  obtain ⟨wrap, wrap', slots⟩ := exists_slots j spelling op left right juxtaposed
  have hspelled : (juxtaposed && decide (j = .hide)) = false := by
    cases juxtaposed with
    | false => rfl
    | true => rw [spelled rfl]; rfl
  rw [reading_left slots grouping hspelled]
  exact .readLeft hop grouping hleft.enclosed slots.ofLeft (restorable.joins slots spelled grouping).2
    hright.enclosed slots.ofRight (slots.tight grouping)

/-! ### Other parts -/

/-- Parts other than operands bind tighter than what they are parts of. -/
theorem binds_part (limit : Nat) : (enclosed (wrapsAt (Style.sparing j).parentheses limit e)
    (e.reading j)).BindsAtLeast (limit + 1) := by
  refine binds_enclosed fun hwrap k hk => ?_
  rw [strength?_reading] at hk
  have : ¬ k ≤ limit := by simpa [wrapsAt, Style.sparing, hk] using hwrap
  omega

theorem Legible.part_level {limit : Nat} (h : Legible false (e.reading j)) (weak : limit < 13) :
    limit + 1 ≤ (Expr.enclosed (wrapsAt (Style.sparing j).parentheses limit e)
      (e.reading j)).level false :=
  h.enclosed.le_level_same (binds_part limit) weak

theorem binds_condition : (enclosed (wrapsCondition (Style.sparing j).parentheses e)
    (e.reading j)).BindsAtLeast (Precedence.conditional + 1) := by
  refine binds_enclosed fun hwrap => ?_
  have hpart : wrapsAt (Style.sparing j).parentheses Precedence.conditional e = false := by
    rw [wrapsCondition, decide_eq_false_iff_not, not_or] at hwrap
    simpa using hwrap.2
  have := binds_part (j := j) (e := e) Precedence.conditional
  rwa [hpart] at this

/-- Between a condition and its alternative, no colon is read as that of a range or of another
alternative. -/
theorem exposesColon_branch (hform : e.content.form ≠ .range) :
    (enclosed (wrapsAt (Style.sparing j).parentheses Precedence.conditional e)
      (e.reading j)).exposesColon = false := by
  have binds := binds_part (j := j) (e := e) Precedence.conditional
  cases hwrap : wrapsAt (Style.sparing j).parentheses Precedence.conditional e with
  | true => rfl
  | false =>
      rw [hwrap] at binds
      rw [enclosed, if_neg Bool.false_ne_true, ← reading_content] at binds ⊢
      have hne := form_content_ne e
      revert hform binds hne
      cases e.content with
      | operation spelling function operands juxtaposed =>
          intro _ _ _
          obtain ⟨_, _, _, hread⟩ := exists_readOperation spelling function
            (readOperands j spelling function operands juxtaposed) (juxtaposed && j = .hide)
          rw [reading_operation, hread]
          rfl
      | range => exact fun hform => absurd rfl hform
      | parenthesis => exact fun _ _ hne => absurd rfl hne
      | conditional | assignment | definition =>
          intro _ binds _
          exact absurd (binds _ rfl) (by decide)
      | _ => exact fun _ _ _ => rfl

/-! ### What is read is legible -/

/-- What is read of a legible expression is legible. -/
theorem Legible.reading {f : Bool} (h : Legible f e) (restorable : e.Everywhere (Restorable j))
    (firm : Firm j f e) : Legible (e.meetsFactor j f) (e.reading j) := by
  have partwise := partwise_reading j
  induction h with
  | number lexical literal => exact .number lexical literal
  | string value => exact .string value
  | name lexical he =>
      subst he
      rw [partwise.ofName]
      exact .name lexical rfl
  | word hname infix_ => exact .word hname infix_
  | @parenthesis f e h ih =>
      -- The parentheses are gone, so nothing that follows them meets what was in them.
      have hflag : (Expr.parenthesis e).meetsFactor j f = false := by
        simp [meetsFactor, form]
      rw [partwise.parenthesis, hflag]
      exact ih (restorable.child _ (by simp [children])) (firm_of_alone j e)
  | array h ih =>
      rw [partwise.array]
      refine .array (List.forall_mem_map.2 fun e he => ih e he (restorable.child e ?_) (firm_of_alone j e))
      simpa [children] using he
  | object h nodup ih =>
      rw [partwise.object]
      refine .object (List.forall_mem_map.2 fun p hp =>
        ih p hp (restorable.child p.2 ?_) (firm_of_alone j p.2)) ?_
      · exact List.mem_map.2 ⟨_, List.mem_map_of_mem hp, rfl⟩
      · rw [Record.keys, List.map_map]
        exact nodup
  | call hcallee callable h ihcallee ih =>
      obtain ⟨hwrap, callable'⟩ := partwise.callee callable
      rw [partwise.call, hwrap]
      refine .call (ihcallee (restorable.child _ (by simp [children])) (firm_of_alone j _)) callable' ?_
      refine List.forall_mem_map.2 fun e he => ih e he (restorable.child e ?_) (firm_of_alone j e)
      simp [children, he]
  | @index f owner dimensions howner _ h ihowner ih =>
      have hpart := restorable.child (.index dimensions false) (by simp [children])
      rw [partwise.access, partwise.index]
      refine .index (ihowner (restorable.child _ (by simp [children])) (firm_of_alone j owner)).enclosed
        (level_readOwner restorable.here.1) ?_
      refine List.forall_mem_map.2 fun e he => ih e he (hpart.child e ?_) (firm_of_alone j e)
      simpa [children] using he
  | @property f owner name howner _ lexical ih =>
      rw [partwise.access]
      exact .property (ih (restorable.child _ (by simp [children])) (firm_of_alone j owner)).enclosed
        (level_readOwner restorable.here.1) lexical
  | @postfixed f spelling op e hop h _ ih =>
      exact .readPostfixed hop (ih (restorable.child _ (by simp [children])) (firm_of_alone j e)) _
  | @prefixed f spelling op e hop h _ ih =>
      exact .readPrefixed hop (ih (restorable.child _ (by simp [children])) (firm_of_alone j e)) _
  | @power f spelling op left right hspelling hop _ _ _ _ ih ih' =>
      exact .readPower hspelling hop
        (ih (restorable.child _ (by simp [children])) (firm_of_alone j left))
        (ih' (restorable.child _ (by simp [children])) (firm_of_alone j right)) _
  | @fraction left right hfraction hleft hright ih ih' =>
      have hread : Legible false
          ((Expr.operation "/" Operator.divide.name [left, right] false).reading j) :=
        Restorable.readLeft restorable.here (absurd · Bool.false_ne_true) (by decide) rfl
          (ih (restorable.child _ (by simp [children])) (firm_of_alone j left))
          (ih' (restorable.child _ (by simp [children])) (firm_of_alone j right))
      -- It is one number where the factor still follows it, and a plain quotient elsewhere.
      cases hmeets : (Expr.operation "/" Operator.divide.name [left, right] false).meetsFactor j true with
      | false => exact hread
      | true => exact hread.fraction_of_quotient ((firm hmeets).2 hfraction)
  | @binary f spelling op left right hop weak hleft leftLevel hright rightLevel divides ih ih' =>
      -- An operand of a product holds together more tightly, so no factor is written next to this.
      have alone : (f && decide (j = .hide)) = false := by
        cases f with
        | false => rfl
        | true =>
            refine Firm.alone firm (show Form.operation ≠ .parenthesis by decide) ?_
            rwa [level_binary, if_neg (not_fraction hleft divides)]
      have hright' := ih' (restorable.child _ (by simp [children])) (firm_of_loose alone right)
      rw [meetsFactor_loose alone] at hright' ⊢
      exact Restorable.readLeft restorable.here (absurd · Bool.false_ne_true) hop
        (Operator.left_of_weak weak) (ih (restorable.child _ (by simp [children])) (firm_of_alone j left)) hright'
  | @juxtaposition f left right hleft leftLevel hright rightLevel _ _ ih ih' =>
      have hleft' := ih (restorable.child _ (by simp [children, juxtapose]))
      have hright' := ih' (restorable.child _ (by simp [children, juxtapose]))
      cases j with
      | hide =>
          have hform : (juxtapose left right).form ≠ .parenthesis := show Form.operation ≠ _ by decide
          rw [meetsFactor_hide hform]
          exact Legible.readJuxtaposed restorable.here hleft leftLevel hright rightLevel hleft' hright'
      | spell =>
          have hleft' := hleft' (firm_of_loose (Bool.and_false _) left)
          have hright' := hright' (firm_of_loose (Bool.and_false _) right)
          rw [meetsFactor_loose (Bool.and_false _)] at hleft' hright' ⊢
          have hop : Operator.binary? "*" = some .multiply := by decide
          exact Restorable.readLeft restorable.here (fun _ => rfl) hop rfl hleft' hright'
  | @comparison f functions operands last comparisons many length h levels hlast lastLevel ih ihlast =>
      have below : ∀ e ∈ operands ++ [last], Everywhere (Restorable j) e :=
        fun e he => restorable.child e (by simpa [children] using he)
      rw [List.forall_mem_append, List.forall_mem_singleton] at below
      have alone := Firm.alone firm (show Form.comparison ≠ .parenthesis by decide)
        (show 9 ≤ 12 by decide)
      have hlast' := ihlast below.2 (firm_of_loose alone last)
      rw [meetsFactor_loose alone] at hlast' ⊢
      rw [partwise.comparison, List.map_append, List.map_singleton]
      have hoperands : ∀ e ∈ operands, Legible false (e.reading j) :=
        fun e he => ih e he (below.1 e he) (firm_of_alone j e)
      refine .comparison comparisons many (by simpa using length)
        (List.forall_mem_map.2 fun e he => (hoperands e he).enclosed)
        (List.forall_mem_map.2 fun e he => (hoperands e he).part_level (by decide))
        hlast'.enclosed (hlast'.part_level (by decide))
  | @range f start stop hstart startLevel hstop stopLevel ih ih' =>
      have alone := Firm.alone firm (show Form.range ≠ .parenthesis by decide) (show 2 ≤ 12 by decide)
      have hstart' := ih (restorable.child _ (by simp [children])) (firm_of_alone j start)
      have hstop' := ih' (restorable.child _ (by simp [children])) (firm_of_loose alone stop)
      rw [meetsFactor_loose alone] at hstop' ⊢
      rw [partwise.range]
      exact .range hstart'.enclosed (hstart'.part_level (by decide)) hstop'.enclosed
        (hstop'.part_level (by decide))
  | @steppedRange f start stop step hstart startLevel hstep stepLevel hstop stopLevel ih ih' ih'' =>
      have alone := Firm.alone firm (show Form.range ≠ .parenthesis by decide) (show 2 ≤ 12 by decide)
      have hstart' := ih (restorable.child _ (by simp [children])) (firm_of_alone j start)
      have hstep' := ih' (restorable.child _ (by simp [children])) (firm_of_alone j step)
      have hstop' := ih'' (restorable.child _ (by simp [children])) (firm_of_loose alone stop)
      rw [meetsFactor_loose alone] at hstop' ⊢
      rw [partwise.range]
      exact .steppedRange hstart'.enclosed (hstart'.part_level (by decide)) hstep'.enclosed
        (hstep'.part_level (by decide)) hstop'.enclosed (hstop'.part_level (by decide))
  | @conditional f condition yes no hcondition conditionLevel hyes hcolon hno ih ih' ih'' =>
      have alone := Firm.alone firm (show Form.conditional ≠ .parenthesis by decide)
        (show 1 ≤ 12 by decide)
      have hcondition' := ih (restorable.child _ (by simp [children])) (firm_of_alone j condition)
      have hyes' := ih' (restorable.child _ (by simp [children])) (firm_of_alone j yes)
      have hno' := ih'' (restorable.child _ (by simp [children])) (firm_of_loose alone no)
      rw [meetsFactor_loose alone] at hno' ⊢
      rw [partwise.conditional]
      exact .conditional hcondition'.enclosed
        (hcondition'.enclosed.le_level_same binds_condition (by decide)) hyes'.enclosed
        (exposesColon_branch restorable.here) hno'.enclosed
  | @assigned f target value e he htarget hvalue ih ih' =>
      have alone : (f && decide (j = .hide)) = false := by
        refine Firm.alone firm ?_ (by rw [level_assigned he]; decide)
        rcases form_assigned he with h | h <;> rw [h] <;> decide
      obtain ⟨below, below'⟩ :=
        everywhere_assigned (fun _ => trivial) Restorable.of_assigned he restorable
      have hvalue' := ih' below' (firm_of_loose alone value)
      rw [meetsFactor_loose alone] at hvalue' ⊢
      exact .assigned (partwise.assign he) (ih below (firm_of_alone j target)) hvalue'.enclosed

end

end Formula.Expr
