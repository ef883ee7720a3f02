import Formula.Proofs.Grammar.Completeness.Operand
import Formula.Proofs.Grammar.Soundness

/-!
The looser productions read what there is of their levels, and so does the grammar as a whole
(`productions_complete`).
-/

namespace Formula.Grammar

open Expr (Legible)
open Reading (repeatedly)

section Productions

variable {p : Productions} {m : Nat} {ctx : Context} {tokens rest : List Token}

/-! ### Fractions and products by juxtaposition -/

/-- What one turn of the loop over the denominators of a fraction reads. -/
def fractionTurn (p : Productions) (ctx : Context) :
    Expr × Expr → Parser (ForInStep (Expr × Expr)) := fun (e, last) => do
  let denominator := nextLine ctx (← get)
  if (← peek).isOperator "/" && isNumeral last && (head denominator).kind == .number
      && startsFactor (head (nextLine ctx denominator)) then
    set denominator
    let last ← operand p ctx
    return .yield (← binary "/" e last, last)
  else
    return .done (e, last)

theorem stops_fraction {e last : Expr}
    (h : isNumeral last = true → ¬ Divides ctx rest) :
    Stops (fractionTurn p ctx) (e, last) rest (e, last) rest := by
  rw [Stops, fractionTurn, gives_get_bind, gives_peek_bind, if_neg]
  · exact gives_pure.2 ⟨rfl, rfl⟩
  · simp only [Bool.and_eq_true, beq_iff_eq]
    rintro ⟨⟨⟨hslash, hnumeral⟩, hkind⟩, hfactor⟩
    exact h hnumeral ⟨hslash, hkind, hfactor⟩

theorem not_divides_of_followed (h : followed rest = true) : ¬ Divides ctx rest :=
  fun h' => kind_ne_operator_of_followed h (isOperator_iff.1 h'.1).1

theorem fraction_complete (hp : p.Complete m) (proper : ctx.Proper) : Complete 14 (m + 1) ctx (fraction p ctx) := by
  intro tokens e rest h _ length
  obtain ⟨front, rfl, hspelled⟩ := h.operand (by decide)
  rcases h.legible.operand_or_fraction h.tight with tight | ⟨hfollowed, left, right, rfl, hfraction, hleft, hright⟩
  · have hread : Reads 15 ctx (front ++ rest) e rest :=
      ⟨h.spelled, h.legible, tight, h.ends.mono (by decide), h.closed, h.fresh⟩
    have hquotient := h.ends.quotient (by decide)
    rw [Expr.lastFactor_eq_self h.legible tight] at hquotient
    refine gives_bind.2 ⟨e, rest, (operand_complete hp proper).gives (by decide) hread length, ?_⟩
    refine gives_bind.2 ⟨(e, e), rest, ?_, gives_pure.2 ⟨rfl, rfl⟩⟩
    exact gives_repeatedly_of_stops h.closed (stops_fraction hquotient)
  · obtain ⟨front, o, lines, back, op, rfl, ho, htext, hop, _, gap, hfront, hback⟩ := hspelled.as
    obtain rfl := Operator.binary?_divide hop
    obtain ⟨hnumeral, hliteral⟩ := Bool.and_eq_true_iff.1 hfraction
    obtain ⟨t, lines', rfl, deep, hkind, rfl, gap'⟩ := hback.literal hliteral
    have hslash : o.isOperator "/" = true := isOperator_iff.2 ⟨ho, htext⟩
    have hnext : nextLine ctx (o :: lines ++ (t :: lines' ++ rest)) = t :: lines' ++ rest :=
      nextLine_cons (by simp [ho]) gap (by simp [head_cons, hkind])
    have hnext' : next ctx (t :: lines' ++ rest) = rest := next_cons (by simp [hkind]) gap' h.fresh
    have hfactor : startsFactor (head (nextLine ctx (t :: lines' ++ rest))) = true := by
      rw [nextLine, hnext']
      exact hfollowed
    have closed := h.closed.append (t :: lines')
    have hlevel := Expr.level_of_isNumeral hleft hnumeral
    simp only [List.length_append, List.length_cons] at length
    have hread : Reads 15 ctx (front ++ (o :: lines ++ (t :: lines' ++ rest))) left
        (o :: lines ++ (t :: lines' ++ rest)) := by
      have hoperator : followed (o :: lines ++ (t :: lines' ++ rest)) = false :=
        followed_of_operator ho
      refine ⟨hfront.upTo rfl, hoperator ▸ hleft, hoperator ▸ hlevel,
        .of_tight (by decide) (fun strength hstrength => ?_) (fun hparen => ?_), closed.append _,
        fun _ => by simp [head_cons, ho]⟩
      · have hop' : Operator.binary? o.text = some .divide := htext ▸ hop
        rw [List.cons_append, head_cons, strength?_of_binary ho hop'] at hstrength
        obtain rfl := Option.some.inj hstrength
        decide
      · exact absurd hparen (by simp [head_cons, Token.isDelimiter, ho])
    have hdenominator : Gives (operand p ctx) (t :: lines' ++ rest) (.number t.text) rest := by
      have := gives_operand_literal (p := p) deep closed hkind (by rwa [hnext'])
      rwa [hnext'] at this
    have hgoes : Goes (fractionTurn p ctx) (left, left) (o :: lines ++ (t :: lines' ++ rest))
        (.operation "/" Operator.divide.name [left, .number t.text] false, .number t.text) rest := by
      have hhead : head (o :: lines ++ (t :: lines' ++ rest)) = o := rfl
      have hhead' : head (t :: lines' ++ rest) = t := rfl
      rw [Goes, fractionTurn, gives_get_bind, gives_peek_bind, hnext, hhead, hhead', if_pos]
      · rw [gives_set_bind]
        refine gives_bind.2 ⟨_, _, hdenominator, ?_⟩
        exact gives_bind.2 ⟨_, _, gives_binary.2 ⟨.divide, hop, rfl, rfl⟩, gives_pure.2 ⟨rfl, rfl⟩⟩
      · rw [hslash, hnumeral, hfactor]
        simp [hkind]
    have hsteps : Steps (fractionTurn p ctx) (left, left) (o :: lines ++ (t :: lines' ++ rest))
        (.operation "/" Operator.divide.name [left, .number t.text] false, .number t.text) rest :=
      .head hgoes (by simp; omega) (.refl _ _)
    simp only [List.append_assoc] at hread ⊢
    refine gives_bind.2 ⟨left, _, (operand_complete hp proper).gives (by decide) hread (by simp; omega), ?_⟩
    exact gives_bind.2 ⟨(_, _), rest, hsteps.gives (stops_fraction fun _ =>
      not_divides_of_followed hfollowed) h.closed.ne_nil, gives_pure.2 ⟨rfl, rfl⟩⟩

/-- What one turn of the loop over the factors of a product reads. -/
def factorTurn (p : Productions) (ctx : Context) :
    Expr × Bool → Parser (ForInStep (Expr × Bool)) := fun (e, afterNumber) => do
  let t ← peek
  if startsFactor t || t.kind == .number && !afterNumber then
    let factor ← fraction p ctx
    return .yield (.juxtapose e factor, endsLikeNumber factor)
  else
    return .done (e, afterNumber)

theorem kind_of_opening {t : Token} (h : t.opening = .number) : t.kind = .number := by
  unfold Token.opening at h
  split at h
  · cases h
  · assumption
  · split at h <;> cases h
  · cases h

/-- A factor ends what is in front of it. -/
theorem ends_of_factor {left right : Expr} (hopening : (head rest).opening = right.opening)
    (opens : right.opening.isFactor = true ∨ right.opening = .number)
    (called : right.opening = .parenthesis → left.endsCallable = false) :
    Ends 14 ctx left rest := by
  have hkind : (head rest).kind ≠ .operator ∧ ∀ strength, strength? (head rest) = some strength →
      strength = 13 := by
    rcases opens with opens | opens
    · rw [← hopening, ← startsFactor_eq] at opens
      refine ⟨fun h => ?_, fun strength h => ?_⟩
      · simp [startsFactor, Token.isDelimiter, h] at opens
      · rw [strength?_of_startsFactor opens] at h
        exact (Option.some.inj h).symm
    · have := kind_of_opening (hopening.trans opens)
      simp [strength?, this]
  refine ⟨fun strength hstrength => ?_, fun hparen => ?_, fun h => absurd h (by decide), fun _ _ h => ?_,
    fun h => absurd h (by decide)⟩
  · rw [hkind.2 _ hstrength]
    decide
  · refine called (hopening ▸ ?_)
    obtain ⟨hkind, htext⟩ := isDelimiter_iff.1 hparen
    rw [Token.opening, hkind, htext]
    rfl
  · exact hkind.1 (isOperator_iff.1 h.1).1

theorem factor_steps (hp : p.Complete m) (proper : ctx.Proper) {e : Expr} (h : ReadsTo 13 14 ctx tokens e rest)
    (length : tokens.length ≤ m + 1 + rest.length) :
    ∃ first left, Gives (fraction p ctx) tokens first left ∧
      Steps (factorTurn p ctx) (first, endsLikeNumber first) left
        (e, endsLikeNumber e.lastFactor) rest := by
  -- The product grows to the right, so the induction is on how much of it there is.
  induction hn : tokens.length - rest.length using Nat.strongRecOn generalizing e rest with
  | ind n ih =>
      subst hn
      rcases Nat.lt_or_ge (e.level (followed rest)) 14 with loose | tight
      · obtain tight | ⟨hfollowed, _, _, rfl, hfraction, _⟩ |
            ⟨left, right, rfl, hleft, leftLevel, hright, rightLevel, opens, called⟩ :=
          h.legible.factor_cases h.tight
        · omega
        · rw [Expr.level_binary, if_pos ⟨rfl, hfollowed, hfraction⟩] at loose
          omega
        · obtain ⟨front, rfl, hspelled⟩ := h.operand (by decide)
          obtain ⟨front, back, rfl, hfront, hback⟩ := hspelled.as
          obtain ⟨hne, hline, _, hopening⟩ := hback.head_opening hright (by omega)
          have hhead : (head (back ++ rest)).opening = right.opening := by rwa [head_append hne]
          have hfollowed : followed (back ++ rest) = right.opening.isFactor :=
            followed_append hback hright (by omega)
          have hread : ReadsTo 13 14 ctx (front ++ back ++ rest) left (back ++ rest) :=
            ⟨hfront.upTo (by rw [List.append_assoc]), hfollowed ▸ hleft,
              hfollowed ▸ leftLevel, ends_of_factor hhead (opens.imp_right (·.1)) called,
              h.closed.append _, fun _ => by rwa [head_append hne]⟩
          have hread' : Reads 14 ctx (back ++ rest) right rest :=
            ⟨hback.upTo rfl, hright, rightLevel,
              .of_factor (by decide) h.ends.weaker h.ends.call h.ends.quotient, h.closed, h.fresh⟩
          have hlength := List.length_pos_iff.2 hne
          simp only [List.length_append] at length
          obtain ⟨first, between, hfirst, hsteps⟩ := ih _ (by simp only [List.length_append]; omega)
            hread (by simp only [List.length_append]; omega) rfl
          refine ⟨first, between, hfirst, hsteps.snoc ?_ hread'.length_lt⟩
          rw [Goes, factorTurn, gives_peek_bind, if_pos]
          · have hfactor := (fraction_complete hp proper).gives (by decide) hread' (by simp only [List.length_append]; omega)
            refine gives_bind.2 ⟨right, rest, hfactor, ?_⟩
            rw [hread'.endsLikeNumber, gives_pure]
            exact ⟨rfl, rfl⟩
          · rw [startsFactor_eq, hhead]
            rcases opens with opens | ⟨hnumber, hends⟩
            · rw [opens, Bool.true_or]
            · rw [kind_of_opening (hhead.trans hnumber), hends]
              simp
      · have hread : Reads 14 ctx tokens e rest :=
          ⟨h.spelled, h.legible, tight, h.ends, h.closed, h.fresh⟩
        refine ⟨e, rest, (fraction_complete hp proper).gives (by decide) hread length, ?_⟩
        rw [hread.endsLikeNumber]
        exact .refl _ _

theorem juxtaposition_complete (hp : p.Complete m) (proper : ctx.Proper) : Complete 13 (m + 1) ctx (juxtaposition p ctx) := by
  intro tokens e rest h _ length
  have hread : ReadsTo 13 14 ctx tokens e rest :=
    ⟨h.spelled, h.legible, h.tight, h.ends.mono (by decide), h.closed, h.fresh⟩
  obtain ⟨first, left, hfirst, hsteps⟩ := factor_steps hp proper hread length
  have hstop : Stops (factorTurn p ctx) (e, endsLikeNumber e.lastFactor) rest
      (e, endsLikeNumber e.lastFactor) rest := by
    rw [Stops, factorTurn, gives_peek_bind, if_neg]
    · exact gives_pure.2 ⟨rfl, rfl⟩
    · simp only [Bool.or_eq_true, Bool.and_eq_true, beq_iff_eq, Bool.not_eq_true']
      rintro (hfactor | ⟨hkind, hnumber⟩)
      · have := h.ends.weaker _ (strength?_of_startsFactor hfactor)
        omega
      · rw [h.ends.number (Nat.le_refl _) hkind] at hnumber
        cases hnumber
  exact gives_bind.2 ⟨first, left, hfirst, gives_bind.2
    ⟨(e, _), rest, hsteps.gives hstop h.closed.ne_nil, gives_pure.2 ⟨rfl, rfl⟩⟩⟩

/-! ### Binary operators -/

/-- What is between a product and a range in its level is a binary operation or comparisons. -/
theorem binary_or_comparison {f : Bool} {e : Expr} (legible : Legible f e) (tight : 3 ≤ e.level f)
    (loose : e.level f ≤ 12) :
    (∃ spelling op left right, e = .operation spelling op.name [left, right] false ∧
      Operator.binary? spelling = some op ∧ op.level = e.level f ∧ Legible false left ∧
      (if op.isRelational then 10 else op.level) ≤ left.level false ∧ Legible f right ∧
      op.level < right.level f ∧
      (op = .divide → isNumeral left.lastFactor = true → right.opensProduct f = false)) ∨
    ∃ functions operands last, e = .comparison functions (operands ++ [last]) ∧
      (∀ e ∈ operands, Legible false e) ∧ (∀ e ∈ operands, 10 ≤ e.level false) ∧ Legible f last ∧
      10 ≤ last.level f := by
  cases legible with
  | binary hop weak hleft leftLevel hright rightLevel divides =>
      refine .inl ⟨_, _, _, _, rfl, hop, ?_, hleft, leftLevel, hright, rightLevel, divides⟩
      rw [Expr.level_binary, if_neg (Expr.not_fraction hleft divides)]
  | comparison _ _ _ h levels hlast lastLevel =>
      exact .inr ⟨_, _, _, rfl, h, levels, hlast, lastLevel⟩
  | name _ he =>
      rw [← he, Expr.level_ofName] at loose
      omega
  | power hspelling hop =>
      rw [Expr.level_binary] at loose
      obtain ⟨_, hlevel⟩ | ⟨h, h', _⟩ := Operator.level_of_binary hop
      · split at loose <;> omega
      · exact absurd hspelling (not_or.2 ⟨h, h'⟩)
  | fraction hfraction => simp [Expr.level_binary, hfraction] at loose
  | prefixed hop => simp [Expr.level_prefixed hop] at loose
  | postfixed hop => simp [Expr.level_postfixed hop] at loose
  | juxtaposition => simp [Expr.level_juxtapose] at loose
  | assigned he => simp [Expr.level_assigned he] at tight
  | range | steppedRange | conditional => simp [Expr.level] at tight
  | _ => exact absurd loose (by decide : ¬ 17 ≤ 12)

/-- An operator ends what is in front of it, on tighter levels. -/
theorem ends_of_operator {level : Nat} {left : Expr} {o : Token} {op : Operator}
    (ho : o.kind = .operator) (hop : Operator.binary? o.text = some op) (hlevel : op.level < level)
    (divides : op = .divide → isNumeral left.lastFactor = true → ¬ Divides ctx (o :: rest)) :
    Ends level ctx left (o :: rest) := by
  have hweak : 3 ≤ op.level := by
    obtain ⟨_, hlevel⟩ | ⟨_, _, hlevel, _⟩ := Operator.level_of_binary hop <;> omega
  refine ⟨fun strength hstrength => ?_, fun hparen => ?_, fun _ hkind => ?_, fun _ hnumeral h => ?_,
    fun h => by omega⟩
  · rw [head_cons, strength?_of_binary ho hop] at hstrength
    rwa [← Option.some.inj hstrength]
  · simp [head_cons, Token.isDelimiter, ho] at hparen
  · rw [head_cons, ho] at hkind
    cases hkind
  · have htext := (isOperator_iff.1 h.1).2
    rw [head_cons] at htext
    rw [htext] at hop
    exact divides (Operator.binary?_divide hop) hnumeral h

/-- What one turn of the loop over the operators of a level reads. -/
def operatorTurn (ctx : Context) (operators : List String) (P : Parser Expr) (left : Expr) :
    Parser (ForInStep Expr) := do
  match ← operatorIn operators with
  | some spelling =>
    advanceLine ctx
    return .yield (← binary spelling left (← P))
  | none => return .done left

theorem goes_operator {operators : List String} {P : Parser Expr} {left right : Expr} {o : Token}
    {op : Operator} {lines back : List Token} (ho : o.kind = .operator)
    (hmem : operators.contains o.text = true) (hop : Operator.binary? o.text = some op)
    (gap : Lines lines) (hline : (head back).kind ≠ .newline) (hright : Gives P back right rest) :
    Goes (operatorTurn ctx operators P) left (o :: lines ++ back)
      (.operation o.text op.name [left, right] false) rest := by
  have hnext : nextLine ctx (o :: lines ++ back) = back := nextLine_cons (by simp [ho]) gap hline
  have hspelling : spellingIn? operators o = some o.text := by
    rw [spellingIn?, if_pos ⟨ho, hmem⟩]
  rw [Goes, operatorTurn, gives_operatorIn_bind, List.cons_append, head_cons, hspelling]
  dsimp only
  rw [gives_advanceLine_bind, ← List.cons_append, hnext]
  exact gives_bind.2 ⟨right, rest, hright, gives_bind.2 ⟨_, _, gives_binary.2 ⟨op, hop, rfl, rfl⟩,
    gives_pure.2 ⟨rfl, rfl⟩⟩⟩

theorem operator_steps {n level : Nat} {operators : List String} {P : Parser Expr}
    (hoperators : IsLevel level operators) (loose : 3 ≤ level) (weak : level ≤ 12) (other : level ≠ 9)
    (hP : Complete (level + 1) n ctx P) {e : Expr} (h : ReadsTo level (level + 1) ctx tokens e rest)
    (length : tokens.length ≤ n + rest.length) :
    ∃ first left, Gives P tokens first left ∧
      Steps (operatorTurn ctx operators P) first left e rest := by
  -- Operations group to the left, so the induction is on how much of the last one there is.
  induction hn : tokens.length - rest.length using Nat.strongRecOn generalizing e rest with
  | ind k ih =>
      subst hn
      rcases Nat.lt_or_ge level (e.level (followed rest)) with tight | hle
      · exact ⟨e, rest, hP.gives (by omega) ⟨h.spelled, h.legible, tight, h.ends, h.closed, h.fresh⟩ length,
          .refl _ _⟩
      · have hlevel : e.level (followed rest) = level := Nat.le_antisymm hle h.tight
        obtain ⟨spelling, op, left, right, rfl, hop, hop', hleft, leftLevel, hright, rightLevel,
          divides⟩ | ⟨_, _, _, rfl, _⟩ := binary_or_comparison h.legible (by omega) (by omega)
        · obtain ⟨front, rfl, hspelled⟩ := h.operand loose
          obtain ⟨front, o, lines, back, op', rfl, ho, rfl, hop'', _, gap, hfront, hback⟩ := hspelled.as
          obtain rfl := Option.some.inj (hop.symm.trans hop'')
          rw [if_neg (by omega)] at hback
          have begins := hback.begins rfl rest
          have hnext : nextLine ctx (o :: lines ++ (back ++ rest)) = back ++ rest :=
            nextLine_cons (by simp [ho]) gap begins.line
          have hfollowed : followed (o :: lines ++ (back ++ rest)) = false := followed_of_operator ho
          have hrelational : ¬ op.isRelational = true :=
            fun h => other (by rw [← hlevel, ← hop', (Operator.isRelational_iff op).1 h])
          rw [if_neg hrelational] at leftLevel
          have hread : ReadsTo level (level + 1) ctx (front ++ o :: lines ++ back ++ rest) left
              (o :: lines ++ (back ++ rest)) := by
            refine ⟨hfront.upTo (by simp only [List.append_assoc]), hfollowed ▸ hleft,
              hfollowed ▸ by omega, ends_of_operator ho hop (by omega) ?_,
              (h.closed.append _).append _, fun _ => by simp [head_cons, ho]⟩
            rintro rfl hnumeral (hdivides : Divides ctx (o :: lines ++ (back ++ rest)))
            obtain ⟨_, hnumber, hfactor⟩ := hdivides
            rw [hnext] at hnumber hfactor
            have := divides rfl hnumeral
            rw [hback.opensProduct hright rightLevel h.fresh rfl hnumber hfactor] at this
            cases this
          have hlast : (Expr.operation o.text op.name [left, right] false).lastFactor
              = right.lastFactor := Expr.lastFactor_binary (by omega)
          have hread' : Reads (level + 1) ctx (back ++ rest) right rest := by
            refine ⟨hback.upTo rfl, hright, by omega,
              ⟨h.ends.weaker, h.ends.call, ?_, ?_, fun h => by omega⟩, h.closed, h.fresh⟩
            · rw [← hlast]
              exact h.ends.number
            · rw [← hlast]
              exact h.ends.quotient
          simp only [List.length_append, List.length_cons] at length
          obtain ⟨first, between, hfirst, hsteps⟩ := ih _
            (by simp only [List.length_append, List.length_cons]; omega) hread
            (by simp only [List.length_append, List.length_cons]; omega) rfl
          have hgives : Gives P (back ++ rest) right rest :=
            hP.gives (by omega) hread' (by simp only [List.length_append]; omega)
          have hmem := hoperators.spelled _ _ hop (by omega)
          refine ⟨first, between, hfirst, hsteps.snoc (goes_operator ho hmem hop gap begins.line hgives) ?_⟩
          simp only [List.length_append, List.length_cons]
          omega
        · exact absurd hlevel (fun h => other h.symm)

theorem leftGrouped_complete {n level : Nat} {operators : List String} {P : Parser Expr}
    (hoperators : IsLevel level operators) (loose : 3 ≤ level) (weak : level ≤ 12) (other : level ≠ 9)
    (hP : Complete (level + 1) n ctx P) : Complete level n ctx (leftGrouped ctx operators P) := by
  intro tokens e rest h _ length
  have hread : ReadsTo level (level + 1) ctx tokens e rest :=
    ⟨h.spelled, h.legible, h.tight, h.ends.mono (Nat.le_succ _), h.closed, h.fresh⟩
  obtain ⟨first, left, hfirst, hsteps⟩ := operator_steps hoperators loose weak other hP hread length
  have hspelling : spellingIn? operators (head rest) = none := by
    refine spellingIn?_eq_none.2 fun hkind => ?_
    rw [Bool.eq_false_iff]
    intro hmem
    obtain ⟨op, hop, hlevel⟩ := hoperators.level _ hmem
    have := h.ends.weaker _ (strength?_of_binary hkind hop)
    omega
  have hstop : Stops (operatorTurn ctx operators P) e rest e rest := by
    rw [Stops, operatorTurn, gives_operatorIn_bind, hspelling]
    exact gives_pure.2 ⟨rfl, rfl⟩
  exact gives_bind.2 ⟨first, left, hfirst, hsteps.gives hstop h.closed.ne_nil⟩

/-- What one turn of the loop over comparisons reads. -/
def comparisonTurn (ctx : Context) (P : Parser Expr) :
    List Expr × List String → Parser (ForInStep (List Expr × List String)) :=
  fun (operands, spellings) => do
    match ← operatorIn comparisons with
    | some spelling =>
      advanceLine ctx
      return .yield ((← P) :: operands, spelling :: spellings)
    | none => return .done (operands, spellings)

theorem comparison_steps {n : Nat} {P : Parser Expr} (hP : Complete 10 n ctx P) {front : List Token}
    {spellings : List String} {operands : List Expr} {last : Expr}
    (h : Spells ctx.nesting ctx.depth front (.chain spellings (operands ++ [last])))
    (legible : ∀ e ∈ operands, Legible false e) (tight : ∀ e ∈ operands, 10 ≤ e.level false)
    (hlast : Legible (followed rest) last) (lastLevel : 10 ≤ last.level (followed rest))
    (ends : Ends 10 ctx last rest) (closed : Closed rest) (fresh : Fresh ctx.nesting rest)
    (length : front.length ≤ n) :
    ∃ first left, Gives P (front ++ rest) first left ∧ left.length ≤ (front ++ rest).length ∧
      ∀ seen seen', Steps (comparisonTurn ctx P) (first :: seen, seen') left
        ((operands ++ [last]).reverse ++ seen, spellings.reverse ++ seen') rest := by
  induction operands generalizing front spellings with
  | nil =>
      cases h with
      | operand h =>
          refine ⟨last, rest, hP.gives (by decide) ⟨h.upTo rfl, hlast, lastLevel, ends, closed,
            fresh⟩ (by simp only [List.length_append]; omega), by simp, fun _ _ => .refl _ _⟩
      | comparing _ _ _ _ h => cases h
  | cons e operands ih =>
      obtain ⟨he, hes⟩ := List.forall_mem_cons.1 legible
      obtain ⟨hlevel, hlevels⟩ := List.forall_mem_cons.1 tight
      obtain ⟨more, hmore⟩ : ∃ more, operands ++ [last] = more := ⟨_, rfl⟩
      rw [List.cons_append, hmore] at h
      cases h with
      | operand => simp at hmore
      | @comparing _ _ front back lines o spellings _ _ hfront ho hspelling gap hback =>
          subst hmore
          obtain ⟨op, hop, hoperator⟩ := isLevel_tightLevels.2.2.2.level _ hspelling
          obtain ⟨e', he'⟩ : ∃ e, (Phrase.chain spellings (operands ++ [last])).first? = some e := by
            cases operands <;> exact ⟨_, rfl⟩
          have begins := hback.begins he' rest
          have hnext : nextLine ctx (o :: lines ++ (back ++ rest)) = back ++ rest :=
            nextLine_cons (by simp [ho]) gap begins.line
          have hfollowed : followed (o :: lines ++ (back ++ rest)) = false := followed_of_operator ho
          simp only [List.length_append, List.length_cons] at length
          obtain ⟨first, left, hfirst, hle, hsteps⟩ := ih hback hes hlevels (by omega)
          have hread : Reads 10 ctx (front ++ (o :: lines ++ (back ++ rest))) e
              (o :: lines ++ (back ++ rest)) := by
            refine ⟨hfront.upTo rfl, hfollowed ▸ he, hfollowed ▸ hlevel,
              ends_of_operator ho hop (by omega) ?_, (closed.append _).append _,
              fun _ => by simp [head_cons, ho]⟩
            rintro rfl
            cases hoperator
          simp only [List.append_assoc]
          refine ⟨e, o :: lines ++ (back ++ rest), hP.gives (by decide) hread ?_, by simp, fun seen seen' => ?_⟩
          · simp only [List.length_append, List.length_cons]
            omega
          · have hstate : ((e :: operands ++ [last]).reverse ++ seen, (o.text :: spellings).reverse ++ seen')
                = ((operands ++ [last]).reverse ++ e :: seen, spellings.reverse ++ o.text :: seen') := by
              simp
            rw [hstate]
            refine .head (b := (first :: e :: seen, o.text :: seen')) (?_ : Goes _ _ _ _ left) ?_
              (hsteps (e :: seen) (o.text :: seen'))
            · have hmem : spellingIn? comparisons o = some o.text := by
                rw [spellingIn?, if_pos ⟨ho, hspelling⟩]
              rw [Goes, comparisonTurn, gives_operatorIn_bind, List.cons_append, head_cons, hmem]
              dsimp only
              rw [gives_advanceLine_bind, ← List.cons_append, hnext]
              exact gives_bind.2 ⟨first, left, hfirst, gives_pure.2 ⟨rfl, rfl⟩⟩
            · simp only [List.length_append, List.length_cons] at hle ⊢
              omega

theorem chain_complete (hp : p.Complete m) (proper : ctx.Proper) : Complete 9 (m + 1) ctx (chain p ctx) := by
  intro tokens e rest h _ length
  obtain ⟨front, rfl, hspelled⟩ := h.operand (by decide)
  have tight : Complete 10 (m + 1) ctx (levels ctx tightLevels (juxtaposition p ctx)) := by
    obtain ⟨h12, h11, h10, _⟩ := isLevel_tightLevels
    refine leftGrouped_complete h10 (by decide) (by decide) (by decide) ?_
    refine leftGrouped_complete h11 (by decide) (by decide) (by decide) ?_
    refine leftGrouped_complete h12 (by decide) (by decide) (by decide) ?_
    exact juxtaposition_complete hp proper
  have ends : ∀ last : Expr, e.lastFactor = last.lastFactor → Ends 10 ctx last rest := by
    intro last hlast
    refine ⟨fun strength hstrength => Nat.lt_succ_of_lt (h.ends.weaker strength hstrength),
      fun hparen => absurd hparen (h.ends.not_parenthesis (by decide)), fun _ => ?_, fun _ => ?_,
      fun h => absurd h (by decide)⟩
    · rw [← hlast]
      exact h.ends.number (by decide)
    · rw [← hlast]
      exact h.ends.quotient (by decide)
  have compared : ∃ spellings operands last,
      Spells ctx.nesting ctx.depth front (.chain spellings (operands ++ [last])) ∧
      (∀ e ∈ operands, Legible false e) ∧ (∀ e ∈ operands, 10 ≤ e.level false) ∧
      Legible (followed rest) last ∧ 10 ≤ last.level (followed rest) ∧ Ends 10 ctx last rest ∧
      Gives (ofComparisons (operands ++ [last]) spellings) rest e rest := by
    rcases Nat.lt_or_ge (e.level (followed rest)) 10 with loose | tighter
    · obtain ⟨spelling, op, left, right, rfl, hop, hop', hleft, leftLevel, hright, rightLevel, _⟩ |
          ⟨functions, operands, last, rfl, legible, hlevels, hlast, lastLevel⟩ :=
        binary_or_comparison h.legible (Nat.le_trans (by decide) h.tight) (by omega)
      · have hlevel : op.level = 9 := by
          have := h.tight
          omega
        obtain ⟨front, o, lines, back, op', rfl, ho, rfl, hop'', _, gap, hfront, hback⟩ := hspelled.as
        obtain rfl := Option.some.inj (hop.symm.trans hop'')
        rw [if_neg (by omega)] at hback
        rw [if_pos ((Operator.isRelational_iff op).2 hlevel)] at leftLevel
        have hmem := isLevel_tightLevels.2.2.2.spelled _ _ hop hlevel
        refine ⟨[o.text], [left], right, .comparing hfront ho hmem gap (.operand hback), ?_, ?_, hright,
          by omega, ends right (Expr.lastFactor_binary (by omega)), gives_binary.2 ⟨op, hop, rfl, rfl⟩⟩
        · simpa using hleft
        · simpa using leftLevel
      · obtain ⟨spellings, hchain, many, rfl⟩ := hspelled.as
        refine ⟨spellings, operands, last, hchain, legible, hlevels, hlast, lastLevel,
          ends last Expr.lastFactor_comparison, ?_⟩
        match spellings, many with
        | _ :: _ :: _, _ => exact gives_pure.2 ⟨rfl, rfl⟩
    · exact ⟨[], [], e, .operand hspelled, by simp, by simp, h.legible, tighter, h.ends.mono (by decide),
        gives_pure.2 ⟨rfl, rfl⟩⟩
  obtain ⟨spellings, operands, last, hchain, legible, hlevels, hlast, lastLevel, ends, he⟩ := compared
  rw [List.length_append] at length
  obtain ⟨first, left, hfirst, _, hsteps⟩ := comparison_steps tight hchain legible hlevels hlast
    lastLevel ends h.closed h.fresh (by omega)
  have hspelling : spellingIn? comparisons (head rest) = none := by
    refine spellingIn?_eq_none.2 fun hkind => ?_
    rw [Bool.eq_false_iff]
    intro hmem
    obtain ⟨op, hop, hlevel⟩ := isLevel_tightLevels.2.2.2.level _ hmem
    have := h.ends.weaker _ (strength?_of_binary hkind hop)
    omega
  have hstop : ∀ state, Stops (comparisonTurn ctx (levels ctx tightLevels (juxtaposition p ctx))) state rest
      state rest := by
    intro state
    rw [Stops, comparisonTurn, gives_operatorIn_bind, hspelling]
    exact gives_pure.2 ⟨rfl, rfl⟩
  refine gives_bind.2 ⟨first, left, hfirst, gives_bind.2
    ⟨(_, _), rest, (hsteps [] []).gives (hstop _) h.closed.ne_nil, ?_⟩⟩
  dsimp only
  rw [List.append_nil, List.append_nil, List.reverse_reverse, List.reverse_reverse]
  exact he

theorem disjunction_complete (hp : p.Complete m) (proper : ctx.Proper) :
    Complete 3 (m + 1) ctx (disjunction p ctx) := by
  obtain ⟨h8, h7, h6, h5, h4, h3⟩ := isLevel_looseLevels
  refine leftGrouped_complete h3 (by decide) (by decide) (by decide) ?_
  refine leftGrouped_complete h4 (by decide) (by decide) (by decide) ?_
  refine leftGrouped_complete h5 (by decide) (by decide) (by decide) ?_
  refine leftGrouped_complete h6 (by decide) (by decide) (by decide) ?_
  refine leftGrouped_complete h7 (by decide) (by decide) (by decide) ?_
  refine leftGrouped_complete h8 (by decide) (by decide) (by decide) ?_
  exact chain_complete hp proper

/-! ### Ranges, conditionals and assignments -/

/-- An operator that is not of a level goes on with no expression of it. -/
theorem ends_of_isOperator {level : Nat} {e : Expr} {o : Token} {text : String}
    (ho : o.isOperator text = true)
    (htext : text = "?" ∧ 1 < level ∨ text = "=" ∧ 0 < level ∨
      text = ":" ∧ (level ≤ 2 → ctx.awaits = true ∧ e.exposesColon = false)) :
    Ends level ctx e (o :: rest) := by
  obtain ⟨hkind, rfl⟩ := isOperator_iff.1 ho
  have hslash : o.text ≠ "/" := by
    rcases htext with ⟨h, _⟩ | ⟨h, _⟩ | ⟨h, _⟩ <;> rw [h] <;> decide
  refine ⟨fun strength hstrength => ?_, fun hparen => ?_, fun _ hnumber => ?_, fun _ _ hdivides => ?_,
    fun hlevel hcolon => ?_⟩
  · rw [head_cons, strength?, hkind] at hstrength
    rcases htext with ⟨h, hlevel⟩ | ⟨h, hlevel⟩ | ⟨h, hlevel⟩ <;> rw [h] at hstrength <;>
      cases hstrength <;> exact hlevel
  · simp [head_cons, Token.isDelimiter, hkind] at hparen
  · rw [head_cons, hkind] at hnumber
    cases hnumber
  · exact absurd (isOperator_iff.1 hdivides.1).2 hslash
  · have hcolon := (isOperator_iff.1 hcolon).2
    rw [head_cons] at hcolon
    rcases htext with ⟨h, _⟩ | ⟨h, _⟩ | ⟨_, h⟩
    · rw [h] at hcolon
      exact absurd hcolon (by decide)
    · rw [h] at hcolon
      exact absurd hcolon (by decide)
    · exact h hlevel

/-- A `:` ends what is tighter than a range. -/
theorem ends_of_colon {e : Expr} {colon : Token} (hcolon : colon.isOperator ":" = true) :
    Ends 3 ctx e (colon :: rest) :=
  ends_of_isOperator hcolon (.inr (.inr ⟨rfl, fun h => absurd h (by decide)⟩))

/-- What is as loose as a range is one. -/
theorem range_of_level {f : Bool} {e : Expr} (legible : Legible f e) (h : e.level f = 2) :
    ∃ start stop step, e = .range start stop step ∧ Legible false start ∧ 3 ≤ start.level false ∧
      Legible f stop ∧ 3 ≤ stop.level f ∧
      ∀ e, step = some e → Legible false e ∧ 3 ≤ e.level false := by
  cases legible with
  | range hstart startLevel hstop stopLevel =>
      exact ⟨_, _, none, rfl, hstart, startLevel, hstop, stopLevel, nofun⟩
  | steppedRange hstart startLevel hstep stepLevel hstop stopLevel =>
      refine ⟨_, _, some _, rfl, hstart, startLevel, hstop, stopLevel, ?_⟩
      rintro _ ⟨⟩
      exact ⟨hstep, stepLevel⟩
  | name _ he => simp [← he, Expr.level_ofName] at h
  | prefixed hop => simp [Expr.level_prefixed hop] at h
  | postfixed hop => simp [Expr.level_postfixed hop] at h
  | juxtaposition => simp [Expr.level_juxtapose] at h
  | fraction hfraction => simp [Expr.level_binary, hfraction] at h
  | power _ hop | binary hop =>
      rw [Expr.level_binary] at h
      obtain ⟨_, hlevel⟩ | ⟨_, _, hlevel, _⟩ := Operator.level_of_binary hop <;>
        split at h <;> omega
  | assigned he => simp [Expr.level_assigned he] at h
  | _ => cases h

theorem start_complete (hp : p.Complete m) (proper : ctx.Proper) {front : List Token} {start : Expr}
    {colon : Token} (h : Spells ctx.nesting ctx.depth front (.start start))
    (legible : Legible false start) (tight : 3 ≤ start.level false)
    (hcolon : colon.isOperator ":" = true) (awaits : ctx.awaits = false)
    (closed : Closed (colon :: rest)) (length : front.length ≤ m + 1) :
    if ((head (front ++ colon :: rest)).isOperator ":" && !ctx.awaits) = true then
      start = .number "1" ∧ front ++ colon :: rest = colon :: rest
    else Gives (disjunction p ctx) (front ++ colon :: rest) start (colon :: rest) := by
  cases h with
  | noStart =>
      rw [List.nil_append, head_cons, hcolon, awaits, if_pos (by decide)]
      exact ⟨rfl, rfl⟩
  | start h =>
      rw [h.head_ne_colon (legible.opensRange_eq_false tight), if_neg (by simp)]
      have hfollowed : followed (colon :: rest) = false := followed_of_operator (isOperator_iff.1 hcolon).1
      refine (disjunction_complete hp proper).gives (by decide) ⟨h.upTo rfl,
        hfollowed ▸ legible, hfollowed ▸ tight, ends_of_colon hcolon, closed,
        fun _ => kind_ne_of_isOperator hcolon (by decide)⟩ ?_
      rw [List.length_append]
      omega

theorem stop_complete (hp : p.Complete m) (proper : ctx.Proper) {front : List Token} {stop : Expr}
    {g : Bool} (h : Spells ctx.nesting ctx.depth front (.stop stop g))
    (legible : Legible (followed rest) stop) (tight : 3 ≤ stop.level (followed rest))
    (ends : Ends 3 ctx stop rest) (hg : g = true → closesRange (head rest) = true)
    (closed : Closed rest) (fresh : Fresh ctx.nesting rest) (length : front.length ≤ m + 1) :
    if closesRange (head (front ++ rest)) = true then
      stop = .symbol Expr.endName ∧ front ++ rest = rest
    else Gives (disjunction p ctx) (front ++ rest) stop rest := by
  cases h with
  | noStop =>
      rw [List.nil_append, if_pos (hg rfl)]
      exact ⟨rfl, rfl⟩
  | stop h =>
      have begins := h.begins rfl rest
      rw [if_neg]
      · refine (disjunction_complete hp proper).gives (by decide) ⟨h.upTo rfl, legible,
          tight, ends, closed, fresh⟩ ?_
        rw [List.length_append]
        omega
      · have hstop := begins.stop
        simp [closesRange, begins.isDelimiter, hstop]

theorem goes_range {parts : List Expr} {colon : Token} {lines more : List Token} {stop : Expr}
    (hlength : parts.length ≠ 3) (hcolon : colon.isOperator ":" = true) (awaits : ctx.awaits = false)
    (gap : Gap ctx.nesting lines) (fresh : Fresh ctx.nesting more)
    (hstop : if closesRange (head more) = true then
        stop = .symbol Expr.endName ∧ more = rest else Gives (disjunction p ctx) more stop rest) :
    Goes (rangeTurn p ctx) parts (colon :: lines ++ more) (stop :: parts) rest := by
  have hnext : next ctx (colon :: lines ++ more) = more :=
    next_cons (kind_ne_of_isOperator hcolon (by decide)) gap fresh
  rw [Goes, gives_rangeTurn, hnext, List.cons_append, head_cons, hcolon, awaits, if_pos (by decide)]
  exact ⟨hlength, stop, rfl, hstop⟩

theorem stops_range {parts : List Expr}
    (h : (head rest).isOperator ":" = true → ctx.awaits = true) :
    Stops (rangeTurn p ctx) parts rest parts rest := by
  rw [Stops, gives_rangeTurn, if_neg]
  · exact ⟨rfl, rfl⟩
  · rw [Bool.and_eq_true, Bool.not_eq_true']
    rintro ⟨hcolon, hawaits⟩
    rw [h hcolon] at hawaits
    cases hawaits

theorem fresh_stop {n d : Nat} {front : List Token} {stop : Expr} {g : Bool}
    (h : Spells n d front (.stop stop g)) (fresh : Fresh n rest) : Fresh n (front ++ rest) := by
  cases h with
  | noStop => exact fresh
  | stop h => exact fun _ => (h.begins rfl rest).line

theorem range_complete (hp : p.Complete m) (proper : ctx.Proper) :
    Complete 2 (m + 1) ctx (range p ctx) := by
  intro tokens e rest h hawaits length
  have hstop : (head rest).isOperator ":" = true → ctx.awaits = true :=
    fun hcolon => (h.ends.colon (by decide) hcolon).1
  rcases Nat.lt_or_ge (e.level (followed rest)) 3 with loose | tight
  · obtain ⟨start, stop, step, rfl, hstart, startLevel, hstopped, stopLevel, hstep⟩ :=
      range_of_level h.legible (Nat.le_antisymm (Nat.le_of_lt_succ loose) h.tight)
    have awaits : ctx.awaits = false := by
      rw [Bool.eq_false_iff]
      exact fun h => Bool.noConfusion (hawaits h)
    have ends : Ends 3 ctx stop rest :=
      ⟨fun strength hstrength => Nat.lt_succ_of_lt (h.ends.weaker strength hstrength),
        fun hparen => absurd hparen (h.ends.not_parenthesis (by decide)),
        fun _ => h.ends.number (by decide), fun _ => h.ends.quotient (by decide),
        fun h => absurd h (by decide)⟩
    obtain ⟨front, endless, rfl, hspelled, hendless⟩ := h.spelled
    cases step with
    | none =>
        obtain ⟨front, colon, lines, back, rfl, hcolon, gap, hfront, hback⟩ := hspelled.as
        simp only [List.length_append, List.length_cons] at length
        have closed := h.closed.append back
        have first := start_complete hp proper hfront hstart startLevel hcolon awaits
          (closed.append (colon :: lines)) (by omega)
        have last := stop_complete hp proper hback hstopped stopLevel ends hendless h.closed h.fresh
          (by omega)
        have hgoes : Goes (rangeTurn p ctx) [start] (colon :: lines ++ (back ++ rest)) [stop, start] rest :=
          goes_range (by simp) hcolon awaits gap (fresh_stop hback h.fresh) last
        simp only [List.append_assoc] at first ⊢
        refine gives_range.2 ⟨start, _, [stop, start], rest, first, ?_, gives_pure.2 ⟨rfl, rfl⟩⟩
        exact (Steps.head hgoes (by simp; omega) (.refl _ _)).gives (stops_range hstop) h.closed.ne_nil
    | some step =>
        obtain ⟨front, colon, lines, between, colon', lines', back, rfl, hcolon, gap, hcolon', gap',
          hfront, hbetween, hback⟩ := hspelled.as
        obtain ⟨hstep, stepLevel⟩ := hstep step rfl
        simp only [List.length_append, List.length_cons] at length
        have closed : Closed (colon' :: (lines' ++ (back ++ rest))) :=
          (h.closed.append back).append (colon' :: lines')
        have closed' : Closed (colon :: (lines ++ (between ++ colon' :: (lines' ++ (back ++ rest))))) :=
          (closed.append between).append (colon :: lines)
        have first := start_complete hp proper hfront hstart startLevel hcolon awaits closed' (by omega)
        have second : if closesRange (head (between ++ colon' :: (lines' ++ (back ++ rest)))) = true then
            step = .symbol Expr.endName ∧ between ++ colon' :: (lines' ++ (back ++ rest))
              = colon' :: (lines' ++ (back ++ rest))
            else Gives (disjunction p ctx) (between ++ colon' :: (lines' ++ (back ++ rest))) step
              (colon' :: (lines' ++ (back ++ rest))) := by
          have hfollowed : followed (colon' :: (lines' ++ (back ++ rest))) = false :=
            followed_of_operator (isOperator_iff.1 hcolon').1
          exact stop_complete hp proper (.stop hbetween) (hfollowed ▸ hstep) (hfollowed ▸ stepLevel)
            (ends_of_colon hcolon') nofun closed
            (fun _ => kind_ne_of_isOperator hcolon' (by decide)) (by omega)
        have last := stop_complete hp proper hback hstopped stopLevel ends hendless h.closed h.fresh
          (by omega)
        have hgoes : Goes (rangeTurn p ctx) [start]
            (colon :: lines ++ (between ++ colon' :: (lines' ++ (back ++ rest)))) [step, start]
            (colon' :: (lines' ++ (back ++ rest))) :=
          goes_range (by simp) hcolon awaits gap (fun _ => (hbetween.begins rfl _).line) second
        have hgoes' : Goes (rangeTurn p ctx) [step, start] (colon' :: lines' ++ (back ++ rest))
            [stop, step, start] rest :=
          goes_range (by simp) hcolon' awaits gap' (fresh_stop hback h.fresh) last
        simp only [List.append_assoc, List.cons_append] at first hgoes hgoes' ⊢
        refine gives_range.2 ⟨start, _, [stop, step, start], rest, first, ?_, gives_pure.2 ⟨rfl, rfl⟩⟩
        refine Steps.gives ?_ (stops_range hstop) h.closed.ne_nil
        exact .head hgoes (by simp; omega) (.head hgoes' (by simp; omega) (.refl _ _))
  · have hread : Reads 3 ctx tokens e rest :=
      ⟨h.spelled, h.legible, tight, h.ends.mono (by decide), h.closed, h.fresh⟩
    obtain ⟨front, rfl, hspelled⟩ := hread.operand (by decide)
    refine gives_range.2 ⟨e, rest, [e], rest, ?_, ?_, gives_pure.2 ⟨rfl, rfl⟩⟩
    · rw [hspelled.head_ne_colon (h.legible.opensRange_eq_false tight), if_neg (by simp)]
      exact (disjunction_complete hp proper).gives (by decide) hread length
    · exact (Steps.refl _ _).gives (stops_range hstop) h.closed.ne_nil

/-- What is as loose as a conditional is one. -/
theorem conditional_of_level {f : Bool} {e : Expr} (legible : Legible f e) (h : e.level f = 1) :
    ∃ condition yes no, e = .conditional condition yes no ∧ Legible false condition ∧
      2 ≤ condition.level false ∧ Legible false yes ∧ yes.exposesColon = false ∧ Legible f no := by
  cases legible with
  | conditional hcondition conditionLevel hyes closed hno =>
      exact ⟨_, _, _, rfl, hcondition, conditionLevel, hyes, closed, hno⟩
  | name _ he => simp [← he, Expr.level_ofName] at h
  | prefixed hop => simp [Expr.level_prefixed hop] at h
  | postfixed hop => simp [Expr.level_postfixed hop] at h
  | juxtaposition => simp [Expr.level_juxtapose] at h
  | fraction hfraction => simp [Expr.level_binary, hfraction] at h
  | power _ hop | binary hop =>
      rw [Expr.level_binary] at h
      obtain ⟨_, hlevel⟩ | ⟨_, _, hlevel, _⟩ := Operator.level_of_binary hop <;>
        split at h <;> omega
  | assigned he => simp [Expr.level_assigned he] at h
  | _ => cases h

/-- What one turn of the loop over conditions reads. -/
def conditionTurn (p : Productions) (ctx : Context) (condition : Expr) : Parser (ForInStep Expr) := do
  if (← peek).isOperator "?" then
    advanceLine ctx
    let yes ← p.expression ctx.awaiting
    unless (← peek).isOperator ":" do
      fail .falsePartExpected
    advanceLine ctx
    let no ← p.expression ctx.answered
    return .yield (.conditional condition yes no)
  else
    return .done condition

theorem stops_condition {e : Expr} (h : (head rest).isOperator "?" = false) :
    Stops (conditionTurn p ctx) e rest e rest := by
  rw [Stops, conditionTurn, gives_peek_bind, h, if_neg (by decide)]
  exact gives_pure.2 ⟨rfl, rfl⟩

theorem not_question_of_ends {e : Expr} {level : Nat} (h : Ends level ctx e rest) (hlevel : level ≤ 1) :
    (head rest).isOperator "?" = false := by
  rw [Bool.eq_false_iff]
  intro hmark
  obtain ⟨hkind, htext⟩ := isOperator_iff.1 hmark
  have := h.weaker 1 (by rw [strength?, hkind, htext]; rfl)
  omega

/-- Conditionals are read unless a `=` follows them. -/
theorem conditional_complete (hp : p.Complete m) (proper : ctx.Proper) {e : Expr}
    (h : Reads 1 ctx tokens e rest) (hends : e.level (followed rest) < 2 → Ends 0 ctx e rest)
    (hawaits : ctx.awaits = true → e.exposesColon = false) (length : tokens.length ≤ m + 1 + rest.length) :
    Gives (conditional p ctx) tokens e rest := by
  have hstop : Stops (conditionTurn p ctx) e rest e rest :=
    stops_condition (not_question_of_ends h.ends (Nat.le_refl _))
  rcases Nat.lt_or_ge (e.level (followed rest)) 2 with loose | tight
  · have hends := hends loose
    obtain ⟨condition, yes, no, rfl, hcondition, conditionLevel, hyes, hclosed, hno⟩ :=
      conditional_of_level h.legible (Nat.le_antisymm (Nat.le_of_lt_succ loose) h.tight)
    have awaits : ctx.awaits = false := by
      rw [Bool.eq_false_iff]
      exact fun h => Bool.noConfusion (hawaits h)
    obtain ⟨front, endless, rfl, hspelled, hendless⟩ := h.spelled
    obtain ⟨front, mark, lines, between, colon, lines', back, rfl, hmark, gap, hcolon, gap', hfront,
      hbetween, hback⟩ := hspelled.as
    have begins := hbetween.begins rfl (colon :: lines' ++ (back ++ rest))
    have begins' := hback.begins rfl rest
    have hnext : nextLine ctx (mark :: lines ++ (between ++ (colon :: lines' ++ (back ++ rest))))
        = between ++ (colon :: lines' ++ (back ++ rest)) :=
      nextLine_cons (kind_ne_of_isOperator hmark (by decide)) gap begins.line
    have hnext' : nextLine ctx (colon :: lines' ++ (back ++ rest)) = back ++ rest :=
      nextLine_cons (kind_ne_of_isOperator hcolon (by decide)) gap' begins'.line
    have closed : Closed (colon :: lines' ++ (back ++ rest)) := (h.closed.append back).append _
    simp only [List.length_append, List.length_cons] at length
    have hmarked : followed (mark :: lines ++ (between ++ (colon :: lines' ++ (back ++ rest)))) = false :=
      followed_of_operator (isOperator_iff.1 hmark).1
    have hcoloned : followed (colon :: lines' ++ (back ++ rest)) = false :=
      followed_of_operator (isOperator_iff.1 hcolon).1
    have first : Gives (range p ctx) (front ++ (mark :: lines ++ (between ++ (colon :: lines'
        ++ (back ++ rest))))) condition (mark :: lines ++ (between ++ (colon :: lines' ++ (back ++ rest)))) := by
      refine range_complete hp proper _ _ _ ⟨hfront.upTo rfl, hmarked ▸ hcondition,
        hmarked ▸ conditionLevel, ends_of_isOperator hmark (.inl ⟨rfl, by decide⟩), (closed.append _).append _,
        fun _ => kind_ne_of_isOperator hmark (by decide)⟩ (fun h => ?_) ?_
      · rw [awaits] at h
        cases h
      · simp only [List.length_append, List.length_cons]
        omega
    have second : Gives (p.expression ctx.awaiting) (between ++ (colon :: lines' ++ (back ++ rest))) yes
        (colon :: lines' ++ (back ++ rest)) := by
      have hawaiting : ctx.awaiting.awaits = true := beq_self_eq_true _
      refine hp.expression ctx.awaiting ?_ _ _ _ ⟨hbetween.upTo rfl, hcoloned ▸ hyes,
        Nat.zero_le _, ends_of_isOperator hcolon (.inr (.inr ⟨rfl, fun _ => ⟨hawaiting, hclosed⟩⟩)), closed,
        fun _ => kind_ne_of_isOperator hcolon (by decide)⟩ (fun _ => hclosed) ?_
      · rintro _ ⟨⟩
        exact Nat.le_refl _
      · simp only [List.length_append, List.length_cons]
        omega
    have third : Gives (p.expression ctx.answered) (back ++ rest) no rest := by
      have hanswered : ctx.answered.awaits = false := rfl
      refine hp.expression ctx.answered nofun _ _ _ ⟨⟨back, endless, rfl, hback, hendless⟩, hno,
        Nat.zero_le _, ⟨hends.weaker, fun hparen => absurd hparen (hends.not_parenthesis (by decide)),
          hends.number, hends.quotient, fun hlevel hcolon => ?_⟩, h.closed, h.fresh⟩ nofun ?_
      · exact absurd (hends.colon hlevel hcolon).2 (by simp [Expr.exposesColon])
      · simp only [List.length_append]
        omega
    have hgoes : Goes (conditionTurn p ctx) condition (mark :: lines ++ (between ++ (colon :: lines'
        ++ (back ++ rest)))) (.conditional condition yes no) rest := by
      have hhead : head (mark :: lines ++ (between ++ (colon :: lines' ++ (back ++ rest)))) = mark := rfl
      have hhead' : head (colon :: lines' ++ (back ++ rest)) = colon := rfl
      rw [Goes, conditionTurn, gives_peek_bind, hhead, if_pos hmark, gives_advanceLine_bind, hnext]
      refine gives_bind.2 ⟨yes, _, second, ?_⟩
      rw [gives_peek_bind, hhead', if_pos hcolon, gives_advanceLine_bind, hnext']
      exact gives_bind.2 ⟨no, rest, third, gives_pure.2 ⟨rfl, rfl⟩⟩
    simp only [List.append_assoc] at first ⊢
    refine gives_bind.2 ⟨condition, _, first, ?_⟩
    exact (Steps.head hgoes (by simp; omega) (.refl _ _)).gives hstop h.closed.ne_nil
  · have hread : Reads 2 ctx tokens e rest :=
      ⟨h.spelled, h.legible, tight, h.ends.mono (by decide), h.closed, h.fresh⟩
    refine gives_bind.2 ⟨e, rest, range_complete hp proper _ _ _ hread hawaits length, ?_⟩
    exact (Steps.refl _ _).gives hstop h.closed.ne_nil

theorem strength?_ne_zero_of_ends {e : Expr} (h : Ends 0 ctx e rest) : strength? (head rest) = none := by
  cases hstrength : strength? (head rest) with
  | none => rfl
  | some strength => exact absurd (h.weaker _ hstrength) (Nat.not_lt_zero _)

/-- What is as loose as an assignment is one. -/
theorem assigned_of_level {f : Bool} {e : Expr} (legible : Legible f e) (h : e.level f = 0) :
    ∃ target value, assign target value = .ok e ∧ Legible false target ∧ Legible f value := by
  cases legible with
  | assigned he htarget hvalue => exact ⟨_, _, he, htarget, hvalue⟩
  | name _ he => simp [← he, Expr.level_ofName] at h
  | prefixed hop => simp [Expr.level_prefixed hop] at h
  | postfixed hop => simp [Expr.level_postfixed hop] at h
  | juxtaposition => simp [Expr.level_juxtapose] at h
  | fraction hfraction => simp [Expr.level_binary, hfraction] at h
  | power _ hop | binary hop =>
      rw [Expr.level_binary] at h
      obtain ⟨_, hlevel⟩ | ⟨_, _, hlevel, _⟩ := Operator.level_of_binary hop <;>
        split at h <;> omega
  | _ => cases h

theorem expression_complete (hp : p.Complete m) (proper : ctx.Proper) :
    Complete 0 (m + 1) ctx (expression p ctx) := by
  intro tokens e rest h hawaits length
  have hstrength := strength?_ne_zero_of_ends h.ends
  rcases Nat.eq_zero_or_pos (e.level (followed rest)) with hlevel | hlevel
  · obtain ⟨target, value, he, htarget, hvalue⟩ := assigned_of_level h.legible hlevel
    obtain ⟨front, endless, rfl, hspelled, hendless⟩ := h.spelled
    obtain ⟨target', value', front, o, lines, back, rfl, ho, gap, he', hfront, hback⟩ :
        SpelledAs.SpelledAssigned ctx.nesting ctx.depth front endless e := by
      have assigned := hspelled.as
      obtain ⟨_, _, rfl⟩ | ⟨_, _, _, rfl⟩ | ⟨_, _, _, rfl⟩ := Expr.assign_eq_ok he <;> exact assigned
    obtain ⟨rfl, rfl⟩ := Expr.assign_injective he he'
    have begins := hback.begins rfl rest
    have hnext : nextLine ctx (o :: lines ++ (back ++ rest)) = back ++ rest :=
      nextLine_cons (kind_ne_of_isOperator ho (by decide)) gap begins.line
    have hequals : followed (o :: lines ++ (back ++ rest)) = false :=
      followed_of_operator (isOperator_iff.1 ho).1
    have targetLevel : target.level false = 17 := by
      obtain ⟨_, rfl, _⟩ | ⟨_, _, rfl, _⟩ | ⟨_, _, rfl, _⟩ := Expr.assign_eq_ok he <;> rfl
    simp only [List.length_append, List.length_cons] at length
    have first : Gives (conditional p ctx) (front ++ (o :: lines ++ (back ++ rest))) target
        (o :: lines ++ (back ++ rest)) := by
      refine conditional_complete hp proper ⟨hfront.upTo rfl, hequals ▸ htarget,
        ?_, ends_of_isOperator ho (.inr (.inl ⟨rfl, by decide⟩)), (h.closed.append _).append _,
        fun _ => kind_ne_of_isOperator ho (by decide)⟩ ?_ ?_ ?_
      · rw [hequals, targetLevel]
        decide
      · rw [hequals, targetLevel]
        exact fun h => absurd h (by decide)
      · exact fun _ => Expr.exposesColon_of_level (f := false) (by omega)
      · simp only [List.length_append, List.length_cons]
        omega
    have second : Gives (p.expression ctx) (back ++ rest) value rest := by
      refine hp.expression ctx proper _ _ _ ⟨⟨back, endless, rfl, hback, hendless⟩, hvalue, Nat.zero_le _,
        ⟨h.ends.weaker, fun hparen => absurd hparen (h.ends.not_parenthesis (by decide)), fun hlevel => ?_,
          fun hlevel => ?_, fun hlevel => ?_⟩, h.closed, h.fresh⟩ ?_ ?_
      · rw [← Expr.lastFactor_assigned he]
        exact h.ends.number hlevel
      · rw [← Expr.lastFactor_assigned he]
        exact h.ends.quotient hlevel
      · rw [← Expr.exposesColon_assigned he]
        exact h.ends.colon hlevel
      · rw [← Expr.exposesColon_assigned he]
        exact hawaits
      · simp only [List.length_append]
        omega
    have hhead : head (o :: lines ++ (back ++ rest)) = o := rfl
    simp only [List.append_assoc]
    refine gives_bind.2 ⟨target, _, first, ?_⟩
    rw [gives_peek_bind, hhead, if_pos ho, gives_advanceLine_bind, hnext]
    refine gives_bind.2 ⟨value, rest, second, ?_⟩
    rw [he]
    exact gives_pure.2 ⟨rfl, rfl⟩
  · have hread : Reads 1 ctx tokens e rest :=
      ⟨h.spelled, h.legible, hlevel, h.ends.mono (by decide), h.closed, h.fresh⟩
    have hequals : (head rest).isOperator "=" = false := by
      rw [Bool.eq_false_iff]
      intro hequals
      obtain ⟨hkind, htext⟩ := isOperator_iff.1 hequals
      rw [strength?, hkind, htext] at hstrength
      cases hstrength
    refine gives_bind.2 ⟨e, rest, conditional_complete hp proper hread (fun _ => h.ends) hawaits length, ?_⟩
    rw [gives_peek_bind, hequals, if_neg (by decide)]
    exact gives_pure.2 ⟨rfl, rfl⟩

/-- The grammar reads whatever is spelled and legible, from so many tokens. -/
theorem productions_complete (n : Nat) : (productions n).Complete n := by
  induction n with
  | zero =>
      constructor <;> intro ctx proper tokens e rest h _ length <;>
        exact absurd h.length_lt (by omega)
  | succ n ih =>
      constructor
      · exact fun ctx proper => expression_complete ih proper
      · exact fun ctx proper => operand_complete ih proper

end Productions

end Formula.Grammar
