import Formula.Proofs.Grammar.Inversion
import Formula.Proofs.Grammar.Soundness.Operand

/-!
The looser productions, and the grammar as a whole: what it reads is spelled by the tokens that it
passes, and legible (`productions_sound`).
-/

namespace Formula.Grammar

open Expr (Legible)
open Reading (repeatedly)

section Productions

variable {p : Productions} {ctx : Context} {tokens rest : List Token}

/-! ### Fractions and products by juxtaposition -/

theorem gives_repeatedly_of_stops {α : Type} {step : α → Parser (ForInStep α)} {a b : α}
    (closed : Closed tokens) (h : Stops step a tokens b rest) :
    Gives (repeatedly a step) tokens b rest :=
  (Steps.refl a tokens).gives h closed.ne_nil

/-- What a factor follows is a name, a parenthesis or a line end. -/
theorem head_of_followed (h : followed rest = true) : (head rest).kind = .identifier
    ∨ (head rest).isDelimiter "(" = true ∨ (head rest).kind = .newline := by
  by_cases hline : (head rest).kind = .newline
  · exact .inr (.inr hline)
  · rw [followed_eq_of_head hline] at h
    simpa [startsFactor, hline] using h

theorem kind_ne_operator_of_followed (h : followed rest = true) : (head rest).kind ≠ .operator := by
  rcases head_of_followed h with h | h | h
  · simp [h]
  · exact kind_ne_of_isDelimiter h (by decide)
  · simp [h]

theorem strength_lt_of_followed (h : followed rest = true) {strength : Nat}
    (hstrength : strength? (head rest) = some strength) : strength < 14 := by
  rcases head_of_followed h with hkind | hdelimiter | hkind
  · simp only [strength?, hkind, Option.some.injEq] at hstrength
    omega
  · obtain ⟨hkind, htext⟩ := isDelimiter_iff.1 hdelimiter
    simp only [strength?, hkind, htext, if_true, Option.some.injEq] at hstrength
    omega
  · simp [strength?, hkind] at hstrength

/-- In front of a factor, a number is a denominator of its own. -/
theorem gives_operand_literal (deep : ctx.depth < maxDepth) (closed : Closed tokens)
    (hkind : (head tokens).kind = .number) (hfactor : followed (next ctx tokens) = true) :
    Gives (operand p ctx) tokens (.number (head tokens).text) (next ctx tokens) := by
  have closed' : Closed (next ctx.deeper tokens) := closed.next _
  have hoperator := kind_ne_operator_of_followed hfactor
  have haccess : ∀ text, text ≠ "(" → (head (next ctx tokens)).isDelimiter text = false := by
    intro text htext
    rcases head_of_followed hfactor with h | h | h
    · simp [Token.isDelimiter, h]
    · obtain ⟨_, h⟩ := isDelimiter_iff.1 h
      simp [Token.isDelimiter, h, Ne.symm htext]
    · simp [Token.isDelimiter, h]
  have accessed : Gives (accesses p ctx.deeper (.number (head tokens).text)) (next ctx tokens)
      (.number (head tokens).text) (next ctx tokens) := by
    refine gives_repeatedly_of_stops closed' ?_
    rw [Stops, gives_peek_bind, haccess "[" (by decide), haccess "." (by decide)]
    split
    · exact gives_pure.2 ⟨rfl, rfl⟩
    · exact gives_pure.2 ⟨rfl, rfl⟩
  have primed : Gives (primary p ctx.deeper) tokens (.number (head tokens).text)
      (next ctx tokens) := by
    unfold primary
    rw [gives_peek_bind, hkind, gives_advance_bind, gives_pure]
    exact ⟨rfl, rfl⟩
  unfold operand
  rw [if_neg (Nat.not_le.2 deep), gives_peek_bind, hkind]
  refine gives_bind.2 ⟨.number (head tokens).text, next ctx tokens, ?_, ?_⟩
  · refine gives_bind.2 ⟨_, _, primed, gives_bind.2 ⟨_, _, accessed, ?_⟩⟩
    refine gives_repeatedly_of_stops closed' ?_
    rw [Stops, gives_peek_bind, if_neg hoperator]
    exact gives_pure.2 ⟨rfl, rfl⟩
  · rw [gives_operatorIn_bind, spellingIn?_eq_none.2 fun h => absurd h hoperator]
    exact gives_pure.2 ⟨rfl, rfl⟩

theorem deep_of_gives_operand {e : Expr} (h : Gives (operand p ctx) tokens e rest) :
    ctx.depth < maxDepth := by
  unfold operand at h
  split at h
  · exact absurd h gives_fail_bind
  · exact Nat.lt_of_not_le ‹_›

/-- A number with signs in front, a slash and a number, in front of a factor. -/
theorem ReadsTo.fraction {left : Expr} {between : List Token} (ready : Ready tokens)
    (deep : ctx.depth < maxDepth) (h : Reads 15 ctx tokens left between)
    (hnumeral : isNumeral left = true) (hslash : (head between).isOperator "/" = true)
    (hkind : (head (nextLine ctx between)).kind = .number)
    (hfollowed : followed (next ctx (nextLine ctx between)) = true) :
    Reads 14 ctx tokens (.operation "/" Operator.divide.name
        [left, .number (head (nextLine ctx between)).text] false)
      (next ctx (nextLine ctx between)) := by
  have hstop := kind_ne_of_isOperator (k := .stop) hslash (by decide)
  obtain ⟨hoperator, htext⟩ := isOperator_iff.1 hslash
  obtain ⟨lines, hbetween, gap⟩ := exists_nextLine ctx hstop
  have ready' := (h.ready ready).nextLine ctx hstop
  have hstop' : (head (nextLine ctx between)).kind ≠ .stop := by simp [hkind]
  obtain ⟨lines', hbetween', gap'⟩ := exists_next ctx hstop'
  obtain ⟨front, htokens, hspelled⟩ := h.operand (by decide)
  obtain ⟨hnumber, literal⟩ := ready'.head.1 hkind
  have hop : Operator.binary? (head between).text = some .divide := by
    rw [htext]
    decide
  have hfraction : Expr.isFraction left (.number (head (nextLine ctx between)).text) = true := by
    rw [Expr.isFraction, hnumeral, literal]
    rfl
  have spelled := Spells.binary hspelled hoperator hop (by decide) gap
    (.number deep hkind literal gap')
  rw [htext] at spelled
  have level : (Expr.operation "/" Operator.divide.name
      [left, .number (head (nextLine ctx between)).text] false).level true = 14 := by
    rw [Expr.level_binary, if_pos ⟨rfl, rfl, hfraction⟩]
  refine ⟨spelled.upTo ?_, ?_, ?_, .of_factor (by decide) ?_ (fun _ => rfl) ?_,
    ready'.1.next ctx, fresh_next⟩
  · rw [List.append_assoc, List.append_assoc, ← hbetween', ← hbetween]
    exact htokens
  · rw [hfollowed]
    exact .fraction hfraction (h.legible.of_tight h.tight false) (.number hnumber literal)
  · rw [hfollowed]
    exact Nat.le_of_eq level.symm
  · exact fun strength hstrength => strength_lt_of_followed hfollowed hstrength
  · rintro _ _ ⟨h, _⟩
    exact kind_ne_operator_of_followed hfollowed (isOperator_iff.1 h).1

/-- What is tracked of a factor is about its end. -/
theorem ReadsTo.endsLikeNumber {e : Expr} (h : Reads 14 ctx tokens e rest) :
    endsLikeNumber e = endsLikeNumber e.lastFactor := by
  obtain tight | ⟨_, left, right, rfl, hfraction, _⟩ := h.legible.operand_or_fraction h.tight
  · rw [Expr.lastFactor_eq_self h.legible tight]
  · obtain ⟨_, hliteral⟩ := Bool.and_eq_true_iff.1 hfraction
    rw [Expr.lastFactor_binary (by decide), Expr.lastFactor_of_isLiteral hliteral,
      Expr.endsLikeNumber_of_isLiteral hliteral]
    rfl

/-- The token that a factor opens with. -/
theorem ReadsTo.opening {level limit : Nat} {e : Expr} (h : ReadsTo level limit ctx tokens e rest)
    (hhead : (head tokens).kind ≠ .operator) :
    (head tokens).opening = e.opening ∧ (head tokens).kind ≠ .newline := by
  obtain ⟨front, _, rfl, hspelled, _⟩ := h.spelled
  obtain ⟨t, front', rfl, hbegins, ⟨hopening, _⟩ | ⟨hcolon, _⟩⟩ := hspelled.opens
  · exact ⟨hopening, hbegins.line⟩
  · exact absurd (isOperator_iff.1 hcolon).1 hhead

/-- A factor goes on with a product. -/
theorem ReadsTo.juxtapose {left right : Expr} {between : List Token}
    (h : ReadsTo 13 14 ctx tokens left between) (h' : Reads 14 ctx between right rest)
    (hfactor : (startsFactor (head between)
      || (head between).kind == .number && !Grammar.endsLikeNumber left.lastFactor) = true) :
    ReadsTo 13 14 ctx tokens (.juxtapose left right) rest := by
  have hhead : (head between).kind ≠ .operator := by
    intro hkind
    simp [startsFactor, Token.isDelimiter, hkind] at hfactor
  obtain ⟨hopening, hline⟩ := h'.opening hhead
  have hfollowed : followed between = right.opening.isFactor := by
    rw [followed_eq_of_head hline, startsFactor_eq, hopening]
  obtain ⟨front, htokens, hspelled⟩ := h.operand (by decide)
  obtain ⟨front', rfl, hspelled'⟩ := h'.operand (by decide)
  refine ⟨Spells.upTo (.juxtaposition hspelled hspelled') ?_, ?_, Nat.le_refl _,
    .of_factor (by decide) h'.ends.weaker h'.ends.call h'.ends.quotient, h'.closed, h'.fresh⟩
  · rw [List.append_assoc]
    exact htokens
  · refine .juxtaposition (hfollowed ▸ h.legible) (hfollowed ▸ h.tight) h'.legible h'.tight ?_ ?_
    · rw [← hopening, ← startsFactor_eq]
      rcases Bool.or_eq_true_iff.1 hfactor with hfactor | hfactor
      · exact .inl hfactor
      · simp only [Bool.and_eq_true, beq_iff_eq, Bool.not_eq_true'] at hfactor
        exact .inr ⟨by simp [Token.opening, hfactor.1], hfactor.2⟩
    · intro hparen
      rw [← hopening] at hparen
      exact h.ends.call (Token.isDelimiter_of_opening hparen)

variable (hp : p.Sound)

include hp

theorem fraction_sound : Sound 14 ctx (fraction p ctx) := by
  intro tokens e rest ready h
  unfold fraction at h
  obtain ⟨first, left, hfirst, h⟩ := gives_bind.1 h
  obtain ⟨⟨e', last⟩, left', hloop, h⟩ := gives_bind.1 h
  obtain ⟨rfl, rfl⟩ := gives_pure.1 h
  have start := operand_sound hp _ _ _ ready hfirst
  refine gives_repeatedly
    (fun factor left => factor.1 = factor.2 ∧ Reads 15 ctx tokens factor.1 left ∨
      Reads 14 ctx tokens factor.1 left ∧ (head left).isOperator "/" = false)
    (fun factor left => Reads 14 ctx tokens factor.1 left)
    (fun _ _ h => h.elim (fun h => h.2.closed.ne_nil) fun h => h.1.closed.ne_nil) ?_
    (.inl ⟨rfl, start⟩) hloop
  rintro ⟨e, last⟩ left s left' hread h
  dsimp only at h hread
  rw [gives_get_bind, gives_peek_bind] at h
  split at h
  · rename_i hdivides
    simp only [Bool.and_eq_true, beq_iff_eq] at hdivides
    obtain ⟨⟨⟨hslash, hnumeral⟩, hkind⟩, hfactor⟩ := hdivides
    obtain ⟨rfl, hread⟩ | ⟨_, hslash'⟩ := hread
    · have deep := deep_of_gives_operand hfirst
      have hstop := kind_ne_of_isOperator (k := .stop) hslash (by decide)
      have closed := hread.closed.nextLine ctx
      have hstop' : (head (nextLine ctx left)).kind ≠ .stop := by simp [hkind]
      rw [gives_set_bind] at h
      obtain ⟨denominator, left'', hdenominator, h⟩ := gives_bind.1 h
      obtain ⟨quotient, left''', hquotient, h⟩ := gives_bind.1 h
      obtain ⟨rfl, rfl⟩ := gives_pure.1 h
      obtain ⟨op, hop, rfl, rfl⟩ := gives_binary.1 hquotient
      obtain rfl := Operator.binary?_divide hop
      obtain ⟨rfl, rfl⟩ := hdenominator.unique (gives_operand_literal deep closed hkind hfactor)
      have hoperator : (head (next ctx (nextLine ctx left))).kind ≠ .operator :=
        kind_ne_operator_of_followed hfactor
      refine ⟨.inr ⟨hread.fraction ready deep hnumeral hslash hkind hfactor, ?_⟩,
        Nat.lt_trans (length_next_lt ctx hstop') (length_nextLine_lt ctx hstop)⟩
      rw [Bool.eq_false_iff]
      exact fun h => hoperator (isOperator_iff.1 h).1
    · rw [hslash] at hslash'
      cases hslash'
  · rename_i hdivides
    obtain ⟨rfl, rfl⟩ := gives_pure.1 h
    obtain ⟨rfl, hread⟩ | ⟨hread, _⟩ := hread
    · refine ⟨hread.spelled, hread.legible, Nat.le_trans (by decide) hread.tight,
        .of_factor (by decide) (fun strength hstrength => ?_) hread.ends.call ?_, hread.closed, hread.fresh⟩
      · have := hread.ends.weaker _ hstrength
        have := le_or_le_of_strength? hstrength
        omega
      · intro _ hnumeral
        rw [Expr.lastFactor_eq_self hread.legible hread.tight] at hnumeral
        rintro ⟨hslash, hkind, hfactor⟩
        exact hdivides (by simp [hslash, hnumeral, hkind, hfactor])
    · exact hread

theorem juxtaposition_sound : Sound 13 ctx (juxtaposition p ctx) := by
  intro tokens e rest ready h
  unfold juxtaposition at h
  obtain ⟨first, left, hfirst, h⟩ := gives_bind.1 h
  obtain ⟨⟨e', afterNumber⟩, left', hloop, h⟩ := gives_bind.1 h
  obtain ⟨rfl, rfl⟩ := gives_pure.1 h
  have start := fraction_sound hp _ _ _ ready hfirst
  refine gives_repeatedly
    (fun product left => ReadsTo 13 14 ctx tokens product.1 left ∧
      product.2 = endsLikeNumber product.1.lastFactor)
    (fun product left => Reads 13 ctx tokens product.1 left) (fun _ _ h => h.1.closed.ne_nil) ?_
    ⟨⟨start.spelled, start.legible, Nat.le_trans (by decide) start.tight, start.ends, start.closed,
      start.fresh⟩, start.endsLikeNumber⟩ hloop
  rintro ⟨e, afterNumber⟩ left s left' ⟨hread, hnumber⟩ h
  dsimp only at h hread hnumber
  subst hnumber
  rw [gives_peek_bind] at h
  split at h
  · rename_i hfactor
    obtain ⟨factor, left'', hfactor', h⟩ := gives_bind.1 h
    obtain ⟨rfl, rfl⟩ := gives_pure.1 h
    have read := fraction_sound hp _ _ _ (hread.ready ready) hfactor'
    exact ⟨⟨hread.juxtapose read hfactor, read.endsLikeNumber⟩, read.length_lt⟩
  · rename_i hfactor
    obtain ⟨rfl, rfl⟩ := gives_pure.1 h
    refine ⟨hread.spelled, hread.legible, hread.tight, ⟨fun strength hstrength => ?_, hread.ends.call,
      fun _ hkind => ?_, fun _ => hread.ends.quotient (by decide), (absurd · (by decide))⟩, hread.closed,
      hread.fresh⟩
    · have hlt := hread.ends.weaker _ hstrength
      rcases strength?_eq_some hstrength with ⟨rfl, _⟩ | ⟨rfl, hstarts⟩ | ⟨_, op, hop, rfl⟩ | ⟨rfl, _⟩ |
        ⟨rfl, _⟩
      · exact absurd hlt (by decide)
      · exact absurd (by simp [hstarts]) hfactor
      · obtain ⟨_, hlevel⟩ | ⟨_, _, _, hlevel⟩ := Operator.level_of_binary hop <;> omega
      · decide
      · decide
    · simp only [hkind, beq_self_eq_true, Bool.true_and, Bool.not_eq_true', Bool.or_eq_true, not_or,
        Bool.not_eq_false] at hfactor
      exact hfactor.2

omit hp

/-! ### Binary operators -/

/-- Spellings of all binary operators of a level. -/
structure IsLevel (level : Nat) (operators : List String) : Prop where
  spelled : ∀ spelling op, Operator.binary? spelling = some op → op.level = level →
    operators.contains spelling = true
  level : ∀ spelling, operators.contains spelling = true → ∃ op, Operator.binary? spelling = some op ∧
    op.level = level

theorem isLevel_of_all {level : Nat} {operators : List String}
    (symbols : ∀ op ∈ Operator.all, op.isUnary = false → op.level = level →
      op.symbol ∈ operators)
    (percent : Operator.mod.level = level → "%" ∈ operators)
    (h : ∀ spelling ∈ operators, (Operator.binary? spelling).map Operator.level = some level) :
    IsLevel level operators where
  spelled spelling op hop hlevel := by
    obtain ⟨hunary, ⟨rfl, rfl⟩ | rfl⟩ := Operator.binary?_mem hop
    · simpa using percent hlevel
    · simpa using symbols op (Operator.mem_all op) hunary hlevel
  level spelling hspelling := by
    obtain ⟨op, hop, hlevel⟩ := Option.map_eq_some_iff.1 (h spelling (by simpa using hspelling))
    exact ⟨op, hop, hlevel⟩

theorem followed_of_operator (h : (head rest).kind = .operator) : followed rest = false := by
  rw [followed_eq_of_head (by simp [h])]
  simp [startsFactor, Token.isDelimiter, h]

/-- An operator and its right operand go on with what is as tight as it. -/
theorem ReadsTo.binary {level : Nat} {left right : Expr} {between : List Token} {op : Operator}
    (loose : 3 ≤ level) (weak : level ≤ 12) (h : ReadsTo level (level + 1) ctx tokens left between)
    (tighter : op.isRelational = true → 10 ≤ left.level false)
    (hkind : (head between).kind = .operator) (hop : Operator.binary? (head between).text = some op)
    (hlevel : op.level = level)
    (h' : Reads (level + 1) ctx (nextLine ctx between) right rest) :
    ReadsTo level (level + 1) ctx tokens
      (.operation (head between).text op.name [left, right] false) rest := by
  have hstop : (head between).kind ≠ .stop := by simp [hkind]
  obtain ⟨lines, hbetween, gap⟩ := exists_nextLine ctx hstop
  obtain ⟨front, htokens, hspelled⟩ := h.operand loose
  obtain ⟨front', hnext, hspelled'⟩ := h'.operand (by omega)
  have hfollowed := followed_of_operator hkind
  have legible := h.legible
  have tight := h.tight
  rw [hfollowed] at legible tight
  have divides : op = .divide → isNumeral left.lastFactor = true →
      right.opensProduct (followed rest) = false := by
    rintro rfl hnumeral
    rw [Bool.eq_false_iff]
    intro opens
    obtain ⟨hnumber, hfactor⟩ := hspelled'.divides opens h'.legible h'.fresh rfl
    rw [← hnext] at hnumber hfactor
    exact h.ends.quotient (by omega) hnumeral
      ⟨isOperator_iff.2 ⟨hkind, Operator.eq_of_binary?_divide hop⟩, hnumber, hfactor⟩
  have hlast : (Expr.operation (head between).text op.name [left, right] false).lastFactor
      = right.lastFactor := Expr.lastFactor_binary (by omega)
  refine ⟨Spells.upTo (.binary hspelled hkind hop (by omega) gap hspelled') ?_, ?_, ?_,
    ⟨h'.ends.weaker, h'.ends.call, ?_, ?_, ?_⟩, h'.closed, h'.fresh⟩
  · rw [List.append_assoc, List.append_assoc, ← hnext, ← hbetween]
    exact htokens
  · refine .binary hop (by omega) legible ?_ h'.legible (by have := h'.tight; omega) divides
    split
    · exact tighter ‹_›
    · omega
  · rw [Expr.level_binary, if_neg (Expr.not_fraction legible divides)]
    omega
  · rw [hlast]
    exact h'.ends.number
  · rw [hlast]
    exact h'.ends.quotient
  · exact fun h => absurd h (by omega)

theorem leftGrouped_sound {level : Nat} {operators : List String} {P : Parser Expr}
    (hoperators : IsLevel level operators) (loose : 3 ≤ level) (weak : level ≤ 12)
    (other : level ≠ 9) (hP : Sound (level + 1) ctx P) :
    Sound level ctx (leftGrouped ctx operators P) := by
  intro tokens e rest ready h
  unfold leftGrouped at h
  obtain ⟨first, left, hfirst, h⟩ := gives_bind.1 h
  have start := hP _ _ _ ready hfirst
  refine gives_repeatedly (ReadsTo level (level + 1) ctx tokens) (Reads level ctx tokens)
    (fun _ _ h => h.closed.ne_nil) ?_
    ⟨start.spelled, start.legible, by have := start.tight; omega, start.ends, start.closed,
      start.fresh⟩ h
  intro e left s left' hread h
  rw [gives_operatorIn_bind] at h
  split at h
  · rename_i spelling hspelling
    obtain ⟨hkind, hmem, rfl⟩ := spellingIn?_eq_some hspelling
    obtain ⟨op, hop, hlevel⟩ := hoperators.level _ hmem
    have hstop : (head left).kind ≠ .stop := by simp [hkind]
    rw [gives_advanceLine_bind] at h
    obtain ⟨right, left'', hright, h⟩ := gives_bind.1 h
    obtain ⟨e', left3, he', h⟩ := gives_bind.1 h
    obtain ⟨rfl, rfl⟩ := gives_pure.1 h
    obtain ⟨op', hop', rfl, rfl⟩ := gives_binary.1 he'
    obtain rfl := Option.some.inj (hop.symm.trans hop')
    have read := hP _ _ _ ((hread.ready ready).nextLine ctx hstop) hright
    refine ⟨hread.binary loose weak (fun hrelational => ?_) hkind hop hlevel read,
      Nat.lt_trans read.length_lt (length_nextLine_lt ctx hstop)⟩
    exact absurd ((Operator.isRelational_iff op).1 hrelational) (by omega)
  · rename_i hspelling
    obtain ⟨rfl, rfl⟩ := gives_pure.1 h
    refine ⟨hread.spelled, hread.legible, hread.tight, ⟨fun strength hstrength => ?_, hread.ends.call,
      fun _ => hread.ends.number (by omega), fun _ => hread.ends.quotient (by omega),
      fun h => absurd h (by omega)⟩, hread.closed, hread.fresh⟩
    have hlt := hread.ends.weaker _ hstrength
    have hne : strength ≠ level := by
      rintro rfl
      rcases strength?_eq_some hstrength with ⟨rfl, _⟩ | ⟨rfl, _⟩ | ⟨hkind, op, hop, hlevel⟩ |
        ⟨rfl, _⟩ | ⟨rfl, _⟩
      · omega
      · omega
      · have := hoperators.spelled _ _ hop hlevel.symm
        rw [spellingIn?_eq_none.1 hspelling hkind] at this
        cases this
      · omega
      · omega
    omega

/-- The levels of the grammar, by their operators. -/
theorem isLevel_tightLevels : IsLevel 12 ["*", "/", ".*", "./", "%", "mod"] ∧ IsLevel 11 ["+", "-"] ∧
    IsLevel 10 ["<<", ">>", ">>>"] ∧ IsLevel 9 comparisons :=
  ⟨isLevel_of_all (by decide) (by decide) (by decide),
    isLevel_of_all (by decide) (by decide) (by decide),
    isLevel_of_all (by decide) (by decide) (by decide),
    isLevel_of_all (by decide) (by decide) (by decide)⟩

theorem isLevel_looseLevels : IsLevel 8 ["&"] ∧ IsLevel 7 ["^|"] ∧ IsLevel 6 ["|"] ∧
    IsLevel 5 ["and"] ∧ IsLevel 4 ["xor"] ∧ IsLevel 3 ["or"] :=
  ⟨isLevel_of_all (by decide) (by decide) (by decide),
    isLevel_of_all (by decide) (by decide) (by decide),
    isLevel_of_all (by decide) (by decide) (by decide),
    isLevel_of_all (by decide) (by decide) (by decide),
    isLevel_of_all (by decide) (by decide) (by decide),
    isLevel_of_all (by decide) (by decide) (by decide)⟩

/-- Tokens begin with operands and comparisons between them. -/
structure ReadsChain (ctx : Context) (tokens : List Token) (spellings : List String)
    (operands : List Expr) (last : Expr) (rest : List Token) : Prop where
  spelled : ∃ front, tokens = front ++ rest ∧
    Spells ctx.nesting ctx.depth front (.chain spellings (operands ++ [last]))
  comparing : ∀ spelling ∈ spellings, comparisons.contains spelling = true
  length : operands.length = spellings.length
  legible : ∀ e ∈ operands, Legible false e
  tight : ∀ e ∈ operands, 10 ≤ e.level false
  lastLegible : Legible (followed rest) last
  lastTight : 10 ≤ last.level (followed rest)
  ends : Ends 10 ctx last rest
  closed : Closed rest
  fresh : Fresh ctx.nesting rest

/-- A comparison and its right operand make a chain longer. -/
theorem ReadsChain.compare {spellings : List String} {operands : List Expr} {last next : Expr}
    {between : List Token} (h : ReadsChain ctx tokens spellings operands last between)
    (hkind : (head between).kind = .operator)
    (hspelling : comparisons.contains (head between).text = true)
    (h' : Reads 10 ctx (nextLine ctx between) next rest) :
    ReadsChain ctx tokens (spellings ++ [(head between).text]) (operands ++ [last]) next rest := by
  have hstop : (head between).kind ≠ .stop := by simp [hkind]
  obtain ⟨lines, hbetween, gap⟩ := exists_nextLine ctx hstop
  obtain ⟨front, htokens, hspelled⟩ := h.spelled
  obtain ⟨front', hnext, hspelled'⟩ := h'.operand (by decide)
  have hfollowed := followed_of_operator hkind
  have legible := h.lastLegible
  have tight := h.lastTight
  rw [hfollowed] at legible tight
  refine ⟨⟨_, ?_, hspelled.chain_concat hkind hspelling gap hspelled'⟩, ?_, ?_, ?_, ?_, h'.legible,
    h'.tight, h'.ends, h'.closed, h'.fresh⟩
  · rw [List.append_assoc, List.append_assoc, ← hnext, ← hbetween]
    exact htokens
  · intro spelling hmem
    rcases List.mem_append.1 hmem with hmem | hmem
    · exact h.comparing _ hmem
    · exact List.mem_singleton.1 hmem ▸ hspelling
  · simp [h.length]
  · intro e hmem
    rcases List.mem_append.1 hmem with hmem | hmem
    · exact h.legible _ hmem
    · exact List.mem_singleton.1 hmem ▸ legible
  · intro e hmem
    rcases List.mem_append.1 hmem with hmem | hmem
    · exact h.tight _ hmem
    · exact List.mem_singleton.1 hmem ▸ tight

/-- What follows a chain does not go on with it. -/
theorem ends_of_no_comparison {last : Expr} (h : Ends 10 ctx last rest)
    (hspelling : spellingIn? comparisons (head rest) = none) {e : Expr}
    (hlast : e.lastFactor = last.lastFactor) : Ends 9 ctx e rest := by
  refine ⟨fun strength hstrength => ?_, fun h' => absurd h' (h.not_parenthesis (by decide)),
    fun _ => hlast ▸ h.number (by decide), fun _ => hlast ▸ h.quotient (by decide), (absurd · (by decide))⟩
  · have hlt := h.weaker _ hstrength
    have hne : strength ≠ 9 := by
      rintro rfl
      rcases strength?_eq_some hstrength with ⟨h, _⟩ | ⟨h, _⟩ | ⟨hkind, op, hop, hlevel⟩ | ⟨h, _⟩ |
        ⟨h, _⟩
      · cases h
      · cases h
      · have := isLevel_tightLevels.2.2.2.spelled _ _ hop hlevel.symm
        rw [spellingIn?_eq_none.1 hspelling hkind] at this
        cases this
      · cases h
      · cases h
    omega

theorem ReadsChain.reads {spellings : List String} {operands : List Expr} {last e : Expr}
    {left : List Token} (h : ReadsChain ctx tokens spellings operands last left)
    (hspelling : spellingIn? comparisons (head left) = none)
    (he : Gives (Grammar.ofComparisons (operands ++ [last]) spellings) left e rest) :
    Reads 9 ctx tokens e rest := by
  obtain ⟨front, htokens, hspelled⟩ := h.spelled
  unfold Grammar.ofComparisons at he
  split at he
  · obtain ⟨rfl, rfl⟩ := gives_pure.1 he
    obtain rfl := List.eq_nil_of_length_eq_zero h.length
    cases hspelled with
    | operand hspelled =>
        exact ⟨hspelled.upTo htokens, h.lastLegible,
          Nat.le_trans (by decide) h.lastTight, ends_of_no_comparison h.ends hspelling rfl, h.closed,
          h.fresh⟩
  · rename_i spelling
    obtain ⟨op, hop, rfl, rfl⟩ := gives_binary.1 he
    have hmem := h.comparing spelling (List.mem_singleton_self _)
    obtain ⟨op', hop', hlevel⟩ := isLevel_tightLevels.2.2.2.level _ hmem
    obtain rfl := Option.some.inj (hop.symm.trans hop')
    obtain ⟨left, rfl⟩ := List.length_eq_one_iff.1 h.length
    cases hspelled with
    | comparing hleft ho _ gap hspelled =>
        cases hspelled with
        | operand hright =>
            have hrelational := (Operator.isRelational_iff op).2 hlevel
            have hleftLegible := h.legible left (List.mem_singleton_self _)
            refine ⟨Spells.upTo (.binary hleft ho hop (by omega) gap hright) htokens, ?_, ?_,
              ends_of_no_comparison h.ends hspelling (Expr.lastFactor_binary (by omega)), h.closed,
              h.fresh⟩
            · refine .binary hop (by omega) hleftLegible ?_ h.lastLegible ?_ ?_
              · rw [if_pos hrelational]
                exact h.tight left (List.mem_singleton_self _)
              · show op.level < last.level (followed _)
                have := h.lastTight
                omega
              · rintro rfl
                cases hlevel
            · rw [List.singleton_append, List.headD_cons, List.getD_cons_succ, List.getD_cons_zero,
                Expr.level_binary, if_neg]
              · omega
              · rintro ⟨rfl, _⟩
                cases hlevel
  · rename_i hnil hsingle
    obtain ⟨rfl, rfl⟩ := gives_pure.1 he
    have many : 2 ≤ spellings.length := by
      match spellings with
      | [] => exact absurd rfl hnil
      | [spelling] => exact absurd rfl (hsingle spelling)
      | _ :: _ :: _ => simp
    refine ⟨Spells.upTo (.comparison hspelled many) htokens, ?_, Nat.le_refl _,
      ends_of_no_comparison h.ends hspelling Expr.lastFactor_comparison, h.closed, h.fresh⟩
    have operators : ∀ spelling ∈ spellings, ∃ op, Operator.binary? spelling = some op ∧
        op.isRelational = true := by
      intro spelling hmem
      obtain ⟨op, hop, hlevel⟩ := isLevel_tightLevels.2.2.2.level _ (h.comparing _ hmem)
      exact ⟨op, hop, (Operator.isRelational_iff op).2 hlevel⟩
    have hlength : ((spellings.filterMap Operator.binary?).map Operator.name).length
        = spellings.length := by
      rw [List.length_map]
      refine List.filterMap_length_eq_length.2 fun spelling hmem => ?_
      obtain ⟨op, hop, _⟩ := operators spelling hmem
      rw [hop]
      rfl
    refine .comparison ?_ (hlength ▸ many) (hlength ▸ h.length) h.legible h.tight h.lastLegible
      h.lastTight
    intro name hname
    obtain ⟨op, hmem, rfl⟩ := List.mem_map.1 hname
    obtain ⟨spelling, hspelling, hop⟩ := List.mem_filterMap.1 hmem
    obtain ⟨op', hop', hrelational⟩ := operators _ hspelling
    obtain rfl := Option.some.inj (hop.symm.trans hop')
    simp [Expr.isComparison, hrelational]

theorem chain_sound (hp : p.Sound) : Sound 9 ctx (chain p ctx) := by
  intro tokens e rest ready h
  unfold chain at h
  have tight : Sound 10 ctx (levels ctx tightLevels (juxtaposition p ctx)) := by
    obtain ⟨h12, h11, h10, _⟩ := isLevel_tightLevels
    refine leftGrouped_sound h10 (by decide) (by decide) (by decide) ?_
    refine leftGrouped_sound h11 (by decide) (by decide) (by decide) ?_
    refine leftGrouped_sound h12 (by decide) (by decide) (by decide) ?_
    exact juxtaposition_sound hp
  obtain ⟨first, left, hfirst, h⟩ := gives_bind.1 h
  obtain ⟨⟨operands, spellings⟩, left', hloop, h⟩ := gives_bind.1 h
  have read := tight _ _ _ ready hfirst
  have start : ReadsChain ctx tokens [].reverse [].reverse first left := by
    obtain ⟨front, htokens, hspelled⟩ := read.operand (by decide)
    exact ⟨⟨front, htokens, .operand hspelled⟩, by simp, rfl, by simp, by simp, read.legible, read.tight,
      read.ends, read.closed, read.fresh⟩
  obtain ⟨last, operands, rfl, hchain, hspelling⟩ := gives_repeatedly
    (fun state left => ∃ last init, state.1 = last :: init ∧
      ReadsChain ctx tokens state.2.reverse init.reverse last left)
    (fun state left => ∃ last init, state.1 = last :: init ∧
      ReadsChain ctx tokens state.2.reverse init.reverse last left ∧
      spellingIn? comparisons (head left) = none)
    (fun state left h => by
      obtain ⟨_, _, _, h⟩ := h
      exact h.closed.ne_nil) (by
      rintro ⟨operands, spellings⟩ left s left' ⟨last, init, rfl, hread⟩ h
      dsimp only at h
      rw [gives_operatorIn_bind] at h
      split at h
      · rename_i spelling hspelling
        obtain ⟨hkind, hmem, rfl⟩ := spellingIn?_eq_some hspelling
        have hstop : (head left).kind ≠ .stop := by simp [hkind]
        rw [gives_advanceLine_bind] at h
        obtain ⟨next, left'', hnext, h⟩ := gives_bind.1 h
        obtain ⟨rfl, rfl⟩ := gives_pure.1 h
        obtain ⟨front, htokens, _⟩ := hread.spelled
        have ready' := (ready.rest htokens hread.closed).nextLine ctx hstop
        have read := tight _ _ _ ready' hnext
        refine ⟨⟨next, last :: init, rfl, ?_⟩,
          Nat.lt_trans read.length_lt (length_nextLine_lt ctx hstop)⟩
        rw [List.reverse_cons, List.reverse_cons]
        exact hread.compare hkind hmem read
      · rename_i hspelling
        obtain ⟨rfl, rfl⟩ := gives_pure.1 h
        exact ⟨last, init, rfl, hread, hspelling⟩)
    ⟨first, [], rfl, start⟩ hloop
  dsimp only at h
  rw [List.reverse_cons] at h
  exact hchain.reads hspelling h

theorem disjunction_sound (hp : p.Sound) : Sound 3 ctx (disjunction p ctx) := by
  obtain ⟨h8, h7, h6, h5, h4, h3⟩ := isLevel_looseLevels
  refine leftGrouped_sound h3 (by decide) (by decide) (by decide) ?_
  refine leftGrouped_sound h4 (by decide) (by decide) (by decide) ?_
  refine leftGrouped_sound h5 (by decide) (by decide) (by decide) ?_
  refine leftGrouped_sound h6 (by decide) (by decide) (by decide) ?_
  refine leftGrouped_sound h7 (by decide) (by decide) (by decide) ?_
  refine leftGrouped_sound h8 (by decide) (by decide) (by decide) ?_
  exact chain_sound hp

/-! ### Ranges, conditionals and assignments -/

/-- What is looser than an operand goes on with a `?` or a `=`. -/
theorem lt_two_of_strength {strength : Nat} (h : strength? (head rest) = some strength)
    (hlt : strength < 3) : strength < 2 := by
  rcases strength?_eq_some h with ⟨rfl, _⟩ | ⟨rfl, _⟩ | ⟨_, op, hop, rfl⟩ | ⟨rfl, _⟩ | ⟨rfl, _⟩
  · omega
  · omega
  · obtain ⟨_, hlevel⟩ | ⟨_, _, hlevel, _⟩ := Operator.level_of_binary hop <;> omega
  · decide
  · decide

theorem strength?_of_closesRange {t : Token} (h : closesRange t = true) : strength? t = none := by
  obtain ⟨kind, text, position⟩ := t
  simp only [closesRange, Token.isDelimiter, Bool.or_eq_true, Bool.and_eq_true, beq_iff_eq] at h
  obtain ((rfl | ⟨rfl, rfl⟩) | ⟨rfl, rfl⟩) | ⟨rfl, rfl⟩ := h <;> rfl

theorem not_operator_of_closesRange {t : Token} (h : closesRange t = true) (text : String) :
    t.isOperator text = false := by
  obtain ⟨kind, text', position⟩ := t
  simp only [closesRange, Token.isDelimiter, Bool.or_eq_true, Bool.and_eq_true, beq_iff_eq] at h
  obtain ((rfl | ⟨rfl, rfl⟩) | ⟨rfl, rfl⟩) | ⟨rfl, rfl⟩ := h <;> rfl

/-- Tokens begin with the start of a range. -/
def ReadsStart (ctx : Context) (tokens : List Token) (e : Expr) (rest : List Token) : Prop :=
  (∃ front, tokens = front ++ rest ∧ Spells ctx.nesting ctx.depth front (.start e)) ∧
    Legible false e ∧ 3 ≤ e.level false

/-- Tokens begin with the stop of a range. -/
structure ReadsStop (ctx : Context) (tokens : List Token) (e : Expr) (rest : List Token) : Prop where
  spelled : ∃ front endless, tokens = front ++ rest ∧
    Spells ctx.nesting ctx.depth front (.stop e endless) ∧
    (endless = true → closesRange (head rest) = true)
  legible : Legible (followed rest) e
  tight : 3 ≤ e.level (followed rest)
  ends : Ends 3 ctx e rest
  closed : Closed rest
  fresh : Fresh ctx.nesting rest

/-- Tokens begin with the parts of a range, of which the last one comes first. -/
inductive ReadsParts (ctx : Context) (tokens : List Token) : List Expr → List Token → Prop
  | noStart (hcolon : (head tokens).isOperator ":" = true) (awaits : ctx.awaits = false)
      (closed : Closed tokens) : ReadsParts ctx tokens [.number "1"] tokens
  | one {e : Expr} {rest : List Token} (h : Reads 3 ctx tokens e rest) :
      ReadsParts ctx tokens [e] rest
  | two {start stop : Expr} {between rest : List Token} (awaits : ctx.awaits = false)
      (hstart : ReadsStart ctx tokens start between) (hcolon : (head between).isOperator ":" = true)
      (hstop : ReadsStop ctx (next ctx between) stop rest) :
      ReadsParts ctx tokens [stop, start] rest
  | three {start step stop : Expr} {between between' rest : List Token} (awaits : ctx.awaits = false)
      (hstart : ReadsStart ctx tokens start between) (hcolon : (head between).isOperator ":" = true)
      (hstep : Reads 3 ctx (next ctx between) step between')
      (hcolon' : (head between').isOperator ":" = true)
      (hstop : ReadsStop ctx (next ctx between') stop rest) :
      ReadsParts ctx tokens [stop, step, start] rest

theorem ReadsParts.closed {parts : List Expr} (h : ReadsParts ctx tokens parts rest) : Closed rest := by
  cases h with
  | noStart _ _ closed => exact closed
  | one h => exact h.closed
  | two _ _ _ hstop => exact hstop.closed
  | three _ _ _ _ _ hstop => exact hstop.closed

theorem ReadsParts.suffix {parts : List Expr} (h : ReadsParts ctx tokens parts rest) :
    ∃ front, tokens = front ++ rest := by
  have passed : ∀ {tokens : List Token}, (head tokens).isOperator ":" = true →
      ∃ front, tokens = front ++ next ctx tokens := by
    intro tokens hcolon
    obtain ⟨lines, htokens, _⟩ := exists_next ctx (kind_ne_of_isOperator hcolon (by decide))
    exact ⟨_, htokens⟩
  cases h with
  | noStart => exact ⟨[], rfl⟩
  | one h =>
      obtain ⟨front, _, htokens, _⟩ := h.spelled
      exact ⟨front, htokens⟩
  | two _ hstart hcolon hstop =>
      obtain ⟨⟨front, rfl, _⟩, _⟩ := hstart
      obtain ⟨front', hbetween⟩ := passed hcolon
      obtain ⟨front'', _, hnext, _⟩ := hstop.spelled
      exact ⟨front ++ front' ++ front'', by rw [List.append_assoc, List.append_assoc, ← hnext, ← hbetween]⟩
  | three _ hstart hcolon hstep hcolon' hstop =>
      obtain ⟨⟨front, rfl, _⟩, _⟩ := hstart
      obtain ⟨front', hbetween⟩ := passed hcolon
      obtain ⟨step, _, hnext, _⟩ := hstep.spelled
      obtain ⟨front'', hbetween'⟩ := passed hcolon'
      obtain ⟨stop, _, hnext', _⟩ := hstop.spelled
      refine ⟨front ++ front' ++ step ++ front'' ++ stop, ?_⟩
      simp only [List.append_assoc]
      rw [← hnext', ← hbetween', ← hnext, ← hbetween]

/-- A `:` ends the first part of a range. -/
theorem ReadsParts.start {e : Expr} (h : ReadsParts ctx tokens [e] rest)
    (hcolon : (head rest).isOperator ":" = true) : ReadsStart ctx tokens e rest := by
  cases h with
  | noStart => exact ⟨⟨[], rfl, .noStart⟩, .number ⟨by decide, by decide⟩ rfl, by decide⟩
  | one h =>
      have hfollowed := followed_of_operator (isOperator_iff.1 hcolon).1
      obtain ⟨front, htokens, hspelled⟩ := h.operand (by decide)
      exact ⟨⟨front, htokens, .start hspelled⟩, hfollowed ▸ h.legible, hfollowed ▸ h.tight⟩

theorem ReadsTo.stop {e : Expr} (h : Reads 3 ctx tokens e rest) : ReadsStop ctx tokens e rest := by
  obtain ⟨front, htokens, hspelled⟩ := h.operand (by decide)
  exact ⟨⟨front, false, htokens, .stop hspelled, (absurd · Bool.false_ne_true)⟩, h.legible, h.tight, h.ends,
    h.closed, h.fresh⟩

/-- A stop that is not left out is an operand. -/
theorem ReadsStop.reads {e : Expr} (h : ReadsStop ctx tokens e rest)
    (hcolon : (head rest).isOperator ":" = true) : Reads 3 ctx tokens e rest := by
  obtain ⟨front, endless, htokens, hspelled, hendless⟩ := h.spelled
  refine ⟨?_, h.legible, h.tight, h.ends, h.closed, h.fresh⟩
  cases hspelled with
  | noStop =>
      rw [not_operator_of_closesRange (hendless rfl)] at hcolon
      cases hcolon
  | stop hspelled => exact hspelled.upTo htokens

theorem readsStop_end (closed : Closed tokens) (fresh : Fresh ctx.nesting tokens)
    (h : closesRange (head tokens) = true) :
    ReadsStop ctx tokens (.symbol Expr.endName) tokens := by
  have hstrength := strength?_of_closesRange h
  have identifier : Token.isIdentifier Expr.endName = true := by decide
  refine ⟨⟨[], true, rfl, .noStop, fun _ => h⟩, .name identifier rfl,
    (by decide : 3 ≤ 17), ⟨fun strength h => ?_, fun hparen => ?_, fun _ hkind => ?_, fun _ => nofun, nofun⟩,
    closed, fresh⟩
  · rw [hstrength] at h
    cases h
  · rw [strength?_of_startsFactor (by simp [startsFactor, hparen])] at hstrength
    cases hstrength
  · simp [closesRange, Token.isDelimiter, hkind] at h

/-- The parts make a range, unless there is only one. -/
theorem ReadsParts.reads {parts : List Expr} {left : List Token} {e : Expr}
    (h : ReadsParts ctx tokens parts left)
    (hcolon : ((head left).isOperator ":" && !ctx.awaits) = false)
    (he : Gives (ofParts parts.reverse) left e rest) : Reads 2 ctx tokens e rest := by
  cases h with
  | noStart hcolon' awaits =>
      rw [hcolon', awaits] at hcolon
      cases hcolon
  | one h =>
      obtain ⟨rfl, rfl⟩ := gives_pure.1 he
      refine ⟨h.spelled, h.legible, Nat.le_trans (by decide) h.tight,
        ⟨fun strength hstrength => lt_two_of_strength hstrength (h.ends.weaker _ hstrength), h.ends.call,
          fun _ => h.ends.number (by decide), fun _ => h.ends.quotient (by decide), fun _ h' => ?_⟩,
        h.closed, h.fresh⟩
      rw [h', Bool.true_and, Bool.not_eq_false'] at hcolon
      exact ⟨hcolon, Expr.exposesColon_of_level h.tight⟩
  | two awaits hstart hcolon' hstop =>
      obtain ⟨rfl, rfl⟩ := gives_pure.1 he
      obtain ⟨⟨front, rfl, hspelled⟩, hlegible, hlevel⟩ := hstart
      obtain ⟨lines, hbetween, gap⟩ := exists_next ctx (kind_ne_of_isOperator (k := .stop) hcolon' (by decide))
      obtain ⟨front', endless, hnext, hspelled', hendless⟩ := hstop.spelled
      refine ⟨⟨_, endless, ?_, .range hspelled hcolon' gap hspelled', hendless⟩,
        .range hlegible hlevel hstop.legible hstop.tight, Nat.le_refl _,
        ⟨fun strength hstrength => lt_two_of_strength hstrength (hstop.ends.weaker _ hstrength),
          fun _ => rfl, fun _ => hstop.ends.number (by decide),
          fun _ => hstop.ends.quotient (by decide), fun _ h' => ?_⟩, hstop.closed, hstop.fresh⟩
      · rw [List.append_assoc, List.append_assoc, ← hnext, ← hbetween]
      · rw [h', awaits] at hcolon
        cases hcolon
  | three awaits hstart hcolon' hstep hcolon'' hstop =>
      obtain ⟨rfl, rfl⟩ := gives_pure.1 he
      obtain ⟨⟨front, rfl, hspelled⟩, hlegible, hlevel⟩ := hstart
      obtain ⟨lines, hbetween, gap⟩ := exists_next ctx (kind_ne_of_isOperator (k := .stop) hcolon' (by decide))
      obtain ⟨lines', hbetween', gap'⟩ := exists_next ctx (kind_ne_of_isOperator (k := .stop) hcolon'' (by decide))
      obtain ⟨step, hnext, hspelled'⟩ := hstep.operand (by decide)
      obtain ⟨stop, endless, hnext', hspelled'', hendless⟩ := hstop.spelled
      have hfollowed := followed_of_operator (isOperator_iff.1 hcolon'').1
      have legible := hstep.legible
      have tight := hstep.tight
      rw [hfollowed] at legible tight
      refine ⟨⟨_, endless, ?_, .steppedRange hspelled hcolon' gap hspelled' hcolon'' gap' hspelled'',
          hendless⟩, .steppedRange hlegible hlevel legible tight hstop.legible hstop.tight, Nat.le_refl _,
        ⟨fun strength hstrength => lt_two_of_strength hstrength (hstop.ends.weaker _ hstrength),
          fun _ => rfl, fun _ => hstop.ends.number (by decide),
          fun _ => hstop.ends.quotient (by decide), fun _ h' => ?_⟩, hstop.closed, hstop.fresh⟩
      · simp only [List.append_assoc]
        rw [← hnext', ← hbetween', ← hnext, ← hbetween]
      · rw [h', awaits] at hcolon
        cases hcolon

/-- What one turn of a range's loop reads. -/
def rangeTurn (p : Productions) (ctx : Context) (parts : List Expr) :
    Parser (ForInStep (List Expr)) := do
  if (← peek).isOperator ":" && !ctx.awaits then
    if parts.length = 3 then
      fail .tooManyRangeParts
    advance ctx
    if closesRange (← peek) then
      return .yield (.symbol Expr.endName :: parts)
    else
      return .yield ((← disjunction p ctx) :: parts)
  else
    return .done parts

theorem gives_rangeTurn {parts : List Expr} {s : ForInStep (List Expr)} :
    Gives (rangeTurn p ctx parts) tokens s rest ↔
      if ((head tokens).isOperator ":" && !ctx.awaits) = true then
        parts.length ≠ 3 ∧ ∃ stop, s = .yield (stop :: parts) ∧
          if closesRange (head (next ctx tokens)) = true then
            stop = .symbol Expr.endName ∧ next ctx tokens = rest
          else Gives (disjunction p ctx) (next ctx tokens) stop rest
      else s = .done parts ∧ tokens = rest := by
  unfold rangeTurn
  rw [gives_peek_bind]
  dsimp only
  split
  · split
    · simp_all
    · rename_i hlength
      rw [gives_advance_bind, gives_peek_bind, and_iff_right hlength]
      split
      · rw [gives_pure]
        constructor
        · rintro ⟨rfl, rfl⟩
          exact ⟨_, rfl, rfl, rfl⟩
        · rintro ⟨_, rfl, rfl, rfl⟩
          exact ⟨rfl, rfl⟩
      · rw [gives_bind]
        constructor
        · rintro ⟨stop, left, hstop, h⟩
          obtain ⟨rfl, rfl⟩ := gives_pure.1 h
          exact ⟨_, rfl, hstop⟩
        · rintro ⟨stop, rfl, hstop⟩
          exact ⟨_, _, hstop, gives_pure.2 ⟨rfl, rfl⟩⟩
  · rw [gives_pure, eq_comm]

theorem gives_range {e : Expr} : Gives (range p ctx) tokens e rest ↔ ∃ first left parts left',
    (if ((head tokens).isOperator ":" && !ctx.awaits) = true then
      first = .number "1" ∧ tokens = left else Gives (disjunction p ctx) tokens first left) ∧
    Gives (repeatedly [first] (rangeTurn p ctx)) left parts left' ∧
    Gives (ofParts parts.reverse) left' e rest := by
  have loop : ∀ first left, Gives (do
      let reversed ← repeatedly [first] (rangeTurn p ctx)
      ofParts reversed.reverse) left e rest ↔ ∃ parts left',
        Gives (repeatedly [first] (rangeTurn p ctx)) left parts left' ∧
        Gives (ofParts parts.reverse) left' e rest := fun _ _ => gives_bind
  unfold range
  rw [gives_peek_bind]
  dsimp only
  split
  · rw [gives_pure_bind]
    refine (loop _ _).trans ?_
    constructor
    · rintro ⟨parts, left', h⟩
      exact ⟨_, _, parts, left', ⟨rfl, rfl⟩, h⟩
    · rintro ⟨_, _, parts, left', ⟨rfl, rfl⟩, h⟩
      exact ⟨parts, left', h⟩
  · rw [gives_bind]
    constructor
    · rintro ⟨first, left, hfirst, h⟩
      obtain ⟨parts, left', h⟩ := (loop _ _).1 h
      exact ⟨first, left, parts, left', hfirst, h⟩
    · rintro ⟨first, left, parts, left', hfirst, h⟩
      exact ⟨first, left, hfirst, (loop _ _).2 ⟨parts, left', h⟩⟩

/-- A `:` and what follows it are a further part of a range. -/
theorem ReadsParts.turn (hp : p.Sound) {parts : List Expr} {left : List Token}
    {s : ForInStep (List Expr)} (ready : Ready tokens) (h : ReadsParts ctx tokens parts left)
    (hs : Gives (rangeTurn p ctx parts) left s rest) :
    match s with
    | .yield parts' => ReadsParts ctx tokens parts' rest ∧ rest.length < left.length
    | .done parts' => ReadsParts ctx tokens parts' rest ∧
        ((head rest).isOperator ":" && !ctx.awaits) = false := by
  rw [gives_rangeTurn] at hs
  split at hs
  · rename_i hcolon
    rw [Bool.and_eq_true, Bool.not_eq_true'] at hcolon
    obtain ⟨hcolon, awaits⟩ := hcolon
    obtain ⟨hlength, stop, rfl, hstop⟩ := hs
    obtain ⟨front, htokens⟩ := h.suffix
    have hkind := kind_ne_of_isOperator (k := .stop) hcolon (by decide)
    have ready' := (ready.rest htokens h.closed).next ctx hkind
    have read : ReadsStop ctx (next ctx left) stop rest ∧ rest.length ≤ (next ctx left).length := by
      split at hstop
      · rename_i hcloses
        obtain ⟨rfl, rfl⟩ := hstop
        exact ⟨readsStop_end ready'.1 fresh_next hcloses, Nat.le_refl _⟩
      · have read := disjunction_sound hp _ _ _ ready' hstop
        exact ⟨read.stop, Nat.le_of_lt read.length_lt⟩
    refine ⟨?_, Nat.lt_of_le_of_lt read.2 (length_next_lt ctx hkind)⟩
    cases h with
    | noStart hcolon' awaits' closed =>
        exact .two awaits ((ReadsParts.noStart hcolon' awaits' closed).start hcolon) hcolon read.1
    | one h => exact .two awaits ((ReadsParts.one h).start hcolon) hcolon read.1
    | two _ hstart hcolon' hstep => exact .three awaits hstart hcolon' (hstep.reads hcolon) hcolon read.1
    | three => exact absurd rfl hlength
  · rename_i hcolon
    obtain ⟨rfl, rfl⟩ := hs
    exact ⟨h, Bool.eq_false_iff.2 hcolon⟩

theorem range_sound (hp : p.Sound) : Sound 2 ctx (range p ctx) := by
  intro tokens e rest ready h
  obtain ⟨first, left, parts, left', hfirst, hloop, he⟩ := gives_range.1 h
  have start : ReadsParts ctx tokens [first] left := by
    split at hfirst
    · rename_i hcolon
      obtain ⟨rfl, rfl⟩ := hfirst
      rw [Bool.and_eq_true, Bool.not_eq_true'] at hcolon
      exact .noStart hcolon.1 hcolon.2 ready.1
    · exact .one (disjunction_sound hp _ _ _ ready hfirst)
  obtain ⟨hread, hcolon⟩ := gives_repeatedly (ReadsParts ctx tokens)
    (fun parts left => ReadsParts ctx tokens parts left ∧
      ((head left).isOperator ":" && !ctx.awaits) = false)
    (fun _ _ h => h.closed.ne_nil) (by
      intro parts left s left' h hs
      have turn := h.turn hp ready hs
      cases s <;> exact turn)
    start hloop
  exact hread.reads hcolon he

/-- Only a closing token ends an endless range. -/
theorem eq_false_of_closesRange {t : Token} {text : String} {endless : Bool}
    (ht : t.isOperator text = true) (h : endless = true → closesRange t = true) :
    endless = false := by
  rw [Bool.eq_false_iff]
  intro hendless
  rw [not_operator_of_closesRange (h hendless)] at ht
  cases ht

/-- A condition, a `?` and the branches make a conditional. -/
theorem ReadsTo.conditional {condition yes no : Expr} {between between' : List Token}
    (h : Reads 2 ctx tokens condition between) (hmark : (head between).isOperator "?" = true)
    (hyes : Reads 0 ctx.awaiting (nextLine ctx between) yes between')
    (hcolon : (head between').isOperator ":" = true)
    (hno : Reads 0 ctx.answered (nextLine ctx between') no rest) :
    Reads 1 ctx tokens (.conditional condition yes no) rest := by
  obtain ⟨lines, hbetween, gap⟩ :=
    exists_nextLine ctx (kind_ne_of_isOperator (k := .stop) hmark (by decide))
  obtain ⟨lines', hbetween', gap'⟩ :=
    exists_nextLine ctx (kind_ne_of_isOperator (k := .stop) hcolon (by decide))
  obtain ⟨front, endless, rfl, hspelled, hendless⟩ := h.spelled
  obtain ⟨front', endless', hnext, hspelled', hendless'⟩ := hyes.spelled
  obtain ⟨front'', endless'', hnext', hspelled'', hendless''⟩ := hno.spelled
  obtain rfl := eq_false_of_closesRange hmark hendless
  obtain rfl := eq_false_of_closesRange hcolon hendless'
  have hfollowed := followed_of_operator (isOperator_iff.1 hmark).1
  have hfollowed' := followed_of_operator (isOperator_iff.1 hcolon).1
  refine ⟨⟨_, endless'', ?_, .conditional hspelled hmark gap hspelled' hcolon gap' hspelled'',
    hendless''⟩, ?_, Nat.le_refl _, ⟨fun strength hstrength => ?_, fun _ => rfl,
      fun _ => hno.ends.number (by decide), fun _ => hno.ends.quotient (by decide), fun _ h' => ?_⟩,
    hno.closed, hno.fresh⟩
  · simp only [List.append_assoc]
    rw [← hnext', ← hbetween', ← hnext, ← hbetween]
  · exact .conditional (hfollowed ▸ h.legible) (hfollowed ▸ h.tight) (hfollowed' ▸ hyes.legible)
      (hyes.ends.colon (by decide) hcolon).2 hno.legible
  · have := hno.ends.weaker _ hstrength
    omega
  · exact absurd (hno.ends.colon (by decide) h').1 nofun

theorem conditional_sound (hp : p.Sound) : Sound 1 ctx (conditional p ctx) := by
  intro tokens e rest ready h
  unfold conditional at h
  obtain ⟨first, left, hfirst, h⟩ := gives_bind.1 h
  have start := range_sound hp _ _ _ ready hfirst
  refine gives_repeatedly
    (fun e left => Reads 2 ctx tokens e left ∨
      Reads 1 ctx tokens e left ∧ (head left).isOperator "?" = false)
    (Reads 1 ctx tokens) (fun _ _ h => h.elim (fun h => h.closed.ne_nil) fun h => h.1.closed.ne_nil)
    ?_ (.inl start) h
  intro e left s left' hread h
  rw [gives_peek_bind] at h
  split at h
  · rename_i hmark
    obtain hread | ⟨_, hmark'⟩ := hread
    · rw [gives_advanceLine_bind] at h
      obtain ⟨yes, left'', hyes, h⟩ := gives_bind.1 h
      rw [gives_peek_bind] at h
      split at h
      · rename_i hcolon
        rw [gives_advanceLine_bind] at h
        obtain ⟨no, left3, hno, h⟩ := gives_bind.1 h
        obtain ⟨rfl, rfl⟩ := gives_pure.1 h
        have hkind := kind_ne_of_isOperator (k := .stop) hmark (by decide)
        have hkind' := kind_ne_of_isOperator (k := .stop) hcolon (by decide)
        have ready' := (hread.ready ready).nextLine ctx hkind
        have readYes := hp.expression _ _ _ _ ready' hyes
        have readNo := hp.expression _ _ _ _ ((readYes.ready ready').nextLine ctx hkind') hno
        have read := hread.conditional hmark readYes hcolon readNo
        refine ⟨.inr ⟨read, ?_⟩, ?_⟩
        · rw [Bool.eq_false_iff]
          intro h
          obtain ⟨hoperator, htext⟩ := isOperator_iff.1 h
          have := readNo.ends.weaker 1 (by rw [strength?, hoperator, htext]; rfl)
          omega
        · exact Nat.lt_trans readNo.length_lt (Nat.lt_trans (length_nextLine_lt ctx hkind')
            (Nat.lt_trans readYes.length_lt (length_nextLine_lt ctx hkind)))
      · exact absurd h gives_fail_bind
    · rw [hmark] at hmark'
      cases hmark'
  · rename_i hmark
    obtain ⟨rfl, rfl⟩ := gives_pure.1 h
    obtain hread | ⟨hread, _⟩ := hread
    · refine ⟨hread.spelled, hread.legible, Nat.le_trans (by decide) hread.tight,
        ⟨fun strength hstrength => ?_, hread.ends.call, fun _ => hread.ends.number (by decide),
          fun _ => hread.ends.quotient (by decide), fun _ => hread.ends.colon (by decide)⟩,
        hread.closed, hread.fresh⟩
      have := hread.ends.weaker _ hstrength
      rcases strength?_eq_some hstrength with ⟨rfl, _⟩ | ⟨rfl, _⟩ | ⟨_, op, hop, rfl⟩ | ⟨_, h⟩ | ⟨rfl, _⟩
      · omega
      · omega
      · obtain ⟨_, hlevel⟩ | ⟨_, _, hlevel, _⟩ := Operator.level_of_binary hop <;> omega
      · exact absurd h hmark
      · decide
    · exact hread

/-- A target, a `=` and a value make an assignment. -/
theorem ReadsTo.assigned {target value : Expr} {e : Expr} {between : List Token}
    (h : Reads 1 ctx tokens target between) (hequals : (head between).isOperator "=" = true)
    (hvalue : Reads 0 ctx (nextLine ctx between) value rest) (he : assign target value = .ok e) :
    Reads 0 ctx tokens e rest := by
  obtain ⟨lines, hbetween, gap⟩ :=
    exists_nextLine ctx (kind_ne_of_isOperator (k := .stop) hequals (by decide))
  obtain ⟨front, endless, rfl, hspelled, hendless⟩ := h.spelled
  obtain ⟨front', endless', hnext, hspelled', hendless'⟩ := hvalue.spelled
  obtain rfl := eq_false_of_closesRange hequals hendless
  have hfollowed := followed_of_operator (isOperator_iff.1 hequals).1
  refine ⟨⟨_, endless', ?_, .assigned hspelled hequals gap hspelled' he, hendless'⟩,
    .assigned he (hfollowed ▸ h.legible) hvalue.legible, Nat.zero_le _,
    ⟨hvalue.ends.weaker, fun _ => ?_, fun _ => ?_, fun _ => ?_, fun _ => ?_⟩,
    hvalue.closed, hvalue.fresh⟩
  · rw [List.append_assoc, List.append_assoc, ← hnext, ← hbetween]
  · obtain ⟨_, _, rfl⟩ | ⟨_, _, _, rfl⟩ | ⟨_, _, _, rfl⟩ := Expr.assign_eq_ok he <;> rfl
  · rw [Expr.lastFactor_assigned he]
    exact hvalue.ends.number (by decide)
  · rw [Expr.lastFactor_assigned he]
    exact hvalue.ends.quotient (by decide)
  · rw [Expr.exposesColon_assigned he]
    exact hvalue.ends.colon (by decide)

theorem expression_sound (hp : p.Sound) : Sound 0 ctx (expression p ctx) := by
  intro tokens e rest ready h
  unfold expression at h
  obtain ⟨target, left, htarget, h⟩ := gives_bind.1 h
  have read := conditional_sound hp _ _ _ ready htarget
  rw [gives_peek_bind] at h
  split at h
  · rename_i hequals
    rw [gives_advanceLine_bind] at h
    obtain ⟨value, left', hvalue, h⟩ := gives_bind.1 h
    have hkind := kind_ne_of_isOperator (k := .stop) hequals (by decide)
    have readValue := hp.expression _ _ _ _ ((read.ready ready).nextLine ctx hkind) hvalue
    split at h
    · rename_i e' he
      obtain ⟨rfl, rfl⟩ := gives_pure.1 h
      exact read.assigned hequals readValue he
    · exact absurd h gives_throw
  · rename_i hequals
    obtain ⟨rfl, rfl⟩ := gives_pure.1 h
    refine ⟨read.spelled, read.legible, Nat.zero_le _,
      ⟨fun strength hstrength => ?_, read.ends.call, fun _ => read.ends.number (by decide),
        fun _ => read.ends.quotient (by decide), fun _ => read.ends.colon (by decide)⟩,
      read.closed, read.fresh⟩
    have := read.ends.weaker _ hstrength
    rcases strength?_eq_some hstrength with ⟨rfl, _⟩ | ⟨rfl, _⟩ | ⟨_, op, hop, rfl⟩ | ⟨rfl, _⟩ | ⟨_, h⟩
    · omega
    · omega
    · obtain ⟨_, hlevel⟩ | ⟨_, _, hlevel, _⟩ := Operator.level_of_binary hop <;> omega
    · omega
    · exact absurd h hequals

/-- Whatever the grammar reads is spelled by the tokens that it passes, is legible, and ends where the
grammar stops. -/
theorem productions_sound (n : Nat) : (productions n).Sound := by
  induction n with
  | zero =>
      constructor
      · exact fun ctx tokens e rest _ h => absurd h gives_fail
      · exact fun ctx tokens e rest _ h => absurd h gives_fail
  | succ n ih =>
      constructor
      · exact fun ctx => expression_sound ih
      · exact fun ctx => operand_sound ih

end Productions

end Formula.Grammar
