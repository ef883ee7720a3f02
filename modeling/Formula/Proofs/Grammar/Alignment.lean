import Formula.Proofs.Grammar.Running
import Mathlib.Data.List.Forall2

/-!
Reading tokens that differ in their positions only.

What a production reads does not depend on the positions of the tokens: from aligned tokens (`Aligned`)
it reads the same and leaves aligned tokens, or it fails with the same fault, at related positions
(`Steady`). Each way of putting productions together keeps this (`Corresponds`), and so all productions
of the grammar have it. The relation of the positions is a parameter.
-/

namespace Formula

/-- Whether two tokens are the same but for their positions. -/
def Token.IsAlike (t t' : Token) : Prop :=
  t.kind = t'.kind ∧ t.text = t'.text

namespace Grammar

open Reading (repeatedly iterate)

variable (Q : Nat → Nat → Prop)

/-- Whether two tokens are the same but for their positions, which are related. -/
structure Alike (t t' : Token) : Prop where
  kind : t.kind = t'.kind
  text : t.text = t'.text
  position : Q t.position t'.position

/-- Whether tokens with an end are the same one by one but for their positions, which are related. -/
structure Aligned (tokens tokens' : List Token) : Prop where
  alike : List.Forall₂ (Alike Q) tokens tokens'
  closed : Closed tokens

variable {α α' β β' : Type}

/-- Whether two productions come to the same: to related results in front of aligned tokens, or to the
same fault at related positions. -/
inductive Agrees (R : α → α' → Prop) :
    Except SyntaxError (α × List Token) → Except SyntaxError (α' × List Token) → Prop
  | ok {a : α} {a' : α'} {rest rest' : List Token} (related : R a a') (aligned : Aligned Q rest rest') :
      Agrees R (.ok (a, rest)) (.ok (a', rest'))
  | error {e e' : SyntaxError} (fault : e.fault = e'.fault) (position : Q e.position e'.position) :
      Agrees R (.error e) (.error e')

/-- Whether two productions come to the same from aligned tokens. -/
def Corresponds (R : α → α' → Prop) (P : Parser α) (P' : Parser α') : Prop :=
  ∀ tokens tokens', Aligned Q tokens tokens' → Agrees Q R (P tokens) (P' tokens')

/-- Whether a production comes to the same from all aligned tokens. -/
abbrev Steady (P : Parser α) : Prop :=
  Corresponds Q Eq P P

variable {Q}

/-! ### Aligned tokens -/

section Tokens

variable {t t' : Token} {tokens tokens' : List Token}

theorem Alike.startsFactor (h : Alike Q t t') : startsFactor t = startsFactor t' := by
  obtain ⟨kind, text, position⟩ := t
  obtain ⟨kind', text', position'⟩ := t'
  obtain ⟨rfl, rfl, _⟩ := h
  rfl

theorem Aligned.head (h : Aligned Q tokens tokens') : Alike Q (head tokens) (head tokens') := by
  obtain ⟨halike, hclosed⟩ := h
  cases halike with
  | nil => exact absurd rfl hclosed.ne_nil
  | cons ht _ => exact ht

theorem forall₂_dropLines (h : List.Forall₂ (Alike Q) tokens tokens') :
    List.Forall₂ (Alike Q) (dropLines tokens) (dropLines tokens') := by
  unfold dropLines
  induction h with
  | nil => exact .nil
  | cons ht htokens ih =>
      rw [List.dropWhile_cons, List.dropWhile_cons, ht.kind]
      split
      · exact ih
      · exact .cons ht htokens

theorem Aligned.next (h : Aligned Q tokens tokens') (ctx : Context) :
    Aligned Q (next ctx tokens) (next ctx tokens') := by
  refine ⟨?_, h.closed.next ctx⟩
  have passed : List.Forall₂ (Alike Q) (if (Grammar.head tokens).kind = .stop then tokens else tokens.tail)
      (if (Grammar.head tokens').kind = .stop then tokens' else tokens'.tail) := by
    rw [h.head.kind]
    split
    · exact h.alike
    · rw [← List.drop_one, ← List.drop_one]
      exact List.forall₂_drop 1 h.alike
  unfold Grammar.next
  dsimp only
  split
  · exact passed
  · exact forall₂_dropLines passed

theorem Aligned.nextLine (h : Aligned Q tokens tokens') (ctx : Context) :
    Aligned Q (nextLine ctx tokens) (nextLine ctx tokens') :=
  ⟨forall₂_dropLines (h.next ctx).alike, h.closed.nextLine ctx⟩

end Tokens

/-! ### Putting productions together -/

section Rules

variable {R : α → α' → Prop} {S : β → β' → Prop}

theorem Corresponds.pure {a : α} {a' : α'} (h : R a a') : Corresponds Q R (pure a) (pure a') :=
  fun _ _ aligned => .ok h aligned

theorem Corresponds.bind {P : Parser α} {P' : Parser α'} {f : α → Parser β} {f' : α' → Parser β'}
    (h : Corresponds Q R P P') (hf : ∀ a a', R a a' → Corresponds Q S (f a) (f' a')) :
    Corresponds Q S (P >>= f) (P' >>= f') := by
  intro tokens tokens' aligned
  have hrun := h tokens tokens' aligned
  show Agrees Q S (P tokens >>= fun p => f p.1 p.2) (P' tokens' >>= fun p => f' p.1 p.2)
  generalize P tokens = r at hrun ⊢
  generalize P' tokens' = r' at hrun ⊢
  cases hrun with
  | ok related aligned => exact hf _ _ related _ _ aligned
  | error fault position => exact .error fault position

/-- What follows can depend on what is read. -/
theorem Corresponds.after {P P' : Parser α} {f : α → Parser β} {f' : α → Parser β'}
    (h : Corresponds Q Eq P P') (hf : ∀ a, Corresponds Q S (f a) (f' a)) :
    Corresponds Q S (P >>= f) (P' >>= f') :=
  h.bind fun a _ ha => ha ▸ hf a

theorem Corresponds.ite {c : Prop} [Decidable c] {P P₁ : Parser α} {P' P₁' : Parser α'}
    (h : Corresponds Q R P P') (h₁ : Corresponds Q R P₁ P₁') :
    Corresponds Q R (if c then P else P₁) (if c then P' else P₁') := by
  split
  · exact h
  · exact h₁

theorem corresponds_get : Corresponds Q (Aligned Q) get get :=
  fun _ _ aligned => .ok aligned aligned

/-- What follows can depend on all of the first token but its position. -/
theorem Corresponds.peeked {f : Token → Parser β} {f' : Token → Parser β'}
    (h : ∀ kind text position position', Q position position' →
      Corresponds Q S (f ⟨kind, text, position⟩) (f' ⟨kind, text, position'⟩)) :
    Corresponds Q S (peek >>= f) (peek >>= f') := by
  intro tokens tokens' aligned
  have hhead := aligned.head
  show Agrees Q S (f (head tokens) tokens) (f' (head tokens') tokens')
  generalize head tokens = t at hhead
  generalize head tokens' = t' at hhead
  obtain ⟨kind, text, position⟩ := t
  obtain ⟨kind', text', position'⟩ := t'
  obtain ⟨rfl, rfl, hposition⟩ := hhead
  exact h _ _ _ _ hposition _ _ aligned

theorem corresponds_set {tokens tokens' : List Token} (h : Aligned Q tokens tokens') :
    Corresponds Q Eq (set tokens : Parser PUnit) (set tokens') :=
  fun _ _ _ => .ok rfl h

theorem steady_advance (ctx : Context) : Steady Q (advance ctx) :=
  fun _ _ aligned => .ok rfl (aligned.next ctx)

theorem steady_advanceLine (ctx : Context) : Steady Q (advanceLine ctx) :=
  fun _ _ aligned => .ok rfl (aligned.nextLine ctx)

theorem corresponds_fail (fault : SyntaxFault) : Corresponds Q R (fail fault) (fail fault) :=
  fun _ _ aligned => .error rfl aligned.head.position

/-- Nothing follows a failure. -/
theorem Corresponds.failed {fault : SyntaxFault} {f : α → Parser β} {f' : α' → Parser β'} :
    Corresponds Q S (fail fault >>= f) (fail fault >>= f') :=
  (corresponds_fail (R := fun _ _ => False) fault).bind fun _ _ h => h.elim

theorem steady_expectDelimiter (text : String) (fault : SyntaxFault) :
    Steady Q (expectDelimiter text fault) :=
  .peeked fun _ _ _ _ _ => .ite (.pure rfl) (corresponds_fail fault)

theorem steady_operatorIn (operators : List String) : Steady Q (operatorIn operators) :=
  .peeked fun _ _ _ _ _ => .pure rfl

theorem steady_binary (spelling : String) (left right : Expr) : Steady Q (binary spelling left right) := by
  unfold binary
  split
  · exact .pure rfl
  · exact corresponds_fail _

theorem steady_repeatedly {step : α → Parser (ForInStep α)} (h : ∀ a, Steady Q (step a)) (a : α) :
    Steady Q (repeatedly a step) := by
  have loop : ∀ {items items' : List Token}, List.Forall₂ (Alike Q) items items' → ∀ a,
      Corresponds Q Eq (iterate step items a) (iterate step items' a) := by
    intro items items' halike
    induction halike with
    | nil => exact fun a => .pure rfl
    | cons _ _ ih =>
        intro a
        refine (h a).after fun turn => ?_
        cases turn with
        | done b => exact .pure rfl
        | yield b => exact ih b
  exact corresponds_get.bind fun _ _ aligned => loop aligned.alike a

end Rules

/-! ### The grammar -/

section Productions

variable {p : Productions} {ctx : Context}

/-- Whether the productions that contain themselves are steady. -/
structure Productions.Steady (p : Productions) : Prop where
  expression : ∀ ctx, Grammar.Steady Q (p.expression ctx)
  operand : ∀ ctx, Grammar.Steady Q (p.operand ctx)

variable (hp : p.Steady (Q := Q))

include hp

theorem steady_items : Steady Q (items p ctx) := by
  unfold items
  refine (hp.expression ctx).after fun first => ?_
  refine (steady_repeatedly (fun es => ?_) _).after fun reversed => .pure rfl
  refine .peeked fun kind text position position' _ => .ite ?_ (.pure rfl)
  exact (steady_advance ctx).after fun _ => (hp.expression ctx).after fun e => .pure rfl

theorem steady_list (closing : String) : Steady Q (list p ctx closing) := by
  have close : ∀ es : List Expr, Steady Q (do
      expectDelimiter closing (.unclosed closing)
      advance ctx
      return es) :=
    fun es => (steady_expectDelimiter _ _).after fun _ => (steady_advance _).after fun _ => .pure rfl
  unfold list
  refine (steady_advance _).after fun _ => ?_
  refine .peeked fun kind text position position' _ => ?_
  exact .ite (.after (.pure rfl) close) (.after (steady_items hp) close)

theorem steady_accesses (e : Expr) : Steady Q (accesses p ctx e) := by
  unfold accesses
  refine steady_repeatedly (fun e => ?_) _
  refine .peeked fun kind text position position' _ => .ite ?_ (.ite ?_ (.ite ?_ (.pure rfl)))
  · have call : Steady Q (do return ForInStep.yield (Expr.call e (← list p ctx ")"))) :=
      (steady_list hp _).after fun _ => .pure rfl
    split
    · exact call
    · exact call
    · exact .pure rfl
  · exact (steady_list hp _).after fun _ => .pure rfl
  · refine (steady_advance _).after fun _ => ?_
    refine .peeked fun kind text position position' _ => .ite ?_ (corresponds_fail _)
    exact (steady_advance _).after fun _ => .pure rfl

theorem steady_parenthesis : Steady Q (parenthesis p ctx) := by
  unfold parenthesis
  refine (steady_advance _).after fun _ => ?_
  refine (hp.expression _).after fun e => ?_
  refine (steady_expectDelimiter _ _).after fun _ => ?_
  exact (steady_advance _).after fun _ => .pure rfl

omit hp in
theorem corresponds_ofRows {position position' : Nat} (h : Q position position')
    (rows : List (List Expr)) :
    Corresponds Q Eq (liftM (ofRows position rows)) (liftM (ofRows position' rows)) := by
  intro tokens tokens' aligned
  show Agrees Q Eq (ofRows position rows >>= fun e => pure (e, tokens))
    (ofRows position' rows >>= fun e => pure (e, tokens'))
  unfold ofRows
  split
  · exact .ok rfl aligned
  · dsimp only
    split
    · exact .error rfl h
    · exact .ok rfl aligned

theorem steady_matrix : Steady Q (matrix p ctx) := by
  unfold matrix
  refine (steady_advance _).after fun _ => ?_
  refine .peeked fun kind text position position' _ => .ite ?_ ?_
  · exact (steady_advance _).after fun _ => .pure rfl
  · refine (steady_items hp).after fun first => ?_
    refine (steady_repeatedly (fun rows => ?_) _).after fun reversed => ?_
    · refine .peeked fun kind text position position' _ => .ite ?_ (.pure rfl)
      exact (steady_advance _).after fun _ => (steady_items hp).after fun _ => .pure rfl
    · refine (steady_expectDelimiter _ _).after fun _ => ?_
      refine .peeked fun kind text position position' hposition => ?_
      exact (steady_advance _).after fun _ => corresponds_ofRows hposition _

theorem steady_object : Steady Q (object p ctx) := by
  have property : ∀ (key : String) (properties : Record Expr), Steady Q (do
      advance ctx.inside
      let properties := Record.set key (← p.expression ctx.inside) properties
      if (← peek).isDelimiter "," then
        advance ctx.inside
        return ForInStep.yield properties
      else
        return ForInStep.done properties) := by
    intro key properties
    refine (steady_advance _).after fun _ => (hp.expression _).after fun e => ?_
    refine .peeked fun kind text position position' _ => .ite ?_ (.pure rfl)
    exact (steady_advance _).after fun _ => .pure rfl
  unfold object
  refine (steady_advance _).after fun _ => ?_
  refine (steady_repeatedly (fun properties => ?_) _).after fun reversed => ?_
  · refine .peeked fun kind text position position' _ => .ite (.pure rfl) ?_
    have hkey : key? ⟨kind, text, position'⟩ = key? ⟨kind, text, position⟩ := rfl
    rw [hkey]
    cases key? ⟨kind, text, position⟩ with
    | error fault => exact corresponds_fail fault
    | ok key =>
        refine (steady_advance _).after fun _ => ?_
        exact .peeked fun kind text position position' _ => .ite (property key properties) .failed
  · refine (steady_expectDelimiter _ _).after fun _ => ?_
    exact (steady_advance _).after fun _ => .pure rfl

theorem steady_primary : Steady Q (primary p ctx) := by
  unfold primary
  refine .peeked fun kind text position position' _ => ?_
  cases kind with
  | number | identifier => exact (steady_advance _).after fun _ => .pure rfl
  | str =>
      dsimp only
      cases Text.unescape? text with
      | none => exact corresponds_fail _
      | some value => exact (steady_advance _).after fun _ => .pure rfl
  | operator =>
      refine .ite ?_ (.ite (corresponds_fail _) (corresponds_fail _))
      exact (steady_advance _).after fun _ => .pure rfl
  | delimiter =>
      refine .ite (steady_parenthesis hp) (.ite (steady_matrix hp) (.ite (steady_object hp) ?_))
      exact corresponds_fail _
  | unknown | stop | newline => exact corresponds_fail _

theorem steady_postfixed : Steady Q (postfixed p ctx) := by
  unfold postfixed
  refine (steady_primary hp).after fun e => (steady_accesses hp e).after fun e => ?_
  refine steady_repeatedly (fun e => ?_) _
  refine .peeked fun kind text position position' _ => ?_
  dsimp only
  cases if kind = .operator then Operator.trailing? text else none with
  | some op =>
      refine (steady_advance _).after fun _ => ?_
      exact (steady_accesses hp _).after fun _ => .pure rfl
  | none => exact .pure rfl

theorem steady_power : Steady Q (power p ctx) := by
  unfold power
  refine (steady_postfixed hp).after fun base => (steady_operatorIn _).after fun spelling => ?_
  cases spelling with
  | some spelling =>
      refine (steady_advanceLine _).after fun _ => ?_
      exact (hp.operand _).after fun e => steady_binary spelling base e
  | none => exact .pure rfl

theorem steady_operand : Steady Q (operand p ctx) := by
  unfold operand
  refine .ite .failed ?_
  refine .peeked fun kind text position position' _ => ?_
  dsimp only
  cases if kind = .operator then Operator.leading? text else none with
  | some op =>
      refine (steady_advanceLine _).after fun _ => ?_
      exact (hp.operand _).after fun _ => .pure rfl
  | none => exact steady_power hp

theorem steady_fraction : Steady Q (fraction p ctx) := by
  unfold fraction
  refine (steady_operand hp).after fun first => ?_
  refine (steady_repeatedly (fun s => ?_) _).after fun _ => .pure rfl
  refine corresponds_get.bind fun tokens tokens' aligned => ?_
  have denominator := aligned.nextLine ctx
  refine .peeked fun kind text position position' _ => ?_
  rw [denominator.head.kind, (denominator.nextLine ctx).head.startsFactor]
  refine .ite ?_ (.pure rfl)
  refine (corresponds_set denominator).after fun _ => (steady_operand hp).after fun last => ?_
  exact (steady_binary _ _ _).after fun _ => .pure rfl

theorem steady_juxtaposition : Steady Q (juxtaposition p ctx) := by
  unfold juxtaposition
  refine (steady_fraction hp).after fun first => ?_
  refine (steady_repeatedly (fun s => ?_) _).after fun _ => .pure rfl
  refine .peeked fun kind text position position' _ => .ite ?_ (.pure rfl)
  exact (steady_fraction hp).after fun _ => .pure rfl

omit hp in
theorem steady_leftGrouped {operand : Parser Expr} (h : Steady Q operand) (operators : List String) :
    Steady Q (leftGrouped ctx operators operand) := by
  unfold leftGrouped
  refine h.after fun first => steady_repeatedly (fun left => ?_) _
  refine (steady_operatorIn _).after fun spelling => ?_
  cases spelling with
  | some spelling =>
      refine (steady_advanceLine _).after fun _ => h.after fun e => ?_
      exact (steady_binary spelling left e).after fun _ => .pure rfl
  | none => exact .pure rfl

omit hp in
theorem steady_levels (operators : List (List String)) {operand : Parser Expr} (h : Steady Q operand) :
    Steady Q (levels ctx operators operand) := by
  unfold levels
  induction operators generalizing operand with
  | nil => exact h
  | cons level operators ih => exact ih (steady_leftGrouped h level)

omit hp in
theorem steady_ofComparisons (operands : List Expr) (spellings : List String) :
    Steady Q (ofComparisons operands spellings) := by
  unfold ofComparisons
  split
  · exact .pure rfl
  · exact steady_binary _ _ _
  · exact .pure rfl

theorem steady_chain : Steady Q (chain p ctx) := by
  have operand : Steady Q (levels ctx tightLevels (juxtaposition p ctx)) :=
    steady_levels _ (steady_juxtaposition hp)
  unfold chain
  refine operand.after fun first => ?_
  refine (steady_repeatedly (fun s => ?_) _).after fun s => steady_ofComparisons _ _
  refine (steady_operatorIn _).after fun spelling => ?_
  cases spelling with
  | some spelling => exact (steady_advanceLine _).after fun _ => operand.after fun _ => .pure rfl
  | none => exact .pure rfl

theorem steady_disjunction : Steady Q (disjunction p ctx) :=
  steady_levels _ (steady_chain hp)

omit hp in
theorem steady_ofParts (parts : List Expr) : Steady Q (ofParts parts) := by
  unfold ofParts
  split
  · exact .pure rfl
  · exact .pure rfl
  · exact .pure rfl
  · exact corresponds_fail _

theorem steady_range : Steady Q (range p ctx) := by
  have next : ∀ parts : List Expr, Steady Q (do
      advance ctx
      if closesRange (← peek) then
        return ForInStep.yield (Expr.symbol Expr.endName :: parts)
      else
        return ForInStep.yield ((← disjunction p ctx) :: parts)) := by
    intro parts
    refine (steady_advance _).after fun _ => ?_
    refine .peeked fun kind text position position' _ => .ite (.pure rfl) ?_
    exact (steady_disjunction hp).after fun _ => .pure rfl
  have more : ∀ first : Expr, Steady Q (do
      let reversed ← repeatedly [first] fun parts => do
        if (← peek).isOperator ":" && !ctx.awaits then
          if parts.length = 3 then
            fail .tooManyRangeParts
          advance ctx
          if closesRange (← peek) then
            return .yield (.symbol Expr.endName :: parts)
          else
            return .yield ((← disjunction p ctx) :: parts)
        else
          return .done parts
      ofParts reversed.reverse) := by
    intro first
    refine (steady_repeatedly (fun parts => ?_) _).after fun reversed => steady_ofParts _
    refine .peeked fun kind text position position' _ => .ite ?_ (.pure rfl)
    exact .ite .failed (next parts)
  unfold range
  refine .peeked fun kind text position position' _ => ?_
  exact .ite (.after (.pure rfl) more) (.after (steady_disjunction hp) more)

theorem steady_conditional : Steady Q (conditional p ctx) := by
  unfold conditional
  refine (steady_range hp).after fun first => steady_repeatedly (fun condition => ?_) _
  refine .peeked fun kind text position position' _ => .ite ?_ (.pure rfl)
  refine (steady_advanceLine _).after fun _ => (hp.expression _).after fun yes => ?_
  refine .peeked fun kind text position position' _ => .ite ?_ .failed
  exact (steady_advanceLine _).after fun _ => (hp.expression _).after fun no => .pure rfl

theorem steady_expression : Steady Q (expression p ctx) := by
  unfold expression
  refine (steady_conditional hp).after fun target => ?_
  refine .peeked fun kind text position position' hposition => .ite ?_ (.pure rfl)
  refine (steady_advanceLine _).after fun _ => (hp.expression _).after fun value => ?_
  cases assign target value with
  | ok e => exact .pure rfl
  | error fault => exact fun _ _ _ => .error rfl hposition

omit hp in
theorem steady_productions (n : Nat) : (productions n).Steady (Q := Q) := by
  induction n with
  | zero => exact ⟨fun _ => corresponds_fail _, fun _ => corresponds_fail _⟩
  | succ n ih => exact ⟨fun _ => steady_expression ih, fun _ => steady_operand ih⟩

theorem steady_statement : Steady Q (statement p) := by
  unfold statement
  refine .peeked fun kind text position position' _ => .ite (.pure rfl) ?_
  refine (hp.expression _).after fun body => ?_
  exact .peeked fun kind text position position' _ => .pure rfl

theorem steady_statements : Steady Q (statements p) := by
  unfold statements
  refine (steady_statement hp).after fun first => ?_
  refine .peeked fun kind text position position' _ => ?_
  have hseparates : separates ⟨kind, text, position'⟩ = separates ⟨kind, text, position⟩ := rfl
  rw [hseparates]
  refine (steady_repeatedly (fun entries => ?_) _).after fun reversed => ?_
  · refine .peeked fun kind text position position' _ => .ite ?_ (.pure rfl)
    exact (steady_advance _).after fun _ => (steady_statement hp).after fun _ => .pure rfl
  · split
    · exact .pure rfl
    · exact .pure rfl
    · exact .pure rfl

theorem steady_source : Steady Q (source p) := by
  unfold source
  refine (steady_statements hp).after fun e => ?_
  refine .peeked fun kind text position position' _ => ?_
  cases kind with
  | stop => exact .pure rfl
  | _ => exact corresponds_fail _

end Productions

/-- Aligned tokens are read as the same tree, or the same is wrong with them at related positions. -/
theorem ofTokens_aligned {tokens tokens' : List Token} (h : Aligned Q tokens tokens') :
    (∃ e, ofTokens tokens = .ok e ∧ ofTokens tokens' = .ok e) ∨
      ∃ fault position position', ofTokens tokens = .error ⟨fault, position⟩ ∧
        ofTokens tokens' = .error ⟨fault, position'⟩ ∧ Q position position' := by
  have run : ∀ tokens, ofTokens tokens
      = Prod.fst <$> source (productions tokens.length) tokens := fun _ => rfl
  have hrun := steady_source (steady_productions tokens.length) tokens tokens' h
  rw [run, run, ← h.alike.length_eq]
  generalize source (productions tokens.length) tokens = r at hrun ⊢
  generalize source (productions tokens.length) tokens' = r' at hrun ⊢
  cases hrun with
  | ok related aligned => exact .inl ⟨_, rfl, congrArg Except.ok related.symm⟩
  | @error e e' hfault hposition =>
      obtain ⟨fault, position⟩ := e
      obtain ⟨fault', position'⟩ := e'
      obtain rfl : fault = fault' := hfault
      exact .inr ⟨fault, position, position', rfl, rfl, hposition⟩

end Grammar

end Formula
