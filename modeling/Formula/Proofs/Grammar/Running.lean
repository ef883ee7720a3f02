import Formula.Grammar

/-!
What it means that a production reads something.

`Gives` says that a production succeeds, and with what. Each way of putting productions together has a
lemma that says what it gives; loops have an invariant (`gives_repeatedly`) and, the other way round,
are built from their steps (`Steps.gives`). A list of tokens is `Closed` if it has an end, which no
production passes, so that a loop never runs out of tokens.
-/

namespace Formula.Grammar

open Reading (repeatedly iterate)

variable {α β : Type}

/-- A production reads `a` from tokens and leaves the rest of them. -/
def Gives (P : Parser α) (tokens : List Token) (a : α) (rest : List Token) : Prop :=
  P tokens = .ok (a, rest)

/-- What a production gives is determined. -/
theorem Gives.unique {P : Parser α} {tokens rest rest' : List Token} {a a' : α}
    (h : Gives P tokens a rest) (h' : Gives P tokens a' rest') : a = a' ∧ rest = rest' := by
  have := h.symm.trans h'
  simpa using this

section Sequences

variable {P : Parser α} {f : α → Parser β} {tokens rest : List Token} {a : α} {b : β} {ctx : Context}

@[simp] theorem gives_pure {c : α} : Gives (pure c) tokens a rest ↔ c = a ∧ tokens = rest := by
  show Except.ok (c, tokens) = Except.ok (a, rest) ↔ _
  simp

theorem gives_bind :
    Gives (P >>= f) tokens b rest ↔ ∃ a left, Gives P tokens a left ∧ Gives (f a) left b rest := by
  show (P tokens >>= fun p => f p.1 p.2) = _ ↔ _
  unfold Gives
  rcases P tokens with fault | ⟨a, left⟩
  · simp [bind, Except.bind]
  · constructor
    · intro h
      exact ⟨a, left, rfl, h⟩
    · rintro ⟨_, _, ⟨rfl, rfl⟩, h⟩
      exact h

@[simp] theorem gives_throw {fault : SyntaxError} :
    ¬ Gives (throw fault : Parser α) tokens a rest :=
  nofun

@[simp] theorem gives_fail {fault : SyntaxFault} :
    ¬ Gives (fail fault : Parser α) tokens a rest :=
  nofun

@[simp] theorem gives_pure_bind {a : α} :
    Gives (pure a >>= f) tokens b rest ↔ Gives (f a) tokens b rest :=
  Iff.rfl

@[simp] theorem gives_fail_bind {fault : SyntaxFault} :
    ¬ Gives (fail fault >>= f) tokens b rest := by
  rw [gives_bind]
  rintro ⟨_, _, h, _⟩
  exact gives_fail h

@[simp] theorem gives_get_bind {f : List Token → Parser β} :
    Gives (get >>= f) tokens b rest ↔ Gives (f tokens) tokens b rest :=
  Iff.rfl

@[simp] theorem gives_set_bind {left : List Token} {f : PUnit → Parser β} :
    Gives (set left >>= f) tokens b rest ↔ Gives (f ⟨⟩) left b rest :=
  Iff.rfl

@[simp] theorem gives_peek_bind {f : Token → Parser β} :
    Gives (peek >>= f) tokens b rest ↔ Gives (f (head tokens)) tokens b rest :=
  Iff.rfl

@[simp] theorem gives_advance_bind {f : Unit → Parser β} :
    Gives (advance ctx >>= f) tokens b rest ↔ Gives (f ()) (next ctx tokens) b rest :=
  Iff.rfl

@[simp] theorem gives_advanceLine_bind {f : Unit → Parser β} :
    Gives (advanceLine ctx >>= f) tokens b rest ↔ Gives (f ()) (nextLine ctx tokens) b rest :=
  Iff.rfl

@[simp] theorem gives_expectDelimiter_bind {text : String} {fault : SyntaxFault}
    {f : Unit → Parser β} :
    Gives (expectDelimiter text fault >>= f) tokens b rest
      ↔ (head tokens).isDelimiter text = true ∧ Gives (f ()) tokens b rest := by
  unfold expectDelimiter
  rw [gives_bind]
  by_cases h : (head tokens).isDelimiter text
  · simp only [gives_peek_bind, h, if_true, gives_pure, true_and]
    constructor
    · rintro ⟨_, _, rfl, h⟩
      exact h
    · intro h
      exact ⟨(), tokens, rfl, h⟩
  · simp [h]

/-- The spelling of a token, if it is one of some operators. -/
def spellingIn? (operators : List String) (t : Token) : Option String :=
  if t.kind = .operator ∧ operators.contains t.text then some t.text else none

theorem spellingIn?_eq_some {operators : List String} {t : Token} {spelling : String}
    (h : spellingIn? operators t = some spelling) :
    t.kind = .operator ∧ operators.contains t.text = true ∧ t.text = spelling := by
  unfold spellingIn? at h
  split at h
  · exact ⟨‹_ ∧ _›.1, ‹_ ∧ _›.2, Option.some.inj h⟩
  · cases h

theorem spellingIn?_eq_none {operators : List String} {t : Token} :
    spellingIn? operators t = none ↔
      (t.kind = .operator → operators.contains t.text = false) := by
  unfold spellingIn?
  split <;> simp_all

@[simp] theorem gives_operatorIn_bind {operators : List String} {f : Option String → Parser β} :
    Gives (operatorIn operators >>= f) tokens b rest
      ↔ Gives (f (spellingIn? operators (head tokens))) tokens b rest :=
  Iff.rfl

/-- What a result that needs no tokens gives. -/
theorem gives_liftExcept {result : Except SyntaxError α} :
    Gives (liftM result : Parser α) tokens a rest ↔ result = .ok a ∧ rest = tokens := by
  show (result >>= fun a => pure (a, tokens)) = Except.ok (a, rest) ↔ _
  cases result <;> simp [bind, Except.bind, pure, Except.pure, eq_comm]

theorem gives_binary {spelling : String} {left right e : Expr} :
    Gives (binary spelling left right) tokens e rest ↔ ∃ op, Operator.binary? spelling = some op ∧
      .operation spelling op.name [left, right] false = e ∧ tokens = rest := by
  unfold binary
  cases Operator.binary? spelling with
  | some op => simp
  | none => simp

end Sequences

/-! ### Loops -/

section Loops

variable {step : α → Parser (ForInStep α)} {a b c : α} {tokens left rest : List Token}

/-- The step of a loop goes on. -/
abbrev Goes (step : α → Parser (ForInStep α)) (a : α) (tokens : List Token) (b : α)
    (left : List Token) : Prop :=
  Gives (step a) tokens (.yield b) left

/-- The step of a loop is the last one. -/
abbrev Stops (step : α → Parser (ForInStep α)) (a : α) (tokens : List Token) (b : α)
    (left : List Token) : Prop :=
  Gives (step a) tokens (.done b) left

theorem gives_iterate_cons {t : Token} {items : List Token} :
    Gives (iterate step (t :: items) a) tokens b rest ↔
      Stops step a tokens b rest ∨
        ∃ a' left, Goes step a tokens a' left ∧ Gives (iterate step items a') left b rest := by
  rw [iterate, gives_bind]
  constructor
  · rintro ⟨s, left, hs, h⟩
    cases s with
    | done c =>
        obtain ⟨rfl, rfl⟩ := gives_pure.1 h
        exact .inl hs
    | yield c => exact .inr ⟨c, left, hs, h⟩
  · rintro (h | ⟨a', left, hs, h⟩)
    · exact ⟨_, _, h, gives_pure.2 ⟨rfl, rfl⟩⟩
    · exact ⟨_, _, hs, h⟩

/-- What a loop gives, from an invariant of its steps; the invariant keeps a token in front of the
loop, and each step that goes on passes one. -/
theorem gives_repeatedly (Inv Post : α → List Token → Prop)
    (nonempty : ∀ a tokens, Inv a tokens → tokens ≠ [])
    (turn : ∀ a tokens s left, Inv a tokens → Gives (step a) tokens s left →
      match s with
      | .yield b => Inv b left ∧ left.length < tokens.length
      | .done b => Post b left)
    (start : Inv a tokens) (h : Gives (repeatedly a step) tokens b rest) : Post b rest := by
  have loop : ∀ (items : List Token) a tokens, tokens.length ≤ items.length → Inv a tokens →
      Gives (iterate step items a) tokens b rest → Post b rest := by
    intro items
    induction items with
    | nil =>
        intro a tokens hlength hinv _
        exact absurd (List.eq_nil_of_length_eq_zero (Nat.le_zero.1 hlength)) (nonempty _ _ hinv)
    | cons t items ih =>
        intro a tokens hlength hinv h
        rcases gives_iterate_cons.1 h with h | ⟨a', left, hs, h⟩
        · exact turn _ _ _ _ hinv h
        · obtain ⟨hinv', hlt⟩ := turn _ _ _ _ hinv hs
          rw [List.length_cons] at hlength
          exact ih a' left (by omega) hinv' h
  exact loop tokens a tokens (Nat.le_refl _) start h

/-- Steps of a loop, each of which passes a token. -/
inductive Steps (step : α → Parser (ForInStep α)) :
    α → List Token → α → List Token → Prop
  | refl (a : α) (tokens : List Token) : Steps step a tokens a tokens
  | head {a b c : α} {tokens left rest : List Token} (h : Goes step a tokens b left)
      (shorter : left.length < tokens.length) (more : Steps step b left c rest) :
      Steps step a tokens c rest

theorem Steps.length_le (h : Steps step a tokens b left) : left.length ≤ tokens.length := by
  induction h with
  | refl => exact Nat.le_refl _
  | head _ shorter _ ih => omega

theorem Steps.trans (h : Steps step a tokens b left) (h' : Steps step b left c rest) :
    Steps step a tokens c rest := by
  induction h with
  | refl => exact h'
  | head hs shorter _ ih => exact .head hs shorter (ih h')

theorem Steps.snoc (h : Steps step a tokens b left) (hs : Goes step b left c rest)
    (shorter : rest.length < left.length) : Steps step a tokens c rest :=
  h.trans (.head hs shorter (.refl _ _))

/-- A loop gives what its steps lead to when the last one stops. -/
theorem Steps.gives {d : α} (h : Steps step a tokens b left) (hs : Stops step b left d rest)
    (nonempty : left ≠ []) : Gives (repeatedly a step) tokens d rest := by
  have loop : ∀ items : List Token, tokens.length ≤ items.length →
      Gives (iterate step items a) tokens d rest := by
    induction h with
    | refl a tokens =>
        intro items hlength
        cases items with
        | nil => exact absurd (List.eq_nil_of_length_eq_zero (Nat.le_zero.1 hlength)) nonempty
        | cons t items => exact gives_iterate_cons.2 (.inl hs)
    | head hg shorter more ih =>
        intro items hlength
        cases items with
        | nil =>
            rw [List.length_nil] at hlength
            omega
        | cons t items =>
            rw [List.length_cons] at hlength
            exact gives_iterate_cons.2 (.inr ⟨_, _, hg, ih hs nonempty items (by omega)⟩)
  exact loop tokens (Nat.le_refl _)

end Loops

/-! ### Where tokens end -/

/-- A list of tokens with an end. -/
def Closed (tokens : List Token) : Prop :=
  ∃ t ∈ tokens, t.kind = .stop

theorem Closed.ne_nil {tokens : List Token} (h : Closed tokens) : tokens ≠ [] := by
  rintro rfl
  obtain ⟨t, ht, _⟩ := h
  cases ht

theorem Closed.dropLines {tokens : List Token} (h : Closed tokens) : Closed (dropLines tokens) := by
  obtain ⟨t, ht, hkind⟩ := h
  unfold Grammar.dropLines
  induction tokens with
  | nil => cases ht
  | cons u tokens ih =>
      rw [List.dropWhile_cons]
      split
      · rename_i hline
        rcases List.mem_cons.1 ht with rfl | ht
        · simp [hkind] at hline
        · exact ih ht
      · exact ⟨t, ht, hkind⟩

theorem Closed.next {tokens : List Token} (h : Closed tokens) (ctx : Context) :
    Closed (next ctx tokens) := by
  have passed : Closed (if (head tokens).kind = .stop then tokens else tokens.tail) := by
    split
    · exact h
    · rename_i hhead
      obtain ⟨t, ht, hkind⟩ := h
      cases tokens with
      | nil => cases ht
      | cons u tokens =>
          rcases List.mem_cons.1 ht with rfl | ht
          · exact absurd hkind hhead
          · exact ⟨t, ht, hkind⟩
  unfold Grammar.next
  dsimp only
  split
  · exact passed
  · exact passed.dropLines

theorem Closed.nextLine {tokens : List Token} (h : Closed tokens) (ctx : Context) :
    Closed (nextLine ctx tokens) :=
  (h.next ctx).dropLines

end Formula.Grammar
