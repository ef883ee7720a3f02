import Formula.Proofs.Grammar.Running
import Formula.Proofs.Grammar.Spelling

/-!
Where an expression ends: what may follow it, so that nothing behind it belongs to it.

`Ends` says that the tokens behind an expression do not go on with it on a level of the grammar, and
`Reads` that tokens begin with an expression of that level which ends there.
-/

namespace Formula.Grammar

open Expr (Legible)

/-! ### Passing tokens -/

/-- Whether line ends in front are passed already, as they are in brackets. -/
def Fresh (nesting : Nat) (tokens : List Token) : Prop :=
  nesting ≠ 0 → (head tokens).kind ≠ .newline

theorem dropLines_append {lines rest : List Token} (h : Lines lines) :
    dropLines (lines ++ rest) = dropLines rest := by
  induction lines with
  | nil => rfl
  | cons t lines ih =>
      obtain ⟨ht, hlines⟩ := List.forall_mem_cons.1 h
      rw [List.cons_append, dropLines, List.dropWhile_cons_of_pos (by simp [ht])]
      exact ih hlines

theorem dropLines_eq_self {tokens : List Token} (h : (head tokens).kind ≠ .newline) :
    dropLines tokens = tokens := by
  cases tokens with
  | nil => rfl
  | cons t tokens => exact List.dropWhile_cons_of_neg (by simpa [head] using h)

theorem exists_dropLines (tokens : List Token) :
    ∃ lines, tokens = lines ++ dropLines tokens ∧ Lines lines :=
  ⟨tokens.takeWhile fun t => t.kind == .newline, (List.takeWhile_append_dropWhile).symm,
    fun t ht => by simpa using List.all_eq_true.1 List.all_takeWhile t ht⟩

theorem head_dropLines {tokens : List Token} : (head (dropLines tokens)).kind ≠ .newline := by
  induction tokens with
  | nil => simp [dropLines, head]
  | cons t tokens ih =>
      rw [dropLines, List.dropWhile_cons]
      split
      · exact ih
      · rename_i h
        simpa [head] using h

section Passing

variable {ctx : Context} {t : Token} {tokens lines rest : List Token}

theorem head_cons : head (t :: tokens) = t :=
  rfl

theorem eq_head_cons (h : (head tokens).kind ≠ .stop) : tokens = head tokens :: tokens.tail := by
  cases tokens with
  | nil => exact absurd rfl h
  | cons t tokens => rfl

/-- What passing a token passes. -/
theorem exists_next (ctx : Context) (h : (head tokens).kind ≠ .stop) :
    ∃ lines, tokens = head tokens :: lines ++ next ctx tokens ∧ Gap ctx.nesting lines := by
  rw [next, if_neg h]
  split
  · rename_i hnesting
    exact ⟨[], eq_head_cons h, nofun, fun _ => rfl⟩
  · rename_i hnesting
    obtain ⟨lines, htail, hlines⟩ := exists_dropLines tokens.tail
    refine ⟨lines, ?_, hlines, fun h => absurd h hnesting⟩
    rw [List.cons_append, ← htail]
    exact eq_head_cons h

theorem fresh_next : Fresh ctx.nesting (next ctx tokens) := by
  intro h
  unfold next
  dsimp only
  rw [if_neg h]
  exact head_dropLines

/-- What passing a token and the line ends after it passes. -/
theorem exists_nextLine (ctx : Context) (h : (head tokens).kind ≠ .stop) :
    ∃ lines, tokens = head tokens :: lines ++ nextLine ctx tokens ∧ Lines lines := by
  obtain ⟨lines, htokens, hlines, _⟩ := exists_next ctx h
  obtain ⟨lines', hnext, hlines'⟩ := exists_dropLines (next ctx tokens)
  refine ⟨lines ++ lines', ?_, ?_⟩
  · calc tokens = head tokens :: lines ++ next ctx tokens := htokens
      _ = head tokens :: lines ++ (lines' ++ nextLine ctx tokens) := by rw [nextLine, ← hnext]
      _ = head tokens :: (lines ++ lines') ++ nextLine ctx tokens := by simp
  · intro t ht
    rcases List.mem_append.1 ht with ht | ht
    · exact hlines t ht
    · exact hlines' t ht

theorem length_next_lt (ctx : Context) (h : (head tokens).kind ≠ .stop) :
    (next ctx tokens).length < tokens.length := by
  obtain ⟨lines, htokens, _⟩ := exists_next ctx h
  have := congrArg List.length htokens
  rw [List.length_append, List.length_cons] at this
  omega

theorem length_nextLine_lt (ctx : Context) (h : (head tokens).kind ≠ .stop) :
    (nextLine ctx tokens).length < tokens.length := by
  obtain ⟨lines, htokens, _⟩ := exists_nextLine ctx h
  have := congrArg List.length htokens
  rw [List.length_append, List.length_cons] at this
  omega

theorem next_cons (h : t.kind ≠ .stop) (gap : Gap ctx.nesting lines) (fresh : Fresh ctx.nesting rest) :
    next ctx (t :: lines ++ rest) = rest := by
  rw [next, List.cons_append, head_cons, if_neg h, List.tail_cons]
  split
  · rename_i hnesting
    rw [gap.2 hnesting, List.nil_append]
  · rename_i hnesting
    rw [dropLines_append gap.1]
    exact dropLines_eq_self (fresh hnesting)

theorem nextLine_cons (h : t.kind ≠ .stop) (gap : Lines lines)
    (fresh : (head rest).kind ≠ .newline) : nextLine ctx (t :: lines ++ rest) = rest := by
  rw [nextLine, next, List.cons_append, head_cons, if_neg h, List.tail_cons]
  split
  · rw [dropLines_append gap]
    exact dropLines_eq_self fresh
  · rw [dropLines_append gap, dropLines_eq_self head_dropLines]
    exact dropLines_eq_self fresh

theorem gap_succ {n : Nat} : Gap (n + 1) lines ↔ Lines lines :=
  ⟨fun h => h.1, fun h => ⟨h, nofun⟩⟩

theorem kind_ne_of_isDelimiter {text : String} {k : TokenKind} (h : t.isDelimiter text = true)
    (hk : k ≠ .delimiter) : t.kind ≠ k := by
  simp only [Token.isDelimiter, Bool.and_eq_true, beq_iff_eq] at h
  rw [h.1]
  exact hk.symm

theorem kind_ne_of_isOperator {text : String} {k : TokenKind} (h : t.isOperator text = true)
    (hk : k ≠ .operator) : t.kind ≠ k := by
  simp only [Token.isOperator, Bool.and_eq_true, beq_iff_eq] at h
  rw [h.1]
  exact hk.symm

theorem isOperator_iff {text : String} :
    t.isOperator text = true ↔ t.kind = .operator ∧ t.text = text := by
  simp [Token.isOperator]

theorem isDelimiter_iff {text : String} :
    t.isDelimiter text = true ↔ t.kind = .delimiter ∧ t.text = text := by
  simp [Token.isDelimiter]

end Passing

theorem closesRange_of_isDelimiter {t : Token} {text : String} (h : t.isDelimiter text = true) :
    closesRange t = (text == ")" || text == "]" || text == ",") := by
  obtain ⟨hkind, rfl⟩ := isDelimiter_iff.1 h
  have : (TokenKind.delimiter == TokenKind.stop) = false := rfl
  simp [closesRange, Token.isDelimiter, hkind, this]

/-! ### The ends of expressions -/

/-- Whether a factor follows, on this line or a later one. -/
def followed (tokens : List Token) : Bool :=
  startsFactor (head (dropLines tokens))

/-- The level of the grammar on which a token goes on with what is in front of it. Parentheses may
also be those of a call. -/
def strength? (t : Token) : Option Nat :=
  match t.kind with
  | .identifier => some 13
  | .delimiter =>
    if t.text = "(" then some 13 else if t.text = "[" ∨ t.text = "." then some 17 else none
  | .operator =>
    if (Operator.trailing? t.text).isSome then some 17
    else
      match Operator.binary? t.text with
      | some op => some op.level
      | none => if t.text = "?" then some 1 else if t.text = "=" then some 0 else none
  | _ => none

theorem strength?_of_binary {t : Token} {op : Operator} (ht : t.kind = .operator)
    (hop : Operator.binary? t.text = some op) : strength? t = some op.level := by
  simp only [strength?, ht, Operator.trailing?_of_binary hop, hop]
  rfl

/-- What the levels of the grammar go on with. -/
theorem strength?_eq_some {t : Token} {strength : Nat} (h : strength? t = some strength) :
    strength = 17 ∧ (t.isDelimiter "[" = true ∨ t.isDelimiter "." = true
      ∨ t.kind = .operator ∧ (Operator.trailing? t.text).isSome = true)
    ∨ strength = 13 ∧ startsFactor t = true
    ∨ t.kind = .operator ∧ (∃ op, Operator.binary? t.text = some op ∧ strength = op.level)
    ∨ strength = 1 ∧ t.isOperator "?" = true ∨ strength = 0 ∧ t.isOperator "=" = true := by
  unfold strength? at h
  split at h
  · rename_i hkind
    exact .inr (.inl ⟨(Option.some.inj h).symm, by simp [startsFactor, hkind]⟩)
  · rename_i hkind
    split at h
    · rename_i htext
      exact .inr (.inl ⟨(Option.some.inj h).symm, by simp [startsFactor, Token.isDelimiter, hkind, htext]⟩)
    · split at h
      · rename_i htext
        refine .inl ⟨(Option.some.inj h).symm, ?_⟩
        rcases htext with htext | htext
        · exact .inl (isDelimiter_iff.2 ⟨hkind, htext⟩)
        · exact .inr (.inl (isDelimiter_iff.2 ⟨hkind, htext⟩))
      · cases h
  · rename_i hkind
    split at h
    · rename_i hop
      exact .inl ⟨(Option.some.inj h).symm, .inr (.inr ⟨hkind, hop⟩)⟩
    · split at h
      · rename_i op hop
        exact .inr (.inr (.inl ⟨hkind, op, hop, (Option.some.inj h).symm⟩))
      · split at h
        · rename_i htext
          exact .inr (.inr (.inr (.inl ⟨(Option.some.inj h).symm, isOperator_iff.2 ⟨hkind, htext⟩⟩)))
        · split at h
          · rename_i htext
            exact .inr (.inr (.inr (.inr ⟨(Option.some.inj h).symm, isOperator_iff.2 ⟨hkind, htext⟩⟩)))
          · cases h
  · cases h

theorem le_or_le_of_strength? {t : Token} {strength : Nat} (h : strength? t = some strength) :
    strength ≤ 13 ∨ 16 ≤ strength := by
  rcases strength?_eq_some h with ⟨rfl, _⟩ | ⟨rfl, _⟩ | ⟨_, op, hop, rfl⟩ | ⟨rfl, _⟩ | ⟨rfl, _⟩
  · exact .inr (by decide)
  · exact .inl (by decide)
  · obtain ⟨_, hlevel⟩ | ⟨_, _, _, hlevel⟩ := Operator.level_of_binary hop <;> omega
  · exact .inl (by decide)
  · exact .inl (by decide)

/-- Whether tokens go on like a quotient by a number with a factor behind it. -/
def Divides (ctx : Context) (tokens : List Token) : Prop :=
  (head tokens).isOperator "/" = true ∧ (head (nextLine ctx tokens)).kind = .number ∧
    startsFactor (head (nextLine ctx (nextLine ctx tokens))) = true

/-- An expression that is read on a level of the grammar ends in front of tokens. -/
structure Ends (level : Nat) (ctx : Context) (e : Expr) (rest : List Token) : Prop where
  weaker : ∀ strength, strength? (head rest) = some strength → strength < level
  call : (head rest).isDelimiter "(" = true → e.endsCallable = false
  number : level ≤ 13 → (head rest).kind = .number → endsLikeNumber e.lastFactor = true
  quotient : level ≤ 14 → isNumeral e.lastFactor = true → ¬ Divides ctx rest
  colon : level ≤ 2 → (head rest).isOperator ":" = true → ctx.awaits = true ∧ e.exposesColon = false

/-- Above the juxtaposition of factors, numbers and ranges do not go on with an expression. -/
theorem Ends.of_factor {level : Nat} {ctx : Context} {e : Expr} {rest : List Token} (above : 13 < level)
    (weaker : ∀ strength, strength? (head rest) = some strength → strength < level)
    (call : (head rest).isDelimiter "(" = true → e.endsCallable = false)
    (quotient : level ≤ 14 → isNumeral e.lastFactor = true → ¬ Divides ctx rest) : Ends level ctx e rest :=
  ⟨weaker, call, fun h => by omega, quotient, fun h => by omega⟩

/-- Above products, only operators and calls go on with an expression. -/
theorem Ends.of_tight {level : Nat} {ctx : Context} {e : Expr} {rest : List Token} (above : 14 < level)
    (weaker : ∀ strength, strength? (head rest) = some strength → strength < level)
    (call : (head rest).isDelimiter "(" = true → e.endsCallable = false) : Ends level ctx e rest :=
  .of_factor (by omega) weaker call fun h => by omega

/-- Any token may follow what does not lack its end. -/
theorem Spells.upTo {n d : Nat} {tokens front rest : List Token} {e : Expr}
    (h : Spells n d front (.expression e false)) (htokens : tokens = front ++ rest) :
    ∃ front endless, tokens = front ++ rest ∧ Spells n d front (.expression e endless) ∧
      (endless = true → closesRange (head rest) = true) :=
  ⟨front, false, htokens, h, (absurd · Bool.false_ne_true)⟩

/-- Tokens begin with an expression that is as tight as a level of the grammar, and that ends there for
the levels from a limit on. -/
structure ReadsTo (level limit : Nat) (ctx : Context) (tokens : List Token) (e : Expr)
    (rest : List Token) : Prop where
  spelled : ∃ front endless, tokens = front ++ rest ∧
    Spells ctx.nesting ctx.depth front (.expression e endless) ∧
    (endless = true → closesRange (head rest) = true)
  legible : Legible (followed rest) e
  tight : level ≤ e.level (followed rest)
  ends : Ends limit ctx e rest
  closed : Closed rest
  fresh : Fresh ctx.nesting rest

/-- Tokens begin with an expression that is read on a level of the grammar. -/
abbrev Reads (level : Nat) : Context → List Token → Expr → List Token → Prop :=
  ReadsTo level level

end Formula.Grammar
