import Formula.Proofs.Grammar.Levels

/-!
What productions read is spelled by the tokens that they pass, and legible.

Each production has a lemma that supposes of the productions that contain it only that they are
`Sound`; `productions_sound` ties the knot.
-/

namespace Formula.Grammar

open Expr (Legible)
open Reading (repeatedly)

/-- A list of tokens as they come out of a source. -/
def Ready (tokens : List Token) : Prop :=
  Closed tokens ∧ ∀ t ∈ tokens, t.Lexical

theorem Ready.rest {tokens front rest : List Token} (h : Ready tokens)
    (htokens : tokens = front ++ rest) (closed : Closed rest) : Ready rest :=
  ⟨closed, fun t ht => h.2 t (by rw [htokens]; exact List.mem_append_right _ ht)⟩

theorem Ready.next {tokens : List Token} (h : Ready tokens) (ctx : Context)
    (hhead : (head tokens).kind ≠ .stop) : Ready (next ctx tokens) := by
  obtain ⟨lines, htokens, _⟩ := exists_next ctx hhead
  exact h.rest htokens (h.1.next ctx)

theorem Ready.nextLine {tokens : List Token} (h : Ready tokens) (ctx : Context)
    (hhead : (head tokens).kind ≠ .stop) : Ready (nextLine ctx tokens) := by
  obtain ⟨lines, htokens, _⟩ := exists_nextLine ctx hhead
  exact h.rest htokens (h.1.nextLine ctx)

theorem Ready.head {tokens : List Token} (h : Ready tokens) : (head tokens).Lexical := by
  cases tokens with
  | nil => exact absurd rfl h.1.ne_nil
  | cons t tokens => exact h.2 t (List.mem_cons_self ..)

/-- A production reads expressions of a level only. -/
def Sound (level : Nat) (ctx : Context) (P : Parser Expr) : Prop :=
  ∀ tokens e rest, Ready tokens → Gives P tokens e rest → Reads level ctx tokens e rest

/-- The productions that contain themselves are sound. -/
structure Productions.Sound (p : Productions) : Prop where
  expression : ∀ ctx, Grammar.Sound 0 ctx (p.expression ctx)
  operand : ∀ ctx, Grammar.Sound 15 ctx (p.operand ctx)

section Reads

variable {level limit : Nat} {ctx : Context} {tokens rest : List Token} {e : Expr}

theorem ReadsTo.ready (h : ReadsTo level limit ctx tokens e rest) (ready : Ready tokens) : Ready rest := by
  obtain ⟨front, _, htokens, _⟩ := h.spelled
  exact ready.rest htokens h.closed

theorem strength?_of_startsFactor {t : Token} (h : startsFactor t = true) : strength? t = some 13 := by
  obtain ⟨kind, text, position⟩ := t
  cases kind <;> simp_all [startsFactor, strength?, Token.isDelimiter]

theorem followed_eq_of_head (h : (head rest).kind ≠ .newline) :
    followed rest = startsFactor (head rest) := by
  rw [followed, dropLines_eq_self h]

/-- No factor follows on the same line what is as loose as a product. -/
theorem Ends.followed (h : Ends level ctx e rest) (loose : level ≤ 13)
    (hline : (head rest).kind ≠ .newline) : followed rest = false := by
  rw [followed_eq_of_head hline, Bool.eq_false_iff]
  intro hfactor
  have := h.weaker _ (strength?_of_startsFactor hfactor)
  omega

theorem Ends.not_parenthesis (h : Ends level ctx e rest) (loose : level ≤ 13) :
    (head rest).isDelimiter "(" ≠ true := by
  intro hparen
  have := h.weaker _ (strength?_of_startsFactor (by simp [startsFactor, hparen]))
  omega

theorem ReadsTo.length_lt (h : ReadsTo level limit ctx tokens e rest) : rest.length < tokens.length := by
  obtain ⟨front, _, rfl, hspelled, _⟩ := h.spelled
  obtain ⟨t, tokens', rfl, _⟩ := hspelled.opens
  rw [List.length_append, List.length_cons]
  omega

/-- No factor follows, so none is needed to make the expression legible. -/
theorem ReadsTo.legible_false (h : ReadsTo level limit ctx tokens e rest)
    (hline : (head rest).kind ≠ .newline) (loose : limit ≤ 13) : Legible false e := by
  rw [← h.ends.followed loose hline]
  exact h.legible

/-- A range that goes on to the end is no operand. -/
theorem Spells.endless_eq_false {n d : Nat} {e : Expr} {endless : Bool}
    (h : Spells n d tokens (.expression e endless)) (level : 3 ≤ e.level false) : endless = false := by
  cases h with
  | range | steppedRange | conditional => simp [Expr.level] at level
  | assigned _ _ _ _ he => simp [Expr.level_assigned he] at level
  | _ => rfl

theorem ReadsTo.operand (h : ReadsTo level limit ctx tokens e rest) (tight : 3 ≤ level) :
    ∃ front, tokens = front ++ rest ∧ Spells ctx.nesting ctx.depth front (.expression e false) := by
  obtain ⟨front, endless, htokens, hspelled, _⟩ := h.spelled
  have := Expr.le_level (by decide) (Nat.le_trans tight h.tight) false
  exact ⟨front, htokens, hspelled.endless_eq_false this ▸ hspelled⟩

end Reads

/-! ### Lists that grow at their ends -/

section Lists

variable {n d : Nat} {front tokens lines : List Token} {t : Token} {g g' : Bool}

theorem Spells.items_concat {es : List Expr} {e : Expr} (h : Spells n d front (.items es g))
    (hcomma : t.isDelimiter "," = true) (gap : Gap n lines)
    (he : Spells n d tokens (.expression e g')) :
    Spells n d (front ++ t :: lines ++ tokens) (.items (es ++ [e]) g') := by
  induction es generalizing front with
  | nil => cases h
  | cons a es ih =>
      cases h with
      | item h => exact .items h hcomma gap (.item he)
      | items h hcomma' gap' more =>
          rw [List.append_assoc, List.append_assoc]
          refine .items h hcomma' gap' ?_
          rw [← List.append_assoc]
          exact ih more

theorem Spells.rows_concat {rows : List (List Expr)} {es : List Expr}
    (h : Spells n d front (.rows rows false)) (hsemicolon : t.isDelimiter ";" = true)
    (gap : Gap n lines) (hes : Spells n d tokens (.items es g)) :
    Spells n d (front ++ t :: lines ++ tokens) (.rows (rows ++ [es]) g) := by
  induction rows generalizing front with
  | nil => cases h
  | cons a rows ih =>
      cases h with
      | row h => exact .rows h hsemicolon gap (.row hes)
      | rows h hsemicolon' gap' more =>
          rw [List.append_assoc, List.append_assoc]
          refine .rows h hsemicolon' gap' ?_
          rw [← List.append_assoc]
          exact ih more

theorem Spells.chain_concat {spellings : List String} {operands : List Expr} {e : Expr}
    (h : Spells n d front (.chain spellings operands)) (ht : t.kind = .operator)
    (hspelling : comparisons.contains t.text = true) (gap : Lines lines)
    (he : Spells n d tokens (.expression e false)) :
    Spells n d (front ++ t :: lines ++ tokens) (.chain (spellings ++ [t.text]) (operands ++ [e])) := by
  induction spellings generalizing front operands with
  | nil =>
      cases h with
      | operand h => exact .comparing h ht hspelling gap (.operand he)
  | cons a spellings ih =>
      cases h with
      | comparing h ht' hspelling' gap' more =>
          rw [List.append_assoc, List.append_assoc]
          refine .comparing h ht' hspelling' gap' ?_
          rw [← List.append_assoc]
          exact ih more

end Lists

/-! ### Brackets and what follows them -/

/-- Tokens begin with expressions between commas, in brackets. -/
structure ReadsItems (ctx : Context) (tokens : List Token) (es : List Expr) (rest : List Token) :
    Prop where
  spelled : ∃ front endless, tokens = front ++ rest ∧
    Spells ctx.nesting ctx.depth front (.items es endless) ∧
    (endless = true → closesRange (head rest) = true)
  legible : ∀ e ∈ es, Legible false e
  nonempty : es ≠ []
  closed : Closed rest
  fresh : Fresh ctx.nesting rest

/-- Tokens begin with an expression that may go on with calls, indexes and postfix operators. -/
structure ReadsTight (ctx : Context) (tokens : List Token) (e : Expr) (rest : List Token) : Prop where
  spelled : ∃ front, tokens = front ++ rest ∧
    Spells ctx.nesting ctx.depth front (.expression e false)
  legible : Legible false e
  tight : 17 ≤ e.level false
  closed : Closed rest
  fresh : Fresh ctx.nesting rest

section Brackets

variable {p : Productions} (hp : p.Sound) {ctx : Context} {tokens rest : List Token}

include hp

theorem items_sound (inside : ctx.nesting ≠ 0) (ready : Ready tokens) {es : List Expr}
    (h : Gives (items p ctx) tokens es rest) : ReadsItems ctx tokens es rest := by
  unfold items at h
  obtain ⟨first, left, hfirst, h⟩ := gives_bind.1 h
  obtain ⟨reversed, left', hloop, h⟩ := gives_bind.1 h
  obtain ⟨rfl, rfl⟩ := gives_pure.1 h
  have read := hp.expression ctx _ _ _ ready hfirst
  have start : ReadsItems ctx tokens [first].reverse left := by
    obtain ⟨front, endless, htokens, hspelled, hendless⟩ := read.spelled
    refine ⟨⟨front, endless, htokens, .item hspelled, hendless⟩, ?_, nofun, read.closed, read.fresh⟩
    simpa using read.legible_false (read.fresh inside) (by decide)
  refine gives_repeatedly (fun es left => ReadsItems ctx tokens es.reverse left)
    (fun es left => ReadsItems ctx tokens es.reverse left) (fun _ _ h => h.closed.ne_nil) ?_ start
    hloop
  intro es left s left' hread h
  rw [gives_peek_bind] at h
  split at h
  · rename_i hcomma
    rw [gives_advance_bind] at h
    obtain ⟨e, left'', he, h⟩ := gives_bind.1 h
    obtain ⟨rfl, rfl⟩ := gives_pure.1 h
    obtain ⟨front, endless, rfl, hspelled, hendless⟩ := hread.spelled
    have hstop : (head left).kind ≠ .stop := kind_ne_of_isDelimiter hcomma (by decide)
    have ready' := ready.rest rfl hread.closed
    have read := hp.expression ctx _ _ _ (ready'.next ctx hstop) he
    obtain ⟨lines, hleft, gap⟩ := exists_next ctx hstop
    obtain ⟨front', endless', hnext, hspelled', hendless'⟩ := read.spelled
    refine ⟨⟨⟨front ++ head left :: lines ++ front', endless', ?_, ?_, hendless'⟩, ?_, by simp,
      read.closed, read.fresh⟩, ?_⟩
    · rw [List.append_assoc, List.append_assoc, ← hnext, ← hleft]
    · rw [List.reverse_cons]
      exact hspelled.items_concat hcomma gap hspelled'
    · intro a ha
      rw [List.reverse_cons, List.mem_append, List.mem_singleton] at ha
      rcases ha with ha | rfl
      · exact hread.legible a ha
      · exact read.legible_false (read.fresh inside) (by decide)
    · exact Nat.lt_trans read.length_lt (length_next_lt ctx hstop)
  · obtain ⟨rfl, rfl⟩ := gives_pure.1 h
    exact hread

omit hp in
theorem ReadsItems.length_lt {es : List Expr} (h : ReadsItems ctx tokens es rest) :
    rest.length < tokens.length := by
  obtain ⟨front, _, rfl, hspelled, _⟩ := h.spelled
  cases es with
  | nil => exact absurd rfl h.nonempty
  | cons e es =>
      obtain ⟨t, tokens', rfl, _⟩ := hspelled.opens
      rw [List.length_append, List.length_cons]
      omega

/-- Tokens begin with expressions between commas and brackets. -/
structure ReadsList (ctx : Context) (opening closing : String) (tokens : List Token) (es : List Expr)
    (rest : List Token) : Prop where
  spelled : ∃ front, tokens = front ++ rest ∧
    Spells ctx.nesting ctx.depth front (.list opening closing es)
  legible : ∀ e ∈ es, Legible false e
  closed : Closed rest
  fresh : Fresh ctx.nesting rest

theorem list_sound {opening closing : String} (ready : Ready tokens)
    (ho : (head tokens).isDelimiter opening = true) {es : List Expr}
    (h : Gives (list p ctx.deeper closing) tokens es rest) :
    ReadsList ctx opening closing tokens es rest := by
  have hstop : (head tokens).kind ≠ .stop := kind_ne_of_isDelimiter ho (by decide)
  obtain ⟨lines, htokens, gap⟩ := exists_next ctx.deeper.inside hstop
  unfold list at h
  rw [gives_advance_bind, gives_peek_bind] at h
  dsimp only at h
  split at h
  · rename_i hc
    rw [gives_pure_bind, gives_expectDelimiter_bind, gives_advance_bind, gives_pure] at h
    obtain ⟨_, rfl, rfl⟩ := h
    have hstop' := kind_ne_of_isDelimiter (k := .stop) hc (by decide)
    obtain ⟨lines', hleft, gap'⟩ := exists_next ctx.deeper hstop'
    refine ⟨⟨_, ?_, .emptyList ho gap.1 hc gap'⟩, by simp, (ready.next _ hstop).1.next _, fresh_next⟩
    rw [List.append_assoc, ← hleft]
    exact htokens
  · obtain ⟨es', left, hes, h⟩ := gives_bind.1 h
    rw [gives_expectDelimiter_bind, gives_advance_bind, gives_pure] at h
    obtain ⟨hc, rfl, rfl⟩ := h
    have hstop' := kind_ne_of_isDelimiter (k := .stop) hc (by decide)
    obtain ⟨lines', hleft, gap'⟩ := exists_next ctx.deeper hstop'
    have read := items_sound hp (Nat.succ_ne_zero _) (ready.next ctx.deeper.inside hstop) hes
    obtain ⟨front, endless, hfront, hspelled, _⟩ := read.spelled
    refine ⟨⟨_, ?_, .list ho gap.1 hspelled hc gap'⟩, read.legible, read.closed.next _, fresh_next⟩
    rw [List.append_assoc, ← hleft, List.append_assoc, ← hfront]
    exact htokens

omit hp in
theorem ReadsList.length_lt {opening closing : String} {es : List Expr}
    (h : ReadsList ctx opening closing tokens es rest) : rest.length < tokens.length := by
  obtain ⟨front, rfl, hspelled⟩ := h.spelled
  cases hspelled <;> simp <;> omega

/-- What may follow an expression and its calls and indexes. -/
structure EndsAccesses (e : Expr) (t : Token) : Prop where
  call : t.isDelimiter "(" = true → e.endsCallable = false
  index : t.isDelimiter "[" = false
  property : t.isDelimiter "." = false

theorem accesses_sound (ready : Ready tokens) {e e' : Expr} {left : List Token}
    (hread : ReadsTight ctx tokens e left) (h : Gives (accesses p ctx.deeper e) left e' rest) :
    (ReadsTight ctx tokens e' rest ∧ EndsAccesses e' (head rest)) ∧ rest.length ≤ left.length := by
  unfold accesses at h
  refine gives_repeatedly (fun e rest => ReadsTight ctx tokens e rest ∧ rest.length ≤ left.length)
    (fun e rest => (ReadsTight ctx tokens e rest ∧ EndsAccesses e (head rest)) ∧
      rest.length ≤ left.length)
    (fun _ _ h => h.1.closed.ne_nil) ?_ ⟨hread, Nat.le_refl _⟩ h
  clear hread h
  rintro e left s left' ⟨hread, hle⟩ h
  obtain ⟨front, rfl, hspelled⟩ := hread.spelled
  have ready' := ready.rest rfl hread.closed
  have called : ∀ {es left'} (hcallable : e.form = .symbol ∨ e.form = .access),
      ReadsList ctx "(" ")" left es left' → ReadsTight ctx (front ++ left) (.call e es) left' := by
    intro es left' hcallable read
    obtain ⟨front', rfl, hspelled'⟩ := read.spelled
    exact ⟨⟨front ++ front', by simp, .call hspelled hcallable hspelled'⟩,
      .call hread.legible hcallable read.legible, Nat.le_refl _, read.closed, read.fresh⟩
  rw [gives_peek_bind] at h
  split at h
  · rename_i hparen
    split at h
    · rename_i hform
      obtain ⟨es, left'', hes, h⟩ := gives_bind.1 h
      obtain ⟨rfl, rfl⟩ := gives_pure.1 h
      have read := list_sound hp ready' hparen hes
      exact ⟨⟨called (.inl hform) read, Nat.le_trans (Nat.le_of_lt read.length_lt) hle⟩, read.length_lt⟩
    · rename_i hform
      obtain ⟨es, left'', hes, h⟩ := gives_bind.1 h
      obtain ⟨rfl, rfl⟩ := gives_pure.1 h
      have read := list_sound hp ready' hparen hes
      exact ⟨⟨called (.inr hform) read, Nat.le_trans (Nat.le_of_lt read.length_lt) hle⟩, read.length_lt⟩
    · rename_i hsymbol haccess
      obtain ⟨rfl, rfl⟩ := gives_pure.1 h
      have hkind := (isDelimiter_iff.1 hparen).2
      exact ⟨⟨hread, fun _ => hread.legible.endsCallable_eq_false hread.tight hsymbol haccess,
        by simp [Token.isDelimiter, hkind], by simp [Token.isDelimiter, hkind]⟩, hle⟩
  · rename_i hparen
    split at h
    · rename_i hindex
      obtain ⟨es, left'', hes, h⟩ := gives_bind.1 h
      obtain ⟨rfl, rfl⟩ := gives_pure.1 h
      have read := list_sound hp ready' hindex hes
      refine ⟨⟨?_, Nat.le_trans (Nat.le_of_lt read.length_lt) hle⟩, read.length_lt⟩
      obtain ⟨front', rfl, hspelled'⟩ := read.spelled
      exact ⟨⟨front ++ front', by simp, .index hspelled hspelled'⟩,
        .index hread.legible hread.tight read.legible, Nat.le_refl _, read.closed, read.fresh⟩
    · rename_i hindex
      split at h
      · rename_i hdot
        have hstop := kind_ne_of_isDelimiter (k := .stop) hdot (by decide)
        obtain ⟨lines, hleft, gap⟩ := exists_next ctx.deeper hstop
        rw [gives_advance_bind, gives_peek_bind] at h
        split at h
        · rename_i hname
          rw [gives_advance_bind] at h
          obtain ⟨rfl, rfl⟩ := gives_pure.1 h
          have hstop' : (head (next ctx.deeper left)).kind ≠ .stop := by simp [hname]
          obtain ⟨lines', hleft', gap'⟩ := exists_next ctx.deeper hstop'
          have ready'' := ready'.next ctx.deeper hstop
          have shorter := Nat.lt_trans (length_next_lt ctx.deeper hstop') (length_next_lt _ hstop)
          refine ⟨⟨⟨⟨_, ?_, .property hspelled hdot gap hname gap'⟩,
            .property hread.legible hread.tight (ready''.head.2 hname), Nat.le_refl _,
            ready''.1.next _, fresh_next⟩, Nat.le_trans (Nat.le_of_lt shorter) hle⟩, shorter⟩
          rw [List.append_assoc, List.append_assoc, ← hleft', ← hleft]
        · exact absurd h gives_fail
      · rename_i hdot
        obtain ⟨rfl, rfl⟩ := gives_pure.1 h
        exact ⟨⟨hread, fun h => absurd h hparen, by simpa using hindex, by simpa using hdot⟩, hle⟩

theorem parenthesis_sound (deep : ctx.depth < maxDepth) (ready : Ready tokens)
    (ho : (head tokens).isDelimiter "(" = true) {e : Expr}
    (h : Gives (parenthesis p ctx.deeper) tokens e rest) : ReadsTight ctx tokens e rest := by
  have hstop := kind_ne_of_isDelimiter (k := .stop) ho (by decide)
  obtain ⟨lines, htokens, gap⟩ := exists_next ctx.deeper.inside hstop
  unfold parenthesis at h
  rw [gives_advance_bind] at h
  obtain ⟨content, left, hcontent, h⟩ := gives_bind.1 h
  rw [gives_expectDelimiter_bind, gives_advance_bind, gives_pure] at h
  obtain ⟨hc, rfl, rfl⟩ := h
  have hstop' := kind_ne_of_isDelimiter (k := .stop) hc (by decide)
  obtain ⟨lines', hleft, gap'⟩ := exists_next ctx.deeper hstop'
  have read := hp.expression _ _ _ _ (ready.next ctx.deeper.inside hstop) hcontent
  obtain ⟨front, endless, hfront, hspelled, _⟩ := read.spelled
  have hline := kind_ne_of_isDelimiter (k := .newline) hc (by decide)
  refine ⟨⟨_, ?_, .parenthesis deep ho gap.1 hspelled hc gap'⟩,
    .parenthesis (read.legible_false hline (by decide)), Nat.le_refl _, read.closed.next _,
    fresh_next⟩
  rw [List.append_assoc, ← hleft, List.append_assoc, ← hfront]
  exact htokens

/-- Tokens begin with rows of a matrix. -/
structure ReadsRows (ctx : Context) (tokens : List Token) (rows : List (List Expr))
    (rest : List Token) : Prop where
  spelled : ∃ front endless, tokens = front ++ rest ∧
    Spells ctx.nesting ctx.depth front (.rows rows endless) ∧
    (endless = true → closesRange (head rest) = true)
  legible : ∀ row ∈ rows, ∀ e ∈ row, Legible false e
  closed : Closed rest
  fresh : Fresh ctx.nesting rest

theorem matrix_sound (deep : ctx.depth < maxDepth) (ready : Ready tokens)
    (ho : (head tokens).isDelimiter "[" = true) {e : Expr}
    (h : Gives (matrix p ctx.deeper) tokens e rest) : ReadsTight ctx tokens e rest := by
  have hstop := kind_ne_of_isDelimiter (k := .stop) ho (by decide)
  obtain ⟨lines, htokens, gap⟩ := exists_next ctx.deeper.inside hstop
  have ready' := ready.next ctx.deeper.inside hstop
  unfold matrix at h
  rw [gives_advance_bind, gives_peek_bind] at h
  dsimp only at h
  split at h
  · rename_i hc
    rw [gives_advance_bind, gives_pure] at h
    obtain ⟨rfl, rfl⟩ := h
    have hstop' := kind_ne_of_isDelimiter (k := .stop) hc (by decide)
    obtain ⟨lines', hleft, gap'⟩ := exists_next ctx.deeper hstop'
    refine ⟨⟨_, ?_, .emptyArray deep ho gap.1 hc gap'⟩, .array (by simp), Nat.le_refl _,
      ready'.1.next _, fresh_next⟩
    rw [List.append_assoc, ← hleft]
    exact htokens
  · obtain ⟨first, left, hfirst, h⟩ := gives_bind.1 h
    obtain ⟨reversed, left', hloop, h⟩ := gives_bind.1 h
    have start : ReadsRows ctx.deeper.inside (next ctx.deeper.inside tokens) [first].reverse left := by
      have read := items_sound hp (Nat.succ_ne_zero _) ready' hfirst
      obtain ⟨front, endless, hfront, hspelled, hendless⟩ := read.spelled
      exact ⟨⟨front, endless, hfront, .row hspelled, hendless⟩, by simpa using read.legible,
        read.closed, read.fresh⟩
    have read : ReadsRows ctx.deeper.inside (next ctx.deeper.inside tokens) reversed.reverse left' := by
      refine gives_repeatedly
        (fun rows => ReadsRows ctx.deeper.inside (next ctx.deeper.inside tokens) rows.reverse)
        (fun rows => ReadsRows ctx.deeper.inside (next ctx.deeper.inside tokens) rows.reverse)
        (fun _ _ h => h.closed.ne_nil) ?_ start hloop
      intro rows left s left' hread h
      rw [gives_peek_bind] at h
      split at h
      · rename_i hsemicolon
        rw [gives_advance_bind] at h
        obtain ⟨es, left'', hes, h⟩ := gives_bind.1 h
        obtain ⟨rfl, rfl⟩ := gives_pure.1 h
        obtain ⟨front, endless, hfront, hspelled, hendless⟩ := hread.spelled
        have hstop := kind_ne_of_isDelimiter (k := .stop) hsemicolon (by decide)
        have ready'' := ready'.rest hfront hread.closed
        have read := items_sound hp (Nat.succ_ne_zero _) (ready''.next _ hstop) hes
        obtain ⟨lines, hleft, gap⟩ := exists_next ctx.deeper.inside hstop
        obtain ⟨front', endless', hnext, hspelled', hendless'⟩ := read.spelled
        obtain rfl : endless = false := by
          rw [Bool.eq_false_iff]
          intro h
          have := hendless h
          rw [closesRange_of_isDelimiter hsemicolon] at this
          exact absurd this (by decide)
        refine ⟨⟨⟨front ++ head left :: lines ++ front', endless', ?_, ?_, hendless'⟩, ?_,
          read.closed, read.fresh⟩, ?_⟩
        · rw [List.append_assoc, List.append_assoc, ← hnext, ← hleft, hfront]
        · rw [List.reverse_cons]
          exact hspelled.rows_concat hsemicolon gap hspelled'
        · intro a ha
          rw [List.reverse_cons, List.mem_append, List.mem_singleton] at ha
          rcases ha with ha | rfl
          · exact hread.legible a ha
          · exact read.legible
        · exact Nat.lt_trans read.length_lt (length_next_lt _ hstop)
      · obtain ⟨rfl, rfl⟩ := gives_pure.1 h
        exact hread
    obtain ⟨front, endless, hfront, hspelled, _⟩ := read.spelled
    rw [gives_expectDelimiter_bind, gives_peek_bind] at h
    obtain ⟨hc, h⟩ := h
    rw [gives_advance_bind, gives_liftExcept] at h
    obtain ⟨he, rfl⟩ := h
    have hstop' := kind_ne_of_isDelimiter (k := .stop) hc (by decide)
    obtain ⟨lines', hleft, gap'⟩ := exists_next ctx.deeper hstop'
    obtain ⟨es, rfl⟩ := ofRows_eq_ok he
    refine ⟨⟨_, ?_, .array deep ho gap.1 hspelled (ofRows_eq_ok_iff he) hc gap'⟩,
      legible_ofRows read.legible he, Nat.le_refl _, read.closed.next _, fresh_next⟩
    rw [List.append_assoc, ← hleft, List.append_assoc, ← hfront]
    exact htokens

/-- Tokens begin with properties, of which the record is made. -/
structure ReadsProperties (ctx : Context) (tokens : List Token) (record : Record Expr)
    (rest : List Token) : Prop where
  spelled : ∃ front properties, tokens = front ++ rest ∧ record = Record.ofList properties ∧
    Spells ctx.nesting ctx.depth front (.properties properties)
  legible : ∀ p ∈ record, Legible false p.2
  closed : Closed rest
  fresh : Fresh ctx.nesting rest

/-- Tokens begin with properties, each with its comma, of which the record is made. -/
structure ReadsMembers (ctx : Context) (tokens : List Token) (record : Record Expr)
    (rest : List Token) : Prop where
  spelled : ∃ front members, tokens = front ++ rest ∧ record = Record.ofList members ∧
    ∀ {more properties}, Spells ctx.nesting ctx.depth more (.properties properties) →
      Spells ctx.nesting ctx.depth (front ++ more) (.properties (members ++ properties))
  legible : ∀ p ∈ record, Legible false p.2
  closed : Closed rest
  fresh : Fresh ctx.nesting rest

theorem properties_sound (ready : Ready tokens) (fresh : Fresh ctx.inside.nesting tokens)
    {record : Record Expr}
    (h : Gives (repeatedly ([] : Record Expr) fun properties => do
      let t ← peek
      if t.isDelimiter "\x7d" then
        return .done properties
      match key? t with
      | .error fault => fail fault
      | .ok key =>
        advance ctx.inside
        unless (← peek).isOperator ":" do
          fail .colonExpected
        advance ctx.inside
        let properties := Record.set key (← p.expression ctx.inside) properties
        if (← peek).isDelimiter "," then
          advance ctx.inside
          return .yield properties
        else
          return .done properties) tokens record rest) (hrest : (head rest).isDelimiter "\x7d" = true) :
    ReadsProperties ctx.inside tokens record rest := by
  have start : ReadsMembers ctx.inside tokens [] tokens :=
    ⟨⟨[], [], rfl, rfl, fun h => h⟩, by simp, ready.1, fresh⟩
  refine gives_repeatedly (ReadsMembers ctx.inside tokens)
    (fun record rest => (head rest).isDelimiter "\x7d" = true →
      ReadsProperties ctx.inside tokens record rest)
    (fun _ _ h => h.closed.ne_nil) ?_ start h hrest
  intro record left s left' hread h
  obtain ⟨front, members, htokens, rfl, hspelled⟩ := hread.spelled
  have ready' := ready.rest htokens hread.closed
  rw [gives_peek_bind] at h
  dsimp only at h
  split at h
  · obtain ⟨rfl, rfl⟩ := gives_pure.1 h
    refine fun _ => ⟨⟨front, members, htokens, rfl, ?_⟩, hread.legible, hread.closed, hread.fresh⟩
    simpa using hspelled .noProperties
  · split at h
    · exact absurd h gives_fail
    · rename_i key hkey
      have hstop := kind_ne_stop_of_key? hkey
      obtain ⟨lines, hleft, gap⟩ := exists_next ctx.inside hstop
      rw [gives_advance_bind, gives_peek_bind] at h
      split at h
      · rename_i hcolon
        have hstop' := kind_ne_of_isOperator (k := .stop) hcolon (by decide)
        obtain ⟨lines', hleft', gap'⟩ := exists_next ctx.inside hstop'
        rw [gives_advance_bind] at h
        obtain ⟨value, left'', hvalue, h⟩ := gives_bind.1 h
        rw [gives_peek_bind] at h
        have read := hp.expression _ _ _ _ ((ready'.next _ hstop).next _ hstop') hvalue
        obtain ⟨front', endless, hnext, hspelled', hendless⟩ := read.spelled
        have legible := read.legible_false (read.fresh (Nat.succ_ne_zero _)) (by decide)
        have legible' : ∀ p ∈ Record.set key value (Record.ofList members), Legible false p.2 := by
          intro p hp
          rcases mem_or_of_mem_set hp with hp | hp
          · exact hread.legible p hp
          · exact hp ▸ legible
        have shorter : left''.length < left.length := Nat.lt_trans read.length_lt
          (Nat.lt_trans (length_next_lt _ hstop') (length_next_lt _ hstop))
        have hfront : tokens = front ++ (head left :: lines
            ++ head (next ctx.inside left) :: lines' ++ front') ++ left'' := by
          rw [List.append_assoc, List.append_assoc, List.append_assoc, ← hnext, ← hleft', ← hleft]
          exact htokens
        have hrecord : Record.set key value (Record.ofList members)
            = Record.ofList (members ++ [(key, value)]) := by
          rw [Record.ofList, Record.ofList, List.foldl_append]
          rfl
        rw [hrecord] at h legible'
        split at h
        · rename_i hcomma
          rw [gives_advance_bind] at h
          obtain ⟨rfl, rfl⟩ := gives_pure.1 h
          have hstop'' := kind_ne_of_isDelimiter (k := .stop) hcomma (by decide)
          obtain ⟨lines'', hleft'', gap''⟩ := exists_next ctx.inside hstop''
          refine ⟨⟨⟨front ++ (head left :: lines ++ head (next ctx.inside left) :: lines' ++ front'
            ++ head left'' :: lines''), _, ?_, rfl, ?_⟩, legible', read.closed.next _, fresh_next⟩,
            Nat.lt_trans (length_next_lt _ hstop'') shorter⟩
          · rw [← List.append_assoc, List.append_assoc _ (_ :: _), ← hleft'']
            exact hfront
          · intro more properties hmore
            rw [List.append_assoc front, List.append_assoc members]
            exact hspelled (.properties hkey gap hcolon gap' hspelled' legible hcomma gap'' hmore)
        · obtain ⟨rfl, rfl⟩ := gives_pure.1 h
          intro hrest
          obtain rfl : endless = false := by
            rw [Bool.eq_false_iff]
            intro h
            have := hendless h
            rw [closesRange_of_isDelimiter hrest] at this
            exact absurd this (by decide)
          exact ⟨⟨_, _, hfront, rfl, hspelled (.lastProperty hkey gap hcolon gap' hspelled' legible)⟩,
            legible', read.closed, read.fresh⟩
      · exact absurd h gives_fail_bind

theorem object_sound (deep : ctx.depth < maxDepth) (ready : Ready tokens)
    (ho : (head tokens).isDelimiter "\x7b" = true) {e : Expr}
    (h : Gives (object p ctx.deeper) tokens e rest) : ReadsTight ctx tokens e rest := by
  have hstop := kind_ne_of_isDelimiter (k := .stop) ho (by decide)
  obtain ⟨lines, htokens, gap⟩ := exists_next ctx.deeper.inside hstop
  unfold object at h
  rw [gives_advance_bind] at h
  obtain ⟨record, left, hrecord, h⟩ := gives_bind.1 h
  rw [gives_expectDelimiter_bind, gives_advance_bind, gives_pure] at h
  obtain ⟨hc, rfl, rfl⟩ := h
  have hstop' := kind_ne_of_isDelimiter (k := .stop) hc (by decide)
  obtain ⟨lines', hleft, gap'⟩ := exists_next ctx.deeper hstop'
  have read := properties_sound hp (ready.next _ hstop) fresh_next hrecord hc
  obtain ⟨front, properties, hfront, rfl, hspelled⟩ := read.spelled
  refine ⟨⟨_, ?_, .object deep ho gap.1 hspelled hc gap'⟩,
    .object read.legible (nodup_keys_ofList _), Nat.le_refl _, read.closed.next _, fresh_next⟩
  rw [List.append_assoc, ← hleft, List.append_assoc, ← hfront]
  exact htokens

theorem primary_sound (deep : ctx.depth < maxDepth) (ready : Ready tokens)
    (hleading : (head tokens).kind = .operator → Operator.leading? (head tokens).text = none)
    {e : Expr} (h : Gives (primary p ctx.deeper) tokens e rest) : ReadsTight ctx tokens e rest := by
  unfold primary at h
  rw [gives_peek_bind] at h
  have lexical := ready.head
  have atom : (head tokens).kind ≠ .stop → (∀ {lines}, Gap ctx.nesting lines →
      Spells ctx.nesting ctx.depth (head tokens :: lines) (.expression e false)) →
      Legible false e → 17 ≤ e.level false → next ctx.deeper tokens = rest →
      ReadsTight ctx tokens e rest := by
    rintro hstop spelled legible tight rfl
    obtain ⟨lines, htokens, gap⟩ := exists_next ctx.deeper hstop
    exact ⟨⟨_, htokens, spelled gap⟩, legible, tight, ready.1.next _, fresh_next⟩
  split at h
  · rename_i hkind
    obtain ⟨hnumber, literal⟩ := lexical.1 hkind
    rw [gives_advance_bind, gives_pure] at h
    obtain ⟨rfl, h⟩ := h
    exact atom (by simp [hkind]) (.number deep hkind literal) (.number hnumber literal)
      (Nat.le_refl _) h
  · rename_i hkind
    split at h
    · rename_i value hvalue
      rw [gives_advance_bind, gives_pure] at h
      obtain ⟨rfl, h⟩ := h
      exact atom (by simp [hkind]) (.string deep hkind hvalue) (.string value) (Nat.le_refl _) h
    · exact absurd h gives_fail
  · rename_i hkind
    rw [gives_advance_bind, gives_pure] at h
    obtain ⟨rfl, h⟩ := h
    exact atom (by simp [hkind]) (.name deep hkind (lexical.2 hkind) rfl)
      (.name (lexical.2 hkind) rfl) (Nat.le_of_eq (Expr.level_ofName _ _).symm) h
  · rename_i hkind
    split at h
    · rename_i hword
      rw [gives_advance_bind, gives_pure] at h
      obtain ⟨rfl, h⟩ := h
      exact atom (by simp [hkind]) (.word deep hkind hword (hleading hkind))
        (.word hword (hleading hkind)) (Nat.le_refl _) h
    · split at h <;> exact absurd h gives_fail
  · rename_i hkind
    split at h
    · exact parenthesis_sound hp deep ready (isDelimiter_iff.2 ⟨hkind, ‹_›⟩) h
    · split at h
      · exact matrix_sound hp deep ready (isDelimiter_iff.2 ⟨hkind, ‹_›⟩) h
      · split at h
        · exact object_sound hp deep ready (isDelimiter_iff.2 ⟨hkind, ‹_›⟩) h
        · exact absurd h gives_fail
  · exact absurd h gives_fail
  · exact absurd h gives_fail
  · exact absurd h gives_fail

/-! ### Postfix operators, powers and prefix operators -/

/-- What may follow an expression and its postfix operators. -/
structure EndsTight (e : Expr) (t : Token) : Prop extends EndsAccesses e t where
  postfixed : t.kind = .operator → Operator.trailing? t.text = none

omit hp in
theorem EndsTight.weaker {e : Expr} {t : Token} (h : EndsTight e t) {strength : Nat}
    (hstrength : strength? t = some strength) : strength < 17 := by
  rcases strength?_eq_some hstrength with ⟨_, hindex | hproperty | ⟨hkind, htrailing⟩⟩ | ⟨rfl, _⟩ |
    ⟨_, op, hop, rfl⟩ | ⟨rfl, _⟩ | ⟨rfl, _⟩
  · exact absurd hindex (by simp [h.index])
  · exact absurd hproperty (by simp [h.property])
  · exact absurd htrailing (by simp [h.postfixed hkind])
  · decide
  · obtain ⟨_, hlevel⟩ | ⟨_, _, _, hlevel⟩ := Operator.level_of_binary hop <;> omega
  · decide
  · decide

theorem postfixed_sound (deep : ctx.depth < maxDepth) (ready : Ready tokens)
    (hleading : (head tokens).kind = .operator → Operator.leading? (head tokens).text = none)
    {e : Expr} (h : Gives (postfixed p ctx.deeper) tokens e rest) :
    ReadsTight ctx tokens e rest ∧ EndsTight e (head rest) := by
  unfold postfixed at h
  obtain ⟨first, left, hfirst, h⟩ := gives_bind.1 h
  obtain ⟨second, left', hsecond, h⟩ := gives_bind.1 h
  have start := (accesses_sound hp ready (primary_sound hp deep ready hleading hfirst) hsecond).1
  refine gives_repeatedly
    (fun e left => ReadsTight ctx tokens e left ∧ EndsAccesses e (head left))
    (fun e left => ReadsTight ctx tokens e left ∧ EndsTight e (head left))
    (fun _ _ h => h.1.closed.ne_nil) ?_ start h
  rintro e left s left' ⟨hread, hends⟩ h
  rw [gives_peek_bind] at h
  split at h
  · rename_i op hop
    rw [gives_advance_bind] at h
    obtain ⟨e', left'', he', h⟩ := gives_bind.1 h
    obtain ⟨rfl, rfl⟩ := gives_pure.1 h
    split at hop
    · rename_i hkind
      have hstop : (head left).kind ≠ .stop := by simp [hkind]
      obtain ⟨lines, hleft, gap⟩ := exists_next ctx.deeper hstop
      obtain ⟨front, htokens, hspelled⟩ := hread.spelled
      have step : ReadsTight ctx tokens (.operation (head left).text op.name [e] false)
          (next ctx.deeper left) := by
        refine ⟨⟨_, ?_, .postfixed hspelled hkind hop gap⟩, .postfixed hop hread.legible hread.tight,
          Nat.le_of_eq (Expr.level_postfixed hop).symm, hread.closed.next _, fresh_next⟩
        rw [List.append_assoc, ← hleft]
        exact htokens
      obtain ⟨result, hle⟩ := accesses_sound hp ready step he'
      exact ⟨result, Nat.lt_of_le_of_lt hle (length_next_lt _ hstop)⟩
    · cases hop
  · rename_i hop
    obtain ⟨rfl, rfl⟩ := gives_pure.1 h
    refine ⟨hread, hends, fun hkind => ?_⟩
    rwa [if_pos hkind] at hop

theorem power_sound (deep : ctx.depth < maxDepth) (ready : Ready tokens)
    (hleading : (head tokens).kind = .operator → Operator.leading? (head tokens).text = none)
    {e : Expr} (h : Gives (power p ctx.deeper) tokens e rest) : Reads 15 ctx tokens e rest := by
  unfold power at h
  obtain ⟨base, left, hbase, h⟩ := gives_bind.1 h
  obtain ⟨hread, hends⟩ := postfixed_sound hp deep ready hleading hbase
  obtain ⟨front, htokens, hspelled⟩ := hread.spelled
  have tight := fun f => Expr.le_level_of_tight (by decide) hread.tight f
  rw [gives_operatorIn_bind] at h
  split at h
  · rename_i spelling hspelling
    obtain ⟨hkind, hmem, rfl⟩ := spellingIn?_eq_some hspelling
    have hstop : (head left).kind ≠ .stop := by simp [hkind]
    obtain ⟨lines, hleft, gap⟩ := exists_nextLine ctx.deeper hstop
    rw [gives_advanceLine_bind] at h
    obtain ⟨exponent, left', hexponent, h⟩ := gives_bind.1 h
    obtain ⟨op, hop, rfl, rfl⟩ := gives_binary.1 h
    have ready' := (ready.rest htokens hread.closed).nextLine ctx.deeper hstop
    have read := hp.operand ctx.deeper _ _ _ ready' hexponent
    obtain ⟨front', hnext, hspelled'⟩ := read.operand (by decide)
    have htext : (head left).text = "^" ∨ (head left).text = ".^" := by simpa using hmem
    have hlevel : op.level = 16 := by
      obtain ⟨_, hlevel⟩ | ⟨h, h', _⟩ := Operator.level_of_binary hop
      · exact hlevel
      · exact absurd htext (not_or.2 ⟨h, h'⟩)
    refine ⟨Spells.upTo (.power hspelled hkind htext hop gap hspelled') ?_, ?_, ?_, ?_,
      read.closed, read.fresh⟩
    · rw [List.append_assoc, List.append_assoc, ← hnext, ← hleft, htokens]
    · exact .power htext hop hread.legible hread.tight (read.legible.of_tight read.tight false)
        (Expr.level_eq read.tight false ▸ read.tight)
    · rw [Expr.level_binary, if_neg]
      · omega
      · rintro ⟨rfl, _⟩
        cases hlevel
    · exact .of_tight (by decide) read.ends.weaker read.ends.call
  · rename_i hspelling
    obtain ⟨rfl, rfl⟩ := gives_pure.1 h
    refine ⟨hspelled.upTo htokens, ?_, ?_, ?_, hread.closed, hread.fresh⟩
    · exact hread.legible.of_tight (Nat.le_trans (by decide) hread.tight) _
    · exact Nat.le_trans (by decide) (tight _)
    · refine .of_tight (by decide) (fun strength hstrength => ?_) hends.call
      have hlt := hends.weaker hstrength
      rcases strength?_eq_some hstrength with ⟨rfl, _⟩ | ⟨rfl, _⟩ | ⟨hkind, op, hop, rfl⟩ | ⟨rfl, _⟩ |
        ⟨rfl, _⟩
      · exact absurd hlt (by decide)
      · decide
      · obtain ⟨htext, _⟩ | ⟨_, _, _, hlevel⟩ := Operator.level_of_binary hop
        · have := spellingIn?_eq_none.1 hspelling hkind
          rcases htext with htext | htext <;> simp [htext] at this
        · omega
      · decide
      · decide

theorem operand_sound : Sound 15 ctx (operand p ctx) := by
  intro tokens e rest ready h
  unfold operand at h
  split at h
  · exact absurd h gives_fail_bind
  · rename_i hdeep
    have deep : ctx.depth < maxDepth := Nat.lt_of_not_le hdeep
    rw [gives_peek_bind] at h
    split at h
    · rename_i op hop
      split at hop
      · rename_i hkind
        have hstop : (head tokens).kind ≠ .stop := by simp [hkind]
        obtain ⟨lines, htokens, gap⟩ := exists_nextLine ctx.deeper hstop
        rw [gives_advanceLine_bind] at h
        obtain ⟨e', left, he', h⟩ := gives_bind.1 h
        obtain ⟨rfl, rfl⟩ := gives_pure.1 h
        have read := hp.operand ctx.deeper _ _ _ (ready.nextLine ctx.deeper hstop) he'
        obtain ⟨front, hnext, hspelled⟩ := read.operand (by decide)
        refine ⟨Spells.upTo (.prefixed deep hkind hop gap hspelled) ?_, ?_, ?_, ?_,
          read.closed, read.fresh⟩
        · rw [List.append_assoc, ← hnext]
          exact htokens
        · exact .prefixed hop (read.legible.of_tight read.tight false)
            (Expr.level_eq read.tight false ▸ read.tight)
        · exact Nat.le_of_eq (Expr.level_prefixed hop).symm
        · refine .of_tight (by decide) read.ends.weaker fun h => ?_
          rw [Expr.endsCallable, read.ends.call h, Bool.and_false]
      · cases hop
    · rename_i hop
      refine power_sound hp deep ready (fun hkind => ?_) h
      rwa [if_pos hkind] at hop

end Brackets

end Formula.Grammar
