import Formula.Proofs.Grammar.Inversion
import Formula.Proofs.Grammar.Soundness.Operand

/-!
What tokens spell is read, if it is legible and ends there.

Productions are `Complete` for expressions of so many tokens. As all of what is in brackets has fewer
tokens than they, each production needs its own productions to be complete for fewer tokens only.
-/

namespace Formula.Grammar

open Expr (Legible)
open Reading (repeatedly)

/-- A `?` that lacks its `:` stands inside of brackets that are still open. -/
def Context.Proper (ctx : Context) : Prop :=
  ∀ nesting, ctx.pending = some nesting → nesting ≤ ctx.nesting

/-- Surroundings where a `:` belongs to a range. -/
def Context.Quiet (ctx : Context) : Prop :=
  ctx.Proper ∧ ctx.awaits = false

theorem Context.Proper.quiet {ctx : Context} (h : ctx.Proper) : ctx.inside.Quiet := by
  refine ⟨fun nesting hpending => Nat.le_succ_of_le (h nesting hpending), ?_⟩
  rw [Bool.eq_false_iff]
  intro hawaits
  have := h _ (beq_iff_eq.1 hawaits)
  exact absurd this (Nat.not_succ_le_self _)

/-- A production reads what there is of a level, if that has at most `n` tokens. -/
def Complete (level n : Nat) (ctx : Context) (P : Parser Expr) : Prop :=
  ∀ tokens e rest, Reads level ctx tokens e rest → (ctx.awaits = true → e.exposesColon = false) →
    tokens.length ≤ n + rest.length → Gives P tokens e rest

/-- No `:` goes on with what is tighter than a range. -/
theorem Complete.gives {level n : Nat} {ctx : Context} {P : Parser Expr} (hP : Complete level n ctx P)
    (tight : 3 ≤ level) {tokens rest : List Token} {e : Expr} (h : Reads level ctx tokens e rest)
    (length : tokens.length ≤ n + rest.length) : Gives P tokens e rest :=
  hP _ _ _ h (fun _ => Expr.exposesColon_of_level (Nat.le_trans tight h.tight)) length

/-- The productions that contain themselves are complete for so many tokens. -/
structure Productions.Complete (p : Productions) (n : Nat) : Prop where
  expression : ∀ ctx, ctx.Proper → Grammar.Complete 0 n ctx (p.expression ctx)
  operand : ∀ ctx, ctx.Proper → Grammar.Complete 15 n ctx (p.operand ctx)

theorem Closed.append {rest : List Token} (h : Closed rest) (front : List Token) :
    Closed (front ++ rest) := by
  obtain ⟨t, ht, hkind⟩ := h
  exact ⟨t, List.mem_append_right _ ht, hkind⟩

/-- No token ends an expression less than a delimiter that does not open anything. -/
theorem ends_of_isDelimiter {level : Nat} {ctx : Context} {e : Expr} {t : Token} {text : String}
    {rest : List Token} (ht : t.isDelimiter text = true)
    (htext : text ≠ "(" ∧ text ≠ "[" ∧ text ≠ ".") : Ends level ctx e (t :: rest) := by
  obtain ⟨hkind, rfl⟩ := isDelimiter_iff.1 ht
  have hstrength : strength? (head (t :: rest)) = none := by
    simp [head_cons, strength?, hkind, htext]
  refine ⟨fun strength h => ?_, fun h => ?_, fun _ h => ?_, fun _ _ h => ?_, fun _ h => ?_⟩
  · rw [hstrength] at h
    cases h
  · rw [strength?_of_startsFactor (by simp [startsFactor, h])] at hstrength
    cases hstrength
  · rw [head_cons, hkind] at h
    cases h
  · obtain ⟨h, _⟩ := isOperator_iff.1 h.1
    rw [head_cons, hkind] at h
    cases h
  · obtain ⟨h, _⟩ := isOperator_iff.1 h
    rw [head_cons, hkind] at h
    cases h

theorem followed_of_isDelimiter {t : Token} {text : String} {rest : List Token}
    (ht : t.isDelimiter text = true) (htext : text ≠ "(") : followed (t :: rest) = false := by
  obtain ⟨hkind, rfl⟩ := isDelimiter_iff.1 ht
  rw [followed_eq_of_head (by simp [head_cons, hkind]), head_cons]
  simp [startsFactor, Token.isDelimiter, hkind, htext]

section Brackets

variable {p : Productions} {m : Nat} {ctx : Context} {front rest : List Token} {c : Token}
  {text : String} (hp : p.Complete m) (proper : ctx.Proper)

include hp proper

omit proper in
/-- An expression in front of a delimiter. -/
theorem gives_expression (quiet : ctx.Quiet) {e : Expr} {g : Bool}
    (h : Spells ctx.nesting ctx.depth front (.expression e g)) (legible : Legible false e)
    (hc : c.isDelimiter text = true) (htext : text ≠ "(" ∧ text ≠ "[" ∧ text ≠ ".")
    (hg : g = true → closesRange c = true) (closed : Closed (c :: rest)) (length : front.length ≤ m) :
    Gives (p.expression ctx) (front ++ c :: rest) e (c :: rest) := by
  have hfollowed : followed (c :: rest) = false := followed_of_isDelimiter hc htext.1
  refine hp.expression ctx quiet.1 _ _ _ ⟨⟨front, g, rfl, h, hg⟩, ?_, Nat.zero_le _,
    ends_of_isDelimiter hc htext, closed, fun _ => kind_ne_of_isDelimiter hc (by decide)⟩
    (fun h => absurd h (by simp [quiet.2])) ?_
  · rw [hfollowed]
    exact legible
  · rw [List.length_append]
    omega

omit hp proper in
/-- Expressions do not begin with the end of a line or of a bracket. -/
theorem Spells.begins {n d : Nat} {phrase : Phrase} {e : Expr} (h : Spells n d front phrase)
    (he : phrase.first? = some e) (rest : List Token) : Begins (head (front ++ rest)) := by
  obtain ⟨t, tokens', rfl, hbegins, _⟩ := h.opens.first he
  exact hbegins

omit hp proper in
theorem Spells.items_first {n d : Nat} {es : List Expr} {g : Bool}
    (h : Spells n d front (.items es g)) : ∃ e, (Phrase.items es g).first? = some e := by
  cases h <;> exact ⟨_, rfl⟩

omit hp proper in
theorem Spells.rows_first {n d : Nat} {rows : List (List Expr)} {g : Bool}
    (h : Spells n d front (.rows rows g)) : ∃ e, (Phrase.rows rows g).first? = some e := by
  cases h with
  | row h => cases h <;> exact ⟨_, rfl⟩
  | rows h => cases h <;> exact ⟨_, rfl⟩

omit hp proper in
theorem Begins.isDelimiter {t : Token} (h : Begins t) (htext : text ≠ "(" ∧ text ≠ "[" ∧ text ≠ "\x7b") :
    t.isDelimiter text = false := by
  rw [Bool.eq_false_iff]
  intro ht
  obtain ⟨hkind, rfl⟩ := isDelimiter_iff.1 ht
  obtain ⟨hparen, hbracket, hbrace⟩ := htext
  rcases h.bracket hkind with h | h | h <;> contradiction

/-- What one turn of the loop over expressions between commas reads. -/
def itemsTurn (p : Productions) (ctx : Context) (es : List Expr) :
    Parser (ForInStep (List Expr)) := do
  if (← peek).isDelimiter "," then
    advance ctx
    return .yield ((← p.expression ctx) :: es)
  else
    return .done es

omit proper in
theorem items_steps (quiet : ctx.Quiet) {es : List Expr} {g : Bool} (h : Spells ctx.nesting ctx.depth front (.items es g))
    (legible : ∀ e ∈ es, Legible false e) (hc : c.isDelimiter text = true)
    (htext : text ≠ "(" ∧ text ≠ "[" ∧ text ≠ ".") (hg : g = true → closesRange c = true)
    (closed : Closed (c :: rest)) (length : front.length ≤ m) :
    ∃ first left, Gives (p.expression ctx) (front ++ c :: rest) first left ∧
      left.length ≤ (front ++ c :: rest).length ∧
      ∀ seen, Steps (itemsTurn p ctx) (first :: seen) left (es.reverse ++ seen) (c :: rest) := by
  induction es generalizing front with
  | nil => cases h
  | cons e es ih =>
      obtain ⟨he, hes⟩ := List.forall_mem_cons.1 legible
      cases h with
      | item h =>
          exact ⟨e, c :: rest, gives_expression hp quiet h he hc htext hg closed length, by simp,
            fun seen => .refl _ _⟩
      | @items _ _ front back lines comma _ _ _ g' h hcomma gap more =>
          simp only [List.length_append, List.length_cons] at length
          obtain ⟨first, left, hfirst, hle, hsteps⟩ := ih more hes (by omega)
          obtain ⟨e', he'⟩ := more.items_first
          have fresh : Fresh ctx.nesting (back ++ c :: rest) := fun _ => (more.begins he' _).line
          have hnext : next ctx (comma :: lines ++ (back ++ c :: rest)) = back ++ c :: rest :=
            next_cons (kind_ne_of_isDelimiter hcomma (by decide)) gap fresh
          have closed' : Closed (comma :: lines ++ (back ++ c :: rest)) :=
            (closed.append back).append _
          have hcloses : closesRange comma = true := by
            rw [closesRange_of_isDelimiter hcomma]
            decide
          refine ⟨e, comma :: lines ++ (back ++ c :: rest), ?_, by simp, fun seen => ?_⟩
          · simp only [List.append_assoc]
            exact gives_expression hp quiet h he hcomma (by decide) (fun _ => hcloses) closed' (by omega)
          · rw [List.reverse_cons, List.append_assoc]
            refine .head (b := first :: e :: seen) (?_ : Goes _ _ _ _ left) ?_ (hsteps (e :: seen))
            · rw [Goes, itemsTurn, gives_peek_bind, List.cons_append, head_cons, if_pos hcomma,
                gives_advance_bind]
              refine gives_bind.2 ⟨first, left, ?_, gives_pure.2 ⟨rfl, rfl⟩⟩
              rw [← List.cons_append, hnext]
              exact hfirst
            · simp only [List.length_append, List.length_cons] at hle ⊢
              omega

omit proper in
theorem items_complete (quiet : ctx.Quiet) {es : List Expr} {g : Bool}
    (h : Spells ctx.nesting ctx.depth front (.items es g)) (legible : ∀ e ∈ es, Legible false e)
    (hc : c.isDelimiter text = true)
    (htext : text ≠ "(" ∧ text ≠ "[" ∧ text ≠ "." ∧ text ≠ ",") (hg : g = true → closesRange c = true)
    (closed : Closed (c :: rest)) (length : front.length ≤ m) :
    Gives (items p ctx) (front ++ c :: rest) es (c :: rest) := by
  obtain ⟨first, left, hfirst, _, hsteps⟩ := items_steps hp quiet h legible hc
    ⟨htext.1, htext.2.1, htext.2.2.1⟩ hg closed length
  have hstop : Stops (itemsTurn p ctx) (es.reverse ++ []) (c :: rest) (es.reverse ++ []) (c :: rest) := by
    rw [Stops, itemsTurn, gives_peek_bind, head_cons, if_neg]
    · exact gives_pure.2 ⟨rfl, rfl⟩
    · obtain ⟨hkind, rfl⟩ := isDelimiter_iff.1 hc
      simp [Token.isDelimiter, htext]
  unfold items
  refine gives_bind.2 ⟨first, left, hfirst, gives_bind.2 ⟨es.reverse ++ [], c :: rest, ?_, ?_⟩⟩
  · exact (hsteps []).gives hstop (List.cons_ne_nil _ _)
  · rw [gives_pure, List.append_nil, List.reverse_reverse]
    exact ⟨rfl, rfl⟩

theorem list_complete {opening closing : String} {es : List Expr}
    (h : Spells ctx.nesting ctx.depth front (.list opening closing es))
    (legible : ∀ e ∈ es, Legible false e) (hclosing : closing = ")" ∨ closing = "]")
    (closed : Closed rest) (fresh : Fresh ctx.nesting rest) (length : front.length ≤ m + 1) :
    Gives (list p ctx.deeper closing) (front ++ rest) es rest := by
  have htext : closing ≠ "(" ∧ closing ≠ "[" ∧ closing ≠ "." ∧ closing ≠ "," := by
    rcases hclosing with rfl | rfl <;> decide
  have hbrace : closing ≠ "\x7b" := by
    rcases hclosing with rfl | rfl <;> decide
  unfold list
  rw [gives_advance_bind, gives_peek_bind]
  cases h with
  | @emptyList _ _ _ _ o c lines lines' ho gap hc gap' =>
      have hnext : next ctx.deeper.inside (o :: lines ++ (c :: lines' ++ rest)) = c :: lines' ++ rest :=
        next_cons (kind_ne_of_isDelimiter ho (by decide)) (gap_succ.2 gap)
          (fun _ => kind_ne_of_isDelimiter hc (by decide))
      have hnext' : next ctx.deeper (c :: lines' ++ rest) = rest :=
        next_cons (kind_ne_of_isDelimiter hc (by decide)) gap' fresh
      rw [List.append_assoc, hnext]
      dsimp only
      rw [if_pos (by exact hc), gives_pure_bind, gives_expectDelimiter_bind, gives_advance_bind, hnext',
        gives_pure]
      exact ⟨hc, rfl, rfl⟩
  | @list _ _ _ _ o c tokens lines lines' _ g ho gap h hc gap' =>
      obtain ⟨e, he⟩ := h.items_first
      have begins := h.begins he (c :: lines' ++ rest)
      simp only [List.length_append, List.length_cons] at length
      have hcloses : g = true → closesRange c = true := by
        intro _
        rw [closesRange_of_isDelimiter hc]
        rcases hclosing with rfl | rfl <;> decide
      have closed' : Closed (c :: (lines' ++ rest)) := closed.append (c :: lines')
      have hnext : next ctx.deeper.inside (o :: lines ++ (tokens ++ (c :: lines' ++ rest)))
          = tokens ++ (c :: lines' ++ rest) :=
        next_cons (kind_ne_of_isDelimiter ho (by decide)) (gap_succ.2 gap) fun _ => begins.line
      have hnext' : next ctx.deeper (c :: lines' ++ rest) = rest :=
        next_cons (kind_ne_of_isDelimiter hc (by decide)) gap' fresh
      rw [List.append_assoc, List.append_assoc, hnext]
      dsimp only
      rw [begins.isDelimiter ⟨htext.1, htext.2.1, hbrace⟩, if_neg (by decide)]
      have quiet : ctx.deeper.inside.Quiet := Context.Proper.quiet proper
      refine gives_bind.2 ⟨es, c :: lines' ++ rest,
        items_complete hp quiet h legible hc htext hcloses closed' (by omega), ?_⟩
      rw [gives_expectDelimiter_bind, gives_advance_bind, hnext', gives_pure]
      exact ⟨hc, rfl, rfl⟩

/-! ### Calls, indexes and properties -/

/-- What one turn of the loop over accesses reads. -/
def accessTurn (p : Productions) (ctx : Context) (e : Expr) : Parser (ForInStep Expr) := do
  let t ← peek
  if t.isDelimiter "(" then
    match e.form with
    | .symbol | .access => return .yield (.call e (← list p ctx ")"))
    | _ => return .done e
  else if t.isDelimiter "[" then
    return .yield (.access e (.index (← list p ctx "]") false))
  else if t.isDelimiter "." then
    advance ctx
    let name ← peek
    if name.kind = .identifier then
      advance ctx
      return .yield (.access e (.property name.text))
    else
      fail .propertyNameExpected
  else
    return .done e

omit hp proper in
theorem head_of_list {n d : Nat} {opening closing : String} {es : List Expr}
    (h : Spells n d front (.list opening closing es)) (rest : List Token) :
    (head (front ++ rest)).isDelimiter opening = true := by
  cases h with
  | emptyList ho => exact ho
  | list ho =>
      rw [List.append_assoc, List.append_assoc]
      exact ho

theorem goes_call {e : Expr} {args : List Expr} (callable : e.form = .symbol ∨ e.form = .access)
    (h : Spells ctx.nesting ctx.depth front (.list "(" ")" args))
    (legible : ∀ e ∈ args, Legible false e) (closed : Closed rest) (fresh : Fresh ctx.nesting rest)
    (length : front.length ≤ m + 1) :
    Goes (accessTurn p ctx.deeper) e (front ++ rest) (.call e args) rest := by
  have hlist := list_complete hp proper h legible (.inl rfl) closed fresh length
  rw [Goes, accessTurn, gives_peek_bind, if_pos (head_of_list h rest)]
  rcases callable with hform | hform <;>
    rw [hform] <;>
    exact gives_bind.2 ⟨args, rest, hlist, gives_pure.2 ⟨rfl, rfl⟩⟩

theorem goes_index {e : Expr} {dimensions : List Expr}
    (h : Spells ctx.nesting ctx.depth front (.list "[" "]" dimensions))
    (legible : ∀ e ∈ dimensions, Legible false e) (closed : Closed rest)
    (fresh : Fresh ctx.nesting rest) (length : front.length ≤ m + 1) :
    Goes (accessTurn p ctx.deeper) e (front ++ rest) (.access e (.index dimensions false)) rest := by
  have hopening := head_of_list h rest
  have hparen : (head (front ++ rest)).isDelimiter "(" = false := by
    simp [Token.isDelimiter, (isDelimiter_iff.1 hopening).2]
  rw [Goes, accessTurn, gives_peek_bind, hparen, if_neg (by decide), if_pos hopening]
  exact gives_bind.2 ⟨dimensions, rest, list_complete hp proper h legible (.inr rfl) closed fresh length,
    gives_pure.2 ⟨rfl, rfl⟩⟩

omit hp proper in
theorem goes_property {e : Expr} {dot name : Token} {lines lines' : List Token}
    (hdot : dot.isDelimiter "." = true) (gap : Gap ctx.nesting lines) (hname : name.kind = .identifier)
    (gap' : Gap ctx.nesting lines') (fresh : Fresh ctx.nesting rest) :
    Goes (accessTurn p ctx.deeper) e (dot :: lines ++ (name :: lines' ++ rest))
      (.access e (.property name.text)) rest := by
  have hnext : next ctx.deeper (dot :: lines ++ (name :: lines' ++ rest)) = name :: lines' ++ rest :=
    next_cons (kind_ne_of_isDelimiter hdot (by decide)) gap (fun _ => by simp [head_cons, hname])
  have hnext' : next ctx.deeper (name :: lines' ++ rest) = rest :=
    next_cons (by simp [hname]) gap' fresh
  have htext := (isDelimiter_iff.1 hdot).2
  have hparen : dot.isDelimiter "(" = false := by simp [Token.isDelimiter, htext]
  have hbracket : dot.isDelimiter "[" = false := by simp [Token.isDelimiter, htext]
  have hhead : head (dot :: lines ++ (name :: lines' ++ rest)) = dot := rfl
  rw [Goes, accessTurn, gives_peek_bind, hhead, hparen, if_neg (by decide), hbracket,
    if_neg (by decide), if_pos hdot, gives_advance_bind, hnext, gives_peek_bind, if_pos (by exact hname),
    gives_advance_bind, hnext', gives_pure]
  exact ⟨rfl, rfl⟩

omit hp proper in
theorem stops_accesses {e : Expr} (hends : EndsAccesses e (head rest)) :
    Stops (accessTurn p ctx) e rest e rest := by
  rw [Stops, accessTurn, gives_peek_bind]
  split
  · rename_i hparen
    have hcallable := hends.call hparen
    split
    · cases e <;> first | cases hcallable; done | cases ‹_ = Form.symbol›
    · cases e <;> first | cases hcallable; done | cases ‹_ = Form.access›
    · exact gives_pure.2 ⟨rfl, rfl⟩
  · rw [hends.index, hends.property, if_neg (by decide), if_neg (by decide), gives_pure]
    exact ⟨rfl, rfl⟩

/-! ### Brackets -/

theorem parenthesis_complete {o : Token} {tokens lines lines' : List Token} {e : Expr} {g : Bool}
    (ho : o.isDelimiter "(" = true) (gap : Lines lines)
    (h : Spells (ctx.nesting + 1) (ctx.depth + 1) tokens (.expression e g))
    (legible : Legible false e) (hc : c.isDelimiter ")" = true) (gap' : Gap ctx.nesting lines')
    (closed : Closed rest) (fresh : Fresh ctx.nesting rest) (length : tokens.length ≤ m) :
    Gives (parenthesis p ctx.deeper) (o :: lines ++ tokens ++ c :: lines' ++ rest) (.parenthesis e)
      rest := by
  have begins := h.begins rfl (c :: lines' ++ rest)
  have hnext : next ctx.deeper.inside (o :: lines ++ (tokens ++ (c :: lines' ++ rest)))
      = tokens ++ (c :: lines' ++ rest) :=
    next_cons (kind_ne_of_isDelimiter ho (by decide)) (gap_succ.2 gap) fun _ => begins.line
  have hnext' : next ctx.deeper (c :: lines' ++ rest) = rest :=
    next_cons (kind_ne_of_isDelimiter hc (by decide)) gap' fresh
  have hcloses : closesRange c = true := by
    rw [closesRange_of_isDelimiter hc]
    decide
  have quiet : ctx.deeper.inside.Quiet := Context.Proper.quiet proper
  have hcontent : Gives (p.expression ctx.deeper.inside) (tokens ++ c :: (lines' ++ rest)) e
      (c :: (lines' ++ rest)) :=
    gives_expression hp quiet h legible hc (by decide) (fun _ => hcloses)
      (closed.append (c :: lines')) length
  unfold parenthesis
  rw [gives_advance_bind, List.append_assoc, List.append_assoc, hnext]
  refine gives_bind.2 ⟨e, c :: lines' ++ rest, hcontent, ?_⟩
  rw [gives_expectDelimiter_bind, gives_advance_bind, hnext', gives_pure]
  exact ⟨hc, rfl, rfl⟩

/-- What one turn of the loop over the rows of a matrix reads. -/
def rowTurn (p : Productions) (ctx : Context) (rows : List (List Expr)) :
    Parser (ForInStep (List (List Expr))) := do
  if (← peek).isDelimiter ";" then
    advance ctx
    return .yield ((← items p ctx) :: rows)
  else
    return .done rows

omit proper in
theorem rows_steps (quiet : ctx.Quiet) {rows : List (List Expr)} {g : Bool}
    (h : Spells ctx.nesting ctx.depth front (.rows rows g))
    (legible : ∀ row ∈ rows, ∀ e ∈ row, Legible false e) (hc : c.isDelimiter "]" = true)
    (closed : Closed (c :: rest)) (length : front.length ≤ m) :
    ∃ first left, Gives (items p ctx) (front ++ c :: rest) first left ∧
      left.length ≤ (front ++ c :: rest).length ∧
      ∀ seen, Steps (rowTurn p ctx) (first :: seen) left (rows.reverse ++ seen) (c :: rest) := by
  have hcloses : closesRange c = true := by
    rw [closesRange_of_isDelimiter hc]
    decide
  induction rows generalizing front with
  | nil => cases h
  | cons row rows ih =>
      obtain ⟨hrow, hrows⟩ := List.forall_mem_cons.1 legible
      cases h with
      | row h =>
          exact ⟨row, c :: rest, items_complete hp quiet h hrow hc (by decide) (fun _ => hcloses) closed length,
            by simp, fun seen => .refl _ _⟩
      | @rows _ _ front back lines semicolon _ _ _ h hsemicolon gap more =>
          simp only [List.length_append, List.length_cons] at length
          obtain ⟨first, left, hfirst, hle, hsteps⟩ := ih more hrows (by omega)
          obtain ⟨e, he⟩ := more.rows_first
          have fresh : Fresh ctx.nesting (back ++ c :: rest) := fun _ => (more.begins he _).line
          have hnext : next ctx (semicolon :: lines ++ (back ++ c :: rest)) = back ++ c :: rest :=
            next_cons (kind_ne_of_isDelimiter hsemicolon (by decide)) gap fresh
          have closed' : Closed (semicolon :: lines ++ (back ++ c :: rest)) :=
            (closed.append back).append _
          refine ⟨row, semicolon :: lines ++ (back ++ c :: rest), ?_, by simp, fun seen => ?_⟩
          · simp only [List.append_assoc]
            exact items_complete hp quiet h hrow hsemicolon (by decide) nofun closed' (by omega)
          · rw [List.reverse_cons, List.append_assoc]
            refine .head (b := first :: row :: seen) (?_ : Goes _ _ _ _ left) ?_ (hsteps (row :: seen))
            · rw [Goes, rowTurn, gives_peek_bind, List.cons_append, head_cons, if_pos hsemicolon,
                gives_advance_bind]
              refine gives_bind.2 ⟨first, left, ?_, gives_pure.2 ⟨rfl, rfl⟩⟩
              rw [← List.cons_append, hnext]
              exact hfirst
            · simp only [List.length_append, List.length_cons] at hle ⊢
              omega

theorem matrix_complete {o : Token} {tokens lines lines' : List Token} {rows : List (List Expr)}
    {e : Expr} {g : Bool} (ho : o.isDelimiter "[" = true) (gap : Lines lines)
    (h : Spells (ctx.nesting + 1) (ctx.depth + 1) tokens (.rows rows g))
    (legible : ∀ row ∈ rows, ∀ e ∈ row, Legible false e)
    (he : ∀ position, ofRows position rows = .ok e) (hc : c.isDelimiter "]" = true)
    (gap' : Gap ctx.nesting lines') (closed : Closed rest) (fresh : Fresh ctx.nesting rest)
    (length : tokens.length ≤ m) :
    Gives (matrix p ctx.deeper) (o :: lines ++ tokens ++ c :: lines' ++ rest) e rest := by
  obtain ⟨first, hfirst⟩ := h.rows_first
  have begins := h.begins hfirst (c :: lines' ++ rest)
  have hnext : next ctx.deeper.inside (o :: lines ++ (tokens ++ (c :: lines' ++ rest)))
      = tokens ++ (c :: lines' ++ rest) :=
    next_cons (kind_ne_of_isDelimiter ho (by decide)) (gap_succ.2 gap) fun _ => begins.line
  have hnext' : next ctx.deeper (c :: lines' ++ rest) = rest :=
    next_cons (kind_ne_of_isDelimiter hc (by decide)) gap' fresh
  have closed' : Closed (c :: (lines' ++ rest)) := closed.append (c :: lines')
  have quiet : ctx.deeper.inside.Quiet := Context.Proper.quiet proper
  obtain ⟨row, left, hrow, _, hsteps⟩ := rows_steps hp quiet h legible hc closed' length
  have hstop : Stops (rowTurn p ctx.deeper.inside) (rows.reverse ++ []) (c :: (lines' ++ rest))
      (rows.reverse ++ []) (c :: (lines' ++ rest)) := by
    rw [Stops, rowTurn, gives_peek_bind, head_cons, if_neg]
    · exact gives_pure.2 ⟨rfl, rfl⟩
    · simp [Token.isDelimiter, (isDelimiter_iff.1 hc).2]
  unfold matrix
  rw [gives_advance_bind, List.append_assoc, List.append_assoc, hnext, gives_peek_bind]
  dsimp only
  rw [begins.isDelimiter (by decide), if_neg (by decide)]
  refine gives_bind.2 ⟨row, left, hrow, gives_bind.2
    ⟨rows.reverse ++ [], c :: (lines' ++ rest), (hsteps []).gives hstop (List.cons_ne_nil _ _), ?_⟩⟩
  rw [gives_expectDelimiter_bind, gives_peek_bind, gives_advance_bind, List.append_nil,
    List.reverse_reverse, gives_liftExcept]
  exact ⟨hc, he _, hnext'.symm⟩

/-- What one turn of the loop over the properties of an object reads. -/
def propertyTurn (p : Productions) (ctx : Context) (properties : Record Expr) :
    Parser (ForInStep (Record Expr)) := do
  let t ← peek
  if t.isDelimiter "\x7d" then
    return .done properties
  match key? t with
  | .error fault => fail fault
  | .ok key =>
    advance ctx.inside
    unless (← peek).isOperator ":" do
      fail .colonExpected
    advance ctx.inside
    let properties := Record.set key (← p.expression ctx.inside) properties
    if (← peek).isDelimiter "," then
      advance ctx.inside
      return .yield properties
    else
      return .done properties

omit hp proper in
theorem kind_ne_delimiter_of_key? {t : Token} {key : String} (h : key? t = .ok key) :
    t.kind ≠ .delimiter ∧ t.kind ≠ .newline ∧ t.kind ≠ .stop := by
  unfold key? at h
  split at h
  all_goals simp_all

/-- A key, a `:` and a value, and what follows them. -/
theorem gives_propertyTurn {t colon : Token} {lines lines' : List Token} {key : String} {value : Expr}
    {g : Bool} (hkey : key? t = .ok key) (gap : Lines lines) (hcolon : colon.isOperator ":" = true)
    (gap' : Lines lines') (h : Spells (ctx.nesting + 1) ctx.depth front (.expression value g))
    (legible : Legible false value) (hc : c.isDelimiter text = true) (htext : text = "," ∨ text = "\x7d")
    (hg : g = true → text = ",") (closed : Closed (c :: rest)) (length : front.length ≤ m)
    (record : Record Expr) :
    Gives (propertyTurn p ctx record) (t :: lines ++ colon :: lines' ++ (front ++ c :: rest))
      (if text = "," then .yield (Record.set key value record) else .done (Record.set key value record))
      (if text = "," then next ctx.inside (c :: rest) else c :: rest) := by
  obtain ⟨hdelimiter, _, hstop⟩ := kind_ne_delimiter_of_key? hkey
  have begins := h.begins rfl (c :: rest)
  have hnext : next ctx.inside (t :: lines ++ (colon :: lines' ++ (front ++ c :: rest)))
      = colon :: lines' ++ (front ++ c :: rest) :=
    next_cons hstop (gap_succ.2 gap) fun _ => kind_ne_of_isOperator hcolon (by decide)
  have hnext' : next ctx.inside (colon :: lines' ++ (front ++ c :: rest)) = front ++ c :: rest :=
    next_cons (kind_ne_of_isOperator hcolon (by decide)) (gap_succ.2 gap') fun _ => begins.line
  have hhead : head (t :: lines ++ (colon :: lines' ++ (front ++ c :: rest))) = t := rfl
  have hhead' : head (colon :: lines' ++ (front ++ c :: rest)) = colon := rfl
  have hbrace : t.isDelimiter "\x7d" = false := by
    rw [Bool.eq_false_iff]
    exact fun h => hdelimiter (isDelimiter_iff.1 h).1
  have hvalue : Gives (p.expression ctx.inside) (front ++ c :: rest) value (c :: rest) := by
    refine gives_expression hp proper.quiet h legible hc ?_ (fun hg' => ?_) closed length
    · rcases htext with rfl | rfl <;> decide
    · rw [closesRange_of_isDelimiter hc, hg hg']
      decide
  rw [List.append_assoc, propertyTurn, gives_peek_bind, hhead]
  dsimp only
  rw [hbrace, if_neg (by decide), hkey, gives_advance_bind, hnext, gives_peek_bind, hhead',
    if_pos hcolon, gives_advance_bind, hnext']
  refine gives_bind.2 ⟨value, c :: rest, hvalue, ?_⟩
  rw [gives_peek_bind, head_cons]
  obtain ⟨hkind, rfl⟩ := isDelimiter_iff.1 hc
  rcases htext with htext | htext
  · have hcomma : c.isDelimiter "," = true := isDelimiter_iff.2 ⟨hkind, htext⟩
    rw [if_pos hcomma, gives_advance_bind, if_pos htext, if_pos htext, gives_pure]
    exact ⟨rfl, rfl⟩
  · have hcomma : c.isDelimiter "," = false := by simp [Token.isDelimiter, htext]
    rw [hcomma, if_neg (by decide), if_neg (by simp [htext]), if_neg (by simp [htext]), gives_pure]
    exact ⟨rfl, rfl⟩

omit hp proper in
theorem kind_ne_newline_of_properties {n d : Nat} {properties : List (String × Expr)}
    (h : Spells n d front (.properties properties)) (hc : c.isDelimiter text = true)
    (rest : List Token) : (head (front ++ c :: rest)).kind ≠ .newline := by
  cases h with
  | noProperties => exact kind_ne_of_isDelimiter hc (by decide)
  | lastProperty hkey =>
      simp only [List.append_assoc]
      exact (kind_ne_delimiter_of_key? hkey).2.1
  | properties hkey =>
      simp only [List.append_assoc]
      exact (kind_ne_delimiter_of_key? hkey).2.1

theorem properties_complete {properties : List (String × Expr)}
    (h : Spells (ctx.nesting + 1) ctx.depth front (.properties properties))
    (hc : c.isDelimiter "\x7d" = true) (closed : Closed (c :: rest)) (length : front.length ≤ m)
    (record : Record Expr) : Gives (repeatedly record (propertyTurn p ctx)) (front ++ c :: rest)
      (properties.foldl (fun r entry => Record.set entry.1 entry.2 r) record) (c :: rest) := by
  have steps : ∃ record' left, Steps (propertyTurn p ctx) record (front ++ c :: rest) record' left ∧
      Stops (propertyTurn p ctx) record' left
        (properties.foldl (fun r entry => Record.set entry.1 entry.2 r) record) (c :: rest) ∧
      Closed left := by
    induction properties generalizing front record with
    | nil =>
        cases h with
        | noProperties =>
            refine ⟨record, c :: rest, .refl _ _, ?_, closed⟩
            rw [Stops, propertyTurn, gives_peek_bind, head_cons]
            dsimp only
            rw [if_pos hc, gives_pure]
            exact ⟨rfl, rfl⟩
    | cons entry properties ih =>
        cases h with
        | @lastProperty _ _ front lines lines' t colon key value hkey gap hcolon gap' h legible =>
            simp only [List.length_append, List.length_cons] at length
            have hstop := gives_propertyTurn hp proper hkey gap.1 hcolon gap'.1 h legible hc (.inr rfl) nofun
              closed (by omega) record
            rw [if_neg (by decide), if_neg (by decide), ← List.append_assoc] at hstop
            exact ⟨record, _, .refl _ _, hstop, closed.append _⟩
        | @properties _ _ front back lines lines' lines'' t colon comma key value _ g hkey gap hcolon
            gap' h legible hcomma gap'' more =>
            simp only [List.length_append, List.length_cons] at length
            have closed' : Closed (comma :: (lines'' ++ (back ++ c :: rest))) :=
              ((closed.append back).append (comma :: lines''))
            have fresh : Fresh ctx.inside.nesting (back ++ c :: rest) :=
              fun _ => kind_ne_newline_of_properties more hc rest
            have hnext : next ctx.inside (comma :: lines'' ++ (back ++ c :: rest)) = back ++ c :: rest :=
              next_cons (kind_ne_of_isDelimiter hcomma (by decide)) gap'' fresh
            have hgoes := gives_propertyTurn hp proper hkey gap.1 hcolon gap'.1 h legible hcomma (.inl rfl)
              (fun _ => rfl) closed' (by omega) record
            rw [if_pos rfl, if_pos rfl, ← List.cons_append, hnext] at hgoes
            obtain ⟨record', left, hsteps, hstop, closed''⟩ := ih more (by omega) (Record.set key value record)
            refine ⟨record', left, .head (b := Record.set key value record)
              (?_ : Goes _ _ _ _ (back ++ c :: rest)) ?_ hsteps, hstop, closed''⟩
            · simp only [List.append_assoc] at hgoes ⊢
              exact hgoes
            · simp only [List.length_append, List.length_cons]
              omega
  obtain ⟨record', left, hsteps, hstop, closed'⟩ := steps
  exact hsteps.gives hstop closed'.ne_nil

theorem object_complete {o : Token} {tokens lines lines' : List Token}
    {properties : List (String × Expr)} (ho : o.isDelimiter "\x7b" = true) (gap : Lines lines)
    (h : Spells (ctx.nesting + 1) (ctx.depth + 1) tokens (.properties properties))
    (hc : c.isDelimiter "\x7d" = true) (gap' : Gap ctx.nesting lines') (closed : Closed rest)
    (fresh : Fresh ctx.nesting rest) (length : tokens.length ≤ m) :
    Gives (object p ctx.deeper) (o :: lines ++ tokens ++ c :: lines' ++ rest)
      (.object (Record.ofList properties)) rest := by
  have closed' : Closed (c :: (lines' ++ rest)) := closed.append (c :: lines')
  have fresh' : Fresh ctx.deeper.inside.nesting (tokens ++ (c :: lines' ++ rest)) :=
    fun _ => kind_ne_newline_of_properties h hc _
  have hnext : next ctx.deeper.inside (o :: lines ++ (tokens ++ (c :: lines' ++ rest)))
      = tokens ++ (c :: lines' ++ rest) :=
    next_cons (kind_ne_of_isDelimiter ho (by decide)) (gap_succ.2 gap) fresh'
  have hnext' : next ctx.deeper (c :: lines' ++ rest) = rest :=
    next_cons (kind_ne_of_isDelimiter hc (by decide)) gap' fresh
  have proper' : ctx.deeper.Proper := proper
  have hproperties := properties_complete hp proper' h hc closed' length []
  unfold object
  rw [gives_advance_bind, List.append_assoc, List.append_assoc, hnext]
  refine gives_bind.2 ⟨_, c :: lines' ++ rest, hproperties, ?_⟩
  rw [gives_expectDelimiter_bind, gives_advance_bind, hnext', gives_pure]
  exact ⟨hc, rfl, rfl⟩

omit hp proper in
/-- A single token that is an expression. -/
theorem gives_primary_of_token {t : Token} {lines : List Token} {e : Expr} (gap : Gap ctx.nesting lines)
    (fresh : Fresh ctx.nesting rest) (h : match t.kind with
      | .number => .number t.text = e
      | .str => ∃ value, Text.unescape? t.text = some value ∧ .string value = e
      | .identifier => ofName t.text = e
      | .operator => Token.namedOperators.contains t.text = true ∧ .symbol t.text = e
      | _ => False) : Gives (primary p ctx.deeper) (t :: lines ++ rest) e rest := by
  have hhead : head (t :: lines ++ rest) = t := rfl
  have hstop : t.kind ≠ .stop := by
    intro hstop
    rw [hstop] at h
    exact h
  have hnext : next ctx.deeper (t :: lines ++ rest) = rest := next_cons hstop gap fresh
  unfold primary
  rw [gives_peek_bind, hhead]
  split at h
  · rename_i hkind
    rw [hkind, gives_advance_bind, hnext, gives_pure]
    exact ⟨h, rfl⟩
  · rename_i hkind
    obtain ⟨value, hvalue, he⟩ := h
    rw [hkind]
    dsimp only
    rw [hvalue, gives_advance_bind, hnext, gives_pure]
    exact ⟨he, rfl⟩
  · rename_i hkind
    rw [hkind, gives_advance_bind, hnext, gives_pure]
    exact ⟨h, rfl⟩
  · rename_i hkind
    obtain ⟨hname, he⟩ := h
    rw [hkind]
    dsimp only
    rw [if_pos hname, gives_advance_bind, hnext, gives_pure]
    exact ⟨he, rfl⟩
  · exact absurd h id

omit hp proper in
theorem primary_eq {o : Token} (hkind : o.kind = .delimiter) {e : Expr}
    (h : Gives (if o.text = "(" then parenthesis p ctx
      else if o.text = "[" then matrix p ctx
      else if o.text = "\x7b" then object p ctx
      else fail .valueExpected) (o :: front) e rest) : Gives (primary p ctx) (o :: front) e rest := by
  unfold primary
  rw [gives_peek_bind, head_cons, hkind]
  exact h

/-- An expression that is not followed by anything yet. -/
theorem primary_complete {e : Expr} (h : Spells ctx.nesting ctx.depth front (.expression e false))
    (legible : Legible false e) (hform : e.form = .constant ∨ e.form = .symbol ∨ e.form = .parenthesis
      ∨ e.form = .array ∨ e.form = .object) (closed : Closed rest) (fresh : Fresh ctx.nesting rest)
    (length : front.length ≤ m + 1) : Gives (primary p ctx.deeper) (front ++ rest) e rest := by
  cases h with
  | number _ ht _ gap =>
      refine gives_primary_of_token gap fresh ?_
      rw [ht]
  | string _ ht hvalue gap =>
      refine gives_primary_of_token gap fresh ?_
      rw [ht]
      exact ⟨_, hvalue, rfl⟩
  | name _ ht _ he gap =>
      refine gives_primary_of_token gap fresh ?_
      rw [ht]
      exact he
  | word _ ht hname _ gap =>
      refine gives_primary_of_token gap fresh ?_
      rw [ht]
      exact ⟨hname, rfl⟩
  | parenthesis _ ho gap h hc gap' =>
      simp only [List.length_append, List.length_cons] at length
      obtain ⟨hkind, htext⟩ := isDelimiter_iff.1 ho
      have hgives := parenthesis_complete hp proper ho gap h (legible_content legible) hc gap' closed fresh
        (by omega)
      simp only [List.append_assoc, List.cons_append] at hgives ⊢
      refine primary_eq hkind ?_
      rw [if_pos htext]
      exact hgives
  | @emptyArray _ _ o c lines lines' _ ho gap hc gap' =>
      obtain ⟨hkind, htext⟩ := isDelimiter_iff.1 ho
      have hnext : next ctx.deeper.inside (o :: lines ++ (c :: lines' ++ rest)) = c :: lines' ++ rest :=
        next_cons (kind_ne_of_isDelimiter ho (by decide)) (gap_succ.2 gap)
          (fun _ => kind_ne_of_isDelimiter hc (by decide))
      have hnext' : next ctx.deeper (c :: lines' ++ rest) = rest :=
        next_cons (kind_ne_of_isDelimiter hc (by decide)) gap' fresh
      have hgives : Gives (matrix p ctx.deeper) (o :: lines ++ (c :: lines' ++ rest)) (.array []) rest := by
        unfold matrix
        rw [gives_advance_bind, hnext, gives_peek_bind]
        dsimp only
        rw [if_pos (by exact hc), gives_advance_bind, hnext', gives_pure]
        exact ⟨rfl, rfl⟩
      rw [List.append_assoc]
      refine primary_eq hkind ?_
      rw [if_neg (by simp [htext]), if_pos htext]
      exact hgives
  | array _ ho gap h he hc gap' =>
      simp only [List.length_append, List.length_cons] at length
      obtain ⟨hkind, htext⟩ := isDelimiter_iff.1 ho
      have hgives := matrix_complete hp proper ho gap h (legible_rows (he 0) legible) he hc gap' closed fresh
        (by omega)
      simp only [List.append_assoc, List.cons_append] at hgives ⊢
      refine primary_eq hkind ?_
      rw [if_neg (by simp [htext]), if_pos htext]
      exact hgives
  | object _ ho gap h hc gap' =>
      simp only [List.length_append, List.length_cons] at length
      obtain ⟨hkind, htext⟩ := isDelimiter_iff.1 ho
      have hgives := object_complete hp proper ho gap h hc gap' closed fresh (by omega)
      simp only [List.append_assoc, List.cons_append] at hgives ⊢
      refine primary_eq hkind ?_
      rw [if_neg (by simp [htext]), if_neg (by simp [htext]), if_pos htext]
      exact hgives
  | assigned _ _ _ _ he =>
      rcases form_assigned he with h | h <;> rw [h] at hform <;> simp at hform
  | _ => simp [Expr.form, Expr.juxtapose] at hform

/-! ### Postfix operators, powers and prefix operators -/

/-- What one turn of the loop over postfix operators reads. -/
def postfixTurn (p : Productions) (ctx : Context) (e : Expr) : Parser (ForInStep Expr) := do
  let t ← peek
  match if t.kind = .operator then Operator.trailing? t.text else none with
  | some op =>
    advance ctx
    return .yield (← accesses p ctx (.operation t.text op.name [e] false))
  | none => return .done e

/-- Tokens begin with what accesses and postfix operators make of an expression. -/
inductive Postfixes (p : Productions) (ctx : Context) (tokens : List Token) : Expr → List Token → Prop
  | primary {e : Expr} {left : List Token} (h : Gives (primary p ctx) tokens e left) :
      Postfixes p ctx tokens e left
  | access {e e' : Expr} {left left' : List Token} (h : Postfixes p ctx tokens e left)
      (hs : Goes (accessTurn p ctx) e left e' left') (shorter : left'.length < left.length) :
      Postfixes p ctx tokens e' left'
  | operator {e : Expr} {left : List Token} {op : Operator} (h : Postfixes p ctx tokens e left)
      (hkind : (head left).kind = .operator) (hop : Operator.trailing? (head left).text = some op)
      (closed : Closed left) :
      Postfixes p ctx tokens (.operation (head left).text op.name [e] false) (next ctx left)

/-- Tokens begin with an expression and the postfix operators behind it, each with its accesses. -/
def ReachesPostfix (p : Productions) (ctx : Context) (tokens : List Token) (e : Expr)
    (left : List Token) : Prop :=
  ∃ base first between between', Gives (primary p ctx) tokens base between ∧
    Gives (accesses p ctx base) between first between' ∧
    Steps (postfixTurn p ctx) first between' e left

/-- Tokens begin with an expression with postfix operators, of which accesses are being read. -/
def ReachesAccess (p : Productions) (ctx : Context) (tokens : List Token) (e : Expr)
    (left : List Token) : Prop :=
  ∃ base between, Steps (accessTurn p ctx) base between e left ∧
    (Gives (primary p ctx) tokens base between ∨
      ∃ e' left' op, ReachesPostfix p ctx tokens e' left' ∧ (head left').kind = .operator ∧
        Operator.trailing? (head left').text = some op ∧
        base = .operation (head left').text op.name [e'] false ∧ between = next ctx left')

omit hp proper in
theorem ReachesAccess.andPostfixed {e : Expr} {tokens left : List Token}
    (h : ReachesAccess p ctx tokens e left) (hends : EndsAccesses e (head left)) (closed : Closed left) :
    ReachesPostfix p ctx tokens e left := by
  obtain ⟨base, between, hsteps, hprimary | ⟨e', left', op, hreaches, hkind, hop, rfl, rfl⟩⟩ := h
  · exact ⟨base, e, between, left, hprimary, hsteps.gives (stops_accesses hends) closed.ne_nil,
      .refl _ _⟩
  · obtain ⟨base, first, between, between', hprimary, haccesses, hsteps'⟩ := hreaches
    refine ⟨base, first, between, between', hprimary, haccesses, hsteps'.snoc ?_ ?_⟩
    · rw [Goes, postfixTurn, gives_peek_bind, if_pos hkind, hop, gives_advance_bind]
      exact gives_bind.2 ⟨e, left, hsteps.gives (stops_accesses hends) closed.ne_nil,
        gives_pure.2 ⟨rfl, rfl⟩⟩
    · exact Nat.lt_of_le_of_lt hsteps.length_le (length_next_lt ctx (by simp [hkind]))

omit hp proper in
theorem endsAccesses_of_operator {e : Expr} {t : Token} (h : t.kind = .operator) :
    EndsAccesses e t := by
  constructor <;> simp [Token.isDelimiter, h]

omit hp proper in
theorem Postfixes.reaches {e : Expr} {tokens left : List Token} (h : Postfixes p ctx tokens e left) :
    ReachesAccess p ctx tokens e left := by
  induction h with
  | primary h => exact ⟨_, _, .refl _ _, .inl h⟩
  | access _ hs shorter ih =>
      obtain ⟨base, between, hsteps, h⟩ := ih
      exact ⟨base, between, hsteps.snoc hs shorter, h⟩
  | operator _ hkind hop closed ih =>
      exact ⟨_, _, .refl _ _, .inr ⟨_, _, _, ih.andPostfixed (endsAccesses_of_operator hkind) closed, hkind,
        hop, rfl, rfl⟩⟩

omit hp proper in
theorem length_pos_of_list {n d : Nat} {opening closing : String} {es : List Expr}
    (h : Spells n d front (.list opening closing es)) : 0 < front.length := by
  cases h <;> simp

/-- Everything that is as tight as brackets is read by accesses and postfix operators. -/
theorem postfixes_complete {f : Bool} {e : Expr} (legible : Legible f e) (tight : 17 ≤ e.level f)
    (h : Spells ctx.nesting ctx.depth front (.expression e false)) (closed : Closed rest)
    (fresh : Fresh ctx.nesting rest) (length : front.length ≤ m + 1) :
    Postfixes p ctx.deeper (front ++ rest) e rest := by
  induction legible generalizing front rest with
  | call hcallee callable hargs ih =>
      obtain ⟨front, back, rfl, hfront, hback⟩ := h.as
      have hlevel := Expr.level_of_callable callable false
      have hline : Fresh ctx.nesting (back ++ rest) :=
        fun _ => kind_ne_of_isDelimiter (head_of_list hback rest) (by decide)
      simp only [List.length_append] at length
      have := length_pos_of_list hback
      rw [List.append_assoc]
      exact .access (ih (by omega) hfront (closed.append back) hline (by omega))
        (goes_call hp proper callable hback hargs closed fresh (by omega)) (by simp; omega)
  | index howner hlevel hdimensions ih =>
      obtain ⟨front, back, rfl, hfront, hback⟩ := h.as
      have hline : Fresh ctx.nesting (back ++ rest) :=
        fun _ => kind_ne_of_isDelimiter (head_of_list hback rest) (by decide)
      simp only [List.length_append] at length
      have := length_pos_of_list hback
      rw [List.append_assoc]
      exact .access (ih hlevel hfront (closed.append back) hline (by omega))
        (goes_index hp proper hback hdimensions closed fresh (by omega)) (by simp; omega)
  | property howner hlevel _ ih =>
      obtain ⟨front, dot, lines, t, lines', rfl, hdot, gap, hname, rfl, gap', hfront⟩ := h.as
      simp only [List.length_append] at length
      have hline : Fresh ctx.nesting (dot :: lines ++ (t :: lines' ++ rest)) :=
        fun _ => kind_ne_of_isDelimiter hdot (by decide)
      rw [List.append_assoc, List.append_assoc]
      refine .access (ih hlevel hfront ((closed.append _).append _) hline (by omega))
        (goes_property hdot gap hname gap' fresh) (by simp; omega)
  | postfixed hop _ hlevel ih =>
      obtain ⟨front, o, lines, op, rfl, ho, htext, hop', hname, gap, hfront⟩ |
        ⟨_, _, _, _, _, _, _, hop', _⟩ := h.as
      · obtain rfl := Option.some.inj (hop.symm.trans hop')
        subst htext
        have hnext : next ctx.deeper (o :: lines ++ rest) = rest := next_cons (by simp [ho]) gap fresh
        have closed' := closed.append (o :: lines)
        simp only [List.length_append] at length
        have hread := ih hlevel hfront closed' (fun _ => by simp [head_cons, ho]) (by omega)
        have := Postfixes.operator hread ho hop closed'
        rw [hnext] at this
        rw [List.append_assoc]
        exact this
      · rw [Operator.leading?_of_trailing hop] at hop'
        cases hop'
  | number lexical literal =>
      exact .primary (primary_complete hp proper h (.number lexical literal) (.inl rfl) closed fresh length)
  | string value => exact .primary (primary_complete hp proper h (.string value) (.inl rfl) closed fresh length)
  | name lexical he =>
      refine .primary (primary_complete hp proper h (.name lexical he) ?_ closed fresh length)
      rcases form_ofName _ with hform | hform
      · exact .inl (he ▸ hform)
      · exact .inr (.inl (he ▸ hform))
  | word hname infix_ =>
      exact .primary (primary_complete hp proper h (.word hname infix_) (.inr (.inl rfl)) closed fresh length)
  | parenthesis hcontent =>
      exact .primary (primary_complete hp proper h (.parenthesis hcontent) (.inr (.inr (.inl rfl))) closed fresh
        length)
  | array hitems =>
      exact .primary (primary_complete hp proper h (.array hitems) (.inr (.inr (.inr (.inl rfl)))) closed fresh
        length)
  | object hproperties nodup =>
      exact .primary (primary_complete hp proper h (.object hproperties nodup)
        (.inr (.inr (.inr (.inr rfl)))) closed fresh length)
  | power hspelling hop =>
      rw [Expr.level_binary] at tight
      obtain ⟨_, hlevel⟩ | ⟨_, _, _, hlevel⟩ := Operator.level_of_binary hop <;>
        split at tight <;> omega
  | prefixed hop => simp [Expr.level_prefixed hop] at tight
  | fraction hfraction => simp [Expr.level_binary, hfraction] at tight
  | juxtaposition => simp [Expr.level_juxtapose] at tight
  | binary hop weak =>
      rw [Expr.level_binary] at tight
      split at tight <;> omega
  | comparison | range | steppedRange | conditional => simp [Expr.level] at tight
  | assigned he => simp [Expr.level_assigned he] at tight

theorem postfixed_complete {e : Expr} (legible : Legible false e) (tight : 17 ≤ e.level false)
    (h : Spells ctx.nesting ctx.depth front (.expression e false)) (closed : Closed rest)
    (fresh : Fresh ctx.nesting rest) (hends : EndsTight e (head rest)) (length : front.length ≤ m + 1) :
    Gives (postfixed p ctx.deeper) (front ++ rest) e rest := by
  obtain ⟨base, first, between, between', hprimary, haccesses, hsteps⟩ :=
    (postfixes_complete hp proper legible tight h closed fresh length).reaches.andPostfixed hends.toEndsAccesses closed
  have hstop : Stops (postfixTurn p ctx.deeper) e rest e rest := by
    rw [Stops, postfixTurn, gives_peek_bind]
    split
    · rename_i op hop
      split at hop
      · rename_i hkind
        rw [hends.postfixed hkind] at hop
        cases hop
      · cases hop
    · exact gives_pure.2 ⟨rfl, rfl⟩
  exact gives_bind.2 ⟨base, between, hprimary, gives_bind.2 ⟨first, between', haccesses,
    hsteps.gives hstop closed.ne_nil⟩⟩

omit hp proper in
/-- Nothing weaker than postfix operators goes on with what is as tight as brackets. -/
theorem Ends.tight {e : Expr} {level : Nat} (h : Ends level ctx e rest) (hlevel : level ≤ 17) :
    EndsTight e (head rest) := by
  have none : strength? (head rest) ≠ some 17 := by
    intro hstrength
    have := h.weaker _ hstrength
    omega
  refine ⟨⟨h.call, ?_, ?_⟩, fun hkind => ?_⟩
  · rw [Bool.eq_false_iff]
    intro hdelimiter
    obtain ⟨hkind, htext⟩ := isDelimiter_iff.1 hdelimiter
    exact none (by simp [strength?, hkind, htext])
  · rw [Bool.eq_false_iff]
    intro hdelimiter
    obtain ⟨hkind, htext⟩ := isDelimiter_iff.1 hdelimiter
    exact none (by simp [strength?, hkind, htext])
  · cases hop : Operator.trailing? (head rest).text with
    | none => rfl
    | some op => exact absurd (by simp [strength?, hkind, hop]) none

omit hp proper in
theorem leading?_head_of_form {n d : Nat} {e : Expr} (h : Spells n d front (.expression e false))
    (hform : e.form = .constant ∨ e.form = .symbol ∨ e.form = .parenthesis ∨ e.form = .array
      ∨ e.form = .object) (hkind : (head (front ++ rest)).kind = .operator) :
    Operator.leading? (head (front ++ rest)).text = none := by
  have bracket : ∀ {o : Token} {text : String} {more : List Token}, o.isDelimiter text = true →
      front = o :: more → Operator.leading? (head (front ++ rest)).text = none := by
    rintro o text more ho rfl
    exact absurd hkind (kind_ne_of_isDelimiter ho (by decide))
  cases h with
  | number _ ht => exact absurd (ht.symm.trans hkind) (by decide)
  | string _ ht => exact absurd (ht.symm.trans hkind) (by decide)
  | name _ ht => exact absurd (ht.symm.trans hkind) (by decide)
  | word _ _ _ infix_ => exact infix_
  | parenthesis _ ho => exact bracket ho (by rw [List.append_assoc]; rfl)
  | emptyArray _ ho => exact bracket ho rfl
  | array _ ho => exact bracket ho (by rw [List.append_assoc]; rfl)
  | object _ ho => exact bracket ho (by rw [List.append_assoc]; rfl)
  | assigned _ _ _ _ he =>
      rcases form_assigned he with h | h <;> rw [h] at hform <;> simp at hform
  | _ => simp [Expr.form, Expr.juxtapose] at hform

omit hp proper in
/-- No prefix operator opens what is tighter than one. -/
theorem leading?_head {f : Bool} {e : Expr} (legible : Legible f e)
    (tight : 16 ≤ e.level f) {n d : Nat} (h : Spells n d front (.expression e false))
    (hkind : (head (front ++ rest)).kind = .operator) :
    Operator.leading? (head (front ++ rest)).text = none := by
  induction legible generalizing front rest with
  | call hcallee callable _ ih =>
      obtain ⟨front, back, rfl, hfront, _⟩ := h.as
      have hlevel := Expr.level_of_callable callable false
      rw [List.append_assoc] at hkind ⊢
      exact ih (by omega) hfront hkind
  | index howner hlevel _ ih =>
      obtain ⟨front, back, rfl, hfront, _⟩ := h.as
      rw [List.append_assoc] at hkind ⊢
      exact ih (by omega) hfront hkind
  | property howner hlevel _ ih =>
      obtain ⟨front, dot, lines, t, lines', rfl, _, _, _, _, _, hfront⟩ := h.as
      rw [List.append_assoc, List.append_assoc] at hkind ⊢
      exact ih (by omega) hfront hkind
  | postfixed hop _ hlevel ih =>
      obtain ⟨front, o, lines, op, rfl, _, _, _, _, _, hfront⟩ | ⟨_, _, _, _, _, _, _, hop', _⟩ := h.as
      · rw [List.append_assoc] at hkind ⊢
        exact ih (by omega) hfront hkind
      · rw [Operator.leading?_of_trailing hop] at hop'
        cases hop'
  | power hspelling hop hleft hlevel _ _ ih =>
      obtain ⟨front, o, lines, back, _, rfl, _, _, _, _, _, hfront, _⟩ := h.as
      rw [List.append_assoc, List.append_assoc] at hkind ⊢
      exact ih (by omega) hfront hkind
  | prefixed hop => simp [Expr.level_prefixed hop] at tight
  | fraction hfraction => simp [Expr.level_binary, hfraction] at tight
  | juxtaposition => simp [Expr.level_juxtapose] at tight
  | binary hop weak =>
      rw [Expr.level_binary] at tight
      split at tight <;> omega
  | comparison | range | steppedRange | conditional => simp [Expr.level] at tight
  | assigned he => simp [Expr.level_assigned he] at tight
  | name lexical he =>
      refine leading?_head_of_form h ?_ hkind
      rcases form_ofName _ with hform | hform
      · exact .inl (he ▸ hform)
      · exact .inr (.inl (he ▸ hform))
  | number | string | word | parenthesis | array | object =>
      exact leading?_head_of_form h (by simp [Expr.form, Expr.number, Expr.string]) hkind

omit hp proper in
theorem Ends.mono {e : Expr} {level level' : Nat} (h : Ends level ctx e rest) (hle : level ≤ level') :
    Ends level' ctx e rest :=
  ⟨fun strength hstrength => Nat.lt_of_lt_of_le (h.weaker strength hstrength) hle, h.call,
    fun hlevel => h.number (Nat.le_trans hle hlevel), fun hlevel => h.quotient (Nat.le_trans hle hlevel),
    fun hlevel => h.colon (Nat.le_trans hle hlevel)⟩

omit hp proper in
theorem endsTight_of_power {e : Expr} {o : Token} (ho : o.kind = .operator)
    (hspelling : o.text = "^" ∨ o.text = ".^") : EndsTight e o := by
  refine ⟨endsAccesses_of_operator ho, fun _ => ?_⟩
  rcases hspelling with h | h <;> rw [h] <;> decide

omit hp proper in
/-- What is tighter than a prefix operation and looser than brackets is a power. -/
theorem power_of_level {e : Expr} (legible : Legible false e) (tight : 16 ≤ e.level false)
    (loose : e.level false < 17) : ∃ spelling op left right,
      e = .operation spelling op.name [left, right] false ∧ (spelling = "^" ∨ spelling = ".^") ∧
      Operator.binary? spelling = some op ∧ Legible false left ∧ 17 ≤ left.level false ∧
      Legible false right ∧ 15 ≤ right.level false := by
  cases legible with
  | power hspelling hop hleft leftLevel hright rightLevel =>
      exact ⟨_, _, _, _, rfl, hspelling, hop, hleft, leftLevel, hright, rightLevel⟩
  | name _ he =>
      rw [← he, Expr.level_ofName] at loose
      omega
  | prefixed hop => simp [Expr.level_prefixed hop] at tight
  | postfixed hop => simp [Expr.level_postfixed hop] at loose
  | juxtaposition => simp [Expr.level_juxtapose] at tight
  | binary hop weak =>
      rw [Expr.level_binary] at tight
      split at tight <;> omega
  | assigned he => simp [Expr.level_assigned he] at tight
  | comparison | range | steppedRange | conditional => simp [Expr.level] at tight
  | _ => exact absurd loose (Nat.lt_irrefl 17)

theorem power_complete {e : Expr} (tight : 16 ≤ e.level false)
    (h : Reads 15 ctx (front ++ rest) e rest) (length : front.length ≤ m + 1) :
    Gives (power p ctx.deeper) (front ++ rest) e rest := by
  obtain ⟨front', htokens, hspelled⟩ := h.operand (by decide)
  obtain rfl := List.append_cancel_right htokens
  have legible := h.legible.of_tight h.tight false
  unfold power
  rcases Nat.lt_or_ge (e.level false) 17 with loose | tight'
  · obtain ⟨spelling, op, left, right, rfl, hspelling, hop, hleft, leftLevel, hright, rightLevel⟩ :=
      power_of_level legible tight loose
    obtain ⟨front, o, lines, back, op', rfl, ho, rfl, hop', hname, gap, hfront, hback⟩ := hspelled.as
    obtain rfl := Option.some.inj (hop.symm.trans hop')
    have hlevel : op.level = 16 := by
      obtain ⟨_, hlevel⟩ | ⟨h, h', _⟩ := Operator.level_of_binary hop
      · exact hlevel
      · exact absurd hspelling (not_or.2 ⟨h, h'⟩)
    rw [if_pos hlevel] at hback
    have begins := hback.begins rfl rest
    have hnext : nextLine ctx.deeper (o :: lines ++ (back ++ rest)) = back ++ rest :=
      nextLine_cons (by simp [ho]) gap begins.line
    simp only [List.length_append, List.length_cons] at length
    have hbase : Gives (postfixed p ctx.deeper) (front ++ (o :: lines ++ (back ++ rest))) left
        (o :: lines ++ (back ++ rest)) :=
      postfixed_complete hp proper hleft leftLevel hfront ((h.closed.append _).append _)
        (fun _ => by simp [head_cons, ho]) (endsTight_of_power ho hspelling) (by omega)
    have hexponent : Gives (p.operand ctx.deeper) (back ++ rest) right rest := by
      refine (hp.operand ctx.deeper proper).gives (by decide) ⟨hback.upTo rfl,
        hright.of_tight rightLevel _, Expr.le_level_of_tight (by decide) rightLevel _,
        .of_tight (by decide) h.ends.weaker h.ends.call, h.closed, h.fresh⟩ ?_
      rw [List.length_append]
      omega
    have hmem : spellingIn? ["^", ".^"] o = some o.text := by
      rw [spellingIn?, if_pos]
      rcases hspelling with h | h <;> simp [ho, h]
    simp only [List.append_assoc] at hbase ⊢
    refine gives_bind.2 ⟨left, _, hbase, ?_⟩
    rw [gives_operatorIn_bind, List.cons_append, head_cons, hmem]
    dsimp only
    rw [gives_advanceLine_bind, ← List.cons_append, hnext]
    exact gives_bind.2 ⟨right, rest, hexponent, gives_binary.2 ⟨op, hop, rfl, rfl⟩⟩
  · have hbase := postfixed_complete hp proper legible tight' hspelled h.closed h.fresh (h.ends.tight (by decide))
      length
    have hspelling : spellingIn? ["^", ".^"] (head rest) = none := by
      refine spellingIn?_eq_none.2 fun hkind => ?_
      rw [Bool.eq_false_iff]
      intro hmem
      have htext : (head rest).text = "^" ∨ (head rest).text = ".^" := by simpa using hmem
      have hop : ∃ op, Operator.binary? (head rest).text = some op ∧ op.level = 16 := by
        rcases htext with h | h <;> rw [h]
        · exact ⟨.pow, by decide, rfl⟩
        · exact ⟨.dotPow, by decide, rfl⟩
      obtain ⟨op, hop, hlevel⟩ := hop
      have := h.ends.weaker _ (strength?_of_binary hkind hop)
      omega
    refine gives_bind.2 ⟨e, rest, hbase, ?_⟩
    rw [gives_operatorIn_bind, hspelling, gives_pure]
    exact ⟨rfl, rfl⟩

omit hp proper in
theorem prefixed_of_level {e : Expr} (legible : Legible false e) (tight : 15 ≤ e.level false)
    (loose : e.level false < 16) : ∃ spelling op e', e = .operation spelling op.name [e'] false ∧
      Operator.leading? spelling = some op ∧ Legible false e' ∧ 15 ≤ e'.level false := by
  cases legible with
  | prefixed hop h level => exact ⟨_, _, _, rfl, hop, h, level⟩
  | power hspelling hop =>
      rw [Expr.level_binary] at loose
      obtain ⟨_, hlevel⟩ | ⟨h, h', _⟩ := Operator.level_of_binary hop
      · rw [if_neg (by rintro ⟨_, h, _⟩; cases h)] at loose
        omega
      · exact absurd hspelling (not_or.2 ⟨h, h'⟩)
  | name _ he =>
      rw [← he, Expr.level_ofName] at loose
      omega
  | postfixed hop => simp [Expr.level_postfixed hop] at loose
  | juxtaposition => simp [Expr.level_juxtapose] at tight
  | binary hop weak =>
      rw [Expr.level_binary] at tight
      split at tight <;> omega
  | assigned he => simp [Expr.level_assigned he] at tight
  | comparison | range | steppedRange | conditional => simp [Expr.level] at tight
  | _ => exact absurd (Nat.lt_of_lt_of_le loose (by decide : 16 ≤ 17)) (Nat.lt_irrefl 17)

theorem operand_complete : Complete 15 (m + 1) ctx (operand p ctx) := by
  intro tokens e rest h _ length
  obtain ⟨front, rfl, hspelled⟩ := h.operand (by decide)
  have legible := h.legible.of_tight h.tight false
  have tight := Expr.le_level_of_tight (by decide) h.tight false
  have deep : ctx.depth < maxDepth :=
    hspelled.deep e rfl (legible.opensRange_eq_false (Nat.le_trans (by decide) tight))
  rw [List.length_append] at length
  unfold operand
  rw [if_neg (Nat.not_le.2 deep), gives_peek_bind]
  rcases Nat.lt_or_ge (e.level false) 16 with loose | tight'
  · obtain ⟨spelling, op, e, rfl, hop, hlegible, hlevel⟩ := prefixed_of_level legible tight loose
    obtain ⟨_, _, _, op', _, _, _, hop', _⟩ | ⟨o, lines, back, op', rfl, ho, rfl, hop', _, gap, hback⟩ :=
      hspelled.as
    · rw [Operator.leading?_of_trailing hop'] at hop
      cases hop
    · have begins := hback.begins rfl rest
      have hhead : head (o :: lines ++ (back ++ rest)) = o := rfl
      have hnext : nextLine ctx.deeper (o :: lines ++ (back ++ rest)) = back ++ rest :=
        nextLine_cons (by simp [ho]) gap begins.line
      simp only [List.length_append, List.length_cons] at length
      have hcallable : (head rest).isDelimiter "(" = true → e.endsCallable = false := by
        intro hparen
        have := h.ends.call hparen
        rw [Expr.endsCallable, hop] at this
        simpa using this
      have hoperand : Gives (p.operand ctx.deeper) (back ++ rest) e rest := by
        refine (hp.operand ctx.deeper proper).gives (by decide) ⟨hback.upTo rfl,
          hlegible.of_tight hlevel _, Expr.le_level_of_tight (by decide) hlevel _,
          .of_tight (by decide) h.ends.weaker hcallable, h.closed, h.fresh⟩ ?_
        rw [List.length_append]
        omega
      rw [List.append_assoc, hhead, if_pos ho, hop]
      dsimp only
      rw [gives_advanceLine_bind, hnext]
      exact gives_bind.2 ⟨e, rest, hoperand, gives_pure.2 ⟨rfl, rfl⟩⟩
  · have hleading : (if (head (front ++ rest)).kind = .operator
        then Operator.leading? (head (front ++ rest)).text else none) = none := by
      split
      · exact leading?_head legible tight' hspelled ‹_›
      · rfl
    rw [hleading]
    exact power_complete hp proper tight' h (by omega)

end Brackets

end Formula.Grammar
