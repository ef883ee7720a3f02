import Formula.Proofs.Grammar.Completeness
import Formula.Proofs.Grammar.Soundness

/-!
Sources of any number of statements.

`Sourced` says which tokens make a source and what it stands for: expressions, each read on its own,
with separators between them. `ofTokens_eq_ok_iff` says that the grammar reads these sources and no
others.
-/

namespace Formula.Grammar

open Expr (Legible)
open Reading (repeatedly)

variable {p : Productions} {tokens rest : List Token} {e : Expr}

/-! ### What statements give -/

theorem ofTokens_eq_ok :
    ofTokens tokens = .ok e ↔ ∃ rest, Gives (source (productions tokens.length)) tokens e rest := by
  unfold ofTokens Gives
  show (·.1) <$> source (productions tokens.length) tokens = _ ↔ _
  cases source (productions tokens.length) tokens with
  | error fault => exact ⟨nofun, nofun⟩
  | ok result =>
      obtain ⟨e', rest⟩ := result
      constructor
      · intro h
        obtain rfl := Except.ok.inj h
        exact ⟨rest, rfl⟩
      · rintro ⟨rest', h⟩
        obtain ⟨rfl, rfl⟩ : e' = e ∧ rest = rest' := by simpa using h
        rfl

theorem gives_source :
    Gives (source p) tokens e rest ↔ Gives (statements p) tokens e rest ∧ (head rest).kind = .stop := by
  unfold source
  rw [gives_bind]
  constructor
  · rintro ⟨e', left, h, hend⟩
    rw [gives_peek_bind] at hend
    split at hend
    · obtain ⟨rfl, rfl⟩ := gives_pure.1 hend
      exact ⟨h, ‹_›⟩
    all_goals exact absurd hend gives_fail
  · rintro ⟨h, hend⟩
    refine ⟨e, rest, h, ?_⟩
    rw [gives_peek_bind, hend]
    exact gives_pure.2 ⟨rfl, rfl⟩

theorem gives_statement {entries : List (Entry Expr)} :
    Gives (statement p) tokens entries rest ↔
      ((head tokens).kind = .stop ∨ separates (head tokens) = true) ∧ entries = [] ∧ tokens = rest ∨
        ¬((head tokens).kind = .stop ∨ separates (head tokens) = true) ∧
          ∃ body, Gives (p.expression {}) tokens body rest ∧
            entries = [{ body, visible := !(head rest).isDelimiter ";" }] := by
  unfold statement
  rw [gives_peek_bind]
  split
  · rename_i h
    rw [gives_pure]
    constructor
    · rintro ⟨rfl, rfl⟩
      exact .inl ⟨h, rfl, rfl⟩
    · rintro (⟨_, rfl, rfl⟩ | ⟨h', _⟩)
      · exact ⟨rfl, rfl⟩
      · exact absurd h h'
  · rename_i h
    rw [gives_bind]
    constructor
    · rintro ⟨body, left, hbody, hentry⟩
      rw [gives_peek_bind, gives_pure] at hentry
      obtain ⟨rfl, rfl⟩ := hentry
      exact .inr ⟨h, body, hbody, rfl⟩
    · rintro (⟨h', _⟩ | ⟨_, body, hbody, rfl⟩)
      · exact absurd h' h
      · exact ⟨body, rest, hbody, gives_peek_bind.2 (gives_pure.2 ⟨rfl, rfl⟩)⟩

/-- A turn of the loop over statements. -/
def statementTurn (p : Productions) (entries : List (Entry Expr)) :
    Parser (ForInStep (List (Entry Expr))) := do
  if separates (← peek) then
    advance {}
    return .yield ((← statement p).reverse ++ entries)
  else
    return .done entries

theorem gives_statementTurn {entries : List (Entry Expr)} {s : ForInStep (List (Entry Expr))} :
    Gives (statementTurn p entries) tokens s rest ↔
      separates (head tokens) = true ∧ (∃ more, Gives (statement p) (next {} tokens) more rest ∧
          s = .yield (more.reverse ++ entries)) ∨
        separates (head tokens) = false ∧ s = .done entries ∧ tokens = rest := by
  unfold statementTurn
  rw [gives_peek_bind]
  split
  · rename_i h
    rw [gives_advance_bind, gives_bind]
    simp only [h, gives_pure, true_and, Bool.true_eq_false, false_and, or_false]
    constructor
    · rintro ⟨more, left, hmore, rfl, rfl⟩
      exact ⟨more, hmore, rfl⟩
    · rintro ⟨more, hmore, rfl⟩
      exact ⟨more, rest, hmore, rfl, rfl⟩
  · rename_i h
    rw [gives_pure]
    simp [h, eq_comm]

/-- What statements make, if there is a separator behind the first one or not. -/
def ofEntries (separated : Bool) : List (Entry Expr) → Expr
  | [] => .undefined
  | [entry] => if separated then .block [entry] else entry.body
  | entries => .block entries

theorem ofEntries_cons {entry : Entry Expr} {entries : List (Entry Expr)} :
    ofEntries true (entry :: entries) = .block (entry :: entries) := by
  cases entries <;> rfl

theorem gives_statements : Gives (statements p) tokens e rest ↔
    ∃ first left entries, Gives (statement p) tokens first left ∧
      Gives (repeatedly first.reverse (statementTurn p)) left entries rest ∧
      ofEntries (separates (head left)) entries.reverse = e := by
  unfold statements
  rw [gives_bind]
  have made : ∀ {entries : List (Entry Expr)} {left left' : List Token},
      Gives (match entries with
        | [] => return .undefined
        | [entry] => return if separates (head left) then .block [entry] else entry.body
        | entries => return .block entries : Parser Expr) left' e rest ↔
        ofEntries (separates (head left)) entries = e ∧ left' = rest := by
    intro entries left left'
    unfold ofEntries
    split <;> exact gives_pure
  constructor
  · rintro ⟨first, left, hfirst, h⟩
    rw [gives_peek_bind, gives_bind] at h
    obtain ⟨entries, left', hentries, h⟩ := h
    obtain ⟨rfl, rfl⟩ := made.1 h
    exact ⟨first, left, entries, hfirst, hentries, rfl⟩
  · rintro ⟨first, left, entries, hfirst, hentries, h⟩
    refine ⟨first, left, hfirst, ?_⟩
    rw [gives_peek_bind, gives_bind]
    exact ⟨entries, rest, hentries, made.2 ⟨h, rfl⟩⟩

/-! ### What statements are spelled by -/

/-- Tokens of statements with their separators. -/
inductive Statements : List (Entry Expr) → List Token → Prop
  | stop {tokens : List Token} (closed : tokens ≠ []) (h : (head tokens).kind = .stop) :
      Statements [] tokens
  | separator {tokens : List Token} {t : Token} {entries : List (Entry Expr)}
      (ht : separates t = true) (more : Statements entries tokens) : Statements entries (t :: tokens)
  | last {tokens rest : List Token} {e : Expr} (h : Reads 0 {} tokens e rest)
      (stop : (head rest).kind = .stop) : Statements [{ body := e, visible := true }] tokens
  | cons {tokens rest : List Token} {t : Token} {e : Expr} {entries : List (Entry Expr)}
      (h : Reads 0 {} tokens e (t :: rest)) (ht : separates t = true)
      (more : Statements entries rest) :
      Statements ({ body := e, visible := !t.isDelimiter ";" } :: entries) tokens

/-- Tokens behind a statement, with those of the statements that follow. -/
inductive Behind : List (Entry Expr) → List Token → Prop
  | stop {tokens : List Token} (closed : tokens ≠ []) (h : (head tokens).kind = .stop) :
      Behind [] tokens
  | separator {tokens : List Token} {t : Token} {entries : List (Entry Expr)}
      (ht : separates t = true) (more : Statements entries tokens) : Behind entries (t :: tokens)

/-- Tokens of a source. -/
inductive Sourced : Expr → List Token → Prop
  | none {tokens : List Token} (closed : tokens ≠ []) (h : (head tokens).kind = .stop) :
      Sourced .undefined tokens
  | one {tokens rest : List Token} {e : Expr} (h : Reads 0 {} tokens e rest)
      (stop : (head rest).kind = .stop) : Sourced e tokens
  | separator {tokens : List Token} {t : Token} {entries : List (Entry Expr)}
      (ht : separates t = true) (more : Statements entries tokens) :
      Sourced (ofEntries true entries) (t :: tokens)
  | many {tokens rest : List Token} {t : Token} {e : Expr} {entries : List (Entry Expr)}
      (h : Reads 0 {} tokens e (t :: rest)) (ht : separates t = true)
      (more : Statements entries rest) :
      Sourced (.block ({ body := e, visible := !t.isDelimiter ";" } :: entries)) tokens

theorem kind_ne_stop_of_separates {t : Token} (h : separates t = true) : t.kind ≠ .stop := by
  intro hkind
  simp [separates, hkind, Token.isDelimiter] at h

theorem next_cons_of_separates {t : Token} (h : separates t = true) : next {} (t :: tokens) = tokens := by
  rw [next, if_pos rfl, head_cons, if_neg (kind_ne_stop_of_separates h), List.tail_cons]

theorem eq_cons_of_separates (h : separates (head tokens) = true) :
    tokens = head tokens :: next {} tokens := by
  have hcons := eq_head_cons (kind_ne_stop_of_separates h)
  rw [hcons, head_cons, next_cons_of_separates h]

theorem not_separates_of_stop {t : Token} (h : t.kind = .stop) : separates t = false := by
  rw [Bool.eq_false_iff]
  exact fun hsep => kind_ne_stop_of_separates hsep h

theorem visible_of_stop {t : Token} (h : t.kind = .stop) : t.isDelimiter ";" = false := by
  simp [Token.isDelimiter, h]

/-- Statements that make no entry are separators alone. -/
theorem Statements.separators (h : Statements [] tokens) : ∃ front rest, tokens = front ++ rest ∧
    (∀ t ∈ front, separates t = true) ∧ rest ≠ [] ∧ (head rest).kind = .stop := by
  generalize hentries : ([] : List (Entry Expr)) = entries at h
  induction h with
  | stop closed h => exact ⟨[], _, rfl, nofun, closed, h⟩
  | separator ht more ih =>
      obtain ⟨front, rest, rfl, hfront, hclosed, hstop⟩ := ih hentries
      refine ⟨_ :: front, rest, rfl, ?_, hclosed, hstop⟩
      rw [List.forall_mem_cons]
      exact ⟨ht, hfront⟩
  | last => cases hentries
  | cons => cases hentries

/-- Statements make a block, unless there is none or a visible one alone. -/
theorem Statements.sourced {entries : List (Entry Expr)} (h : Statements entries tokens)
    (some : entries ≠ []) (many : ∀ e, entries ≠ [{ body := e, visible := true }]) :
    Sourced (.block entries) tokens := by
  cases h with
  | stop => exact absurd rfl some
  | separator ht more =>
      cases entries with
      | nil => exact absurd rfl some
      | cons entry entries => exact ofEntries_cons ▸ .separator ht more
  | last => exact absurd rfl (many _)
  | cons h ht more => exact .many h ht more

/-! ### Soundness -/

theorem statement_sound (hsound : p.Sound) (ready : Ready tokens) {first : List (Entry Expr)}
    (h : Gives (statement p) tokens first rest) : Ready rest ∧ rest.length ≤ tokens.length ∧
      ∀ more, Behind more rest → Statements (first ++ more) tokens := by
  rcases gives_statement.1 h with ⟨_, rfl, rfl⟩ | ⟨_, body, hbody, rfl⟩
  · refine ⟨ready, Nat.le_refl _, fun more hmore => ?_⟩
    cases hmore with
    | stop closed h => exact .stop closed h
    | separator ht more => exact .separator ht more
  · have hreads := hsound.expression {} _ _ _ ready hbody
    refine ⟨hreads.ready ready, Nat.le_of_lt hreads.length_lt, fun more hmore => ?_⟩
    cases hmore with
    | stop closed h =>
        rw [visible_of_stop h]
        exact .last hreads h
    | separator ht more => exact .cons hreads ht more

theorem statementTurn_sound (hsound : p.Sound) {entries : List (Entry Expr)}
    {s : ForInStep (List (Entry Expr))} (ready : Ready tokens)
    (h : Gives (statementTurn p entries) tokens s rest) :
    match s with
    | .yield entries' => Ready rest ∧ rest.length < tokens.length ∧
        ∃ first, entries' = first.reverse ++ entries ∧
          ∀ more, Behind more rest → Behind (first ++ more) tokens
    | .done entries' => entries' = entries ∧ rest = tokens := by
  rcases gives_statementTurn.1 h with ⟨hsep, first, hfirst, rfl⟩ | ⟨_, rfl, rfl⟩
  · have hstop := kind_ne_stop_of_separates hsep
    obtain ⟨hready, hlength, hmore⟩ := statement_sound hsound (ready.next {} hstop) hfirst
    refine ⟨hready, Nat.lt_of_le_of_lt hlength (length_next_lt {} hstop), first, rfl, ?_⟩
    intro more hbehind
    rw [eq_cons_of_separates hsep]
    exact .separator hsep (hmore more hbehind)
  · exact ⟨rfl, rfl⟩

/-- The loop over statements adds those that follow. -/
theorem behind_sound (hsound : p.Sound) {first entries : List (Entry Expr)} (ready : Ready tokens)
    (h : Gives (repeatedly first (statementTurn p)) tokens entries rest)
    (hstop : (head rest).kind = .stop) : ∃ more, entries = more.reverse ++ first ∧ Behind more tokens := by
  refine gives_repeatedly
    (fun entries left => Ready left ∧ ∃ read, entries = read.reverse ++ first ∧
      ∀ more, Behind more left → Behind (read ++ more) tokens)
    (fun entries left => (head left).kind = .stop →
      ∃ more, entries = more.reverse ++ first ∧ Behind more tokens)
    (fun _ _ h => h.1.1.ne_nil) ?_ ⟨ready, [], rfl, fun _ h => h⟩ h hstop
  rintro entries left s left' ⟨hready, read, rfl, hread⟩ hs
  have hturn := statementTurn_sound hsound hready hs
  cases s with
  | done entries' =>
      obtain ⟨rfl, rfl⟩ := hturn
      exact fun hstop => ⟨read, rfl, by simpa using hread [] (.stop hready.1.ne_nil hstop)⟩
  | yield entries' =>
      obtain ⟨hready', hlt, more, rfl, hmore⟩ := hturn
      refine ⟨⟨hready', read ++ more, by simp, fun entries hentries => ?_⟩, hlt⟩
      rw [List.append_assoc]
      exact hread _ (hmore entries hentries)

/-- What a source is read as is spelled by its tokens. -/
theorem ofTokens_sound (ready : Ready tokens) (h : ofTokens tokens = .ok e) : Sourced e tokens := by
  have hsound := productions_sound tokens.length
  obtain ⟨rest, h⟩ := ofTokens_eq_ok.1 h
  obtain ⟨hstatements, hstop⟩ := gives_source.1 h
  obtain ⟨first, left, entries, hfirst, hloop, rfl⟩ := gives_statements.1 hstatements
  obtain ⟨hready, _⟩ := statement_sound hsound ready hfirst
  obtain ⟨more, rfl, hmore⟩ := behind_sound hsound hready hloop hstop
  rw [List.reverse_append, List.reverse_reverse, List.reverse_reverse]
  rcases gives_statement.1 hfirst with ⟨_, rfl, rfl⟩ | ⟨_, body, hbody, rfl⟩
  · cases hmore with
    | stop closed h => exact .none closed h
    | separator ht more => 
        rw [head_cons, ht]
        exact .separator ht more
  · have hreads := hsound.expression {} _ _ _ ready hbody
    cases hmore with
    | stop closed h =>
        rw [not_separates_of_stop h]
        exact .one hreads h
    | separator ht more =>
        rw [head_cons, ht]
        exact ofEntries_cons ▸ .many hreads ht more

/-! ### Completeness -/

/-- An expression does not start with a separator. -/
theorem Reads.opens_statement (h : Reads 0 {} tokens e rest) :
    ¬((head tokens).kind = .stop ∨ separates (head tokens) = true) := by
  obtain ⟨front, g, rfl, hspells, _⟩ := h.spelled
  have hbegins := hspells.begins rfl rest
  rintro (hstop | hsep)
  · exact hbegins.stop hstop
  · rcases Bool.or_eq_true_iff.1 hsep with hline | hsemicolon
    · exact hbegins.line (by simpa using hline)
    · obtain ⟨hkind, htext⟩ := isDelimiter_iff.1 hsemicolon
      have := hbegins.bracket hkind
      rw [htext] at this
      exact absurd this (by decide)

theorem Reads.statement {n : Nat} (h : Reads 0 {} tokens e rest) (length : tokens.length ≤ n) :
    Gives (statement (productions n)) tokens
      [{ body := e, visible := !(head rest).isDelimiter ";" }] rest := by
  refine gives_statement.2 (.inr ⟨h.opens_statement, e, ?_, rfl⟩)
  exact (productions_complete n).expression {} nofun tokens e rest h nofun (by omega)

/-- Statements are read one by one. -/
theorem Statements.statement {n : Nat} {entries : List (Entry Expr)} (h : Statements entries tokens)
    (length : tokens.length ≤ n) : ∃ first more rest, entries = first ++ more ∧
      Gives (statement (productions n)) tokens first rest ∧ Behind more rest ∧
        rest.length ≤ tokens.length := by
  cases h with
  | stop closed h =>
      exact ⟨[], [], tokens, rfl, gives_statement.2 (.inl ⟨.inl h, rfl, rfl⟩), .stop closed h,
        Nat.le_refl _⟩
  | separator ht more =>
      exact ⟨[], entries, _, rfl, gives_statement.2 (.inl ⟨.inr ht, rfl, rfl⟩),
        .separator ht more, Nat.le_refl _⟩
  | last h stop =>
      have hfirst := h.statement length
      rw [visible_of_stop stop] at hfirst
      exact ⟨_, [], _, rfl, hfirst, .stop h.closed.ne_nil stop, Nat.le_of_lt h.length_lt⟩
  | cons h ht more =>
      exact ⟨_, _, _, rfl, h.statement length, .separator ht more, Nat.le_of_lt h.length_lt⟩

/-- The loop over statements takes a step for each separator. -/
theorem Behind.steps {n : Nat} {entries : List (Entry Expr)} (h : Behind entries tokens)
    (length : tokens.length ≤ n) (first : List (Entry Expr)) :
    ∃ rest, Steps (statementTurn (productions n)) first tokens (entries.reverse ++ first) rest ∧
      rest ≠ [] ∧ (head rest).kind = .stop := by
  induction hlength : tokens.length using Nat.strongRecOn generalizing entries tokens first with
  | ind k ih =>
      cases h with
      | stop closed h => exact ⟨tokens, .refl _ _, closed, h⟩
      | @separator tokens t _ ht more =>
          rw [List.length_cons] at length hlength
          obtain ⟨read, entries', left, rfl, hread, hbehind, hle⟩ := more.statement (n := n) (by omega)
          obtain ⟨rest, hsteps, hclosed, hstop⟩ :=
            ih left.length (by omega) hbehind (by omega) (read.reverse ++ first) rfl
          have hgoes : Goes (statementTurn (productions n)) first (t :: tokens)
              (read.reverse ++ first) left := by
            refine gives_statementTurn.2 (.inl ⟨ht, read, ?_, rfl⟩)
            rw [next_cons_of_separates ht]
            exact hread
          refine ⟨rest, .head hgoes (by rw [List.length_cons]; omega) ?_, hclosed, hstop⟩
          rw [List.reverse_append, List.append_assoc]
          exact hsteps

theorem Behind.loop {n : Nat} {entries : List (Entry Expr)} (h : Behind entries tokens)
    (length : tokens.length ≤ n) (first : List (Entry Expr)) :
    ∃ rest, Gives (repeatedly first (statementTurn (productions n))) tokens
        (entries.reverse ++ first) rest ∧ (head rest).kind = .stop := by
  obtain ⟨rest, hsteps, hclosed, hstop⟩ := h.steps length first
  have hends : Stops (statementTurn (productions n)) (entries.reverse ++ first) rest
      (entries.reverse ++ first) rest :=
    gives_statementTurn.2 (.inr ⟨not_separates_of_stop hstop, rfl, rfl⟩)
  exact ⟨rest, hsteps.gives hends hclosed, hstop⟩

theorem ofTokens_of_statement {first more : List (Entry Expr)}
    (hfirst : Gives (statement (productions tokens.length)) tokens first rest)
    (hmore : Behind more rest) (length : rest.length ≤ tokens.length) :
    ofTokens tokens = .ok (ofEntries (separates (head rest)) (first ++ more)) := by
  obtain ⟨left, hloop, hstop⟩ := hmore.loop length first.reverse
  refine ofTokens_eq_ok.2 ⟨left, gives_source.2 ⟨gives_statements.2 ⟨first, rest, _, hfirst, hloop, ?_⟩,
    hstop⟩⟩
  rw [List.reverse_append, List.reverse_reverse, List.reverse_reverse]

/-- Tokens of a source are read as what they spell. -/
theorem Sourced.ofTokens (h : Sourced e tokens) : ofTokens tokens = .ok e := by
  cases h with
  | none closed h =>
      have hfirst : Gives (statement (productions tokens.length)) tokens [] tokens :=
        gives_statement.2 (.inl ⟨.inl h, rfl, rfl⟩)
      exact ofTokens_of_statement hfirst (.stop closed h) (Nat.le_refl _)
  | one h stop =>
      have hread := ofTokens_of_statement (h.statement (Nat.le_refl _))
        (.stop h.closed.ne_nil stop) (Nat.le_of_lt h.length_lt)
      rw [not_separates_of_stop stop] at hread
      exact hread
  | @separator left t entries ht more =>
      have hfirst : Gives (statement (productions (t :: left).length)) (t :: left) [] (t :: left) :=
        gives_statement.2 (.inl ⟨.inr ht, rfl, rfl⟩)
      have hread := ofTokens_of_statement hfirst (.separator ht more) (Nat.le_refl _)
      rw [head_cons, ht] at hread
      exact hread
  | many h ht more =>
      have hread := ofTokens_of_statement (h.statement (Nat.le_refl _)) (.separator ht more)
        (Nat.le_of_lt h.length_lt)
      rw [head_cons, ht] at hread
      exact ofEntries_cons ▸ hread

/-- A source is read as what its tokens spell, and as nothing else. -/
theorem ofTokens_eq_ok_iff (ready : Ready tokens) : Grammar.ofTokens tokens = .ok e ↔ Sourced e tokens :=
  ⟨ofTokens_sound ready, Sourced.ofTokens⟩

end Formula.Grammar
