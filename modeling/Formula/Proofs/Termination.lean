import Formula.Proofs.Grammar.Progress

/-!
Reading ends on every source, within its tokens.

`Walk.parse` reads a source with one cursor: it looks a token up by its number, and it breaks off where
there is no such token, or where a loop or a production that contains itself has had as many turns as there
are tokens. It never does (`parse_progresses`). On every level of the grammar, from assignments to primary
expressions, it either fails like the production of that level, or comes to the same tree at a later token,
with everything else in its state as it was. What is read has at most `maxDepth` brackets, prefix operators
and exponents on the way to each leaf, all of which are counted where the walk passes them: the brackets of
a matrix of several rows are one pair, while its tree is an array of arrays.
-/

namespace Formula.Grammar

/-- The levels of the grammar that expressions are read on, from assignments to primary expressions. -/
inductive Level where
  | expression
  | conditional
  | range
  /-- The comparisons, with so many levels of operators around them. -/
  | loose (k : Nat)
  /-- The products by juxtaposition, with so many levels of operators around them. -/
  | tight (k : Nat)
  | fraction
  | operand
  /-- An operand that is counted. -/
  | signed
  | power
  | postfixed
  | primary

namespace Level

/-- The walk through a level. -/
def walk (r : Walk.Routines) : Level → Walk Walked
  | expression => Walk.expression r
  | conditional => Walk.conditional r
  | range => Walk.range r
  | loose k => Walk.levels (looseLevels.take k) (Walk.chain r)
  | tight k => Walk.levels (tightLevels.take k) (Walk.juxtaposition r)
  | fraction => Walk.fraction r
  | operand => Walk.operand r
  | signed => Walk.signed r
  | power => Walk.power r
  | postfixed => Walk.postfixed r
  | primary => Walk.primary r

/-- The production of a level. -/
def production (p : Productions) (ctx : Context) : Level → Parser Expr
  | expression => Grammar.expression p ctx
  | conditional => Grammar.conditional p ctx
  | range => Grammar.range p ctx
  | loose k => levels ctx (looseLevels.take k) (chain p ctx)
  | tight k => levels ctx (tightLevels.take k) (juxtaposition p ctx)
  | fraction => Grammar.fraction p ctx
  | operand => Grammar.operand p ctx
  | signed => Grammar.signed p ctx
  | power => Grammar.power p ctx
  | postfixed => Grammar.postfixed p ctx
  | primary => Grammar.primary p ctx

/-- What may be crossed on a level: an operand that is counted has room for what it counts. -/
def capacity : Level → Nat
  | signed | power | postfixed | primary => maxDepth + 1
  | _ => maxDepth

variable {tokens : List Token} {r : Walk.Routines} {p : Productions} {m n : Nat}

theorem advances (hr : r.Track tokens m p) (hn : n ≤ m + 1) (level : Level) (ctx : Context) :
    Advances tokens ctx n (Of ctx.depth level.capacity) (level.walk r) (level.production p ctx) := by
  cases level with
  | expression => exact advances_expression hr hn
  | conditional => exact advances_conditional hr hn
  | range => exact advances_range hr hn
  | loose k => exact advances_levels _ (fun _ hi => advances_chain hr hi) n hn
  | tight k => exact advances_levels _ (fun _ hi => advances_juxtaposition hr hi) n hn
  | fraction => exact advances_fraction hr hn
  | operand => exact advances_operand hr hn
  | signed => exact advances_signed hr hn
  | power => exact advances_power hr hn
  | postfixed => exact advances_postfixed hr hn
  | primary => exact advances_primary hr hn

end Level

/-- A source ends with the end that the scanner gives it. -/
theorem closed_scan (source : String) : Walk.closed (Token.scan source) = Token.scan source := by
  obtain ⟨tokens, stop, htokens, _⟩ := Token.exists_scanFrom 0 source.toList
  rw [Token.scan, htokens, Walk.closed, List.getLast?_concat]
  rfl

theorem closed_drop_scan {source : String} {index : Nat} (h : index < (Token.scan source).length) :
    Closed ((Token.scan source).drop index) := by
  obtain ⟨tokens, stop, htokens, _⟩ := Token.exists_scanFrom 0 source.toList
  rw [Token.scan, htokens] at h ⊢
  rw [List.length_append, List.length_singleton] at h
  rw [List.drop_append_of_le_length (by omega)]
  exact ⟨Token.stopAt stop, List.mem_append_right _ (List.mem_singleton_self _), rfl⟩

/-- What a walk from a token of a closed list comes to on a level. -/
theorem Level.walk_cases {tokens : List Token} (level : Level) (c : Cursor)
    (closed : Closed (tokens.drop c.index)) :
    (∃ e, level.walk (Walk.routines tokens.length) tokens c = .error (.error e) ∧
      level.production (productions tokens.length) c.toContext (tokens.drop c.index) = .error e) ∨
    ∃ w index, level.walk (Walk.routines tokens.length) tokens c = .ok (w, { c with index }) ∧
      c.index < index ∧ index < tokens.length ∧
      level.production (productions tokens.length) c.toContext (tokens.drop c.index)
        = .ok (w.tree, tokens.drop index) := by
  have hlength : (tokens.drop c.index).length ≤ tokens.length + 1 := by
    rw [List.length_drop]
    omega
  have hrun := level.advances (track_routines tokens tokens.length) hlength c.toContext c.index closed rfl
    trivial
  change Arrives tokens c.toContext _ (level.walk (Walk.routines tokens.length) tokens c) _ at hrun
  generalize level.walk (Walk.routines tokens.length) tokens c = walked at hrun ⊢
  generalize level.production _ c.toContext (tokens.drop c.index) = read at hrun ⊢
  cases hrun with
  | error e => exact .inl ⟨e, rfl, rfl⟩
  | @ok w e index h closed' =>
      obtain ⟨⟨rfl, _⟩, hlt⟩ := h
      rw [List.length_drop, List.length_drop] at hlt
      exact .inr ⟨w, index, rfl, by omega, lt_length closed', rfl⟩

/-- A source is walked over as it is parsed, and the trails of its tree are sound. -/
theorem walk_cases (text : String) :
    (∃ e, Walk.parse text = .error (.error e) ∧ Expr.parse text = .error e) ∨
    ∃ w, Walk.parse text = .ok w ∧ Expr.parse text = .ok w.tree ∧ w.Sound 0 maxDepth := by
  have closed : Closed ((Token.scan text).drop 0) := closed_scanFrom 0 text.toList
  have hrun := tracks_source (H := fun _ => True) (track_routines _ (Token.scan text).length)
    (Nat.le_refl _) 0 closed rfl trivial
  rw [List.drop_zero] at hrun
  have hwalk : Walk.parse text = (Walk.source (Walk.routines (Token.scan text).length) (Token.scan text)
      (Context.cursor {} 0)).map (·.1) := by
    rw [Walk.parse, closed_scan]
    rfl
  have hread : Expr.parse text
      = Prod.fst <$> source (productions (Token.scan text).length) (Token.scan text) := rfl
  rw [hwalk, hread]
  generalize Walk.source _ _ _ = walked at hrun ⊢
  generalize source _ _ = read at hrun ⊢
  cases hrun with
  | error e => exact .inl ⟨e, rfl, rfl⟩
  | @ok w e index h closed' =>
      obtain ⟨rfl, hsound⟩ := h
      exact .inr ⟨w, rfl, rfl, hsound⟩

/-- Reading makes progress and ends. From any token, the walk through a level of the grammar fails like the
production of the level, or it builds the tree that this reads, at a later token and with the rest of its
state as it was; and the walk over the whole source fails or ends like parsing it, with no more than
`maxDepth` crossings on the way to each leaf. In no case does it look for a token that does not exist, or
need more turns than there are tokens. -/
theorem parse_progresses (text : String) :
    let tokens := Walk.closed (Token.scan text)
    (∀ (level : Level) (c : Cursor), c.index < tokens.length →
      (∃ e, level.walk (Walk.routines tokens.length) tokens c = .error (.error e) ∧
        level.production (productions tokens.length) c.toContext (tokens.drop c.index) = .error e) ∨
      ∃ w index, level.walk (Walk.routines tokens.length) tokens c = .ok (w, { c with index }) ∧
        c.index < index ∧ index < tokens.length ∧
        level.production (productions tokens.length) c.toContext (tokens.drop c.index)
          = .ok (w.tree, tokens.drop index)) ∧
    ((∃ e, Walk.parse text = .error (.error e) ∧ Expr.parse text = .error e) ∨
      ∃ w, Walk.parse text = .ok w ∧ Expr.parse text = .ok w.tree ∧
        w.trails.map Trail.leaf = w.tree.leaves ∧ ∀ t ∈ w.trails, t.crossings.length ≤ maxDepth) := by
  rw [closed_scan]
  constructor
  · intro level c h
    exact level.walk_cases c (closed_drop_scan h)
  · obtain herror | ⟨w, hwalk, hread, hsound⟩ := walk_cases text
    · exact .inl herror
    · exact .inr ⟨w, hwalk, hread, hsound.leaves, hsound.crossings (Nat.zero_le _)⟩

/-- The two rows of a matrix are between one pair of brackets. -/
example : (Walk.parse "f([1; -a ^ 2])").toOption.map (fun w => w.trails.map (·.crossings))
    = some [[], [.bracket, .bracket], [.bracket, .bracket, .operator],
      [.bracket, .bracket, .operator, .exponent]] := by
  decide +kernel

end Formula.Grammar
