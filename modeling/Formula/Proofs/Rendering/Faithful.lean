import Formula.Expr.Equality
import Formula.Proofs.Rendering.Statements

/-!
Reading what was written.

What is read of the text of an expression that was read itself is known for every style that is
`Rereadable` (`Rereadable.parse_render`). In the default style it is the expression, apart from
parentheses, unless a number takes the point of a property for its own, or parentheses that are added turn
a product into a call or take a quotient of numbers apart (`Rereads`).
-/

namespace Formula.Expr

open Grammar

/-- Whether the text of the expression of a source is read as the same expression, apart from
parentheses. -/
def Faithful (source : String) : Prop :=
  ∀ e, parse source = .ok e → ∃ e', parse e.text = .ok e' ∧ e'.bare = e.bare

/-- What is written of `2 .b` is a product. -/
theorem not_faithful : ¬ Faithful "2 .b" := by
  intro h
  have source : parse "2 .b" = .ok (.access (.number "2") (.property "b")) := by decide +kernel
  have text : (Expr.access (.number "2") (.property "b")).text = "2.b" := by decide +kernel
  have again : parse "2.b" = .ok (.juxtapose (.number "2.") (.symbol "b")) := by decide +kernel
  obtain ⟨e', hparse, hbare⟩ := h _ source
  rw [text, again] at hparse
  obtain rfl := Except.ok.inj hparse
  cases hbare

/-- What it takes for the text of an expression to be read as the expression: each node is written so
that its tokens are read as the node, so is each statement in front of the next one, and no further
parentheses nest it too deeply. -/
structure Rereads (e : Expr) : Prop where
  regular : e.Everywhere Regular
  lines : ∀ entries, e = .block entries → entries.IsChain Separable
  shallow : (e.written {}).nesting < maxDepth

/-- A source is a legible expression, or a block of statements. -/
theorem legible_of_parse {source : String} {e : Expr} (h : parse source = .ok e) :
    Legible false e ∨ ∃ entry entries, e = .block (entry :: entries) ∧ LegibleLines (entry :: entries) := by
  have absent : Legible false .undefined := .name (by decide +kernel : Token.isIdentifier "undefined" = true) rfl
  have hsourced := ofTokens_sound (ready_scan source) h
  generalize Token.scan source = tokens at hsourced
  cases hsourced with
  | none => exact .inl absent
  | one h stop =>
      have hlegible := h.legible
      rw [followed_of_stop stop] at hlegible
      exact .inl hlegible
  | @separator _ _ entries ht more =>
      cases entries with
      | nil => exact .inl absent
      | cons entry entries => exact .inr ⟨entry, entries, ofEntries_cons, more.legible⟩
  | many h ht more => exact .inr ⟨_, _, rfl, (Statements.cons h ht more).legible⟩

/-- An expression, or what the statements of a block are read as. -/
def singled : Expr → Expr
  | .block entries => ofStatements entries
  | e => e

theorem Legible.singled_eq {f : Bool} {e : Expr} (h : Legible f e) : e.singled = e := by
  have apart : e.form ≠ .block := by
    cases h with
    | name _ he => rcases form_ofName _ with h | h <;> rw [← he, h] <;> decide
    | assigned he => rcases form_assigned he with h | h <;> rw [h] <;> decide
    | _ => exact fun h => Form.noConfusion h
  cases e with
  | block => exact absurd rfl apart
  | _ => rfl

theorem bare_ofStatements (entries : List (Entry Expr)) :
    (ofStatements entries).bare = ofStatements (bareEntries entries) := by
  unfold ofStatements
  split
  · rfl
  · rw [bare]
    rfl

theorem bare_singled (e : Expr) : e.singled.bare = e.bare := by
  cases e with
  | block entries => rw [singled, bare_ofStatements, bare]
  | _ => rfl

/-- The text of what was read is read as it is meant, if each of its nodes and lines is. -/
theorem Rereadable.parse_render {style : Style} {read : Expr → Expr} {P : Expr → Prop}
    {R : Entry Expr → Entry Expr → Prop} (rereadable : Rereadable style read P R) {source : String}
    {e : Expr} (h : parse source = .ok e) (everywhere : e.Everywhere P)
    (lines : ∀ entries, e = .block entries → entries.IsChain R) (shallow : (read e).nesting < maxDepth) :
    parse (e.render style) = .ok (read e).singled := by
  obtain legible | ⟨entry, entries, rfl, legible⟩ := legible_of_parse h
  · have told := legible.told_read rereadable.plain rereadable.toReadable everywhere
    have hread := rereadable.legible legible everywhere
    rw [hread.singled_eq]
    exact parse_of_tells (told 0 0 (by omega)) hread
  · have told := legible.told rereadable everywhere.entry (lines _ rfl)
    rw [rereadable.block] at shallow ⊢
    exact told.parse_render rereadable.plain shallow

/-- A source whose expression can be read again is faithful. -/
theorem faithful_of_rereads {source : String} (h : ∀ e, parse source = .ok e → e.Rereads) :
    Faithful source := by
  intro e he
  have rereads := h e he
  refine ⟨_, rereadable_text.parse_render he rereads.regular rereads.lines rereads.shallow, ?_⟩
  rw [bare_singled, bare_written rfl]

/-- The statements of a source of products, fractions, assignments and indexes. -/
def halves : Expr :=
  let half := .operation "/" "divide" [.number "1", .number "2"] false
  let first := .index [.number "1"] false
  .block [
    { body := .assignment (.symbol "y") none (.juxtapose half (.symbol "x")), visible := false },
    { body := .apply .unaryMinus [.access (.symbol "y") first], visible := true },
    { body := .symbol "z", visible := true }]

theorem halves_rereads : halves.Rereads := by
  have number : ∀ text, (Expr.number text).Everywhere Regular := fun _ => .node trivial (List.forall_mem_nil _)
  have symbol : ∀ name, (Expr.symbol name).Everywhere Regular := fun _ => .node trivial (List.forall_mem_nil _)
  have half : (Expr.operation "/" "divide" [.number "1", .number "2"] false).Everywhere Regular :=
    .node trivial (by simp [children, number])
  have product : (Expr.juxtapose (.operation "/" "divide" [.number "1", .number "2"] false)
      (.symbol "x")).Everywhere Regular :=
    .node ⟨by decide +kernel, by decide +kernel⟩ (by simp [children, juxtapose, half, symbol])
  have first : (Expr.index [.number "1"] false).Everywhere Regular :=
    .node trivial (by simp [children, number])
  have element : (Expr.access (.symbol "y") (.index [.number "1"] false)).Everywhere Regular :=
    .node trivial (by simp [children, symbol, first])
  have negative : (Expr.apply .unaryMinus [.access (.symbol "y") (.index [.number "1"] false)]).Everywhere
      Regular := .node trivial (by simp [children, apply, element])
  have assigned : (Expr.assignment (.symbol "y") none (.juxtapose
      (.operation "/" "divide" [.number "1", .number "2"] false) (.symbol "x"))).Everywhere Regular :=
    .node trivial (by simp [children, symbol, product])
  refine ⟨.node trivial (by simp [halves, children, symbol, negative, assigned]), ?_, by decide +kernel⟩
  rintro _ ⟨⟩
  exact .cons_cons (absurd · Bool.false_ne_true) (.cons_cons (fun _ _ => ⟨by decide +kernel, by decide +kernel⟩) (.singleton _))

/-- Statements on lines of their own, of which one ends in a product with a fraction. -/
theorem faithful_halves : parse "y = 1/2x; -y[1]\nz" = .ok halves ∧ halves.Rereads ∧
    Faithful "y = 1/2x; -y[1]\nz" := by
  have source : parse "y = 1/2x; -y[1]\nz" = .ok halves := by decide +kernel
  refine ⟨source, halves_rereads, faithful_of_rereads fun e he => ?_⟩
  obtain rfl := Except.ok.inj (source.symm.trans he)
  exact halves_rereads

/-- Whether the text of the expression of a source, without its parentheses, is read as the same
expression apart from the grouping. -/
def FaithfulWithout (source : String) : Prop :=
  ∀ e, parse source = .ok e → ∀ juxtaposition, ∃ e',
    parse (e.render { parentheses := .auto, juxtaposition }) = .ok e' ∧ Regrouped e.bare e'.bare

/-- What is written of `(a + b)[1]` without its parentheses is a sum. -/
theorem not_faithfulWithout : ¬ FaithfulWithout "(a + b)[1]" := by
  intro h
  let sum := Expr.apply .add [.symbol "a", .symbol "b"]
  let one := Expr.index [.number "1"] false
  have source : parse "(a + b)[1]" = .ok (.access (.parenthesis sum) one) := by decide +kernel
  have text : (Expr.access (.parenthesis sum) one).render
      { parentheses := .auto, juxtaposition := .hide } = "a + b[1]" := by decide +kernel
  have again : parse "a + b[1]" = .ok (.apply .add [.symbol "a", .access (.symbol "b") one]) := by
    decide +kernel
  obtain ⟨e', hparse, hgrouped⟩ := h _ source .hide
  rw [text, again] at hparse
  obtain rfl := Except.ok.inj hparse
  exact nomatch hgrouped.form_eq

end Formula.Expr
