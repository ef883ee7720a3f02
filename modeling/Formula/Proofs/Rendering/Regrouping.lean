import Formula.Proofs.Rendering.Enclosed
import Formula.Proofs.Rendering.Restorable

/-!
Reading again what was written without the parentheses of the tree.

What is read of a restorable expression only differs from it in parentheses and in how operations are
grouped (`regrouped_reading`), so a source is read again, apart from these, if each node of it is
restorable and each statement is `Settled` in front of the next one (`RereadsWithout`).
-/

namespace Formula.Expr

open Grammar Rendering

/-! ### What is regrouped -/

/-- A node is regrouped if its children are. -/
theorem Regrouped.map {f g : Expr → Expr} (parent : Expr) {es : List Expr}
    (h : ∀ e ∈ es, Regrouped (f e) (g e)) (front : List Expr) :
    Regrouped (parent.withChildren (front ++ es.map f)) (parent.withChildren (front ++ es.map g)) := by
  induction es generalizing front with
  | nil => exact .refl _
  | cons e es ih =>
      rw [List.forall_mem_cons] at h
      have hmore := ih h.2 (front ++ [g e])
      rw [List.append_assoc, List.append_assoc] at hmore
      exact (Regrouped.child parent front (es.map f) h.1).trans hmore

theorem Regrouped.ofStatements {f g : Expr → Expr} {entries : List (Entry Expr)}
    (h : ∀ entry ∈ entries, Regrouped (f entry.body) (g entry.body)) :
    Regrouped (ofStatements (entries.map (readLine f))) (ofStatements (entries.map (readLine g))) := by
  by_cases hone : ∃ e, entries = [{ body := e, visible := true }]
  · obtain ⟨e, rfl⟩ := hone
    exact h _ (List.mem_singleton_self _)
  · have many : ∀ (read : Expr → Expr) (e : Expr),
        entries.map (readLine read) ≠ [{ body := e, visible := true }] := by
      intro read e heq
      obtain ⟨entry, rfl, hentry⟩ := List.map_eq_singleton_iff.1 heq
      refine hone ⟨entry.body, ?_⟩
      rw [← show entry.visible = true from congrArg Entry.visible hentry]
    have children : ∀ read : Expr → Expr, Expr.block (entries.map (readLine read))
        = (Expr.block entries).withChildren ((entries.map Entry.body).map read) := by
      intro read
      rw [withChildren, List.map_map, List.zipWith_map_right, List.zipWith_self]
      rfl
    rw [ofStatements_of_ne (many f), ofStatements_of_ne (many g), children, children]
    exact Regrouped.map _ (by simpa using h) []

theorem bareAll_eq (es : List Expr) : bareAll es = es.map bare := by
  induction es with
  | nil => rfl
  | cons e es ih => rw [bareAll, ih, List.map_cons]

theorem bareEntries_eq (entries : List (Entry Expr)) :
    bareEntries entries = entries.map (readLine bare) := by
  induction entries with
  | nil => rfl
  | cons entry entries ih => rw [bareEntries, ih, List.map_cons, readLine]

theorem bareProperties_eq (properties : List (String × Expr)) :
    bareProperties properties = properties.map fun p => (p.1, p.2.bare) := by
  induction properties with
  | nil => rfl
  | cons p properties ih => rw [bareProperties, ih, List.map_cons]

/-- Nodes that are neither operations nor parentheses nor blocks are read from their children, apart from
parentheses. -/
theorem Partwise.bare_read {style : Style} {read : Expr → Expr} (partwise : Partwise style read)
    {e : Expr} (hform : e.form ≠ .operation ∧ e.form ≠ .parenthesis ∧ e.form ≠ .block) :
    (read e).bare = e.withChildren ((e.children.map (·.2)).map fun e => (read e).bare) := by
  cases e with
  | constant value kind =>
      rw [partwise.constant]
      rfl
  | symbol name =>
      rw [partwise.symbol]
      rfl
  | operation => exact absurd rfl hform.1
  | parenthesis => exact absurd rfl hform.2.1
  | block => exact absurd rfl hform.2.2
  | call callee args =>
      rw [partwise.call, bare, bare_enclosed, bareAll_eq, List.map_map]
      simp [children, withChildren]
  | range start stop step =>
      rw [partwise.range, bare, bare_enclosed, bare_enclosed]
      cases step with
      | none => rfl
      | some step =>
          rw [Option.map_some, bareOption, bare_enclosed]
          rfl
  | conditional =>
      rw [partwise.conditional, bare, bare_enclosed, bare_enclosed, bare_enclosed]
      rfl
  | assignment target part value =>
      rw [partwise.assignment, bare, bare_enclosed]
      cases part <;> rfl
  | definition =>
      rw [partwise.definition, bare, bare_enclosed]
      rfl
  | array =>
      rw [partwise.array, bare, bareAll_eq, List.map_map]
      simp [children, withChildren]
  | object =>
      rw [partwise.object, bare, bareProperties_eq, List.map_map, children, withChildren, List.map_map,
        List.map_map, List.zipWith_map_right, List.zipWith_self]
      rfl
  | index =>
      rw [partwise.index, bare, bareAll_eq, List.map_map]
      simp [children, withChildren]
  | access =>
      rw [partwise.access, bare, bare_enclosed]
      rfl
  | comparison =>
      rw [partwise.comparison, bare, bareAll_eq, List.map_map]
      simp [children, withChildren, bare_enclosed]

/-- An operation is read regrouped if the right operand of an operator that groups to the left joins it. -/
theorem regrouped_readOperation {spelling function : String} {operands : List Expr} {juxtaposed : Bool}
    (joins : ∀ (op : Operator) (left right : Expr), function = op.name → operands = [left, right] →
      juxtaposed = false → op.associativity = .left → right.joins op = true) :
    Regrouped (.operation spelling function (operands.map bare) juxtaposed)
      (readOperation spelling function operands juxtaposed).bare := by
  unfold readOperation
  split
  · rename_i op left right hop
    obtain rfl := Operator.name_of_ofName? hop
    split
    · rename_i grouping
      exact regrouped_absorb (joins op left right rfl rfl rfl grouping)
    · rw [bare, bareAll_eq]
      exact .refl _
  · rw [bare, bareAll_eq]
    exact .refl _

section

variable {j : Juxtaposition} {spelling function : String} {operands : List Expr} {juxtaposed : Bool}

theorem bare_readOperands :
    (readOperands j spelling function operands juxtaposed).map bare
      = operands.map fun e => (e.reading j).bare := by
  rw [readOperands, ← bareAll_eq, bareAll_enclosed, bareAll_eq, List.map_map]
  · rfl
  · rw [length_wrappedOperands, List.length_map]

theorem regrouped_operation
    (restorable : Restorable j (.operation spelling function operands juxtaposed)) :
    Regrouped (.operation spelling function (operands.map fun e => (e.reading j).bare) juxtaposed)
      ((Expr.operation spelling function operands juxtaposed).reading j).bare := by
  rw [reading_operation, ← bare_readOperands]
  refine (Regrouped.juxtaposed spelling function _ juxtaposed (juxtaposed && j = .hide)).trans
    (regrouped_readOperation fun op left' right' hfunction hoperands hspelled grouping => ?_)
  have hlength : operands.length = 2 := by
    have := congrArg List.length hoperands
    simpa [readOperands, length_wrappedOperands] using this
  obtain ⟨left, right, rfl⟩ := List.length_eq_two.1 hlength
  obtain rfl := hfunction
  obtain ⟨wrap, wrap', slots⟩ := exists_slots j spelling op left right juxtaposed
  have hspell : juxtaposed = true → j = .spell := by
    rintro rfl
    cases j with
    | hide => cases hspelled
    | spell => rfl
  rw [slots.operands] at hoperands
  cases hoperands
  exact (restorable.joins slots hspell grouping).1

end

/-- What is restorable is read regrouped. -/
theorem regrouped_reading {j : Juxtaposition} {e : Expr} (restorable : e.Everywhere (Restorable j)) :
    Regrouped e.bare (e.reading j).bare := by
  induction restorable with
  | @node e here _ ih =>
      have below : Regrouped (e.withChildren ((e.children.map (·.2)).map bare))
          (e.withChildren ((e.children.map (·.2)).map fun e => (e.reading j).bare)) :=
        Regrouped.map e ih []
      by_cases hform : e.form ≠ .operation ∧ e.form ≠ .parenthesis ∧ e.form ≠ .block
      · rw [← (partwise_reading j).bare_read hform] at below
        have hbare := (partwise_written {}).bare_read hform
        have hwritten : ∀ e : Expr, (e.written {}).bare = e.bare := bare_written rfl
        simp only [hwritten] at hbare
        rwa [hbare]
      · cases e with
        | operation spelling function operands juxtaposed =>
            rw [bare, bareAll_eq]
            simp only [children, map_snd_itemChildren, withChildren] at below
            exact below.trans (regrouped_operation here)
        | parenthesis e =>
            rw [(partwise_reading j).parenthesis, bare_enclosed]
            exact ih e (by simp [children])
        | block entries =>
            rw [map_snd_children_block, List.forall_mem_map] at ih
            rw [reading_block, bare, bare, bareEntries_eq, bareEntries_eq, List.map_map]
            show Regrouped (Expr.ofStatements (entries.map (readLine bare)))
              (Expr.ofStatements (entries.map (readLine fun e => (e.reading j).bare)))
            exact Regrouped.ofStatements ih
        | _ => exact absurd (by simp [form]) hform

/-! ### Lines -/

theorem readable_sparing (j : Juxtaposition) : Readable (.sparing j) (reading j) (Restorable j) :=
  { partwise_reading j with
    name := fun _ => trivial
    target := Restorable.of_assigned
    point := fun {owner name} h restorable => by
      obtain ⟨tight, hwhole⟩ : Restorable j (.access owner (.property name)) := restorable.here
      have hread := h.reading (restorable.child _ (by simp [children])) (firm_of_alone j owner)
      exact hread.takesPoint_enclosed (level_readOwner tight)
        ((isWhole_reading j owner).trans (hwhole rfl))
    legible := fun {e} h restorable => h.reading restorable (firm_of_alone j e) }

/-- Whether a statement in front of another one is read on its own: it ends in no product with a quotient
of numbers that the next line held together, and in no quotient that is held together as it is read. -/
def Settled (j : Juxtaposition) (entry next : Entry Expr) : Prop :=
  entry.visible = true →
    (j = .hide → next.body.opening.isFactor = true → entry.body.exposesFraction = false) ∧
      ((next.body.reading j).opening.isFactor = true → (entry.body.reading j).exposesQuotient = false)

section

variable {j : Juxtaposition} {entry next : Entry Expr}

/-- What is read of a statement is legible in front of what is read of the next one. -/
theorem Settled.legible {f : Bool} (h : Settled j entry next) (legible : Legible f entry.body)
    (restorable : entry.body.Everywhere (Restorable j))
    (followed : f = true → entry.visible = true ∧ next.body.opening.isFactor = true) :
    Legible (entry.visible && (next.body.reading j).opening.isFactor) (entry.body.reading j) := by
  have alone : Legible false (entry.body.reading j) := by
    cases j with
    | spell =>
        have hread := legible.reading restorable (firm_of_loose (Bool.and_false f) _)
        rwa [meetsFactor_loose (Bool.and_false f)] at hread
    | hide =>
        refine Legible.reading ?_ restorable (firm_of_alone .hide entry.body)
        cases f with
        | false => exact legible
        | true =>
            obtain ⟨visible, hopens⟩ := followed rfl
            exact legible.of_unfollowed ((h visible).1 rfl hopens)
  cases hvisible : entry.visible with
  | false => exact alone
  | true =>
      cases hopens : (next.body.reading j).opening.isFactor with
      | false => exact alone
      | true => exact alone.of_followed rfl ((h hvisible).2 hopens)

theorem rereadable_sparing : Rereadable (.sparing j) (reading j) (Restorable j) (Settled j) :=
  { readable_sparing j with
    plain := fun _ => rfl
    block := reading_block j
    line := fun settled legible restorable _ followed => settled.legible legible restorable followed }

end

/-! ### Sources -/

/-- What it takes for an expression to be read again from its text without the parentheses of the tree,
apart from how operations are grouped: each node is restorable, each statement is settled in front of the
next one, and what is read is not nested too deeply. -/
structure RereadsWithout (j : Juxtaposition) (e : Expr) : Prop where
  restorable : e.Everywhere (Restorable j)
  lines : ∀ entries, e = .block entries → entries.IsChain (Settled j)
  shallow : (e.reading j).nesting < maxDepth

/-- What was read is read again from its text without the parentheses of the tree, apart from how
operations are grouped. -/
theorem rereads_without {source : String} {j : Juxtaposition} {e : Expr} (h : parse source = .ok e)
    (rereads : e.RereadsWithout j) :
    ∃ e', parse (e.render (.sparing j)) = .ok e' ∧ Regrouped e.bare e'.bare := by
  refine ⟨_, rereadable_sparing.parse_render h rereads.restorable rereads.lines rereads.shallow, ?_⟩
  rw [bare_singled]
  exact regrouped_reading rereads.restorable

/-- The statements of a source with a difference that is added, and a product with a power of a sum. -/
def sums : Expr :=
  let difference := .parenthesis (.apply .subtract [.symbol "b", .symbol "c"])
  let sum := .parenthesis (.apply .add [.symbol "a", .symbol "b"])
  .block [
    { body := .assignment (.symbol "y") none (.apply .add [.symbol "a", difference]), visible := false },
    { body := .juxtapose (.number "2") (.apply .pow [sum, .number "2"]), visible := true }]

theorem sums_rereads (j : Juxtaposition) : sums.RereadsWithout j := by
  have number : ∀ text, (Expr.number text).Everywhere (Restorable j) :=
    fun _ => .node trivial (List.forall_mem_nil _)
  have symbol : ∀ name, (Expr.symbol name).Everywhere (Restorable j) :=
    fun _ => .node trivial (List.forall_mem_nil _)
  have enclosed : ∀ {e : Expr}, e.Everywhere (Restorable j) →
      (Expr.parenthesis e).Everywhere (Restorable j) :=
    fun h => .node trivial (by simpa [children] using h)
  have difference : (Expr.apply .subtract [.symbol "b", .symbol "c"]).Everywhere (Restorable j) :=
    everywhere_apply.2 ⟨fun _ => ⟨rfl, (absurd · (by decide))⟩, by simp [symbol]⟩
  have total : (Expr.apply .add [.symbol "a", .parenthesis (.apply .subtract [.symbol "b", .symbol "c"])])
      |>.Everywhere (Restorable j) :=
    everywhere_apply.2 ⟨fun _ => ⟨rfl, (absurd · (by decide))⟩, by simp [symbol, enclosed difference]⟩
  have sum : (Expr.apply .add [.symbol "a", .symbol "b"]).Everywhere (Restorable j) :=
    everywhere_apply.2 ⟨fun _ => ⟨rfl, (absurd · (by decide))⟩, by simp [symbol]⟩
  have power : (Expr.apply .pow [.parenthesis (.apply .add [.symbol "a", .symbol "b"]), .number "2"])
      |>.Everywhere (Restorable j) :=
    everywhere_apply.2 ⟨(absurd · (by decide)), by simp [number, enclosed sum]⟩
  have product : (Expr.juxtapose (.number "2") (.apply .pow
      [.parenthesis (.apply .add [.symbol "a", .symbol "b"]), .number "2"])).Everywhere
        (Restorable j) := by
    refine .node ?_ (by simp [children, juxtapose, number, power])
    cases j with
    | hide => exact ⟨⟨.inl rfl, fun _ => rfl⟩, (absurd · (by decide)), (absurd · (by decide))⟩
    | spell => exact fun _ => ⟨rfl, (absurd · (by decide))⟩
  have assigned : (Expr.assignment (.symbol "y") none (.apply .add
      [.symbol "a", .parenthesis (.apply .subtract [.symbol "b", .symbol "c"])])).Everywhere
        (Restorable j) := .node trivial (by simp [children, symbol, total])
  refine ⟨.node trivial (by simp [sums, children, assigned, product]), ?_, ?_⟩
  · rintro _ ⟨⟩
    exact .cons_cons (absurd · Bool.false_ne_true) (.singleton _)
  · cases j <;> decide +kernel

/-- A difference that is regrouped, and a product that stays one in front of parentheses. -/
theorem rereads_without_sums : parse "y = a + (b - c); 2 (a + b)^2" = .ok sums ∧
    ∀ j, sums.RereadsWithout j ∧
      ∃ e', parse (sums.render (.sparing j)) = .ok e' ∧ Regrouped sums.bare e'.bare := by
  have source : parse "y = a + (b - c); 2 (a + b)^2" = .ok sums := by decide +kernel
  exact ⟨source, fun j => ⟨sums_rereads j, rereads_without source (sums_rereads j)⟩⟩

end Formula.Expr
