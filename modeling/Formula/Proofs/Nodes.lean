import Formula.Expr.Children

/-!
Properties of all nodes of an expression.
-/

namespace Formula.Expr

/-- Whether every node of an expression has a property. -/
inductive Everywhere (P : Expr → Prop) : Expr → Prop
  | node {e : Expr} (here : P e) (below : ∀ e' ∈ e.children.map (·.2), Everywhere P e') :
      Everywhere P e

variable {P Q : Expr → Prop} {e : Expr}

theorem Everywhere.here (h : Everywhere P e) : P e := by
  cases h with
  | node here => exact here

theorem Everywhere.child (h : Everywhere P e) : ∀ e' ∈ e.children.map (·.2), Everywhere P e' := by
  cases h with
  | node _ below => exact below

theorem Everywhere.mono (h : Everywhere P e) (himp : ∀ e, P e → Q e) : Everywhere Q e := by
  induction h with
  | node here _ ih => exact .node (himp _ here) ih

theorem Everywhere.and (hP : Everywhere P e) (hQ : Everywhere Q e) :
    Everywhere (fun e => P e ∧ Q e) e := by
  induction hP with
  | node here _ ih => exact .node ⟨here, hQ.here⟩ fun e' h' => ih e' h' (hQ.child e' h')

theorem everywhere_apply {op : Operator} {operands : List Expr} : (apply op operands).Everywhere P ↔
    P (apply op operands) ∧ ∀ e ∈ operands, e.Everywhere P := by
  have hchildren : (apply op operands).children.map (·.2) = operands :=
    map_snd_itemChildren _ operands
  constructor
  · exact fun h => ⟨h.here, fun e he => h.child e (hchildren.symm ▸ he)⟩
  · exact fun ⟨here, below⟩ => .node here fun e he => below e (hchildren ▸ he)

theorem everywhere_unary {op : Operator} : (apply op [e]).Everywhere P ↔
    P (apply op [e]) ∧ e.Everywhere P := by
  rw [everywhere_apply, List.forall_mem_singleton]

theorem everywhere_binary {op : Operator} {left right : Expr} :
    (apply op [left, right]).Everywhere P ↔
    P (apply op [left, right]) ∧ left.Everywhere P ∧ right.Everywhere P := by
  rw [everywhere_apply, List.forall_mem_cons, List.forall_mem_singleton]

theorem map_snd_children_block (entries : List (Entry Expr)) :
    (Expr.block entries).children.map (·.2) = entries.map (·.body) := by
  rw [children]
  exact List.ext_getElem (by simp) (by simp)

theorem map_snd_children_object (properties : List (String × Expr)) :
    (Expr.object properties).children.map (·.2) = properties.map (·.2) := by
  rw [children, List.map_map]
  rfl

theorem Everywhere.entry {entries : List (Entry Expr)} (h : Everywhere P (.block entries)) :
    ∀ entry ∈ entries, Everywhere P entry.body := by
  rw [← List.forall_mem_map (f := fun entry : Entry Expr => entry.body), ← map_snd_children_block]
  exact h.child

theorem Everywhere.property {properties : List (String × Expr)} (h : Everywhere P (.object properties)) :
    ∀ p ∈ properties, Everywhere P p.2 := by
  rw [← List.forall_mem_map (f := fun p : String × Expr => p.2), ← map_snd_children_object]
  exact h.child

end Formula.Expr
