import Formula.Expr
import Formula.Text.Shown

/-!
The children of a node: where they stand, and how a node is put together anew from other ones.

Each child has a path, which says by what name and number its node holds it. `withChildren` undoes
`children` (`withChildren_children`), and whatever it builds has the children that it is given, as
long as there are as many as before.
-/

namespace Formula.Expr

/-- The path of the item at a place in a list of children. -/
def itemPath (slot : String) (i : Nat) : String :=
  slot ++ "[" ++ toString i ++ "]"

/-- The path of a property. -/
def propertyPath (key : String) : String :=
  "properties[" ++ Text.shown key ++ "]"

/-- The path of a statement. -/
def entryPath (i : Nat) : String :=
  itemPath "blocks" i ++ ".node"

/-- The members of a list of children with their paths. -/
def itemChildren (slot : String) (es : List Expr) : List (String × Expr) :=
  es.mapIdx fun i e => (itemPath slot i, e)

/-- The children of a node in the order of their slots, each with its path. -/
def children : Expr → List (String × Expr)
  | .constant .. | .symbol _ => []
  | .operation _ _ operands _ => itemChildren "args" operands
  | .call callee args => ("fn", callee) :: itemChildren "args" args
  | .range start stop none => [("start", start), ("end", stop)]
  | .range start stop (some step) => [("start", start), ("end", stop), ("step", step)]
  | .conditional condition yes no =>
    [("condition", condition), ("trueExpr", yes), ("falseExpr", no)]
  | .assignment target none value => [("object", target), ("value", value)]
  | .assignment target (some part) value =>
    [("object", target), ("index", part), ("value", value)]
  | .definition _ _ body => [("expr", body)]
  | .block entries => entries.mapIdx fun i entry => (entryPath i, entry.body)
  | .array items => itemChildren "items" items
  | .object properties => properties.map fun p => (propertyPath p.1, p.2)
  | .parenthesis e => [("content", e)]
  | .index dimensions _ => itemChildren "dimensions" dimensions
  | .access target part => [("object", target), ("index", part)]
  | .comparison _ operands => itemChildren "params" operands

/-- A node with other children, given in the order of their slots. A node stays as it is if it cannot
have that many. -/
def withChildren : Expr → List Expr → Expr
  | .operation spelling function _ juxtaposed, es => .operation spelling function es juxtaposed
  | .call _ _, callee :: args => .call callee args
  | .range _ _ none, [start, stop] => .range start stop none
  | .range _ _ (some _), [start, stop, step] => .range start stop (some step)
  | .conditional _ _ _, [condition, yes, no] => .conditional condition yes no
  | .assignment _ none _, [target, value] => .assignment target none value
  | .assignment _ (some _) _, [target, part, value] => .assignment target (some part) value
  | .definition name params _, [body] => .definition name params body
  | .block entries, es =>
    .block (List.zipWith (fun entry e => { entry with body := e }) entries es)
  | .array _, es => .array es
  | .object properties, es => .object (List.zipWith (fun p e => (p.1, e)) properties es)
  | .parenthesis _, [e] => .parenthesis e
  | .index _ dotted, es => .index es dotted
  | .access _ _, [target, part] => .access target part
  | .comparison functions _, es => .comparison functions es
  | e, _ => e

@[simp] theorem map_snd_itemChildren (slot : String) (es : List Expr) :
    (itemChildren slot es).map (·.2) = es := by
  apply List.ext_getElem <;> simp [itemChildren]

theorem mem_of_mem_itemChildren {slot : String} {es : List Expr} {p : String × Expr}
    (h : p ∈ itemChildren slot es) : p.2 ∈ es := by
  rw [← map_snd_itemChildren slot es]
  exact List.mem_map_of_mem h

/-- Children are smaller than their nodes. -/
@[grind →] theorem sizeOf_lt_of_mem_children {e : Expr} {p : String × Expr}
    (h : p ∈ e.children) : sizeOf p.2 < sizeOf e := by
  cases e with
  | constant | symbol => simp [children] at h
  | operation _ _ es _ | array es | index es _ | comparison _ es =>
    have := sizeOf_lt_of_mem (mem_of_mem_itemChildren h)
    grind
  | call callee args =>
    rcases List.mem_cons.1 h with rfl | h
    · grind
    · have := sizeOf_lt_of_mem (mem_of_mem_itemChildren h)
      grind
  | range start stop step => cases step <;> simp [children] at h <;> grind
  | conditional | definition | parenthesis | access => simp [children] at h; grind
  | assignment target part value => cases part <;> simp [children] at h <;> grind
  | block entries =>
    obtain ⟨i, hi, rfl⟩ := List.mem_mapIdx.1 h
    have := sizeOf_body_lt_of_mem (List.getElem_mem hi)
    grind
  | object properties =>
    obtain ⟨q, hq, rfl⟩ := List.mem_map.1 h
    have := sizeOf_snd_lt_of_mem hq
    grind

/-- Putting a node together from its own children gives the node. -/
@[simp] theorem withChildren_children (e : Expr) :
    e.withChildren (e.children.map (·.2)) = e := by
  cases e with
  | constant | symbol | conditional | definition | parenthesis | access => rfl
  | operation | array | index | comparison => simp [children, withChildren, map_snd_itemChildren]
  | call => simp [children, withChildren, map_snd_itemChildren]
  | range _ _ step => cases step <;> rfl
  | assignment _ part _ => cases part <;> rfl
  | block entries =>
    simp only [children, withChildren]
    congr 1
    apply List.ext_getElem <;> simp
  | object properties =>
    simp only [children, List.map_map, withChildren]
    congr 1
    apply List.ext_getElem <;> simp

/-- The children that a node is given are the ones that it has. -/
theorem children_withChildren (e : Expr) (es : List Expr) (h : es.length = e.children.length) :
    (e.withChildren es).children.map (·.2) = es := by
  cases e with
  | constant | symbol => simpa [children, withChildren, eq_comm] using h
  | operation | array | index | comparison =>
    simp [children, withChildren, map_snd_itemChildren]
  | call _ args =>
    match es with
    | callee :: args => simp [children, withChildren, map_snd_itemChildren]
  | range _ _ step =>
    match step, es with
    | none, [_, _] => rfl
    | some _, [_, _, _] => rfl
  | conditional =>
    match es with
    | [_, _, _] => rfl
  | assignment _ part _ =>
    match part, es with
    | none, [_, _] => rfl
    | some _, [_, _, _] => rfl
  | definition | parenthesis =>
    match es with
    | [_] => rfl
  | access =>
    match es with
    | [_, _] => rfl
  | block entries =>
    simp only [children, List.length_mapIdx] at h
    apply List.ext_getElem <;> simp [children, withChildren, h]
  | object properties =>
    simp only [children, List.length_map] at h
    apply List.ext_getElem <;> simp [children, withChildren, h]

end Formula.Expr
