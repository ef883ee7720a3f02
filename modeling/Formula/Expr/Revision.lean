import Formula.Expr.Rebuilding
import Formula.Expr.WellFormed

/-!
Visiting the nodes of a tree, and revising it.

A revision says which nodes of the new tree are nodes of the old one: everything that no replacement
touches is kept as it is, and only the nodes above a replacement are built anew. Replacements are
used as they are and not looked into.
-/

namespace Formula

/-- A node on the way through a tree: its path from its parent, which the root does not have. -/
structure Visit where
  path : String
  node : Expr
  parent : Option Expr

/-- A revised tree, and where its nodes come from. -/
inductive Revision where
  /-- The old tree. -/
  | kept (e : Expr)
  /-- Another tree in its place. -/
  | replaced (e : Expr)
  /-- The old node with revised children. -/
  | rebuilt (e : Expr) (parts : List Revision)

namespace Revision

/-- The new tree. -/
def result : Revision → Expr
  | .kept e | .replaced e | .rebuilt e _ => e

/-- Whether a tree is the old one. -/
def isKept : Revision → Bool
  | .kept _ => true
  | _ => false

/-- Which children of the new tree are children of the old one, side by side. -/
def keptChildren (old : Expr) : Revision → List Bool
  | .kept e => e.children.map fun _ => true
  | .replaced e => List.zipWith (fun _ _ => false) old.children e.children
  | .rebuilt _ parts => parts.map isKept

/-- What becomes of a visited node, given its replacement. -/
def ofAnswer (v : Visit) : Option Expr → Revision
  | some new => .replaced new
  | none => .kept v.node

/-- The new tree, once note has been taken of the revision. -/
def note {m : Type → Type} [Monad m] (part : Revision) : StateT (List Revision) m Expr := do
  modify (· ++ [part])
  return part.result

/-- A node with revised children, if its parts still make sense. -/
def rebuild (old : Expr) (parts : List Revision) : Except ShapeError Revision :=
  (old.withChildren (parts.map result)).checked.map (.rebuilt · parts)

end Revision

namespace Expr

/-- The visits of a tree, parents before their children. -/
def visitsFrom (v : Visit) : List Visit :=
  v :: v.node.children.attach.flatMap fun ⟨p, _⟩ =>
    visitsFrom { path := p.1, node := p.2, parent := some v.node }
termination_by sizeOf v.node
decreasing_by grind

/-- The visits of a tree from its root. -/
def visits (e : Expr) : List Visit :=
  visitsFrom { path := "", node := e, parent := none }

/-- The nodes of a tree, parents before their children. -/
def nodes (e : Expr) : List Expr :=
  e.visits.map (·.node)

/-- The visits of the children of a node. -/
def childVisits (e : Expr) : List Visit :=
  e.children.map fun p => { path := p.1, node := p.2, parent := some e }

/-- The nodes of a tree whose visits satisfy a condition. -/
def filter (condition : Visit → Bool) (e : Expr) : List Expr :=
  (e.visits.filter condition).map (·.node)

/-- A node whose children are revised one after another, not checked, and their revisions. -/
def reviseChildren {m : Type → Type} [Monad m] (e : Expr)
    (revise : (v : Visit) → sizeOf v.node < sizeOf e → m Revision) : m (Expr × List Revision) :=
  let node : StateT (List Revision) m Expr := e.mapChildren fun path child h => do
    let part ← revise { path, node := child, parent := some e } h
    part.note
  node.run []

/-- A node with some of its children replaced, which are asked for their replacements in order. -/
def mapM {m : Type → Type} [Monad m] (replace : Visit → m (Option Expr)) (e : Expr) :
    m (Except ShapeError Revision) := do
  let (node, parts) ← e.reviseChildren fun v _ => do
    return .ofAnswer v (← replace v)
  return node.checked.map (.rebuilt · parts)

/-- A node with some of its children replaced. -/
def map (replace : Visit → Option Expr) (e : Expr) : Except ShapeError Revision :=
  Id.run (e.mapM fun v => pure (replace v))

/-- A visited tree with some of its nodes replaced. Each node is asked for its replacement before its
children are, and the children of a replaced node are not. -/
def transformFrom {σ : Type} (replace : Visit → StateM σ (Option Expr)) (v : Visit) :
    ExceptT ShapeError (StateM σ) Revision := do
  match ← replace v with
  | some new => return .replaced new
  | none =>
    let (node, parts) ← v.node.reviseChildren fun child _ => transformFrom replace child
    if parts.all Revision.isKept then
      return .kept v.node
    else
      ExceptT.mk (pure (node.checked.map (.rebuilt · parts)))
termination_by sizeOf v.node

/-- A tree with some of its nodes replaced. -/
def transform {σ : Type} (replace : Visit → StateM σ (Option Expr)) (e : Expr) :
    ExceptT ShapeError (StateM σ) Revision :=
  transformFrom replace { path := "", node := e, parent := none }

/-- Every node of a tree has the parts that it needs. -/
def WellFormed (e : Expr) : Prop :=
  ∀ node ∈ e.nodes, node.check = .ok ()

end Expr

end Formula
