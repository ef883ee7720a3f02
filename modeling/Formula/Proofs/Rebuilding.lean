import Formula.Expr.Revision
import Formula.Proofs.Computation

/-!
What it means to rebuild a node.

A node is rebuilt by asking for its children, one after another in the order in which it lists them,
and putting what becomes of them in their places (`mapChildren_eq`). A revision of the children takes
note of what becomes of each on the way (`reviseChildren_eq`).
-/

namespace Formula.Expr

variable {m : Type → Type} [Monad m] [LawfulMonad m]

/-! ### The children of a node -/

theorem mapItems_eq (slot : String) (es : List Expr) (f : String → Expr → m Expr) :
    (mapItems slot es fun path child _ => f path child)
      = (itemChildren slot es).mapM fun p => f p.1 p.2 :=
  mapM_attach (itemChildren slot es) fun p => f p.1 p.2

/-- A node asks for its children in the order in which it lists them, by the same paths, and has what
becomes of them in their places. -/
theorem mapChildren_eq (e : Expr) (f : String → Expr → m Expr) :
    (e.mapChildren fun path child _ => f path child)
      = e.withChildren <$> e.children.mapM fun p => f p.1 p.2 := by
  cases e with
  | constant | symbol => simp [mapChildren, children, withChildren]
  | operation | array | index | comparison =>
    rw [mapChildren, mapItems_eq, bind_pure_comp]
    rfl
  | call =>
    simp [mapChildren, mapItems_eq, children, withChildren, List.mapM_cons]
  | conditional | definition | parenthesis | access =>
    simp [mapChildren, children, withChildren, List.mapM_cons]
  | range _ _ step | assignment _ step _ =>
    cases step <;> simp [mapChildren, children, withChildren, List.mapM_cons]
  | block entries =>
    have hzip : entries.zipIdx = entries.attach.zipIdx.map (Prod.map Subtype.val id) := by
      rw [← List.zipIdx_map, List.attach_map_subtype_val]
    have hbodies : (entries.attach.zipIdx.mapM fun p => do
        let body ← f (entryPath p.2) p.1.1.body
        return { p.1.1 with body }) = entries.zipIdx.mapM fun p =>
          (fun body => { p.1 with body }) <$> f (entryPath p.2) p.1.body := by
      rw [hzip, List.mapM_map]
      simp only [bind_pure_comp]
      rfl
    rw [mapChildren, hbodies, mapM_put, children, List.mapIdx_eq_zipIdx_map, List.mapM_map,
      bind_pure_comp, Functor.map_map]
    refine congrArg (· <$> _) (funext fun bodies => congrArg block ?_)
    exact zipWith_zipIdx (fun (entry : Entry Expr) body => { entry with body }) entries bodies
  | object properties =>
    have hvalues : (properties.attach.mapM fun p => do
        let value ← f (propertyPath p.1.1) p.1.2
        return (p.1.1, value)) = properties.mapM fun p =>
          (fun value => (p.1, value)) <$> f (propertyPath p.1) p.2 := by
      simp only [bind_pure_comp]
      exact mapM_attach properties fun p => (fun value => (p.1, value)) <$> f (propertyPath p.1) p.2
    rw [mapChildren, hvalues, mapM_put, children, List.mapM_map, bind_pure_comp,
      Functor.map_map]
    rfl

/-! ### Revisions -/

@[simp] theorem run_note (part : Revision) (noted : List Revision) :
    (part.note (m := m)).run noted = pure (part.result, noted ++ [part]) := by
  simp [Revision.note]

/-- Taking notes on the way is taking note of what there is in the end. -/
theorem mapM_note {α : Type} (revise : α → m Revision) (as : List α) (noted : List Revision) :
    StateT.run (as.mapM fun a => (do (← revise a).note : StateT (List Revision) m Expr)) noted
        = (fun parts => (parts.map Revision.result, noted ++ parts)) <$> as.mapM revise := by
  induction as generalizing noted with
  | nil => simp
  | cons a as ih => simp [List.mapM_cons, ih, map_bind]

/-- A node is revised by revising its children in order. -/
theorem reviseChildren_eq (e : Expr) (revise : Visit → m Revision) :
    (e.reviseChildren fun v _ => revise v)
      = (fun parts => (e.withChildren (parts.map Revision.result), parts))
        <$> e.childVisits.mapM revise := by
  rw [reviseChildren, mapChildren_eq e fun path child => (do
    (← revise { path, node := child, parent := some e }).note : StateT (List Revision) m Expr)]
  rw [StateT.run_map, mapM_note fun p : String × Expr =>
    revise { path := p.1, node := p.2, parent := some e }]
  rw [Functor.map_map, childVisits, List.mapM_map]
  rfl

/-- The callback is asked about the children of a node in order, and its answers are put in their
places. -/
theorem mapM_eq (replace : Visit → m (Option Expr)) (e : Expr) : e.mapM replace
    = (fun answers => Revision.rebuild e (List.zipWith .ofAnswer e.childVisits answers))
      <$> e.childVisits.mapM replace := by
  simp only [mapM, bind_pure_comp]
  rw [reviseChildren_eq, mapM_put, Functor.map_map, Functor.map_map]
  rfl

theorem map_eq (replace : Visit → Option Expr) (e : Expr) : e.map replace
    = Revision.rebuild e (e.childVisits.map fun v => .ofAnswer v (replace v)) := by
  rw [map, mapM_eq, List.mapM_pure, map_pure, List.zipWith_map_right, List.zipWith_self]
  rfl

theorem transformFrom_eq {σ : Type} (replace : Visit → StateM σ (Option Expr)) (v : Visit) :
    transformFrom replace v = (do
      match ← replace v with
      | some new => return .replaced new
      | none =>
        let parts ← v.node.childVisits.mapM (transformFrom replace)
        if parts.all Revision.isKept then return .kept v.node
        else ExceptT.mk (pure (Revision.rebuild v.node parts))) := by
  rw [transformFrom]
  refine bind_congr fun answer => ?_
  cases answer with
  | some new => rfl
  | none =>
    simp only [reviseChildren_eq, bind_map_left]
    rfl

end Formula.Expr
