import Formula.Proofs.Shown
import Formula.Proofs.Transformation
import Mathlib.Data.List.Nodup

/-!
The ways to go through the children of a node.

Whether they are listed, mapped or transformed, the children of a node come in the same order and by
the same paths (`enumerations_agree`). The paths tell them apart: the children of a list have numbers,
and the properties of an object have keys, which are told by how they are shown.
-/

namespace Formula.Expr

/-! ### Paths -/

theorem itemPath_injective {slot : String} {i j : Nat} (h : itemPath slot i = itemPath slot j) :
    i = j := by
  rw [itemPath, itemPath, String.append_left_inj, String.append_right_inj] at h
  exact Text.toString_nat_injective h

theorem entryPath_injective {i j : Nat} (h : entryPath i = entryPath j) : i = j :=
  itemPath_injective ((String.append_left_inj _).1 h)

theorem propertyPath_injective {key key' : String} (h : propertyPath key = propertyPath key') :
    key = key' := by
  rw [propertyPath, propertyPath, String.append_left_inj, String.append_right_inj] at h
  exact Text.shown_injective h

theorem map_fst_itemChildren (slot : String) (es : List Expr) :
    (itemChildren slot es).map (·.1) = (List.range es.length).map (itemPath slot) := by
  apply List.ext_getElem <;> simp [itemChildren]

theorem map_fst_children_block (entries : List (Entry Expr)) :
    (block entries).children.map (·.1) = (List.range entries.length).map entryPath := by
  apply List.ext_getElem <;> simp [children]

/-- The paths of the children of a node tell them apart. -/
theorem nodup_paths {e : Expr} (distinct : e.HasDistinctKeys) : (e.children.map (·.1)).Nodup := by
  have items : ∀ slot n, ((List.range n).map (itemPath slot)).Nodup := fun slot n =>
    List.nodup_range.map fun _ _ => itemPath_injective
  cases e with
  | constant | symbol => exact List.nodup_nil
  | conditional | definition | parenthesis | access => simp [children]
  | range _ _ step | assignment _ step _ => cases step <;> simp [children]
  | operation _ _ es | array es | index es | comparison _ es =>
    rw [children, map_fst_itemChildren]
    exact items _ _
  | call callee args =>
    rw [children, List.map_cons, map_fst_itemChildren]
    refine List.nodup_cons.2 ⟨fun h => ?_, items _ _⟩
    obtain ⟨i, _, hi⟩ := List.mem_map.1 h
    have hfirst := congrArg (·.toList.head?) hi
    simp [itemPath] at hfirst
  | block entries =>
    rw [map_fst_children_block]
    exact List.nodup_range.map fun _ _ => entryPath_injective
  | object properties =>
    have hpaths : (object properties).children.map (·.1)
        = (Record.keys properties).map propertyPath := by
      rw [children, Record.keys, List.map_map, List.map_map]
      rfl
    rw [hpaths]
    exact distinct.map fun _ _ => propertyPath_injective

/-! ### Callbacks that leave everything as it is -/

/-- What is put together from the children of a node is the node, whether or not it is in order. -/
theorem mapChildren_pure {m : Type → Type} [Monad m] [LawfulMonad m] (e : Expr) :
    (e.mapChildren fun _ child _ => (pure child : m Expr)) = pure e := by
  rw [mapChildren_eq e fun _ child => pure child, List.mapM_pure, map_pure, withChildren_children]

theorem result_ofAnswer (v : Visit) (answer : Option Expr) :
    (Revision.ofAnswer v answer).result = answer.getD v.node := by
  cases answer <;> rfl

theorem map_result_rebuild (e : Expr) (parts : List Revision) :
    (Revision.rebuild e parts).map Revision.result
      = (e.withChildren (parts.map Revision.result)).checked := by
  rw [Revision.rebuild]
  cases (e.withChildren (parts.map Revision.result)).checked <;> rfl

/-- A node whose children are replaced by themselves is the node, if it is in order. -/
theorem mapM_of_same {m : Type → Type} [Monad m] [LawfulMonad m] {replace : Visit → m (Option Expr)}
    (same : ∀ v, (·.getD v.node) <$> replace v = (fun _ => v.node) <$> replace v) (e : Expr) :
    (·.map Revision.result) <$> e.mapM replace
      = (fun _ => e.checked) <$> e.childVisits.mapM replace := by
  have hresults : ∀ answers, (List.zipWith Revision.ofAnswer e.childVisits answers).map
      Revision.result = List.zipWith (fun v answer => answer.getD v.node) e.childVisits answers := by
    intro answers
    simp only [List.map_zipWith, result_ofAnswer]
  have hchildren : e.childVisits.map (·.node) = e.children.map (·.2) := by
    rw [childVisits, List.map_map]
    rfl
  calc (·.map Revision.result) <$> e.mapM replace
      = (fun es => (e.withChildren es).checked)
          <$> e.childVisits.mapM fun v => (·.getD v.node) <$> replace v := by
        rw [mapM_eq, mapM_put, Functor.map_map, Functor.map_map]
        simp only [map_result_rebuild, hresults]
    _ = (fun es => (e.withChildren es).checked)
          <$> e.childVisits.mapM fun v => (fun _ => v.node) <$> replace v := by
        simp only [same]
    _ = (fun _ => e.checked) <$> e.childVisits.mapM replace := by
        rw [mapM_const, Functor.map_map, hchildren, withChildren_children]

/-- A tree in which nothing is replaced is kept, once the callback has been asked about all of it. -/
theorem transformFrom_of_none {σ : Type} {replace : Visit → StateM σ (Option Expr)}
    (unreplaced : ∀ v s, (replace v s).1 = none) (v : Visit) (s : σ) : transformFrom replace v s
      = (.ok (.kept v.node), (visitsFrom v).foldl (fun s w => (replace w s).2) s) := by
  have below : ∀ w ∈ v.node.childVisits, ∀ s, transformFrom replace w s
      = (.ok (.kept w.node), (visitsFrom w).foldl (fun s w => (replace w s).2) s) := by
    intro w hw s
    obtain ⟨p, hp, rfl⟩ := List.mem_map.1 hw
    exact transformFrom_of_none unreplaced _ s
  have hreplace : replace v s = (none, (replace v s).2) := Prod.ext (unreplaced v s) rfl
  rw [transformFrom_apply, hreplace]
  dsimp only
  rw [mapM_apply_ok below, visitsFrom_eq, List.foldl_cons, List.foldl_flatMap]
  dsimp only
  rw [if_pos (by simp [Revision.isKept])]
termination_by sizeOf v.node
decreasing_by exact sizeOf_lt_of_mem_children hp

/-- A callback that replaces nothing and takes note of what it is asked about. -/
def noting (v : Visit) : StateM (List Visit) (Option Expr) :=
  fun noted => (none, noted ++ [v])

theorem mapM_noting (vs noted : List Visit) : (vs.mapM noting noted).2 = noted ++ vs := by
  rw [mapM_state_snd]
  induction vs generalizing noted with
  | nil => simp
  | cons v vs ih => simpa [noting] using ih (noted ++ [v])

/-- Mapping a node asks for its children as they are listed: each once, in the same order and by the
same path, whatever asking does. What is put together from the children themselves is the same node,
and mapping gives it back, if it is in order. No two children of a node have the same path. A
transformation that replaces nothing visits the tree in the order in which it is traversed, and keeps
it. -/
theorem enumerations_agree (e : Expr) :
    (∀ {m : Type → Type} [Monad m] [LawfulMonad m] (replace : Visit → m (Option Expr)),
      e.mapM replace
        = (fun answers => Revision.rebuild e (List.zipWith .ofAnswer e.childVisits answers))
          <$> e.childVisits.mapM replace) ∧
    (∀ {m : Type → Type} [Monad m] [LawfulMonad m],
      (e.mapChildren fun _ child _ => (pure child : m Expr)) = pure e) ∧
    (∀ {m : Type → Type} [Monad m] [LawfulMonad m] (replace : Visit → m (Option Expr)),
      (∀ v, (·.getD v.node) <$> replace v = (fun _ => v.node) <$> replace v) →
        (·.map Revision.result) <$> e.mapM replace
          = (fun _ => e.checked) <$> e.childVisits.mapM replace) ∧
    (e.HasDistinctKeys → (e.children.map (·.1)).Nodup) ∧
    ∀ {σ : Type} (replace : Visit → StateM σ (Option Expr)), (∀ v s, (replace v s).1 = none) →
      (e.transform replace).run = (fun _ => .ok (.kept e)) <$> e.visits.mapM replace := by
  refine ⟨fun replace => mapM_eq replace e, mapChildren_pure e, fun _ same => mapM_of_same same e,
    nodup_paths, ?_⟩
  intro σ replace unreplaced
  funext s
  refine (transformFrom_of_none unreplaced _ s).trans ?_
  rw [← mapM_state_snd]
  rfl

/-- Keys in which there are quotes and backslashes. -/
theorem enumerations_agree_quotes :
    let e := object [("\"", .symbol "x"), ("\\\"", .parenthesis (.symbol "x"))]
    e.HasDistinctKeys ∧ (e.children.map (·.1)).Nodup ∧
      (e.mapM noting []).1.map Revision.result = .ok e ∧ (e.mapM noting []).2 = e.childVisits ∧
      e.transform noting [] = (.ok (.kept e), e.visits) := by
  intro e
  have distinct : e.HasDistinctKeys := by
    show (Record.keys _).Nodup
    decide
  obtain ⟨-, -, same, paths, kept⟩ := enumerations_agree e
  have hsame := congrFun (same noting fun _ => rfl) []
  have hkept := congrFun (kept noting fun _ _ => rfl) []
  refine ⟨distinct, paths distinct, congrArg Prod.fst hsame, ?_, hkept.trans ?_⟩
  · exact (congrArg Prod.snd hsame).trans (mapM_noting e.childVisits [])
  · exact Prod.ext rfl (mapM_noting e.visits [])

end Formula.Expr
