import Formula.Proofs.WellFormed

/-!
What a transformation does.

A transformation is told by its answers: which nodes the callback replaced, and by what. The callback
is asked about the nodes in the order of a traversal, except below those that it replaced (`Consults`).
The answers determine the new tree, and how much of the old one is in it (`revised`), as well as the
nodes that have to be built anew (`rebuilt`). Either all of these are in order, or the first one that
is not ends the transformation (`Outcome`).
-/

namespace Formula.Expr

/-! ### Addresses -/

/-- The numbers of the children on the way from the root of a tree to a node. -/
abbrev Address := List Nat

/-- What is at an address of a child, at its address in the node. -/
def under {α : Type} (i : Nat) (p : Address × α) : Address × α :=
  (i :: p.1, p.2)

/-- The visits of a tree with the addresses of their nodes, parents before their children. -/
def placesFrom (v : Visit) : List (Address × Visit) :=
  ([], v) :: v.node.children.attach.zipIdx.flatMap fun ⟨⟨p, _⟩, i⟩ =>
    (placesFrom { path := p.1, node := p.2, parent := some v.node }).map (under i)
termination_by sizeOf v.node
decreasing_by grind

/-- The visits of a tree from its root, with the addresses of their nodes. -/
def places (e : Expr) : List (Address × Visit) :=
  placesFrom { path := "", node := e, parent := none }

/-! ### Answers -/

/-- What the nodes of a tree are replaced by. -/
abbrev Answers := Address → Option Expr

/-- The answers about a child. -/
def Answers.below (d : Answers) (i : Nat) : Answers :=
  fun a => d (i :: a)

/-- Whether a node above another one is replaced. -/
def Answers.Hides (d : Answers) (a : Address) : Prop :=
  ∃ above, above <+: a ∧ above ≠ a ∧ (d above).isSome

/-- Whether no node of a tree is replaced. -/
def Answers.spares (d : Answers) (e : Expr) : Bool :=
  e.places.all fun p => (d p.1).isNone

/-- The tree with the replaced nodes in it. What no replacement touches is the old tree. -/
def revised (d : Answers) (e : Expr) : Revision :=
  match d [] with
  | some new => .replaced new
  | none =>
    if d.spares e then .kept e
    else
      let parts := e.children.attach.zipIdx.map fun ⟨⟨p, _⟩, i⟩ => revised (d.below i) p.2
      .rebuilt (e.withChildren (parts.map Revision.result)) parts
termination_by sizeOf e
decreasing_by grind

/-- The nodes that are built anew, children before their parents, with their addresses. -/
def rebuilt (d : Answers) (e : Expr) : List (Address × Expr) :=
  if (d []).isSome then []
  else
    (e.children.attach.zipIdx.flatMap fun ⟨⟨p, _⟩, i⟩ => (rebuilt (d.below i) p.2).map (under i)) ++
      if d.spares e then [] else [([], (e.revised d).result)]
termination_by sizeOf e
decreasing_by grind

section

variable {σ : Type} (replace : Visit → StateM σ (Option Expr))

/-- The callback is asked about some places in order, except below a node that it replaced. -/
inductive Consults (d : Answers) : σ → List (Address × Visit) → σ → Prop
  | nil (s : σ) : Consults d s [] s
  | hidden {s s' : σ} {a : Address} {v : Visit} {places : List (Address × Visit)} (h : d.Hides a)
      (more : Consults d s places s') : Consults d s ((a, v) :: places) s'
  | asked {s s₁ s' : σ} {a : Address} {v : Visit} {places : List (Address × Visit)} (h : ¬ d.Hides a)
      (answer : replace v s = (d a, s₁)) (more : Consults d s₁ places s') :
      Consults d s ((a, v) :: places) s'

/-- The transformation ends at the first node that is built anew and not in order, when the callback
has been asked about all that is in this node and about nothing behind it. -/
inductive Breaks (d : Answers) (s : σ) (err : ShapeError) (s' : σ) :
    List (Address × Visit) → List (Address × Expr) → Prop
  | first {a : Address} {node : Expr} {front back : List (Address × Expr)} {last : Address × Visit}
      {asked unasked : List (Address × Visit)} (sound : ∀ p ∈ front, p.2.check = .ok ())
      (broken : node.check = .error err) (inside : a <+: last.1)
      (behind : ∀ p ∈ unasked, ¬ a <+: p.1) (consults : Consults replace d s (asked ++ [last]) s') :
      Breaks d s err s' (asked ++ last :: unasked) (front ++ (a, node) :: back)

/-- What becomes of a transformation with some answers. -/
def Outcome {α : Type} (d : Answers) (s : σ) (places : List (Address × Visit))
    (rebuilt : List (Address × Expr)) (expected : α) : Except ShapeError α × σ → Prop
  | (.ok result, s') => result = expected ∧ (∀ p ∈ rebuilt, p.2.check = .ok ()) ∧
    Consults replace d s places s'
  | (.error err, s') => Breaks replace d s err s' places rebuilt

variable {replace : Visit → StateM σ (Option Expr)} {d : Answers}

/-! ### What is hidden -/

theorem not_hides_nil : ¬ d.Hides [] := by
  rintro ⟨above, hprefix, hne, _⟩
  exact hne (List.prefix_nil.1 hprefix)

theorem hides_cons {i : Nat} {a : Address} :
    d.Hides (i :: a) ↔ (d []).isSome ∨ (d.below i).Hides a := by
  constructor
  · rintro ⟨above, hprefix, hne, hsome⟩
    cases above with
    | nil => exact .inl hsome
    | cons j above =>
        obtain ⟨rfl, habove⟩ := List.cons_prefix_cons.1 hprefix
        exact .inr ⟨above, habove, fun h => hne (h ▸ rfl), hsome⟩
  · rintro (hsome | ⟨above, hprefix, hne, hsome⟩)
    · exact ⟨[], List.nil_prefix, nofun, hsome⟩
    · exact ⟨i :: above, List.cons_prefix_cons.2 ⟨rfl, hprefix⟩, fun h => hne (List.cons.inj h).2, hsome⟩

/-! ### What is asked -/

namespace Consults

variable {s s' s'' : σ} {front back : List (Address × Visit)}

theorem append (h : Consults replace d s front s') (h' : Consults replace d s' back s'') :
    Consults replace d s (front ++ back) s'' := by
  induction h with
  | nil => exact h'
  | hidden hides _ ih => exact .hidden hides (ih h')
  | asked shown answer _ ih => exact .asked shown answer (ih h')

/-- What is asked about a child is asked about it in the node, if the node is not replaced. -/
theorem under {i : Nat} (unreplaced : d [] = none) (h : Consults replace (d.below i) s front s') :
    Consults replace d s (front.map (under i)) s' := by
  induction h with
  | nil => exact .nil _
  | hidden hides _ ih => exact .hidden (hides_cons.2 (.inr hides)) ih
  | asked shown answer _ ih =>
      refine .asked ?_ answer ih
      rw [hides_cons, unreplaced]
      simpa using shown

/-- Nothing is asked about what is below a node that is replaced. -/
theorem hidden_all (h : ∀ p ∈ front, d.Hides p.1) (s : σ) : Consults replace d s front s := by
  induction front with
  | nil => exact .nil s
  | cons p front ih =>
      obtain ⟨hp, hfront⟩ := List.forall_mem_cons.1 h
      exact .hidden hp (ih hfront)

end Consults

/-! ### How outcomes are put together -/

theorem Breaks.under {s s' : σ} {err : ShapeError} {i : Nat} {places : List (Address × Visit)}
    {rebuilt : List (Address × Expr)} (unreplaced : d [] = none)
    (h : Breaks replace (d.below i) s err s' places rebuilt) :
    Breaks replace d s err s' (places.map (under i)) (rebuilt.map (under i)) := by
  cases h with
  | first sound broken inside behind consults =>
      have consults' := consults.under unreplaced
      rw [List.map_append] at consults' ⊢
      rw [List.map_append]
      refine .first (List.forall_mem_map.2 sound) broken (List.cons_prefix_cons.2 ⟨rfl, inside⟩) ?_
        consults'
      refine List.forall_mem_map.2 fun p hp hprefix => ?_
      exact behind p hp (List.cons_prefix_cons.1 hprefix).2

theorem Breaks.behind_sound {s s₁ s' : σ} {err : ShapeError} {places places' : List (Address × Visit)}
    {rebuilt rebuilt' : List (Address × Expr)} (sound : ∀ p ∈ rebuilt, p.2.check = .ok ())
    (consults : Consults replace d s places s₁) (h : Breaks replace d s₁ err s' places' rebuilt') :
    Breaks replace d s err s' (places ++ places') (rebuilt ++ rebuilt') := by
  cases h with
  | first sound' broken inside behind consults' =>
      rw [← List.append_assoc, ← List.append_assoc]
      refine .first (List.forall_mem_append.2 ⟨sound, sound'⟩) broken inside behind ?_
      rw [List.append_assoc]
      exact consults.append consults'

theorem Breaks.before {s s' : σ} {err : ShapeError} {places places' : List (Address × Visit)}
    {rebuilt rebuilt' : List (Address × Expr)} (h : Breaks replace d s err s' places rebuilt)
    (apart : ∀ p ∈ rebuilt, ∀ q ∈ places', ¬ p.1 <+: q.1) :
    Breaks replace d s err s' (places ++ places') (rebuilt ++ rebuilt') := by
  cases h with
  | first sound broken inside behind consults =>
      rw [List.append_assoc, List.append_assoc]
      refine .first sound broken inside (List.forall_mem_append.2 ⟨behind, ?_⟩) consults
      exact apart (_, _) (List.mem_append_right _ List.mem_cons_self)

/-- Every place is in the root. -/
theorem Breaks.last {s s' : σ} {err : ShapeError} {node : Expr} {places : List (Address × Visit)}
    {rebuilt : List (Address × Expr)} (sound : ∀ p ∈ rebuilt, p.2.check = .ok ())
    (broken : node.check = .error err) (consults : Consults replace d s places s') (some : places ≠ []) :
    Breaks replace d s err s' places (rebuilt ++ [([], node)]) := by
  obtain ⟨asked, last, rfl⟩ := (List.eq_nil_or_concat places).resolve_left some
  rw [List.concat_eq_append] at consults ⊢
  exact .first sound broken List.nil_prefix (by simp) consults

/-! ### A node and its children -/

theorem childVisits_eq (e : Expr) : e.childVisits = e.children.attach.map fun p =>
    { path := p.1.1, node := p.1.2, parent := some e } := by
  rw [childVisits, ← List.attach_map_val]

theorem zipIdx_childVisits (e : Expr) : e.childVisits.zipIdx = e.children.attach.zipIdx.map
    fun p => ({ path := p.1.1.1, node := p.1.1.2, parent := some e }, p.2) := by
  rw [childVisits_eq, List.zipIdx_map]
  rfl

/-- The places of some visits, the first of which is that of a child with a number. -/
def placesAmong (i : Nat) (vs : List Visit) : List (Address × Visit) :=
  (vs.zipIdx i).flatMap fun p => (placesFrom p.1).map (under p.2)

/-- What is built anew of some visits, the first of which is that of a child with a number. -/
def rebuiltAmong (d : Answers) (i : Nat) (vs : List Visit) : List (Address × Expr) :=
  (vs.zipIdx i).flatMap fun p => (p.1.node.rebuilt (d.below p.2)).map (under p.2)

/-- What becomes of the nodes of some visits, the first of which is that of a child with a number. -/
def revisedAmong (d : Answers) (i : Nat) (vs : List Visit) : List Revision :=
  (vs.zipIdx i).map fun p => p.1.node.revised (d.below p.2)

theorem placesFrom_eq (v : Visit) : placesFrom v = ([], v) :: placesAmong 0 v.node.childVisits := by
  rw [placesFrom, placesAmong, zipIdx_childVisits, List.flatMap_map]

theorem rebuilt_eq (d : Answers) (e : Expr) : e.rebuilt d =
    if (d []).isSome then []
    else rebuiltAmong d 0 e.childVisits ++ if d.spares e then [] else [([], (e.revised d).result)] := by
  rw [rebuilt, rebuiltAmong, zipIdx_childVisits, List.flatMap_map]

theorem revised_eq (d : Answers) (e : Expr) : e.revised d = match d [] with
    | some new => .replaced new
    | none =>
      if d.spares e then .kept e
      else .rebuilt (e.withChildren ((revisedAmong d 0 e.childVisits).map Revision.result))
        (revisedAmong d 0 e.childVisits) := by
  have hparts : revisedAmong d 0 e.childVisits
      = e.children.attach.zipIdx.map fun ⟨⟨p, _⟩, i⟩ => p.2.revised (d.below i) := by
    rw [revisedAmong, zipIdx_childVisits, List.map_map]
    rfl
  rw [revised, hparts]

theorem placesAmong_cons (i : Nat) (v : Visit) (vs : List Visit) :
    placesAmong i (v :: vs) = (placesFrom v).map (under i) ++ placesAmong (i + 1) vs := by
  rw [placesAmong, List.zipIdx_cons, List.flatMap_cons]
  rfl

theorem rebuiltAmong_cons (d : Answers) (i : Nat) (v : Visit) (vs : List Visit) :
    rebuiltAmong d i (v :: vs)
      = (v.node.rebuilt (d.below i)).map (under i) ++ rebuiltAmong d (i + 1) vs := by
  rw [rebuiltAmong, List.zipIdx_cons, List.flatMap_cons]
  rfl

theorem revisedAmong_cons (d : Answers) (i : Nat) (v : Visit) (vs : List Visit) :
    revisedAmong d i (v :: vs) = v.node.revised (d.below i) :: revisedAmong d (i + 1) vs := by
  rw [revisedAmong, List.zipIdx_cons, List.map_cons]
  rfl

/-- What is at the children has their numbers in front of its addresses. -/
theorem exists_of_mem_placesAmong {i : Nat} {vs : List Visit} {p : Address × Visit}
    (h : p ∈ placesAmong i vs) : ∃ j a, i ≤ j ∧ p.1 = j :: a := by
  obtain ⟨⟨v, j⟩, hv, hp⟩ := List.mem_flatMap.1 h
  obtain ⟨q, _, rfl⟩ := List.mem_map.1 hp
  exact ⟨j, q.1, List.le_snd_of_mem_zipIdx hv, rfl⟩

/-! ### What is spared -/

/-- Where the nodes of a tree are does not depend on how its root is visited. -/
theorem map_fst_placesFrom (v : Visit) : (placesFrom v).map (·.1) = v.node.places.map (·.1) := by
  rw [places, placesFrom_eq, placesFrom_eq]
  rfl

theorem spares_eq (d : Answers) (v : Visit) :
    d.spares v.node = (placesFrom v).all fun p => (d p.1).isNone := by
  have hall : ∀ places : List (Address × Visit), (places.all fun p => (d p.1).isNone)
      = (places.map (·.1)).all fun a => (d a).isNone := by
    intro places
    rw [List.all_map]
    rfl
  rw [Answers.spares, hall, hall, map_fst_placesFrom]

/-- A tree is spared if its root is and its children are. -/
theorem spares_node (d : Answers) (e : Expr) : d.spares e = ((d []).isNone &&
    e.childVisits.zipIdx.all fun p => (d.below p.2).spares p.1.node) := by
  rw [Answers.spares, places, placesFrom_eq, List.all_cons, placesAmong, List.all_flatMap]
  simp only [spares_eq, List.all_map]
  rfl

theorem revised_replaced {new e : Expr} (h : d [] = some new) : e.revised d = .replaced new := by
  rw [revised_eq, h]

theorem rebuilt_replaced {e : Expr} (h : (d []).isSome) : e.rebuilt d = [] := by
  rw [rebuilt_eq, if_pos h]

theorem spares_root {e : Expr} (h : d.spares e) : d [] = none := by
  rw [spares_node] at h
  simpa using (Bool.and_eq_true_iff.1 h).1

/-- A tree is the old one if and only if nothing in it is replaced. -/
theorem isKept_revised (d : Answers) (e : Expr) : (e.revised d).isKept = d.spares e := by
  rw [revised_eq]
  cases hanswer : d [] with
  | some new =>
      cases hspares : d.spares e with
      | true => simp [spares_root hspares] at hanswer
      | false => rfl
  | none => cases d.spares e <;> rfl

/-- A node that is not replaced is spared if all its children are kept. -/
theorem all_isKept_revisedAmong {e : Expr} (unreplaced : d [] = none) :
    (revisedAmong d 0 e.childVisits).all Revision.isKept = d.spares e := by
  rw [spares_node, unreplaced, revisedAmong, List.all_map]
  simp only [Function.comp_def, isKept_revised]
  rfl

/-! ### What a transformation does -/

theorem transformFrom_apply (v : Visit) (s : σ) : transformFrom replace v s = match replace v s with
    | (some new, s₁) => (.ok (.replaced new), s₁)
    | (none, s₁) => match v.node.childVisits.mapM (transformFrom replace) s₁ with
      | (.ok parts, s₂) =>
        (if parts.all Revision.isKept then .ok (.kept v.node) else Revision.rebuild v.node parts, s₂)
      | (.error err, s₂) => (.error err, s₂) := by
  rw [transformFrom_eq, lift_bind_apply]
  rcases replace v s with ⟨_ | new, s₁⟩
  · dsimp only
    rw [bind_apply]
    split
    · rename_i hrun
      rw [hrun]
      dsimp only
      split <;> rfl
    · rename_i hrun
      rw [hrun]
  · rfl

/-- What becomes of a node that is not replaced, from what becomes of its children. -/
theorem Outcome.of_children {v : Visit} {s s₁ : σ} (unreplaced : d [] = none)
    (answer : replace v s = (none, s₁))
    (h : Outcome replace d s₁ (placesAmong 0 v.node.childVisits) (rebuiltAmong d 0 v.node.childVisits)
      (revisedAmong d 0 v.node.childVisits) (v.node.childVisits.mapM (transformFrom replace) s₁)) :
    Outcome replace d s (placesFrom v) (v.node.rebuilt d) (v.node.revised d)
      (transformFrom replace v s) := by
  have root : Consults replace d s [([], v)] s₁ :=
    .asked not_hides_nil (answer.trans (by rw [unreplaced])) (.nil s₁)
  rw [transformFrom_apply, answer, placesFrom_eq, rebuilt_eq, revised_eq, unreplaced, if_neg nofun]
  dsimp only
  generalize v.node.childVisits.mapM (transformFrom replace) s₁ = run at h
  obtain ⟨err | parts, s₂⟩ := run
  · have sound : ∀ p ∈ ([] : List (Address × Expr)), p.2.check = .ok () := nofun
    refine Breaks.behind_sound sound root ?_
    show Breaks replace d s₁ err s₂ (placesAmong 0 v.node.childVisits)
      (rebuiltAmong d 0 v.node.childVisits ++ _)
    rw [← List.append_nil (placesAmong 0 v.node.childVisits)]
    exact Breaks.before h nofun
  · obtain ⟨rfl, sound, consults⟩ := h
    have consults' := root.append consults
    dsimp only
    rw [all_isKept_revisedAmong unreplaced]
    cases d.spares v.node with
    | true => exact ⟨rfl, by simpa using sound, consults'⟩
    | false =>
        rw [if_neg nofun, if_neg nofun, Revision.rebuild, checked]
        cases hcheck : (v.node.withChildren
            ((revisedAmong d 0 v.node.childVisits).map Revision.result)).check with
        | ok =>
            exact ⟨rfl, List.forall_mem_append.2 ⟨sound, List.forall_mem_singleton.2 hcheck⟩, consults'⟩
        | error err => exact .last sound hcheck consults' (List.cons_ne_nil _ _)

theorem exists_outcomes {vs : List Visit} (h : ∀ v ∈ vs, ∀ s, ∃ d,
      Outcome replace d s (placesFrom v) (v.node.rebuilt d) (v.node.revised d) (transformFrom replace v s))
    (i : Nat) (s : σ) : ∃ ds : List Answers, ∀ d : Answers, d [] = none →
      (∀ (j : Nat) (hj : j < ds.length), d.below (i + j) = ds[j]) →
      Outcome replace d s (placesAmong i vs) (rebuiltAmong d i vs) (revisedAmong d i vs)
        (vs.mapM (transformFrom replace) s) := by
  induction vs generalizing i s with
  | nil => exact ⟨[], fun d _ _ => ⟨rfl, nofun, .nil s⟩⟩
  | cons v vs ih =>
      obtain ⟨hv, hvs⟩ := List.forall_mem_cons.1 h
      obtain ⟨dv, houtcome⟩ := hv s
      rcases hrun : transformFrom replace v s with ⟨err | r, s₁⟩
      · refine ⟨[dv], fun d root hbelow => ?_⟩
        obtain rfl : d.below i = dv := hbelow 0 Nat.one_pos
        rw [hrun] at houtcome
        rw [List.mapM_cons, bind_apply, hrun, placesAmong_cons, rebuiltAmong_cons]
        refine (Breaks.under root houtcome).before ?_
        intro p hp q hq hprefix
        obtain ⟨p, _, rfl⟩ := List.mem_map.1 hp
        obtain ⟨j, a, hle, hq⟩ := exists_of_mem_placesAmong hq
        rw [hq] at hprefix
        obtain ⟨rfl, _⟩ := List.cons_prefix_cons.1 hprefix
        omega
      · obtain ⟨ds, hds⟩ := ih hvs (i + 1) s₁
        refine ⟨dv :: ds, fun d root hbelow => ?_⟩
        obtain rfl : d.below i = dv := hbelow 0 (Nat.succ_pos _)
        have htail := hds d root fun j hj => by
          rw [Nat.add_assoc, Nat.add_comm 1]
          exact hbelow (j + 1) (Nat.succ_lt_succ hj)
        rw [hrun] at houtcome
        obtain ⟨rfl, hsound, hconsults⟩ := houtcome
        have hsound' : ∀ p ∈ (v.node.rebuilt (d.below i)).map (under i), p.2.check = .ok () :=
          List.forall_mem_map.2 hsound
        rw [List.mapM_cons, bind_apply, hrun, placesAmong_cons, rebuiltAmong_cons, revisedAmong_cons]
        dsimp only
        rw [bind_apply]
        rcases hrest : vs.mapM (transformFrom replace) s₁ with ⟨err | rs, s₂⟩
        · rw [hrest] at htail
          exact Breaks.behind_sound hsound' (hconsults.under root) htail
        · rw [hrest] at htail
          obtain ⟨rfl, hrest, hconsults'⟩ := htail
          exact ⟨rfl, List.forall_mem_append.2 ⟨hsound', hrest⟩, (hconsults.under root).append hconsults'⟩

/-- The answers about a node that is not replaced. -/
def Answers.ofChildren (ds : List Answers) : Answers
  | [] => none
  | i :: a => ds.getD i (fun _ => none) a

theorem below_ofChildren (ds : List Answers) (i : Nat) (hi : i < ds.length) :
    (Answers.ofChildren ds).below i = ds[i] := by
  funext a
  simp [Answers.below, Answers.ofChildren, hi]

theorem exists_outcome (replace : Visit → StateM σ (Option Expr)) (v : Visit) (s : σ) :
    ∃ d, Outcome replace d s (placesFrom v) (v.node.rebuilt d) (v.node.revised d)
      (transformFrom replace v s) := by
  rcases hanswer : replace v s with ⟨_ | new, s₁⟩
  · have children : ∀ w ∈ v.node.childVisits, ∀ s, ∃ d, Outcome replace d s (placesFrom w)
        (w.node.rebuilt d) (w.node.revised d) (transformFrom replace w s) := by
      intro w hw s
      obtain ⟨p, hp, rfl⟩ := List.mem_map.1 hw
      exact exists_outcome replace _ s
    obtain ⟨ds, hds⟩ := exists_outcomes children 0 s₁
    refine ⟨.ofChildren ds, .of_children rfl hanswer (hds _ rfl fun j hj => ?_)⟩
    rw [Nat.zero_add, below_ofChildren ds j hj]
  · let d : Answers := fun a => if a = [] then some new else none
    have root : d [] = some new := if_pos rfl
    refine ⟨d, ?_⟩
    rw [transformFrom_apply, hanswer]
    refine ⟨(revised_replaced root).symm, ?_, ?_⟩
    · rw [rebuilt_replaced (by rw [root]; rfl)]
      nofun
    · rw [placesFrom_eq]
      refine .asked not_hides_nil (hanswer.trans (by rw [root])) (.hidden_all ?_ s₁)
      intro p hp
      obtain ⟨j, a, _, ha⟩ := exists_of_mem_placesAmong hp
      rw [ha, hides_cons, root]
      exact .inl rfl
termination_by sizeOf v.node
decreasing_by exact sizeOf_lt_of_mem_children hp

/-! ### The order of visits -/

theorem visitsFrom_eq (v : Visit) : visitsFrom v = v :: v.node.childVisits.flatMap visitsFrom := by
  rw [visitsFrom, childVisits_eq, List.flatMap_map]

theorem map_snd_placesAmong {i : Nat} {vs : List Visit}
    (h : ∀ v ∈ vs, (placesFrom v).map (·.2) = visitsFrom v) :
    (placesAmong i vs).map (·.2) = vs.flatMap visitsFrom := by
  induction vs generalizing i with
  | nil => rfl
  | cons v vs ih =>
      obtain ⟨hv, hvs⟩ := List.forall_mem_cons.1 h
      rw [placesAmong_cons, List.map_append, ih hvs, List.map_map, List.flatMap_cons, ← hv]
      rfl

/-- The places of a tree are those of its visits, in the same order. -/
theorem map_snd_placesFrom (v : Visit) : (placesFrom v).map (·.2) = visitsFrom v := by
  rw [placesFrom_eq, visitsFrom_eq, List.map_cons, map_snd_placesAmong fun w hw => ?_]
  obtain ⟨p, hp, rfl⟩ := List.mem_map.1 hw
  exact map_snd_placesFrom { path := p.1, node := p.2, parent := some v.node }
termination_by sizeOf v.node
decreasing_by exact sizeOf_lt_of_mem_children hp

/-- Whatever the callback does with its state, a transformation asks it about the visits of the tree in
order, except below what it replaces; and its answers say what the new tree is, or which node is the
first one that cannot be built anew. -/
theorem transform_outcome (replace : Visit → StateM σ (Option Expr)) (e : Expr) (s : σ) :
    e.places.map (·.2) = e.visits ∧ ∃ d,
      Outcome replace d s e.places (e.rebuilt d) (e.revised d) (e.transform replace s) :=
  ⟨map_snd_placesFrom _, exists_outcome replace _ s⟩

end

end Formula.Expr
