import Formula.Proofs.Computation
import Formula.Proofs.Nodes
import Formula.Proofs.Rebuilding
import Formula.Proofs.Rendering.Faithful

/-!
Where well-formed expressions come from.

A tree is well formed if its top node passes its check and its children are well formed
(`wellFormed_iff`). Sources are parsed to well-formed trees whose objects have distinct keys
(`sound_of_parse`), and revisions of well-formed trees are well formed as long as what is put into
them is (`wellFormed_of_map`, `wellFormed_of_transform`).
-/

namespace Formula.Expr

/-! ### Nodes of well-formed expressions -/

section

variable {P : Expr → Prop}

theorem forall_mem_visitsFrom (v : Visit) :
    (∀ w ∈ visitsFrom v, P w.node) ↔ v.node.Everywhere P := by
  rw [visitsFrom, List.forall_mem_cons]
  constructor
  · rintro ⟨here, below⟩
    refine .node here (List.forall_mem_map.2 fun p hp => ?_)
    exact (forall_mem_visitsFrom { path := p.1, node := p.2, parent := some v.node }).1 fun w hw =>
      below w (List.mem_flatMap.2 ⟨⟨p, hp⟩, List.mem_attach .., hw⟩)
  · refine fun h => ⟨h.here, fun w hw => ?_⟩
    obtain ⟨⟨p, hp⟩, _, hw⟩ := List.mem_flatMap.1 hw
    exact (forall_mem_visitsFrom { path := p.1, node := p.2, parent := some v.node }).2
      (h.child p.2 (List.mem_map_of_mem hp)) w hw
termination_by sizeOf v.node
decreasing_by all_goals exact sizeOf_lt_of_mem_children hp

/-- Every node of an expression has a property if and only if the expression has it everywhere. -/
theorem forall_mem_nodes {e : Expr} : (∀ node ∈ e.nodes, P node) ↔ e.Everywhere P := by
  rw [nodes, List.forall_mem_map]
  exact forall_mem_visitsFrom _

end

variable {e : Expr}

theorem wellFormed_iff_everywhere : e.WellFormed ↔ e.Everywhere fun node => node.check = .ok () :=
  forall_mem_nodes

/-- An expression is well formed if its top node is and its children are. -/
theorem wellFormed_iff :
    e.WellFormed ↔ e.check = .ok () ∧ ∀ child ∈ e.children.map (·.2), child.WellFormed := by
  simp only [wellFormed_iff_everywhere]
  exact ⟨fun h => ⟨h.here, h.child⟩, fun h => .node h.1 h.2⟩

theorem WellFormed.node (check : e.check = .ok ())
    (below : ∀ child ∈ e.children.map (·.2), child.WellFormed) : e.WellFormed :=
  wellFormed_iff.2 ⟨check, below⟩

theorem WellFormed.child (h : e.WellFormed) {child : Expr} (hchild : child ∈ e.children.map (·.2)) :
    child.WellFormed :=
  (wellFormed_iff.1 h).2 child hchild

/-- Whether the properties of an object have keys of their own. -/
def HasDistinctKeys : Expr → Prop
  | .object properties => (Record.keys properties).Nodup
  | _ => True

/-- Whether every object of an expression has distinct keys. -/
abbrev DistinctKeys : Expr → Prop :=
  Everywhere HasDistinctKeys

/-- Whether the top node of an expression is in order. -/
def IsSound (e : Expr) : Prop :=
  e.check = .ok () ∧ e.HasDistinctKeys

/-- Whether every node of an expression is in order. -/
abbrev Sound : Expr → Prop :=
  Everywhere IsSound

theorem sound_iff : e.Sound ↔ e.WellFormed ∧ e.DistinctKeys := by
  rw [wellFormed_iff_everywhere]
  exact ⟨fun h => ⟨h.mono fun _ h => h.1, h.mono fun _ h => h.2⟩, fun h => h.1.and h.2⟩

theorem Sound.wellFormed (h : e.Sound) : e.WellFormed :=
  (sound_iff.1 h).1

theorem Sound.distinctKeys (h : e.Sound) : e.DistinctKeys :=
  (sound_iff.1 h).2

/-- A node without children. -/
theorem Sound.leaf (children : e.children = []) (sound : e.IsSound) : e.Sound :=
  .node sound (by rw [children]; nofun)

/-! ### Sources -/

/-- A chain of comparisons is in order if it has one, and one operand more than comparisons. -/
theorem checkChain_eq_ok {functions : List String} {n : Nat} (some : functions ≠ [])
    (length : n = functions.length + 1) (h : ∀ name ∈ functions, isComparison name = true) :
    checkChain functions n = .ok () := by
  have known : functions.find? (fun f => !isComparison f) = none :=
    List.find?_eq_none.2 fun name hname => by simp [h name hname]
  rw [checkChain, known, length]
  simp [some]

theorem length_of_checkChain {functions : List String} {n : Nat}
    (h : checkChain functions n = .ok ()) :
    n = functions.length + 1 := by
  by_contra hn
  rw [checkChain, if_pos (by simp [hn])] at h
  cases h

theorem isComparison_of_checkChain {functions : List String} {n : Nat}
    (h : checkChain functions n = .ok ()) : ∀ name ∈ functions, isComparison name = true := by
  intro name hname
  rw [checkChain] at h
  split at h
  · cases h
  · split at h
    next => cases h
    next hnone => simpa using List.find?_eq_none.1 hnone name hname

section

variable {P : Expr → Prop} (legible : ∀ {f : Bool} {node : Expr}, Legible f node → P node)
  (indexed : ∀ dimensions, P (.index dimensions false)) (property : ∀ name, P (Expr.property name))

include legible indexed property

/-- What all legible expressions have, and all indexes, every node of a legible expression has. -/
theorem Legible.everywhere {f : Bool} (h : Legible f e) : e.Everywhere P := by
  have here := legible h
  have leaf : ∀ {e : Expr}, P e → e.children = [] → e.Everywhere P := by
    intro e here hchildren
    exact .node here (by rw [hchildren]; exact List.forall_mem_nil _)
  have constant : ∀ name, (Expr.string name).Everywhere P :=
    fun name => leaf (legible (f := false) (.string name)) rfl
  induction h with
  | number | string | word => exact leaf here rfl
  | @name _ name _ _ he =>
      obtain ⟨value, kind, h, _⟩ | h := Grammar.ofName_cases name
      · exact leaf here (by rw [← he, h]; rfl)
      · exact leaf here (by rw [← he, h]; rfl)
  | parenthesis h ih => exact .node here (by simpa [children] using ih (legible h))
  | array h ih => exact .node here (by simpa [children] using fun e he => ih e he (legible (h e he)))
  | object h _ ih =>
      refine .node here ?_
      rw [map_snd_children_object, List.forall_mem_map]
      exact fun p hp => ih p hp (legible (h p hp))
  | call h _ hargs ih ih' =>
      exact .node here
        (by simpa [children] using ⟨ih (legible h), fun e he => ih' e he (legible (hargs e he))⟩)
  | @index _ _ dimensions h _ hdimensions ih ih' =>
      have part : (Expr.index dimensions false).Everywhere P := .node (indexed dimensions)
        (by simpa [children] using fun e he => ih' e he (legible (hdimensions e he)))
      exact .node here (by simpa [children] using ⟨ih (legible h), part⟩)
  | @property _ _ name h _ _ ih =>
      have part : (Expr.property name).Everywhere P :=
        .node (property name) (by simpa [children, Expr.property] using constant name)
      exact .node here (by simpa [children] using ⟨ih (legible h), part⟩)
  | postfixed _ h _ ih | prefixed _ h _ ih =>
      exact .node here (by simpa [children] using ih (legible h))
  | power _ _ h _ h' _ ih ih' | fraction _ h h' ih ih' | juxtaposition h _ h' _ _ _ ih ih'
  | binary _ _ h _ h' _ _ ih ih' | range h _ h' _ ih ih' =>
      exact .node here (by simpa [children, juxtapose] using ⟨ih (legible h), ih' (legible h')⟩)
  | comparison _ _ _ h _ h' _ ih ih' =>
      refine .node here ?_
      simpa [children, or_imp, forall_and] using
        ⟨fun e he => ih e he (legible (h e he)), ih' (legible h')⟩
  | steppedRange h _ h' _ h'' _ ih ih' ih'' =>
      exact .node here
        (by simpa [children] using ⟨ih (legible h), ih'' (legible h''), ih' (legible h')⟩)
  | conditional h _ h' _ h'' ih ih' ih'' =>
      exact .node here
        (by simpa [children] using ⟨ih (legible h), ih' (legible h'), ih'' (legible h'')⟩)
  | assigned he h h' ih ih' =>
      have htarget := ih (legible h)
      have hvalue := ih' (legible h')
      obtain ⟨name, rfl, hcheck, rfl⟩ | ⟨owner, part, rfl, howner, hpart, rfl⟩ |
        ⟨name, params, rfl, hcheck, rfl⟩ := assign_eq_ok_iff.1 he
      · exact .node here (by simpa [children] using ⟨htarget, hvalue⟩)
      · have howner' : owner.Everywhere P := htarget.child _ (by simp [children])
        have hpart' : part.Everywhere P := htarget.child _ (by simp [children])
        exact .node here (by simpa [children] using ⟨howner', hpart', hvalue⟩)
      · exact .node here (by simpa [children] using hvalue)

/-- The nodes of what a source is parsed to are legible, indexes, or the list of its statements. -/
theorem everywhere_of_parse {source : String} (block : ∀ entries, P (.block entries))
    (h : parse source = .ok e) : e.Everywhere P := by
  obtain hlegible | ⟨entry, entries, rfl, lines⟩ := legible_of_parse h
  · exact hlegible.everywhere legible indexed property
  · refine .node (block _) ?_
    rw [map_snd_children_block, List.forall_mem_map]
    generalize entry :: entries = entries at lines
    induction lines with
    | nil => exact List.forall_mem_nil _
    | cons h _ _ ih => exact List.forall_mem_cons.2 ⟨h.everywhere legible indexed property, ih⟩

end

/-- What is legible is in order. -/
theorem Legible.isSound {f : Bool} (h : Legible f e) : e.IsSound := by
  cases h with
  | @name _ name _ _ he =>
      obtain ⟨value, kind, h, _⟩ | h := Grammar.ofName_cases name
      · rw [← he, h]
        exact ⟨rfl, trivial⟩
      · rw [← he, h]
        exact ⟨rfl, trivial⟩
  | object _ nodup => exact ⟨rfl, nodup⟩
  | comparison comparisons many length =>
      have some : _ ≠ [] := List.ne_nil_of_length_pos (Nat.lt_of_lt_of_le Nat.zero_lt_two many)
      exact ⟨checkChain_eq_ok some (by simpa using length) comparisons, trivial⟩
  | assigned he =>
      obtain ⟨name, rfl, hcheck, rfl⟩ | ⟨owner, part, rfl, howner, hpart, rfl⟩ |
        ⟨name, params, rfl, hcheck, rfl⟩ := assign_eq_ok_iff.1 he
      · exact ⟨hcheck, trivial⟩
      · exact ⟨by rw [Expr.check, howner]; exact hpart, trivial⟩
      · exact ⟨hcheck, trivial⟩
  | _ => exact ⟨rfl, trivial⟩

/-- What a source is parsed to is in order everywhere. -/
theorem sound_of_parse {source : String} (h : parse source = .ok e) : e.Sound :=
  everywhere_of_parse Legible.isSound (fun _ => ⟨rfl, trivial⟩) (fun _ => ⟨rfl, trivial⟩)
    (fun _ => ⟨rfl, trivial⟩) h

/-! ### Revisions -/

/-- A node is well formed whose new children are and pass its check. -/
theorem wellFormed_of_rebuild {parts : List Revision} {revision : Revision}
    (h : Revision.rebuild e parts = .ok revision) (length : parts.length = e.children.length)
    (hparts : ∀ part ∈ parts, part.result.WellFormed) : revision.result.WellFormed := by
  have hchildren := children_withChildren e (parts.map Revision.result) (by simpa using length)
  rw [Revision.rebuild, checked] at h
  cases hcheck : (e.withChildren (parts.map Revision.result)).check with
  | error => rw [hcheck] at h; cases h
  | ok =>
      rw [hcheck] at h
      cases h
      refine .node hcheck ?_
      rw [Revision.result, hchildren]
      exact List.forall_mem_map.2 hparts

/-- Replacing children by well-formed ones keeps an expression well formed. -/
theorem wellFormed_of_map {replace : Visit → Option Expr} {revision : Revision} (h : e.WellFormed)
    (replaced : ∀ v new, replace v = some new → new.WellFormed)
    (hmap : e.map replace = .ok revision) : revision.result.WellFormed := by
  rw [map_eq] at hmap
  refine wellFormed_of_rebuild hmap (by simp [childVisits]) (List.forall_mem_map.2 fun v hv => ?_)
  obtain ⟨p, hp, rfl⟩ := List.mem_map.1 hv
  cases hnew : replace { path := p.1, node := p.2, parent := some e } with
  | some new => exact replaced _ _ hnew
  | none => exact h.child (List.mem_map_of_mem hp)

/-- Replacing nodes by well-formed ones keeps an expression well formed. -/
theorem wellFormed_of_transformFrom {σ : Type} {replace : Visit → StateM σ (Option Expr)}
    (replaced : ∀ v s new s', replace v s = (some new, s') → new.WellFormed) (v : Visit) {s s' : σ}
    {revision : Revision} (h : v.node.WellFormed)
    (hrun : transformFrom replace v s = (.ok revision, s')) : revision.result.WellFormed := by
  rw [transformFrom_eq] at hrun
  obtain ⟨answer, s₁, hanswer, hrun⟩ := bind_eq_ok hrun
  cases answer with
  | some new =>
      obtain rfl := pure_eq_ok hrun
      have hreplace : ((.ok (replace v s).1, (replace v s).2) : Except ShapeError _ × σ)
          = (.ok (some new), s₁) := hanswer
      obtain ⟨hnew, hs⟩ := Prod.mk.inj hreplace
      exact replaced v s new s₁ (Prod.ext (Except.ok.inj hnew) hs)
  | none =>
      obtain ⟨parts, s₂, hparts, hrun⟩ := bind_eq_ok hrun
      obtain ⟨hlength, hparts⟩ := mapM_eq_ok hparts
      split at hrun
      · obtain rfl := pure_eq_ok hrun
        exact h
      · refine wellFormed_of_rebuild (congrArg Prod.fst hrun) (by simpa [childVisits] using hlength)
          fun part hpart => ?_
        obtain ⟨w, hw, s₃, s₄, hpart⟩ := hparts part hpart
        obtain ⟨p, hp, rfl⟩ := List.mem_map.1 hw
        exact wellFormed_of_transformFrom replaced
          { path := p.1, node := p.2, parent := some v.node }
          (h.child (List.mem_map_of_mem hp)) hpart
termination_by sizeOf v.node
decreasing_by exact sizeOf_lt_of_mem_children hp

theorem wellFormed_of_transform {σ : Type} {replace : Visit → StateM σ (Option Expr)}
    (replaced : ∀ v s new s', replace v s = (some new, s') → new.WellFormed) {s s' : σ}
    {revision : Revision} (h : e.WellFormed)
    (hrun : e.transform replace s = (.ok revision, s')) : revision.result.WellFormed :=
  wellFormed_of_transformFrom replaced _ h hrun

end Formula.Expr
