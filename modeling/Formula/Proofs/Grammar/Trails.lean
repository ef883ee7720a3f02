import Formula.Proofs.Grammar.Levels
import Formula.Proofs.Grammar.Walk
import Formula.Proofs.Nodes

/-!
The trails of the trees that a walk builds.

A node that is put together from sound parts (`Walked.Sound`) is sound: its trails lead to its leaves,
from left to right, and each crosses at most as much as may be crossed behind the operands around it.
There is room for `maxDepth` crossings in front of an operand, and for one more in the operand itself,
which counts itself: it is what a bracket or an exponent in it crosses (`Part.behind`), and what is given
back with the operand (`Sound.operand`).
-/

namespace Formula

namespace Expr

/-- The leaves of a node are those of its children. -/
theorem leaves_eq (e : Expr) :
    e.leaves = if e.children = [] then [e] else (e.children.map (·.2)).flatMap leaves := by
  rw [leaves]
  simp only [List.isEmpty_iff]
  split
  · rfl
  · rw [List.flatMap_map, List.flatMap_def, List.flatMap_def]
    exact congrArg List.flatten (List.attach_map_val (l := e.children) (f := fun p => p.2.leaves))

end Expr

namespace Record

variable {α β : Type}

/-- Giving a name a value and putting other values for all values commute. -/
theorem map_set (f : α → β) (key : String) (value : α) (r : Record α) :
    (set key value r).map (fun p => (p.1, f p.2)) = set key (f value) (r.map fun p => (p.1, f p.2)) := by
  induction r with
  | nil => rfl
  | cons entry r ih =>
      obtain ⟨k, v⟩ := entry
      rw [List.map_cons, set, set]
      split
      · rw [List.map_cons]
      · rw [List.map_cons, ih]

end Record

namespace Grammar

open Walked (node leaf trees beside inside through)

variable {d cap : Nat} {w : Walked} {ws : List Walked} {e : Expr}
  {parts : List (Option Crossing × Walked)}

/-- Whether the trails of a tree lead to its leaves, and how much they cross behind so many operands. -/
structure Walked.Sound (d cap : Nat) (w : Walked) : Prop where
  leaves : w.trails.map Trail.leaf = w.tree.leaves
  crossings : d ≤ maxDepth → ∀ t ∈ w.trails, t.crossings.length + d ≤ cap

/-- Whether a part of a node is sound, together with what is crossed in front of it. -/
def Part (d cap : Nat) (p : Option Crossing × Walked) : Prop :=
  ∃ k, p.2.Sound d k ∧ k + p.1.toList.length ≤ cap

theorem Part.beside (h : w.Sound d cap) : Part d cap (none, w) :=
  ⟨cap, h, Nat.le_refl _⟩

/-- A part in an operand may be behind a crossing if there is room for it in front of an operand. -/
theorem Part.behind (crossing : Crossing) (h : w.Sound d maxDepth) :
    Part d (maxDepth + 1) (some crossing, w) :=
  ⟨maxDepth, h, Nat.le_refl _⟩

theorem forall_beside (h : ∀ w ∈ ws, w.Sound d cap) : ∀ p ∈ beside ws, Part d cap p :=
  List.forall_mem_map.2 fun w hw => .beside (h w hw)

theorem forall_inside (h : ∀ w ∈ ws, w.Sound d maxDepth) : ∀ p ∈ inside ws, Part d (maxDepth + 1) p :=
  List.forall_mem_map.2 fun w hw => .behind .bracket (h w hw)

theorem map_tree_beside (ws : List Walked) : (beside ws).map (·.2.tree) = trees ws := by
  simp [beside, trees]

theorem map_tree_inside (ws : List Walked) : (inside ws).map (·.2.tree) = trees ws := by
  simp [inside, trees]

theorem Walked.tree_ofRows (e : Expr) (rows : List (List Walked)) : (Walked.ofRows e rows).tree = e := by
  rcases rows with _ | ⟨row, _ | ⟨row', rows⟩⟩ <;> rfl

namespace Walked.Sound

/-- A node of sound parts is sound. -/
theorem node (hcap : maxDepth ≤ cap) (children : e.children.map (·.2) = parts.map (·.2.tree))
    (h : ∀ p ∈ parts, Part d cap p) : (node e parts).Sound d cap := by
  have hempty : e.children = [] ↔ parts = [] := by
    rw [← List.map_eq_nil_iff, children, List.map_eq_nil_iff]
  by_cases hparts : parts = []
  · subst hparts
    have hleaves : e.leaves = [e] := by rw [Expr.leaves_eq, if_pos (hempty.2 rfl)]
    constructor
    · exact hleaves.symm
    · intro hd t ht
      obtain rfl := List.mem_singleton.1 ht
      show 0 + d ≤ cap
      omega
  · have htrails : (Walked.node e parts).trails = parts.flatMap fun p => p.2.through p.1 :=
      if_neg (by simpa using hparts)
    have hleaves : e.leaves = (parts.map (·.2.tree)).flatMap Expr.leaves := by
      rw [Expr.leaves_eq, if_neg (fun h => hparts (hempty.1 h)), children]
    constructor
    · show (Walked.node e parts).trails.map Trail.leaf = e.leaves
      rw [htrails, hleaves, List.map_flatMap, List.flatMap_map]
      rw [List.flatMap_def, List.flatMap_def]
      refine congrArg List.flatten (List.map_congr_left fun p hp => ?_)
      obtain ⟨k, hsound, _⟩ := h p hp
      rw [← hsound.leaves, Walked.through, List.map_map]
      rfl
    · intro hd t ht
      rw [htrails] at ht
      obtain ⟨p, hp, ht⟩ := List.mem_flatMap.1 ht
      obtain ⟨s, hs, rfl⟩ := List.mem_map.1 ht
      obtain ⟨k, hsound, hk⟩ := h p hp
      have hcrossings := hsound.crossings hd s hs
      show (p.1.toList ++ s.crossings).length + d ≤ cap
      rw [List.length_append]
      omega

theorem leaf (hcap : maxDepth ≤ cap) (h : e.children = []) : (leaf e).Sound d cap :=
  .node hcap (by rw [h]; rfl) nofun

/-- What an operand counts for itself is given back with it. -/
theorem operand (hd : d < maxDepth) (h : w.Sound (d + 1) (maxDepth + 1)) : w.Sound d maxDepth where
  leaves := h.leaves
  crossings _ t ht := by
    have hcrossings := h.crossings hd t ht
    omega

theorem indexed (howner : w.Sound d (maxDepth + 1)) (h : ∀ v ∈ ws, v.Sound d maxDepth) :
    (w.indexed ws).Sound d (maxDepth + 1) := by
  have hindex : (Walked.node (.index (trees ws) false) (inside ws)).Sound d (maxDepth + 1) := by
    refine .node (by omega) ?_ (forall_inside h)
    rw [Expr.children, Expr.map_snd_itemChildren, map_tree_inside]
  exact .node (by omega) rfl (forall_beside (List.forall_mem_cons.2 ⟨howner, by simpa using hindex⟩))

theorem property (howner : w.Sound d (maxDepth + 1)) (name : String) :
    (w.property name).Sound d (maxDepth + 1) := by
  have hname : (Walked.leaf (.string name)).Sound d (maxDepth + 1) := .leaf (by omega) rfl
  have hpart : (Walked.node (.property name) (beside [Walked.leaf (.string name)])).Sound d
      (maxDepth + 1) :=
    .node (by omega) rfl (forall_beside (by simpa using hname))
  exact .node (by omega) rfl (forall_beside (List.forall_mem_cons.2 ⟨howner, by simpa using hpart⟩))

/-- A matrix is an array of its row or of its rows. -/
theorem ofRows {position : Nat} {rows : List (List Walked)}
    (he : Grammar.ofRows position (rows.map trees) = .ok e)
    (h : ∀ row ∈ rows, ∀ w ∈ row, w.Sound d maxDepth) : (Walked.ofRows e rows).Sound d (maxDepth + 1) := by
  have hrow : ∀ row ∈ rows, (Walked.node (.array (trees row)) (inside row)).Sound d (maxDepth + 1) := by
    intro row hmem
    refine .node (by omega) ?_ (forall_inside (h row hmem))
    rw [Expr.children, Expr.map_snd_itemChildren, map_tree_inside]
  have hrows : e = .array (rows.map fun row => .array (trees row)) → (Walked.node e
      (beside (rows.map fun row => Walked.node (.array (trees row)) (inside row)))).Sound d (maxDepth + 1) := by
    rintro rfl
    refine .node (by omega) ?_ (forall_beside (List.forall_mem_map.2 hrow))
    rw [Expr.children, Expr.map_snd_itemChildren, map_tree_beside, trees, List.map_map]
    rfl
  have several : rows.length ≠ 1 → e = .array (rows.map fun row => .array (trees row)) := by
    intro hlength
    unfold Grammar.ofRows at he
    split at he
    · rename_i row heq
      have := congrArg List.length heq
      rw [List.length_map] at this
      exact absurd this hlength
    · dsimp only at he
      split at he
      · cases he
      · cases he
        rw [List.map_map]
        rfl
  rcases rows with _ | ⟨row, _ | ⟨row', rows⟩⟩
  · exact hrows (several (by simp))
  · cases he
    exact hrow row (List.mem_singleton_self row)
  · exact hrows (several (by simp))

theorem object {properties : Record Walked} (h : ∀ p ∈ properties, p.2.Sound d maxDepth) :
    (Walked.node (.object (properties.map fun p => (p.1, p.2.tree)))
      (inside (Record.values properties))).Sound d (maxDepth + 1) := by
  refine .node (by omega) ?_ (forall_inside (List.forall_mem_map.2 h))
  rw [Expr.map_snd_children_object, map_tree_inside, List.map_map, trees, Record.values, List.map_map]
  rfl

theorem block {entries : List (Entry Walked)} (h : ∀ entry ∈ entries, entry.body.Sound d maxDepth) :
    (Walked.block entries).Sound d maxDepth := by
  refine .node (Nat.le_refl _) ?_ (forall_beside (List.forall_mem_map.2 h))
  rw [Expr.map_snd_children_block, map_tree_beside, bodies, List.map_map, trees, List.map_map]
  rfl

/-- An assignment has the leaves of its target and its value, and a definition those of its body. -/
theorem assigned {value : Walked} (he : assign w.tree value.tree = .ok e) (htarget : w.Sound d cap)
    (hvalue : value.Sound d cap) : (Walked.assigned e w value).Sound d cap := by
  have hleaves : e.leaves = (if e.form = .definition then [] else w.tree.leaves) ++ value.tree.leaves := by
    obtain ⟨name, htree, rfl⟩ | ⟨owner, part, htree, rfl⟩ | ⟨name, params, htree, rfl⟩ :=
      Expr.assign_eq_ok he
    · rw [htree, Expr.leaves_eq]
      simp [Expr.children, Expr.form, Expr.leaves_eq (.symbol name)]
    · rw [htree, Expr.leaves_eq, Expr.leaves_eq (.access owner part)]
      simp [Expr.children, Expr.form]
    · rw [Expr.leaves_eq]
      simp [Expr.children, Expr.form]
  constructor
  · show (_ ++ value.trails).map Trail.leaf = e.leaves
    rw [hleaves, List.map_append, hvalue.leaves]
    congr 1
    split
    · rfl
    · exact htarget.leaves
  · intro hd t ht
    rcases List.mem_append.1 ht with ht | ht
    · split at ht
      · cases ht
      · exact htarget.crossings hd t ht
    · exact hvalue.crossings hd t ht

end Walked.Sound

end Grammar

end Formula
