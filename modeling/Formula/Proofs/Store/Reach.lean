import Formula.Proofs.Store.Growth
import Formula.Store.Liveness
import Mathlib.Data.Finset.Card
import Mathlib.Logic.Relation

/-!
Frames within reach.

`Store.isAlive` collects the frames that are held in as many rounds as there are frames. That is enough
(`isAlive_iff`): a frame is alive if and only if somebody holds it, or a frame that holds a frame …
that holds it. So only what is held matters, not in which order or how often, and a frame that is
within reach stays there as long as no frame is written to (`Held.grows`).
-/

namespace Formula.Store

open Relation (ReflTransGen)

/-- A frame holds another one. -/
def Holds (s : Store) (frame other : Nat) : Prop :=
  other ∈ s.heldByFrame frame

/-- The frames that are held from outside, by themselves or by values. -/
def roots (s : Store) (frames : List Nat) (values : List Value) : List Nat :=
  frames ++ values.flatMap s.heldByValue

/-- A frame is within reach of some frames and values. -/
def Held (s : Store) (frames : List Nat) (values : List Value) (frame : Nat) : Prop :=
  ∃ first ∈ s.roots frames values, ReflTransGen s.Holds first frame

/-- Only frames of the store hold other ones. -/
theorem Holds.lt {s : Store} {frame other : Nat} (h : s.Holds frame other) :
    frame < s.frames.size := by
  refine Nat.lt_of_not_le fun hle => ?_
  have hnone : s.frames[frame]? = none := Array.getElem?_eq_none hle
  simp [Holds, heldByFrame, parent?, bindings, hnone, Record.values] at h

/-- A frame holds its parent. -/
theorem holds_parent {s : Store} {frame parent : Nat} (h : s.parent? frame = some parent) :
    s.Holds frame parent := by
  simp [Holds, heldByFrame, h]

/-! ### Enough rounds -/

section Rounds

variable {s : Store}

/-- The frames of the store that are not among the given ones. -/
def unseen (s : Store) (seen : List Nat) : Finset Nat :=
  (Finset.range s.frames.size).filter (· ∉ seen)

theorem unseen_append_subset (seen new : List Nat) : s.unseen (seen ++ new) ⊆ s.unseen seen := by
  intro frame h
  simp only [unseen, Finset.mem_filter, Finset.mem_range, List.mem_append, not_or] at h ⊢
  exact ⟨h.1, h.2.1⟩

theorem card_unseen_append_lt {seen new : List Nat} {frame : Nat} (hnew : frame ∈ new)
    (hseen : frame ∉ seen) (hframe : frame < s.frames.size) :
    (s.unseen (seen ++ new)).card < (s.unseen seen).card := by
  refine Finset.card_lt_card ⟨unseen_append_subset seen new, fun h => ?_⟩
  have hunseen : frame ∈ s.unseen seen := by simp [unseen, hframe, hseen]
  simpa [unseen, hnew] using h hunseen

theorem mem_fresh {seen fresh : List Nat} {frame : Nat} :
    frame ∈ (fresh.flatMap s.heldByFrame).eraseDups.filter (fun f => !seen.contains f) ↔
      (∃ holder ∈ fresh, s.Holds holder frame) ∧ frame ∉ seen := by
  simp [Holds]

theorem subset_reach : ∀ (n : Nat) (seen fresh : List Nat), ∀ frame ∈ seen,
    frame ∈ s.reach n seen fresh
  | 0, _, _, _, h => h
  | n + 1, seen, fresh, frame, h => by
      rw [reach]
      split
      · exact h
      · exact subset_reach n _ _ frame (List.mem_append_left _ h)

/-- What is reached is held by what was seen before. -/
theorem held_of_mem_reach : ∀ (n : Nat) {seen fresh : List Nat}, (∀ frame ∈ fresh, frame ∈ seen) →
    ∀ frame ∈ s.reach n seen fresh, ∃ first ∈ seen, ReflTransGen s.Holds first frame
  | 0, _, _, _, frame, h => ⟨frame, h, .refl⟩
  | n + 1, seen, fresh, hfresh, frame, h => by
      rw [reach] at h
      split at h
      · exact ⟨frame, h, .refl⟩
      · obtain ⟨first, hfirst, path⟩ :=
          held_of_mem_reach n (fun _ => List.mem_append_right seen) frame h
        rcases List.mem_append.1 hfirst with hseen | hnew
        · exact ⟨first, hseen, path⟩
        · obtain ⟨⟨holder, hholder, hholds⟩, _⟩ := mem_fresh.1 hnew
          exact ⟨holder, hfresh holder hholder, .head hholds path⟩

/-- What is reached in enough rounds holds nothing else: each round either finds a frame of the store
that was not seen before, or only numbers of no frame, which hold nothing. -/
theorem reach_closed : ∀ (n : Nat) {seen fresh : List Nat},
    (∀ holder ∈ seen, holder ∉ fresh → ∀ frame, s.Holds holder frame → frame ∈ seen) →
    (s.unseen seen).card ≤ n →
    (∀ frame ∈ fresh, frame < s.frames.size → (s.unseen seen).card < n) →
    ∀ holder ∈ s.reach n seen fresh, ∀ frame, s.Holds holder frame → frame ∈ s.reach n seen fresh
  | 0, seen, fresh, hseen, _, hfresh, holder, hholder, frame, hholds => by
      refine hseen holder hholder (fun h => ?_) frame hholds
      exact absurd (hfresh holder h hholds.lt) (Nat.not_lt_zero _)
  | n + 1, seen, fresh, hseen, hle, hfresh, holder, hholder, frame, hholds => by
      have here : ∀ holder ∈ seen, ∀ frame, s.Holds holder frame → frame ∉ seen →
          frame ∈ (fresh.flatMap s.heldByFrame).eraseDups.filter (fun f => !seen.contains f) := by
        intro holder hholder frame hholds hframe
        refine mem_fresh.2 ⟨⟨holder, ?_, hholds⟩, hframe⟩
        exact by_contra fun h => hframe (hseen holder hholder h frame hholds)
      have found : ∀ frame ∈ (fresh.flatMap s.heldByFrame).eraseDups.filter
          (fun f => !seen.contains f), (∃ holder ∈ fresh, s.Holds holder frame) ∧ frame ∉ seen :=
        fun frame => mem_fresh.1
      rw [reach] at hholder ⊢
      revert here found hholder
      cases (fresh.flatMap s.heldByFrame).eraseDups.filter fun f => !seen.contains f with
      | nil =>
          intro hholder here _
          exact by_contra fun hframe => List.not_mem_nil (here holder hholder frame hholds hframe)
      | cons first more =>
          intro hholder here found
          have hlt : (s.unseen seen).card < n + 1 := by
            obtain ⟨⟨holder, hholder, hholds⟩, _⟩ := found first List.mem_cons_self
            exact hfresh holder hholder hholds.lt
          refine reach_closed n ?_ ?_ ?_ holder hholder frame hholds
          · intro holder hholder hold frame hholds
            by_cases hframe : frame ∈ seen
            · exact List.mem_append_left _ hframe
            · have hholder := (List.mem_append.1 hholder).resolve_right hold
              exact List.mem_append_right _ (here holder hholder frame hholds hframe)
          · have := Finset.card_le_card (s.unseen_append_subset seen (first :: more))
            omega
          · intro frame hframe hstore
            have := card_unseen_append_lt hframe (found frame hframe).2 hstore
            omega

end Rounds

/-- A frame is alive if and only if it is within reach of what is held. -/
theorem isAlive_iff {s : Store} {frames : List Nat} {values : List Value} {frame : Nat} :
    s.isAlive frames values frame = true ↔ s.Held frames values frame := by
  have rounds : frame ∈ s.reach s.frames.size (s.roots frames values) (s.roots frames values) ↔
      s.Held frames values frame := by
    constructor
    · exact held_of_mem_reach _ (fun _ h => h) frame
    · rintro ⟨first, hfirst, path⟩
      have hle : (s.unseen (s.roots frames values)).card ≤ s.frames.size :=
        (Finset.card_filter_le _ _).trans (Finset.card_range _).le
      have old : ∀ holder ∈ s.roots frames values, holder ∉ s.roots frames values →
          ∀ frame, s.Holds holder frame → frame ∈ s.roots frames values :=
        fun holder h hnot => absurd h hnot
      have room : ∀ frame ∈ s.roots frames values, frame < s.frames.size →
          (s.unseen (s.roots frames values)).card < s.frames.size := by
        intro frame hframe hlt
        have hlt' : (s.unseen ([] ++ s.roots frames values)).card < (s.unseen []).card :=
          card_unseen_append_lt hframe List.not_mem_nil hlt
        have hall : (s.unseen []).card ≤ s.frames.size :=
          (Finset.card_filter_le _ _).trans (Finset.card_range _).le
        exact Nat.lt_of_lt_of_le hlt' hall
      have closed := reach_closed s.frames.size old hle room
      induction path with
      | refl => exact subset_reach _ _ _ _ hfirst
      | tail _ hholds ih => exact closed _ ih _ hholds
  simp only [isAlive, Bool.or_eq_true, List.contains_iff_mem]
  constructor
  · rintro (h | h)
    · exact ⟨frame, List.mem_append_left _ h, .refl⟩
    · exact rounds.1 h
  · exact fun h => .inr (rounds.2 h)

/-! ### What is held -/

section Held

variable {s s' : Store} {frames frames' : List Nat} {values values' : List Value} {frame : Nat}

theorem held_of_mem (h : frame ∈ frames) : s.Held frames values frame :=
  ⟨frame, List.mem_append_left _ h, .refl⟩

/-- What is held by one of two collections is held by both together. -/
theorem held_append (frames frames' : List Nat) (values values' : List Value) :
    s.Held (frames ++ frames') (values ++ values') frame ↔
      s.Held frames values frame ∨ s.Held frames' values' frame := by
  simp only [Held, roots, List.flatMap_append, List.mem_append]
  constructor
  · rintro ⟨first, (h | h) | h | h, path⟩
    · exact .inl ⟨first, .inl h, path⟩
    · exact .inr ⟨first, .inl h, path⟩
    · exact .inl ⟨first, .inr h, path⟩
    · exact .inr ⟨first, .inr h, path⟩
  · rintro (⟨first, h | h, path⟩ | ⟨first, h | h, path⟩)
    · exact ⟨first, .inl (.inl h), path⟩
    · exact ⟨first, .inr (.inl h), path⟩
    · exact ⟨first, .inl (.inr h), path⟩
    · exact ⟨first, .inr (.inr h), path⟩

/-- What frames hold that are held themselves. -/
theorem Held.trans (h : s.Held frames' values frame)
    (hframes : ∀ f ∈ frames', s.Held frames values f) : s.Held frames values frame := by
  obtain ⟨first, hfirst, path⟩ := h
  rcases List.mem_append.1 hfirst with hfirst | hfirst
  · obtain ⟨origin, horigin, path'⟩ := hframes first hfirst
    exact ⟨origin, horigin, path'.trans path⟩
  · exact ⟨first, List.mem_append_right _ hfirst, path⟩

theorem mem_chain_self : frame ∈ s.chain frame := by
  rw [chain]
  split <;> exact List.mem_cons_self

/-- A frame keeps its ancestors. -/
theorem held_of_mem_chain (h : s.Held frames values frame) :
    ∀ ancestor ∈ s.chain frame, s.Held frames values ancestor := by
  intro ancestor hancestor
  induction frame using Nat.strongRecOn with
  | ind frame ih =>
      rw [chain] at hancestor
      split at hancestor
      · rename_i parent hparent
        rcases List.mem_cons.1 hancestor with rfl | hancestor
        · exact h
        · split at hancestor
          · rename_i hlt
            obtain ⟨first, hfirst, path⟩ := h
            exact ih parent hlt ⟨first, hfirst, path.tail (holds_parent hparent)⟩ hancestor
          · cases hancestor
      · obtain rfl := List.mem_singleton.1 hancestor
        exact h

theorem Grows.heldByFunction? {kept : Nat → Prop} (h : Grows kept s s') {id frame : Nat}
    (hframe : s.heldByFunction? id = some frame) : s'.heldByFunction? id = some frame := by
  have hid : id < s.functions.size := by
    refine Nat.lt_of_not_le fun hle => ?_
    simp [Store.heldByFunction?, Array.getElem?_eq_none hle] at hframe
  rwa [Store.heldByFunction?, h.functions id hid]

theorem Grows.heldByValue {kept : Nat → Prop} (h : Grows kept s s') {v : Value} {frame : Nat}
    (hframe : frame ∈ s.heldByValue v) : frame ∈ s'.heldByValue v := by
  obtain ⟨id, hid, hfunction⟩ := List.mem_filterMap.1 hframe
  exact List.mem_filterMap.2 ⟨id, hid, h.heldByFunction? hfunction⟩

/-- A frame that was not written to holds what it held. -/
theorem Grows.holds {kept : Nat → Prop} (h : Grows kept s s') {holder : Nat} (hkept : kept holder)
    (hholds : s.Holds holder frame) : s'.Holds holder frame := by
  have hlt := hholds.lt
  simp only [Holds, heldByFrame, List.mem_append, List.mem_flatMap] at hholds ⊢
  rw [h.parents holder hlt, h.bindings holder hlt hkept]
  rcases hholds with hparent | ⟨v, hv, hframe⟩
  · exact .inl hparent
  · exact .inr ⟨v, hv, h.heldByValue hframe⟩

/-- What is within reach stays so if no frame is written to. -/
theorem Held.grows (h : s.Held frames values frame) (hgrows : Grows (fun _ => True) s s') :
    s'.Held frames values frame := by
  obtain ⟨first, hfirst, path⟩ := h
  refine ⟨first, ?_, path.lift id fun _ _ hholds => hgrows.holds trivial hholds⟩
  rcases List.mem_append.1 hfirst with h | h
  · exact List.mem_append_left _ h
  · obtain ⟨v, hv, hframe⟩ := List.mem_flatMap.1 h
    exact List.mem_append_right _ (List.mem_flatMap.2 ⟨v, hv, hgrows.heldByValue hframe⟩)

end Held

end Formula.Store
