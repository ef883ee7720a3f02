import Formula.Store

/-!
Stores that grow.

Nothing ever leaves a store. What can happen to the frames that are there is that they are written to,
and `Store.Grows` says which of them were not.
-/

namespace Formula.Store

/-- A store has grown: its frames and functions are still there, the parents of its frames are as they
were, and so are the bindings of those frames that are kept. -/
structure Grows (kept : Nat → Prop) (s s' : Store) : Prop where
  frames : s.frames.size ≤ s'.frames.size
  parents : ∀ frame < s.frames.size, s'.parent? frame = s.parent? frame
  bindings : ∀ frame < s.frames.size, kept frame → s'.bindings frame = s.bindings frame
  functions : ∀ id < s.functions.size, s'.functions[id]? = s.functions[id]?

namespace Grows

variable {kept : Nat → Prop} {s s' s'' : Store}

theorem refl (kept : Nat → Prop) (s : Store) : Grows kept s s where
  frames := Nat.le_refl _
  parents _ _ := rfl
  bindings _ _ _ := rfl
  functions _ _ := rfl

theorem functions_size_le (h : Grows kept s s') : s.functions.size ≤ s'.functions.size := by
  refine Nat.le_of_not_lt fun hid => ?_
  have := h.functions _ hid
  rw [Array.getElem?_eq_none (Nat.le_refl _), Array.getElem?_eq_getElem hid] at this
  cases this

theorem trans (h : Grows kept s s') (h' : Grows kept s' s'') : Grows kept s s'' where
  frames := Nat.le_trans h.frames h'.frames
  parents frame hframe :=
    (h'.parents frame (Nat.lt_of_lt_of_le hframe h.frames)).trans (h.parents frame hframe)
  bindings frame hframe hkept :=
    (h'.bindings frame (Nat.lt_of_lt_of_le hframe h.frames) hkept).trans
      (h.bindings frame hframe hkept)
  functions id hid :=
    (h'.functions id (Nat.lt_of_lt_of_le hid h.functions_size_le)).trans (h.functions id hid)

/-- A store has grown all the more if fewer frames have to be as they were. -/
theorem mono {kept' : Nat → Prop} (h : Grows kept s s') (hkept : ∀ frame, kept' frame → kept frame) :
    Grows kept' s s' :=
  { h with bindings := fun frame hframe hk => h.bindings frame hframe (hkept frame hk) }

/-- Binding a name in a frame that is new, or need not be as it was. -/
theorem bind (h : Grows kept s s') {frame : Nat} (hframe : frame < s.frames.size → ¬ kept frame)
    (name : String) (value : Value) : Grows kept s (s'.bind frame name value) where
  frames := by simpa [Store.bind, modify] using h.frames
  parents other hother := (parent?_modify ..).trans (h.parents other hother)
  bindings other hother hkept := by
    have hne : other ≠ frame := by
      rintro rfl
      exact hframe hother hkept
    exact (bindings_modify_of_ne hne ..).trans (h.bindings other hother hkept)
  functions := h.functions

theorem bindAll (h : Grows kept s s') {frame : Nat} (hframe : frame < s.frames.size → ¬ kept frame)
    (bindings : List (String × Value)) : Grows kept s (s'.bindAll frame bindings) := by
  unfold Store.bindAll
  induction bindings generalizing s' with
  | nil => exact h
  | cons binding bindings ih => exact ih (h.bind hframe binding.1 binding.2)

theorem newFrame (h : Grows kept s s') (parent : Option Nat) :
    Grows kept s (s'.newFrame parent).2 where
  frames := by
    have := h.frames
    simp only [Store.newFrame, Array.size_push]
    omega
  parents frame hframe :=
    (parent?_newFrame_of_lt (Nat.lt_of_lt_of_le hframe h.frames) parent).trans
      (h.parents frame hframe)
  bindings frame hframe hkept := (bindings_newFrame ..).trans (h.bindings frame hframe hkept)
  functions := h.functions

theorem newFunction (h : Grows kept s s') (closure : Closure) :
    Grows kept s (s'.newFunction closure).2 :=
  { h with
    functions := fun id hid => by
      have hid' := Nat.lt_of_lt_of_le hid h.functions_size_le
      rw [← h.functions id hid]
      simp [Store.newFunction, Array.getElem?_push, Nat.ne_of_lt hid'] }

end Grows

/-! ### Stores in which one name was written -/

/-- A store has grown, and nothing was written in it but a name in a frame. -/
structure GrowsBut (frame : Nat) (name : String) (s s' : Store) : Prop where
  grows : s.Grows (fun f => f ≠ frame) s'
  own : ∀ other, other ≠ name → s'.own? frame other = s.own? frame other

namespace GrowsBut

variable {frame : Nat} {name : String} {s s' s'' : Store}

theorem refl (frame : Nat) (name : String) (s : Store) : GrowsBut frame name s s :=
  ⟨.refl _ s, fun _ _ => rfl⟩

theorem andGrows (h : GrowsBut frame name s s') (hframe : frame < s.frames.size)
    (h' : s'.Grows (fun _ => True) s'') : GrowsBut frame name s s'' where
  grows := h.grows.trans (h'.mono fun _ _ => trivial)
  own other hne := by
    have := h'.bindings frame (Nat.lt_of_lt_of_le hframe h.grows.frames) trivial
    rw [own?, this]
    exact h.own other hne

theorem bind (h : GrowsBut frame name s s') (hframe : frame < s.frames.size) (value : Value) :
    GrowsBut frame name s (s'.bind frame name value) where
  grows := h.grows.bind (fun _ hne => hne rfl) name value
  own other hne := by
    have hlt := Nat.lt_of_lt_of_le hframe h.grows.frames
    rw [own?, Store.bind, bindings_modify_self hlt, Record.get?_set_of_ne hne]
    exact h.own other hne

end GrowsBut

/-- A name that a frame binds itself has its value there as long as no frame is written to. -/
theorem Grows.get?_own {s s' : Store} (h : s.Grows (fun _ => True) s') {frame : Nat}
    (hframe : frame < s.frames.size) {name : String} {v : Value}
    (hown : s.own? frame name = some v) : s'.get? frame name = some v := by
  have chained : ∃ rest, s'.chain frame = frame :: rest := by
    rw [Store.chain]
    split <;> exact ⟨_, rfl⟩
  obtain ⟨rest, chained⟩ := chained
  rw [Store.get?, chained, List.findSome?_cons, Store.own?, h.bindings frame hframe trivial,
    ← Store.own?, hown]

/-- The other names still have their values. -/
theorem GrowsBut.get?_of_ne {frame : Nat} {name other : String} {s s' : Store}
    (h : GrowsBut frame name s s') (hne : other ≠ name) (hframe : frame < s.frames.size) :
    s'.get? frame other = s.get? frame other := by
  have bound : ∀ f < s.frames.size, s'.own? f other = s.own? f other := by
    intro f hf
    by_cases hown : f = frame
    · rw [hown]
      exact h.own other hne
    · rw [own?, own?, h.grows.bindings f hf hown]
  have below : ∀ f, f < s.frames.size →
      (s'.chain f).findSome? (fun f => s'.own? f other)
        = (s.chain f).findSome? (fun f => s.own? f other) := by
    intro f
    induction f using Nat.strongRecOn with
    | ind f ih =>
        intro hf
        rw [chain, chain, h.grows.parents f hf]
        cases hparent : s.parent? f with
        | none => simp only [List.findSome?_cons, List.findSome?_nil, bound f hf]
        | some parent =>
            by_cases hlt : parent < f
            · have rest := ih parent hlt (Nat.lt_trans hlt hf)
              simp only [if_pos hlt, List.findSome?_cons, bound f hf, rest]
            · simp only [if_neg hlt, List.findSome?_cons, List.findSome?_nil, bound f hf]
  exact below frame hframe

end Formula.Store
