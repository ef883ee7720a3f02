import Formula.Catalog.Standard
import Formula.Proofs.Selection

/-!
What the standard catalog answers about arrays, and when a part of one is read or replaced.
-/

namespace Formula.Catalog

theorem mapM_take?_any (vs : List Value) : vs.mapM Param.any.take? = some vs := by
  induction vs with
  | nil => rfl
  | cons v vs ih =>
      rw [List.mapM_cons, ih]
      rfl

/-- Any values can be the dimensions of an index. -/
theorem standard_index (vs : List Value) : standard.call "index" vs = .ok (.index vs) := by
  cases vs with
  | nil => rfl
  | cons v vs =>
      have second : (Signature.variadic [] .any fun (v : Value) (vs : List Value) =>
          .ok (.index (v :: vs))).answer? (v :: vs) = some (.ok (.index (v :: vs))) := by
        simp only [Signature.answer?, RuleOn.feed?]
        rw [mapM_take?_any]
      have signatures : standard.operations.get? "index" = some [.fixed [] (.ok (.index [])),
          .variadic [] .any fun (v : Value) (vs : List Value) => .ok (.index (v :: vs))] := rfl
      rw [call, signatures]
      simp only [List.findSome?_cons, second]
      rfl

/-- The size of a value. -/
theorem standard_size (v : Value) : standard.call "size" [v]
    = .ok (.array ((Matrix.extents v).map fun n => .number (Float.ofNat n))) :=
  rfl

/-- Exchanging the rows and columns of an array. -/
theorem standard_transpose (items : List Value) : standard.call "transpose" [.array items]
    = match Matrix.transpose items with
      | .ok columns => .ok (.array columns)
      | .error e => .error (.failed "transpose" e.message) :=
  rfl

/-- Reading a part of an array. -/
theorem standard_subset_get (items dimensions : List Value) :
    standard.call "subset" [.array items, .index dimensions]
      = subset (Selection.ofDimensions dimensions >>= fun selections =>
          Selection.get selections (.array items)) :=
  rfl

/-- Replacing a part of an array. -/
theorem standard_subset_set (items dimensions : List Value) (new : Value) :
    standard.call "subset" [.array items, .index dimensions, new]
      = subset (Selection.ofDimensions dimensions >>= fun selections =>
          Selection.set selections new (.array items)) :=
  rfl

/-- Only arrays have parts that can be replaced. -/
theorem eq_array_of_standard_subset_set {owner new v : Value} {dimensions : List Value}
    (h : standard.call "subset" [owner, .index dimensions, new] = .ok v) :
    ∃ items, owner = .array items := by
  cases owner with
  | array items => exact ⟨items, rfl⟩
  | _ => cases h

theorem subset_eq_ok {result : Except SelectionError Value} {v : Value}
    (h : subset result = .ok v) : result = .ok v := by
  cases result with
  | error e => cases h
  | ok w =>
      cases h
      rfl

/-- An item of an array that was replaced is the new one. -/
theorem standard_subset_get_of_set {owner new v : Value} {xs : List Float} (nonempty : xs ≠ [])
    (h : standard.call "subset" [owner, .index (xs.map .number), new] = .ok v) :
    standard.call "subset" [v, .index (xs.map .number)] = .ok new := by
  obtain ⟨items, rfl⟩ := eq_array_of_standard_subset_set h
  rw [standard_subset_set] at h
  have hset := subset_eq_ok h
  cases hselections : Selection.ofDimensions (xs.map .number) with
  | error e =>
      rw [hselections] at hset
      cases hset
  | ok selections =>
      obtain ⟨positions, rfl, hlength⟩ := Selection.ofDimensions_numbers hselections
      have hset : Selection.set (positions.map .one) new (.array items) = .ok v := by
        rwa [hselections] at hset
      have hget := Selection.get_set_one positions hset
      cases positions with
      | nil => exact absurd (List.length_eq_zero_iff.1 hlength.symm) nonempty
      | cons i positions =>
          obtain ⟨_, _, items', _, _, _, rfl⟩ := Selection.set_cons_eq_ok hset
          rw [standard_subset_get, hselections]
          show subset (Selection.get ((i :: positions).map .one) (.array items')) = _
          rw [hget]
          rfl

/-- No string selects an item. -/
theorem standard_subset_set_string (owner new v : Value) (key : String) :
    standard.call "subset" [owner, .index [.string key], new] ≠ .ok v := by
  intro h
  obtain ⟨items, rfl⟩ := eq_array_of_standard_subset_set h
  rw [standard_subset_set] at h
  cases h

end Formula.Catalog
