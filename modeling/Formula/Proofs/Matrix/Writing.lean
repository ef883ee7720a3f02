import Formula.Proofs.Matrix

/-!
What becomes of a matrix when an item is written.

The row that is written to is made as long as the column asks, and there are made as many rows as the
row asks (`set_cell`). The other rows keep their lengths, and the rows that are made in between are
empty, so that the rows stay a rectangle for some positions only (`exists_isGrid_put_iff`).
-/

namespace Formula.Matrix

open Selection (reach)

/-- A rectangle of items that are no arrays. -/
structure IsMatrix (height width : Nat) (rows : List (List Value)) : Prop
    extends IsGrid height width rows where
  scalars : ∀ row ∈ rows, ∀ v ∈ row, row? v = none

variable {height width r c : Nat} {rows : List (List Value)} {v : Value}

/-! ### Reading -/

/-- The extents of a matrix are those of the rectangle. -/
theorem IsMatrix.extents (matrix : IsMatrix height width rows) :
    extents (ofRows rows) = [height, width] := by
  cases rows with
  | nil => exact absurd matrix.length (Nat.ne_of_lt matrix.tall)
  | cons row rows =>
      have hwidth := matrix.lengths row List.mem_cons_self
      cases row with
      | nil => exact absurd hwidth (Nat.ne_of_lt matrix.wide)
      | cons v row =>
          have hscalar : row? v = none :=
            matrix.scalars _ List.mem_cons_self v List.mem_cons_self
          have hrow : Matrix.extents (.array (v :: row)) = [width] := by
            cases v with
            | array => cases hscalar
            | _ => exact congrArg ([·]) hwidth
          have hheight : (rows.map Value.array).length + 1 = height := by
            rw [List.length_map]
            exact matrix.length
          rw [ofRows, List.map_cons, Matrix.extents, hrow, hheight]

/-- What is read in a row and a column. -/
theorem get_cell : Selection.get [.one r, .one c] (ofRows rows) = .ok v ↔ item? rows r c = some v := by
  rw [ofRows, Selection.get, Selection.pick_bind_eq_ok_iff, Selection.Reads, item?,
    Option.bind_eq_some_iff, List.getElem?_map]
  simp only [Option.map_eq_some_iff]
  constructor
  · rintro ⟨_, ⟨row, hrow, rfl⟩, hget⟩
    rw [Selection.get, Selection.pick_bind_eq_ok_iff] at hget
    obtain ⟨x, hx, hv⟩ := hget
    cases hv
    exact ⟨row, hrow, hx⟩
  · rintro ⟨row, hrow, hv⟩
    refine ⟨_, ⟨row, hrow, rfl⟩, ?_⟩
    rw [Selection.get, Selection.pick_bind_eq_ok_iff]
    exact ⟨v, hv, rfl⟩

/-! ### Writing -/

/-- Rows with as many empty ones behind them that there is one at the position. -/
def reachRow (r : Nat) (rows : List (List Value)) : List (List Value) :=
  rows ++ List.replicate (r + 1 - rows.length) []

/-- Rows with an item written in a row and a column. -/
def put (r c : Nat) (v : Value) (rows : List (List Value)) : List (List Value) :=
  (reachRow r rows).set r ((reach [] c (rows[r]?.getD [])).set c v)

theorem reach_map_array (rows : List (List Value)) :
    reach [.one c] r (rows.map .array) = (reachRow r rows).map .array := by
  rw [reach, reachRow, List.map_append, List.map_replicate, List.length_map]
  rfl

theorem getElem?_reachRow (k : Nat) : (reachRow r rows)[k]? =
    if k < rows.length then rows[k]? else if k ≤ r then some [] else none := by
  rw [reachRow, List.getElem?_append, List.getElem?_replicate]
  split
  · rfl
  · congr 1
    exact propext (by omega)

theorem getElem?_reachRow_self : (reachRow r rows)[r]? = some (rows[r]?.getD []) := by
  rw [getElem?_reachRow]
  split
  next hr => rw [List.getElem?_eq_getElem hr, Option.getD_some]
  next hr => rw [List.getElem?_eq_none (Nat.not_lt.1 hr), Option.getD_none, if_pos (Nat.le_refl r)]

/-- Writing one item of an array. -/
theorem set_item {rest : List Selection} {new : Value} {items : List Value} {i : Nat} {old new' : Value}
    (hold : (reach rest i items)[i]? = some old) (hnew : Selection.set rest new old = .ok new') :
    Selection.set (.one i :: rest) new (.array items)
      = .ok (.array ((reach rest i items).set i new')) := by
  have hmodify : Selection.modifyAt rest i (Selection.set rest new) items
      = .ok ((reach rest i items).set i new') := by
    rw [Selection.modifyAt, hold]
    dsimp only
    rw [hnew]
    rfl
  show (Selection.modifyAt rest i (Selection.set rest new) items >>= fun items' =>
    .ok (Value.array items')) = _
  rw [hmodify]
  rfl

/-- Writing in a row and a column. -/
theorem set_cell : Selection.set [.one r, .one c] v (ofRows rows) = .ok (ofRows (put r c v rows)) := by
  have hrow : (reach [.one c] r (rows.map .array))[r]? = some (.array (rows[r]?.getD [])) := by
    rw [reach_map_array, List.getElem?_map, getElem?_reachRow_self]
    rfl
  have hitem := List.getElem?_eq_getElem (Selection.lt_length_reach [] c (rows[r]?.getD []))
  rw [ofRows, set_item hrow (set_item hitem rfl), reach_map_array, ← List.map_set]
  rfl

theorem getElem?_put (k : Nat) : (put r c v rows)[k]? =
    if k = r then some ((reach [] c (rows[r]?.getD [])).set c v)
    else if k < rows.length then rows[k]? else if k ≤ r then some [] else none := by
  have hr : r < (reachRow r rows).length :=
    (List.getElem?_eq_some_iff.1 getElem?_reachRow_self).choose
  rw [put, List.getElem?_set, if_pos hr, getElem?_reachRow]
  simp only [eq_comm (a := r)]

/-! ### The shape of what was written -/

/-- Rows are a rectangle if all of them have one length. -/
theorem isGrid_iff : IsGrid height width rows ↔ 0 < height ∧ 0 < width ∧
    ∀ k, (rows[k]?).map List.length = if k < height then some width else none := by
  constructor
  · intro grid
    refine ⟨grid.tall, grid.wide, fun k => ?_⟩
    split
    next hk =>
      rw [← grid.length] at hk
      rw [List.getElem?_eq_getElem hk, Option.map_some, grid.lengths _ (List.getElem_mem hk)]
    next hk => rw [List.getElem?_eq_none (by rw [grid.length]; omega), Option.map_none]
  · rintro ⟨tall, wide, h⟩
    have hlengths : rows.map List.length = List.replicate height width := by
      refine List.ext_getElem? fun k => ?_
      rw [List.getElem?_map, h, List.getElem?_replicate]
    have hlength := congrArg List.length hlengths
    rw [List.length_map, List.length_replicate] at hlength
    rw [List.eq_replicate_iff, List.forall_mem_map] at hlengths
    exact ⟨hlength, hlengths.2, tall, wide⟩

/-- How long the rows are when an item was written in a rectangle. -/
theorem length_getElem?_put (grid : IsGrid height width rows) (k : Nat) :
    ((put r c v rows)[k]?).map List.length =
      if k = r then some (max (if r < height then width else 0) (c + 1))
      else if k < height then some width
      else if k < r then some 0
      else none := by
  have hrow := (isGrid_iff.1 grid).2.2
  rw [getElem?_put, grid.length]
  split
  next =>
    have hold : (rows[r]?.getD []).length = if r < height then width else 0 := by
      rw [← Option.getD_map List.length, hrow]
      split <;> rfl
    rw [Option.map_some, List.length_set, reach, List.length_append, List.length_replicate, hold]
    congr 1
    omega
  next =>
    split
    next hk => rw [hrow, if_pos hk]
    next => split <;> grind

/-- Where an item can be written in a rectangle that stays one: inside, in the only row, or at the last
column of the first row behind the end. -/
def KeepsShape (height width r c : Nat) : Prop :=
  r < height ∧ c < width ∨ r = 0 ∧ height = 1 ∨ r = height ∧ c + 1 = width

theorem exists_isGrid_put_iff (grid : IsGrid height width rows) :
    (∃ height' width', IsGrid height' width' (put r c v rows)) ↔ KeepsShape height width r c := by
  simp only [isGrid_iff, length_getElem?_put grid]
  have tall := grid.tall
  have wide := grid.wide
  constructor
  · rintro ⟨height', width', tall', wide', h⟩
    -- the row that was written to has the length of another one, and no row that was made is empty
    have hfirst := h 0
    have hsecond := h 1
    have hwritten := h r
    have hmade := h height
    unfold KeepsShape
    grind
  · rintro (⟨hr, hc⟩ | ⟨rfl, rfl⟩ | ⟨rfl, rfl⟩)
    · exact ⟨height, width, tall, wide, by grind⟩
    · exact ⟨1, max width (c + 1), by grind⟩
    · exact ⟨r + 1, c + 1, by grind⟩

theorem row?_put (matrix : IsMatrix height width rows) (scalar : row? v = none) :
    ∀ row ∈ put r c v rows, ∀ x ∈ row, row? x = none := by
  have old : ∀ k row, rows[k]? = some row → ∀ x ∈ row, row? x = none := fun _ _ hrow =>
    matrix.scalars _ (List.mem_of_getElem? hrow)
  intro row hrow x hx
  obtain ⟨k, hk⟩ := List.mem_iff_getElem?.1 hrow
  rw [getElem?_put] at hk
  split at hk
  · obtain rfl := Option.some.inj hk
    obtain hx | rfl := List.mem_or_eq_of_mem_set hx
    · rw [reach, List.mem_append, List.mem_replicate] at hx
      obtain hx | ⟨_, rfl⟩ := hx
      · cases hr : rows[r]? with
        | none =>
            rw [hr] at hx
            cases hx
        | some row =>
            rw [hr] at hx
            exact old r row hr x hx
      · rfl
    · exact scalar
  · split at hk
    · exact old k row hk x hx
    · split at hk
      · obtain rfl := Option.some.inj hk
        cases hx
      · cases hk

theorem exists_isMatrix_put_iff (matrix : IsMatrix height width rows) (scalar : row? v = none) :
    (∃ height' width', IsMatrix height' width' (put r c v rows)) ↔ KeepsShape height width r c := by
  rw [← exists_isGrid_put_iff (v := v) matrix.toIsGrid]
  refine exists_congr fun height' => exists_congr fun width' => ⟨IsMatrix.toIsGrid, fun grid => ?_⟩
  exact ⟨grid, row?_put matrix scalar⟩

/-! ### Matrices in the standard catalog -/

section

open Catalog (standard)
open Selection (position)

variable {x y : Float}

theorem ofDimensions_pair (hx : position x = .ok r) (hy : position y = .ok c) :
    Selection.ofDimensions [.number x, .number y] = .ok [.one r, .one c] := by
  have one : ∀ {x : Float} {i : Nat}, position x = .ok i →
      Selection.ofDimension (.number x) = .ok (.one i) := by
    intro x i h
    rw [Selection.ofDimension, h]
    rfl
  exact mapM_eq_ok_iff.2 (.cons (one hx) (.cons (one hy) .nil))

theorem standard_set_cell (hx : position x = .ok r) (hy : position y = .ok c) :
    standard.call "subset" [ofRows rows, .index [.number x, .number y], v]
      = .ok (ofRows (put r c v rows)) := by
  rw [ofRows, Catalog.standard_subset_set, ofDimensions_pair hx hy, ← ofRows]
  show Catalog.subset (Selection.set _ _ _) = _
  rw [set_cell]
  rfl

theorem standard_get_cell (hx : position x = .ok r) (hy : position y = .ok c)
    (h : item? rows r c = some v) :
    standard.call "subset" [ofRows rows, .index [.number x, .number y]] = .ok v := by
  rw [ofRows, Catalog.standard_subset_get, ofDimensions_pair hx hy, ← ofRows]
  show Catalog.subset (Selection.get _ _) = _
  rw [get_cell.2 h]
  rfl

/-- Writing an item in a matrix always succeeds, and the result is a matrix if and only if the position
keeps the shape. Then its size is what its rows say, and there is an item at every position in it. -/
theorem matrix_written (matrix : IsMatrix height width rows) (hx : position x = .ok r)
    (hy : position y = .ok c) (scalar : row? v = none) : ∃ rows',
      standard.call "subset" [ofRows rows, .index [.number x, .number y], v] = .ok (ofRows rows') ∧
        ((∃ height' width', IsMatrix height' width' rows') ↔ KeepsShape height width r c) ∧
        ∀ height' width', IsMatrix height' width' rows' →
          standard.call "size" [ofRows rows']
            = .ok (.array [.number (Float.ofNat height'), .number (Float.ofNat width')]) ∧
          ∀ x' y' r' c', position x' = .ok r' → position y' = .ok c' → r' < height' → c' < width' →
            ∃ v', standard.call "subset" [ofRows rows', .index [.number x', .number y']] = .ok v' ∧
              row? v' = none := by
  refine ⟨put r c v rows, standard_set_cell hx hy, exists_isMatrix_put_iff matrix scalar, ?_⟩
  intro height' width' matrix'
  refine ⟨by rw [Catalog.standard_size, matrix'.extents]; rfl, ?_⟩
  intro x' y' r' c' hx' hy' hr hc
  obtain ⟨v', hv'⟩ := Option.isSome_iff_exists.1 (matrix'.item?_isSome_iff.2 ⟨hr, hc⟩)
  obtain ⟨row, hrow, hitem⟩ := Option.bind_eq_some_iff.1 hv'
  exact ⟨v', standard_get_cell hx' hy' hv',
    matrix'.scalars row (List.mem_of_getElem? hrow) v' (List.mem_of_getElem? hitem)⟩

/-- The matrix of two rows and two columns. -/
def square : List (List Value) :=
  [[.number 1, .number 2], [.number 3, .number 4]]

theorem isMatrix_square : IsMatrix 2 2 square where
  length := rfl
  lengths := by decide
  tall := by decide
  wide := by decide
  scalars := by simp [square, row?]

/-- A third row that ends in the second column makes a matrix of three rows. -/
theorem matrix_written_below : ∃ rows',
    standard.call "subset" [ofRows square, .index [.number 3, .number 2], .number 9]
        = .ok (ofRows rows') ∧
      IsMatrix 3 2 rows' ∧
      standard.call "size" [ofRows rows'] = .ok (.array [.number 3, .number 2]) ∧
      ∃ v, standard.call "subset" [ofRows rows', .index [.number 3, .number 1]] = .ok v ∧
        row? v = none := by
  have third : position 3 = .ok 2 := rfl
  have second : position 2 = .ok 1 := rfl
  have first : position 1 = .ok 0 := rfl
  obtain ⟨rows', hwritten, hkeeps, hread⟩ :=
    matrix_written isMatrix_square third second (v := .number 9) rfl
  obtain ⟨height, width, matrix⟩ := hkeeps.2 (.inr (.inr ⟨rfl, rfl⟩))
  have hrows : standard.call "subset" [ofRows square, .index [.number 3, .number 2], .number 9]
      = .ok (ofRows [[.number 1, .number 2], [.number 3, .number 4], [.number 0, .number 9]]) := rfl
  obtain rfl := ofRows_injective (Except.ok.inj (hwritten.symm.trans hrows))
  obtain rfl : 3 = height := matrix.length
  obtain rfl : 2 = width := matrix.lengths _ List.mem_cons_self
  obtain ⟨hsize, hitem⟩ := hread 3 2 matrix
  exact ⟨_, hwritten, matrix, hsize, hitem 3 1 2 0 third first (by decide) (by decide)⟩

/-- A row that is written behind the next one leaves an empty row between them, which the size does not
tell. -/
theorem matrix_loses_shape :
    let grown : List (List Value) :=
      [[.number 1, .number 2], [.number 3, .number 4], [], [.number 9]]
    IsMatrix 2 2 square ∧
      standard.call "subset" [ofRows square, .index [.number 4, .number 1], .number 9]
        = .ok (ofRows grown) ∧
      (∀ height width, ¬ IsMatrix height width grown) ∧
      standard.call "size" [ofRows grown] = .ok (.array [.number 4, .number 2]) ∧
      ∀ v, standard.call "subset" [ofRows grown, .index [.number 3, .number 2]] ≠ .ok v := by
  intro grown
  refine ⟨isMatrix_square, rfl, fun height width matrix => ?_, rfl, fun v h => ?_⟩
  · obtain rfl : 0 = width := matrix.lengths [] (by simp [grown])
    exact absurd matrix.wide (Nat.lt_irrefl 0)
  · cases h

end

end Formula.Matrix
