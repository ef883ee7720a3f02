import Formula.Proofs.Catalog.Standard

/-!
Rectangular arrays, and exchanging their rows and columns.

`IsGrid` says of rows that they are a rectangle, and a rectangle is known by its items
(`IsGrid.ext`). Exchanging rows and columns makes a rectangle of the other shape with the same items
(`IsGrid.columns`, `item?_columns`), so that doing it twice leaves the rows as they were
(`columns_columns`). Arrays of other shapes are refused, and only these (`transpose_fails_iff`).
-/

namespace Formula.Matrix

/-- Rows of one length, of which there is at least one, with at least one item each. -/
structure IsGrid (height width : Nat) (rows : List (List Value)) : Prop where
  length : rows.length = height
  lengths : ∀ row ∈ rows, row.length = width
  tall : 0 < height
  wide : 0 < width

/-- The array of some rows. -/
def ofRows (rows : List (List Value)) : Value :=
  .array (rows.map .array)

theorem ofRows_injective {rows rows' : List (List Value)} (h : ofRows rows = ofRows rows') :
    rows = rows' :=
  List.map_injective_iff.2 (fun _ _ => Value.array.inj) (Value.array.inj h)

/-- The item in a row and a column. -/
def item? (rows : List (List Value)) (r c : Nat) : Option Value :=
  rows[r]?.bind fun row => row[c]?

variable {height width : Nat} {rows rows' : List (List Value)} {items : List Value}

/-! ### Rectangles -/

theorem IsGrid.item?_isSome_iff (grid : IsGrid height width rows) {r c : Nat} :
    (item? rows r c).isSome = true ↔ r < height ∧ c < width := by
  unfold item?
  cases hrow : rows[r]? with
  | none =>
      have hr : ¬ r < height := by
        rw [List.getElem?_eq_none_iff, grid.length] at hrow
        omega
      simp [hr]
  | some row =>
      obtain ⟨hr, rfl⟩ := List.getElem?_eq_some_iff.1 hrow
      rw [Option.bind_some, isSome_getElem?, grid.lengths _ (List.getElem_mem hr), ← grid.length]
      exact ⟨fun hc => ⟨hr, hc⟩, And.right⟩

/-- A row is known by the items in it. -/
theorem getElem?_eq_of_item? (hheight : rows.length = rows'.length)
    (h : ∀ r c, item? rows r c = item? rows' r c) (r : Nat) : rows[r]? = rows'[r]? := by
  by_cases hr : r < rows.length
  · have hr' : r < rows'.length := hheight ▸ hr
    rw [List.getElem?_eq_getElem hr, List.getElem?_eq_getElem hr']
    refine congrArg some (List.ext_getElem? fun c => ?_)
    have hitem := h r c
    rwa [item?, item?, List.getElem?_eq_getElem hr, List.getElem?_eq_getElem hr'] at hitem
  · rw [List.getElem?_eq_none (Nat.not_lt.1 hr), List.getElem?_eq_none (hheight ▸ Nat.not_lt.1 hr)]

/-- Rectangles of as many rows with the same items are the same. -/
theorem IsGrid.ext {width' : Nat} (grid : IsGrid height width rows)
    (grid' : IsGrid height width' rows') (h : ∀ r c, item? rows r c = item? rows' r c) :
    rows = rows' :=
  List.ext_getElem? (getElem?_eq_of_item? (grid.length.trans grid'.length.symm) h)

/-! ### Rows and columns -/

/-- A column at a position that every row has holds one item of each row. -/
theorem map_some_column {c : Nat} (h : ∀ row ∈ rows, c < row.length) :
    (rows.filterMap (·[c]?)).map some = rows.map (·[c]?) := by
  induction rows with
  | nil => rfl
  | cons row rows ih =>
      obtain ⟨hc, h⟩ := List.forall_mem_cons.1 h
      rw [List.filterMap_cons, List.getElem?_eq_getElem hc, List.map_cons, List.map_cons, ih h,
        List.getElem?_eq_getElem hc]

theorem getElem?_column {c : Nat} (h : ∀ row ∈ rows, c < row.length) (r : Nat) :
    (rows.filterMap (·[c]?))[r]? = item? rows r c := by
  have hitem := congrArg (·[r]?) (map_some_column h)
  simp only [List.getElem?_map] at hitem
  unfold item?
  cases hrow : rows[r]? with
  | none =>
      rw [hrow, Option.map_none, Option.map_eq_none_iff] at hitem
      rw [hitem, Option.bind_none]
  | some row =>
      rw [hrow, Option.map_some, Option.map_eq_some_iff] at hitem
      obtain ⟨x, hx, hc⟩ := hitem
      rw [hx, Option.bind_some, hc]

theorem length_column {c : Nat} (h : ∀ row ∈ rows, c < row.length) :
    (rows.filterMap (·[c]?)).length = rows.length := by
  have hlength := congrArg List.length (map_some_column h)
  rwa [List.length_map, List.length_map] at hlength

theorem getElem?_columns (count : Nat) (rows : List (List Value)) (c : Nat) :
    (columns count rows)[c]? = if c < count then some (rows.filterMap (·[c]?)) else none := by
  rw [columns, List.getElem?_map]
  split
  next hc => rw [List.getElem?_range hc, Option.map_some]
  next hc => rw [List.getElem?_eq_none (by simpa using hc), Option.map_none]

/-- The columns of a rectangle are a rectangle. -/
theorem IsGrid.columns (grid : IsGrid height width rows) :
    IsGrid width height (columns width rows) where
  length := by rw [Matrix.columns, List.length_map, List.length_range]
  lengths := by
    unfold Matrix.columns
    rw [List.forall_mem_map]
    intro c hc
    rw [length_column fun row hrow => grid.lengths row hrow ▸ List.mem_range.1 hc, grid.length]
  tall := grid.wide
  wide := grid.tall

/-- The item in a row and a column of the columns is the one in that column and that row. -/
theorem item?_columns (grid : IsGrid height width rows) (r c : Nat) :
    item? (columns width rows) c r = item? rows r c := by
  rw [item?, getElem?_columns]
  split
  next hc => rw [Option.bind_some, getElem?_column fun row hrow => grid.lengths row hrow ▸ hc]
  next hc =>
    have hnone : (item? rows r c).isSome ≠ true := by
      rw [ne_eq, grid.item?_isSome_iff]
      exact fun h => hc h.2
    rw [Option.bind_none, Option.not_isSome_iff_eq_none.1 hnone]

theorem columns_columns (grid : IsGrid height width rows) :
    columns height (columns width rows) = rows :=
  grid.columns.columns.ext grid fun r c => by
    rw [item?_columns grid.columns, item?_columns grid]

/-! ### Transposition -/

theorem filterMap_row?_map (rows : List (List Value)) : (rows.map Value.array).filterMap row? = rows := by
  rw [List.filterMap_map]
  exact List.filterMap_some

theorem mem_filterMap_row? {row : List Value} : row ∈ items.filterMap row? ↔ .array row ∈ items := by
  rw [List.mem_filterMap]
  constructor
  · rintro ⟨v, hv, hrow⟩
    cases v with
    | array =>
        cases hrow
        exact hv
    | _ => cases hrow
  · exact fun h => ⟨_, h, rfl⟩

/-- Whether only some items are arrays. -/
def IsMixed (items : List Value) : Prop :=
  (∃ row, .array row ∈ items) ∧ ∃ v ∈ items, row? v = none

/-- Whether there are rows of different lengths. -/
def IsUneven (items : List Value) : Prop :=
  ∃ row row', .array row ∈ items ∧ .array row' ∈ items ∧ row.length ≠ row'.length

/-- Rows have different lengths if one of them has another length than the first one. -/
theorem isUneven_iff {first : List Value} {others : List (List Value)}
    (h : items.filterMap row? = first :: others) :
    IsUneven items ↔ (others.any fun row => row.length ≠ first.length) = true := by
  have hmem : ∀ row, .array row ∈ items ↔ row = first ∨ row ∈ others := by
    intro row
    rw [← mem_filterMap_row?, h, List.mem_cons]
  simp only [IsUneven, hmem, List.any_eq_true, decide_eq_true_eq]
  constructor
  · rintro ⟨row, row', hrow, hrow', hlength⟩
    by_contra hnone
    have same : ∀ row, row = first ∨ row ∈ others → row.length = first.length := by
      rintro row (rfl | hrow)
      · rfl
      · by_contra hne
        exact hnone ⟨row, hrow, hne⟩
    exact hlength ((same row hrow).trans (same row' hrow').symm)
  · rintro ⟨row, hrow, hlength⟩
    exact ⟨row, first, .inr hrow, .inl rfl, hlength⟩

/-- Items are mixed if there are rows, but not as many as there are items. -/
theorem isMixed_iff {first : List Value} {others : List (List Value)}
    (h : items.filterMap row? = first :: others) :
    IsMixed items ↔ (first :: others).length ≠ items.length := by
  have hrow : ∃ row, .array row ∈ items :=
    ⟨first, mem_filterMap_row?.1 (h ▸ List.mem_cons_self)⟩
  rw [← h, ne_eq, List.filterMap_length_eq_length]
  simp [IsMixed, hrow]

/-- Items among which there is no row stay as they are. -/
theorem transpose_eq_self (h : ∀ v ∈ items, row? v = none) : transpose items = .ok items := by
  rw [transpose, List.filterMap_eq_nil_iff.2 h]

/-- Exchanging rows and columns fails if the items are mixed, or else if they are rows of different
lengths, and in no other case. -/
theorem transpose_eq_error_iff {e : MatrixError} : transpose items = .error e ↔
    e = .mixedItems ∧ IsMixed items ∨ e = .lengths ∧ ¬ IsMixed items ∧ IsUneven items := by
  cases hrows : items.filterMap row? with
  | nil =>
      have none : ∀ row, .array row ∉ items := by
        intro row h
        rw [← mem_filterMap_row?, hrows] at h
        cases h
      simp [transpose, hrows, IsMixed, IsUneven, none]
  | cons first others =>
      rw [isMixed_iff hrows, isUneven_iff hrows, transpose, hrows]
      dsimp only
      split
      next hmixed =>
        constructor
        · rintro ⟨⟩
          exact .inl ⟨rfl, hmixed⟩
        · rintro (⟨rfl, _⟩ | ⟨_, hpure, _⟩)
          · rfl
          · exact absurd hmixed hpure
      next hpure =>
        split
        next huneven =>
          constructor
          · rintro ⟨⟩
            exact .inr ⟨rfl, hpure, huneven⟩
          · rintro (⟨_, hmixed⟩ | ⟨rfl, _, _⟩)
            · exact absurd hmixed hpure
            · rfl
        next heven =>
          refine iff_of_false nofun ?_
          rintro (⟨_, hmixed⟩ | ⟨_, _, huneven⟩)
          · exact hpure hmixed
          · exact heven huneven

/-- What exchanging rows and columns gives, where there is a row. -/
theorem eq_columns_of_transpose {items' : List Value} (h : transpose items = .ok items')
    {first : List Value} {others : List (List Value)} (hrows : items.filterMap row? = first :: others) :
    items' = (columns first.length (first :: others)).map .array := by
  rw [transpose, hrows] at h
  dsimp only at h
  split at h
  · cases h
  · split at h
    · cases h
    · exact (Except.ok.inj h).symm

/-- Wherever rows and columns are exchanged, all items are rows that have an item for each of the
columns. -/
theorem forall_row_of_transpose {items' : List Value} (h : transpose items = .ok items')
    (some : ∃ row, .array row ∈ items) :
    ∀ v ∈ items, ∃ row, v = .array row ∧ row.length = items'.length := by
  obtain ⟨row, hrow⟩ := some
  have sound : ¬ IsMixed items ∧ ¬ IsUneven items := by
    have hok : ∀ e, transpose items ≠ .error e := fun e he => nomatch h.symm.trans he
    have hpure : ¬ IsMixed items := fun hmixed =>
      hok .mixedItems (transpose_eq_error_iff.2 (.inl ⟨rfl, hmixed⟩))
    exact ⟨hpure, fun huneven => hok .lengths (transpose_eq_error_iff.2 (.inr ⟨rfl, hpure, huneven⟩))⟩
  cases hrows : items.filterMap row? with
  | nil =>
      rw [← mem_filterMap_row?, hrows] at hrow
      cases hrow
  | cons first others =>
      have hfirst : .array first ∈ items := mem_filterMap_row?.1 (hrows ▸ List.mem_cons_self)
      obtain rfl := eq_columns_of_transpose h hrows
      intro v hv
      cases hrow' : row? v with
      | none => exact absurd ⟨⟨row, hrow⟩, v, hv, hrow'⟩ sound.1
      | some row' =>
          obtain ⟨row'', rfl⟩ : ∃ row'', v = .array row'' := by
            cases v with
            | array row'' => exact ⟨row'', rfl⟩
            | _ => cases hrow'
          refine ⟨row'', rfl, ?_⟩
          rw [List.length_map, columns, List.length_map, List.length_range]
          by_contra hlength
          exact sound.2 ⟨row'', first, hv, hfirst, hlength⟩

/-- The rows of a rectangle can be exchanged with its columns. -/
theorem IsGrid.transpose (grid : IsGrid height width rows) :
    transpose (rows.map .array) = .ok ((Matrix.columns width rows).map .array) := by
  have length_of_mem : ∀ row, .array row ∈ rows.map Value.array → row.length = width := by
    intro row hrow
    rw [← mem_filterMap_row?, filterMap_row?_map] at hrow
    exact grid.lengths row hrow
  cases hresult : Matrix.transpose (rows.map .array) with
  | error e =>
      obtain ⟨_, _, v, hv, hnone⟩ | ⟨_, _, row, row', hrow, hrow', hne⟩ :=
        transpose_eq_error_iff.1 hresult
      · obtain ⟨_, _, rfl⟩ := List.mem_map.1 hv
        cases hnone
      · exact absurd ((length_of_mem row hrow).trans (length_of_mem row' hrow').symm) hne
  | ok items' =>
      cases rows with
      | nil => exact absurd grid.length (Nat.ne_of_lt grid.tall)
      | cons row rows =>
          rw [eq_columns_of_transpose hresult (filterMap_row?_map _), grid.lengths _ List.mem_cons_self]

section

open Catalog (standard)

theorem standard_transpose_fails_iff : (∃ e, standard.call "transpose" [.array items] = .error e) ↔
    IsMixed items ∨ IsUneven items := by
  rw [Catalog.standard_transpose]
  cases hresult : transpose items with
  | error e =>
      refine iff_of_true ⟨_, rfl⟩ ?_
      obtain ⟨_, hmixed⟩ | ⟨_, _, huneven⟩ := transpose_eq_error_iff.1 hresult
      · exact .inl hmixed
      · exact .inr huneven
  | ok items' =>
      refine iff_of_false nofun fun h => ?_
      have hfails : ∃ e, transpose items = .error e := by
        by_cases hmixed : IsMixed items
        · exact ⟨_, transpose_eq_error_iff.2 (.inl ⟨rfl, hmixed⟩)⟩
        · exact ⟨_, transpose_eq_error_iff.2 (.inr ⟨rfl, hmixed, h.resolve_left hmixed⟩)⟩
      obtain ⟨e, he⟩ := hfails
      exact nomatch hresult.symm.trans he

theorem standard_transpose_ofRows (grid : IsGrid height width rows) :
    standard.call "transpose" [ofRows rows] = .ok (ofRows (columns width rows)) := by
  rw [ofRows, Catalog.standard_transpose, grid.transpose]
  rfl

/-- The rows and columns of a rectangle are exchanged: the item in a row and a column moves to that
column and row, and exchanging them again gives the rectangle back. This fails for arrays that have
other items beside rows or rows of different lengths, and for no others; where it succeeds every row
has an item for each column of the result. An array without rows stays as it is. -/
theorem transpose_laws :
    (∀ height width rows, IsGrid height width rows → ∃ columns,
      standard.call "transpose" [ofRows rows] = .ok (ofRows columns) ∧ IsGrid width height columns ∧
        (∀ r < height, ∀ c < width, ∃ v, item? rows r c = some v ∧ item? columns c r = some v) ∧
        standard.call "transpose" [ofRows columns] = .ok (ofRows rows)) ∧
      ∀ items,
        ((∃ e, standard.call "transpose" [.array items] = .error e) ↔
          IsMixed items ∨ IsUneven items) ∧
        (∀ items', standard.call "transpose" [.array items] = .ok (.array items') →
          (∃ row, .array row ∈ items) →
            ∀ v ∈ items, ∃ row, v = .array row ∧ row.length = items'.length) ∧
        ((∀ v ∈ items, row? v = none) →
          standard.call "transpose" [.array items] = .ok (.array items)) := by
  refine ⟨fun height width rows grid => ⟨columns width rows, standard_transpose_ofRows grid,
    grid.columns, fun r hr c hc => ?_, ?_⟩, fun items => ⟨standard_transpose_fails_iff, ?_, ?_⟩⟩
  · obtain ⟨v, hv⟩ := Option.isSome_iff_exists.1 (grid.item?_isSome_iff.2 ⟨hr, hc⟩)
    exact ⟨v, hv, (item?_columns grid r c).trans hv⟩
  · rw [standard_transpose_ofRows grid.columns, columns_columns grid]
  · intro items' h
    refine forall_row_of_transpose ?_
    rw [Catalog.standard_transpose] at h
    cases hresult : transpose items with
    | error e =>
        rw [hresult] at h
        cases h
    | ok items'' =>
        rw [hresult] at h
        cases h
        rfl
  · intro h
    rw [Catalog.standard_transpose, transpose_eq_self h]

/-- Two rows of three items become three rows of two; a row beside `null` is refused, and so is a row
beside an empty one. -/
theorem transpose_laws_pair :
    let rows : List (List Value) :=
      [[.bool true, .string "a", .null], [.undefined, .bool false, .array []]]
    let turned : List (List Value) :=
      [[.bool true, .undefined], [.string "a", .bool false], [.null, .array []]]
    IsGrid 2 3 rows ∧ standard.call "transpose" [ofRows rows] = .ok (ofRows turned) ∧
      standard.call "transpose" [ofRows turned] = .ok (ofRows rows) ∧
      (∃ e, standard.call "transpose" [.array [.array [.null], .null]] = .error e) ∧
      (∃ e, standard.call "transpose" [.array [.array [.null], .array []]] = .error e) ∧
      standard.call "transpose" [.array [.null, .bool true]] = .ok (.array [.null, .bool true]) := by
  intro rows turned
  have grid : IsGrid 2 3 rows := ⟨rfl, by decide, by decide, by decide⟩
  obtain ⟨exchanges, others⟩ := transpose_laws
  obtain ⟨columns, hcolumns, _, _, hback⟩ := exchanges 2 3 rows grid
  have hturned : standard.call "transpose" [ofRows rows] = .ok (ofRows turned) := rfl
  rw [Except.ok.inj (hcolumns.symm.trans hturned)] at hback
  refine ⟨grid, hturned, hback, ?_, ?_, ?_⟩
  · exact (others _).1.2 (.inl ⟨⟨_, List.mem_cons_self⟩, .null, by simp, rfl⟩)
  · exact (others _).1.2 (.inr ⟨[.null], [], by simp, by simp, by decide⟩)
  · exact (others _).2.2 (by simp [row?])

end

end Formula.Matrix
