import Formula.Proofs.Computation
import Formula.Selection
import Mathlib.Data.List.Forall2

/-!
How reading a part of an array and replacing it go together.

A selection and a new value make a list of writes, one for each position that is selected (`writes`).
Replacing a part performs them one after another (`set_cons`), and a part is read as a value if and
only if each of its writes would write what is there (`get_cons_eq_ok_iff`). A single write changes
one item and keeps the others (`Written`), so that a run of writes leaves what none of them touches
(`foldlM_write_keeps`) and ends with what was written, if no position is written twice
(`foldlM_write_written`). The laws of the two operations follow (`set_laws`).
-/

namespace Formula.Selection

/-- The positions of a selection. -/
def positions : Selection → List Nat
  | .one i => [i]
  | .many is => is

/-- Whether a path of positions leads to an item that is selected. -/
def Selects (sels : List Selection) (path : List Nat) : Prop :=
  List.Forall₂ (fun s i => i ∈ s.positions) sels path

/-- Whether a value has a part for each position of every list of positions. -/
def IsShaped : List Selection → Value → Prop
  | [], _ => True
  | .one _ :: rest, v => IsShaped rest v
  | .many is :: rest, .array values => values.length = is.length ∧ ∀ v ∈ values, IsShaped rest v
  | .many _ :: _, _ => False

/-! ### Writes -/

/-- What is written at which positions. -/
def writes : Selection → Value → Except SelectionError (List (Nat × Value))
  | .one i, v => .ok [(i, v)]
  | .many is, v => spread is v

/-- Performs a write at an item, under the selections that are left. -/
abbrev write (rest : List Selection) (items : List Value) (w : Nat × Value) :
    Except SelectionError (List Value) :=
  modifyAt rest w.1 (set rest w.2) items

theorem set_cons (s : Selection) (rest : List Selection) (new target : Value) :
    set (s :: rest) new target = (do
      let items ← itemsOf target
      let ws ← s.writes new
      return .array (← ws.foldlM (write rest) items)) := by
  cases s with
  | one i =>
      show _ = (do
        let items ← itemsOf target
        return Value.array (← [(i, new)].foldlM (write rest) items))
      simp only [List.foldlM_cons, List.foldlM_nil, bind_pure]
      rfl
  | many is => rfl

/-- The writes of a selection are at its positions. -/
theorem map_fst_writes {s : Selection} {v : Value} {ws : List (Nat × Value)}
    (h : s.writes v = .ok ws) : ws.map (·.1) = s.positions := by
  cases s with
  | one i =>
      cases h
      rfl
  | many is =>
      rw [writes] at h
      unfold spread at h
      split at h
      · split at h
        · rename_i hlength
          cases h
          exact List.map_fst_zip (Nat.le_of_eq hlength.symm)
        · cases h
      · cases h
        simp [positions, Function.comp_def]

theorem lt_length_reach (rest : List Selection) (i : Nat) (items : List Value) :
    i < (reach rest i items).length := by
  simp only [reach, List.length_append, List.length_replicate]
  omega

/-- What becomes of items when the one at a position is changed. -/
structure Written (change : Value → Except SelectionError Value) (i : Nat)
    (items items' : List Value) : Prop where
  here : ∃ old new, change old = .ok new ∧ items'[i]? = some new ∧ ∀ x, items[i]? = some x → x = old
  elsewhere : ∀ (j : Nat) (x : Value), j ≠ i → items[j]? = some x → items'[j]? = some x

theorem written_of_modifyAt {rest : List Selection} {i : Nat}
    {change : Value → Except SelectionError Value} {items items' : List Value}
    (h : modifyAt rest i change items = .ok items') : Written change i items items' := by
  have hlt := lt_length_reach rest i items
  have kept : ∀ (j : Nat) (x : Value), items[j]? = some x → (reach rest i items)[j]? = some x := by
    intro j x hx
    obtain ⟨hj, _⟩ := List.getElem?_eq_some_iff.1 hx
    rw [reach, List.getElem?_append_left hj, hx]
  rw [modifyAt, List.getElem?_eq_getElem hlt] at h
  dsimp only at h
  cases hnew : change (reach rest i items)[i] with
  | error e =>
      rw [hnew] at h
      cases h
  | ok new =>
      rw [hnew] at h
      cases h
      refine ⟨⟨_, new, hnew, by simp [hlt], fun x hx => ?_⟩, fun j x hj hx => ?_⟩
      · have := kept i x hx
        rw [List.getElem?_eq_getElem hlt] at this
        exact (Option.some.inj this).symm
      · rw [List.getElem?_set_ne (Ne.symm hj)]
        exact kept j x hx

/-- Changing an item to itself changes nothing. -/
theorem modifyAt_eq_self {rest : List Selection} {i : Nat}
    {change : Value → Except SelectionError Value} {items : List Value} {x : Value}
    (hx : items[i]? = some x) (h : change x = .ok x) : modifyAt rest i change items = .ok items := by
  obtain ⟨hi, rfl⟩ := List.getElem?_eq_some_iff.1 hx
  have hreach : reach rest i items = items := by
    rw [reach, Nat.sub_eq_zero_of_le hi, List.replicate_zero, List.append_nil]
  rw [modifyAt, hreach, hx]
  dsimp only
  rw [h, Except.map, List.set_getElem_self]

/-! ### Reading -/

/-- Whether a write writes what is there. -/
def Reads (rest : List Selection) (items : List Value) (w : Nat × Value) : Prop :=
  ∃ x, items[w.1]? = some x ∧ get rest x = .ok w.2

theorem pick_bind_eq_ok_iff {rest : List Selection} {items : List Value} {i : Nat} {v : Value} :
    pick items i >>= get rest = .ok v ↔ Reads rest items (i, v) := by
  rw [bind_eq_ok_iff]
  refine exists_congr fun x => and_congr_left' ?_
  unfold pick
  cases items[i]? <;> simp

theorem mapM_pick_eq_ok_iff {rest : List Selection} {items : List Value} {is : List Nat}
    {values : List Value} :
    (is.mapM fun i => pick items i >>= get rest) = .ok values
      ↔ values.length = is.length ∧ ∀ w ∈ is.zip values, Reads rest items w := by
  rw [mapM_eq_ok_iff, List.forall₂_iff_zip, eq_comm (a := values.length), Prod.forall]
  simp only [pick_bind_eq_ok_iff]

/-- Whether a value has a part for each position of the first selection. -/
def Fits : Selection → Value → Prop
  | .one _, _ => True
  | .many is, .array values => values.length = is.length
  | .many _, _ => False

/-- A part is read as a value if and only if the writes of the value write what is there. -/
theorem get_cons_eq_ok_iff {s : Selection} {rest : List Selection} {t v : Value} :
    get (s :: rest) t = .ok v ↔ ∃ items ws, t = .array items ∧ s.Fits v ∧ s.writes v = .ok ws ∧
      ∀ w ∈ ws, Reads rest items w := by
  constructor
  · intro h
    cases t with
    | array items =>
        cases s with
        | one i =>
            rw [get, pick_bind_eq_ok_iff] at h
            exact ⟨items, _, rfl, trivial, rfl, List.forall_mem_singleton.2 h⟩
        | many is =>
            rw [get] at h
            obtain ⟨values, hvalues, rfl⟩ := map_eq_ok_iff.1 h
            obtain ⟨hlength, hreads⟩ := mapM_pick_eq_ok_iff.1 hvalues
            exact ⟨items, _, rfl, hlength, if_pos hlength, hreads⟩
    | _ => cases s <;> cases h
  · rintro ⟨items, ws, rfl, hfits, hws, hreads⟩
    cases s with
    | one i =>
        cases hws
        rw [get, pick_bind_eq_ok_iff]
        exact hreads _ List.mem_cons_self
    | many is =>
        cases v with
        | array values =>
            obtain rfl := Except.ok.inj ((if_pos hfits).symm.trans hws)
            rw [get, mapM_pick_eq_ok_iff.2 ⟨hfits, hreads⟩]
            rfl
        | _ => cases hfits

/-! ### Runs of writes -/

section Runs

variable {rest : List Selection} {items items' : List Value} {ws : List (Nat × Value)}

/-- Writing what is there changes nothing. -/
theorem foldlM_write_eq_self (again : ∀ w ∈ ws, ∃ x, items[w.1]? = some x ∧ set rest w.2 x = .ok x) :
    ws.foldlM (write rest) items = .ok items := by
  induction ws with
  | nil => rfl
  | cons w ws ih =>
      obtain ⟨⟨x, hx, hset⟩, again⟩ := List.forall_mem_cons.1 again
      rw [List.foldlM_cons, write, modifyAt_eq_self hx hset]
      exact ih again

/-- A property of an item that every write at its position keeps is kept by all writes. -/
theorem foldlM_write_keeps {j : Nat} {P : Value → Prop}
    (h : ws.foldlM (write rest) items = .ok items')
    (keeps : ∀ w ∈ ws, w.1 = j → ∀ old new, set rest w.2 old = .ok new → P old → P new)
    (start : ∃ x, items[j]? = some x ∧ P x) : ∃ x, items'[j]? = some x ∧ P x := by
  induction ws generalizing items with
  | nil =>
      cases h
      exact start
  | cons w ws ih =>
      obtain ⟨keep, keeps⟩ := List.forall_mem_cons.1 keeps
      rw [List.foldlM_cons, bind_eq_ok_iff] at h
      obtain ⟨middle, hw, h⟩ := h
      obtain ⟨x, hx, hP⟩ := start
      have written := written_of_modifyAt hw
      refine ih h keeps ?_
      by_cases hj : j = w.1
      · obtain ⟨old, new, hset, hnew, hold⟩ := written.here
        rw [hj] at hx ⊢
        obtain rfl := hold x hx
        exact ⟨new, hnew, keep hj.symm _ _ hset hP⟩
      · exact ⟨x, written.elsewhere j x hj hx, hP⟩

/-- Writes at different positions leave at each of them what was written there. -/
theorem foldlM_write_written (h : ws.foldlM (write rest) items = .ok items')
    (distinct : (ws.map (·.1)).Nodup) :
    ∀ w ∈ ws, ∃ old new, set rest w.2 old = .ok new ∧ items'[w.1]? = some new := by
  induction ws generalizing items with
  | nil => exact List.forall_mem_nil _
  | cons w ws ih =>
      rw [List.foldlM_cons, bind_eq_ok_iff] at h
      obtain ⟨middle, hw, h⟩ := h
      rw [List.map_cons, List.nodup_cons] at distinct
      refine List.forall_mem_cons.2 ⟨?_, ih h distinct.2⟩
      obtain ⟨old, new, hset, hnew, _⟩ := (written_of_modifyAt hw).here
      have untouched : ∀ w' ∈ ws, w'.1 ≠ w.1 := by
        rintro w' hw' heq
        exact distinct.1 (heq ▸ List.mem_map_of_mem hw')
      obtain ⟨_, hitem, rfl⟩ := foldlM_write_keeps (P := (· = new)) h
        (fun w' hw' heq => absurd heq (untouched w' hw')) ⟨new, hnew, rfl⟩
      exact ⟨old, _, hset, hitem⟩

end Runs

/-! ### The laws -/

/-- What it takes to replace a part. -/
theorem set_cons_eq_ok {s : Selection} {rest : List Selection} {new target u : Value}
    (h : set (s :: rest) new target = .ok u) : ∃ items ws items', itemsOf target = .ok items ∧
      s.writes new = .ok ws ∧ ws.foldlM (write rest) items = .ok items' ∧ u = .array items' := by
  rw [set_cons, bind_eq_ok_iff] at h
  obtain ⟨items, hitems, h⟩ := h
  obtain ⟨ws, hws, h⟩ := bind_eq_ok_iff.1 h
  obtain ⟨items', hitems', h⟩ := bind_eq_ok_iff.1 h
  cases h
  exact ⟨items, ws, items', hitems, hws, hitems', rfl⟩

/-- What is written to the positions of a selection has the shape of what is left. -/
theorem IsShaped.writes {s : Selection} {rest : List Selection} {v : Value} {ws : List (Nat × Value)}
    (h : IsShaped (s :: rest) v) (hws : s.writes v = .ok ws) :
    s.Fits v ∧ ∀ w ∈ ws, IsShaped rest w.2 := by
  cases s with
  | one i =>
      cases hws
      exact ⟨trivial, List.forall_mem_singleton.2 h⟩
  | many is =>
      cases v with
      | array values =>
          obtain ⟨hlength, hshaped⟩ := h
          obtain rfl := Except.ok.inj ((if_pos hlength).symm.trans hws)
          exact ⟨hlength, fun w hw => hshaped _ (List.of_mem_zip hw).2⟩
      | _ => exact h.elim

/-- Replacing a part by itself changes nothing. -/
theorem set_get {sels : List Selection} {t v : Value} (h : get sels t = .ok v) :
    set sels v t = .ok t := by
  induction sels generalizing t v with
  | nil =>
      cases h
      rfl
  | cons s rest ih =>
      obtain ⟨items, ws, rfl, _, hws, hreads⟩ := get_cons_eq_ok_iff.1 h
      have again : ∀ w ∈ ws, ∃ x, items[w.1]? = some x ∧ set rest w.2 x = .ok x := by
        intro w hw
        obtain ⟨x, hx, hget⟩ := hreads w hw
        exact ⟨x, hx, ih hget⟩
      rw [set_cons, hws]
      show (ws.foldlM (write rest) items >>= fun items' => .ok (Value.array items')) = _
      rw [foldlM_write_eq_self again]
      rfl

/-- A part that was replaced is read as its new value. -/
theorem get_set {sels : List Selection} {t v u : Value} (distinct : ∀ s ∈ sels, s.positions.Nodup)
    (shaped : IsShaped sels v) (h : set sels v t = .ok u) : get sels u = .ok v := by
  induction sels generalizing t v u with
  | nil =>
      cases h
      rfl
  | cons s rest ih =>
      obtain ⟨items, ws, items', _, hws, hrun, rfl⟩ := set_cons_eq_ok h
      obtain ⟨hs, distinct⟩ := List.forall_mem_cons.1 distinct
      obtain ⟨hfits, hshaped⟩ := shaped.writes hws
      refine get_cons_eq_ok_iff.2 ⟨items', ws, rfl, hfits, hws, fun w hw => ?_⟩
      rw [← map_fst_writes hws] at hs
      obtain ⟨old, new, hset, hnew⟩ := foldlM_write_written hrun hs w hw
      exact ⟨new, hnew, ih distinct (hshaped w hw) hset⟩

/-- An item at a position that was written has the written value, however deep it stands. -/
theorem get_set_one (positions : List Nat) {new target v : Value}
    (h : set (positions.map .one) new target = .ok v) : get (positions.map .one) v = .ok new := by
  have distinct : ∀ s ∈ positions.map Selection.one, s.positions.Nodup :=
    List.forall_mem_map.2 fun i _ => List.pairwise_singleton _ i
  have shaped : IsShaped (positions.map .one) new := by
    clear h distinct
    induction positions with
    | nil => trivial
    | cons _ _ ih => exact ih
  exact get_set distinct shaped h

/-- What is not selected is read as before. -/
theorem get_set_of_not_selects {sels : List Selection} {path : List Nat} {t v u x : Value}
    (length : path.length = sels.length) (apart : ¬ Selects sels path) (h : set sels v t = .ok u)
    (hx : get (path.map .one) t = .ok x) : get (path.map .one) u = .ok x := by
  induction sels generalizing path t v u x with
  | nil =>
      obtain rfl := List.eq_nil_of_length_eq_zero length
      exact absurd .nil apart
  | cons s rest ih =>
      cases path with
      | nil => cases length
      | cons j path =>
          obtain ⟨items, ws, items', hitems, hws, hrun, rfl⟩ := set_cons_eq_ok h
          rw [List.map_cons] at hx ⊢
          obtain ⟨_, _, rfl, _, hone, hreads⟩ := get_cons_eq_ok_iff.1 hx
          cases hitems
          cases hone
          refine get_cons_eq_ok_iff.2 ⟨items', _, rfl, trivial, rfl, List.forall_mem_singleton.2 ?_⟩
          refine foldlM_write_keeps (P := fun y => get (path.map .one) y = .ok x) hrun
            (fun w hw hj old new hset hold => ?_) (hreads _ List.mem_cons_self)
          -- the item is written to, so the rest of the path leads to nothing that is selected
          have hselected : j ∈ s.positions := by
            rw [← map_fst_writes hws, ← show w.1 = j from hj]
            exact List.mem_map_of_mem hw
          exact ih (Nat.succ.inj length) (fun hrest => apart (.cons hselected hrest)) hset hold

/-- Replacing a part by what is read there changes nothing; a part that was replaced is read as its new
value, if no position is selected twice and the value has a part for each position; and everything
that is not selected is read as before. -/
theorem set_laws (sels : List Selection) (t v : Value) :
    (get sels t = .ok v → set sels v t = .ok t) ∧
      ∀ u, set sels v t = .ok u →
        ((∀ s ∈ sels, s.positions.Nodup) → IsShaped sels v → get sels u = .ok v) ∧
          ∀ path : List Nat, path.length = sels.length → ¬ Selects sels path →
            ∀ x, get (path.map .one) t = .ok x → get (path.map .one) u = .ok x :=
  ⟨set_get, fun _ h => ⟨fun distinct shaped => get_set distinct shaped h,
    fun _ length apart _ hx => get_set_of_not_selects length apart h hx⟩⟩

/-- The second column of two rows, from the last row to the first, is exchanged, and the first column
stays. -/
theorem set_laws_column :
    let flags : Bool → Bool → Value := fun a b => .array [.bool a, .bool b]
    let t := Value.array [flags true false, flags false true]
    let u := Value.array [.array [.bool true, .string "y"], .array [.bool false, .string "x"]]
    let column := [Selection.many [1, 0], .one 1]
    let new := Value.array [.string "x", .string "y"]
    get column t = .ok (flags true false) ∧ set column (flags true false) t = .ok t ∧
      set column new t = .ok u ∧ get column u = .ok new ∧
      get [.one 1, .one 0] t = .ok (.bool false) ∧ get [.one 1, .one 0] u = .ok (.bool false) := by
  intro flags t u column new
  have read : get column t = .ok (flags true false) := rfl
  have written : set column new t = .ok u := rfl
  have distinct : ∀ s ∈ column, s.positions.Nodup := by decide
  have shaped : IsShaped column new := ⟨rfl, fun _ _ => trivial⟩
  have apart : ¬ Selects column [1, 0] := by
    rw [Selects, List.forall₂_cons, List.forall₂_cons]
    exact fun h => absurd h.2.1 (by decide)
  have first : get [.one 1, .one 0] t = .ok (.bool false) := rfl
  obtain ⟨law, _⟩ := set_laws column t (flags true false)
  obtain ⟨_, laws⟩ := set_laws column t new
  obtain ⟨again, kept⟩ := laws u written
  exact ⟨read, law read, written, again distinct shaped, first, kept [1, 0] rfl apart _ first⟩

/-! ### Indexes of numbers -/

/-- Numbers in an index select single items, one for each of them. -/
theorem ofDimensions_numbers : ∀ {xs : List Float} {selections : List Selection},
    ofDimensions (xs.map .number) = .ok selections →
      ∃ positions : List Nat, selections = positions.map .one ∧ positions.length = xs.length
  | [], selections, h => by
      cases h
      exact ⟨[], rfl, rfl⟩
  | x :: xs, selections, h => by
      rw [ofDimensions, List.map_cons, List.mapM_cons] at h
      cases hx : position x with
      | error e => simp [ofDimension, hx, Except.map, bind, Except.bind] at h
      | ok i =>
          cases hxs : ofDimensions (xs.map .number) with
          | error e =>
              rw [ofDimensions] at hxs
              simp [ofDimension, hx, hxs, Except.map, bind, Except.bind] at h
          | ok more =>
              obtain ⟨positions, rfl, hlength⟩ := ofDimensions_numbers hxs
              rw [ofDimensions] at hxs
              simp only [ofDimension, hx, hxs, Except.map, bind, Except.bind, pure, Except.pure,
                Except.ok.injEq] at h
              exact ⟨i :: positions, h.symm, congrArg (· + 1) hlength⟩

end Formula.Selection
