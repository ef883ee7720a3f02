/-!
Records: named entries in the order in which their names were first given.

Giving a name a new value keeps its place (`keys_set_of_mem`), so the order of a record is part of
it; two records with the same entries in another order are different.
-/

namespace Formula

/-- Named entries, in order. -/
abbrev Record (α : Type) := List (String × α)

namespace Record

variable {α : Type}

/-- The value of a name. -/
def get? (key : String) : Record α → Option α
  | [] => none
  | (k, v) :: r => if k = key then some v else get? key r

/-- Gives a name a value: in its place if it has one, at the end otherwise. -/
def set (key : String) (value : α) : Record α → Record α
  | [] => [(key, value)]
  | (k, v) :: r => if k = key then (key, value) :: r else (k, v) :: set key value r

/-- Takes a name out. -/
def erase (key : String) (r : Record α) : Record α :=
  r.filter fun entry => entry.1 != key

/-- The names, in order. -/
def keys (r : Record α) : List String :=
  r.map (·.1)

/-- The values, in order. -/
def values (r : Record α) : List α :=
  r.map (·.2)

/-- The record that results from giving names their values one after another. -/
def ofList (entries : List (String × α)) : Record α :=
  entries.foldl (fun r entry => set entry.1 entry.2 r) []

attribute [local simp] get? set

@[simp] theorem get?_set_self (key : String) (value : α) (r : Record α) :
    get? key (set key value r) = some value := by
  induction r with
  | nil => simp
  | cons entry r ih =>
    by_cases h : entry.1 = key <;> simp [h, ih]

@[simp] theorem get?_set_of_ne {key other : String} (h : other ≠ key) (value : α) (r : Record α) :
    get? other (set key value r) = get? other r := by
  induction r with
  | nil => simp [Ne.symm h]
  | cons entry r ih =>
    obtain ⟨k, v⟩ := entry
    by_cases hk : k = key
    · subst hk
      simp [Ne.symm h]
    · simp [hk, ih]

/-- Giving a known name a value keeps the names and their order. -/
theorem keys_set_of_mem {key : String} {r : Record α} (h : key ∈ keys r) (value : α) :
    keys (set key value r) = keys r := by
  induction r with
  | nil => simp [keys] at h
  | cons entry r ih =>
    obtain ⟨k, v⟩ := entry
    by_cases hk : k = key
    · simp [keys, hk]
    · have : key ∈ keys r := by simpa [keys, Ne.symm hk] using h
      simpa [keys, hk] using ih this

/-- Giving a new name a value appends it. -/
theorem keys_set_of_notMem {key : String} {r : Record α} (h : key ∉ keys r) (value : α) :
    keys (set key value r) = keys r ++ [key] := by
  induction r with
  | nil => simp [keys]
  | cons entry r ih =>
    obtain ⟨k, v⟩ := entry
    have hk : k ≠ key := by
      intro hk
      exact h (by simp [keys, hk])
    have : key ∉ keys r := fun hr => h (by simp [keys] at hr ⊢; exact .inr hr)
    simpa [keys, hk] using ih this

theorem set_of_notMem {key : String} {r : Record α} (h : key ∉ keys r) (value : α) :
    set key value r = r ++ [(key, value)] := by
  induction r with
  | nil => rfl
  | cons entry r ih =>
    obtain ⟨k, v⟩ := entry
    rw [keys, List.map_cons, List.mem_cons, not_or] at h
    rw [set, if_neg (Ne.symm h.1), ih h.2, List.cons_append]

/-- Names that are distinct already make the record that they are. -/
theorem ofList_eq_self {r : Record α} (h : (keys r).Nodup) : ofList r = r := by
  have fold : ∀ front back : Record α, (keys (front ++ back)).Nodup →
      back.foldl (fun r entry => set entry.1 entry.2 r) front = front ++ back := by
    intro front back
    induction back generalizing front with
    | nil => simp
    | cons entry back ih =>
      intro h
      have hnew : entry.1 ∉ keys front := by
        rw [keys, List.map_append, List.nodup_append] at h
        exact fun hmem => h.2.2 entry.1 hmem entry.1 (by simp) rfl
      rw [List.foldl_cons, set_of_notMem hnew, ih _ (by simpa using h), List.append_assoc]
      rfl
  exact fold [] r h

/-- The names stay distinct. -/
theorem nodup_keys_set {r : Record α} (h : (keys r).Nodup) (key : String) (value : α) :
    (keys (set key value r)).Nodup := by
  by_cases hk : key ∈ keys r
  · rwa [keys_set_of_mem hk]
  · rw [keys_set_of_notMem hk]
    exact List.nodup_append.2 ⟨h, by simp, by
      intro a ha b hb
      simp only [List.mem_singleton] at hb
      subst hb
      exact fun hab => hk (hab ▸ ha)⟩

end Record

/-! ### Sizes of parts

What recursion over trees needs: a member of a list, and its value, are smaller than the list. -/

@[grind →] theorem sizeOf_lt_of_mem {α : Type} [SizeOf α] {a : α} {as : List α} (h : a ∈ as) :
    sizeOf a < sizeOf as :=
  List.sizeOf_lt_of_mem h

@[grind →] theorem sizeOf_snd_lt_of_mem {α : Type} [SizeOf α] {p : String × α}
    {r : List (String × α)} (h : p ∈ r) : sizeOf p.2 < sizeOf r := by
  have := List.sizeOf_lt_of_mem h
  obtain ⟨k, a⟩ := p
  simp only [Prod.mk.sizeOf_spec] at this ⊢
  omega

end Formula
