import Formula.Catalog.Acceptance
import Formula.Catalog.Standard
import Formula.Proofs.Catalog.Counting
import Formula.Proofs.Computation
import Formula.Proofs.Matrix
import Formula.Proofs.Selection

/-!
The standard operations on lists of arguments.

Here an operation takes its arguments apart itself (`Untyped`): it breaks off where an argument is not
there or is not of the kind that it needs, where a row has no item in a column, where an item that it
writes to is missing, and where a position leaves the range of words. On the arguments that its
parameters accept, it does what the rule of the signature does (`Implements`), and so it does not break
off.
-/

namespace Formula.Catalog

/-! ### Computations that break off -/

/-- A computation that breaks off (`none`), fails or has a result. -/
abbrev Attempt (ε α : Type) := ExceptT ε Option α

namespace Attempt

variable {ε α β : Type}

/-- A computation that does not break off. -/
def of (result : Except ε α) : Attempt ε α :=
  ExceptT.mk (some result)

/-- What has to be there. -/
def demand (found : Option α) : Attempt ε α :=
  ExceptT.mk (found.map .ok)

/-- A difference that has to be a number of 64 bits. -/
def minus (a b : Nat) : Attempt ε Nat :=
  demand (if b ≤ a then some (a - b) else none)

/-- A successor that has to be a number of 64 bits. -/
def next (a : Nat) : Attempt ε Nat :=
  demand (if a + 1 < UInt64.size then some (a + 1) else none)

theorem bind_of {x : Except ε α} {f : α → Attempt ε β} {g : α → Except ε β}
    (h : ∀ a, x = .ok a → f a = of (g a)) : (of x >>= f) = of (x >>= g) := by
  cases x with
  | error e => rfl
  | ok a => exact h a rfl

theorem mapM_of {f : α → Attempt ε β} {g : α → Except ε β} {as : List α}
    (h : ∀ a ∈ as, f a = of (g a)) : as.mapM f = of (as.mapM g) := by
  induction as with
  | nil => rfl
  | cons a as ih =>
      obtain ⟨ha, has⟩ := List.forall_mem_cons.1 h
      rw [List.mapM_cons, List.mapM_cons, ha]
      refine bind_of fun b _ => ?_
      rw [ih has]
      exact bind_of fun bs _ => rfl

theorem foldlM_of {f : β → α → Attempt ε β} {g : β → α → Except ε β} {as : List α}
    (h : ∀ b, ∀ a ∈ as, f b a = of (g b a)) (b : β) : as.foldlM f b = of (as.foldlM g b) := by
  induction as generalizing b with
  | nil => rfl
  | cons a as ih =>
      rw [List.foldlM_cons, List.foldlM_cons, h b a List.mem_cons_self]
      exact bind_of fun b' _ => ih (fun b a ha => h b a (List.mem_cons_of_mem _ ha)) b'

end Attempt

open Attempt (of demand minus next bind_of mapM_of foldlM_of)

/-- What a table has for a name, in the order of the table. -/
def named {α : Type} (entries : List (String × α)) (name : String) : List α :=
  (entries.filter (·.1 == name)).map (·.2)

/-- An operation on lists of arguments. -/
structure Untyped where
  params : List Param
  /-- Whether the last parameter may repeat. -/
  repeats : Bool
  run : List Value → Attempt DispatchError Value

namespace Untyped

/-! ### Arguments -/

/-- Whether the parameters accept the arguments. -/
def accepts (op : Untyped) (args : List Value) : Bool :=
  if op.repeats then
    match op.params.getLast? with
    | none => true
    | some last =>
      decide (op.params.length ≤ args.length)
        && (op.params.dropLast.zip args).all (fun each => each.1.accepts each.2)
        && (args.drop op.params.dropLast.length).all last.accepts
  else
    args.length == op.params.length && (op.params.zip args).all fun each => each.1.accepts each.2

/-- The argument at a position. -/
def arg {ε : Type} (args : List Value) (i : Nat) : Attempt ε Value :=
  demand args[i]?

/-- The number that is the argument at a position; anything else counts as none. -/
def numberAt (args : List Value) (i : Nat) : Float :=
  (args[i]?.bind (Param.content? .number)).getD (0.0 / 0.0)

/-! ### Families -/

def onNumber (f : Float → Float) : Untyped where
  params := [number]
  repeats := false
  run args := return .number (f (numberAt args 0))

def onNumbers (f : Float → Float → Float) : Untyped where
  params := [number, number]
  repeats := false
  run args := return .number (f (numberAt args 0) (numberAt args 1))

def comparison (holds : Float → Float → Bool) : Untyped where
  params := [number, number]
  repeats := false
  run args := return .bool (holds (numberAt args 0) (numberAt args 1))

def onWords (name : String) (f : Int64 → Int64 → Int64) : String × Untyped :=
  (name, {
    params := [number, number]
    repeats := false
    run := fun args => do
      let a ← of (word name (numberAt args 0))
      let b ← of (word name (numberAt args 1))
      return .number (f a b).toFloat })

def onConditions (name : String) (decisive : Bool) : String × Untyped :=
  (name, {
    params := [.any, .any]
    repeats := false
    run := fun args => do
      if (← of (condition name (← arg args 0))) == decisive then return .bool decisive
      return .bool (← of (condition name (← arg args 1))) })

/-- An operation that may look at its arguments. -/
def fixed (params : List Param) (run : List Value → Attempt DispatchError Value) : Untyped where
  params := params
  repeats := false
  run := run

/-- An operation whose last parameter may repeat. -/
def variadic (params : List Param) (run : List Value → Attempt DispatchError Value) : Untyped where
  params := params
  repeats := true
  run := run

/-! ### Rows and columns -/

/-- Exchanges rows and columns, reading each row at the number of each column. -/
def transpose : Value → Attempt DispatchError Value
  | .array items =>
    match items.filterMap Matrix.row? with
    | [] => return .array items
    | first :: others =>
      let rows := first :: others
      if rows.length ≠ items.length then
        throw (.failed "transpose" MatrixError.mixedItems.message)
      else if rows.any fun row => row.length ≠ first.length then
        throw (.failed "transpose" MatrixError.lengths.message)
      else do
        let columns ← (List.range first.length).mapM fun c => rows.mapM fun row => demand row[c]?
        return .array (columns.map .array)
  | _ => demand none

/-! ### Parts -/

/-- The position of the item that a number counts. -/
def position (x : Float) : Attempt SelectionError Nat :=
  if x ≥ 1.0 ∧ Decimal.isWhole x then minus x.toUInt64.toNat 1 else throw (.notPosition x)

/-- The position that an item of a dimension says. -/
def ofItem : Value → Attempt SelectionError Nat
  | .number x => position x
  | v => throw (.notNumber v.kind)

/-- What a dimension selects. -/
def ofDimension : Value → Attempt SelectionError Selection
  | .number x => return .one (← position x)
  | .array items => return .many (← items.mapM ofItem)
  | v => throw (.notDimension v.kind)

/-- What an index selects. -/
def selections : Value → Attempt SelectionError (List Selection)
  | .index dimensions => dimensions.mapM ofDimension
  | _ => demand none

/-- The element at a position; one that is missing is reported by the number that counts it. -/
def pick {α : Type} (xs : List α) (i : Nat) : Attempt SelectionError α :=
  match xs[i]? with
  | some x => return x
  | none => do
    let _ ← next i
    throw (.outOfRange i xs.length)

/-- The part of a value that is selected. -/
def get : List Selection → Value → Attempt SelectionError Value
  | [], v => return v
  | .one i :: rest, .array items => pick items i >>= get rest
  | .many is :: rest, .array items => do
    let values ← is.mapM fun i => pick items i >>= get rest
    return .array values
  | _ :: _, v => throw (.notArray v.kind)

/-- The characters of a string that are selected. -/
def getChars (selections : List Selection) (s : String) : Attempt SelectionError String :=
  match selections with
  | [.one i] => return String.ofList [← pick s.toList i]
  | [.many is] => return String.ofList (← is.mapM (pick s.toList))
  | _ => throw .stringDimensions

/-- Items, with as many fillers behind them that there is one at the position. -/
def reach (rest : List Selection) (i : Nat) (items : List Value) :
    Attempt SelectionError (List Value) :=
  if items.length ≤ i then do
    let length ← next i
    return items ++ List.replicate (length - items.length) (Selection.filler rest)
  else
    return items

/-- Changes the item at a position, which is made if there is none. -/
def modifyAt (rest : List Selection) (i : Nat) (change : Value → Attempt SelectionError Value)
    (items : List Value) : Attempt SelectionError (List Value) := do
  let items ← reach rest i items
  let old ← demand items[i]?
  return items.set i (← change old)

/-- A value with the selected part replaced. -/
def set : List Selection → Value → Value → Attempt SelectionError Value
  | [], new, _ => return new
  | s :: rest, new, target => do
    let items ← of (Selection.itemsOf target)
    let writes ← of (s.writes new)
    return .array (← writes.foldlM (fun items w => modifyAt rest w.1 (set rest w.2) items) items)

/-- The result of reading or replacing a part. -/
def subset (result : Attempt SelectionError Value) : Attempt DispatchError Value :=
  result.adapt fun e => .failed "subset" e.message

/-! ### The table -/

def arithmetic : List (String × Untyped) := [
  ("add", onNumbers (· + ·)),
  ("subtract", onNumbers (· - ·)),
  ("multiply", onNumbers (· * ·)),
  ("dotMultiply", onNumbers (· * ·)),
  ("divide", onNumbers (· / ·)),
  ("dotDivide", onNumbers (· / ·)),
  ("pow", onNumbers Float.pow),
  ("dotPow", onNumbers Float.pow),
  ("mod", onNumbers remainder),
  ("unaryMinus", onNumber (- ·)),
  ("unaryPlus", onNumber id),
  ("factorial", fixed [number] fun args => of (factorial (numberAt args 0)))]

def strings : List (String × Untyped) := [
  ("add", fixed [string, string] fun args => do
    match ← arg args 0, ← arg args 1 with
    | .string a, .string b => return .string (a ++ b)
    | _, _ => demand none),
  ("unaryPlus", fixed [.of .boolean] fun args => do
    return .number (if (← arg args 0) == .bool true then 1.0 else 0.0))]

def equality : List (String × Untyped) := [
  ("equal", fixed [.any, .any] fun args => return .bool ((← arg args 0) == (← arg args 1))),
  ("unequal", fixed [.any, .any] fun args => return .bool (!((← arg args 0) == (← arg args 1))))]

def orderings : List (String × Untyped) := [
  ("smaller", comparison fun x y => x < y),
  ("larger", comparison fun x y => x > y),
  ("smallerEq", comparison fun x y => x ≤ y),
  ("largerEq", comparison fun x y => x ≥ y)]

def logic : List (String × Untyped) := [
  onConditions "and" false,
  onConditions "or" true,
  ("xor", fixed [.any, .any] fun args => do
    let first ← of (condition "xor" (← arg args 0))
    let second ← of (condition "xor" (← arg args 1))
    return .bool (first != second)),
  ("not", fixed [.any] fun args => return .bool !(← of (condition "not" (← arg args 0))))]

def bitwise : List (String × Untyped) := [
  onWords "bitAnd" (· &&& ·),
  onWords "bitOr" (· ||| ·),
  onWords "bitXor" (· ^^^ ·),
  onWords "leftShift" (· <<< ·),
  onWords "rightArithShift" (· >>> ·),
  onWords "rightLogShift" fun a b => (a.toUInt64 >>> b.toUInt64).toInt64,
  ("bitNot", fixed [number] fun args => of (complement (numberAt args 0)))]

def elementary : List (String × Untyped) := [
  ("sqrt", onNumber Float.sqrt),
  ("abs", onNumber Float.abs),
  ("floor", onNumber Float.floor),
  ("ceil", onNumber Float.ceil),
  ("round", onNumber Float.round),
  ("exp", onNumber Float.exp),
  ("log", onNumber Float.log),
  ("log10", onNumber Float.log10),
  ("sin", onNumber Float.sin),
  ("cos", onNumber Float.cos),
  ("tan", onNumber Float.tan),
  ("log", onNumbers fun x base => x.log / base.log),
  ("nthRoot", onNumbers fun x n => x.pow (1.0 / n)),
  ("max", variadic [number] fun args =>
    return .number ((args.filterMap (Param.content? .number)).foldl greater (-1.0 / 0.0))),
  ("min", variadic [number] fun args =>
    return .number ((args.filterMap (Param.content? .number)).foldl lesser (1.0 / 0.0)))]

def inspection : List (String × Untyped) := [
  ("typeof", fixed [.any] fun args => return .string (← arg args 0).typeName)]

def collections : List (String × Untyped) := [
  ("range", fixed [number, number, number] fun args =>
    of (range (numberAt args 0) (numberAt args 1) (numberAt args 2))),
  ("range", fixed [number, number] fun args => of (range (numberAt args 0) (numberAt args 1) 1.0)),
  ("size", fixed [.any] fun args => do
    return .array ((Matrix.extents (← arg args 0)).map fun n => .number (Float.ofNat n))),
  ("index", fixed [] fun _ => return .index []),
  ("index", variadic [.any] fun args => return .index args),
  ("matrix", fixed [] fun _ => return .array []),
  ("matrix", fixed [array] fun args => arg args 0),
  ("transpose", fixed [number] fun args => arg args 0),
  ("transpose", fixed [array] fun args => arg args 0 >>= transpose),
  ("subset", fixed [array, index] fun args => subset do
    let selections ← selections (← arg args 1)
    get selections (← arg args 0)),
  ("subset", fixed [string, index] fun args => subset do
    let owner ← arg args 0
    let selections ← selections (← arg args 1)
    match owner with
    | .string s => return .string (← getChars selections s)
    | _ => demand none),
  ("subset", fixed [array, index, .any] fun args => subset do
    let owner ← arg args 0
    let selections ← selections (← arg args 1)
    set selections (← arg args 2) owner)]

/-- The standard operations. -/
def standard : List (String × Untyped) :=
  arithmetic ++ strings ++ equality ++ orderings ++ logic ++ bitwise ++ elementary ++ inspection
    ++ collections

/-- The result of the first operation of a name whose parameters accept the arguments. -/
def call (operations : List (String × Untyped)) (name : String) (args : List Value) :
    Attempt DispatchError Value :=
  match named operations name with
  | [] => throw (.unknownOperation name)
  | op :: ops =>
    match (op :: ops).find? (·.accepts args) with
    | none => throw (.noMatchingSignature name (args.map Value.kind))
    | some op => op.run args

/-! ### Columns within range -/

/-- The column of a position that every row has. -/
theorem mapM_getElem? {rows : List (List Value)} {c : Nat} (h : ∀ row ∈ rows, c < row.length) :
    (rows.mapM fun row => (demand row[c]? : Attempt DispatchError Value))
      = of (.ok (rows.filterMap (·[c]?))) := by
  induction rows with
  | nil => rfl
  | cons row rows ih =>
      obtain ⟨hc, h⟩ := List.forall_mem_cons.1 h
      rw [List.mapM_cons, ih h, List.filterMap_cons, List.getElem?_eq_getElem hc]
      rfl

theorem transpose_eq (items : List Value) : transpose (.array items)
    = of (match Matrix.transpose items with
      | .ok columns => .ok (.array columns)
      | .error e => .error (.failed "transpose" e.message)) := by
  unfold transpose Matrix.transpose
  dsimp only
  cases items.filterMap Matrix.row? with
  | nil => rfl
  | cons first others =>
      dsimp only
      by_cases hmixed : (first :: others).length ≠ items.length
      · rw [if_pos hmixed, if_pos hmixed]
        rfl
      · rw [if_neg hmixed, if_neg hmixed, List.any_cons, decide_eq_false (not_not.2 rfl), Bool.false_or]
        split
        case isTrue => rfl
        case isFalse hlengths =>
          have hrows : ∀ row ∈ first :: others, row.length = first.length := by
            rw [List.forall_mem_cons]
            refine ⟨rfl, fun row hrow => ?_⟩
            by_contra h
            exact hlengths (List.any_eq_true.2 ⟨row, hrow, decide_eq_true h⟩)
          have hcolumns : ((List.range first.length).mapM fun c => (first :: others).mapM fun row =>
              (demand row[c]? : Attempt DispatchError Value))
              = of ((List.range first.length).mapM fun c => .ok ((first :: others).filterMap (·[c]?))) := by
            refine mapM_of fun c hc => mapM_getElem? fun row hrow => ?_
            rw [hrows row hrow]
            exact List.mem_range.1 hc
          rw [hcolumns, mapM_eq_ok_map fun _ _ => rfl]
          rfl

/-! ### Parts within range -/

/-- Whether the numbers that count the selected items are words. -/
def IsCounted (s : Selection) : Prop :=
  ∀ i ∈ s.positions, i + 1 < UInt64.size

theorem position_eq (x : Float) : position x = of (Selection.position x) := by
  unfold position Selection.position
  split
  case isTrue h =>
    have hone := Decimal.one_le_toNat_toUInt64 h.1
    rw [minus, if_pos hone]
    rfl
  case isFalse => rfl

theorem succ_lt_of_position {x : Float} {i : Nat} (h : Selection.position x = .ok i) :
    i + 1 < UInt64.size := by
  unfold Selection.position at h
  split at h
  case isTrue hx =>
    have hone := Decimal.one_le_toNat_toUInt64 hx.1
    cases h
    rw [Nat.sub_add_cancel hone]
    exact x.toUInt64.toNat_lt_size
  case isFalse => cases h

theorem ofItem_eq (v : Value) : ofItem v = of (Selection.ofItem v) := by
  cases v with
  | number x => exact position_eq x
  | _ => rfl

theorem ofDimension_eq (v : Value) : ofDimension v = of (Selection.ofDimension v) := by
  cases v with
  | number x =>
      rw [ofDimension, position_eq]
      exact bind_of fun _ _ => rfl
  | array items =>
      rw [ofDimension, mapM_of fun v _ => ofItem_eq v]
      exact bind_of fun _ _ => rfl
  | _ => rfl

theorem selections_eq (dimensions : List Value) :
    selections (.index dimensions) = of (Selection.ofDimensions dimensions) :=
  mapM_of fun v _ => ofDimension_eq v

theorem isCounted_of_ofDimension {v : Value} {s : Selection} (h : Selection.ofDimension v = .ok s) :
    IsCounted s := by
  cases v with
  | number x =>
      obtain ⟨i, hi, rfl⟩ := map_eq_ok_iff.1 h
      exact List.forall_mem_singleton.2 (succ_lt_of_position hi)
  | array items =>
      obtain ⟨is, his, rfl⟩ := map_eq_ok_iff.1 h
      intro i hi
      obtain ⟨item, _, hitem⟩ := exists_of_mapM_eq_ok his i hi
      cases item with
      | number x => exact succ_lt_of_position hitem
      | _ => cases hitem
  | _ => cases h

theorem isCounted_of_ofDimensions {dimensions : List Value} {sels : List Selection}
    (h : Selection.ofDimensions dimensions = .ok sels) : ∀ s ∈ sels, IsCounted s := by
  intro s hs
  obtain ⟨v, _, hv⟩ := exists_of_mapM_eq_ok h s hs
  exact isCounted_of_ofDimension hv

section Parts

variable {α : Type}

theorem pick_eq {i : Nat} (h : i + 1 < UInt64.size) (xs : List α) :
    pick xs i = of (Selection.pick xs i) := by
  unfold pick Selection.pick
  cases xs[i]? with
  | some x => rfl
  | none =>
      dsimp only
      rw [next, if_pos h]
      rfl

theorem get_eq {sels : List Selection} (counted : ∀ s ∈ sels, IsCounted s) (v : Value) :
    get sels v = of (Selection.get sels v) := by
  induction sels generalizing v with
  | nil => rfl
  | cons s rest ih =>
      obtain ⟨hs, hrest⟩ := List.forall_mem_cons.1 counted
      have item : ∀ items, ∀ i ∈ s.positions,
          (pick items i >>= get rest) = of (Selection.pick items i >>= Selection.get rest) := by
        intro items i hi
        rw [pick_eq (hs i hi)]
        exact bind_of fun v _ => ih hrest v
      cases v with
      | array items =>
          cases s with
          | one i => exact item items i (List.mem_singleton_self i)
          | many is =>
              have hitems : (is.mapM fun i => pick items i >>= get rest)
                  = of (is.mapM fun i => Selection.pick items i >>= Selection.get rest) :=
                mapM_of (item items)
              rw [get, hitems]
              exact bind_of fun _ _ => rfl
      | _ => cases s <;> rfl

theorem getChars_eq {sels : List Selection} (counted : ∀ s ∈ sels, IsCounted s) (s : String) :
    getChars sels s = of (Selection.getChars sels s) := by
  unfold getChars
  split
  case h_1 i =>
    have hi : IsCounted (.one i) := counted _ (List.mem_singleton_self _)
    rw [pick_eq (hi i (List.mem_singleton_self i))]
    exact bind_of fun _ _ => rfl
  case h_2 is =>
    have his : IsCounted (.many is) := counted _ (List.mem_singleton_self _)
    have hchars : is.mapM (pick s.toList) = of (is.mapM (Selection.pick s.toList)) :=
      mapM_of fun i hi => pick_eq (his i hi) s.toList
    rw [hchars]
    exact bind_of fun _ _ => rfl
  case h_3 hone hmany =>
    unfold Selection.getChars
    split
    · exact absurd rfl (hone _)
    · exact absurd rfl (hmany _)
    · rfl

theorem reach_eq {i : Nat} (h : i + 1 < UInt64.size) (rest : List Selection) (items : List Value) :
    reach rest i items = of (.ok (Selection.reach rest i items)) := by
  unfold reach Selection.reach
  split
  case isTrue =>
    rw [next, if_pos h]
    rfl
  case isFalse hlength =>
    rw [Nat.sub_eq_zero_of_le (by omega), List.replicate_zero, List.append_nil]
    rfl

theorem modifyAt_eq {rest : List Selection} {i : Nat} {change : Value → Attempt SelectionError Value}
    {change' : Value → Except SelectionError Value} (h : i + 1 < UInt64.size)
    (hchange : ∀ v, change v = of (change' v)) (items : List Value) :
    modifyAt rest i change items = of (Selection.modifyAt rest i change' items) := by
  have hitem := List.getElem?_eq_getElem (Selection.lt_length_reach rest i items)
  unfold modifyAt Selection.modifyAt
  rw [reach_eq h]
  dsimp only
  rw [hitem]
  show (demand (Selection.reach rest i items)[i]? >>= fun old => do
    return (Selection.reach rest i items).set i (← change old)) = _
  rw [hitem]
  show (change _ >>= fun new => pure ((Selection.reach rest i items).set i new)) = _
  rw [hchange]
  exact bind_of fun _ _ => rfl

theorem set_eq {sels : List Selection} (counted : ∀ s ∈ sels, IsCounted s) (new target : Value) :
    set sels new target = of (Selection.set sels new target) := by
  induction sels generalizing new target with
  | nil => rfl
  | cons s rest ih =>
      obtain ⟨hs, hrest⟩ := List.forall_mem_cons.1 counted
      rw [set, Selection.set_cons]
      refine bind_of fun items _ => bind_of fun writes hwrites => ?_
      have hwrite : ∀ items, ∀ w ∈ writes, modifyAt rest w.1 (set rest w.2) items
          = of (Selection.write rest items w) := by
        intro items w hw
        have hfst : w.1 ∈ s.positions := by
          rw [← Selection.map_fst_writes hwrites]
          exact List.mem_map_of_mem hw
        exact modifyAt_eq (hs _ hfst) (ih hrest w.2) items
      rw [foldlM_of hwrite]
      exact bind_of fun _ _ => rfl

end Parts

end Untyped

end Formula.Catalog
