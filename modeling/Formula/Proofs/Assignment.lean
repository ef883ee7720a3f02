import Formula.Code.Compile
import Formula.Evaluation
import Formula.Proofs.Computation
import Mathlib.Data.List.Count
import Mathlib.Data.List.Forall2
import Mathlib.Data.List.Induction

/-!
How often an assignment evaluates the parts of its target.

To write to `a[i][j]`, the whole is read, changed and written back, and the read of `a[i]` on the way
evaluates `i` once more than the write to it does. `assignBy` is the assignment of `Code.run` with the
evaluation of its parts left to a rule. With the rule that records every part it is asked for, the
evaluation is that of `Code.run` once the records are dropped (`forgets_recorded`), and what it has
recorded tells how often each part was evaluated: the value once, and the dimensions of an index as
often as there are selectors from this one on (`assignment_evaluations`).
-/

namespace Formula

namespace Code

open Evaluation

/-! ### Assignments with a rule for their parts -/

section Rule

variable {σ α : Type} (r : Resolver σ) (evaluate : α → Context → Evaluation σ Value)

/-- The values of the dimensions of an index from the `i`-th on. -/
def dimensionsBy : List (Dimension α) → Option Value → Option Value → Nat → Context →
    Evaluation σ (List Value)
  | [], _, _, _, _ => return []
  | ⟨part, sized⟩ :: dimensions, owner, size, i, ctx => do
    let (size, inner) ← match owner, sized with
      | some owner, true => sizedContext r owner size i ctx
      | _, _ => pure (size, ctx)
    let v ← evaluate part inner
    let vs ← dimensionsBy dimensions owner size (i + 1) (ctx.holding [v])
    return v :: vs

/-- What a selector selects of a reference. -/
def selectBy (selector : Selector α) (whole : Reference σ) : Reference σ :=
  let values := fun owner => dimensionsBy r evaluate selector.dimensions (some owner) none 0
  { get := fun ctx => do
      let owner ← whole.get ctx
      readPart r selector.property selector.dotted (values owner) owner ctx
    set := fun new ctx => do
      let owner ← whole.get ctx
      let changed ← writePart r selector.property selector.dotted (values owner) owner new ctx
      whole.set changed (ctx.holding [changed]) }

/-- What selectors select of a reference, one after another. -/
def selectorsBy (selectors : List (Selector α)) (whole : Reference σ) : Reference σ :=
  selectors.foldl (fun whole selector => selectBy r evaluate selector whole) whole

/-- An assignment to what selectors select of a variable. -/
def assignBy (root : String) (selectors : List (Selector α)) (value : α) (ctx : Context) :
    Evaluation σ Value := do
  let v ← evaluate value ctx
  (selectorsBy r evaluate selectors (nameReference root)).set v (ctx.holding [v])
  return v

end Rule

section Run

variable {σ : Type} (r : Resolver σ) (calling : Calling σ)

theorem runDimensions_eq : ∀ (dimensions : List (Dimension Code)) (owner size : Option Value)
    (i : Nat) (ctx : Context),
    runDimensions r calling dimensions owner size i ctx
      = dimensionsBy r (run r calling) dimensions owner size i ctx
  | [], _, _, _, _ => by rw [runDimensions, dimensionsBy]
  | ⟨code, sized⟩ :: dimensions, owner, size, i, ctx => by
      have ih := runDimensions_eq dimensions owner
      cases owner <;> cases sized <;> simp only [runDimensions, dimensionsBy, ih]

theorem runSelectors_eq : ∀ (selectors : List (Selector Code)) (whole : Reference σ),
    runSelectors r calling selectors whole = selectorsBy r (run r calling) selectors whole
  | [], _ => by simp only [runSelectors, selectorsBy, List.foldl_nil]
  | ⟨property, dotted, dimensions⟩ :: selectors, whole => by
      rw [runSelectors, runSelectors_eq selectors]
      simp only [selectorsBy, List.foldl_cons, selectBy]
      congr 2 <;> funext
      all_goals simp only [funext (runDimensions_eq r calling dimensions _ none 0)]

/-- An assignment to parts of a variable evaluates its parts by running them. -/
theorem run_assignment (root : String) (selectors : List (Selector Code)) (value : Code) :
    run r calling (.assignment (.name root) selectors value)
      = assignBy r (run r calling) root selectors value := by
  funext ctx
  simp only [run, runRoot, runSelectors_eq, assignBy]

end Run

/-! ### Recorded evaluation -/

/-- What an assignment to parts of a variable evaluates: its value, and dimensions, by the numbers of
their selector and of their place in it. -/
inductive Part where
  | value
  | dimension (selector place : Nat)
deriving DecidableEq, Repr

section Recording

variable {σ α β : Type}

/-- A machine without its records, which it keeps beside the state of its resolver. -/
def forget (m : Machine (σ × List Part)) : Machine σ :=
  { store := m.store, resolver := m.resolver.1 }

/-- An evaluation that leaves the records alone. -/
def unrecorded (x : Evaluation σ α) : Evaluation (σ × List Part) α := fun m =>
  let (result, m') := x (forget m)
  (result, { store := m'.store, resolver := (m'.resolver, m.resolver.2) })

/-- An answer that leaves the records alone. -/
def unrecordedAnswer (answer : StateM σ β) : StateM (σ × List Part) β := fun (s, parts) =>
  let (b, s) := answer s
  (b, s, parts)

/-- The resolver that answers as another one does and leaves the records alone. -/
def besideRecords (r : Resolver σ) : Resolver (σ × List Part) where
  call name args := unrecordedAnswer (r.call name args)
  number literal := unrecordedAnswer (r.number literal)
  lookup name := unrecordedAnswer (r.lookup name)
  array items := unrecordedAnswer (r.array items)
  range start stop step := unrecordedAnswer (r.range start stop step)

/-- Adds a part to the records. -/
def record (part : Part) : Evaluation (σ × List Part) Unit := fun m =>
  (.ok (), { m with resolver := (m.resolver.1, m.resolver.2 ++ [part]) })

/-- The rule that records a part and then evaluates it by another rule. -/
def recordedBy (evaluate : α → Context → Evaluation σ Value) (part : Part × α) (ctx : Context) :
    Evaluation (σ × List Part) Value := do
  record part.1
  unrecorded (evaluate part.2 ctx)

/-- The dimensions of the `j`-th selector, each with the part that it is. -/
def numberDimensions (j : Nat) (dimensions : List (Dimension α)) : List (Dimension (Part × α)) :=
  dimensions.mapIdx fun i dimension =>
    { body := (.dimension j i, dimension.body), sized := dimension.sized }

/-- Selectors, with the parts that their dimensions are. -/
def numberSelectors (selectors : List (Selector α)) : List (Selector (Part × α)) :=
  selectors.mapIdx fun j selector =>
    { property := selector.property, dotted := selector.dotted
      dimensions := numberDimensions j selector.dimensions }

/-- An assignment to parts of a variable that records what it evaluates. -/
def recordedAssignment (r : Resolver σ) (calling : Calling σ) (root : String)
    (selectors : List (Selector Code)) (value : Code) (ctx : Context) :
    Evaluation (σ × List Part) Value :=
  assignBy (besideRecords r) (recordedBy (run r calling)) root (numberSelectors selectors)
    (.value, value) ctx

/-! ### Records can be dropped -/

/-- One evaluation is another one that also keeps records. -/
def Forgets (x : Evaluation (σ × List Part) α) (y : Evaluation σ α) : Prop :=
  ∀ m, ((x m).1, forget (x m).2) = y (forget m)

theorem Forgets.bind {x : Evaluation (σ × List Part) α} {y : Evaluation σ α}
    {f : α → Evaluation (σ × List Part) β} {g : α → Evaluation σ β} (hx : Forgets x y)
    (hf : ∀ a, Forgets (f a) (g a)) : Forgets (x >>= f) (y >>= g) := by
  intro m
  have hm := hx m
  rw [bind_apply, bind_apply, ← hm]
  rcases x m with ⟨a | a, m'⟩
  · rfl
  · exact hf a m'

theorem Forgets.pure (a : α) : Forgets (σ := σ) (pure a) (pure a) :=
  fun _ => rfl

theorem Forgets.throw (e : EvalError) : Forgets (σ := σ) (α := α) (throw e) (throw e) :=
  fun _ => rfl

theorem Forgets.read (f : Store → α) : Forgets (σ := σ) (read f) (read f) :=
  fun _ => rfl

theorem Forgets.update (f : Store → α × Store) : Forgets (σ := σ) (update f) (update f) :=
  fun _ => rfl

theorem Forgets.ask (r : Resolver σ) (name : String) (args : List Value) :
    Forgets (ask ((besideRecords r).call name args)) (ask (r.call name args)) :=
  fun _ => rfl

theorem Forgets.recordedBy (evaluate : α → Context → Evaluation σ Value) (part : Part × α)
    (ctx : Context) : Forgets (recordedBy evaluate part ctx) (evaluate part.2 ctx) :=
  fun _ => rfl

section Assignments

variable (r : Resolver σ)

theorem Forgets.sizedContext (owner : Value) (size : Option Value) (i : Nat) (ctx : Context) :
    Forgets (sizedContext (besideRecords r) owner size i ctx) (sizedContext r owner size i ctx) := by
  unfold Code.sizedContext
  have rest : ∀ size, Forgets (σ := σ)
      (do let frame ← Evaluation.update fun s => s.newFrame (some ctx.frame)
          bindName { ctx with frame } Expr.endName (extent size i)
          return (some size, { ctx with frame }))
      (do let frame ← Evaluation.update fun s => s.newFrame (some ctx.frame)
          bindName { ctx with frame } Expr.endName (extent size i)
          return (some size, { ctx with frame })) := fun size =>
    (Forgets.update _).bind fun _ => (Forgets.update _).bind fun _ => .pure _
  cases size with
  | some size => exact (Forgets.pure size).bind rest
  | none => exact (Forgets.ask r "size" [owner]).bind rest

theorem Forgets.dimensionsBy (evaluate : α → Context → Evaluation σ Value) :
    ∀ (dimensions : List (Dimension α)) (number : Nat → Part) (owner size : Option Value) (i : Nat)
      (ctx : Context),
      Forgets (dimensionsBy (besideRecords r) (Code.recordedBy evaluate)
          (dimensions.mapIdx fun i d => ⟨(number i, d.body), d.sized⟩) owner size i ctx)
        (dimensionsBy r evaluate dimensions owner size i ctx)
  | [], _, _, _, _, _ => Forgets.pure _
  | ⟨part, sized⟩ :: dimensions, number, owner, size, i, ctx => by
      have rest : ∀ at_ : Option Value × Context, Forgets
          (do let v ← Code.recordedBy evaluate (number 0, part) at_.2
              let vs ← Code.dimensionsBy (besideRecords r) (Code.recordedBy evaluate)
                (dimensions.mapIdx fun i d => ⟨(number (i + 1), d.body), d.sized⟩) owner at_.1 (i + 1)
                (ctx.holding [v])
              return v :: vs)
          (do let v ← evaluate part at_.2
              let vs ← Code.dimensionsBy r evaluate dimensions owner at_.1 (i + 1) (ctx.holding [v])
              return v :: vs) := fun at_ =>
        (Forgets.recordedBy evaluate _ _).bind fun v =>
          (dimensionsBy evaluate dimensions (fun i => number (i + 1)) owner _ _ _).bind fun _ =>
            .pure _
      rw [List.mapIdx_cons]
      cases owner with
      | none =>
          simp only [Code.dimensionsBy]
          exact (Forgets.pure _).bind rest
      | some owner =>
          cases sized with
          | false =>
              simp only [Code.dimensionsBy]
              exact (Forgets.pure _).bind rest
          | true =>
              simp only [Code.dimensionsBy]
              exact (Forgets.sizedContext r _ _ _ _).bind rest

theorem Forgets.readPart {values : Context → Evaluation (σ × List Part) (List Value)}
    {values' : Context → Evaluation σ (List Value)} (h : ∀ ctx, Forgets (values ctx) (values' ctx))
    (property : Option String) (dotted : Bool) (owner : Value) (ctx : Context) :
    Forgets (readPart (besideRecords r) property dotted values owner ctx)
      (readPart r property dotted values' owner ctx) := by
  have subset : Forgets (readPart.subset (besideRecords r) values owner ctx)
      (readPart.subset r values' owner ctx) :=
    (h _).bind fun _ => (Forgets.ask r _ _).bind fun _ => .ask r _ _
  unfold Code.readPart
  split
  · exact .pure _
  · split
    · exact .throw _
    · exact subset
  · exact subset

theorem Forgets.writePart {values : Context → Evaluation (σ × List Part) (List Value)}
    {values' : Context → Evaluation σ (List Value)} (h : ∀ ctx, Forgets (values ctx) (values' ctx))
    (property : Option String) (dotted : Bool) (owner new : Value) (ctx : Context) :
    Forgets (writePart (besideRecords r) property dotted values owner new ctx)
      (writePart r property dotted values' owner new ctx) := by
  have subset : Forgets (writePart.subset (besideRecords r) values owner new ctx)
      (writePart.subset r values' owner new ctx) :=
    (h _).bind fun _ => (Forgets.ask r _ _).bind fun _ => .ask r _ _
  unfold Code.writePart
  split
  · exact .pure _
  · split
    · exact .throw _
    · exact subset
  · exact subset

/-- One reference is another one that also keeps records. -/
structure ForgetsReference (whole : Reference (σ × List Part)) (whole' : Reference σ) : Prop where
  get : ∀ ctx, Forgets (whole.get ctx) (whole'.get ctx)
  set : ∀ v ctx, Forgets (whole.set v ctx) (whole'.set v ctx)

theorem ForgetsReference.name (root : String) :
    ForgetsReference (σ := σ) (nameReference root) (nameReference root) where
  get ctx := (Forgets.read _).bind fun v => by
    cases v with
    | some v => exact .pure v
    | none => exact .throw _
  set v ctx := .update _

theorem ForgetsReference.selectBy (evaluate : α → Context → Evaluation σ Value)
    {whole : Reference (σ × List Part)} {whole' : Reference σ} (h : ForgetsReference whole whole')
    (selector : Selector α) (j : Nat) :
    ForgetsReference
      (selectBy (besideRecords r) (recordedBy evaluate)
        { property := selector.property, dotted := selector.dotted
          dimensions := numberDimensions j selector.dimensions } whole)
      (selectBy r evaluate selector whole') := by
  have values : ∀ owner ctx, Forgets _ _ := fun owner ctx =>
    Forgets.dimensionsBy r evaluate selector.dimensions (.dimension j) (some owner) none 0 ctx
  constructor
  · intro ctx
    exact (h.get ctx).bind fun owner => .readPart r (values owner) _ _ _ _
  · intro v ctx
    exact (h.get ctx).bind fun owner => (Forgets.writePart r (values owner) _ _ _ _ _).bind fun _ =>
      h.set _ _

theorem ForgetsReference.selectorsBy (evaluate : α → Context → Evaluation σ Value)
    (selectors : List (Selector α)) (first : Nat) {whole : Reference (σ × List Part)}
    {whole' : Reference σ} (h : ForgetsReference whole whole') :
    ForgetsReference
      (selectorsBy (besideRecords r) (recordedBy evaluate)
        (selectors.mapIdx fun j selector =>
          { property := selector.property, dotted := selector.dotted
            dimensions := numberDimensions (first + j) selector.dimensions }) whole)
      (selectorsBy r evaluate selectors whole') := by
  induction selectors generalizing first whole whole' with
  | nil => exact h
  | cons selector selectors ih =>
      have step := ih (first + 1) (h.selectBy r evaluate selector first)
      simpa only [Code.selectorsBy, List.mapIdx_cons, List.foldl_cons, Nat.add_zero,
        Nat.add_right_comm _ 1, Nat.add_assoc] using step

/-- A recorded assignment is the assignment, once the records are dropped. -/
theorem forgets_recorded (calling : Calling σ) (root : String) (selectors : List (Selector Code))
    (value : Code) (ctx : Context) :
    Forgets (recordedAssignment r calling root selectors value ctx)
      (run r calling (.assignment (.name root) selectors value) ctx) := by
  rw [run_assignment]
  have target := (ForgetsReference.name (σ := σ) root).selectorsBy r (run r calling) selectors 0
  simp only [Nat.zero_add] at target
  exact (Forgets.recordedBy (run r calling) _ ctx).bind fun v => (target.set v _).bind fun _ =>
    .pure v

/-! ### What is recorded -/

/-- Every success of an evaluation records a part a number of times. -/
def Records (part : Part) (n : Nat) (x : Evaluation (σ × List Part) α) : Prop :=
  ∀ m a m', x m = (.ok a, m') → m'.resolver.2.count part = m.resolver.2.count part + n

variable {part : Part} {n k : Nat}

theorem Records.bind {x : Evaluation (σ × List Part) α} {f : α → Evaluation (σ × List Part) β}
    (hx : Records part n x) (hf : ∀ a, Records part k (f a)) : Records part (n + k) (x >>= f) := by
  intro m b m'' h
  rw [bind_apply] at h
  rcases hm : x m with ⟨e | a, m'⟩
  · rw [hm] at h
    cases h
  · rw [hm] at h
    rw [hf a m' b m'' h, hx m a m' hm, Nat.add_assoc]

theorem Records.pure (a : α) : Records (σ := σ) part 0 (pure a) := by
  rintro m b m' ⟨⟩
  rfl

theorem Records.throw (e : EvalError) (n : Nat) : Records (σ := σ) (α := α) part n (throw e) := by
  rintro m b m' ⟨⟩

theorem Records.read (f : Store → α) : Records (σ := σ) part 0 (read f) := by
  rintro m b m' ⟨⟩
  rfl

theorem Records.update (f : Store → α × Store) : Records (σ := σ) part 0 (update f) := by
  rintro m b m' ⟨⟩
  rfl

theorem Records.unrecorded (x : Evaluation σ α) : Records part 0 (unrecorded x) := by
  intro m b m' h
  have kept : (Code.unrecorded x m).2.resolver.2 = m.resolver.2 := rfl
  rw [h] at kept
  rw [kept, Nat.add_zero]

theorem Records.ask (name : String) (args : List Value) :
    Records part 0 (ask ((besideRecords r).call name args)) :=
  Records.unrecorded (Evaluation.ask (r.call name args))

theorem Records.record (other : Part) :
    Records (σ := σ) part (if other = part then 1 else 0) (record other) := by
  rintro m b m' ⟨⟩
  by_cases h : other = part <;> simp [h]

theorem Records.recordedBy (evaluate : α → Context → Evaluation σ Value) (labelled : Part × α)
    (ctx : Context) :
    Records part (if labelled.1 = part then 1 else 0) (recordedBy evaluate labelled ctx) :=
  (Records.record labelled.1).bind fun _ => .unrecorded _

theorem Records.sizedContext (owner : Value) (size : Option Value) (i : Nat) (ctx : Context) :
    Records part 0 (sizedContext (besideRecords r) owner size i ctx) := by
  unfold Code.sizedContext
  have rest : ∀ size, Records (σ := σ) part 0
      (do let frame ← Evaluation.update fun s => s.newFrame (some ctx.frame)
          bindName { ctx with frame } Expr.endName (extent size i)
          return (some size, { ctx with frame })) := fun size =>
    (Records.update _).bind fun _ => (Records.update _).bind fun _ => .pure _
  cases size with
  | some size => exact (Records.pure size).bind rest
  | none => exact (Records.ask r "size" [owner]).bind rest

/-- How many of the numbers below a number belong to a part. -/
def occurrences (part : Part) (number : Nat → Part) (n : Nat) : Nat :=
  ((List.range n).map number).count part

theorem occurrences_succ (number : Nat → Part) (n : Nat) :
    occurrences part number (n + 1)
      = (if number 0 = part then 1 else 0) + occurrences part (fun i => number (i + 1)) n := by
  rw [occurrences, occurrences, List.range_succ_eq_map, List.map_cons, List.count_cons, List.map_map,
    Nat.add_comm]
  simp [Function.comp_def]

theorem Records.dimensionsBy (evaluate : α → Context → Evaluation σ Value) :
    ∀ (dimensions : List (Dimension α)) (number : Nat → Part) (owner size : Option Value) (i : Nat)
      (ctx : Context),
      Records part (occurrences part number dimensions.length)
        (dimensionsBy (besideRecords r) (Code.recordedBy evaluate)
          (dimensions.mapIdx fun i d => ⟨(number i, d.body), d.sized⟩) owner size i ctx)
  | [], _, _, _, _, _ => Records.pure _
  | ⟨a, sized⟩ :: dimensions, number, owner, size, i, ctx => by
      have rest : ∀ at_ : Option Value × Context,
          Records part (occurrences part number (dimensions.length + 1))
          (do let v ← Code.recordedBy evaluate (number 0, a) at_.2
              let vs ← Code.dimensionsBy (besideRecords r) (Code.recordedBy evaluate)
                (dimensions.mapIdx fun i d => ⟨(number (i + 1), d.body), d.sized⟩) owner at_.1 (i + 1)
                (ctx.holding [v])
              return v :: vs) := fun at_ => by
        rw [occurrences_succ]
        exact (Records.recordedBy evaluate _ _).bind fun v =>
          (dimensionsBy evaluate dimensions (fun i => number (i + 1)) owner _ _ _).bind fun _ =>
            .pure _
      rw [List.mapIdx_cons, List.length_cons, ← Nat.zero_add (occurrences _ _ _)]
      cases owner with
      | none =>
          simp only [Code.dimensionsBy]
          exact (Records.pure _).bind rest
      | some owner =>
          cases sized with
          | false =>
              simp only [Code.dimensionsBy]
              exact (Records.pure _).bind rest
          | true =>
              simp only [Code.dimensionsBy]
              exact (Records.sizedContext r _ _ _ _).bind rest

/-- An index that selects no property evaluates its dimensions whenever it is read; one that does may
leave them out. -/
theorem Records.readPart {values : Context → Evaluation (σ × List Part) (List Value)}
    (h : ∀ ctx, Records part n (values ctx)) {property : Option String}
    (hproperty : property = none ∨ n = 0) (dotted : Bool) (owner : Value) (ctx : Context) :
    Records part n (readPart (besideRecords r) property dotted values owner ctx) := by
  have subset : Records part n (readPart.subset (besideRecords r) values owner ctx) :=
    (h _).bind fun _ => (Records.ask r _ _).bind fun _ => .ask r _ _
  cases property with
  | none => exact subset
  | some key =>
      obtain rfl : n = 0 := hproperty.resolve_left (by simp)
      unfold Code.readPart
      split
      · exact .pure _
      · split
        · exact .throw _ _
        · exact subset
      · exact subset

theorem Records.writePart {values : Context → Evaluation (σ × List Part) (List Value)}
    (h : ∀ ctx, Records part n (values ctx)) {property : Option String}
    (hproperty : property = none ∨ n = 0) (dotted : Bool) (owner new : Value) (ctx : Context) :
    Records part n (writePart (besideRecords r) property dotted values owner new ctx) := by
  have subset : Records part n (writePart.subset (besideRecords r) values owner new ctx) :=
    (h _).bind fun _ => (Records.ask r _ _).bind fun _ => .ask r _ _
  cases property with
  | none => exact subset
  | some key =>
      obtain rfl : n = 0 := hproperty.resolve_left (by simp)
      unfold Code.writePart
      split
      · exact .pure _
      · split
        · exact .throw _ _
        · exact subset
      · exact subset

/-- Reading a reference records a part a number of times, and so does writing to it. -/
structure RecordsReference (part : Part) (reads writes : Nat)
    (whole : Reference (σ × List Part)) : Prop where
  get : ∀ ctx, Records part reads (whole.get ctx)
  set : ∀ v ctx, Records part writes (whole.set v ctx)

theorem RecordsReference.name (root : String) :
    RecordsReference (σ := σ) part 0 0 (nameReference root) where
  get ctx := by
    refine Records.bind (n := 0) (k := 0) (.read _) fun v => ?_
    cases v with
    | some v => exact .pure v
    | none => exact .throw _ 0
  set v ctx := Records.update fun s => ((), s.bind ctx.frame root v)

/-- Writing to a part of something reads it, evaluates the index, and writes to it. -/
theorem RecordsReference.selectBy (evaluate : α → Context → Evaluation σ Value) {reads writes : Nat}
    {whole : Reference (σ × List Part)} (h : RecordsReference part reads writes whole)
    (selector : Selector α) (j : Nat)
    (hselector : selector.property = none
      ∨ occurrences part (.dimension j) selector.dimensions.length = 0) :
    RecordsReference part (reads + occurrences part (.dimension j) selector.dimensions.length)
      (reads + (occurrences part (.dimension j) selector.dimensions.length + writes))
      (selectBy (besideRecords r) (recordedBy evaluate)
        { property := selector.property, dotted := selector.dotted
          dimensions := numberDimensions j selector.dimensions } whole) := by
  have values : ∀ owner ctx, Records part _ _ := fun owner ctx =>
    Records.dimensionsBy r evaluate selector.dimensions (.dimension j) (some owner) none 0 ctx
  constructor
  · intro ctx
    exact (h.get ctx).bind fun owner => .readPart r (values owner) hselector _ _ _
  · intro v ctx
    exact (h.get ctx).bind fun owner =>
      (Records.writePart r (values owner) hselector _ _ _ _).bind fun _ => h.set _ _

/-- How often writing to what selectors select evaluates a part, from how often each of them holds it
and how often reading and writing the whole evaluate it. -/
def writesOf : List Nat → Nat → Nat → Nat
  | [], _, writes => writes
  | c :: cs, reads, writes => writesOf cs (reads + c) (reads + (c + writes))

theorem RecordsReference.selectorsBy (evaluate : α → Context → Evaluation σ Value)
    (selectors : List (Selector α)) (first : Nat) {reads writes : Nat}
    {whole : Reference (σ × List Part)} (h : RecordsReference part reads writes whole)
    (hselectors : ∀ j selector, selectors[j]? = some selector → selector.property = none
      ∨ occurrences part (.dimension (first + j)) selector.dimensions.length = 0) (v : Value)
    (ctx : Context) :
    Records part
      (writesOf (selectors.mapIdx fun j selector =>
        occurrences part (.dimension (first + j)) selector.dimensions.length) reads writes)
      ((selectorsBy (besideRecords r) (recordedBy evaluate)
        (selectors.mapIdx fun j selector =>
          { property := selector.property, dotted := selector.dotted
            dimensions := numberDimensions (first + j) selector.dimensions }) whole).set v ctx) := by
  induction selectors generalizing first reads writes whole with
  | nil => exact h.set v ctx
  | cons selector selectors ih =>
      have step := ih (first + 1)
        (h.selectBy r evaluate selector first (hselectors 0 selector rfl))
        fun j selector hj => by
          rw [Nat.add_right_comm]
          exact hselectors (j + 1) selector hj
      simpa only [Code.selectorsBy, List.mapIdx_cons, List.foldl_cons, Nat.add_zero, writesOf,
        Nat.add_right_comm _ 1, Nat.add_assoc] using step

end Assignments

end Recording

/-! ### Counting -/

theorem writesOf_zeros {cs : List Nat} (h : ∀ c ∈ cs, c = 0) (reads writes : Nat) :
    writesOf cs reads writes = writes + cs.length * reads := by
  induction cs generalizing writes with
  | nil => simp [writesOf]
  | cons c cs ih =>
      obtain ⟨rfl, hcs⟩ := List.forall_mem_cons.1 h
      rw [writesOf, Nat.add_zero, ih hcs, List.length_cons, Nat.add_mul]
      omega

/-- A part that one selector holds is evaluated once for each selector from this one on. -/
theorem writesOf_single {cs : List Nat} {j : Nat} (hj : cs[j]? = some 1)
    (h : ∀ i c, i ≠ j → cs[i]? = some c → c = 0) : writesOf cs 0 0 = cs.length - j := by
  induction cs generalizing j with
  | nil => simp at hj
  | cons c cs ih =>
      cases j with
      | zero =>
          obtain rfl : c = 1 := by simpa using hj
          have zeros : ∀ c ∈ cs, c = 0 := fun c hc => by
            obtain ⟨i, hi⟩ := List.mem_iff_getElem?.1 hc
            exact h (i + 1) c (by omega) hi
          rw [writesOf, writesOf_zeros zeros, List.length_cons]
          omega
      | succ j =>
          obtain rfl : c = 0 := h 0 c (by omega) rfl
          have rest := ih (j := j) hj fun i c hi hc => h (i + 1) c (by omega) hc
          rw [writesOf, rest, List.length_cons]
          omega

theorem occurrences_dimension (i j k n : Nat) :
    occurrences (.dimension j i) (.dimension k) n = if k = j ∧ i < n then 1 else 0 := by
  have injective : Function.Injective (Part.dimension k) := by
    intro a b h
    injection h
  by_cases hk : k = j
  · subst hk
    rw [occurrences, List.count_map_of_injective _ _ injective]
    by_cases hi : i < n
    · rw [List.nodup_range.count, if_pos (List.mem_range.2 hi), if_pos ⟨rfl, hi⟩]
    · rw [List.count_eq_zero_of_not_mem (by simpa using hi), if_neg (by simp [hi])]
  · rw [if_neg (by simp [hk]), occurrences, List.count_eq_zero]
    simp [hk]

/-! ### From the tree of an assignment -/

/-- An index of a target: its dimensions, and whether it is written with a dot. -/
structure Place where
  dimensions : List Expr
  dotted : Bool

/-- The node of an index. -/
def Place.part (place : Place) : Expr :=
  .index place.dimensions place.dotted

/-- What indexes select of a variable, one after another. -/
def target (root : String) (places : List Place) : Expr :=
  places.foldl (fun owner place => .access owner place.part) (.symbol root)

section Compiling

variable {σ : Type} (r : Resolver σ)

/-- Code that an expression compiles to, whatever the resolver has answered before. -/
def CodeOf (e : Expr) (code : Code) : Prop :=
  ∃ s s', ofExpr r e s = (.ok code, s')

/-- The dimension of a selector that is made from a dimension of an index. -/
def DimensionOf (e : Expr) (dimension : Dimension Code) : Prop :=
  CodeOf r e dimension.body ∧ dimension.sized = mentionsEnd e

/-- The selector that is made from an index. -/
structure SelectorOf (place : Place) (selector : Selector Code) : Prop where
  property : selector.property = place.part.propertyName?
  dotted : selector.dotted = place.dotted
  dimensions : List.Forall₂ (DimensionOf r) place.dimensions selector.dimensions

theorem ofDimensions_eq_ok : ∀ {es : List Expr} {s s' : σ} {dimensions : List (Dimension Code)},
    ofDimensions r es s = (.ok dimensions, s') → List.Forall₂ (DimensionOf r) es dimensions
  | [], _, _, _, h => by
      rw [ofDimensions] at h
      obtain rfl := pure_eq_ok h
      exact .nil
  | e :: es, s, s', _, h => by
      rw [ofDimensions] at h
      obtain ⟨code, s₁, hcode, h⟩ := bind_eq_ok h
      obtain ⟨dimensions, s₂, hdimensions, h⟩ := bind_eq_ok h
      obtain rfl := pure_eq_ok h
      exact .cons ⟨⟨s, s₁, hcode⟩, rfl⟩ (ofDimensions_eq_ok hdimensions)

theorem ofPart_eq_ok {place : Place} {s s' : σ} {selector : Selector Code}
    (h : ofPart r place.part s = (.ok selector, s')) : SelectorOf r place selector := by
  rw [Place.part, ofPart] at h
  obtain ⟨_, s₁, _, h⟩ := bind_eq_ok h
  obtain ⟨dimensions, s₂, hdimensions, h⟩ := bind_eq_ok h
  obtain rfl := pure_eq_ok h
  exact ⟨rfl, rfl, ofDimensions_eq_ok r hdimensions⟩

theorem target_concat (root : String) (places : List Place) (place : Place) :
    target root (places ++ [place]) = .access (target root places) place.part := by
  rw [target, List.foldl_append]
  rfl

theorem ofTarget_concat (root : String) (places : List Place) (place : Place) :
    ofTarget r (target root (places ++ [place])) = do
      let (root, selectors) ← ofTarget r (target root places)
      return (root, selectors ++ [← ofPart r place.part]) := by
  rw [target_concat]
  rcases List.eq_nil_or_concat' places with rfl | ⟨places, last, rfl⟩
  · simp only [target, List.foldl_nil, ofTarget]
  · rw [target_concat, ofTarget]

theorem ofTarget_eq_ok (root : String) (places : List Place) {s s' : σ} {start : Root Code}
    {selectors : List (Selector Code)}
    (h : ofTarget r (target root places) s = (.ok (start, selectors), s')) :
    start = .name root ∧ List.Forall₂ (SelectorOf r) places selectors := by
  induction places using List.reverseRecOn generalizing s s' start selectors with
  | nil =>
      cases pure_eq_ok h
      exact ⟨rfl, .nil⟩
  | append_singleton places place ih =>
      rw [ofTarget_concat] at h
      obtain ⟨⟨start', selectors'⟩, s₁, htarget, h⟩ := bind_eq_ok h
      obtain ⟨selector, s₂, hselector, h⟩ := bind_eq_ok h
      cases pure_eq_ok h
      obtain ⟨rfl, hselectors⟩ := ih htarget
      exact ⟨rfl, List.rel_append hselectors (.cons (ofPart_eq_ok r hselector) .nil)⟩

/-- How an assignment to what indexes select of a variable is compiled: first its value, and then its
target, whether the last index stands apart or not. -/
theorem ofExpr_assignment_parts {root : String} {places : List Place} {last : Option Place}
    {value : Expr} {s s' : σ} {code : Code}
    (h : ofExpr r (.assignment (target root places) (last.map Place.part) value) s
      = (.ok code, s')) :
    ∃ start selectors v s₀ s₁, code = .assignment start selectors v ∧
      ofExpr r value s₀ = (.ok v, s₁) ∧
      ofTarget r (target root (places ++ last.toList)) s₁ = (.ok (start, selectors), s') := by
  cases last with
  | none =>
      rw [Option.map_none, ofExpr] at h
      obtain ⟨_, s₀, _, h⟩ := bind_eq_ok h
      obtain ⟨v, s₁, hv, h⟩ := bind_eq_ok h
      obtain ⟨⟨start, selectors⟩, s₂, htarget, h⟩ := bind_eq_ok h
      cases h
      refine ⟨start, selectors, v, s₀, s₁, rfl, hv, ?_⟩
      rwa [Option.toList_none, List.append_nil]
  | some last =>
      rw [Option.map_some, ofExpr] at h
      obtain ⟨_, s₀, _, h⟩ := bind_eq_ok h
      obtain ⟨v, s₁, hv, h⟩ := bind_eq_ok h
      obtain ⟨⟨start, selectors⟩, s₂, htarget, h⟩ := bind_eq_ok h
      obtain ⟨selector, s₃, hselector, h⟩ := bind_eq_ok h
      cases h
      refine ⟨start, selectors ++ [selector], v, s₀, s₁, rfl, hv, ?_⟩
      rw [Option.toList_some, ofTarget_concat, bind_apply, htarget]
      dsimp only
      rw [bind_apply, hselector]
      rfl

/-- The code of an assignment to what indexes select of a variable. -/
theorem ofExpr_assignment_eq_ok {root : String} {places : List Place} {last : Option Place}
    {value : Expr} {s s' : σ} {code : Code}
    (h : ofExpr r (.assignment (target root places) (last.map Place.part) value) s
      = (.ok code, s')) :
    ∃ selectors v, code = .assignment (.name root) selectors v ∧ CodeOf r value v ∧
      List.Forall₂ (SelectorOf r) (places ++ last.toList) selectors := by
  obtain ⟨start, selectors, v, s₀, s₁, rfl, hv, htarget⟩ := ofExpr_assignment_parts r h
  obtain ⟨rfl, hselectors⟩ := ofTarget_eq_ok r root _ htarget
  exact ⟨selectors, v, rfl, ⟨s₀, s₁, hv⟩, hselectors⟩

end Compiling

/-! ### How often the parts of a target are evaluated -/

section Evaluations

variable {σ : Type} (r : Resolver σ)

/-- A machine with records beside the state of its resolver. -/
def withRecords (m : Machine σ) (records : List Part) : Machine (σ × List Part) :=
  { store := m.store, resolver := (m.resolver, records) }

/-- An assignment that succeeds also succeeds with records, and ends alike. -/
theorem recordedAssignment_eq_ok {calling : Calling σ} {root : String}
    {selectors : List (Selector Code)} {value : Code} {ctx : Context} {m m' : Machine σ} {v : Value}
    (h : run r calling (.assignment (.name root) selectors value) ctx m = (.ok v, m')) :
    ∃ records, recordedAssignment r calling root selectors value ctx (withRecords m [])
      = (.ok v, withRecords m' records) := by
  have hforgets := forgets_recorded r calling root selectors value ctx (withRecords m [])
  rcases hrun : recordedAssignment r calling root selectors value ctx (withRecords m []) with
    ⟨result, store, resolver, records⟩
  rw [hrun] at hforgets
  obtain ⟨rfl, rfl⟩ := Prod.mk.inj (hforgets.trans h)
  exact ⟨records, rfl⟩

variable {calling : Calling σ} {root : String} {selectors : List (Selector Code)} {value : Code}
  {ctx : Context}

/-- What an assignment records, from what writing to its target records. -/
theorem records_assignment {part : Part} {n : Nat}
    (h : ∀ v ctx, Records part n ((selectorsBy (besideRecords r) (recordedBy (run r calling))
      (numberSelectors selectors) (nameReference root)).set v ctx)) :
    Records part ((if .value = part then 1 else 0) + n)
      (recordedAssignment r calling root selectors value ctx) :=
  (Records.recordedBy (run r calling) (.value, value) ctx).bind fun v =>
    (h v _).bind (k := 0) fun _ => .pure v

/-- The value of an assignment is evaluated once. -/
theorem records_value :
    Records .value 1 (recordedAssignment r calling root selectors value ctx) := by
  have none : ∀ k n, occurrences .value (.dimension k) n = 0 := fun k n => by
    rw [occurrences, List.count_eq_zero]
    simp
  refine records_assignment r (n := 0) fun v ctx => ?_
  have whole : RecordsReference (σ := σ) .value 0 0 (nameReference root) := .name root
  have target := whole.selectorsBy r (run r calling) selectors 0 (fun j selector _ => .inr (none _ _)) v ctx
  simp only [Nat.zero_add, none] at target
  rw [writesOf_zeros (by simp), Nat.mul_zero] at target
  exact target

/-- A dimension of an index that selects no property is evaluated once for each selector from its own
on. -/
theorem records_dimension {j i : Nat} {selector : Selector Code} (hj : selectors[j]? = some selector)
    (hproperty : selector.property = none) (hi : i < selector.dimensions.length) :
    Records (.dimension j i) (selectors.length - j)
      (recordedAssignment r calling root selectors value ctx) := by
  have hzero : (if Part.value = .dimension j i then 1 else 0) + (selectors.length - j)
      = selectors.length - j := by
    rw [if_neg (by simp), Nat.zero_add]
  rw [← hzero]
  refine records_assignment r fun v ctx => ?_
  have whole : RecordsReference (σ := σ) (.dimension j i) 0 0 (nameReference root) := .name root
  have target := whole.selectorsBy r (run r calling) selectors 0 (fun k other hk => ?_) v ctx
  · simp only [Nat.zero_add, occurrences_dimension] at target
    rwa [writesOf_single (j := j), List.length_mapIdx] at target
    · rw [List.getElem?_mapIdx, hj, Option.map_some, if_pos ⟨rfl, hi⟩]
    · intro k c hk hc
      rw [List.getElem?_mapIdx, Option.map_eq_some_iff] at hc
      obtain ⟨other, _, rfl⟩ := hc
      rw [if_neg (by simp [hk])]
  · rw [Nat.zero_add, occurrences_dimension]
    by_cases hjk : k = j
    · subst hjk
      rw [hj] at hk
      cases hk
      exact .inl hproperty
    · exact .inr (if_neg (by simp [hjk]))

/-- Whether the `j`-th of some indexes selects no property and has an `i`-th dimension. -/
def HasDimension (places : List Place) (j i : Nat) : Prop :=
  ∃ place, places[j]? = some place ∧ place.part.propertyName? = none ∧ i < place.dimensions.length

theorem HasDimension.lt {places : List Place} {j i : Nat} (h : HasDimension places j i) :
    j < places.length := by
  obtain ⟨place, hj, _, _⟩ := h
  exact (List.getElem?_eq_some_iff.1 hj).1

/-- The selector of an index that has a dimension. -/
theorem HasDimension.selector {places : List Place} {selectors : List (Selector Code)}
    (hselectors : List.Forall₂ (SelectorOf r) places selectors) {j i : Nat}
    (h : HasDimension places j i) : ∃ selector, selectors[j]? = some selector ∧
      selector.property = none ∧ i < selector.dimensions.length := by
  obtain ⟨place, hj, hproperty, hi⟩ := h
  induction hselectors generalizing j with
  | nil => cases hj
  | cons hselector _ ih =>
      cases j with
      | zero =>
          cases hj
          exact ⟨_, rfl, hselector.property.trans hproperty, hselector.dimensions.length_eq ▸ hi⟩
      | succ j => exact ih hj

/-- An assignment to what indexes select of a variable evaluates its value once, and each dimension of
an index as often as there are indexes from this one on; a property is selected without evaluating
anything. So every dimension is evaluated once exactly if only the last index has any. -/
theorem assignment_evaluations (root : String) (outer : List Place) (last : Option Place)
    {value : Expr} {s s' : σ} {code : Code}
    (hcode : (Expr.assignment (target root outer) (last.map Place.part) value).compile r s
      = (.ok code, s')) :
    ∃ selectors v, code = .assignment (.name root) selectors v ∧ CodeOf r value v ∧
      List.Forall₂ (SelectorOf r) (outer ++ last.toList) selectors ∧
      ∀ calling ctx m result m', code.run r calling ctx m = (.ok result, m') →
        ∃ records,
          recordedAssignment r calling root selectors v ctx (withRecords m [])
            = (.ok result, withRecords m' records) ∧
          records.count .value = 1 ∧
          (∀ j i, HasDimension (outer ++ last.toList) j i →
            records.count (.dimension j i) = (outer ++ last.toList).length - j) ∧
          ((∀ j i, HasDimension (outer ++ last.toList) j i → records.count (.dimension j i) = 1) ↔
            ∀ j i, HasDimension (outer ++ last.toList) j i →
              j + 1 = (outer ++ last.toList).length) := by
  obtain ⟨selectors, v, rfl, hvalue, hselectors⟩ := ofExpr_assignment_eq_ok r hcode
  refine ⟨selectors, v, rfl, hvalue, hselectors, ?_⟩
  intro calling ctx m result m' hrun
  obtain ⟨records, hrecorded⟩ := recordedAssignment_eq_ok r hrun
  have once : records.count .value = 1 := by
    have h := records_value r _ _ _ hrecorded
    simpa [withRecords] using h
  have often : ∀ j i, HasDimension (outer ++ last.toList) j i →
      records.count (.dimension j i) = (outer ++ last.toList).length - j := by
    intro j i hdimension
    obtain ⟨selector, hj, hproperty, hi⟩ := hdimension.selector r hselectors
    have h := records_dimension r hj hproperty hi _ _ _ hrecorded
    rw [hselectors.length_eq]
    simpa [withRecords] using h
  refine ⟨records, hrecorded, once, often, ?_⟩
  constructor
  · intro h j i hdimension
    have hlt := hdimension.lt
    have := often j i hdimension
    rw [h j i hdimension] at this
    omega
  · intro h j i hdimension
    rw [often j i hdimension, ← h j i hdimension]
    omega

end Evaluations

/-! ### A target whose index counts its evaluations -/

/-- A resolver that answers every call with `null` and counts the calls of `tick`. -/
def ticking : Resolver Nat where
  call name _ := fun ticks => (.ok .null, if name = "tick" then ticks + 1 else ticks)

/-- The assignment `a[tick()][true] = null`. -/
def tickingAssignment : Expr :=
  .assignment (target "a" [⟨[.call (.symbol "tick") []], false⟩])
    ((some ⟨[.constant "true" .boolean], false⟩).map Place.part) (.constant "null" .null)

/-- The code of `tickingAssignment`. -/
def tickingCode : Code :=
  .assignment (.name "a")
    [⟨none, false, [⟨.call "tick" [], false⟩]⟩,
      ⟨none, false, [⟨.constant (.ok (.bool true)), false⟩]⟩]
    (.constant (.ok .null))

/-- A machine that has bound `a` and has not counted anything. -/
def tickingStart : Machine Nat :=
  { store := { frames := #[{ bindings := [("a", .null)] }] }, resolver := 0 }

theorem compile_tickingAssignment : tickingAssignment.compile ticking 0 = (.ok tickingCode, 0) := by
  have tick : mentionsEnd (.call (.symbol "tick") []) = false := by decide +kernel
  have literal : mentionsEnd (.constant "true" .boolean) = false := by decide +kernel
  calc tickingAssignment.compile ticking 0
      = (.ok (.assignment (.name "a")
          [⟨none, false, [⟨.call "tick" [], mentionsEnd (.call (.symbol "tick") [])⟩]⟩,
            ⟨none, false,
              [⟨.constant (.ok (.bool true)), mentionsEnd (.constant "true" .boolean)⟩]⟩]
          (.constant (.ok .null))), 0) := rfl
    _ = (.ok tickingCode, 0) := by rw [tick, literal, tickingCode]

theorem evaluate_tickingCode_isOk :
    (tickingCode.evaluate ticking { frame := 0 } tickingStart).1.isOk = true := by
  decide +kernel

/-- In `a[tick()][true] = null` the call of `tick` is evaluated twice, and `true` once. -/
theorem assignment_evaluations_ticking :
    tickingAssignment.compile ticking 0 = (.ok tickingCode, 0) ∧
      ∃ selectors v records result m', tickingCode = .assignment (.name "a") selectors v ∧
        recordedAssignment ticking (callWithin ticking depthLimit) "a" selectors v { frame := 0 }
          (withRecords tickingStart []) = (.ok result, withRecords m' records) ∧
        records.count .value = 1 ∧ records.count (.dimension 0 0) = 2 ∧
        records.count (.dimension 1 0) = 1 := by
  obtain ⟨selectors, v, hcode, _, _, hrun⟩ := assignment_evaluations ticking "a"
    [⟨[.call (.symbol "tick") []], false⟩] (some ⟨[.constant "true" .boolean], false⟩)
    compile_tickingAssignment
  have hok := evaluate_tickingCode_isOk
  rcases hresult : tickingCode.evaluate ticking { frame := 0 } tickingStart with ⟨_ | result, m'⟩
  · rw [hresult] at hok
    cases hok
  · obtain ⟨records, hrecorded, hvalue, hdimensions, _⟩ := hrun _ _ _ _ _ hresult
    exact ⟨compile_tickingAssignment, selectors, v, records, result, m', hcode, hrecorded, hvalue,
      hdimensions 0 0 ⟨_, rfl, rfl, by decide⟩, hdimensions 1 0 ⟨_, rfl, rfl, by decide⟩⟩

/-- The call of `tick` stands once in the target, but the resolver is asked for it twice. -/
theorem index_evaluated_twice :
    tickingAssignment.compile ticking 0 = (.ok tickingCode, 0) ∧
      (tickingCode.evaluate ticking { frame := 0 } tickingStart).1.isOk = true ∧
      (tickingCode.evaluate ticking { frame := 0 } tickingStart).2.resolver = 2 :=
  ⟨compile_tickingAssignment, evaluate_tickingCode_isOk, by decide +kernel⟩

end Code

end Formula
