import Formula.Proofs.Assignment
import Formula.Proofs.Catalog.Standard
import Formula.Proofs.Selection
import Formula.Proofs.Store.Growth

/-!
Reading back what was assigned.

With the standard operations, a part of a variable that was assigned has the assigned value, nothing
else has changed, and an assignment that fails has changed nothing (`assigned_reads_back`). The parts
are selected by properties and by positions that are steady: they evaluate to the same numbers, and
write nothing, whatever the variable holds.

The proof follows the target from the outside in. One step replaces a part of a value and finds the new
part where it was put (`readWith_of_writeWith`); a reference that keeps what is written to it
(`KeepsWrites`) still does so with one more selector (`KeepsWrites.select`).
-/

namespace Formula

namespace Code

open Evaluation

/-- A context is another one that holds more values. -/
def Within (ctx ctx' : Context) : Prop :=
  ∃ values, ctx' = ctx.holding values

theorem Within.refl (ctx : Context) : Within ctx ctx :=
  ⟨[], rfl⟩

theorem Within.holding {ctx ctx' : Context} (h : Within ctx ctx') (values : List Value) :
    Within ctx (ctx'.holding values) := by
  obtain ⟨more, rfl⟩ := h
  exact ⟨values ++ more, by simp [Context.holding, List.append_assoc]⟩

theorem Within.frame {ctx ctx' : Context} (h : Within ctx ctx') : ctx'.frame = ctx.frame := by
  obtain ⟨more, rfl⟩ := h
  rfl

/-! ### The standard operations -/

theorem ask_standard (name : String) (args : List Value) (m : Machine Unit) :
    ask (Catalog.standard.resolver.call name args) m
      = ((Catalog.standard.call name args).mapError .dispatch, m) :=
  rfl

theorem ask_index (values : List Value) (m : Machine Unit) :
    ask (Catalog.standard.resolver.call "index" values) m = (.ok (.index values), m) := by
  rw [ask_standard, Catalog.standard_index]
  rfl

/-! ### One part -/

section Property

variable {σ : Type} (r : Resolver σ) (key : String) (dotted : Bool)
  (evaluate : Context → Evaluation σ (List Value)) {owner : Value}
  (howner : ∀ fields, owner ≠ .object fields)

include howner

/-- A property of what is no object is read as a part, unless it stands behind a dot. -/
theorem readPart_of_ne_object (ctx : Context) :
    readPart r (some key) dotted evaluate owner ctx
      = if dotted then throw (.notAnObject key owner.kind)
        else readPart.subset r evaluate owner ctx := by
  cases owner with
  | object fields => exact absurd rfl (howner fields)
  | _ => rfl

theorem writePart_of_ne_object (new : Value) (ctx : Context) :
    writePart r (some key) dotted evaluate owner new ctx
      = if dotted then throw (.notAnObject key owner.kind)
        else writePart.subset r evaluate owner new ctx := by
  cases owner with
  | object fields => exact absurd rfl (howner fields)
  | _ => rfl

end Property

section Parts

/-- The values of dimensions, with the standard operations. -/
abbrev valuesOf (calling : Calling Unit) (dimensions : List (Dimension Code)) (owner : Value) :
    Context → Evaluation Unit (List Value) :=
  dimensionsBy Catalog.standard.resolver (run Catalog.standard.resolver calling) dimensions
    (some owner) none 0

/-- Dimensions have fixed values while nothing is written but a variable, and write nothing. -/
def Fixed (calling : Calling Unit) (root : String) (ctx : Context) (start : Store)
    (dimensions : List (Dimension Code)) (values : List Value) : Prop :=
  ∀ owner ctx' m, Within ctx ctx' → start.GrowsBut ctx.frame root m.store →
    ∃ m', valuesOf calling dimensions owner ctx' m = (.ok values, m') ∧
      m.store.Grows (fun _ => True) m'.store

/-- A selector selects a property, or single items at fixed positions. -/
inductive Selects (calling : Calling Unit) (root : String) (ctx : Context) (start : Store) :
    Selector Code → Prop
  | property {key : String} {dotted : Bool} {dimensions : List (Dimension Code)}
      (fixed : Fixed calling root ctx start dimensions [.string key]) :
      Selects calling root ctx start ⟨some key, dotted, dimensions⟩
  | positions {xs : List Float} {dotted : Bool} {dimensions : List (Dimension Code)}
      (nonempty : xs ≠ []) (fixed : Fixed calling root ctx start dimensions (xs.map .number)) :
      Selects calling root ctx start ⟨none, dotted, dimensions⟩

variable {calling : Calling Unit} {root : String} {ctx : Context} {start : Store}

section Subset

variable {dimensions : List (Dimension Code)} {values : List Value}
  (hfixed : Fixed calling root ctx start dimensions values) {ctx' : Context}
  (hctx : Within ctx ctx') {m : Machine Unit} (hm : start.GrowsBut ctx.frame root m.store)

include hfixed hctx hm

theorem readPart_subset (owner : Value) : ∃ m',
    readPart.subset Catalog.standard.resolver (valuesOf calling dimensions owner) owner ctx' m
      = ((Catalog.standard.call "subset" [owner, .index values]).mapError .dispatch, m') ∧
    m.store.Grows (fun _ => True) m'.store := by
  obtain ⟨m', hvalues, hgrows⟩ := hfixed owner _ m (hctx.holding [owner]) hm
  refine ⟨m', ?_, hgrows⟩
  rw [readPart.subset, bind_apply, hvalues]
  dsimp only
  rw [bind_apply, ask_index]
  rfl

theorem writePart_subset (owner new : Value) : ∃ m',
    writePart.subset Catalog.standard.resolver (valuesOf calling dimensions owner) owner new ctx' m
      = ((Catalog.standard.call "subset" [owner, .index values, new]).mapError .dispatch, m') ∧
    m.store.Grows (fun _ => True) m'.store := by
  obtain ⟨m', hvalues, hgrows⟩ := hfixed owner _ m (hctx.holding [owner]) hm
  refine ⟨m', ?_, hgrows⟩
  rw [writePart.subset, bind_apply, hvalues]
  dsimp only
  rw [bind_apply, ask_index]
  rfl

end Subset

/-- Reading a part with the standard operations. -/
abbrev readWith (calling : Calling Unit) (selector : Selector Code) (owner : Value) (ctx : Context) :
    Evaluation Unit Value :=
  readPart Catalog.standard.resolver selector.property selector.dotted
    (valuesOf calling selector.dimensions owner) owner ctx

/-- Replacing a part with the standard operations. -/
abbrev writeWith (calling : Calling Unit) (selector : Selector Code) (owner new : Value)
    (ctx : Context) : Evaluation Unit Value :=
  writePart Catalog.standard.resolver selector.property selector.dotted
    (valuesOf calling selector.dimensions owner) owner new ctx

variable {selector : Selector Code} (hselector : Selects calling root ctx start selector)
  {ctx' : Context} (hctx : Within ctx ctx') {m : Machine Unit}
  (hm : start.GrowsBut ctx.frame root m.store)

include hselector hctx hm

/-- Reading a part writes nothing. -/
theorem readWith_grows (owner : Value) :
    m.store.Grows (fun _ => True) (readWith calling selector owner ctx' m).2.store := by
  cases hselector with
  | property fixed =>
      by_cases howner : ∃ fields, owner = .object fields
      · obtain ⟨fields, rfl⟩ := howner
        exact .refl _ _
      · rw [readWith, readPart_of_ne_object _ _ _ _ fun fields h => howner ⟨fields, h⟩]
        split
        · exact .refl _ _
        · obtain ⟨m', hsubset, hgrows⟩ := readPart_subset fixed hctx hm owner
          rwa [hsubset]
  | positions _ fixed =>
      obtain ⟨m', hsubset, hgrows⟩ := readPart_subset fixed hctx hm owner
      dsimp only [readWith, readPart]
      rwa [hsubset]

/-- Replacing a part of a value writes to no frame. -/
theorem writeWith_grows (owner new : Value) :
    m.store.Grows (fun _ => True) (writeWith calling selector owner new ctx' m).2.store := by
  cases hselector with
  | property fixed =>
      by_cases howner : ∃ fields, owner = .object fields
      · obtain ⟨fields, rfl⟩ := howner
        exact .refl _ _
      · rw [writeWith, writePart_of_ne_object _ _ _ _ fun fields h => howner ⟨fields, h⟩]
        split
        · exact .refl _ _
        · obtain ⟨m', hsubset, hgrows⟩ := writePart_subset fixed hctx hm owner new
          rwa [hsubset]
  | positions _ fixed =>
      obtain ⟨m', hsubset, hgrows⟩ := writePart_subset fixed hctx hm owner new
      dsimp only [writeWith, writePart]
      rwa [hsubset]

/-- The part that was replaced is the new one when it is read again. -/
theorem readWith_of_writeWith {owner new changed : Value} {m' : Machine Unit}
    (h : writeWith calling selector owner new ctx' m = (.ok changed, m')) {ctx'' : Context}
    (hctx' : Within ctx ctx'') {m'' : Machine Unit} (hm' : start.GrowsBut ctx.frame root m''.store) :
    ∃ m₃, readWith calling selector changed ctx'' m'' = (.ok new, m₃) ∧
      m''.store.Grows (fun _ => True) m₃.store := by
  cases hselector with
  | @property key dotted dimensions fixed =>
      by_cases howner : ∃ fields, owner = .object fields
      · obtain ⟨fields, rfl⟩ := howner
        obtain ⟨rfl, rfl⟩ : changed = .object (Record.set key new fields) ∧ m' = m := by
          cases h
          exact ⟨rfl, rfl⟩
        refine ⟨m'', ?_, .refl _ _⟩
        show (Except.ok ((Record.get? key (Record.set key new fields)).getD .undefined), m'') = _
        rw [Record.get?_set_self]
        rfl
      · -- What is no object has no part that a string selects.
        rw [writeWith, writePart_of_ne_object _ _ _ _ fun fields h => howner ⟨fields, h⟩] at h
        split at h
        · cases h
        · obtain ⟨m₂, hsubset, _⟩ := writePart_subset fixed hctx hm owner new
          rw [hsubset] at h
          cases hcall : Catalog.standard.call "subset" [owner, .index [.string key], new] with
          | error e =>
              rw [hcall] at h
              cases h
          | ok v => exact absurd hcall (Catalog.standard_subset_set_string owner new v key)
  | @positions xs dotted dimensions nonempty fixed =>
      obtain ⟨m₂, hsubset, _⟩ := writePart_subset fixed hctx hm owner new
      obtain ⟨m₃, hread, hgrows⟩ := readPart_subset fixed hctx' hm' changed
      refine ⟨m₃, ?_, hgrows⟩
      dsimp only [writeWith, writePart] at h
      rw [hsubset] at h
      cases hcall : Catalog.standard.call "subset" [owner, .index (xs.map .number), new] with
      | error e =>
          rw [hcall] at h
          cases h
      | ok v =>
          obtain rfl : v = changed := by
            rw [hcall] at h
            cases h
            rfl
          dsimp only [readWith, readPart]
          rw [hread, Catalog.standard_subset_get_of_set nonempty hcall]
          rfl

end Parts

/-! ### References -/

section References

variable {calling : Calling Unit} {root : String} {ctx : Context} {start : Store}

/-- A reading gives a value wherever the store has grown out of that of a machine. -/
def Reads (ctx : Context) (reading : Context → Evaluation Unit Value) (v : Value)
    (m : Machine Unit) : Prop :=
  ∀ ctx' m', Within ctx ctx' → m.store.Grows (fun _ => True) m'.store →
    ∃ m'', reading ctx' m' = (.ok v, m'') ∧ m'.store.Grows (fun _ => True) m''.store

/-- A reference to a variable or a part of it: to read it writes nothing, and to write to it either
fails and writes nothing, or writes the variable so that the reading gives what was written. -/
structure KeepsWrites (root : String) (ctx : Context) (start : Store) (whole : Reference Unit)
    (reading : Context → Evaluation Unit Value) : Prop where
  read : ∀ {ctx' : Context} {m m' : Machine Unit} {result : Except EvalError Value},
    Within ctx ctx' → start.GrowsBut ctx.frame root m.store → whole.get ctx' m = (result, m') →
      m.store.Grows (fun _ => True) m'.store
  written : ∀ {v : Value} {ctx' : Context} {m m' : Machine Unit} {u : Unit},
    Within ctx ctx' → start.GrowsBut ctx.frame root m.store → whole.set v ctx' m = (.ok u, m') →
      start.GrowsBut ctx.frame root m'.store ∧ Reads ctx reading v m'
  refused : ∀ {v : Value} {ctx' : Context} {m m' : Machine Unit} {e : EvalError},
    Within ctx ctx' → start.GrowsBut ctx.frame root m.store → whole.set v ctx' m = (.error e, m') →
      m.store.Grows (fun _ => True) m'.store

theorem valueOf_of_get? {σ : Type} (r : Resolver σ) {m : Machine σ} {v : Value}
    (h : m.store.get? ctx.frame root = some v) : valueOf r root ctx m = (.ok v, m) := by
  rw [valueOf, bind_apply]
  dsimp only [Evaluation.read]
  rw [h]
  rfl

theorem KeepsWrites.name (hframe : ctx.frame < start.frames.size) :
    KeepsWrites root ctx start (nameReference root) (valueOf Catalog.standard.resolver root) where
  read {ctx' m m' result} _ _ h := by
    dsimp only [nameReference] at h
    rw [bind_apply] at h
    dsimp only [Evaluation.read] at h
    cases hget : m.store.get? ctx'.frame root with
    | none =>
        rw [hget] at h
        cases h
        exact .refl _ _
    | some v =>
        rw [hget] at h
        cases h
        exact .refl _ _
  written {v ctx' m m' u} hctx hm h := by
    have hlt : ctx.frame < m.store.frames.size := Nat.lt_of_lt_of_le hframe hm.grows.frames
    obtain rfl : { m with store := m.store.bind ctx.frame root v } = m' := by
      rw [← hctx.frame]
      cases h
      rfl
    refine ⟨hm.bind hframe v, fun ctx'' m' hctx' hgrows => ⟨m', ?_, .refl _ _⟩⟩
    apply valueOf_of_get?
    rw [hctx'.frame]
    refine hgrows.get?_own ?_ ?_
    · simpa [Store.bind, Store.modify] using hlt
    · rw [Store.own?, Store.bind, Store.bindings_modify_self hlt, Record.get?_set_self]
  refused _ _ h := by cases h

/-- A reference goes on keeping what is written to it with one more selector. -/
theorem KeepsWrites.select {whole : Reference Unit} {reading : Context → Evaluation Unit Value}
    (hwhole : KeepsWrites root ctx start whole reading) (hframe : ctx.frame < start.frames.size)
    {selector : Selector Code} (hselector : Selects calling root ctx start selector) :
    KeepsWrites root ctx start
      (selectBy Catalog.standard.resolver (run Catalog.standard.resolver calling) selector whole)
      (fun ctx' => reading ctx' >>= fun owner => readWith calling selector owner ctx') where
  read {ctx' m m' result} hctx hm h := by
    cases result with
    | error e =>
        rcases bind_eq_error h with hget | ⟨owner, m₁, hget, hpart⟩
        · exact hwhole.read hctx hm hget
        · have hgrows := hwhole.read hctx hm hget
          have := readWith_grows hselector hctx (hm.andGrows hframe hgrows) owner
          rw [readWith, hpart] at this
          exact hgrows.trans this
    | ok v =>
        obtain ⟨owner, m₁, hget, hpart⟩ := bind_eq_ok h
        have hgrows := hwhole.read hctx hm hget
        have := readWith_grows hselector hctx (hm.andGrows hframe hgrows) owner
        rw [readWith, hpart] at this
        exact hgrows.trans this
  written {new ctx' m m' u} hctx hm h := by
    obtain ⟨owner, m₁, hget, h⟩ := bind_eq_ok h
    obtain ⟨changed, m₂, hchanged, hset⟩ := bind_eq_ok h
    have hm₁ := hm.andGrows hframe (hwhole.read hctx hm hget)
    have hgrows := writeWith_grows hselector hctx hm₁ owner new
    rw [writeWith, hchanged] at hgrows
    have hm₂ := hm₁.andGrows hframe hgrows
    obtain ⟨hm', hreads⟩ := hwhole.written (hctx.holding [changed]) hm₂ hset
    refine ⟨hm', fun ctx'' m'' hctx' hgrows' => ?_⟩
    obtain ⟨m₃, hread, hgrows₃⟩ := hreads ctx'' m'' hctx' hgrows'
    have hm₃ := (hm'.andGrows hframe hgrows').andGrows hframe hgrows₃
    obtain ⟨m₄, hpart, hgrows₄⟩ := readWith_of_writeWith hselector hctx hm₁ hchanged hctx' hm₃
    refine ⟨m₄, ?_, hgrows₃.trans hgrows₄⟩
    show (reading ctx'' >>= fun owner => readWith calling selector owner ctx'') m'' = _
    rw [bind_apply, hread]
    exact hpart
  refused {new ctx' m m' e} hctx hm h := by
    rcases bind_eq_error h with hget | ⟨owner, m₁, hget, h⟩
    · exact hwhole.read hctx hm hget
    · have hgrows₁ := hwhole.read hctx hm hget
      have hm₁ := hm.andGrows hframe hgrows₁
      have hgrows := writeWith_grows hselector hctx hm₁ owner new
      rcases bind_eq_error h with hchanged | ⟨changed, m₂, hchanged, hset⟩
      · rw [writeWith, hchanged] at hgrows
        exact hgrows₁.trans hgrows
      · rw [writeWith, hchanged] at hgrows
        have hset := hwhole.refused (hctx.holding [changed]) (hm₁.andGrows hframe hgrows) hset
        exact hgrows₁.trans (hgrows.trans hset)

/-- Code that reads what selectors select of a variable. -/
def readCode (root : String) (selectors : List (Selector Code)) : Code :=
  selectors.foldl .access (.symbol root)

theorem run_readCode_concat {σ : Type} (r : Resolver σ) (calling : Calling σ) (root : String)
    (selectors : List (Selector Code)) (selector : Selector Code) (ctx : Context) :
    run r calling (readCode root (selectors ++ [selector])) ctx
      = run r calling (readCode root selectors) ctx >>= fun owner =>
          readPart r selector.property selector.dotted
            (dimensionsBy r (run r calling) selector.dimensions (some owner) none 0) owner ctx := by
  obtain ⟨property, dotted, dimensions⟩ := selector
  rw [readCode, List.foldl_append, List.foldl_cons, List.foldl_nil, run]
  simp only [funext (runDimensions_eq r calling dimensions _ none 0)]
  rfl

/-- The target of an assignment keeps what is written to it. -/
theorem keepsWrites_selectors (hframe : ctx.frame < start.frames.size)
    (selectors : List (Selector Code))
    (hselectors : ∀ selector ∈ selectors, Selects calling root ctx start selector) :
    KeepsWrites root ctx start
      (selectorsBy Catalog.standard.resolver (run Catalog.standard.resolver calling) selectors
        (nameReference root))
      (run Catalog.standard.resolver calling (readCode root selectors)) := by
  induction selectors using List.reverseRecOn with
  | nil =>
      have reading : run Catalog.standard.resolver calling (readCode root [])
          = valueOf Catalog.standard.resolver root := by
        funext ctx
        rw [readCode, List.foldl_nil, run]
      rw [reading]
      exact .name hframe
  | append_singleton selectors selector ih =>
      have hselector := hselectors selector (by simp)
      have step := (ih fun s hs => hselectors s (List.mem_append_left _ hs)).select hframe hselector
      rw [funext (run_readCode_concat Catalog.standard.resolver calling root selectors selector)]
      simpa only [selectorsBy, List.foldl_append, List.foldl_cons, List.foldl_nil] using step

/-- An assignment of a value that is worked out without effects. -/
theorem run_assignment_reads_back (hframe : ctx.frame < m.store.frames.size)
    {selectors : List (Selector Code)}
    (hselectors : ∀ selector ∈ selectors, Selects calling root ctx m.store selector) {value : Code}
    (hvalue : m.store.Grows (fun _ => True)
      (run Catalog.standard.resolver calling value ctx m).2.store) :
    match run Catalog.standard.resolver calling (.assignment (.name root) selectors value) ctx m with
    | (.ok v, m') =>
        (run Catalog.standard.resolver calling value ctx m).1 = .ok v ∧
          m.store.GrowsBut ctx.frame root m'.store ∧
          ∃ m'', run Catalog.standard.resolver calling (readCode root selectors) ctx m' = (.ok v, m'')
    | (.error _, m') => m.store.Grows (fun _ => True) m'.store := by
  have target := keepsWrites_selectors hframe selectors hselectors
  have start := Store.GrowsBut.refl ctx.frame root m.store
  rcases hrun : run Catalog.standard.resolver calling (.assignment (.name root) selectors value) ctx m
    with ⟨e | v, m'⟩
  · rw [run_assignment] at hrun
    rcases bind_eq_error hrun with hv | ⟨v, m₁, hv, hrun⟩
    · rwa [hv] at hvalue
    · rw [hv] at hvalue
      rcases bind_eq_error hrun with hset | ⟨_, m₂, _, hdone⟩
      · have held : Within ctx (ctx.holding [v]) := (Within.refl ctx).holding [v]
        exact hvalue.trans (target.refused held (start.andGrows hframe hvalue) hset)
      · cases hdone
  · rw [run_assignment] at hrun
    obtain ⟨w, m₁, hv, hrun⟩ := bind_eq_ok hrun
    obtain ⟨_, m₂, hset, hdone⟩ := bind_eq_ok hrun
    cases hdone
    rw [hv] at hvalue
    have held : Within ctx (ctx.holding [v]) := (Within.refl ctx).holding [v]
    obtain ⟨hgrows, hreads⟩ := target.written held (start.andGrows hframe hvalue) hset
    obtain ⟨m'', hread, _⟩ := hreads ctx m' (.refl ctx) (.refl _ _)
    refine ⟨?_, hgrows, m'', hread⟩
    rw [hv]

end References

/-! ### Expressions -/

section Expressions

/-- An expression has no effect where it is evaluated: it writes to no frame. -/
def Harmless (e : Expr) (ctx : Context) (m : Machine Unit) : Prop :=
  ∀ code, CodeOf Catalog.standard.resolver e code →
    m.store.Grows (fun _ => True) (code.evaluate Catalog.standard.resolver ctx m).2.store

/-- An expression is the same value, and has no effect, whatever a variable holds. -/
def Steady (root : String) (ctx : Context) (m : Machine Unit) (e : Expr) (v : Value) : Prop :=
  ∀ code, CodeOf Catalog.standard.resolver e code →
    ∀ ctx' m', Within ctx ctx' → m.store.GrowsBut ctx.frame root m'.store →
      ∃ m'', code.evaluate Catalog.standard.resolver ctx' m' = (.ok v, m'') ∧
        m'.store.Grows (fun _ => True) m''.store

/-- An index selects a property, as `.key` or `["key"]`, or positions that are steady numbers and do
not mention the size of what is indexed. -/
inductive Place.Steady (root : String) (ctx : Context) (m : Machine Unit) : Place → Prop
  | property (key : String) (dotted : Bool) : Steady root ctx m ⟨[.string key], dotted⟩
  | positions {dimensions : List Expr} (nonempty : dimensions ≠ [])
      (unsized : ∀ e ∈ dimensions, mentionsEnd e = false)
      (numbers : ∀ e ∈ dimensions, ∃ x : Float, Code.Steady root ctx m e (.number x)) :
      Steady root ctx m ⟨dimensions, false⟩

variable {root : String} {ctx : Context} {m : Machine Unit}

theorem codeOf_string {key : String} {code : Code}
    (h : CodeOf Catalog.standard.resolver (.string key) code) :
    code = .constant (.ok (.string key)) := by
  obtain ⟨s, s', h⟩ := h
  cases h
  rfl

theorem codeOf_symbol {name : String} {code : Code}
    (h : CodeOf Catalog.standard.resolver (.symbol name) code) : code = .symbol name := by
  obtain ⟨s, s', h⟩ := h
  cases h
  rfl

/-- The characters of a string are steady. -/
theorem Steady.string (key : String) : Steady root ctx m (.string key) (.string key) := by
  intro code hcode ctx' m' _ _
  rw [codeOf_string hcode]
  exact ⟨m', rfl, .refl _ _⟩

/-- A name other than the variable's is steady. -/
theorem Steady.symbol {name : String} {v : Value} (hne : name ≠ root)
    (hframe : ctx.frame < m.store.frames.size) (hv : m.store.get? ctx.frame name = some v) :
    Steady root ctx m (.symbol name) v := by
  intro code hcode ctx' m' hctx hm
  have hget : m'.store.get? ctx'.frame name = some v := by
    rw [hctx.frame, hm.get?_of_ne hne hframe, hv]
  rw [codeOf_symbol hcode]
  refine ⟨m', ?_, .refl _ _⟩
  rw [evaluate, run]
  exact valueOf_of_get? _ hget

theorem mentionsEnd_string (key : String) : mentionsEnd (.string key) = false := by
  unfold mentionsEnd Expr.nodes Expr.visits
  rw [Expr.visitsFrom]
  rfl

theorem mentionsEnd_symbol (name : String) : mentionsEnd (.symbol name) = (name == Expr.endName) := by
  unfold mentionsEnd Expr.nodes Expr.visits
  rw [Expr.visitsFrom]
  exact Bool.or_false _

/-- The dimensions of an index have fixed values if they are steady and mention no size. -/
theorem fixed_of_steady (hframe : ctx.frame < m.store.frames.size) {es : List Expr}
    {dimensions : List (Dimension Code)} {values : List Value}
    (hdimensions : List.Forall₂ (DimensionOf Catalog.standard.resolver) es dimensions)
    (hunsized : ∀ e ∈ es, mentionsEnd e = false)
    (hsteady : List.Forall₂ (Steady root ctx m) es values) :
    Fixed (callWithin Catalog.standard.resolver depthLimit) root ctx m.store dimensions values := by
  unfold Fixed valuesOf
  generalize (0 : Nat) = i
  induction hdimensions generalizing values i with
  | nil =>
      cases hsteady
      intro owner ctx' m' _ _
      exact ⟨m', rfl, .refl _ _⟩
  | @cons e dimension es dimensions hdimension _ ih =>
      obtain ⟨hcode, hsized⟩ := hdimension
      obtain ⟨body, sized⟩ := dimension
      obtain rfl : sized = false := hsized.trans (hunsized e List.mem_cons_self)
      cases hsteady with
      | @cons _ v _ values hv hvalues =>
          intro owner ctx' m₀ hctx hm
          obtain ⟨m₁, hrun, hgrows₁⟩ := hv body hcode ctx' m₀ hctx hm
          obtain ⟨m₂, hrest, hgrows₂⟩ :=
            ih (fun e he => hunsized e (List.mem_cons_of_mem _ he)) hvalues (i + 1) owner _ m₁
              (hctx.holding [v]) (hm.andGrows hframe hgrows₁)
          refine ⟨m₂, ?_, hgrows₁.trans hgrows₂⟩
          rw [evaluate] at hrun
          simp only [dimensionsBy, pure_bind]
          rw [bind_apply, hrun]
          dsimp only
          rw [bind_apply, hrest]
          rfl

/-- The selector of a steady index. -/
theorem selects_of_steady (hframe : ctx.frame < m.store.frames.size) {place : Place}
    {selector : Selector Code} (hselector : SelectorOf Catalog.standard.resolver place selector)
    (hplace : place.Steady root ctx m) :
    Selects (callWithin Catalog.standard.resolver depthLimit) root ctx m.store selector := by
  obtain ⟨property, dotted, dimensions⟩ := selector
  obtain ⟨hproperty, hdotted, hdimensions⟩ := hselector
  dsimp only at hproperty hdotted hdimensions
  cases hplace with
  | property key dotted =>
      obtain rfl : property = some key := hproperty
      refine .property (fixed_of_steady hframe hdimensions ?_ (.cons (.string key) .nil))
      intro e he
      rw [List.mem_singleton.1 he]
      exact mentionsEnd_string key
  | @positions es nonempty unsized numbers =>
      -- A string is no number, so the index selects no property.
      have hnone : Expr.propertyName? (.index es false) = none := by
        by_contra hsome
        obtain ⟨key, rfl⟩ : ∃ key, es = [.string key] := by
          unfold Expr.propertyName? at hsome
          split at hsome
          next key _ h =>
            cases h
            exact ⟨key, rfl⟩
          next => exact absurd rfl hsome
        obtain ⟨x, hx⟩ := numbers (.string key) List.mem_cons_self
        obtain ⟨m₁, hrun, _⟩ := hx _ ⟨(), (), rfl⟩ ctx m (.refl ctx) (.refl _ _ _)
        cases hrun
      obtain rfl : property = none := hproperty.trans hnone
      choose! number hnumber using numbers
      have steady : List.Forall₂ (Steady root ctx m) es ((es.map number).map .number) := by
        rw [List.map_map, List.forall₂_map_right_iff, List.forall₂_same]
        exact hnumber
      exact .positions (by simpa using nonempty) (fixed_of_steady hframe hdimensions unsized steady)

theorem selects_of_all_steady (hframe : ctx.frame < m.store.frames.size) {places : List Place}
    {selectors : List (Selector Code)}
    (hselectors : List.Forall₂ (SelectorOf Catalog.standard.resolver) places selectors)
    (hplaces : ∀ place ∈ places, place.Steady root ctx m) :
    ∀ selector ∈ selectors,
      Selects (callWithin Catalog.standard.resolver depthLimit) root ctx m.store selector := by
  induction hselectors with
  | nil => exact List.forall_mem_nil _
  | cons hselector _ ih =>
      rw [List.forall_mem_cons] at hplaces ⊢
      exact ⟨selects_of_steady hframe hselector hplaces.1, ih hplaces.2⟩

/-- The target of an assignment is compiled to code that reads it. -/
theorem ofExpr_target {σ : Type} (r : Resolver σ) (places : List Place) {s s' : σ}
    {start : Root Code} {selectors : List (Selector Code)}
    (h : ofTarget r (target root places) s = (.ok (start, selectors), s')) :
    ofExpr r (target root places) s = (.ok (readCode root selectors), s') := by
  induction places using List.reverseRecOn generalizing s s' start selectors with
  | nil =>
      cases h
      rfl
  | append_singleton places place ih =>
      rw [ofTarget_concat] at h
      obtain ⟨⟨start', selectors'⟩, s₁, htarget, h⟩ := bind_eq_ok h
      obtain ⟨selector, s₂, hselector, h⟩ := bind_eq_ok h
      cases h
      have howner := ih htarget
      rw [target_concat, ofExpr, readCode, List.foldl_append, bind_apply]
      show (ofExpr r (target root places) >>= fun owner => _) s = _
      rw [bind_apply, howner]
      dsimp only
      rw [bind_apply, hselector]
      rfl

/-- With the standard operations, what an assignment wrote is read back, and nothing else has changed;
an assignment that fails has changed nothing. This is so for all targets whose indexes are properties
or steady positions, and all values that are worked out without effects. -/
theorem assigned_reads_back (root : String) (outer : List Place) (last : Option Place) {value : Expr}
    {code : Code}
    (hcode : (Expr.assignment (target root outer) (last.map Place.part) value).compile
      Catalog.standard.resolver () = (.ok code, ()))
    (hframe : ctx.frame < m.store.frames.size) (hvalue : Harmless value ctx m)
    (hplaces : ∀ place ∈ outer ++ last.toList, place.Steady root ctx m) :
    ∃ worth read,
      value.compile Catalog.standard.resolver () = (.ok worth, ()) ∧
      (target root (outer ++ last.toList)).compile Catalog.standard.resolver () = (.ok read, ()) ∧
      match code.evaluate Catalog.standard.resolver ctx m with
      | (.ok v, m') =>
          (worth.evaluate Catalog.standard.resolver ctx m).1 = .ok v ∧
            (read.evaluate Catalog.standard.resolver ctx m').1 = .ok v ∧
            m.store.GrowsBut ctx.frame root m'.store
      | (.error _, m') => m.store.Grows (fun _ => True) m'.store := by
  obtain ⟨start, selectors, worth, _, _, rfl, hworth, htarget⟩ := ofExpr_assignment_parts _ hcode
  obtain ⟨rfl, hselectors⟩ := ofTarget_eq_ok _ root _ htarget
  refine ⟨worth, readCode root selectors, hworth, ofExpr_target _ _ htarget, ?_⟩
  have selects := selects_of_all_steady hframe hselectors hplaces
  have h := run_assignment_reads_back hframe selects (hvalue worth ⟨_, _, hworth⟩)
  unfold evaluate
  split at h
  · obtain ⟨hv, hgrows, m'', hread⟩ := h
    exact ⟨hv, by rw [hread], hgrows⟩
  · exact h

/-- A frame that binds `a` to an object with an array `b` and an object `c`, and `i` to a number. -/
def nested : Machine Unit where
  store :=
    { frames := #[{ bindings := [("a", .object [("b", .array [.null, .bool true]), ("c", .object [])]),
        ("i", .number 2)] }] }
  resolver := ()

/-- The code of `a.c["d"] = null`. -/
def nestedCode : Code :=
  .assignment (.name "a")
    [⟨some "c", true, [⟨.constant (.ok (.string "c")), false⟩]⟩,
      ⟨some "d", false, [⟨.constant (.ok (.string "d")), false⟩]⟩]
    (.constant (.ok .null))

/-- The code of `a.b[i] = null`. -/
def nestedItemCode : Code :=
  .assignment (.name "a")
    [⟨some "b", true, [⟨.constant (.ok (.string "b")), false⟩]⟩, ⟨none, false, [⟨.symbol "i", false⟩]⟩]
    (.constant (.ok .null))

theorem compile_nested :
    (Expr.assignment (target "a" [⟨[.string "c"], true⟩])
      ((some ⟨[.string "d"], false⟩).map Place.part) .null).compile Catalog.standard.resolver ()
      = (.ok nestedCode, ()) := by
  calc (Expr.assignment (target "a" [⟨[.string "c"], true⟩])
        ((some ⟨[.string "d"], false⟩).map Place.part) .null).compile Catalog.standard.resolver ()
      = (.ok (.assignment (.name "a")
          [⟨some "c", true, [⟨.constant (.ok (.string "c")), mentionsEnd (.string "c")⟩]⟩,
            ⟨some "d", false, [⟨.constant (.ok (.string "d")), mentionsEnd (.string "d")⟩]⟩]
          (.constant (.ok .null))), ()) := rfl
    _ = (.ok nestedCode, ()) := by rw [mentionsEnd_string, mentionsEnd_string, nestedCode]

theorem compile_nestedItem :
    (Expr.assignment (target "a" [⟨[.string "b"], true⟩])
      ((some ⟨[.symbol "i"], false⟩).map Place.part) .null).compile Catalog.standard.resolver ()
      = (.ok nestedItemCode, ()) := by
  calc (Expr.assignment (target "a" [⟨[.string "b"], true⟩])
        ((some ⟨[.symbol "i"], false⟩).map Place.part) .null).compile Catalog.standard.resolver ()
      = (.ok (.assignment (.name "a")
          [⟨some "b", true, [⟨.constant (.ok (.string "b")), mentionsEnd (.string "b")⟩]⟩,
            ⟨none, false, [⟨.symbol "i", mentionsEnd (.symbol "i")⟩]⟩]
          (.constant (.ok .null))), ()) := rfl
    _ = (.ok nestedItemCode, ()) := by rw [mentionsEnd_string, mentionsEnd_symbol]; rfl

theorem harmless_null (ctx : Context) (m : Machine Unit) : Harmless .null ctx m := by
  rintro code ⟨s, s', h⟩
  cases h
  exact .refl _ _

theorem evaluate_nestedCode_isOk :
    (nestedCode.evaluate Catalog.standard.resolver { frame := 0 } nested).1.isOk = true := by
  decide +kernel

/-- After `a.c["d"] = null` the part is `null`, and so is that of `a.b[i] = null` unless it fails and
changes nothing. -/
theorem assigned_reads_back_nested :
    (∃ worth read v m',
      Expr.null.compile Catalog.standard.resolver () = (.ok worth, ()) ∧
      (target "a" [⟨[.string "c"], true⟩, ⟨[.string "d"], false⟩]).compile
        Catalog.standard.resolver () = (.ok read, ()) ∧
      nestedCode.evaluate Catalog.standard.resolver { frame := 0 } nested = (.ok v, m') ∧
      (worth.evaluate Catalog.standard.resolver { frame := 0 } nested).1 = .ok v ∧
      (read.evaluate Catalog.standard.resolver { frame := 0 } m').1 = .ok v ∧
      nested.store.GrowsBut 0 "a" m'.store) ∧
    ∃ worth read,
      Expr.null.compile Catalog.standard.resolver () = (.ok worth, ()) ∧
      (target "a" [⟨[.string "b"], true⟩, ⟨[.symbol "i"], false⟩]).compile
        Catalog.standard.resolver () = (.ok read, ()) ∧
      match nestedItemCode.evaluate Catalog.standard.resolver { frame := 0 } nested with
      | (.ok v, m') =>
          (worth.evaluate Catalog.standard.resolver { frame := 0 } nested).1 = .ok v ∧
            (read.evaluate Catalog.standard.resolver { frame := 0 } m').1 = .ok v ∧
            nested.store.GrowsBut 0 "a" m'.store
      | (.error _, m') => nested.store.Grows (fun _ => True) m'.store := by
  have steady : Place.Steady "a" { frame := 0 } nested ⟨[.symbol "i"], false⟩ := by
    have unsized : mentionsEnd (.symbol "i") = false := by
      rw [mentionsEnd_symbol]
      rfl
    have bound : nested.store.get? 0 "i" = some (.number 2) := by
      rw [Store.get?, Store.chain]
      rfl
    refine .positions (by simp) (by simpa using unsized) ?_
    rw [List.forall_mem_singleton]
    exact ⟨2, .symbol (by decide) (by decide) bound⟩
  constructor
  · obtain ⟨worth, read, hworth, hread, h⟩ := assigned_reads_back "a" [⟨[.string "c"], true⟩]
      (some ⟨[.string "d"], false⟩) compile_nested (by decide) (harmless_null { frame := 0 } nested)
      (List.forall_mem_cons.2 ⟨.property "c" true, List.forall_mem_singleton.2 (.property "d" false)⟩)
    have hok := evaluate_nestedCode_isOk
    rcases hresult : nestedCode.evaluate Catalog.standard.resolver { frame := 0 } nested
      with ⟨e | v, m'⟩
    · rw [hresult] at hok
      cases hok
    · rw [hresult] at h
      obtain ⟨hv, hread', hgrows⟩ := h
      exact ⟨worth, read, v, m', hworth, hread, rfl, hv, hread', hgrows⟩
  · exact assigned_reads_back "a" [⟨[.string "b"], true⟩] (some ⟨[.symbol "i"], false⟩)
      compile_nestedItem (by decide) (harmless_null { frame := 0 } nested)
      (List.forall_mem_cons.2 ⟨.property "b" true, List.forall_mem_singleton.2 steady⟩)

end Expressions

end Code

end Formula
