import Formula.Evaluation

/-!
Relations that running code keeps.

A `Congruence` relates evaluations with one resolver to evaluations with another one: it says what is
asked of the basic evaluations (questions to the resolver, reading and binding names, new frames and
new functions), and that related evaluations can be put together. From there it reaches all code
(`Congruence.run`), and all calls of functions however deep they nest (`Congruence.callWithin`).

A relation that looks at one of its sides only is a property that evaluations keep, and its congruence
an invariant of running code.
-/

namespace Formula.Code

open Evaluation

variable {σ τ : Type}

/-- A relation between evaluations that putting evaluations together keeps. -/
structure Congruence (r : Resolver σ) (r' : Resolver τ) where
  /-- Two evaluations go alike, and so do their results if they succeed. -/
  Rel : {α : Type} → (α → α → Prop) → Evaluation σ α → Evaluation τ α → Prop
  /-- In the two contexts evaluations go alike. -/
  Alike : Context → Context → Prop
  done : ∀ {α : Type} {post : α → α → Prop} {a b : α}, post a b → Rel post (pure a) (pure b)
  fail : ∀ {α : Type} {post : α → α → Prop} (e : EvalError), Rel post (throw e) (throw e)
  bind : ∀ {α β : Type} {post : α → α → Prop} {post' : β → β → Prop} {x : Evaluation σ α}
    {y : Evaluation τ α} {f : α → Evaluation σ β} {g : α → Evaluation τ β},
    Rel post x y → (∀ a b, post a b → Rel post' (f a) (g b)) → Rel post' (x >>= f) (y >>= g)
  call : ∀ name args, Rel Eq (ask (r.call name args)) (ask (r'.call name args))
  number : Rel Eq (ask (r.number "1")) (ask (r'.number "1"))
  lookup : ∀ name,
    Rel Eq (ask (ExceptT.lift (r.lookup name))) (ask (ExceptT.lift (r'.lookup name)))
  array : ∀ items, Rel Eq (ask (r.array items)) (ask (r'.array items))
  range : ∀ start stop step, Rel Eq (ask (r.range start stop step)) (ask (r'.range start stop step))
  holding : ∀ {ctx ctx' : Context} (values : List Value),
    Alike ctx ctx' → Alike (ctx.holding values) (ctx'.holding values)
  get : ∀ {ctx ctx' : Context} (name : String), Alike ctx ctx' →
    Rel Eq (read (·.get? ctx.frame name)) (read (·.get? ctx'.frame name))
  closure : ∀ f : Function, Rel Eq (read (·.closure? f)) (read (·.closure? f))
  bindName : ∀ {ctx ctx' : Context} (name : String) (value : Value), Alike ctx ctx' →
    Rel Eq (bindName ctx name value) (bindName ctx' name value)
  newFunction : ∀ {ctx ctx' : Context} (body : Code), Alike ctx ctx' →
    Rel Eq (update fun s => s.newFunction (.defined body (s.capture ctx.frame)))
      (update fun s => s.newFunction (.defined body (s.capture ctx'.frame)))
  newFrame : ∀ {ctx ctx' : Context}, Alike ctx ctx' →
    Rel (fun frame frame' => Alike { ctx with frame } { ctx' with frame := frame' })
      (update fun s => s.newFrame (some ctx.frame)) (update fun s => s.newFrame (some ctx'.frame))
  enter : ∀ {ctx ctx' : Context} (captured : Captured) (bindings : List (String × Value)),
    Alike ctx ctx' →
    Rel (fun frame frame' => Alike { ctx with frame, frames := ctx.frame :: ctx.frames }
        { ctx' with frame := frame', frames := ctx'.frame :: ctx'.frames })
      (enter captured ctx bindings) (enter captured ctx' bindings)

namespace Congruence

variable {r : Resolver σ} {r' : Resolver τ} (C : Congruence r r')

/-- Evaluations that go alike in all contexts that are alike. -/
def Everywhere {α : Type} (x : Context → Evaluation σ α) (y : Context → Evaluation τ α) : Prop :=
  ∀ ctx ctx', C.Alike ctx ctx' → C.Rel Eq (x ctx) (y ctx')

/-- Two rules for calls that go alike. -/
def Calls (calling : Calling σ) (calling' : Calling τ) : Prop :=
  ∀ f args, C.Everywhere (calling f args) (calling' f args)

/-- Two references that are read and written alike. -/
structure References (whole : Reference σ) (whole' : Reference τ) : Prop where
  get : C.Everywhere whole.get whole'.get
  set : ∀ v, C.Everywhere (whole.set v) (whole'.set v)

section Steps

variable {C} {α β : Type} {post : β → β → Prop} {x : Evaluation σ α} {y : Evaluation τ α}
  {f : α → Evaluation σ β} {g : α → Evaluation τ β}

/-- Evaluations go alike that go on alike from equal results. -/
theorem andThen (hx : C.Rel Eq x y) (h : ∀ a, C.Rel post (f a) (g a)) :
    C.Rel post (x >>= f) (y >>= g) :=
  C.bind hx fun a _ hab => hab ▸ h a

theorem result (a : α) : C.Rel Eq (pure a) (pure a) :=
  C.done rfl

theorem ofResult (result : Except EvalError α) :
    C.Rel Eq (Evaluation.ofResult result) (Evaluation.ofResult result) := by
  cases result with
  | ok a => exact C.done rfl
  | error e => exact C.fail e

end Steps

theorem valueOf (name : String) : C.Everywhere (valueOf r name) (valueOf r' name) := by
  intro ctx ctx' h
  refine andThen (C.get name h) fun bound => ?_
  cases bound with
  | some v => exact result v
  | none =>
      refine andThen (C.lookup name) fun found => ?_
      cases found with
      | some v => exact result v
      | none => exact C.fail _

theorem define (name : String) (params : List String) (body : Code) :
    C.Everywhere (define name params body) (define name params body) := by
  intro ctx ctx' h
  refine andThen (C.newFunction body h) fun id => ?_
  exact andThen (C.bindName name _ h) fun _ => result _

theorem sizedContext {ctx ctx' : Context} (h : C.Alike ctx ctx') (owner : Value)
    (size : Option Value) (i : Nat) :
    C.Rel (fun p p' => p.1 = p'.1 ∧ C.Alike p.2 p'.2) (sizedContext r owner size i ctx)
      (sizedContext r' owner size i ctx') := by
  have rest : ∀ size, C.Rel (fun p p' => p.1 = p'.1 ∧ C.Alike p.2 p'.2)
      (do let frame ← update fun s => s.newFrame (some ctx.frame)
          Evaluation.bindName { ctx with frame } Expr.endName (extent size i)
          return (some size, { ctx with frame }))
      (do let frame ← update fun s => s.newFrame (some ctx'.frame)
          Evaluation.bindName { ctx' with frame } Expr.endName (extent size i)
          return (some size, { ctx' with frame })) := fun size =>
    C.bind (C.newFrame h) fun _ _ inner =>
      andThen (C.bindName _ _ inner) fun _ => C.done ⟨rfl, inner⟩
  cases size with
  | some size => exact andThen (result size) rest
  | none => exact andThen (C.call "size" [owner]) rest

section Parts

variable {values : Context → Evaluation σ (List Value)}
  {values' : Context → Evaluation τ (List Value)} (hvalues : C.Everywhere values values')

include hvalues

theorem readPart (property : Option String) (dotted : Bool) (owner : Value) :
    C.Everywhere (readPart r property dotted values owner)
      (readPart r' property dotted values' owner) := by
  intro ctx ctx' h
  have subset : C.Rel Eq (readPart.subset r values owner ctx)
      (readPart.subset r' values' owner ctx') :=
    andThen (hvalues _ _ (C.holding _ h)) fun _ => andThen (C.call _ _) fun _ => C.call _ _
  unfold Code.readPart
  split
  · exact result _
  · split
    · exact C.fail _
    · exact subset
  · exact subset

theorem writePart (property : Option String) (dotted : Bool) (owner new : Value) :
    C.Everywhere (writePart r property dotted values owner new)
      (writePart r' property dotted values' owner new) := by
  intro ctx ctx' h
  have subset : C.Rel Eq (writePart.subset r values owner new ctx)
      (writePart.subset r' values' owner new ctx') :=
    andThen (hvalues _ _ (C.holding _ h)) fun _ => andThen (C.call _ _) fun _ => C.call _ _
  unfold Code.writePart
  split
  · exact result _
  · split
    · exact C.fail _
    · exact subset
  · exact subset

end Parts

theorem nameReference (name : String) :
    C.References (nameReference name) (nameReference name) where
  get ctx ctx' h := andThen (C.get name h) fun bound => by
    cases bound with
    | some v => exact result v
    | none => exact C.fail _
  set v _ _ h := C.bindName name v h

/-! ### All code -/

section Run

set_option linter.unusedSectionVars false

variable {calling : Calling σ} {calling' : Calling τ} (hcalling : C.Calls calling calling')

include hcalling

mutual

/-- Code goes alike if calls do. -/
theorem run : ∀ code : Code, C.Everywhere (run r calling code) (run r' calling' code)
  | .constant value, _, _, _ => ofResult _
  | .symbol name, _, _, h => by
      rw [Code.run, Code.run]
      exact C.valueOf name _ _ h
  | .operation function operands, _, _, h => by
      rw [Code.run, Code.run]
      exact andThen (runAll operands _ _ h) fun args => C.call function args
  | .lazy function decisive left right, _, _, h => by
      rw [Code.run, Code.run]
      refine andThen (run left _ _ h) fun a => andThen (ofResult _) fun decided => ?_
      split
      · exact result _
      · exact andThen (run right _ _ (C.holding _ h)) fun b => C.call _ _
  | .comparison _ [], _, _, _ => by
      rw [Code.run, Code.run]
      exact result _
  | .comparison functions (first :: rest), _, _, h => by
      rw [Code.run, Code.run]
      exact andThen (run first _ _ h) fun a => runChain functions rest a _ _ h
  | .conditional condition yes no, _, _, h => by
      rw [Code.run, Code.run]
      refine andThen (run condition _ _ h) fun c => andThen (ofResult _) fun holds => ?_
      split
      · exact run yes _ _ h
      · exact run no _ _ h
  | .block entries, _, _, h => by
      rw [Code.run, Code.run]
      exact runEntries entries _ _ _ h
  | .range start stop step, _, _, h => by
      rw [Code.run, Code.run]
      exact andThen (run start _ _ h) fun a => andThen (run stop _ _ (C.holding _ h)) fun b =>
        andThen (runStep step _ _ (C.holding _ h)) fun c => C.range _ _ _
  | .assignment root selectors value, _, _, h => by
      rw [Code.run, Code.run]
      exact andThen (run value _ _ h) fun v =>
        andThen ((runSelectors selectors (runRoot root)).set v _ _ (C.holding _ h)) fun _ => result _
  | .definition name params body, _, _, h => by
      rw [Code.run, Code.run]
      exact C.define name params body _ _ h
  | .call name args, _, _, h => by
      rw [Code.run, Code.run]
      refine andThen (C.get name h) fun bound => ?_
      split
      · exact andThen (runAll args _ _ (C.holding _ h)) fun vs => hcalling _ _ _ _ h
      · exact C.fail _
      · exact andThen (runAll args _ _ h) fun vs => C.call name vs
  | .callValue text callee args, _, _, h => by
      rw [Code.run, Code.run]
      refine andThen (run callee _ _ h) fun v => ?_
      split
      · exact andThen (runAll args _ _ (C.holding _ h)) fun vs => hcalling _ _ _ _ h
      · exact C.fail _
  | .array items, _, _, h => by
      rw [Code.run, Code.run]
      exact andThen (runAll items _ _ h) fun vs => C.array vs
  | .object properties, _, _, h => by
      rw [Code.run, Code.run]
      exact andThen (runProperties properties _ _ h) fun _ => result _
  | .index ⟨_, _, dimensions⟩, _, _, h => by
      rw [Code.run, Code.run]
      exact andThen (runDimensions dimensions _ _ _ _ _ h) fun vs => C.call _ _
  | .access owner ⟨property, dotted, dimensions⟩, _, _, h => by
      rw [Code.run, Code.run]
      exact andThen (run owner _ _ h) fun v =>
        C.readPart (runDimensions dimensions _ _ _) property dotted v _ _ h

theorem runAll : ∀ codes : List Code, C.Everywhere (runAll r calling codes) (runAll r' calling' codes)
  | [], _, _, _ => by
      rw [Code.runAll, Code.runAll]
      exact result _
  | code :: rest, _, _, h => by
      rw [Code.runAll, Code.runAll]
      exact andThen (run code _ _ h) fun v => andThen (runAll rest _ _ (C.holding _ h)) fun _ =>
        result _

theorem runChain : ∀ (functions : List String) (codes : List Code) (left : Value),
    C.Everywhere (runChain r calling functions codes left) (runChain r' calling' functions codes left)
  | function :: functions, code :: rest, left, _, _, h => by
      rw [Code.runChain, Code.runChain]
      refine andThen (run code _ _ (C.holding _ h)) fun right => andThen (C.call _ _) fun v =>
        andThen (ofResult _) fun holds => ?_
      split
      · exact runChain functions rest right _ _ h
      · exact result _
  | [], _, _, _, _, _ => by
      rw [Code.runChain, Code.runChain]
      · exact result _
      all_goals nofun
  | _ :: _, [], _, _, _, _ => by
      rw [Code.runChain, Code.runChain]
      · exact result _
      all_goals nofun

theorem runEntries : ∀ (entries : List (Entry Code)) (v : Value),
    C.Everywhere (runEntries r calling entries v) (runEntries r' calling' entries v)
  | [], _, _, _, _ => by
      rw [Code.runEntries, Code.runEntries]
      exact result _
  | ⟨code, visible⟩ :: entries, v, _, _, h => by
      rw [Code.runEntries, Code.runEntries]
      exact andThen (run code _ _ (C.holding _ h)) fun w => runEntries entries _ _ _ h

theorem runStep : ∀ step : Option Code,
    C.Everywhere (runStep r calling step) (runStep r' calling' step)
  | none, _, _, _ => by
      rw [Code.runStep, Code.runStep]
      exact C.number
  | some code, _, _, h => by
      rw [Code.runStep, Code.runStep]
      exact run code _ _ h

theorem runProperties : ∀ properties : List (String × Code),
    C.Everywhere (runProperties r calling properties) (runProperties r' calling' properties)
  | [], _, _, _ => by
      rw [Code.runProperties, Code.runProperties]
      exact result _
  | (key, code) :: properties, _, _, h => by
      rw [Code.runProperties, Code.runProperties]
      exact andThen (run code _ _ h) fun v =>
        andThen (runProperties properties _ _ (C.holding _ h)) fun _ => result _

theorem runDimensions : ∀ (dimensions : List (Dimension Code)) (owner size : Option Value) (i : Nat),
    C.Everywhere (runDimensions r calling dimensions owner size i)
      (runDimensions r' calling' dimensions owner size i)
  | [], _, _, _, _, _, _ => by
      rw [Code.runDimensions, Code.runDimensions]
      exact result _
  | ⟨code, sized⟩ :: dimensions, owner, size, i, ctx, ctx', h => by
      -- What follows once it is known where the dimension is evaluated.
      have rest : ∀ p p' : Option Value × Context, p.1 = p'.1 ∧ C.Alike p.2 p'.2 → C.Rel Eq
          (do let v ← Code.run r calling code p.2
              let vs ← Code.runDimensions r calling dimensions owner p.1 (i + 1) (ctx.holding [v])
              return v :: vs)
          (do let v ← Code.run r' calling' code p'.2
              let vs ← Code.runDimensions r' calling' dimensions owner p'.1 (i + 1)
                (ctx'.holding [v])
              return v :: vs) := by
        rintro ⟨size, inner⟩ ⟨_, inner'⟩ ⟨rfl, hinner⟩
        exact andThen (run code _ _ hinner) fun v =>
          andThen (runDimensions dimensions owner size (i + 1) _ _ (C.holding _ h)) fun _ => result _
      cases owner with
      | none =>
          simp only [Code.runDimensions]
          exact C.bind (C.done ⟨rfl, h⟩) rest
      | some owner =>
          cases sized with
          | false =>
              simp only [Code.runDimensions]
              exact C.bind (C.done ⟨rfl, h⟩) rest
          | true =>
              simp only [Code.runDimensions]
              exact C.bind (C.sizedContext h owner size i) rest

theorem runRoot : ∀ root : Root Code, C.References (runRoot r calling root) (runRoot r' calling' root)
  | .name name => by
      rw [Code.runRoot, Code.runRoot]
      exact C.nameReference name
  | .temporary code => by
      rw [Code.runRoot, Code.runRoot]
      exact ⟨run code, fun _ _ _ _ => result _⟩

theorem runSelectors : ∀ (selectors : List (Selector Code)) {whole : Reference σ}
    {whole' : Reference τ}, C.References whole whole' →
    C.References (runSelectors r calling selectors whole) (runSelectors r' calling' selectors whole')
  | [], _, _, h => by
      rw [Code.runSelectors, Code.runSelectors]
      exact h
  | ⟨property, dotted, dimensions⟩ :: selectors, whole, whole', h => by
      rw [Code.runSelectors, Code.runSelectors]
      refine runSelectors selectors ⟨fun ctx ctx' hctx => ?_, fun new ctx ctx' hctx => ?_⟩
      · exact andThen (h.get _ _ hctx) fun owner =>
          C.readPart (runDimensions dimensions _ _ _) property dotted owner _ _ hctx
      · exact andThen (h.get _ _ hctx) fun owner =>
          andThen (C.writePart (runDimensions dimensions _ _ _) property dotted owner new _ _ hctx)
            fun changed => h.set _ _ _ (C.holding _ hctx)

end

end Run

/-! ### Calls -/

theorem callWith {runBody : Code → Context → Evaluation σ Value}
    {runBody' : Code → Context → Evaluation τ Value}
    (hbody : ∀ body, C.Everywhere (runBody body) (runBody' body)) :
    C.Calls (callWith runBody) (callWith runBody') := by
  intro f args ctx ctx' h
  unfold Code.callWith
  refine andThen (C.closure f) fun closure => ?_
  split
  · exact C.fail _
  · exact ofResult _
  · dsimp only
    split
    · exact andThen (C.fail _) fun _ =>
        C.bind (C.enter _ _ (C.holding _ h)) fun _ _ hframe => hbody _ _ _ hframe
    · exact C.bind (C.enter _ _ (C.holding _ h)) fun _ _ hframe => hbody _ _ _ hframe

/-- Calls of functions go alike, however deep they nest. -/
theorem callWithin : ∀ depth : Nat, C.Calls (callWithin r depth) (callWithin r' depth)
  | 0 => C.callWith fun _ _ _ _ => C.fail _
  | depth + 1 => C.callWith fun body => C.run (callWithin depth) body

end Congruence

end Formula.Code
