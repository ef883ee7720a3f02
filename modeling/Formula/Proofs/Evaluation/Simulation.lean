import Formula.Proofs.Evaluation.Frames
import Formula.Proofs.Evaluation.Similarity

/-!
Codes that are alike do alike.

A `Simulation` says when two stores correspond, and two contexts in them, and that the operations on
stores keep it up. How they correspond may have to be remembered, and more of it the more frames there
are: that is what its worlds are for. From there it reaches all codes that are alike (`Simulation.run`)
and all calls of functions, however deep they nest (`Simulation.callWithin`).

Where both sides run the same code and no world is needed, `Congruence` is what there is to show.
-/

namespace Formula

/-- Two errors are the same, apart from what they call something that is called and is no function. -/
inductive EvalError.Matches : EvalError → EvalError → Prop
  | refl (e : EvalError) : Matches e e
  | notAFunction (name name' : String) (kind : ValueKind) :
      Matches (.notAFunction name kind) (.notAFunction name' kind)

/-- Two evaluations end alike: with related results, or with errors that match. -/
inductive EndAlike {α : Type} (post : α → α → Prop) :
    Except EvalError α → Except EvalError α → Prop
  | ok {a b : α} (h : post a b) : EndAlike post (.ok a) (.ok b)
  | error {e e' : EvalError} (h : e.Matches e') : EndAlike post (.error e) (.error e')

theorem EndAlike.refl {α : Type} (result : Except EvalError α) : EndAlike Eq result result := by
  cases result with
  | ok a => exact .ok rfl
  | error e => exact .error (.refl e)

theorem EndAlike.isOk_eq {α : Type} {post : α → α → Prop} {result result' : Except EvalError α}
    (h : EndAlike post result result') : result.isOk = result'.isOk := by
  cases h <;> rfl

namespace Code

open Evaluation Store

/-- What two functions do is alike. -/
inductive SimilarClosures (R : Regime) (captures : Captured → Captured → Prop) :
    Option Closure → Option Closure → Prop
  | none : SimilarClosures R captures none none
  | host (rule : List Value → Except EvalError Value) :
      SimilarClosures R captures (some (.host rule)) (some (.host rule))
  | defined {body body' : Code} {captured captured' : Captured} (h : Similar R R.body body body')
      (hcaptured : captures captured captured') :
      SimilarClosures R captures (some (.defined body captured)) (some (.defined body' captured'))

/-- A store with a frame for a dimension that has the size at hand. -/
def withSized (s : Store) (parent : Nat) (value : Value) : Store :=
  (s.newFrame (some parent)).2.bind s.frames.size Expr.endName value

/-- How stores correspond while codes are run that are alike. -/
structure Simulation (R : Regime) where
  /-- What is known of the frames of both sides. -/
  World : Type
  Later : World → World → Prop
  refl : ∀ w, Later w w
  trans : ∀ {w w' w'' : World}, Later w w' → Later w' w'' → Later w w''
  Stores : World → Store → Store → Prop
  /-- In the two contexts codes do alike that are compared in a certain way. -/
  Alike : R.Kind → World → Context → Context → Prop
  Captures : World → Captured → Captured → Prop
  later : ∀ {k : R.Kind} {w w' : World} {ctx ctx' : Context},
    Alike k w ctx ctx' → Later w w' → Alike k w' ctx ctx'
  holding : ∀ {k : R.Kind} {w : World} {ctx ctx' : Context} (values : List Value),
    Alike k w ctx ctx' → Alike k w (ctx.holding values) (ctx'.holding values)
  closure : ∀ {w : World} {s s' : Store} (f : Function), Stores w s s' →
    SimilarClosures R (Captures w) (s.closure? f) (s'.closure? f)
  get : ∀ {k : R.Kind} {w : World} {s s' : Store} {ctx ctx' : Context} {name : String},
    Stores w s s' → Alike k w ctx ctx' → R.Mentions k name →
    s.get? ctx.frame name = s'.get? ctx'.frame name
  bind : ∀ {k : R.Kind} {w : World} {s s' : Store} {ctx ctx' : Context} (name : String)
    (value : Value), Stores w s s' → Alike k w ctx ctx' → R.Binds k →
    Stores w (s.bind ctx.frame name value) (s'.bind ctx'.frame name value)
  newFunction : ∀ {k : R.Kind} {w : World} {s s' : Store} {ctx ctx' : Context} {body body' : Code},
    Stores w s s' → Alike k w ctx ctx' → R.Binds k → Similar R R.body body body' →
    s.functions.size = s'.functions.size ∧
      Stores w (s.newFunction (.defined body (s.capture ctx.frame))).2
        (s'.newFunction (.defined body' (s'.capture ctx'.frame))).2
  sized : ∀ {k : R.Kind} {w : World} {s s' : Store} {ctx ctx' : Context} (value : Value),
    Stores w s s' → Alike k w ctx ctx' → ∃ w', Later w w' ∧
      Stores w' (withSized s ctx.frame value) (withSized s' ctx'.frame value) ∧
      Alike (R.inner k) w' { ctx with frame := s.frames.size } { ctx' with frame := s'.frames.size }
  enter : ∀ {k : R.Kind} {w : World} {s s' : Store} {ctx ctx' : Context}
    {captured captured' : Captured} (bindings : List (String × Value)),
    Stores w s s' → Alike k w ctx ctx' → Captures w captured captured' → ∃ w', Later w w' ∧
      Stores w' (entered captured ctx bindings s) (entered captured' ctx' bindings s') ∧
      Alike R.body w' { ctx with frame := s.frames.size, frames := ctx.frame :: ctx.frames }
        { ctx' with frame := s'.frames.size, frames := ctx'.frame :: ctx'.frames }
  /-- Where codes are alike in a single place, nothing is done but to find a value. -/
  leaf : ∀ {k : R.Kind} {w : World} {ctx ctx' : Context} {code code' : Code} {σ : Type}
    (r : Resolver σ) (calling calling' : Calling σ) {m m' : Machine σ},
    R.Leaf k code code' → Stores w m.store m'.store → Alike k w ctx ctx' →
    EndAlike Eq (run r calling code ctx m).1 (run r calling' code' ctx' m').1 ∧
      (run r calling code ctx m).2 = m ∧ (run r calling' code' ctx' m').2 = m'

namespace Simulation

variable {R : Regime} (S : Simulation R) {σ : Type} {α β : Type}

/-- From corresponding machines two evaluations get to corresponding ones, and end alike. -/
def Goes (w : S.World) (post : S.World → α → α → Prop) (x y : Evaluation σ α) : Prop :=
  ∀ m m', S.Stores w m.store m'.store → m'.resolver = m.resolver → ∃ w', S.Later w w' ∧
    EndAlike (post w') (x m).1 (y m').1 ∧ S.Stores w' (x m).2.store (y m').2.store ∧
    (y m').2.resolver = (x m).2.resolver

/-- Two evaluations go alike and have the same result. -/
abbrev Same (w : S.World) (x y : Evaluation σ α) : Prop :=
  S.Goes w (fun _ => Eq) x y

/-- Evaluations go alike in contexts that are alike. -/
def Everywhere (k : R.Kind) (x y : Context → Evaluation σ α) : Prop :=
  ∀ w ctx ctx', S.Alike k w ctx ctx' → S.Same w (x ctx) (y ctx')

/-- Two rules for calls go alike. -/
def Calls (calling calling' : Calling σ) : Prop :=
  ∀ f args k, S.Everywhere k (calling f args) (calling' f args)

/-- Two references are read alike, and written alike where anything may be bound. -/
structure References (k : R.Kind) (whole whole' : Reference σ) : Prop where
  get : S.Everywhere k whole.get whole'.get
  set : R.Binds k → ∀ v, S.Everywhere k (whole.set v) (whole'.set v)

section Steps

variable {S} {w : S.World} {post : S.World → α → α → Prop} {post' : S.World → β → β → Prop}
  {x y : Evaluation σ α} {f g : α → Evaluation σ β}

theorem done {a b : α} (h : post w a b) : S.Goes w post (pure a : Evaluation σ α) (pure b) :=
  fun _ _ hs hr => ⟨w, S.refl w, .ok h, hs, hr⟩

theorem result (a : α) : S.Same w (pure a : Evaluation σ α) (pure a) :=
  done rfl

theorem fail {e e' : EvalError} (h : e.Matches e') :
    S.Goes w post (throw e : Evaluation σ α) (throw e') :=
  fun _ _ hs hr => ⟨w, S.refl w, .error h, hs, hr⟩

theorem bind_goes (hx : S.Goes w post x y)
    (hf : ∀ w', S.Later w w' → ∀ a b, post w' a b → S.Goes w' post' (f a) (g b)) :
    S.Goes w post' (x >>= f) (y >>= g) := by
  intro m m' hs hr
  obtain ⟨w', hw', hends, hs', hr'⟩ := hx m m' hs hr
  rw [bind_apply, bind_apply]
  revert hends hs' hr'
  rcases x m with ⟨a, m₁⟩
  rcases y m' with ⟨b, m₁'⟩
  intro hends hs' hr'
  cases hends with
  | error h => exact ⟨w', hw', .error h, hs', hr'⟩
  | ok h =>
      obtain ⟨w'', hw'', rest⟩ := hf w' hw' _ _ h m₁ m₁' hs' hr'
      exact ⟨w'', S.trans hw' hw'', rest⟩

/-- Evaluations go alike that go on alike from equal results. -/
theorem andThen (hx : S.Same w x y)
    (hf : ∀ w', S.Later w w' → ∀ a, S.Goes w' post' (f a) (g a)) :
    S.Goes w post' (x >>= f) (y >>= g) :=
  bind_goes hx fun w' hw' a _ hab => hab ▸ hf w' hw' a

theorem ofResult (result : Except EvalError α) :
    S.Same w (Evaluation.ofResult result : Evaluation σ α) (Evaluation.ofResult result) :=
  fun _ _ hs hr => ⟨w, S.refl w, .refl result, hs, hr⟩

theorem ask (answer : Answer σ α) : S.Same w (ask answer) (ask answer) := by
  intro m m' hs hr
  have hanswer : answer.run m'.resolver = answer.run m.resolver := congrArg answer.run hr
  refine ⟨w, S.refl w, ?_, hs, congrArg Prod.snd hanswer⟩
  show EndAlike Eq ((answer.run m.resolver).1.mapError .dispatch)
    ((answer.run m'.resolver).1.mapError .dispatch)
  rw [hanswer]
  exact .refl _

theorem update {f f' : Store → α × Store}
    (h : ∀ s s', S.Stores w s s' → ∃ w', S.Later w w' ∧ post w' (f s).1 (f' s').1 ∧
      S.Stores w' (f s).2 (f' s').2) :
    S.Goes w post (update f : Evaluation σ α) (update f') := by
  intro m m' hs hr
  obtain ⟨w', hw', hpost, hs'⟩ := h _ _ hs
  exact ⟨w', hw', .ok hpost, hs', hr⟩

theorem read {f f' : Store → α} (h : ∀ s s', S.Stores w s s' → post w (f s) (f' s')) :
    S.Goes w post (Evaluation.read f : Evaluation σ α) (Evaluation.read f') :=
  fun _ _ hs hr => ⟨w, S.refl w, .ok (h _ _ hs), hs, hr⟩

end Steps

section Names

variable {k : R.Kind} {w : S.World} {ctx ctx' : Context}

theorem readName (h : S.Alike k w ctx ctx') {name : String} (mentions : R.Mentions k name) :
    S.Same w (Evaluation.read (·.get? ctx.frame name) : Evaluation σ (Option Value))
      (Evaluation.read (·.get? ctx'.frame name)) :=
  read fun _ _ hs => S.get hs h mentions

theorem bindName (h : S.Alike k w ctx ctx') (binds : R.Binds k) (name : String) (value : Value) :
    S.Same w (Evaluation.bindName ctx name value : Evaluation σ Unit)
      (Evaluation.bindName ctx' name value) :=
  update fun _ _ hs => ⟨w, S.refl w, rfl, S.bind name value hs h binds⟩

theorem valueOf (r : Resolver σ) (h : S.Alike k w ctx ctx') {name : String}
    (mentions : R.Mentions k name) : S.Same w (valueOf r name ctx) (valueOf r name ctx') := by
  refine andThen (S.readName h mentions) fun w' _ bound => ?_
  cases bound with
  | some v => exact result v
  | none =>
      refine andThen (ask _) fun w'' _ found => ?_
      cases found with
      | some v => exact result v
      | none => exact fail (.refl _)

theorem define (h : S.Alike k w ctx ctx') (binds : R.Binds k) (name : String)
    (params : List String) {body body' : Code} (hbody : Similar R R.body body body') :
    S.Same w (define name params body ctx : Evaluation σ Value) (define name params body' ctx') := by
  have new : S.Same w
      (Evaluation.update fun s => s.newFunction (.defined body (s.capture ctx.frame)) :
        Evaluation σ Nat)
      (Evaluation.update fun s => s.newFunction (.defined body' (s.capture ctx'.frame))) :=
    update fun _ _ hs => ⟨w, S.refl w, S.newFunction hs h binds hbody⟩
  refine andThen new fun w' hw' id => ?_
  exact andThen (S.bindName (S.later h hw') binds name _) fun _ _ _ => result _

theorem sizedContext (r : Resolver σ) (h : S.Alike k w ctx ctx') (owner : Value)
    (size : Option Value) (i : Nat) :
    S.Goes w (fun w p p' => p.1 = p'.1 ∧ S.Alike (R.inner k) w p.2 p'.2)
      (sizedContext r owner size i ctx) (sizedContext r owner size i ctx') := by
  have rest : ∀ w', S.Later w w' → ∀ size,
      S.Goes w' (fun w p p' => p.1 = p'.1 ∧ S.Alike (R.inner k) w p.2 p'.2)
        (Code.sizedContext r owner (some size) i ctx) (Code.sizedContext r owner (some size) i ctx') := by
    intro w' hw' size m m' hs hr
    obtain ⟨w'', hw'', hs', hinner⟩ := S.sized (extent size i) hs (S.later h hw')
    exact ⟨w'', hw'', .ok ⟨rfl, hinner⟩, hs', hr⟩
  cases size with
  | some size => exact rest w (S.refl w) size
  | none => exact andThen (ask _) rest

theorem nameReference {name : String} (mentions : R.Mentions k name) :
    S.References k (nameReference name : Reference σ) (nameReference name) where
  get w ctx ctx' h := andThen (S.readName h mentions) fun w' _ bound => by
    cases bound with
    | some v => exact result v
    | none => exact fail (.refl _)
  set binds v w ctx ctx' h := S.bindName h binds name v

end Names

section Parts

variable {k : R.Kind} {w : S.World} {ctx ctx' : Context} (r : Resolver σ)
  {values values' : Context → Evaluation σ (List Value)} (hvalues : S.Everywhere k values values')

include hvalues

theorem readPart (property : Option String) (dotted : Bool) (owner : Value) :
    S.Everywhere k (readPart r property dotted values owner)
      (readPart r property dotted values' owner) := by
  intro w ctx ctx' h
  have subset : S.Same w (readPart.subset r values owner ctx) (readPart.subset r values' owner ctx') :=
    andThen (hvalues w _ _ (S.holding _ h)) fun _ _ _ => andThen (ask _) fun _ _ _ => ask _
  unfold Code.readPart
  split
  · exact result _
  · split
    · exact fail (.refl _)
    · exact subset
  · exact subset

theorem writePart (property : Option String) (dotted : Bool) (owner new : Value) :
    S.Everywhere k (writePart r property dotted values owner new)
      (writePart r property dotted values' owner new) := by
  intro w ctx ctx' h
  have subset : S.Same w (writePart.subset r values owner new ctx)
      (writePart.subset r values' owner new ctx') :=
    andThen (hvalues w _ _ (S.holding _ h)) fun _ _ _ => andThen (ask _) fun _ _ _ => ask _
  unfold Code.writePart
  split
  · exact result _
  · split
    · exact fail (.refl _)
    · exact subset
  · exact subset

end Parts

/-! ### All code -/

section Run

set_option linter.unusedSectionVars false

variable {r : Resolver σ} {calling calling' : Calling σ} (hcalling : S.Calls calling calling')

include hcalling

mutual

/-- Codes that are alike do alike if calls do. -/
theorem run : ∀ {k : R.Kind} {code code' : Code}, Similar R k code code' →
    S.Everywhere k (run r calling code) (run r calling' code')
  | _, _, _, .leaf hleaf, w, _, _, h => fun _ _ hs hr => by
      obtain ⟨hends, hm, hm'⟩ := S.leaf r calling calling' hleaf hs h
      rw [hm, hm']
      exact ⟨w, S.refl w, hends, hs, hr⟩
  | _, _, _, .constant value, _, _, _, _ => ofResult _
  | _, _, _, .symbol mentions, _, _, _, h => by
      rw [Code.run, Code.run]
      exact S.valueOf r h mentions
  | _, _, _, .operation function hoperands, _, _, _, h => by
      rw [Code.run, Code.run]
      exact andThen (runAll hoperands _ _ _ h) fun _ _ _ => ask _
  | _, _, _, .lazy function decisive hleft hright, _, _, _, h => by
      rw [Code.run, Code.run]
      refine andThen (run hleft _ _ _ h) fun _ hw a => andThen (ofResult _) fun _ hw' decided => ?_
      split
      · exact result _
      · exact andThen (run hright _ _ _ (S.holding _ (S.later h (S.trans hw hw'))))
          fun _ _ b => ask _
  | _, _, _, .comparison functions .nil, _, _, _, _ => by
      rw [Code.run, Code.run]
      exact result _
  | _, _, _, .comparison functions (.cons hfirst hrest), _, _, _, h => by
      rw [Code.run, Code.run]
      exact andThen (run hfirst _ _ _ h) fun _ hw a =>
        runChain hrest functions a _ _ _ (S.later h hw)
  | _, _, _, .conditional hcondition hyes hno, _, _, _, h => by
      rw [Code.run, Code.run]
      refine andThen (run hcondition _ _ _ h) fun _ hw c =>
        andThen (ofResult _) fun _ hw' holds => ?_
      split
      · exact run hyes _ _ _ (S.later h (S.trans hw hw'))
      · exact run hno _ _ _ (S.later h (S.trans hw hw'))
  | _, _, _, .block hentries, _, _, _, h => by
      rw [Code.run, Code.run]
      exact runEntries hentries _ _ _ _ h
  | _, _, _, .range hstart hstop hstep, _, _, _, h => by
      rw [Code.run, Code.run]
      exact andThen (run hstart _ _ _ h) fun _ hw a =>
        andThen (run hstop _ _ _ (S.holding _ (S.later h hw))) fun _ hw' b =>
          andThen (runStep hstep _ _ _ (S.holding _ (S.later h (S.trans hw hw')))) fun _ _ c => ask _
  | _, _, _, .assignment binds hroot hselectors hvalue, _, _, _, h => by
      rw [Code.run, Code.run]
      exact andThen (run hvalue _ _ _ h) fun _ hw v =>
        andThen ((runSelectors hselectors (runRoot hroot)).set binds v _ _ _
          (S.holding _ (S.later h hw))) fun _ _ _ => result _
  | _, _, _, .definition name params binds hbody, _, _, _, h => by
      rw [Code.run, Code.run]
      exact S.define h binds name params hbody
  | _, _, _, .call mentions hargs, _, _, _, h => by
      rw [Code.run, Code.run]
      refine andThen (S.readName h mentions) fun _ hw bound => ?_
      split
      · exact andThen (runAll hargs _ _ _ (S.holding _ (S.later h hw))) fun _ hw' vs =>
          hcalling _ _ _ _ _ _ (S.later h (S.trans hw hw'))
      · exact fail (.refl _)
      · exact andThen (runAll hargs _ _ _ (S.later h hw)) fun _ _ vs => ask _
  | _, _, _, .callValue text text' hcallee hargs, _, _, _, h => by
      rw [Code.run, Code.run]
      refine andThen (run hcallee _ _ _ h) fun _ hw v => ?_
      split
      · exact andThen (runAll hargs _ _ _ (S.holding _ (S.later h hw))) fun _ hw' vs =>
          hcalling _ _ _ _ _ _ (S.later h (S.trans hw hw'))
      · exact fail (.notAFunction _ _ _)
  | _, _, _, .array hitems, _, _, _, h => by
      rw [Code.run, Code.run]
      exact andThen (runAll hitems _ _ _ h) fun _ _ vs => ask _
  | _, _, _, .object hproperties, _, _, _, h => by
      rw [Code.run, Code.run]
      exact andThen (runProperties hproperties _ _ _ h) fun _ _ _ => result _
  | _, _, _, .index _ _ _ hdimensions, _, _, _, h => by
      rw [Code.run, Code.run]
      exact andThen (runDimensions hdimensions none rfl _ _ _ _ _ h) fun _ _ vs => ask _
  | _, _, _, .access property dotted howner hdimensions, _, _, _, h => by
      rw [Code.run, Code.run]
      exact andThen (run howner _ _ _ h) fun _ hw v =>
        S.readPart r (runDimensions hdimensions (some v) rfl none 0) property dotted v _ _ _
          (S.later h hw)

theorem runAll : ∀ {k : R.Kind} {codes codes' : List Code}, SimilarAll R k codes codes' →
    S.Everywhere k (runAll r calling codes) (runAll r calling' codes')
  | _, _, _, .nil, _, _, _, _ => by
      rw [Code.runAll, Code.runAll]
      exact result _
  | _, _, _, .cons hcode hcodes, _, _, _, h => by
      rw [Code.runAll, Code.runAll]
      exact andThen (run hcode _ _ _ h) fun _ hw v =>
        andThen (runAll hcodes _ _ _ (S.holding _ (S.later h hw))) fun _ _ _ => result _

theorem runChain : ∀ {k : R.Kind} {codes codes' : List Code}, SimilarAll R k codes codes' →
    ∀ (functions : List String) (left : Value),
    S.Everywhere k (runChain r calling functions codes left)
      (runChain r calling' functions codes' left)
  | _, _, _, .cons hcode hcodes, function :: functions, left, _, _, _, h => by
      rw [Code.runChain, Code.runChain]
      refine andThen (run hcode _ _ _ (S.holding _ h)) fun _ hw right =>
        andThen (ask _) fun _ hw' v => andThen (ofResult _) fun _ hw'' holds => ?_
      split
      · exact runChain hcodes functions right _ _ _ (S.later h (S.trans hw (S.trans hw' hw'')))
      · exact result _
  | _, _, _, .cons _ _, [], _, _, _, _, _ => by
      rw [Code.runChain, Code.runChain]
      · exact result _
      all_goals nofun
  | _, _, _, .nil, _, _, _, _, _, _ => by
      rw [Code.runChain, Code.runChain]
      · exact result _
      all_goals nofun

theorem runEntries : ∀ {k : R.Kind} {entries entries' : List (Entry Code)},
    SimilarEntries R k entries entries' → ∀ v : Value,
    S.Everywhere k (runEntries r calling entries v) (runEntries r calling' entries' v)
  | _, _, _, .nil, _, _, _, _, _ => by
      rw [Code.runEntries, Code.runEntries]
      exact result _
  | _, _, _, .cons visible hcode hentries, v, _, _, _, h => by
      rw [Code.runEntries, Code.runEntries]
      exact andThen (run hcode _ _ _ (S.holding _ h)) fun _ hw w =>
        runEntries hentries _ _ _ _ (S.later h hw)

theorem runStep : ∀ {k : R.Kind} {step step' : Option Code}, SimilarStep R k step step' →
    S.Everywhere k (runStep r calling step) (runStep r calling' step')
  | _, _, _, .none, _, _, _, _ => by
      rw [Code.runStep, Code.runStep]
      exact ask _
  | _, _, _, .some hcode, _, _, _, h => by
      rw [Code.runStep, Code.runStep]
      exact run hcode _ _ _ h

theorem runProperties : ∀ {k : R.Kind} {properties properties' : List (String × Code)},
    SimilarProperties R k properties properties' →
    S.Everywhere k (runProperties r calling properties) (runProperties r calling' properties')
  | _, _, _, .nil, _, _, _, _ => by
      rw [Code.runProperties, Code.runProperties]
      exact result _
  | _, _, _, .cons key hcode hproperties, _, _, _, h => by
      rw [Code.runProperties, Code.runProperties]
      exact andThen (run hcode _ _ _ h) fun _ hw v =>
        andThen (runProperties hproperties _ _ _ (S.holding _ (S.later h hw))) fun _ _ _ => result _

theorem runDimensions : ∀ {k : R.Kind} {owned : Bool} {dimensions dimensions' : List (Dimension Code)},
    SimilarDimensions R k owned dimensions dimensions' → ∀ owner : Option Value,
    owner.isSome = owned → ∀ (size : Option Value) (i : Nat),
    S.Everywhere k (runDimensions r calling dimensions owner size i)
      (runDimensions r calling' dimensions' owner size i)
  | _, _, _, _, .nil, _, _, _, _, _, _, _, _ => by
      rw [Code.runDimensions, Code.runDimensions]
      exact result _
  | k, owned, _, _, @SimilarDimensions.cons _ _ _ code code' sized sized' dimensions dimensions'
      hsized hcode hdimensions, owner, howned, size, i, w, ctx, ctx', h => by
      -- What follows once it is known where the dimension is evaluated.
      have rest : ∀ w', S.Later w w' → ∀ p p' : Option Value × Context,
          p.1 = p'.1 ∧ S.Alike (R.dimension k (owned && sized)) w' p.2 p'.2 →
          S.Same w'
            (do let v ← Code.run r calling code p.2
                let vs ← Code.runDimensions r calling dimensions owner p.1 (i + 1) (ctx.holding [v])
                return v :: vs)
            (do let v ← Code.run r calling' code' p'.2
                let vs ← Code.runDimensions r calling' dimensions' owner p'.1 (i + 1)
                  (ctx'.holding [v])
                return v :: vs) := by
        rintro w' hw' ⟨size, inner⟩ ⟨_, inner'⟩ ⟨rfl, hinner⟩
        exact andThen (run hcode _ _ _ hinner) fun _ hw'' v =>
          andThen (runDimensions hdimensions owner howned size (i + 1) _ _ _
            (S.holding _ (S.later h (S.trans hw' hw'')))) fun _ _ _ => result _
      rw [← howned] at rest
      cases owner with
      | none =>
          simp only [Code.runDimensions]
          exact bind_goes (done ⟨rfl, h⟩) rest
      | some owner =>
          rw [← hsized howned.symm]
          cases sized with
          | false =>
              simp only [Code.runDimensions]
              exact bind_goes (done ⟨rfl, h⟩) rest
          | true =>
              simp only [Code.runDimensions]
              exact bind_goes (S.sizedContext r h owner size i) rest

theorem runRoot : ∀ {k : R.Kind} {root root' : Root Code}, SimilarRoot R k root root' →
    S.References k (runRoot r calling root) (runRoot r calling' root')
  | _, _, _, .name mentions => by
      rw [Code.runRoot, Code.runRoot]
      exact S.nameReference mentions
  | _, _, _, .temporary hbody => by
      rw [Code.runRoot, Code.runRoot]
      exact ⟨run hbody, fun _ _ _ _ _ _ => result _⟩

theorem runSelectors : ∀ {k : R.Kind} {selectors selectors' : List (Selector Code)},
    SimilarSelectors R k selectors selectors' → ∀ {whole whole' : Reference σ},
    S.References k whole whole' →
    S.References k (runSelectors r calling selectors whole) (runSelectors r calling' selectors' whole')
  | _, _, _, .nil, _, _, h => by
      rw [Code.runSelectors, Code.runSelectors]
      exact h
  | _, _, _, .cons property dotted hdimensions hselectors, whole, whole', h => by
      rw [Code.runSelectors, Code.runSelectors]
      refine runSelectors hselectors ⟨fun w ctx ctx' hctx => ?_, fun binds new w ctx ctx' hctx => ?_⟩
      · exact andThen (h.get _ _ _ hctx) fun _ hw owner =>
          S.readPart r (runDimensions hdimensions (some owner) rfl none 0) property dotted owner _ _ _
            (S.later hctx hw)
      · exact andThen (h.get _ _ _ hctx) fun _ hw owner =>
          andThen (S.writePart r (runDimensions hdimensions (some owner) rfl none 0) property dotted
            owner new _ _ _ (S.later hctx hw)) fun _ hw' changed =>
              h.set binds _ _ _ _ (S.holding _ (S.later hctx (S.trans hw hw')))

end

end Run

/-! ### Calls -/

theorem callWith {runBody runBody' : Code → Context → Evaluation σ Value}
    (hbody : ∀ body body', Similar R R.body body body' →
      S.Everywhere R.body (runBody body) (runBody' body')) :
    S.Calls (callWith runBody) (callWith runBody') := by
  intro f args k w ctx ctx' h
  have closure : S.Goes w (fun w => SimilarClosures R (S.Captures w))
      (Evaluation.read (·.closure? f) : Evaluation σ (Option Closure))
      (Evaluation.read (·.closure? f)) := read fun _ _ hs => S.closure f hs
  unfold Code.callWith
  refine bind_goes closure fun w' hw' a b hab => ?_
  have enter : ∀ {captured captured' : Captured} (bindings : List (String × Value)),
      S.Captures w' captured captured' →
      S.Goes w' (fun w frame frame' => S.Alike R.body w
          { ctx.holding (.function f :: args) with frame, frames := ctx.frame :: ctx.frames }
          { ctx'.holding (.function f :: args) with frame := frame', frames := ctx'.frame :: ctx'.frames })
        (Code.enter captured (ctx.holding (.function f :: args)) bindings : Evaluation σ Nat)
        (Code.enter captured' (ctx'.holding (.function f :: args)) bindings) := by
    intro captured captured' bindings hcaptures m m' hs hr
    obtain ⟨w'', hw'', hs', hinner⟩ := S.enter bindings hs (S.holding _ (S.later h hw')) hcaptures
    rw [enter_apply, enter_apply]
    exact ⟨w'', hw'', .ok hinner, hs', hr⟩
  cases hab with
  | none => exact fail (.refl _)
  | host rule => exact ofResult _
  | defined hsimilar hcaptures =>
      dsimp only
      split
      · have stop : S.Goes w' (fun _ (_ _ : PUnit) => False)
            (throw (.wrongArgumentCount f.name (f.params.getD []).length args.length) :
              Evaluation σ PUnit) (throw _) := fail (.refl _)
        exact bind_goes stop fun _ _ _ _ h => h.elim
      · exact bind_goes (enter _ hcaptures) fun _ _ _ _ hframe => hbody _ _ hsimilar _ _ _ hframe

/-- Calls of functions go alike, however deep they nest. -/
theorem callWithin (r : Resolver σ) : ∀ depth : Nat,
    S.Calls (callWithin r depth) (callWithin r depth)
  | 0 => S.callWith fun _ _ _ _ _ _ _ => fail (.refl _)
  | depth + 1 => S.callWith fun _ _ h => S.run (callWithin r depth) h

end Simulation

end Code

end Formula
