import Formula.Proofs.Evaluation.History
import Formula.Proofs.Evaluation.Journal

/-!
What happens while code is evaluated.

An evaluation is followed moment by moment: what the resolver is asked and what it answers, that a range
without a step has both its bounds, that a literal is reached, and what functions of the host return.
Evaluating code with a journal of these moments (`Code.heed`) is evaluating it (`Heeds.evaluate`), and
the journal is in order: numbers are asked for as the steps of ranges, and an evaluation that fails for
a refusal fails at its last moment (`Told`).
-/

namespace Formula

/-- Something that happens in an evaluation. -/
inductive Moment where
  /-- The resolver is asked something and answers. -/
  | said (exchange : Exchange)
  /-- A range without a step has both its bounds. -/
  | bounds
  /-- A literal is reached. -/
  | literal (result : Except DispatchError Value)
  /-- A function of the host returns. -/
  | hosted (result : Except EvalError Value)

namespace Moment

/-- What an evaluation fails for at a moment. -/
def failure? : Moment → Option EvalError
  | .said (.answered _ (.error e)) => some (.dispatch e)
  | .literal (.error e) => some (.dispatch e)
  | .hosted (.error e) => some e
  | _ => none

/-- What a result fails for. -/
def blame {α : Type} : Except EvalError α → Option EvalError
  | .error e => some e
  | .ok _ => none

/-- A number is asked for. -/
def asked (literal : String) (answer : Except DispatchError Value) : Moment :=
  .said (.answered (.number literal) answer)

/-- Whether a moment has nothing to do with the step of a range. -/
structure IsOther (moment : Moment) : Prop where
  of_ne ::
  ne_bounds : moment ≠ .bounds
  ne_asked : ∀ literal answer, moment ≠ .said (.answered (.number literal) answer)

theorem isOther_of_ne_number {request : Request} (h : ∀ literal, request ≠ .number literal)
    (answer : Except DispatchError Value) : (said (.answered request answer)).IsOther := by
  refine .of_ne (by simp) ?_
  intro literal answer' heq
  cases heq
  exact h literal rfl

end Moment

/-- The resolver that answers as another one does, with a journal of what it is asked and what it
answers. -/
def Resolver.heeding {σ : Type} (r : Resolver σ) : Resolver (σ × List Moment) where
  call name args := heeded (.answered (.call name args)) (r.call name args)
  number literal := heeded (.answered (.number literal)) (r.number literal)
  lookup name := heeded (.lookup name) (r.lookup name)
  array items := heeded (.answered (.array items)) (r.array items)
  range start stop step := heeded (.answered (.range start stop step)) (r.range start stop step)
where
  heeded {α : Type} (exchange : α → Exchange) (answer : StateM σ α) : StateM (σ × List Moment) α :=
    fun (s, journal) =>
      let (a, s) := answer s
      (a, s, journal ++ [.said (exchange a)])

namespace Code

open Evaluation

/-! ### Evaluating with a journal -/

section Heeding

variable {σ : Type} (r : Resolver σ) (calling : Calling (σ × List Moment))

mutual

/-- The value of code, with a journal. -/
def heed : Code → Context → Evaluation (σ × List Moment) Value
  | .constant result, _ => do
    note (Moment.literal result)
    ofResult (result.mapError .dispatch)
  | .symbol name, ctx => valueOf r.heeding name ctx
  | .operation function operands, ctx => do
    let args ← heedAll operands ctx
    ask (r.heeding.call function args)
  | .lazy function decisive left right, ctx => do
    let a ← heed left ctx
    if (← holds a) == decisive then return .bool decisive
    let b ← heed right (ctx.holding [a])
    ask (r.heeding.call function [a, b])
  | .comparison _ [], _ => return .bool true
  | .comparison functions (first :: rest), ctx => do
    let a ← heed first ctx
    heedChain functions rest a ctx
  | .conditional condition yes no, ctx => do
    let c ← heed condition ctx
    if ← holds c then heed yes ctx else heed no ctx
  | .block entries, ctx => heedEntries entries .undefined ctx
  | .range start stop step, ctx => do
    let a ← heed start ctx
    let b ← heed stop (ctx.holding [a])
    let c ← heedStep step (ctx.holding [a, b])
    ask (r.heeding.range a b c)
  | .assignment root selectors value, ctx => do
    let v ← heed value ctx
    (heedSelectors selectors (heedRoot root)).set v (ctx.holding [v])
    return v
  | .definition name params body, ctx => define name params body ctx
  | .call name args, ctx => do
    match ← read (·.get? ctx.frame name) with
    | some (.function f) =>
      let vs ← heedAll args (ctx.holding [.function f])
      calling f vs ctx
    | some other => throw (.notAFunction name other.kind)
    | none =>
      let vs ← heedAll args ctx
      ask (r.heeding.call name vs)
  | .callValue text callee args, ctx => do
    match ← heed callee ctx with
    | .function f =>
      let vs ← heedAll args (ctx.holding [.function f])
      calling f vs ctx
    | other => throw (.notAFunction text other.kind)
  | .array items, ctx => do
    let vs ← heedAll items ctx
    ask (r.heeding.array vs)
  | .object properties, ctx => do
    let fields ← heedProperties properties ctx
    return .object (Record.ofList fields)
  | .index ⟨_, _, dimensions⟩, ctx => do
    let vs ← heedDimensions dimensions none none 0 ctx
    ask (r.heeding.call "index" vs)
  | .access owner ⟨property, dotted, dimensions⟩, ctx => do
    let v ← heed owner ctx
    readPart r.heeding property dotted (heedDimensions dimensions (some v) none 0) v ctx

/-- The values of code, one after another. -/
def heedAll : List Code → Context → Evaluation (σ × List Moment) (List Value)
  | [], _ => return []
  | code :: rest, ctx => do
    let v ← heed code ctx
    let vs ← heedAll rest (ctx.holding [v])
    return v :: vs

/-- Whether each value compares with the next one, as far as the comparisons hold. -/
def heedChain : List String → List Code → Value → Context → Evaluation (σ × List Moment) Value
  | function :: functions, code :: rest, left, ctx => do
    let right ← heed code (ctx.holding [left])
    let result ← ask (r.heeding.call function [left, right])
    if ← holds result then heedChain functions rest right ctx else return .bool false
  | _, _, _, _ => return .bool true

/-- The value of the last visible statement, or the given one if there is none. -/
def heedEntries : List (Entry Code) → Value → Context → Evaluation (σ × List Moment) Value
  | [], v, _ => return v
  | ⟨code, visible⟩ :: entries, v, ctx => do
    let w ← heed code (ctx.holding [v])
    heedEntries entries (if visible then w else v) ctx

/-- The value of the step of a range. If there is none, the range has its bounds now. -/
def heedStep : Option Code → Context → Evaluation (σ × List Moment) Value
  | none, _ => do
    note Moment.bounds
    ask (r.heeding.number "1")
  | some code, ctx => heed code ctx

/-- The values of properties, one after another. -/
def heedProperties : List (String × Code) → Context →
    Evaluation (σ × List Moment) (List (String × Value))
  | [], _ => return []
  | (key, code) :: properties, ctx => do
    let v ← heed code ctx
    let fields ← heedProperties properties (ctx.holding [v])
    return (key, v) :: fields

/-- The values of the dimensions of an index from the `i`-th on. -/
def heedDimensions : List (Dimension Code) → Option Value → Option Value → Nat → Context →
    Evaluation (σ × List Moment) (List Value)
  | [], _, _, _, _ => return []
  | ⟨code, sized⟩ :: dimensions, owner, size, i, ctx => do
    let (size, inner) ← match owner, sized with
      | some owner, true => sizedContext r.heeding owner size i ctx
      | _, _ => pure (size, ctx)
    let v ← heed code inner
    let vs ← heedDimensions dimensions owner size (i + 1) (ctx.holding [v])
    return v :: vs

/-- What the selectors of an assignment start from. -/
def heedRoot : Root Code → Reference (σ × List Moment)
  | .name name => nameReference name
  | .temporary code => { get := fun ctx => heed code ctx, set := fun _ _ => return }

/-- What selectors select of a reference. -/
def heedSelectors : List (Selector Code) → Reference (σ × List Moment) → Reference (σ × List Moment)
  | [], whole => whole
  | ⟨property, dotted, dimensions⟩ :: selectors, whole =>
    heedSelectors selectors {
      get := fun ctx => do
        let owner ← whole.get ctx
        readPart r.heeding property dotted (heedDimensions dimensions (some owner) none 0) owner ctx
      set := fun new ctx => do
        let owner ← whole.get ctx
        let changed ← writePart r.heeding property dotted
          (heedDimensions dimensions (some owner) none 0) owner new ctx
        whole.set changed (ctx.holding [changed]) }

end

/-- Calls a function with a journal, given how its body is run. -/
def heedCall (runBody : Code → Context → Evaluation (σ × List Moment) Value) :
    Calling (σ × List Moment) := fun f args ctx => do
  match ← read (·.closure? f) with
  | none => throw (.undefinedSymbol f.name)
  | some (.host rule) =>
    note (Moment.hosted (rule args))
    ofResult (rule args)
  | some (.defined body captured) =>
    let params := f.params.getD []
    if args.length ≠ params.length then
      throw (.wrongArgumentCount f.name params.length args.length)
    let ctx := ctx.holding (.function f :: args)
    let frame ← enter captured ctx (params.zip args)
    runBody body { ctx with frame, frames := ctx.frame :: ctx.frames }

/-- Calls a function with a journal if its calls nest no deeper than told. -/
def heedWithin : Nat → Calling (σ × List Moment)
  | 0 => heedCall fun _ _ => throw .tooDeep
  | depth + 1 => heedCall fun body ctx => heed r (heedWithin depth) body ctx

/-- The value of code, with a journal of what happens. -/
def heedfully (code : Code) (ctx : Context) : Evaluation (σ × List Moment) Value :=
  heed r (heedWithin r depthLimit) code ctx

end Heeding

/-! ### Journals in order -/

/-- A journal in which numbers are asked for as the steps of ranges without one: the number `1`, once
whenever a range has its bounds. -/
inductive Stepped : List Moment → Prop
  | nil : Stepped []
  | other {moment : Moment} {moments : List Moment} (other : moment.IsOther) (rest : Stepped moments) :
      Stepped (moment :: moments)
  | step (answer : Except DispatchError Value) {moments : List Moment} (rest : Stepped moments) :
      Stepped (.bounds :: .asked "1" answer :: moments)

theorem Stepped.append {moments more : List Moment} (h : Stepped moments) (h' : Stepped more) :
    Stepped (moments ++ more) := by
  induction h with
  | nil => exact h'
  | other other _ ih => exact .other other ih
  | step answer _ ih => exact .step answer ih

theorem Stepped.single {moment : Moment} (other : moment.IsOther) : Stepped [moment] :=
  .other other .nil

/-- Moments at which an evaluation does not fail. -/
def Quiet (moments : List Moment) : Prop :=
  ∀ moment ∈ moments, moment.failure? = none

/-- How an evaluation ends with a journal: it has a value, or it fails for what went wrong at its last
moment, or it gives up for a reason of its own. -/
inductive Ends {α : Type} : List Moment → Except EvalError α → Prop
  | done {moments : List Moment} (quiet : Quiet moments) (a : α) : Ends moments (.ok a)
  | failed {moments : List Moment} (quiet : Quiet moments) {moment : Moment} {e : EvalError}
      (failure : moment.failure? = some e) : Ends (moments ++ [moment]) (.error e)
  | gaveUp {moments : List Moment} (quiet : Quiet moments) {e : EvalError}
      (own : ∀ reason, e ≠ .dispatch reason) : Ends moments (.error e)

theorem Quiet.append {moments more : List Moment} (h : Quiet moments) (h' : Quiet more) :
    Quiet (moments ++ more) :=
  List.forall_mem_append.2 ⟨h, h'⟩

theorem Quiet.nil : Quiet [] :=
  List.forall_mem_nil _

theorem Quiet.single {moment : Moment} (h : moment.failure? = none) : Quiet [moment] :=
  List.forall_mem_singleton.2 h

section Ends

variable {α β : Type} {moments more : List Moment} {result : Except EvalError α}

/-- What goes before an evaluation without failing does not change how it ends. -/
theorem Ends.append (h : Ends more result) (quiet : Quiet moments) :
    Ends (moments ++ more) result := by
  cases h with
  | done quiet' a => exact .done (quiet.append quiet') a
  | failed quiet' failure =>
      rw [← List.append_assoc]
      exact .failed (quiet.append quiet') failure
  | gaveUp quiet' own => exact .gaveUp (quiet.append quiet') own

theorem Ends.quiet {a : α} (h : Ends moments (.ok a : Except EvalError α)) : Quiet moments := by
  cases h with
  | done quiet => exact quiet

theorem Ends.error {e : EvalError} (h : Ends moments (.error e : Except EvalError α)) :
    Ends moments (.error e : Except EvalError β) := by
  cases h with
  | failed quiet failure => exact .failed quiet failure
  | gaveUp quiet own => exact .gaveUp quiet own

/-- A moment at which an evaluation fails is its last one. -/
theorem Ends.last (h : Ends moments result) {before after : List Moment} {moment : Moment}
    {e : EvalError} (hmoments : moments = before ++ moment :: after)
    (failure : moment.failure? = some e) : after = [] ∧ result = .error e := by
  have loud : ¬ Quiet moments := by
    intro quiet
    have := quiet moment (by simp [hmoments])
    rw [failure] at this
    cases this
  cases h with
  | done quiet => exact absurd quiet loud
  | gaveUp quiet => exact absurd quiet loud
  | @failed front quiet last e' failure' =>
      cases after using List.reverseRecOn with
      | nil =>
          obtain ⟨_, hlast⟩ := List.append_inj' hmoments rfl
          obtain rfl : last = moment := (List.cons.inj hlast).1
          rw [failure] at failure'
          cases failure'
          exact ⟨rfl, rfl⟩
      | append_singleton after x =>
          rw [← List.cons_append, ← List.append_assoc] at hmoments
          obtain ⟨hfront, _⟩ := List.append_inj' hmoments rfl
          have := quiet moment (by simp [hfront])
          rw [failure] at this
          cases this

/-- An evaluation that fails for a refusal fails at its last moment. -/
theorem Ends.refused {reason : DispatchError} (h : Ends moments result)
    (hresult : result = .error (.dispatch reason)) :
    ∃ before moment, moments = before ++ [moment] ∧ moment.failure? = some (.dispatch reason) := by
  cases h with
  | done => cases hresult
  | failed quiet failure =>
      cases hresult
      exact ⟨_, _, rfl, failure⟩
  | gaveUp quiet own =>
      cases hresult
      exact absurd rfl (own reason)

end Ends

/-- What the journal of an evaluation tells. -/
structure Told {α : Type} (moments : List Moment) (result : Except EvalError α) : Prop where
  stepped : Stepped moments
  ends : Ends moments result

/-- A result that is worked out at a moment. -/
theorem Ends.atMoment {α : Type} {moment : Moment} {result : Except EvalError α}
    (h : moment.failure? = Moment.blame result) : Ends [moment] result := by
  cases result with
  | error e =>
      show Ends ([] ++ [moment]) _
      exact .failed .nil h
  | ok a => exact .done (.single h) a

theorem Told.atMoment {α : Type} {moment : Moment} (other : moment.IsOther)
    {result : Except EvalError α} (h : moment.failure? = Moment.blame result) : Told [moment] result :=
  ⟨.single other, .atMoment h⟩

/-- An evaluation goes as another one does, with a journal in order. -/
abbrev Heeds {σ α : Type} (x : Evaluation (σ × List Moment) α) (y : Evaluation σ α) : Prop :=
  Journals Told x y

namespace Heeds

variable {σ α β : Type}

theorem result (a : α) : Heeds (σ := σ) (pure a) (pure a) :=
  .pure ⟨.nil, .done .nil a⟩

theorem fail {e : EvalError} (own : ∀ reason, e ≠ .dispatch reason) :
    Heeds (σ := σ) (throw e : Evaluation (σ × List Moment) α) (throw e) :=
  .throw ⟨.nil, .gaveUp .nil own⟩

theorem andThen {x : Evaluation (σ × List Moment) α} {y : Evaluation σ α}
    {f : α → Evaluation (σ × List Moment) β} {g : α → Evaluation σ β} (hx : Heeds x y)
    (hf : ∀ a, Heeds (f a) (g a)) : Heeds (x >>= f) (y >>= g) := by
  refine hx.bind (fun moments e h => ⟨h.stepped, h.ends.error⟩) fun a => (hf a).mono ?_
  intro moments result h before hbefore
  exact ⟨hbefore.stepped.append h.stepped, h.ends.append hbefore.ends.quiet⟩

/-- Evaluations that ask nobody. -/
theorem read (f : Store → α) : Heeds (σ := σ) (read f) (read f) :=
  fun m journal => ⟨[], by rw [List.append_nil]; rfl, .nil, .done .nil _⟩

theorem update (f : Store → α × Store) : Heeds (σ := σ) (update f) (update f) :=
  fun m journal => ⟨[], by rw [List.append_nil]; rfl, .nil, .done .nil _⟩

/-- Asking is a moment, and the answer the result. -/
theorem ask (r : Resolver σ) (request : Request) (other : ∀ literal, request ≠ .number literal) :
    Heeds (ask (r.heeding.answer request)) (ask (r.answer request)) := by
  intro m journal
  let answer := ((r.answer request).run m.resolver).1
  refine ⟨[.said (.answered request answer)], ?_, .atMoment (Moment.isOther_of_ne_number other answer) ?_⟩
  · cases request <;> rfl
  · show Moment.failure? _ = Moment.blame (answer.mapError .dispatch)
    cases answer <;> rfl

theorem lookup (r : Resolver σ) (name : String) :
    Heeds (Evaluation.ask (ExceptT.lift (r.heeding.lookup name)))
      (Evaluation.ask (ExceptT.lift (r.lookup name))) := by
  intro m journal
  exact ⟨[.said (.lookup name ((r.lookup name).run m.resolver).1)], rfl,
    .atMoment (.of_ne (by simp) (by simp)) rfl⟩

/-- A literal is reached, and has the value it was given. -/
theorem literal (result : Except DispatchError Value) :
    Heeds (σ := σ) (do note (.literal result); ofResult (result.mapError .dispatch))
      (ofResult (result.mapError .dispatch)) := by
  refine fun m journal => ⟨[.literal result], rfl, .atMoment (.of_ne (by simp) (by simp)) ?_⟩
  show Moment.failure? _ = Moment.blame (result.mapError .dispatch)
  cases result <;> rfl

theorem hosted (result : Except EvalError Value) :
    Heeds (σ := σ) (do note (.hosted result); ofResult result) (ofResult result) := by
  refine fun m journal => ⟨[.hosted result], rfl, .atMoment (.of_ne (by simp) (by simp)) ?_⟩
  show Moment.failure? _ = Moment.blame result
  cases result <;> rfl

/-- Once a range has its bounds, the number `1` is asked for. -/
theorem step (r : Resolver σ) :
    Heeds (do note .bounds; Evaluation.ask (r.heeding.number "1"))
      (Evaluation.ask (r.number "1")) := by
  intro m journal
  let answer := ((r.number "1").run m.resolver).1
  refine ⟨[.bounds, .asked "1" answer], ?_, .step answer .nil, ?_⟩
  · show _ = (_, Machine.journaled _ (journal ++ ([.bounds] ++ [_])))
    rw [← List.append_assoc]
    rfl
  · have quiet : Quiet [.bounds] := .single rfl
    refine Ends.append (.atMoment ?_) quiet
    show Moment.failure? _ = Moment.blame (answer.mapError .dispatch)
    cases answer <;> rfl

/-- A condition is no refusal. -/
theorem holds (v : Value) : Heeds (σ := σ) (holds v) (holds v) := by
  unfold Evaluation.holds Value.truthy
  cases v.truth? with
  | some b => exact result b
  | none => exact fail nofun

variable (r : Resolver σ)

theorem call (name : String) (args : List Value) :
    Heeds (Evaluation.ask (r.heeding.call name args)) (Evaluation.ask (r.call name args)) :=
  ask r (.call name args) (by simp)

theorem valueOf (name : String) (ctx : Context) :
    Heeds (valueOf r.heeding name ctx) (valueOf r name ctx) := by
  refine andThen (read _) fun bound => ?_
  cases bound with
  | some v => exact result v
  | none =>
      refine andThen (lookup r name) fun found => ?_
      cases found with
      | some v => exact result v
      | none => exact fail (by simp)

theorem bindName (name : String) (v : Value) (ctx : Context) :
    Heeds (σ := σ) (bindName ctx name v) (bindName ctx name v) :=
  update _

theorem define (name : String) (params : List String) (body : Code) (ctx : Context) :
    Heeds (σ := σ) (define name params body ctx) (define name params body ctx) :=
  andThen (update _) fun _ => andThen (bindName _ _ _) fun _ => result _

theorem sizedContext (owner : Value) (size : Option Value) (i : Nat) (ctx : Context) :
    Heeds (sizedContext r.heeding owner size i ctx) (sizedContext r owner size i ctx) := by
  have rest : ∀ size, Heeds (σ := σ)
      (do let frame ← Evaluation.update fun s => s.newFrame (some ctx.frame)
          Evaluation.bindName { ctx with frame } Expr.endName (extent size i)
          return (some size, { ctx with frame }))
      (do let frame ← Evaluation.update fun s => s.newFrame (some ctx.frame)
          Evaluation.bindName { ctx with frame } Expr.endName (extent size i)
          return (some size, { ctx with frame })) := fun size =>
    andThen (update _) fun _ => andThen (bindName _ _ _) fun _ => result _
  cases size with
  | some size => exact andThen (result size) rest
  | none => exact andThen (call r "size" [owner]) rest

section Parts

variable {values : Context → Evaluation (σ × List Moment) (List Value)}
  {values' : Context → Evaluation σ (List Value)} (hvalues : ∀ ctx, Heeds (values ctx) (values' ctx))

include hvalues

theorem readPart (property : Option String) (dotted : Bool) (owner : Value) (ctx : Context) :
    Heeds (readPart r.heeding property dotted values owner ctx)
      (readPart r property dotted values' owner ctx) := by
  have subset : Heeds (readPart.subset r.heeding values owner ctx)
      (readPart.subset r values' owner ctx) :=
    andThen (hvalues _) fun _ => andThen (call r _ _) fun _ => call r _ _
  unfold Code.readPart
  split
  · exact result _
  · split
    · exact fail (by simp)
    · exact subset
  · exact subset

theorem writePart (property : Option String) (dotted : Bool) (owner new : Value) (ctx : Context) :
    Heeds (writePart r.heeding property dotted values owner new ctx)
      (writePart r property dotted values' owner new ctx) := by
  have subset : Heeds (writePart.subset r.heeding values owner new ctx)
      (writePart.subset r values' owner new ctx) :=
    andThen (hvalues _) fun _ => andThen (call r _ _) fun _ => call r _ _
  unfold Code.writePart
  split
  · exact result _
  · split
    · exact fail (by simp)
    · exact subset
  · exact subset

end Parts

/-- A reference is read and written with a journal as another one is. -/
structure References (whole : Reference (σ × List Moment)) (whole' : Reference σ) : Prop where
  get : ∀ ctx, Heeds (whole.get ctx) (whole'.get ctx)
  set : ∀ v ctx, Heeds (whole.set v ctx) (whole'.set v ctx)

theorem nameReference (name : String) :
    References (σ := σ) (nameReference name) (nameReference name) where
  get ctx := andThen (read _) fun bound => by
    cases bound with
    | some v => exact result v
    | none => exact fail (by simp)
  set v ctx := bindName name v ctx

/-! ### All code -/

section Heed

set_option linter.unusedSectionVars false

variable {calling : Calling (σ × List Moment)} {calling' : Calling σ}
  (hcalling : ∀ f args ctx, Heeds (calling f args ctx) (calling' f args ctx))

include hcalling

mutual

/-- Code is evaluated with a journal as without one if calls are. -/
theorem heed : ∀ (code : Code) (ctx : Context),
    Heeds (heed r calling code ctx) (run r calling' code ctx)
  | .constant value, _ => by
      rw [Code.heed, Code.run]
      exact literal value
  | .symbol name, ctx => by
      rw [Code.heed, Code.run]
      exact valueOf r name ctx
  | .operation function operands, ctx => by
      rw [Code.heed, Code.run]
      exact andThen (heedAll operands ctx) fun args => call r function args
  | .lazy function decisive left right, ctx => by
      rw [Code.heed, Code.run]
      refine andThen (heed left ctx) fun a => andThen (holds a) fun decided => ?_
      split
      · exact result _
      · exact andThen (heed right _) fun b => call r _ _
  | .comparison _ [], _ => by
      rw [Code.heed, Code.run]
      exact result _
  | .comparison functions (first :: rest), ctx => by
      rw [Code.heed, Code.run]
      exact andThen (heed first ctx) fun a => heedChain functions rest a ctx
  | .conditional condition yes no, ctx => by
      rw [Code.heed, Code.run]
      refine andThen (heed condition ctx) fun c => andThen (holds c) fun decided => ?_
      split
      · exact heed yes ctx
      · exact heed no ctx
  | .block entries, ctx => by
      rw [Code.heed, Code.run]
      exact heedEntries entries _ ctx
  | .range start stop step, ctx => by
      rw [Code.heed, Code.run]
      exact andThen (heed start ctx) fun a => andThen (heed stop _) fun b =>
        andThen (heedStep step _) fun c => ask r (.range a b c) (by simp)
  | .assignment root selectors value, ctx => by
      rw [Code.heed, Code.run]
      exact andThen (heed value ctx) fun v =>
        andThen ((heedSelectors selectors (heedRoot root)).set v _) fun _ => result _
  | .definition name params body, ctx => by
      rw [Code.heed, Code.run]
      exact define name params body ctx
  | .call name args, ctx => by
      rw [Code.heed, Code.run]
      refine andThen (read _) fun bound => ?_
      cases bound with
      | none => exact andThen (heedAll args ctx) fun vs => call r name vs
      | some v =>
          cases v with
          | function f => exact andThen (heedAll args _) fun vs => hcalling _ _ _
          | _ => exact fail (by simp)
  | .callValue text callee args, ctx => by
      rw [Code.heed, Code.run]
      refine andThen (heed callee ctx) fun v => ?_
      cases v with
      | function f => exact andThen (heedAll args _) fun vs => hcalling _ _ _
      | _ => exact fail (by simp)
  | .array items, ctx => by
      rw [Code.heed, Code.run]
      exact andThen (heedAll items ctx) fun vs => ask r (.array vs) (by simp)
  | .object properties, ctx => by
      rw [Code.heed, Code.run]
      exact andThen (heedProperties properties ctx) fun _ => result _
  | .index ⟨_, _, dimensions⟩, ctx => by
      rw [Code.heed, Code.run]
      exact andThen (heedDimensions dimensions none none 0 ctx) fun vs => call r _ _
  | .access owner ⟨property, dotted, dimensions⟩, ctx => by
      rw [Code.heed, Code.run]
      exact andThen (heed owner ctx) fun v =>
        readPart r (heedDimensions dimensions (some v) none 0) property dotted v ctx

theorem heedAll : ∀ (codes : List Code) (ctx : Context),
    Heeds (heedAll r calling codes ctx) (runAll r calling' codes ctx)
  | [], _ => by
      rw [Code.heedAll, Code.runAll]
      exact result _
  | code :: rest, ctx => by
      rw [Code.heedAll, Code.runAll]
      exact andThen (heed code ctx) fun v => andThen (heedAll rest _) fun _ => result _

theorem heedChain : ∀ (functions : List String) (codes : List Code) (left : Value) (ctx : Context),
    Heeds (heedChain r calling functions codes left ctx) (runChain r calling' functions codes left ctx)
  | function :: functions, code :: rest, left, ctx => by
      rw [Code.heedChain, Code.runChain]
      refine andThen (heed code _) fun right => andThen (call r _ _) fun v =>
        andThen (holds v) fun decided => ?_
      split
      · exact heedChain functions rest right ctx
      · exact result _
  | [], _, _, _ => by
      rw [Code.heedChain, Code.runChain]
      · exact result _
      all_goals simp
  | _ :: _, [], _, _ => by
      rw [Code.heedChain, Code.runChain]
      · exact result _
      all_goals simp

theorem heedEntries : ∀ (entries : List (Entry Code)) (v : Value) (ctx : Context),
    Heeds (heedEntries r calling entries v ctx) (runEntries r calling' entries v ctx)
  | [], _, _ => by
      rw [Code.heedEntries, Code.runEntries]
      exact result _
  | ⟨code, visible⟩ :: entries, v, ctx => by
      rw [Code.heedEntries, Code.runEntries]
      exact andThen (heed code _) fun w => heedEntries entries _ ctx

theorem heedStep : ∀ (step : Option Code) (ctx : Context),
    Heeds (heedStep r calling step ctx) (runStep r calling' step ctx)
  | none, _ => by
      rw [Code.heedStep, Code.runStep]
      exact step r
  | some code, ctx => by
      rw [Code.heedStep, Code.runStep]
      exact heed code ctx

theorem heedProperties : ∀ (properties : List (String × Code)) (ctx : Context),
    Heeds (heedProperties r calling properties ctx) (runProperties r calling' properties ctx)
  | [], _ => by
      rw [Code.heedProperties, Code.runProperties]
      exact result _
  | (key, code) :: properties, ctx => by
      rw [Code.heedProperties, Code.runProperties]
      exact andThen (heed code ctx) fun v => andThen (heedProperties properties _) fun _ => result _

theorem heedDimensions : ∀ (dimensions : List (Dimension Code)) (owner size : Option Value) (i : Nat)
    (ctx : Context), Heeds (heedDimensions r calling dimensions owner size i ctx)
      (runDimensions r calling' dimensions owner size i ctx)
  | [], _, _, _, _ => by
      rw [Code.heedDimensions, Code.runDimensions]
      exact result _
  | ⟨code, sized⟩ :: dimensions, owner, size, i, ctx => by
      -- What follows once it is known where the dimension is evaluated.
      have rest : ∀ p : Option Value × Context, Heeds
          (do let v ← Code.heed r calling code p.2
              let vs ← Code.heedDimensions r calling dimensions owner p.1 (i + 1) (ctx.holding [v])
              return v :: vs)
          (do let v ← Code.run r calling' code p.2
              let vs ← Code.runDimensions r calling' dimensions owner p.1 (i + 1) (ctx.holding [v])
              return v :: vs) := fun p =>
        andThen (heed code p.2) fun v =>
          andThen (heedDimensions dimensions owner p.1 (i + 1) _) fun _ => result _
      cases owner with
      | none =>
          simp only [Code.heedDimensions, Code.runDimensions]
          exact andThen (result (size, ctx)) rest
      | some owner =>
          cases sized with
          | false =>
              simp only [Code.heedDimensions, Code.runDimensions]
              exact andThen (result (size, ctx)) rest
          | true =>
              simp only [Code.heedDimensions, Code.runDimensions]
              exact andThen (sizedContext r owner size i ctx) rest

theorem heedRoot : ∀ root : Root Code, References (heedRoot r calling root) (runRoot r calling' root)
  | .name name => by
      rw [Code.heedRoot, Code.runRoot]
      exact nameReference name
  | .temporary code => by
      rw [Code.heedRoot, Code.runRoot]
      exact ⟨heed code, fun _ _ => result _⟩

theorem heedSelectors : ∀ (selectors : List (Selector Code)) {whole : Reference (σ × List Moment)}
    {whole' : Reference σ}, References whole whole' →
    References (heedSelectors r calling selectors whole) (runSelectors r calling' selectors whole')
  | [], _, _, h => by
      rw [Code.heedSelectors, Code.runSelectors]
      exact h
  | ⟨property, dotted, dimensions⟩ :: selectors, whole, whole', h => by
      rw [Code.heedSelectors, Code.runSelectors]
      refine heedSelectors selectors ⟨fun ctx => ?_, fun new ctx => ?_⟩
      · exact andThen (h.get ctx) fun owner =>
          readPart r (heedDimensions dimensions (some owner) none 0) property dotted owner ctx
      · exact andThen (h.get ctx) fun owner =>
          andThen (writePart r (heedDimensions dimensions (some owner) none 0) property dotted owner new
            ctx) fun changed => h.set _ _

end

end Heed

/-! ### Calls -/

theorem heedCall {runBody : Code → Context → Evaluation (σ × List Moment) Value}
    {runBody' : Code → Context → Evaluation σ Value}
    (hbody : ∀ body ctx, Heeds (runBody body ctx) (runBody' body ctx)) (f : Function)
    (args : List Value) (ctx : Context) :
    Heeds (heedCall runBody f args ctx) (callWith runBody' f args ctx) := by
  unfold Code.heedCall Code.callWith
  refine andThen (read _) fun closure => ?_
  split
  · exact fail (by simp)
  · exact hosted _
  · dsimp only
    split
    · refine andThen (fail ?_) fun _ => andThen (update _) fun _ => hbody _ _
      simp
    · exact andThen (update _) fun _ => hbody _ _

/-- Calls of functions have a journal, however deep they nest. -/
theorem heedWithin : ∀ (depth : Nat) (f : Function) (args : List Value) (ctx : Context),
    Heeds (heedWithin r depth f args ctx) (callWithin r depth f args ctx)
  | 0, f, args, ctx => heedCall (fun _ _ => fail (by simp)) f args ctx
  | depth + 1, f, args, ctx => heedCall (fun body => heed r (heedWithin depth) body) f args ctx

/-- Code is evaluated with a journal as without one. -/
theorem evaluate (code : Code) (ctx : Context) :
    Heeds (heedfully r code ctx) (code.evaluate r ctx) :=
  heed r (heedWithin r depthLimit) code ctx

end Heeds

end Code

end Formula
