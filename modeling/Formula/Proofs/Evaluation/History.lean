import Formula.Proofs.Evaluation.Frames

/-!
What evaluations do, one deed after another.

An evaluation is a function on machines, which does not say in which order it asks the resolver and
binds names. A `Program` says it: it is a tree of deeds, and what follows a deed depends on how the deed
comes out, which includes that the resolver refuses. Performing a program on a machine leaves a history:
the deeds that were done, with their outcomes.

Running code performs an orderly program (`inspected`): one that gives up when a request is refused, with
the reason it was given. Which program it is depends neither on the machine nor on the resolver, so what
the resolver notes down of the questions it is asked is what the history says.
-/

namespace Formula

/-! ### Deeds -/

/-- A question that a resolver may refuse to answer. -/
inductive Request where
  | call (name : String) (args : List Value)
  | number (literal : String)
  | array (items : List Value)
  | range (start stop step : Value)

/-- Something that an evaluation does, at once. -/
inductive Deed where
  | ask (request : Request)
  /-- To ask the resolver for the value of a name. -/
  | lookup (name : String)
  /-- To look for the value of a name in a frame and its ancestors. -/
  | get (frame : Nat) (name : String)
  | closure (f : Function)
  | bind (frame : Nat) (name : String) (value : Value)
  | newFunction (body : Code) (frame : Nat)
  | newFrame (parent : Nat)
  | enter (captured : Captured) (ctx : Context) (bindings : List (String × Value))

/-- How a deed may come out. -/
abbrev Deed.Outcome : Deed → Type
  | .ask _ => Except DispatchError Value
  | .lookup _ | .get .. => Option Value
  | .closure _ => Option Closure
  | .bind .. => Unit
  | .newFunction .. | .newFrame _ | .enter .. => Nat

/-- A deed and how it came out. -/
structure Event where
  deed : Deed
  outcome : deed.Outcome

/-- Why the resolver refused what was asked of it. -/
def Event.refusal? : Event → Option DispatchError
  | { deed := .ask _, outcome := .error e } => some e
  | _ => none

section Deeds

variable {σ : Type}

/-- What a resolver says to a request. -/
def Resolver.answer (r : Resolver σ) : Request → Answer σ Value
  | .call name args => r.call name args
  | .number literal => r.number literal
  | .array items => r.array items
  | .range start stop step => r.range start stop step

/-- Does a deed. -/
def Deed.perform (r : Resolver σ) : (deed : Deed) → Machine σ → deed.Outcome × Machine σ
  | .ask request, m =>
    let (answer, resolver) := (r.answer request).run m.resolver
    (answer, { m with resolver })
  | .lookup name, m =>
    let (found, resolver) := (r.lookup name).run m.resolver
    (found, { m with resolver })
  | .get frame name, m => (m.store.get? frame name, m)
  | .closure f, m => (m.store.closure? f, m)
  | .bind frame name value, m => ((), { m with store := m.store.bind frame name value })
  | .newFunction body frame, m =>
    let (id, store) := m.store.newFunction (.defined body (m.store.capture frame))
    (id, { m with store })
  | .newFrame parent, m =>
    let (frame, store) := m.store.newFrame (some parent)
    (frame, { m with store })
  | .enter captured ctx bindings, m =>
    (m.store.frames.size, { m with store := Code.entered captured ctx bindings m.store })

end Deeds

/-! ### Programs -/

/-- Deeds, one after another, and a result. -/
inductive Program (α : Type) where
  | done (result : α)
  | step (deed : Deed) (next : deed.Outcome → Program α)

namespace Program

variable {σ α β : Type}

/-- What performing a program gives. -/
def perform (r : Resolver σ) : Program α → Machine σ → α × Machine σ
  | .done result, m => (result, m)
  | .step deed next, m => (next (deed.perform r m).1).perform r (deed.perform r m).2

/-- What is done when a program is performed. -/
def history (r : Resolver σ) : Program α → Machine σ → List Event
  | .done _, _ => []
  | .step deed next, m =>
    ⟨deed, (deed.perform r m).1⟩ :: (next (deed.perform r m).1).history r (deed.perform r m).2

/-- A program with its result changed. -/
def map (f : α → β) : Program α → Program β
  | .done result => .done (f result)
  | .step deed next => .step deed fun outcome => (next outcome).map f

/-- Goes on with the result of a program if it has succeeded. -/
def andThen (f : α → Program (Except EvalError β)) :
    Program (Except EvalError α) → Program (Except EvalError β)
  | .done (.ok a) => f a
  | .done (.error e) => .done (.error e)
  | .step deed next => .step deed fun outcome => (next outcome).andThen f

/-- A program that gives up for the reason of a refusal as soon as there is one, and whose results have
a property. -/
inductive Orderly (P : α → Prop) : Program (Except EvalError α) → Prop
  | ok {a : α} (h : P a) : Orderly P (.done (.ok a))
  | error (e : EvalError) : Orderly P (.done (.error e))
  | step {deed : Deed} {next : deed.Outcome → Program (Except EvalError α)}
      (stops : ∀ outcome e, Event.refusal? ⟨deed, outcome⟩ = some e →
        next outcome = .done (.error (.dispatch e)))
      (rest : ∀ outcome, Orderly P (next outcome)) : Orderly P (.step deed next)

section Orderly

variable {P : α → Prop} {Q : β → Prop} {p : Program (Except EvalError α)}
  {f : α → Program (Except EvalError β)}

theorem Orderly.andThen (h : Orderly P p) (hf : ∀ a, P a → Orderly Q (f a)) :
    Orderly Q (p.andThen f) := by
  induction h with
  | ok h => exact hf _ h
  | error e => exact .error e
  | step stops _ ih =>
      refine .step (fun outcome e refused => ?_) ih
      rw [stops outcome e refused]
      rfl

theorem Orderly.map {g : α → β} (h : Orderly P p) (hg : ∀ a, P a → Q (g a)) :
    Orderly Q (p.map (Except.map g)) := by
  induction h with
  | ok h => exact .ok (hg _ h)
  | error e => exact .error e
  | step stops _ ih =>
      refine .step (fun outcome e refused => ?_) ih
      rw [stops outcome e refused]
      rfl

theorem Orderly.map_congr {f g : α → β} (h : Orderly P p) (hfg : ∀ a, P a → f a = g a) :
    p.map (Except.map f) = p.map (Except.map g) := by
  induction h with
  | ok h => exact congrArg (fun b => Program.done (Except.ok b)) (hfg _ h)
  | error e => rfl
  | step _ _ ih => exact congrArg _ (funext ih)

/-- The results that performing an orderly program gives have its property. -/
theorem Orderly.of_perform (h : Orderly P p) (r : Resolver σ) (m : Machine σ) {a : α}
    (ha : (p.perform r m).1 = .ok a) : P a := by
  induction h generalizing m with
  | ok h =>
      cases ha
      exact h
  | error e => cases ha
  | step _ _ ih => exact ih _ _ ha

/-- A refusal is the last event in the history of an orderly program, and what it fails for. -/
theorem Orderly.refusal_last (h : Orderly P p) (r : Resolver σ) (m : Machine σ)
    {before after : List Event} {event : Event} {e : DispatchError}
    (hhistory : p.history r m = before ++ event :: after) (refused : event.refusal? = some e) :
    after = [] ∧ (p.perform r m).1 = .error (.dispatch e) := by
  induction h generalizing m before with
  | ok | error => simp [history] at hhistory
  | @step deed next stops rest ih =>
      rw [history] at hhistory
      cases before with
      | nil =>
          -- The refusal comes first, so that nothing is left of the program.
          obtain ⟨rfl, rfl⟩ := List.cons.inj hhistory
          rw [perform, stops _ _ refused]
          exact ⟨rfl, rfl⟩
      | cons first before => exact ih _ _ (List.cons.inj hhistory).2

end Orderly

theorem perform_map (r : Resolver σ) (f : α → β) (p : Program α) (m : Machine σ) :
    (p.map f).perform r m = (f (p.perform r m).1, (p.perform r m).2) := by
  induction p generalizing m with
  | done => rfl
  | step deed next ih => exact ih _ _

theorem perform_andThen (r : Resolver σ) (p : Program (Except EvalError α))
    (f : α → Program (Except EvalError β)) (m : Machine σ) :
    (p.andThen f).perform r m = match p.perform r m with
      | (.ok a, m') => (f a).perform r m'
      | (.error e, m') => (.error e, m') := by
  induction p generalizing m with
  | done result => cases result <;> rfl
  | step deed next ih => exact ih _ _

end Program

/-! ### What a resolver notes down -/

/-- A question to a resolver and what it said. -/
inductive Exchange where
  | answered (request : Request) (answer : Except DispatchError Value)
  | lookup (name : String) (found : Option Value)

/-- What a resolver notices of an event. -/
def Event.exchange? : Event → Option Exchange
  | { deed := .ask request, outcome := answer } => some (.answered request answer)
  | { deed := .lookup name, outcome := found } => some (.lookup name found)
  | _ => none

namespace Resolver

variable {σ α : Type}

/-- Answers, and notes down what was said. -/
def minuted (exchange : α → Exchange) (answer : StateM σ α) : StateM (σ × List Exchange) α :=
  fun (s, minutes) =>
    let (a, s) := answer s
    (a, s, minutes ++ [exchange a])

/-- The resolver that answers as another one does, and keeps minutes of what it was asked and what it
said. -/
def minuting (r : Resolver σ) : Resolver (σ × List Exchange) where
  call name args := minuted (.answered (.call name args)) (r.call name args)
  number literal := minuted (.answered (.number literal)) (r.number literal)
  lookup name := minuted (.lookup name) (r.lookup name)
  array items := minuted (.answered (.array items)) (r.array items)
  range start stop step := minuted (.answered (.range start stop step)) (r.range start stop step)

end Resolver

namespace Program

variable {σ α : Type}

/-- A machine whose resolver keeps minutes. -/
def withMinutes (m : Machine σ) (minutes : List Exchange) : Machine (σ × List Exchange) :=
  ⟨m.store, m.resolver, minutes⟩

theorem deed_minuting (r : Resolver σ) (deed : Deed) (m : Machine σ) (minutes : List Exchange) :
    deed.perform r.minuting (withMinutes m minutes) =
      ((deed.perform r m).1, withMinutes (deed.perform r m).2
        (minutes ++ (Event.exchange? ⟨deed, (deed.perform r m).1⟩).toList)) := by
  cases deed with
  | ask request => cases request <;> rfl
  | lookup => rfl
  | _ => simp [Deed.perform, withMinutes, Event.exchange?]

/-- Minutes are kept of the exchanges in the history, and nothing else changes. -/
theorem perform_minuting (r : Resolver σ) (p : Program α) (m : Machine σ) (minutes : List Exchange) :
    p.perform r.minuting (withMinutes m minutes) =
      ((p.perform r m).1, withMinutes (p.perform r m).2
        (minutes ++ (p.history r m).filterMap Event.exchange?)) := by
  induction p generalizing m minutes with
  | done => simp [perform, history]
  | step deed next ih =>
      rw [perform, deed_minuting, ih, perform, history, List.filterMap_cons]
      cases Event.exchange? ⟨deed, (deed.perform r m).1⟩ <;> simp

end Program

/-! ### The programs of code -/

namespace Code

open Evaluation Program

variable {σ τ : Type}

/-- An evaluation performs a program, and makes its result out of that of the program. -/
def Enacts (r : Resolver σ) {α β : Type} (f : α → β) (p : Program (Except EvalError α))
    (x : Evaluation σ β) : Prop :=
  ∀ m, x m = (p.map (Except.map f)).perform r m

namespace Enacts

variable {r : Resolver σ} {α β γ δ : Type} {f : α → β} {g : γ → δ}

theorem ask (r : Resolver σ) (request : Request) (f : Value → β) (g : β → Value)
    (hfg : ∀ v, g (f v) = v) :
    Enacts r g (.step (.ask request) fun answer => .done ((answer.mapError .dispatch).map f))
      (ask (r.answer request)) := by
  intro m
  rw [perform_map]
  rcases h : (r.answer request).run m.resolver with ⟨e | v, resolver⟩ <;>
    simp [Evaluation.ask, perform, Deed.perform, Except.mapError, Except.map, h, hfg]

theorem bind {P : α → Prop} {p : Program (Except EvalError α)}
    {rest : α → Program (Except EvalError γ)} {x : Evaluation σ β} {y : β → Evaluation σ δ}
    (horderly : p.Orderly P) (hx : Enacts r f p x) (hy : ∀ a, P a → Enacts r g (rest a) (y (f a))) :
    Enacts r g (p.andThen rest) (x >>= y) := by
  intro m
  have hresult := fun a => horderly.of_perform r m (a := a)
  rw [bind_apply, hx, perform_map, perform_map, perform_andThen]
  revert hresult
  rcases p.perform r m with ⟨e | a, m'⟩ <;> intro hresult
  · rfl
  · exact (hy a (hresult a rfl) m').trans (perform_map ..)

end Enacts

/-- Two evaluations perform the same orderly program, with related results. -/
def Performs (r : Resolver σ) (r' : Resolver τ) {α : Type} (post : α → α → Prop)
    (x : Evaluation σ α) (y : Evaluation τ α) : Prop :=
  ∃ p : Program (Except EvalError (α × α)), p.Orderly (fun ab => post ab.1 ab.2) ∧
    Enacts r Prod.fst p x ∧ Enacts r' Prod.snd p y

namespace Performs

variable {r : Resolver σ} {r' : Resolver τ} {α β : Type} {post : α → α → Prop}

theorem ask (request : Request) :
    Performs r r' Eq (ask (r.answer request)) (ask (r'.answer request)) := by
  refine ⟨_, .step ?_ ?_, .ask r request (fun v => (v, v)) _ fun _ => rfl,
    .ask r' request (fun v => (v, v)) _ fun _ => rfl⟩
  · rintro (e | v) _ ⟨⟩
    rfl
  · rintro (e | v)
    · exact .error _
    · exact .ok rfl

/-- A deed that nobody refuses. -/
theorem deed (deed : Deed) {post : deed.Outcome → deed.Outcome → Prop}
    {x : Evaluation σ deed.Outcome} {y : Evaluation τ deed.Outcome}
    (hx : ∀ m, x m = (.ok (deed.perform r m).1, (deed.perform r m).2))
    (hy : ∀ m, y m = (.ok (deed.perform r' m).1, (deed.perform r' m).2))
    (never : ∀ outcome, Event.refusal? ⟨deed, outcome⟩ = none)
    (hpost : ∀ outcome, post outcome outcome) : Performs r r' post x y := by
  refine ⟨.step deed fun outcome => .done (.ok (outcome, outcome)), .step ?_ ?_, hx, hy⟩
  · intro outcome e refused
    rw [never outcome] at refused
    cases refused
  · exact fun outcome => .ok (hpost outcome)

theorem bind {x : Evaluation σ α} {y : Evaluation τ α} {f : α → Evaluation σ β}
    {g : α → Evaluation τ β} {post' : β → β → Prop} (hx : Performs r r' post x y)
    (hf : ∀ a b, post a b → Performs r r' post' (f a) (g b)) :
    Performs r r' post' (x >>= f) (y >>= g) := by
  classical
  obtain ⟨p, horderly, hpx, hpy⟩ := hx
  choose q hq hqx hqy using hf
  -- What follows results that are not related does not matter, since there are none.
  let rest (ab : α × α) : Program (Except EvalError (β × β)) :=
    if h : post ab.1 ab.2 then q ab.1 ab.2 h else .done (.error .tooDeep)
  have hrest : ∀ ab (h : post ab.1 ab.2), rest ab = q ab.1 ab.2 h := fun ab h => dif_pos h
  refine ⟨p.andThen rest, horderly.andThen fun ab h => ?_, hpx.bind horderly fun ab h => ?_,
    hpy.bind horderly fun ab h => ?_⟩
  · exact hrest ab h ▸ hq _ _ h
  · exact hrest ab h ▸ hqx _ _ h
  · exact hrest ab h ▸ hqy _ _ h

end Performs

/-- Running code performs an orderly program, the same one whatever the resolver is. -/
def inspected (r : Resolver σ) (r' : Resolver τ) : Congruence r r' where
  Rel := Performs r r'
  Alike ctx ctx' := ctx = ctx'
  done {_ _ a b} h := ⟨.done (.ok (a, b)), .ok h, fun _ => rfl, fun _ => rfl⟩
  fail e := ⟨.done (.error e), .error e, fun _ => rfl, fun _ => rfl⟩
  bind := .bind
  call name args := .ask (.call name args)
  number := .ask (.number "1")
  lookup name := Performs.deed (.lookup name) (fun _ => rfl) (fun _ => rfl) (fun _ => rfl)
    fun _ => rfl
  array items := .ask (.array items)
  range start stop step := .ask (.range start stop step)
  holding values h := congrArg (·.holding values) h
  get {ctx _} name h := by
    subst h
    exact Performs.deed (.get ctx.frame name) (fun _ => rfl) (fun _ => rfl) (fun _ => rfl)
      fun _ => rfl
  closure f := Performs.deed (.closure f) (fun _ => rfl) (fun _ => rfl) (fun _ => rfl)
    fun _ => rfl
  bindName {ctx _} name value h := by
    subst h
    exact Performs.deed (.bind ctx.frame name value) (fun _ => rfl) (fun _ => rfl)
      (fun _ => rfl) fun _ => rfl
  newFunction {ctx _} body h := by
    subst h
    exact Performs.deed (.newFunction body ctx.frame) (fun _ => rfl) (fun _ => rfl)
      (fun _ => rfl) fun _ => rfl
  newFrame {ctx _} h := by
    subst h
    exact Performs.deed (.newFrame ctx.frame) (fun _ => rfl) (fun _ => rfl) (fun _ => rfl)
      fun _ => rfl
  enter {ctx _} captured bindings h := by
    subst h
    exact Performs.deed (.enter captured ctx bindings) (enter_apply _ _ _)
      (enter_apply _ _ _) (fun _ => rfl) fun _ => rfl

/-! ### Refusals -/

/-- Evaluating code performs a program, the same one from every machine. Its history says what the
resolver is asked and what it says, and if the resolver refuses something, then that is the last event
of the history, and the evaluation fails for this reason: nothing is asked, bound or defined
afterwards. -/
theorem refusal_ends_evaluation (r : Resolver σ) (code : Code) (ctx : Context) :
    ∃ program : Program (Except EvalError Value),
      (∀ m, code.evaluate r ctx m = program.perform r m) ∧
      (∀ m minutes, code.evaluate r.minuting ctx (withMinutes m minutes) =
        ((program.perform r m).1, withMinutes (program.perform r m).2
          (minutes ++ (program.history r m).filterMap Event.exchange?))) ∧
      ∀ m before event after e, program.history r m = before ++ event :: after →
        event.refusal? = some e →
          after = [] ∧ (code.evaluate r ctx m).1 = .error (.dispatch e) := by
  let C := inspected r r.minuting
  obtain ⟨p, horderly, hr, hminutes⟩ := C.run (C.callWithin depthLimit) code ctx ctx rfl
  have hsame : p.map (Except.map Prod.snd) = p.map (Except.map Prod.fst) :=
    horderly.map_congr fun _ h => h.symm
  refine ⟨p.map (Except.map Prod.fst), hr, fun m minutes => ?_, fun m before event after e => ?_⟩
  · rw [← perform_minuting, ← hsame]
    exact hminutes _
  · intro hhistory refused
    rw [evaluate, hr]
    have hmap : (p.map (Except.map Prod.fst)).Orderly fun _ => True :=
      horderly.map fun _ _ => trivial
    exact hmap.refusal_last r m hhistory refused

end Code

end Formula
