import Formula.Proofs.Computation
import Formula.Proofs.Evaluation.Congruence
import Formula.Proofs.Store.Reach

/-!
Which frames an evaluation reads and writes.

Code binds names in the frame that it works in, and everything below works in frames of its own: a call
in a new frame below the one where the function was defined, a dimension that mentions the size in a new
frame below the current one. So an evaluation leaves all frames but its own as they are
(`run_keeps_other_frames`).

Neither does a call look at the frame of its caller, unless there is nothing else to fall back on: from
two callers it goes alike, down to the numbers of its frames (`call_eq_of_callers`). What a caller
does for a call is that it keeps frames alive, and functions that outlive their frame look names up where
they are called; so the callers have to keep the same frames.

Both facts are one congruence, `confined`: two evaluations do the same in all stores that have grown out
of one store, and write to no frame of it that is kept.
-/

namespace Formula

/-- A context keeps a frame alive. -/
def Context.Keeps (ctx : Context) (s : Store) (frame : Nat) : Prop :=
  s.isAlive (s.chain ctx.frame ++ ctx.frames) ctx.values frame = true

theorem Context.keeps_iff {ctx : Context} {s : Store} {frame : Nat} :
    ctx.Keeps s frame ↔ s.Held (ctx.frame :: ctx.frames) ctx.values frame := by
  rw [Keeps, Store.isAlive_iff]
  constructor
  · refine fun h => h.trans fun f hf => ?_
    rcases List.mem_append.1 hf with hf | hf
    · exact Store.held_of_mem_chain (Store.held_of_mem List.mem_cons_self) f hf
    · exact Store.held_of_mem (List.mem_cons_of_mem _ hf)
  · refine fun h => h.trans fun f hf => ?_
    rcases List.mem_cons.1 hf with rfl | hf
    · exact Store.held_of_mem (List.mem_append_left _ Store.mem_chain_self)
    · exact Store.held_of_mem (List.mem_append_right _ hf)

theorem Context.Keeps.holding {ctx : Context} {s : Store} {frame : Nat} (h : ctx.Keeps s frame)
    (values : List Value) : (ctx.holding values).Keeps s frame :=
  Store.isAlive_iff.2 ((Store.held_append [] _ values _).2 (.inr (Store.isAlive_iff.1 h)))

namespace Code

open Evaluation Store

variable {σ : Type}

/-! ### Evaluations that leave frames alone -/

/-- Two evaluations fail alike, or have results that are related. -/
inductive Outcomes {α : Type} (post : α → α → Prop) :
    Except EvalError α → Except EvalError α → Prop
  | ok {a b : α} (h : post a b) : Outcomes post (.ok a) (.ok b)
  | error (e : EvalError) : Outcomes post (.error e) (.error e)

/-- Two evaluations do the same wherever the store has grown out of another one, and let it grow. -/
def Confined (kept : Nat → Prop) (start : Store) {α : Type} (post : α → α → Prop)
    (x y : Evaluation σ α) : Prop :=
  ∀ m, start.Grows kept m.store →
    Outcomes post (x m).1 (y m).1 ∧ (y m).2 = (x m).2 ∧ start.Grows kept (x m).2.store

/-- Two contexts work in the same frame, which may be written to, and what they hold keeps the same
frames alive. -/
structure Alike (kept : Nat → Prop) (start : Store) (ctx ctx' : Context) : Prop where
  frame : ctx'.frame = ctx.frame
  values : ctx'.values = ctx.values
  writes : ctx.frame < start.frames.size → ¬ kept ctx.frame
  held : ∀ s, start.Grows kept s → ∀ frame,
    s.Held ctx.frames ctx.values frame ↔ s.Held ctx'.frames ctx'.values frame

section Confined

variable {kept : Nat → Prop} {start : Store} {α β : Type} {post : α → α → Prop}

theorem Alike.refl {ctx : Context} (writes : ctx.frame < start.frames.size → ¬ kept ctx.frame) :
    Alike kept start ctx ctx :=
  ⟨rfl, rfl, writes, fun _ _ _ => Iff.rfl⟩

namespace Alike

variable {ctx ctx' : Context}

theorem holding (h : Alike kept start ctx ctx') (values : List Value) :
    Alike kept start (ctx.holding values) (ctx'.holding values) where
  frame := h.frame
  values := congrArg (values ++ ·) h.values
  writes := h.writes
  held s hs frame := by
    have append : ∀ ctx : Context,
        s.Held (ctx.holding values).frames (ctx.holding values).values frame ↔
          s.Held [] values frame ∨ s.Held ctx.frames ctx.values frame := fun ctx =>
      held_append [] _ values _
    rw [append, append, h.held s hs frame]

/-- Contexts that are alike work alike in a frame of their own. -/
theorem inFrame (h : Alike kept start ctx ctx') {frame : Nat} (hframe : start.frames.size ≤ frame) :
    Alike kept start { ctx with frame } { ctx' with frame } where
  frame := rfl
  values := h.values
  writes hlt := absurd hlt (Nat.not_lt_of_le hframe)
  held := h.held

theorem entered (h : Alike kept start ctx ctx') {frame : Nat} (hframe : start.frames.size ≤ frame) :
    Alike kept start { ctx with frame, frames := ctx.frame :: ctx.frames }
      { ctx' with frame, frames := ctx'.frame :: ctx'.frames } where
  frame := rfl
  values := h.values
  writes hlt := absurd hlt (Nat.not_lt_of_le hframe)
  held s hs other := by
    have append : ∀ ctx : Context, s.Held (ctx.frame :: ctx.frames) ctx.values other ↔
        s.Held [ctx.frame] [] other ∨ s.Held ctx.frames ctx.values other := fun ctx =>
      held_append [ctx.frame] _ [] _
    rw [append, append, h.held s hs other, h.frame]

theorem isAlive_eq (h : Alike kept start ctx ctx') {s : Store} (hs : start.Grows kept s)
    (frame : Nat) : s.isAlive (s.chain ctx'.frame ++ ctx'.frames) ctx'.values frame
      = s.isAlive (s.chain ctx.frame ++ ctx.frames) ctx.values frame := by
  have append : ∀ ctx : Context, s.Held (s.chain ctx.frame ++ ctx.frames) ctx.values frame ↔
      s.Held (s.chain ctx.frame) [] frame ∨ s.Held ctx.frames ctx.values frame := fun ctx =>
    held_append _ _ [] _
  rw [Bool.eq_iff_iff, isAlive_iff, isAlive_iff, append, append, h.held s hs frame, h.frame]

end Alike

theorem Outcomes.refl (result : Except EvalError α) : Outcomes Eq result result := by
  cases result with
  | ok a => exact .ok rfl
  | error e => exact .error e

theorem Confined.refl {x : Evaluation σ α}
    (h : ∀ m, start.Grows kept m.store → start.Grows kept (x m).2.store) :
    Confined kept start Eq x x :=
  fun m hm => ⟨.refl _, rfl, h m hm⟩

theorem Confined.ask (answer : Answer σ α) :
    Confined kept start Eq (ask answer) (ask answer) :=
  .refl fun _ hm => hm

theorem Confined.read (f : Store → α) : Confined (σ := σ) kept start Eq (read f) (read f) :=
  .refl fun _ hm => hm

theorem Confined.bind {x y : Evaluation σ α} {f g : α → Evaluation σ β} {post' : β → β → Prop}
    (hx : Confined kept start post x y)
    (hf : ∀ a b, post a b → Confined kept start post' (f a) (g b)) :
    Confined kept start post' (x >>= f) (y >>= g) := by
  intro m hm
  obtain ⟨houtcome, hmachine, hgrows⟩ := hx m hm
  rw [bind_apply, bind_apply]
  revert houtcome hmachine hgrows
  rcases x m with ⟨result, m'⟩
  rcases y m with ⟨result', m''⟩
  rintro houtcome rfl hgrows
  cases houtcome with
  | ok hab => exact hf _ _ hab _ hgrows
  | error e => exact ⟨.error e, rfl, hgrows⟩

/-- The parent of the frame of a call. -/
def parentOf (captured : Captured) (ctx : Context) (s : Store) : Nat :=
  match captured with
  | .frame frame => frame
  | .root frame =>
    if s.isAlive (s.chain ctx.frame ++ ctx.frames) ctx.values frame then frame else ctx.frame

/-- The store once a call has its frame. -/
def entered (captured : Captured) (ctx : Context) (bindings : List (String × Value)) (s : Store) :
    Store :=
  (s.newFrame (some (parentOf captured ctx s))).2.bindAll s.frames.size bindings

theorem enter_apply (captured : Captured) (ctx : Context) (bindings : List (String × Value))
    (m : Machine σ) : enter captured ctx bindings m
      = (.ok m.store.frames.size, { m with store := entered captured ctx bindings m.store }) := by
  cases captured <;> rfl

theorem entered_grows {s : Store} (hs : start.Grows kept s) (captured : Captured) (ctx : Context)
    (bindings : List (String × Value)) : start.Grows kept (entered captured ctx bindings s) :=
  (hs.newFrame _).bindAll (fun hlt => absurd hlt (Nat.not_lt_of_le hs.frames)) bindings

theorem Confined.enter {ctx ctx' : Context} (h : Alike kept start ctx ctx') (captured : Captured)
    (bindings : List (String × Value)) :
    Confined kept start
      (fun frame frame' => Alike kept start { ctx with frame, frames := ctx.frame :: ctx.frames }
        { ctx' with frame := frame', frames := ctx'.frame :: ctx'.frames })
      (enter captured ctx bindings : Evaluation σ Nat) (enter captured ctx' bindings) := by
  intro m hm
  have hparent : parentOf captured ctx' m.store = parentOf captured ctx m.store := by
    cases captured with
    | frame => rfl
    | root frame => rw [parentOf, parentOf, h.isAlive_eq hm, h.frame]
  rw [enter_apply, enter_apply, Code.entered, Code.entered, hparent]
  exact ⟨.ok (h.entered hm.frames), rfl, entered_grows hm captured ctx bindings⟩

variable (kept start)

/-- Running code goes alike in contexts that are alike, and leaves kept frames alone. -/
def confined (r : Resolver σ) : Congruence r r where
  Rel := Confined kept start
  Alike := Alike kept start
  done hab _ hm := ⟨.ok hab, rfl, hm⟩
  fail e _ hm := ⟨.error e, rfl, hm⟩
  bind := .bind
  call _ _ := .ask _
  number := .ask _
  lookup _ := .ask _
  array _ := .ask _
  range _ _ _ := .ask _
  holding values h := h.holding values
  get name h := by
    rw [h.frame]
    exact .read _
  closure f := .read _
  bindName name value h := by
    unfold bindName
    rw [h.frame]
    exact .refl fun m hm => hm.bind h.writes name value
  newFunction body h := by
    rw [h.frame]
    exact .refl fun m hm => hm.newFunction _
  newFrame {ctx ctx'} h m hm := by
    rw [h.frame]
    exact ⟨.ok (h.inFrame hm.frames), rfl, hm.newFrame _⟩
  enter captured bindings h := .enter h captured bindings

end Confined

/-! ### What an evaluation writes to -/

/-- An evaluation leaves every frame but its own as it was, however deep calls nest and whether it
succeeds or not; the parents of all frames stay. -/
theorem run_keeps_other_frames (r : Resolver σ) (depth : Nat) (code : Code) (ctx : Context) (m : Machine σ) :
    m.store.Grows (fun frame => frame ≠ ctx.frame) (code.run r (callWithin r depth) ctx m).2.store := by
  let C := confined (fun frame => frame ≠ ctx.frame) m.store r
  have own : C.Alike ctx ctx := .refl fun _ hne => hne rfl
  exact (C.run (C.callWithin depth) code ctx ctx own m (.refl _ _)).2.2

/-! ### What a call depends on -/

/-- Two contexts differ in the caller alone, and each caller is alive when the other one calls, as
frames in use are. -/
structure Callers (s : Store) (ctx ctx' : Context) : Prop where
  frames : ctx'.frames = ctx.frames
  values : ctx'.values = ctx.values
  alive : ctx.Keeps s ctx'.frame
  alive' : ctx'.Keeps s ctx.frame

namespace Callers

variable {s : Store} {ctx ctx' : Context}

theorem symm (h : Callers s ctx ctx') : Callers s ctx' ctx :=
  ⟨h.frames.symm, h.values.symm, h.alive', h.alive⟩

theorem holding (h : Callers s ctx ctx') (values : List Value) :
    Callers s (ctx.holding values) (ctx'.holding values) where
  frames := h.frames
  values := congrArg (values ++ ·) h.values
  alive := h.alive.holding values
  alive' := h.alive'.holding values

/-- What is kept with one caller is kept with the other one, also once the store has grown. -/
theorem held (h : Callers s ctx ctx') {s' : Store} (hs : s.Grows (fun _ => True) s') {frame : Nat}
    (hframe : s'.Held (ctx.frame :: ctx.frames) ctx.values frame) :
    s'.Held (ctx'.frame :: ctx'.frames) ctx'.values frame := by
  rw [← h.values] at hframe
  refine hframe.trans fun f hf => ?_
  rcases List.mem_cons.1 hf with rfl | hf
  · exact (Context.keeps_iff.1 h.alive').grows hs
  · rw [h.frames]
    exact held_of_mem (List.mem_cons_of_mem _ hf)

theorem keeps (h : Callers s ctx ctx') {frame : Nat} (hframe : ctx.Keeps s frame) :
    ctx'.Keeps s frame :=
  Context.keeps_iff.2 (h.held (.refl _ _) (Context.keeps_iff.1 hframe))

theorem entered (h : Callers s ctx ctx') {frame : Nat} (hframe : s.frames.size ≤ frame) :
    Alike (fun _ => True) s { ctx with frame, frames := ctx.frame :: ctx.frames }
      { ctx' with frame, frames := ctx'.frame :: ctx'.frames } where
  frame := rfl
  values := h.values
  writes hlt := absurd hlt (Nat.not_lt_of_le hframe)
  held _ hs _ := ⟨h.held hs, h.symm.held hs⟩

end Callers

end Code

end Formula
