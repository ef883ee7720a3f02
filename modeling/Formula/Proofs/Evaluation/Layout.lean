import Formula.Proofs.Evaluation.Simulation
import Formula.Proofs.Store.Reach

/-!
Stores with and without the frames of sizes.

A dimension that mentions the size is evaluated in a frame made for it, and one that has the value of the
size instead is evaluated where the access stands. So the stores of the two sides do not have the same
frames. A list of slots remembers which frame of the one side is which of the other side, and which ones
only have a size (`Slot`), and a `Layout` is what stays true of two such stores: the frames that both have
are in the same order with the same bindings, and the others bind the size alone and lie directly above
the topmost frame. Frames that nobody holds are let go when a function is called, so both sides have to
hold the same ones too (`Layout.held_iff`).

From there codes do alike of which one has the value of a size where the other one mentions it
(`sizing`), as long as nothing is bound next to the size.
-/

namespace Formula

namespace Store

/-- What a frame binds itself is what a name stands for there. -/
theorem get?_of_own? {s : Store} {frame : Nat} {name : String} {value : Value}
    (h : s.own? frame name = some value) : s.get? frame name = some value := by
  obtain ⟨rest, hchain⟩ : ∃ rest, s.chain frame = frame :: rest := by
    rw [chain]
    split <;> exact ⟨_, rfl⟩
  rw [get?, hchain, List.findSome?_cons, h]

/-- A store with a new frame that has bindings from the start. -/
def pushed (s : Store) (parent : Nat) (bindings : Record Value) : Store :=
  { s with frames := s.frames.push { bindings, parent := some parent } }

section Pushed

variable (s : Store) (parent : Nat) (bindings : Record Value)

theorem bind_pushed (name : String) (value : Value) :
    (s.pushed parent bindings).bind s.frames.size name value
      = s.pushed parent (Record.set name value bindings) := by
  rw [pushed, pushed, bind, modify, Store.mk.injEq]
  refine ⟨?_, rfl⟩
  apply Array.ext
  · simp
  · intro i hi hi'
    rw [Array.size_push] at hi'
    simp only [Array.getElem_modify, Array.getElem_push]
    split <;> split <;> first | omega | rfl

theorem bindAll_pushed (entries : List (String × Value)) :
    (s.pushed parent bindings).bindAll s.frames.size entries
      = s.pushed parent (entries.foldl (fun r entry => Record.set entry.1 entry.2 r) bindings) := by
  induction entries generalizing bindings with
  | nil => rfl
  | cons entry entries ih => exact (congrArg (bindAll · _ entries) (bind_pushed ..)).trans (ih _)

theorem parent?_pushed (frame : Nat) : (s.pushed parent bindings).parent? frame
    = if frame = s.frames.size then some parent else s.parent? frame := by
  rw [pushed, parent?, parent?, Array.getElem?_push]
  split <;> rfl

theorem bindings_pushed (frame : Nat) : (s.pushed parent bindings).bindings frame
    = if frame = s.frames.size then bindings else s.bindings frame := by
  rw [pushed, Store.bindings, Store.bindings, Array.getElem?_push]
  by_cases h : frame = s.frames.size
  · rw [if_pos h, if_pos h]
  · rw [if_neg h, if_neg h]

end Pushed

end Store

namespace Code

open Store
open Relation (ReflTransGen)

theorem withSized_eq (s : Store) (parent : Nat) (value : Value) :
    withSized s parent value = s.pushed parent [(Expr.endName, value)] :=
  s.bind_pushed parent [] Expr.endName value

theorem entered_eq (captured : Captured) (ctx : Context) (bindings : List (String × Value))
    (s : Store) :
    entered captured ctx bindings s = s.pushed (parentOf captured ctx s) (Record.ofList bindings) :=
  s.bindAll_pushed (parentOf captured ctx s) [] bindings

/-! ### Codes that mention sizes -/

/-- Where a size stands: nowhere, in an inner index, or where the other side has its value instead. -/
inductive SizeKind where
  | plain
  | inner
  | sized (value : Value)

/-- What mentions the size, and what has its value instead. A size is no function, whatever it is that
is called. -/
inductive Replaces (size : Value) : Code → Code → Prop
  | mention : Replaces size (.symbol Expr.endName) (.constant (.ok size))
  | call (h : ∀ f, size ≠ .function f) (text : String) (args args' : List Code) :
      Replaces size (.call Expr.endName args) (.callValue text (.constant (.ok size)) args')

/-- Codes are alike of which one has the value of a size where the other one mentions it. There
nothing is bound, since the size is bound in a frame that only one side has. -/
def sizes : Regime where
  Kind := SizeKind
  inner _ := .inner
  body := .plain
  Mentions
    | .inner, _ => True
    | .plain, name | .sized _, name => name ≠ Expr.endName
  Binds
    | .plain | .inner => True
    | .sized _ => False
  Leaf
    | .sized size, code, code' => Replaces size code code'
    | _, _, _ => False

/-! ### Frames of both sides -/

/-- What a frame of the one side is: a frame of the other side too, and what size it knows, or one
that only has a size. -/
inductive Slot where
  | shared (frame : Nat) (kind : SizeKind)
  | extra (value : Value)

/-- What a frame knows of the size. -/
def SizeKind.Knows : SizeKind → Option Value → Prop
  | .plain, _ => True
  | .inner, found => found.isSome
  | .sized v, found => found = some v

variable {top : Nat} {w w' : List Slot} {s s' : Store}

/-- A frame of the one side does the work of one of the other side: it is that frame, or it lies
directly above the topmost one. -/
inductive Leads (top : Nat) (w : List Slot) : SizeKind → Nat → Nat → Prop
  | shared {k : SizeKind} {frame frame' : Nat} (h : w[frame]? = some (.shared frame' k)) :
      Leads top w k frame frame'
  | extra {v : Value} {frame : Nat} (h : w[frame]? = some (.extra v)) :
      Leads top w (.sized v) frame top

/-- Two functions keep the same frame. -/
inductive Captures (w : List Slot) : Captured → Captured → Prop
  | root {k : SizeKind} {frame frame' : Nat} (h : w[frame]? = some (.shared frame' k)) :
      Captures w (.root frame) (.root frame')
  | frame {k : SizeKind} {frame frame' : Nat} (h : w[frame]? = some (.shared frame' k)) :
      Captures w (.frame frame) (.frame frame')

/-- Two stores have the same frames, apart from frames of the one that only have a size and lie above
the topmost frame. -/
structure Layout (top : Nat) (w : List Slot) (s s' : Store) : Prop where
  length : w.length = s.frames.size
  bounded : ∀ {frame frame' : Nat} {k : SizeKind}, w[frame]? = some (.shared frame' k) →
    frame' < s'.frames.size
  mono : ∀ {frame frame' other other' : Nat} {k l : SizeKind},
    w[frame]? = some (.shared frame' k) → w[other]? = some (.shared other' l) →
    (frame < other ↔ frame' < other')
  bindings : ∀ {frame frame' : Nat} {k : SizeKind}, w[frame]? = some (.shared frame' k) →
    s.bindings frame = s'.bindings frame'
  knows : ∀ {frame frame' : Nat} {k : SizeKind}, w[frame]? = some (.shared frame' k) →
    k.Knows (s.own? frame Expr.endName)
  root : ∀ {frame frame' : Nat} {k : SizeKind}, w[frame]? = some (.shared frame' k) →
    s'.parent? frame' = none → s.parent? frame = none
  parent : ∀ {frame frame' parent' : Nat} {k : SizeKind}, w[frame]? = some (.shared frame' k) →
    s'.parent? frame' = some parent' → parent' < frame' ∧
      ∃ parent l, s.parent? frame = some parent ∧ parent < frame ∧ Leads top w l parent parent'
  extra : ∀ {frame : Nat} {v : Value}, w[frame]? = some (.extra v) →
    s.bindings frame = [(Expr.endName, v)] ∧ v.functions = [] ∧
      ∃ parent k, s.parent? frame = some parent ∧ parent < frame ∧ w[parent]? = some (.shared top k)
  functions : s.functions.size = s'.functions.size
  closures : ∀ i : Nat, SimilarClosures sizes (Captures w) s.functions[i]? s'.functions[i]?

/-- The frames of one side do the work of those of the other side. -/
structure Cover (top : Nat) (w : List Slot) (frames frames' : List Nat) : Prop where
  left : ∀ frame ∈ frames, ∃ frame' ∈ frames', ∃ k, Leads top w k frame frame'
  right : ∀ frame' ∈ frames', ∃ frame ∈ frames, ∃ k, Leads top w k frame frame'

/-! ### More frames -/

theorem getElem?_of_later {x : Slot} {frame : Nat} (hw : w <+: w') (h : w[frame]? = some x) :
    w'[frame]? = some x := by
  obtain ⟨rest, rfl⟩ := hw
  rw [List.getElem?_append_left (List.getElem?_eq_some_iff.1 h).1, h]

theorem Leads.later {k : SizeKind} {frame frame' : Nat} (h : Leads top w k frame frame')
    (hw : w <+: w') : Leads top w' k frame frame' := by
  cases h with
  | shared h => exact .shared (getElem?_of_later hw h)
  | extra h => exact .extra (getElem?_of_later hw h)

theorem Cover.later {frames frames' : List Nat} (h : Cover top w frames frames') (hw : w <+: w') :
    Cover top w' frames frames' where
  left frame hframe := by
    obtain ⟨frame', hframe', k, hleads⟩ := h.left frame hframe
    exact ⟨frame', hframe', k, hleads.later hw⟩
  right frame' hframe' := by
    obtain ⟨frame, hframe, k, hleads⟩ := h.right frame' hframe'
    exact ⟨frame, hframe, k, hleads.later hw⟩

theorem Cover.cons {frames frames' : List Nat} (h : Cover top w frames frames') {k : SizeKind}
    {frame frame' : Nat} (hleads : Leads top w k frame frame') :
    Cover top w (frame :: frames) (frame' :: frames') where
  left := by
    refine List.forall_mem_cons.2 ⟨⟨frame', List.mem_cons_self, k, hleads⟩, fun other hother => ?_⟩
    obtain ⟨other', hother', found⟩ := h.left other hother
    exact ⟨other', List.mem_cons_of_mem _ hother', found⟩
  right := by
    refine List.forall_mem_cons.2 ⟨⟨frame, List.mem_cons_self, k, hleads⟩, fun other' hother' => ?_⟩
    obtain ⟨other, hother, found⟩ := h.right other' hother'
    exact ⟨other, List.mem_cons_of_mem _ hother, found⟩

theorem Captures.later {captured captured' : Captured} (h : Captures w captured captured')
    (hw : w <+: w') : Captures w' captured captured' := by
  cases h with
  | root h => exact .root (getElem?_of_later hw h)
  | frame h => exact .frame (getElem?_of_later hw h)

theorem SimilarClosures.later {closure closure' : Option Closure}
    (h : SimilarClosures sizes (Captures w) closure closure') (hw : w <+: w') :
    SimilarClosures sizes (Captures w') closure closure' := by
  cases h with
  | none => exact .none
  | host rule => exact .host rule
  | defined h hcaptured => exact .defined h (hcaptured.later hw)

/-- The frames that were there, and the new one. -/
theorem getElem?_push_eq_some {x y : Slot} {frame : Nat} (h : (w ++ [x])[frame]? = some y) :
    w[frame]? = some y ∨ frame = w.length ∧ x = y := by
  rw [List.getElem?_append] at h
  split at h
  · exact .inl h
  · rename_i hle
    by_cases hframe : frame = w.length
    · subst hframe
      simp only [Nat.sub_self, List.getElem?_cons_zero, Option.some.injEq] at h
      exact .inr ⟨rfl, h⟩
    · rw [List.getElem?_eq_none (by simp; omega)] at h
      cases h

theorem lt_length {x : Slot} {frame : Nat} (h : w[frame]? = some x) : frame < w.length :=
  (List.getElem?_eq_some_iff.1 h).1

theorem shared_inj {frame frame' other' : Nat} {k l : SizeKind} (h : w[frame]? = some (.shared frame' k))
    (h' : w[frame]? = some (.shared other' l)) : frame' = other' ∧ k = l :=
  Slot.shared.inj (Option.some.inj (h.symm.trans h'))

namespace Layout

variable (h : Layout top w s s')

include h

theorem lt {x : Slot} {frame : Nat} (hframe : w[frame]? = some x) : frame < s.frames.size :=
  h.length ▸ lt_length hframe

theorem injective {frame other frame' : Nat} {k l : SizeKind}
    (hframe : w[frame]? = some (.shared frame' k)) (hother : w[other]? = some (.shared frame' l)) :
    frame = other := by
  have := h.mono hframe hother
  have := h.mono hother hframe
  omega

theorem leads_lt {k : SizeKind} {frame frame' : Nat} (hleads : Leads top w k frame frame') :
    frame < s.frames.size ∧ frame' < s'.frames.size := by
  cases hleads with
  | shared hframe => exact ⟨h.lt hframe, h.bounded hframe⟩
  | extra hframe =>
      obtain ⟨_, _, parent, k, _, _, hparent⟩ := h.extra hframe
      exact ⟨h.lt hframe, h.bounded hparent⟩

/-- Both sides get a new frame. -/
theorem push {k l : SizeKind} {parent parent' : Nat} {bindings : Record Value}
    (hleads : Leads top w l parent parent') (hknows : k.Knows (bindings.get? Expr.endName)) :
    Layout top (w ++ [.shared s'.frames.size k]) (s.pushed parent bindings)
      (s'.pushed parent' bindings) := by
  obtain ⟨hparent, hparent'⟩ := h.leads_lt hleads
  have old : ∀ {x : Slot} {frame : Nat}, w[frame]? = some x → frame ≠ s.frames.size :=
    fun hx => Nat.ne_of_lt (h.lt hx)
  have old' : ∀ {frame frame' : Nat} {k}, w[frame]? = some (.shared frame' k) → frame' ≠ s'.frames.size :=
    fun hx => Nat.ne_of_lt (h.bounded hx)
  have later : w <+: w ++ [.shared s'.frames.size k] := List.prefix_append ..
  constructor
  case length => simp [pushed, h.length]
  case bounded =>
    intro frame frame' l hframe
    simp only [pushed, Array.size_push]
    obtain hframe | ⟨_, heq⟩ := getElem?_push_eq_some hframe
    · have := h.bounded hframe
      omega
    · cases heq
      omega
  case mono =>
    intro frame frame' l other other' l' hframe hother
    obtain hframe | ⟨rfl, heq⟩ := getElem?_push_eq_some hframe <;>
    obtain hother | ⟨rfl, heq'⟩ := getElem?_push_eq_some hother
    · exact h.mono hframe hother
    · cases heq'
      have := lt_length hframe
      have := h.bounded hframe
      omega
    · cases heq
      have := lt_length hother
      have := h.bounded hother
      omega
    · cases heq
      cases heq'
      omega
  case bindings =>
    intro frame frame' l hframe
    rw [bindings_pushed, bindings_pushed]
    obtain hframe | ⟨rfl, heq⟩ := getElem?_push_eq_some hframe
    · rw [if_neg (old hframe), if_neg (old' hframe), h.bindings hframe]
    · cases heq
      rw [if_pos h.length, if_pos rfl]
  case knows =>
    intro frame frame' l hframe
    rw [own?, bindings_pushed]
    obtain hframe | ⟨rfl, heq⟩ := getElem?_push_eq_some hframe
    · rw [if_neg (old hframe)]
      exact h.knows hframe
    · cases heq
      rwa [if_pos h.length]
  case root =>
    intro frame frame' l hframe
    rw [parent?_pushed, parent?_pushed]
    obtain hframe | ⟨rfl, heq⟩ := getElem?_push_eq_some hframe
    · rw [if_neg (old hframe), if_neg (old' hframe)]
      exact h.root hframe
    · cases heq
      rw [if_pos rfl]
      rintro ⟨⟩
  case parent =>
    intro frame frame' l p' hframe
    rw [parent?_pushed, parent?_pushed]
    obtain hframe | ⟨rfl, heq⟩ := getElem?_push_eq_some hframe
    · rw [if_neg (old hframe), if_neg (old' hframe)]
      intro hp'
      obtain ⟨hlt, p, l, hp, hlt', hleads⟩ := h.parent hframe hp'
      exact ⟨hlt, p, l, hp, hlt', hleads.later later⟩
    · cases heq
      rw [if_pos rfl, if_pos h.length]
      rintro ⟨⟩
      exact ⟨hparent', parent, _, rfl, h.length ▸ hparent, hleads.later later⟩
  case extra =>
    intro frame v hframe
    obtain hframe | ⟨_, heq⟩ := getElem?_push_eq_some hframe
    · obtain ⟨hbindings, hfunctions, p, l, hp, hlt, htop⟩ := h.extra hframe
      rw [bindings_pushed, if_neg (old hframe), parent?_pushed, if_neg (old hframe)]
      exact ⟨hbindings, hfunctions, p, l, hp, hlt, getElem?_of_later later htop⟩
    · cases heq
  case functions => exact h.functions
  case closures => exact fun i => (h.closures i).later later

/-- The one side gets a frame for a size, above the topmost frame. -/
theorem pushExtra {k : SizeKind} {parent : Nat} {v : Value}
    (hparent : w[parent]? = some (.shared top k)) (hv : v.functions = []) :
    Layout top (w ++ [.extra v]) (s.pushed parent [(Expr.endName, v)]) s' := by
  have old : ∀ {x : Slot} {frame : Nat}, w[frame]? = some x → frame ≠ s.frames.size :=
    fun hx => Nat.ne_of_lt (h.lt hx)
  have later : w <+: w ++ [.extra v] := List.prefix_append ..
  have shared : ∀ {frame frame' : Nat} {k}, (w ++ [.extra v])[frame]? = some (.shared frame' k) →
      w[frame]? = some (.shared frame' k) := by
    intro frame frame' k hframe
    obtain hframe | ⟨_, heq⟩ := getElem?_push_eq_some hframe
    · exact hframe
    · cases heq
  constructor
  case length => simp [pushed, h.length]
  case bounded => exact fun hframe => h.bounded (shared hframe)
  case mono => exact fun hframe hother => h.mono (shared hframe) (shared hother)
  case bindings =>
    intro frame frame' l hframe
    rw [bindings_pushed, if_neg (old (shared hframe)), h.bindings (shared hframe)]
  case knows =>
    intro frame frame' l hframe
    rw [own?, bindings_pushed, if_neg (old (shared hframe))]
    exact h.knows (shared hframe)
  case root =>
    intro frame frame' l hframe
    rw [parent?_pushed, if_neg (old (shared hframe))]
    exact h.root (shared hframe)
  case parent =>
    intro frame frame' l p' hframe hp'
    rw [parent?_pushed, if_neg (old (shared hframe))]
    obtain ⟨hlt, p, l, hp, hlt', hleads⟩ := h.parent (shared hframe) hp'
    exact ⟨hlt, p, l, hp, hlt', hleads.later later⟩
  case extra =>
    intro frame v' hframe
    rw [bindings_pushed, parent?_pushed]
    obtain hframe | ⟨rfl, heq⟩ := getElem?_push_eq_some hframe
    · obtain ⟨hbindings, hfunctions, p, l, hp, hlt, htop⟩ := h.extra hframe
      rw [if_neg (old hframe), if_neg (old hframe)]
      exact ⟨hbindings, hfunctions, p, l, hp, hlt, getElem?_of_later later htop⟩
    · cases heq
      rw [if_pos h.length, if_pos h.length]
      exact ⟨rfl, hv, parent, k, rfl, lt_length hparent, getElem?_of_later later hparent⟩
  case functions => exact h.functions
  case closures => exact fun i => (h.closures i).later later

/-! ### Names and functions -/

/-- Both sides bind a name in the same frame, which does not only have a size. -/
theorem bind {k : SizeKind} {frame frame' : Nat} (hframe : w[frame]? = some (.shared frame' k))
    (binds : sizes.Binds k) (name : String) (value : Value) :
    Layout top w (s.bind frame name value) (s'.bind frame' name value) := by
  have other : ∀ {other other' : Nat} {l}, w[other]? = some (.shared other' l) → other ≠ frame →
      other' ≠ frame' := by
    rintro other other' l hother hne rfl
    exact hne (h.injective hother hframe)
  constructor
  case length => simp [Store.bind, Store.modify, h.length]
  case bounded =>
    intro other other' l hother
    simpa [Store.bind, Store.modify] using h.bounded hother
  case mono => exact h.mono
  case bindings =>
    intro other' other'' l hother
    by_cases heq : other' = frame
    · subst heq
      obtain ⟨rfl, rfl⟩ := shared_inj hframe hother
      rw [Store.bind, Store.bind, bindings_modify_self (h.lt hframe),
        bindings_modify_self (h.bounded hframe), h.bindings hframe]
    · rw [Store.bind, Store.bind, bindings_modify_of_ne heq, bindings_modify_of_ne (other hother heq),
        h.bindings hother]
  case knows =>
    intro other' other'' l hother
    by_cases heq : other' = frame
    · subst heq
      obtain ⟨rfl, rfl⟩ := shared_inj hframe hother
      have hknows := h.knows hframe
      rw [own?, Store.bind, bindings_modify_self (h.lt hframe)]
      cases k with
      | plain => trivial
      | sized => exact binds.elim
      | inner =>
          by_cases hname : name = Expr.endName
          · subst hname
            simp [SizeKind.Knows]
          · rwa [Record.get?_set_of_ne (Ne.symm hname)]
    · rw [own?, Store.bind, bindings_modify_of_ne heq]
      exact h.knows hother
  case root =>
    intro other other' l hother
    simp only [Store.bind, parent?_modify]
    exact h.root hother
  case parent =>
    intro other other' p' l hother
    simp only [Store.bind, parent?_modify]
    exact h.parent hother
  case extra =>
    intro other v hother
    have hne : other ≠ frame := by
      rintro rfl
      rw [hframe] at hother
      cases hother
    rw [Store.bind, bindings_modify_of_ne hne, parent?_modify]
    exact h.extra hother
  case functions => exact h.functions
  case closures => exact h.closures

theorem captures {k : SizeKind} {frame frame' : Nat} (hframe : w[frame]? = some (.shared frame' k)) :
    Captures w (s.capture frame) (s'.capture frame') := by
  rw [capture, capture, isRoot, isRoot]
  cases hparent' : s'.parent? frame' with
  | none =>
      rw [h.root hframe hparent']
      exact .root hframe
  | some parent' =>
      obtain ⟨_, parent, _, hparent, _⟩ := h.parent hframe hparent'
      rw [hparent]
      exact .frame hframe

theorem newFunction {body body' : Code} {captured captured' : Captured}
    (hbody : Similar sizes .plain body body') (hcaptured : Captures w captured captured') :
    Layout top w (s.newFunction (.defined body captured)).2
      (s'.newFunction (.defined body' captured')).2 where
  length := h.length
  bounded := h.bounded
  mono := h.mono
  bindings := h.bindings
  knows := h.knows
  root := h.root
  parent := h.parent
  extra := h.extra
  functions := by simp [Store.newFunction, h.functions]
  closures i := by
    simp only [Store.newFunction, Array.getElem?_push, h.functions]
    split
    · exact .defined hbody hcaptured
    · exact h.closures i

/-- All names but that of the size have the same value on both sides. -/
theorem get?_eq {name : String} (hname : name ≠ Expr.endName) : ∀ {frame frame' : Nat} {k : SizeKind},
    Leads top w k frame frame' → s.get? frame name = s'.get? frame' name := by
  intro frame
  induction frame using Nat.strongRecOn with
  | ind frame ih =>
      intro frame' k hleads
      cases hleads with
      | shared hframe =>
          have hown : s.own? frame name = s'.own? frame' name := by rw [own?, own?, h.bindings hframe]
          rw [Store.get?, Store.get?, chain, chain]
          cases hparent' : s'.parent? frame' with
          | none =>
              rw [h.root hframe hparent']
              simp only [List.findSome?_cons, List.findSome?_nil, hown]
          | some parent' =>
              obtain ⟨hlt', parent, _, hparent, hlt, hleads⟩ := h.parent hframe hparent'
              have rest := ih parent hlt hleads
              rw [Store.get?, Store.get?] at rest
              simp only [hparent, if_pos hlt, if_pos hlt', List.findSome?_cons, hown, rest]
      | @extra v _ hframe =>
          obtain ⟨hbindings, _, parent, _, hparent, hlt, htop⟩ := h.extra hframe
          have hown : s.own? frame name = none := by
            rw [own?, hbindings]
            simp [Record.get?, Ne.symm hname]
          have rest := ih parent hlt (.shared htop)
          rw [Store.get?] at rest ⊢
          rw [chain]
          simp only [hparent, if_pos hlt, List.findSome?_cons, hown, rest]

/-! ### What is held -/

/-- A function holds the same frame on both sides, if it holds one. -/
theorem heldByFunction?_cases (id : Nat) :
    (s.heldByFunction? id = none ∧ s'.heldByFunction? id = none) ∨
      ∃ frame frame' k, s.heldByFunction? id = some frame ∧ s'.heldByFunction? id = some frame' ∧
        w[frame]? = some (.shared frame' k) := by
  have hclosure := h.closures id
  rw [heldByFunction?, heldByFunction?]
  revert hclosure
  generalize s.functions[id]? = closure
  generalize s'.functions[id]? = closure'
  rintro (_ | _ | ⟨_, _ | hframe⟩)
  · exact .inl ⟨rfl, rfl⟩
  · exact .inl ⟨rfl, rfl⟩
  · exact .inl ⟨rfl, rfl⟩
  · exact .inr ⟨_, _, _, rfl, rfl, hframe⟩

theorem held_value {v : Value} {frame : Nat} (hheld : frame ∈ s.heldByValue v) :
    ∃ frame' k, frame' ∈ s'.heldByValue v ∧ w[frame]? = some (.shared frame' k) := by
  obtain ⟨id, hid, hfunction⟩ := List.mem_filterMap.1 hheld
  obtain ⟨hnone, _⟩ | ⟨_, frame', k, hsome, hsome', hshared⟩ := h.heldByFunction?_cases id
  · rw [hnone] at hfunction
    cases hfunction
  · obtain rfl := Option.some.inj (hsome.symm.trans hfunction)
    exact ⟨frame', k, List.mem_filterMap.2 ⟨id, hid, hsome'⟩, hshared⟩

theorem held_value' {v : Value} {frame' : Nat} (hheld : frame' ∈ s'.heldByValue v) :
    ∃ frame k, frame ∈ s.heldByValue v ∧ w[frame]? = some (.shared frame' k) := by
  obtain ⟨id, hid, hfunction⟩ := List.mem_filterMap.1 hheld
  obtain ⟨_, hnone⟩ | ⟨frame, _, k, hsome, hsome', hshared⟩ := h.heldByFunction?_cases id
  · rw [hnone] at hfunction
    cases hfunction
  · obtain rfl := Option.some.inj (hsome'.symm.trans hfunction)
    exact ⟨frame, k, List.mem_filterMap.2 ⟨id, hid, hsome⟩, hshared⟩

/-- What a frame holds does the work of what is within reach of the frame whose work it does. -/
theorem holds {frame frame' other : Nat} {k : SizeKind} (hleads : Leads top w k frame frame')
    (hholds : s.Holds frame other) :
    ∃ other' l, Leads top w l other other' ∧ ReflTransGen s'.Holds frame' other' := by
  simp only [Holds, heldByFrame, List.mem_append, List.mem_flatMap, Option.mem_toList] at hholds
  cases hleads with
  | shared hframe =>
      rcases hholds with hparent | ⟨v, hv, hother⟩
      · cases hparent' : s'.parent? frame' with
        | none =>
            rw [h.root hframe hparent'] at hparent
            cases hparent
        | some parent' =>
            obtain ⟨_, parent, l, hparent₂, _, hleads⟩ := h.parent hframe hparent'
            obtain rfl := Option.some.inj (hparent₂.symm.trans hparent)
            exact ⟨parent', l, hleads, .single (holds_parent hparent')⟩
      · rw [h.bindings hframe] at hv
        obtain ⟨other', l, hother', hshared⟩ := h.held_value hother
        refine ⟨other', l, .shared hshared, .single ?_⟩
        simp only [Holds, heldByFrame, List.mem_append, List.mem_flatMap]
        exact .inr ⟨v, hv, hother'⟩
  | @extra v _ hframe =>
      obtain ⟨hbindings, hfunctions, parent, l, hparent₂, _, htop⟩ := h.extra hframe
      rcases hholds with hparent | ⟨v', hv', hother⟩
      · obtain rfl := Option.some.inj (hparent₂.symm.trans hparent)
        exact ⟨top, l, .shared htop, .refl⟩
      · rw [hbindings] at hv'
        obtain rfl : v' = v := by simpa [Record.values] using hv'
        simp [heldByValue, hfunctions] at hother

theorem holds' {frame frame' other' : Nat} {k : SizeKind} (hleads : Leads top w k frame frame')
    (hholds : s'.Holds frame' other') :
    ∃ other l, Leads top w l other other' ∧ ReflTransGen s.Holds frame other := by
  have shared : ∀ {frame : Nat} {k : SizeKind}, w[frame]? = some (.shared frame' k) →
      ∃ other l, Leads top w l other other' ∧ s.Holds frame other := by
    intro frame k hframe
    simp only [Holds, heldByFrame, List.mem_append, List.mem_flatMap, Option.mem_toList] at hholds
    rcases hholds with hparent' | ⟨v, hv, hother'⟩
    · obtain ⟨_, parent, l, hparent, _, hleads⟩ := h.parent hframe hparent'
      exact ⟨parent, l, hleads, holds_parent hparent⟩
    · obtain ⟨other, l, hother, hshared⟩ := h.held_value' hother'
      refine ⟨other, l, .shared hshared, ?_⟩
      rw [← h.bindings hframe] at hv
      simp only [Holds, heldByFrame, List.mem_append, List.mem_flatMap]
      exact .inr ⟨v, hv, hother⟩
  cases hleads with
  | shared hframe =>
      obtain ⟨other, l, hleads, hholds⟩ := shared hframe
      exact ⟨other, l, hleads, .single hholds⟩
  | extra hframe =>
      obtain ⟨_, _, parent, l, hparent, _, htop⟩ := h.extra hframe
      obtain ⟨other, l, hleads, hholds⟩ := shared htop
      exact ⟨other, l, hleads, .head (holds_parent hparent) (.single hholds)⟩

/-- What is within reach of a frame does the work of what is within reach of the other one. -/
theorem reaches {frame frame' other : Nat} {k : SizeKind} (hleads : Leads top w k frame frame')
    (path : ReflTransGen s.Holds frame other) :
    ∃ other' l, Leads top w l other other' ∧ ReflTransGen s'.Holds frame' other' := by
  induction path with
  | refl => exact ⟨frame', k, hleads, .refl⟩
  | tail _ hholds ih =>
      obtain ⟨other', l, hleads, path'⟩ := ih
      obtain ⟨next', l, hleads, more⟩ := h.holds hleads hholds
      exact ⟨next', l, hleads, path'.trans more⟩

theorem reaches' {frame frame' other' : Nat} {k : SizeKind} (hleads : Leads top w k frame frame')
    (path : ReflTransGen s'.Holds frame' other') :
    ∃ other l, Leads top w l other other' ∧ ReflTransGen s.Holds frame other := by
  induction path with
  | refl => exact ⟨frame, k, hleads, .refl⟩
  | tail _ hholds ih =>
      obtain ⟨other, l, hleads, path'⟩ := ih
      obtain ⟨next, l, hleads, more⟩ := h.holds' hleads hholds
      exact ⟨next, l, hleads, path'.trans more⟩

section

variable {frames frames' : List Nat} (hframes : Cover top w frames frames') (values : List Value)
include hframes

/-- The frames that are held from outside do the work of one another. -/
theorem roots {first : Nat} (hfirst : first ∈ s.roots frames values) :
    ∃ first' ∈ s'.roots frames' values, ∃ l, Leads top w l first first' := by
  rcases List.mem_append.1 hfirst with hfirst | hfirst
  · obtain ⟨first', hfirst', l, hleads⟩ := hframes.left first hfirst
    exact ⟨first', List.mem_append_left _ hfirst', l, hleads⟩
  · obtain ⟨v, hv, hfirst⟩ := List.mem_flatMap.1 hfirst
    obtain ⟨first', l, hfirst', hshared⟩ := h.held_value hfirst
    exact ⟨first', List.mem_append_right _ (List.mem_flatMap.2 ⟨v, hv, hfirst'⟩), l, .shared hshared⟩

theorem roots' {first' : Nat} (hfirst' : first' ∈ s'.roots frames' values) :
    ∃ first ∈ s.roots frames values, ∃ l, Leads top w l first first' := by
  rcases List.mem_append.1 hfirst' with hfirst' | hfirst'
  · obtain ⟨first, hfirst, l, hleads⟩ := hframes.right first' hfirst'
    exact ⟨first, List.mem_append_left _ hfirst, l, hleads⟩
  · obtain ⟨v, hv, hfirst'⟩ := List.mem_flatMap.1 hfirst'
    obtain ⟨first, l, hfirst, hshared⟩ := h.held_value' hfirst'
    exact ⟨first, List.mem_append_right _ (List.mem_flatMap.2 ⟨v, hv, hfirst⟩), l, .shared hshared⟩

/-- The frames that are held on both sides are the same. -/
theorem held_iff {frame frame' : Nat} {k : SizeKind} (hframe : w[frame]? = some (.shared frame' k)) :
    s.Held frames values frame ↔ s'.Held frames' values frame' := by
  constructor
  · rintro ⟨first, hfirst, path⟩
    obtain ⟨first', hfirst', _, hleads⟩ := h.roots hframes values hfirst
    obtain ⟨other', l, hleads, path'⟩ := h.reaches hleads path
    cases hleads with
    | shared hframe' =>
        obtain ⟨rfl, rfl⟩ := shared_inj hframe hframe'
        exact ⟨first', hfirst', path'⟩
    | extra hframe' => cases hframe.symm.trans hframe'
  · rintro ⟨first', hfirst', path'⟩
    obtain ⟨first, hfirst, _, hleads⟩ := h.roots' hframes values hfirst'
    obtain ⟨other, l, hleads, path⟩ := h.reaches' hleads path'
    cases hleads with
    | shared hother =>
        obtain rfl := h.injective hframe hother
        exact ⟨first, hfirst, path⟩
    | extra hother =>
        -- A frame that only has a size lies above the topmost one, and holds that.
        obtain ⟨_, _, parent, l, hparent, _, htop⟩ := h.extra hother
        obtain rfl := h.injective hframe htop
        exact ⟨first, hfirst, path.tail (holds_parent hparent)⟩

end

end Layout

/-! ### Contexts -/

/-- Two contexts work in the same frame, or in one that has the size and the topmost one, and hold the
same. -/
structure Abreast (top : Nat) (k : SizeKind) (w : List Slot) (ctx ctx' : Context) : Prop where
  frame : Leads top w k ctx.frame ctx'.frame
  frames : Cover top w ctx.frames ctx'.frames
  values : ctx.values = ctx'.values

namespace Abreast

variable {ctx ctx' : Context} {k : SizeKind}

theorem later (h : Abreast top k w ctx ctx') (hw : w <+: w') : Abreast top k w' ctx ctx' :=
  ⟨h.frame.later hw, h.frames.later hw, h.values⟩

theorem holding (h : Abreast top k w ctx ctx') (values : List Value) :
    Abreast top k w (ctx.holding values) (ctx'.holding values) :=
  ⟨h.frame, h.frames, congrArg (values ++ ·) h.values⟩

/-- The frames of calls lie above frames that are alike. -/
theorem parentOf (h : Abreast top k w ctx ctx') (hs : Layout top w s s')
    {captured captured' : Captured} (hcaptured : Captures w captured captured') :
    ∃ l, Leads top w l (parentOf captured ctx s) (Code.parentOf captured' ctx' s') := by
  cases hcaptured with
  | frame hframe => exact ⟨_, .shared hframe⟩
  | @root _ frame frame' hframe =>
      have hkeeps : ctx.Keeps s frame ↔ ctx'.Keeps s' frame' := by
        rw [Context.keeps_iff, Context.keeps_iff, h.values]
        exact hs.held_iff (h.frames.cons h.frame) _ hframe
      rw [Context.Keeps, Context.Keeps] at hkeeps
      by_cases halive : s.isAlive (s.chain ctx.frame ++ ctx.frames) ctx.values frame = true
      · rw [Code.parentOf, Code.parentOf, if_pos halive, if_pos (hkeeps.1 halive)]
        exact ⟨_, .shared hframe⟩
      · rw [Code.parentOf, Code.parentOf, if_neg halive, if_neg (mt hkeeps.2 halive)]
        exact ⟨k, h.frame⟩

end Abreast

/-- The frame that is about to be made. -/
theorem getElem?_append_new (hs : Layout top w s s') (x : Slot) :
    (w ++ [x])[s.frames.size]? = some x := by
  rw [← hs.length, List.getElem?_concat_length]

/-- Where a frame has the value of the size that the other side knows, it is found there. -/
theorem Leads.own?_end {v : Value} {frame frame' : Nat} (h : Leads top w (.sized v) frame frame')
    (hs : Layout top w s s') : s.own? frame Expr.endName = some v := by
  cases h with
  | shared hframe => exact hs.knows hframe
  | extra hframe =>
      rw [own?, (hs.extra hframe).1]
      rfl

/-- What may be mentioned has the same value on both sides. -/
theorem Abreast.get? {k : SizeKind} {ctx ctx' : Context} {name : String} (h : Abreast top k w ctx ctx')
    (hs : Layout top w s s') (mentions : sizes.Mentions k name) :
    s.get? ctx.frame name = s'.get? ctx'.frame name := by
  by_cases hname : name = Expr.endName
  · -- The size is only read where both sides have it in a frame of their own.
    subst hname
    cases k with
    | plain => exact absurd rfl mentions
    | sized v => exact absurd rfl mentions
    | inner =>
        obtain ⟨hframe, -, -⟩ := h
        cases hframe with
        | shared hframe =>
            obtain ⟨v, hv⟩ := Option.isSome_iff_exists.1 (hs.knows hframe)
            have hv' := hv
            rw [own?, hs.bindings hframe] at hv'
            rw [get?_of_own? hv, get?_of_own? hv']
  · exact hs.get?_eq hname h.frame

/-- Where a frame has the size, mentioning it and having its value instead come to the same. -/
theorem Replaces.run {σ : Type} (r : Resolver σ) (calling calling' : Calling σ) {size : Value}
    {code code' : Code} (h : Replaces size code code') {ctx ctx' : Context} {m m' : Machine σ}
    (found : m.store.get? ctx.frame Expr.endName = some size) :
    EndAlike Eq (run r calling code ctx m).1 (run r calling' code' ctx' m').1 ∧
      (run r calling code ctx m).2 = m ∧ (run r calling' code' ctx' m').2 = m' := by
  cases h with
  | mention =>
      have hread : Code.run r calling (.symbol Expr.endName) ctx m = (.ok size, m) := by
        rw [Code.run, valueOf, bind_apply, Evaluation.read, found]
        rfl
      rw [hread, Code.run]
      exact ⟨.ok rfl, rfl, rfl⟩
  | call hsize text args args' =>
      have hcall : Code.run r calling (.call Expr.endName args) ctx m
          = (.error (.notAFunction Expr.endName size.kind), m) := by
        rw [Code.run, bind_apply, Evaluation.read, found]
        cases size with
        | function f => exact absurd rfl (hsize f)
        | _ => rfl
      have hvalue : Code.run r calling' (.callValue text (.constant (.ok size)) args') ctx' m'
          = (.error (.notAFunction text size.kind), m') := by
        rw [Code.run, Code.run, bind_apply]
        cases size with
        | function f => exact absurd rfl (hsize f)
        | _ => rfl
      rw [hcall, hvalue]
      exact ⟨.error (.notAFunction _ _ _), rfl, rfl⟩

/-- Codes do alike of which one has the value of a size where the other one mentions it. -/
def sizing (top : Nat) : Simulation sizes where
  World := List Slot
  Later w w' := w <+: w'
  refl _ := List.prefix_rfl
  trans h h' := h.trans h'
  Stores := Layout top
  Alike := Abreast top
  Captures := Captures
  later h hw := h.later hw
  holding values h := h.holding values
  closure f h := h.closures f.id
  get hs h mentions := h.get? hs mentions
  bind {k _ _ _ ctx ctx'} name value hs h binds := by
    obtain ⟨hframe | _, -, -⟩ := h
    · exact hs.bind hframe binds name value
    · exact binds.elim
  newFunction hs h binds hbody := by
    obtain ⟨hframe | _, -, -⟩ := h
    · exact ⟨hs.functions, hs.newFunction hbody (hs.captures hframe)⟩
    · exact binds.elim
  sized {k w s s' ctx ctx'} value hs h := by
    refine ⟨_, List.prefix_append .., ?_, .shared (getElem?_append_new hs _),
      h.frames.later (List.prefix_append ..), h.values⟩
    rw [withSized_eq, withSized_eq]
    exact hs.push h.frame rfl
  enter {k w s s' ctx ctx' captured captured'} bindings hs h hcaptured := by
    obtain ⟨l, hparent⟩ := h.parentOf hs hcaptured
    refine ⟨_, List.prefix_append .., ?_, .shared (getElem?_append_new hs _),
      (h.frames.cons h.frame).later (List.prefix_append ..), h.values⟩
    rw [entered_eq, entered_eq]
    exact hs.push hparent trivial
  leaf {k _ _ _ _ _ _} r calling calling' _ _ hleaf hs h := by
    cases k with
    | plain => exact hleaf.elim
    | inner => exact hleaf.elim
    | sized size => exact Replaces.run r calling calling' hleaf (get?_of_own? (h.frame.own?_end hs))

end Code

end Formula
