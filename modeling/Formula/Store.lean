import Formula.Code

/-!
The store: frames of bindings, and the functions that values refer to.

A frame binds names and may have a parent, which is older. A name is looked up in a frame and then in
its ancestors (`Store.get?`), but bound and unbound in the frame alone. Frames and functions are known
by their numbers and never leave the store; which frames are still within reach is told by
`Formula.Store.isAlive`.
-/

namespace Formula

/-- Names and their values. -/
structure Frame where
  bindings : Record Value := []
  parent : Option Nat := none

/-- The frame in which a function was defined. -/
inductive Captured where
  /-- A frame without parent, which the function does not keep. -/
  | root (frame : Nat)
  /-- A frame of a call, which the function keeps. -/
  | frame (frame : Nat)
deriving DecidableEq, Repr

/-- What a function does. -/
inductive Closure where
  /-- A function of the host. -/
  | host (rule : List Value → Except EvalError Value)
  /-- The body of a definition. -/
  | defined (body : Code) (captured : Captured)

/-- Frames and functions, by number. -/
structure Store where
  frames : Array Frame := #[]
  functions : Array Closure := #[]

namespace Store

/-- A new frame. -/
def newFrame (parent : Option Nat) (s : Store) : Nat × Store :=
  (s.frames.size, { s with frames := s.frames.push { parent } })

/-- A new function. -/
def newFunction (closure : Closure) (s : Store) : Nat × Store :=
  (s.functions.size, { s with functions := s.functions.push closure })

/-- The bindings of a frame. -/
def bindings (s : Store) (frame : Nat) : Record Value :=
  match s.frames[frame]? with
  | some f => f.bindings
  | none => []

/-- The parent of a frame. -/
def parent? (s : Store) (frame : Nat) : Option Nat :=
  s.frames[frame]?.bind (·.parent)

/-- Whether a frame has no parent. -/
def isRoot (s : Store) (frame : Nat) : Bool :=
  (s.parent? frame).isNone

/-- A frame and its ancestors, from the frame on. -/
def chain (s : Store) (frame : Nat) : List Nat :=
  match s.parent? frame with
  | some parent => frame :: if parent < frame then s.chain parent else []
  | none => [frame]
termination_by frame

/-- The value of a name in a frame alone. -/
def own? (s : Store) (frame : Nat) (name : String) : Option Value :=
  (s.bindings frame).get? name

/-- The value of a name, from the nearest frame that binds it. -/
def get? (s : Store) (frame : Nat) (name : String) : Option Value :=
  (s.chain frame).findSome? fun f => s.own? f name

/-- Whether a name is bound in a frame or an ancestor of it. -/
def has (s : Store) (frame : Nat) (name : String) : Bool :=
  (s.get? frame name).isSome

/-- Changes the bindings of a frame. -/
def modify (s : Store) (frame : Nat) (change : Record Value → Record Value) : Store :=
  { s with frames := s.frames.modify frame fun f => { f with bindings := change f.bindings } }

/-- Binds a name in a frame. -/
def bind (s : Store) (frame : Nat) (name : String) (value : Value) : Store :=
  s.modify frame (Record.set name value)

/-- Unbinds a name in a frame. -/
def unbind (s : Store) (frame : Nat) (name : String) : Store :=
  s.modify frame (Record.erase name)

/-- Unbinds all names of a frame. -/
def clear (s : Store) (frame : Nat) : Store :=
  s.modify frame fun _ => []

/-- Binds names in a frame, one after another. -/
def bindAll (s : Store) (frame : Nat) (bindings : List (String × Value)) : Store :=
  bindings.foldl (fun s (name, value) => s.bind frame name value) s

/-- The names that a frame binds, in order. -/
def names (s : Store) (frame : Nat) : List String :=
  (s.bindings frame).keys

/-- What a function does. -/
def closure? (s : Store) (f : Function) : Option Closure :=
  s.functions[f.id]?

/-- The frame from which a definition looks names up. -/
def capture (s : Store) (frame : Nat) : Captured :=
  if s.isRoot frame then .root frame else .frame frame

/-! ### What operations leave as it was -/

/-- Changing a frame leaves the bindings of the others. -/
theorem bindings_modify_of_ne {frame other : Nat} (h : other ≠ frame)
    (s : Store) (change : Record Value → Record Value) :
    (s.modify frame change).bindings other = s.bindings other := by
  simp [bindings, modify, Array.getElem?_modify, Ne.symm h]

/-- Changing a frame changes its bindings. -/
theorem bindings_modify_self {s : Store} {frame : Nat} (h : frame < s.frames.size)
    (change : Record Value → Record Value) :
    (s.modify frame change).bindings frame = change (s.bindings frame) := by
  simp [bindings, modify, Array.getElem_modify, h]

/-- Changing a frame leaves all parents. -/
@[simp] theorem parent?_modify (s : Store) (frame : Nat) (change : Record Value → Record Value)
    (other : Nat) : (s.modify frame change).parent? other = s.parent? other := by
  simp only [parent?, modify, Array.getElem?_modify]
  split
  · subst_vars
    cases s.frames[other]? <;> rfl
  · rfl

/-- A new frame leaves the bindings of all frames; its own are none. -/
@[simp] theorem bindings_newFrame (s : Store) (parent : Option Nat) (frame : Nat) :
    (s.newFrame parent).2.bindings frame = s.bindings frame := by
  simp only [bindings, newFrame, Array.getElem?_push]
  by_cases h : frame = s.frames.size
  · simp [h]
  · rw [if_neg h]

/-- A new frame leaves the parents of the older ones. -/
theorem parent?_newFrame_of_lt {s : Store} {frame : Nat} (h : frame < s.frames.size)
    (parent : Option Nat) : (s.newFrame parent).2.parent? frame = s.parent? frame := by
  simp [parent?, newFrame, Array.getElem?_push, Nat.ne_of_lt h]

/-- A name that is bound in a frame has its value there. -/
theorem get?_bind {s : Store} {frame : Nat} (h : frame < s.frames.size) (name : String)
    (value : Value) : (s.bind frame name value).get? frame name = some value := by
  have : ∃ rest, (s.bind frame name value).chain frame = frame :: rest := by
    rw [chain]
    split <;> exact ⟨_, rfl⟩
  obtain ⟨rest, chained⟩ := this
  rw [get?, chained, List.findSome?_cons]
  simp [own?, bind, bindings_modify_self h]

end Store

end Formula
