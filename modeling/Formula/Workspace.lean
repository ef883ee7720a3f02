import Formula.Catalog.Standard
import Formula.Session

/-!
Workspaces: named handles on the frames of one store.

A handle keeps its frame alive, and a weak handle does not. Several handles may be on the same frame.
-/

namespace Formula

/-- A machine with the standard operations, and handles on its frames. -/
structure Workspace where
  machine : Machine Unit
  handles : Record Nat := []
  weakHandles : Record Nat := []

namespace Workspace

/-- The store. -/
def store (w : Workspace) : Store :=
  w.machine.store

/-- Changes the store. -/
def withStore (w : Workspace) (store : Store) : Workspace :=
  { w with machine := { w.machine with store } }

/-- The frame of a handle. -/
def frame? (w : Workspace) (handle : String) : Option Nat :=
  w.handles.get? handle

/-- A handle on a new frame with the given bindings. -/
def newFrame (w : Workspace) (handle : String) (parent : Option Nat)
    (bindings : List (String × Value)) : Workspace :=
  let (frame, store) := w.store.newFrame parent
  { w.withStore (store.bindAll frame bindings) with handles := w.handles.set handle frame }

/-- Another handle on a frame. -/
def addHandle (w : Workspace) (handle : String) (frame : Nat) : Workspace :=
  { w with handles := w.handles.set handle frame }

/-- A weak handle on a frame. -/
def addWeakHandle (w : Workspace) (handle : String) (frame : Nat) : Workspace :=
  { w with weakHandles := w.weakHandles.set handle frame }

/-- Gives a handle up, and tells whether there was one. -/
def drop (w : Workspace) (handle : String) : Bool × Workspace :=
  ((w.frame? handle).isSome, { w with handles := w.handles.erase handle })

/-- The frame of a weak handle, if it is still alive. -/
def upgrade (w : Workspace) (handle : String) : Option Nat :=
  (w.weakHandles.get? handle).filter fun frame => w.store.isAlive w.handles.values [] frame

/-- Binds a name in a frame, and tells what it was bound to there. -/
def set (w : Workspace) (frame : Nat) (name : String) (value : Value) :
    Option Value × Workspace :=
  (w.store.own? frame name, w.withStore (w.store.bind frame name value))

/-- Unbinds a name in a frame, and tells what it was bound to there. -/
def remove (w : Workspace) (frame : Nat) (name : String) : Option Value × Workspace :=
  (w.store.own? frame name, w.withStore (w.store.unbind frame name))

/-- Binds a name in a frame to its value in another one, and tells what it was bound to there; does
nothing if it has no value. -/
def copy (w : Workspace) (source target : Nat) (name : String) : Option Value × Workspace :=
  match w.store.get? source name with
  | some v => w.set target name v
  | none => (none, w)

/-- The context for evaluations in a frame: all handles are held. -/
def context (w : Workspace) (frame : Nat) : Context :=
  { frame, frames := w.handles.values }

/-- Evaluates a source text in a frame. -/
def eval (w : Workspace) (frame : Nat) (source : String) : Except Failure Value × Workspace :=
  let (result, machine) :=
    w.machine.evaluateText Catalog.standard.resolver source (w.context frame)
  (result, { w with machine })

/-- Calls the function that a name is bound to; none if it is bound to no function. -/
def call (w : Workspace) (frame : Nat) (name : String) (args : List Value) :
    Option (Except EvalError Value) × Workspace :=
  match w.store.get? frame name with
  | some (.function f) =>
    let (result, machine) :=
      (f.call Catalog.standard.resolver args (w.context frame)).run w.machine
    (some result, { w with machine })
  | _ => (none, w)

end Workspace

end Formula
