import Formula.Store

/-!
Which frames are still within reach.

A frame is alive as long as somebody holds it: by its number, as the parent of a frame that is alive,
or through a function that was defined in it and is bound in a frame that is alive. Functions that were
defined in a root do not hold it, so that a root may go while functions of it stay.
-/

namespace Formula.Store

/-- The frame that a function holds. -/
def heldByFunction? (s : Store) (id : Nat) : Option Nat :=
  match s.functions[id]? with
  | some (.defined _ (.frame frame)) => some frame
  | _ => none

/-- The frames that a value holds. -/
def heldByValue (s : Store) (v : Value) : List Nat :=
  v.functions.filterMap s.heldByFunction?

/-- The frames that a frame holds. -/
def heldByFrame (s : Store) (frame : Nat) : List Nat :=
  (s.parent? frame).toList ++ (s.bindings frame).values.flatMap s.heldByValue

/-- What is held by the `fresh` frames and by what these hold, up to `n` steps away, added to the
frames already `seen`. -/
def reach (s : Store) : Nat → List Nat → List Nat → List Nat
  | 0, seen, _ => seen
  | n + 1, seen, fresh =>
    match (fresh.flatMap s.heldByFrame).eraseDups.filter fun f => !seen.contains f with
    | [] => seen
    | new => s.reach n (seen ++ new) new

/-- Whether a frame is alive while some frames and values are held. -/
def isAlive (s : Store) (frames : List Nat) (values : List Value) (frame : Nat) : Bool :=
  frames.contains frame ||
    let held := frames ++ values.flatMap s.heldByValue
    (s.reach s.frames.size held held).contains frame

end Formula.Store
