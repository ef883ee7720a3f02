/-!
Reading from the front of a list, in steps.

`repeatedly` is the only loop of the readers of this library. It ends because every step that goes on
has read something, so that there are never more steps than items left to read.
-/

namespace Formula.Reading

variable {m : Type → Type} [Monad m] {α τ : Type}

/-- Takes a step from `a`, and goes on from its result until a step says that it is done, for at most
one step for each item. -/
def iterate (step : α → m (ForInStep α)) : List τ → α → m α
  | [], a => pure a
  | _ :: items, a => do
    match ← step a with
    | .done b => pure b
    | .yield b => iterate step items b

/-- Takes steps until one says that it is done. Each step that goes on is to read at least one item of
the input. -/
def repeatedly (a : α) (step : α → StateT (List τ) m (ForInStep α)) : StateT (List τ) m α := do
  iterate step (← get) a

end Formula.Reading
