import Formula.Store

/-!
Functions of the host, which do not look at the store.
-/

namespace Formula

/-- The functions of the host, by name. -/
def hostRules : List (String × (List Value → Except EvalError Value)) := [
  ("count", fun args => .ok (.number (Float.ofNat args.length))),
  ("first", fun args =>
    match args with
    | v :: _ => .ok v
    | [] => .error (.wrongArgumentCount "first" 1 0)),
  ("fail", fun args =>
    .error (.dispatch (.failed "fail" (toString args.length ++ " args"))))]

/-- A new function of the host. -/
def Store.newHostFunction? (name : String) (s : Store) : Option (Value × Store) :=
  (Record.get? name hostRules).map fun rule =>
    let (id, s) := s.newFunction (.host rule)
    (.function { id, name, params := none }, s)

end Formula
