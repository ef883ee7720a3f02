import Formula.Value

/-!
Numbers at equal distances, from a first one up to, or down to, a last one.
-/

namespace Formula

/-- Why there is no progression. -/
inductive ProgressionError where
  | zeroStep
  | tooLong (start stop step : Float)

/-- The text of an error. -/
def ProgressionError.message : ProgressionError → String
  | .zeroStep => "step must not be zero"
  | .tooLong start stop step =>
    let write := Value.reasonFormat.write
    "range " ++ write start ++ ":" ++ write step ++ ":" ++ write stop ++ " has too many elements"

/-- The numbers `start`, `start + step`, … as far as `stop`. The last one may miss `stop` by a ten
billionth of a step, so that rounding does not cost an element. There are at most ten million. -/
def progression (start stop step : Float) : Except ProgressionError (List Float) :=
  if step == 0.0 then .error .zeroStep
  else
    let steps := ((stop - start) / step + 1e-10).floor
    if steps.isNaN || steps < 0.0 then .ok []
    else if steps ≥ 1e7 then .error (.tooLong start stop step)
    else .ok ((List.range (steps.toUInt64.toNat + 1)).map fun i =>
      start + Float.ofNat i * step)

end Formula
