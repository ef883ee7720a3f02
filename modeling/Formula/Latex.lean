/-!
LaTeX markup for text, names and well-known functions.

`escape` makes any text safe inside a group. A function template is markup with numbered
placeholders in braces, and `fill` puts arguments in their places in one pass, so that nothing in an
argument is taken for a placeholder.
-/

namespace Formula.Latex

/-- The markup of one character of a text. -/
def escapeChar (c : Char) : List Char :=
  if c = '\\' then "\\textbackslash\x7b\x7d".toList
  else if c = '~' then "\\textasciitilde\x7b\x7d".toList
  else if c = '^' then "\\textasciicircum\x7b\x7d".toList
  else if ['#', '$', '%', '&', '_', '\x7b', '\x7d'].contains c then ['\\', c]
  else [c]

/-- The markup of a text. -/
def escape (s : String) : String :=
  String.ofList (s.toList.flatMap escapeChar)

/-- A text in braces. -/
def group (s : String) : String :=
  "\x7b" ++ s ++ "\x7d"

/-- A command with one argument. -/
def command (name argument : String) : String :=
  "\\" ++ name ++ group argument

/-- A text in parentheses that grow with it. -/
def parens (s : String) : String :=
  "\\left(" ++ s ++ "\\right)"

/-- The names that are commands for the letters they name. -/
def greek : List String :=
  ["alpha", "beta", "gamma", "delta", "epsilon", "varepsilon", "zeta", "eta", "theta", "vartheta",
    "iota", "kappa", "varkappa", "lambda", "mu", "nu", "xi", "pi", "varpi", "rho", "varrho", "sigma",
    "varsigma", "tau", "upsilon", "phi", "varphi", "chi", "psi", "omega", "Gamma", "Delta", "Theta",
    "Lambda", "Xi", "Pi", "Sigma", "Phi", "Omega"]

/-- The names that have a glyph of their own. -/
def glyph? : String → Option String
  | "Infinity" | "inf" => some "\\infty"
  | "NaN" => some "\\mathrm\x7bNaN\x7d"
  | "true" => some "\\mathrm\x7bTrue\x7d"
  | "false" => some "\\mathrm\x7bFalse\x7d"
  | "null" => some "\\mathrm\x7bnull\x7d"
  | "undefined" => some "\\mathbf\x7b?\x7d"
  | "end" => some "\\mathrm\x7bend\x7d"
  | _ => none

/-- The markup of a name that stands for a letter or has a glyph. -/
def word? (name : String) : Option String :=
  if greek.contains name then some ("\\" ++ name) else glyph? name

/-- The markup of a name that has no subscript. -/
def plainName (name : String) : String :=
  match word? name with
  | some s => s
  | none => if name.toList.any (fun c => c = '$' ∨ c = '_') then escape name else name

/-- The markup of a name given by its characters: what follows the first underscore is a subscript,
unless nothing precedes it. -/
def nameOfChars (cs : List Char) : String :=
  let name := String.ofList cs
  let base := cs.takeWhile (· != '_')
  match word? name, _h : cs.dropWhile (· != '_') with
  | none, _ :: sub =>
    if base = [] then plainName name
    else plainName (String.ofList base) ++ "_" ++ group (nameOfChars sub)
  | _, _ => plainName name
termination_by cs.length
decreasing_by
  have : (cs.dropWhile (· != '_')).length ≤ cs.length := (List.dropWhile_sublist _).length_le
  rw [_h] at this
  simp only [List.length_cons] at this
  omega

/-- The markup of a name. -/
def symbol (name : String) : String :=
  nameOfChars name.toList

/-- The placeholder of an argument. -/
def place (i : Nat) : String :=
  group (toString i)

/-- The functions whose name is a command of its own. -/
def namedFunctions : List String :=
  ["sin", "cos", "tan", "cot", "sec", "csc", "sinh", "cosh", "tanh"]

/-- The template of a call of a well-known function with a number of arguments. -/
def function? (name : String) (args : Nat) : Option String :=
  match name, args with
  | "sqrt", 1 => some ("\\sqrt" ++ group (place 0))
  | "nthRoot", 2 => some ("\\sqrt[" ++ place 1 ++ "]" ++ group (place 0))
  | "abs", 1 => some ("\\left|" ++ place 0 ++ "\\right|")
  | "ceil", 1 => some ("\\left\\lceil" ++ place 0 ++ "\\right\\rceil")
  | "floor", 1 => some ("\\left\\lfloor" ++ place 0 ++ "\\right\\rfloor")
  | "exp", 1 => some ("e^" ++ group (place 0))
  | "log", 1 => some ("\\ln" ++ parens (place 0))
  | "log", 2 => some ("\\log_" ++ group (place 1) ++ parens (place 0))
  | "log10", 1 => some ("\\log_\x7b10\x7d" ++ parens (place 0))
  | "max", _ => some ("\\max" ++ parens (group "args"))
  | "min", _ => some ("\\min" ++ parens (group "args"))
  | _, 1 => if namedFunctions.contains name then some ("\\" ++ name ++ parens (place 0)) else none
  | _, _ => none

/-- What a placeholder stands for, by what it has in its braces. -/
def argument? (args : List String) (inner : List Char) : Option String :=
  if inner = "args".toList then some (",".intercalate args)
  else if inner ≠ [] ∧ inner.all Char.isDigit then
    some (args.getD (inner.foldl (fun n c => 10 * n + (c.toNat - 48)) 0) "")
  else none

/-- The characters of a template with its placeholders filled. A brace that opens no placeholder is
kept. -/
def fillChars (args : List String) : List Char → List Char
  | [] => []
  | c :: cs =>
    let inner := cs.takeWhile (· != '\x7d')
    if c = '\x7b' ∧ inner.length < cs.length then
      match argument? args inner with
      | some arg => arg.toList ++ fillChars args (cs.drop (inner.length + 1))
      | none => c :: fillChars args cs
    else
      c :: fillChars args cs
termination_by cs => cs.length
decreasing_by all_goals simp only [List.length_drop, List.length_cons]; omega

/-- A template with its placeholders filled. -/
def fill (template : String) (args : List String) : String :=
  String.ofList (fillChars args template.toList)

end Formula.Latex
