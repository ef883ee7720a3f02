/-!
Quoted text: a string between double quotes, with a backslash before what cannot stand there as it
is. This is the string grammar of JSON; string literals of the expression language share it.

`quote` writes the shortest escapes and `unquote` reads every escape of the grammar, `\uXXXX` and its
surrogate pairs included.
-/

namespace Formula.Text

/-- The digit of a number below sixteen, in lower case. -/
def hexDigit (n : Nat) : Char :=
  if n < 10 then Char.ofNat (48 + n) else Char.ofNat (87 + n)

/-- The value of a hexadecimal digit of either case. -/
def hexValue? (c : Char) : Option Nat :=
  if '0' ≤ c ∧ c ≤ '9' then some (c.toNat - 48)
  else if 'a' ≤ c ∧ c ≤ 'f' then some (c.toNat - 87)
  else if 'A' ≤ c ∧ c ≤ 'F' then some (c.toNat - 55)
  else none

/-- The written form of one character inside quotes: quotes, backslashes and control characters are
escaped, all others stand for themselves. -/
def escapeChar (c : Char) : List Char :=
  if c = '"' then ['\\', '"']
  else if c = '\\' then ['\\', '\\']
  else if c.toNat = 8 then ['\\', 'b']
  else if c.toNat = 9 then ['\\', 't']
  else if c.toNat = 10 then ['\\', 'n']
  else if c.toNat = 12 then ['\\', 'f']
  else if c.toNat = 13 then ['\\', 'r']
  else if c.toNat < 32 then ['\\', 'u', '0', '0', hexDigit (c.toNat / 16), hexDigit (c.toNat % 16)]
  else [c]

/-- The written form of a text inside quotes. -/
def escape (s : List Char) : List Char :=
  s.flatMap escapeChar

/-- A text between quotes. -/
def quote (s : String) : String :=
  String.ofList ('"' :: escape s.toList ++ ['"'])

/-- The character that a backslash and one more character stand for. -/
def simpleEscape? : Char → Option Char
  | '"' => some '"'
  | '\\' => some '\\'
  | '/' => some '/'
  | 'b' => some (Char.ofNat 8)
  | 'f' => some (Char.ofNat 12)
  | 'n' => some (Char.ofNat 10)
  | 'r' => some (Char.ofNat 13)
  | 't' => some (Char.ofNat 9)
  | _ => none

/-- The number written by four hexadecimal digits at the front. -/
def codeUnit? : List Char → Option Nat
  | a :: b :: c :: d :: _ => do
    let a ← hexValue? a
    let b ← hexValue? b
    let c ← hexValue? c
    let d ← hexValue? d
    some (((a * 16 + b) * 16 + c) * 16 + d)
  | _ => none

/-- The character written by `\u` escapes, from behind the first `u`, and the number of characters
that the escape takes up from there. Surrogates stand only in pairs. -/
def unicodeEscape? (cs : List Char) : Option (Char × Nat) := do
  let lead ← codeUnit? cs
  if lead < 0xD800 ∨ 0xE000 ≤ lead then some (Char.ofNat lead, 4)
  else if 0xDC00 ≤ lead then none
  else match cs.drop 4 with
    | '\\' :: 'u' :: cs => do
      let trail ← codeUnit? cs
      if 0xDC00 ≤ trail ∧ trail < 0xE000 then
        some (Char.ofNat (0x10000 + (lead - 0xD800) * 0x400 + (trail - 0xDC00)), 10)
      else none
    | _ => none

/-- The character that `c`, with `cs` behind it, stands for inside quotes, and how many characters
of `cs` belong to it. A quote or a control character does not stand for anything. -/
def unescapeChar? (c : Char) (cs : List Char) : Option (Char × Nat) :=
  if c = '\\' then
    match cs with
    | 'u' :: cs => (unicodeEscape? cs).map fun (c, n) => (c, n + 1)
    | e :: _ => (simpleEscape? e).map fun c => (c, 1)
    | [] => none
  else if c = '"' ∨ c.toNat < 32 then none
  else some (c, 0)

/-- Reads up to the closing quote, from behind the opening one; also gives what follows it. -/
def unquote? : List Char → Option (List Char × List Char)
  | [] => none
  | c :: cs =>
    if c = '"' then some ([], cs)
    else match unescapeChar? c cs with
      | none => none
      | some (d, n) => (unquote? (cs.drop n)).map fun (s, rest) => (d :: s, rest)
termination_by cs => cs.length
decreasing_by simp only [List.length_drop, List.length_cons]; omega

/-- The text whose written form inside quotes is given. -/
def unescape? (raw : String) : Option String :=
  match unquote? (raw.toList ++ ['"']) with
  | some (s, []) => some (String.ofList s)
  | _ => none

end Formula.Text
