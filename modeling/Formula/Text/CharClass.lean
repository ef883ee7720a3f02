import Formula.Text.Bounds

/-!
Classes of characters: what may stand in a name, and what can be shown as it is. ASCII is decided
directly; all other characters are looked up in the tables of `Formula.Text.Bounds`.
-/

namespace Formula.Text

/-- Letters of any script. -/
def isLetter (c : Char) : Bool :=
  if c.toNat < 128 then c.isAlpha else Bounds.holds c.toNat Bounds.letter

/-- Decimal digits of any script. -/
def isDecimalDigit (c : Char) : Bool :=
  if c.toNat < 128 then c.isDigit else Bounds.holds c.toNat Bounds.decimalDigit

/-- Letters, and the numerals and marks that count as letters in words. -/
def isAlphabetic (c : Char) : Bool :=
  isLetter c || Bounds.holds c.toNat Bounds.otherAlphabetic

/-- Marks that combine with the character before them. -/
def isCombining (c : Char) : Bool :=
  Bounds.holds c.toNat Bounds.combining

/-- Characters that are visible, and the space. -/
def isPrintable (c : Char) : Bool :=
  if c.toNat < 128 then 32 ≤ c.toNat && c.toNat < 127 else Bounds.holds c.toNat Bounds.printable

/-- Characters a name may start with. -/
def isNameStart (c : Char) : Bool :=
  isLetter c || c == '_' || c == '$'

/-- Characters a name may go on with. -/
def isNamePart (c : Char) : Bool :=
  isLetter c || isDecimalDigit c || c == '_' || c == '$'

end Formula.Text
