import Formula.Proofs.Lines
import Formula.Proofs.Rendering.Faithful

/-!
Which `?` a `:` belongs to.

A choice is a name, or a conditional that decides by a name between two choices. Its text has no
parentheses, so a `:` should belong to the nearest `?` in front of it that still lacks one. It does as
long as only what stands behind a `:` decides further (`IsLadder`): once a conditional between `?` and
`:` has its own `:`, nothing says any more that the `?` around it lacks one, and the next `:` is read as
that of a range.
-/

namespace Formula

/-- A name that stands for itself. -/
structure PlainName where
  text : String
  lexical : Token.isIdentifier text = true
  plain : Grammar.ofName text = .symbol text

/-- A name, or a conditional that decides by a name between two choices. -/
inductive Choice where
  | name (x : PlainName)
  | ask (x : PlainName) (yes no : Choice)

namespace Choice

open Grammar
open Expr (Legible parse parse_of_tells)

/-- The tree of a choice. -/
def tree : Choice → Expr
  | name x => .symbol x.text
  | ask x yes no => .conditional (.symbol x.text) yes.tree no.tree

/-- The text of a choice, without parentheses. -/
def text : Choice → String
  | name x => x.text
  | ask x yes no => x.text ++ " ? " ++ yes.text ++ " : " ++ no.text

/-- Whether only what stands behind a `:` decides further. -/
inductive IsLadder : Choice → Prop
  | name (x : PlainName) : IsLadder (.name x)
  | ask (x y : PlainName) {no : Choice} (h : IsLadder no) : IsLadder (.ask x (.name y) no)

/-! ### What the text tells -/

theorem tells_plain {n d : Nat} (deep : d < maxDepth) (x : PlainName) :
    Tells n d x.text (.symbol x.text) :=
  x.plain ▸ tells_name deep x.lexical

/-- Whatever the branches are, the tokens of a choice spell its tree. -/
theorem tells_text {n d : Nat} (deep : d < maxDepth) (c : Choice) : Tells n d c.text c.tree := by
  induction c with
  | name x => exact tells_plain deep x
  | ask x yes no hyes hno => exact tells_conditional (tells_plain deep x) hyes hno

/-! ### Which choices are legible -/

theorem legible_plain {f : Bool} (x : PlainName) : Legible f (.symbol x.text) :=
  .name x.lexical x.plain

/-- No `:` goes on with the first branch of a conditional that is legible. -/
theorem legible_branches {f : Bool} {condition yes no : Expr}
    (h : Legible f (.conditional condition yes no)) : yes.exposesColon = false ∧ Legible f no := by
  cases h with
  | name _ he => rcases form_ofName _ with h | h <;> rw [he] at h <;> cases h
  | conditional _ _ _ closed hno => exact ⟨closed, hno⟩
  | assigned he => rcases form_assigned he with h | h <;> cases h

/-- A `:` goes on with a choice that is not a name. -/
theorem exposesColon_tree {c : Choice} : c.tree.exposesColon = false ↔ ∃ x, c = .name x := by
  cases c with
  | name x => exact ⟨fun _ => ⟨x, rfl⟩, fun _ => rfl⟩
  | ask x yes no => exact ⟨nofun, nofun⟩

theorem IsLadder.legible {c : Choice} (h : c.IsLadder) : Legible false c.tree := by
  induction h with
  | name x => exact legible_plain x
  | ask x y _ ih => exact .conditional (legible_plain x) (by simp [Expr.level]) (legible_plain y) rfl ih

theorem isLadder_of_legible {c : Choice} (h : Legible false c.tree) : c.IsLadder := by
  induction c with
  | name x => exact .name x
  | ask x yes no _ ih =>
      obtain ⟨hyes, hno⟩ := legible_branches h
      obtain ⟨y, rfl⟩ := exposesColon_tree.1 hyes
      exact .ask x y (ih hno)

/-! ### What the text is read as -/

/-- The text of a choice is read as the choice, if and only if only what stands behind a `:` decides
further. -/
theorem parse_text_iff (c : Choice) : parse c.text = .ok c.tree ↔ c.IsLadder := by
  constructor
  · intro h
    obtain legible | ⟨entry, entries, hblock, _⟩ := Expr.legible_of_parse h
    · exact isLadder_of_legible legible
    · cases c <;> cases hblock
  · intro h
    exact parse_of_tells (tells_text (by decide) c) h.legible

/-- `a ? b ? c : d : e` -/
def nested : Choice :=
  .ask ⟨"a", rfl, rfl⟩
    (.ask ⟨"b", rfl, rfl⟩ (.name ⟨"c", rfl, rfl⟩)
      (.name ⟨"d", rfl, rfl⟩))
    (.name ⟨"e", rfl, rfl⟩)

/-- The `:` behind the inner conditional is read as that of a range `d : e`, and the outer one is left
without its own. -/
theorem not_all_read : ¬ ∀ c : Choice, parse c.text = .ok c.tree := by
  intro h
  have refused : parse nested.text
      = .error { fault := .falsePartExpected, position := 17 } := by decide +kernel
  have read := h nested
  rw [refused] at read
  cases read

end Choice

end Formula
