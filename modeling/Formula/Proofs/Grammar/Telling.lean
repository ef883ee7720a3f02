import Mathlib.Data.List.Basic
import Formula.Proofs.Grammar.Levels
import Formula.Proofs.Quoted
import Formula.Rendering.Plain

/-!
Which texts tell an expression: the tokens that they are cut into spell it.

`Tells` says so of a text wherever it stands, as long as what follows does not go on with its last
token. There is one rule for each way to put a text together from others.
-/

namespace Formula

namespace Operator

variable {op : Operator}

theorem name_of_ofName? {name : String} (h : ofName? name = some op) : op.name = name := by
  simpa using List.find?_some h

theorem binary?_symbol (binary : op.isUnary = false) : binary? op.symbol = some op := by
  revert binary
  cases op <;> decide

theorem isUnary_of_relational (h : op.isRelational = true) : op.isUnary = false := by
  revert h
  cases op <;> decide

theorem contains_comparisons (h : op.isRelational = true) :
    Grammar.comparisons.contains op.symbol = true := by
  revert h
  cases op <;> decide

end Operator

namespace Expr

/-- Whether the operator of a function groups to the right; if it has one operand, it stands in front
of it. -/
def groupsRight (function : String) : Bool :=
  (Operator.ofName? function).any fun op => op.associativity = .right

@[simp] theorem groupsRight_name (op : Operator) :
    groupsRight op.name = decide (op.associativity = .right) := by
  rw [groupsRight, Operator.ofName?_name, Option.any_some]

mutual

/-- How deep brackets, operators in front of their operands and exponents are nested. -/
def nesting : Expr → Nat
  | .constant .. | .symbol _ => 0
  | .operation _ function [e] _ => if groupsRight function then e.nesting + 1 else e.nesting
  | .operation _ function [left, right] _ =>
    max left.nesting (if groupsRight function then right.nesting + 1 else right.nesting)
  | .operation _ _ operands _ => nestingAmong operands
  | .call callee args => max callee.nesting (nestingInside args)
  | .range start stop step => max (max start.nesting stop.nesting) (nestingOption step)
  | .conditional condition yes no => max condition.nesting (max yes.nesting no.nesting)
  | .assignment target part value => max (max target.nesting (nestingOption part)) value.nesting
  | .definition _ params body => max (if params.isEmpty then 0 else 1) body.nesting
  | .block entries => nestingEntries entries
  | .array items => nestingInside items
  | .object properties => nestingProperties properties
  | .parenthesis e => e.nesting + 1
  | .index dimensions dotted => if dotted then 0 else nestingInside dimensions
  | .access owner part => max owner.nesting part.nesting
  | .comparison _ operands => nestingAmong operands

/-- How deep the deepest of some expressions is nested. -/
def nestingAmong : List Expr → Nat
  | [] => 0
  | e :: es => max e.nesting (nestingAmong es)

/-- How deep the deepest of some expressions is nested, counting the brackets around them. -/
def nestingInside : List Expr → Nat
  | [] => 0
  | e :: es => max (e.nesting + 1) (nestingInside es)

/-- How deep an expression is nested, if there is one. -/
def nestingOption : Option Expr → Nat
  | none => 0
  | some e => e.nesting

/-- How deep the deepest of some statements is nested. -/
def nestingEntries : List (Entry Expr) → Nat
  | [] => 0
  | ⟨e, _⟩ :: entries => max e.nesting (nestingEntries entries)

/-- How deep the deepest of some properties is nested, counting the braces around them. -/
def nestingProperties : List (String × Expr) → Nat
  | [] => 0
  | (_, e) :: properties => max (e.nesting + 1) (nestingProperties properties)

end

-- The equations are derived here, once for all the proofs that unfold `nesting` later on.
attribute [local simp] nesting

theorem nesting_le_of_mem {e : Expr} {es : List Expr} (h : e ∈ es) : e.nesting ≤ nestingAmong es := by
  induction es with
  | nil => cases h
  | cons e' es ih =>
      rw [nestingAmong]
      rcases List.mem_cons.1 h with rfl | h
      · exact Nat.le_max_left _ _
      · exact Nat.le_trans (ih h) (Nat.le_max_right _ _)

theorem nesting_lt_of_mem {e : Expr} {es : List Expr} (h : e ∈ es) : e.nesting < nestingInside es := by
  induction es with
  | nil => cases h
  | cons e' es ih =>
      rw [nestingInside]
      rcases List.mem_cons.1 h with rfl | h
      · exact Nat.le_max_left _ _
      · exact Nat.lt_of_lt_of_le (ih h) (Nat.le_max_right _ _)

theorem nesting_lt_of_mem_properties {p : String × Expr} {properties : List (String × Expr)}
    (h : p ∈ properties) : p.2.nesting < nestingProperties properties := by
  induction properties with
  | nil => cases h
  | cons p' properties ih =>
      rw [nestingProperties]
      rcases List.mem_cons.1 h with rfl | h
      · exact Nat.le_max_left _ _
      · exact Nat.lt_of_lt_of_le (ih h) (Nat.le_max_right _ _)

theorem nesting_le_of_mem_entries {entry : Entry Expr} {entries : List (Entry Expr)} (h : entry ∈ entries) :
    entry.body.nesting ≤ nestingEntries entries := by
  induction entries with
  | nil => cases h
  | cons entry' entries ih =>
      rw [nestingEntries]
      rcases List.mem_cons.1 h with rfl | h
      · exact Nat.le_max_left _ _
      · exact Nat.le_trans (ih h) (Nat.le_max_right _ _)

/-- A number that is written with digits alone, which would go on with a point. -/
def isWhole : Expr → Bool
  | .constant value .number => value.toList.all Char.isDigit
  | _ => false

/-- An operation whose operator is behind its operand. -/
def isPostfixed : Expr → Bool
  | .operation spelling _ [_] false => (Operator.trailing? spelling).isSome
  | _ => false

/-- Whether a property can be written right behind an expression. -/
def takesPoint (e : Expr) : Bool :=
  (!Rendering.wrapsAccessed e || e.isPostfixed) && !e.isWhole

end Expr

namespace Grammar

open Token (Apart IsCut Cuts scanFrom)

/-- A text is cut into tokens that spell an expression. -/
abbrev Tells (n d : Nat) (text : String) (e : Expr) : Prop :=
  Cuts (Apart e.takesPoint) text fun tokens => Spells n d tokens (.expression e false)

theorem nogap (n : Nat) : Gap n [] :=
  ⟨nofun, fun _ => rfl⟩

section

variable {A B : List Char → Prop} {n d : Nat} {text text' : String} {e left right : Expr}

/-! ### Constants and names -/

theorem tells_number {literal : String} (deep : d < maxDepth) (lexical : Token.IsNumber literal)
    (hliteral : (Expr.number literal).isLiteral = true) : Tells n d literal (.number literal) := by
  refine (Token.isCut_number lexical).cuts.imp ?_
  rintro _ ⟨t, rfl, hkind, rfl⟩
  exact .number deep hkind hliteral (nogap n)

theorem tells_string (deep : d < maxDepth) (value : String) :
    Tells n d (Text.quote value) (.string value) := by
  refine ((Text.isCut_quote value).cuts.imp ?_).mono fun _ _ => trivial
  rintro _ ⟨t, rfl, hkind, htext⟩
  exact .string deep hkind (by rw [htext, Text.unescape?_escape]) (nogap n)

theorem takesPoint_ofName (name : String) : (ofName name).takesPoint = true := by
  unfold ofName
  repeat' split
  all_goals try rfl
  rename_i h
  rcases h with rfl | rfl <;> rfl

theorem tells_name {name : String} (deep : d < maxDepth) (lexical : Token.isIdentifier name = true) :
    Tells n d name (ofName name) := by
  rw [Tells, takesPoint_ofName]
  refine (Token.isCut_identifier lexical).cuts.imp ?_
  rintro _ ⟨t, rfl, hkind, rfl⟩
  exact .name deep hkind lexical rfl (nogap n)

theorem tells_word {name : String} (deep : d < maxDepth)
    (hname : Token.namedOperators.contains name = true) (infix_ : Operator.leading? name = none) :
    Tells n d name (.symbol name) := by
  refine (Token.isCut_namedOperator hname).cuts.imp ?_
  rintro _ ⟨t, rfl, hkind, rfl⟩
  exact .word deep hkind hname infix_ (nogap n)

/-! ### Brackets -/

/-- Brackets stand for themselves, whatever is between them and behind them. -/
theorem cuts_bracketed {opening closing : String} {P : List Token → Prop} {p : Bool}
    (ho : opening ∈ ["(", "[", "\x7b"]) (hc : closing ∈ [")", "]", "\x7d"])
    (h : Cuts (Apart p) text P) :
    Cuts A (opening ++ text ++ closing) fun tokens => ∃ o inner c,
      tokens = o :: [] ++ inner ++ c :: [] ∧ o.isDelimiter opening = true ∧
        c.isDelimiter closing = true ∧ P inner := by
  have opens : IsCut (fun _ => True) opening .delimiter opening :=
    Token.isCut_delimiter (by revert ho; simp; tauto)
  have closes : IsCut (fun _ => True) closing .delimiter closing :=
    Token.isCut_delimiter (by revert hc; simp; tauto)
  have apart : ∀ more, Apart p (closing.toList ++ more) := by
    simp only [List.mem_cons, List.not_mem_nil, or_false] at hc
    rcases hc with rfl | rfl | rfl <;> exact fun more => Token.apart_cons (by decide) _ _
  refine (((opens.cuts.append h fun _ _ => trivial).append closes.cuts fun more _ => apart more).mono
    fun _ _ => trivial).imp ?_
  rintro _ ⟨_, _, rfl, ⟨_, inner, rfl, ⟨o, rfl, hokind, hotext⟩, hinner⟩, c, rfl, hckind, hctext⟩
  exact ⟨o, inner, c, rfl, isDelimiter_iff.2 ⟨hokind, hotext⟩, isDelimiter_iff.2 ⟨hckind, hctext⟩, hinner⟩

theorem tells_parenthesis {p : Bool} (deep : d < maxDepth)
    (h : Cuts (Apart p) text fun tokens => Spells (n + 1) (d + 1) tokens (.expression e false)) :
    Cuts A ("(" ++ text ++ ")") fun tokens => Spells n d tokens (.expression (.parenthesis e) false) := by
  refine (cuts_bracketed (by decide) (by decide) h).imp ?_
  rintro _ ⟨o, inner, c, rfl, ho, hc, hinner⟩
  exact .parenthesis deep ho nofun hinner hc (nogap n)

theorem cuts_comma {P Q : List Token → Prop} {p : Bool} (h : Cuts (Apart p) text P)
    (h' : Cuts A text' Q) : Cuts A (text ++ ", " ++ text') fun tokens => ∃ front comma back,
      tokens = front ++ comma :: [] ++ back ∧ comma.isDelimiter "," = true ∧ P front ∧ Q back := by
  have comma : IsCut (fun _ => True) "," .delimiter "," := Token.isCut_delimiter (by decide)
  have htext : text ++ ", " ++ text' = text ++ "," ++ (" " ++ text') := by
    have : ", " = "," ++ " " := rfl
    rw [this]
    simp only [String.append_assoc]
  rw [htext]
  refine ((h.append comma.cuts fun more _ => Token.apart_cons (by decide) _ _).append h'.indented
    fun _ _ => trivial).imp ?_
  rintro _ ⟨_, back, rfl, ⟨front, _, rfl, hfront, c, rfl, hkind, hc⟩, hback⟩
  exact ⟨front, c, back, rfl, isDelimiter_iff.2 ⟨hkind, hc⟩, hfront, hback⟩

/-- Texts with commas between them. -/
theorem tells_items {es : List Expr} {texts : List String} (some : es ≠ [])
    (h : List.Forall₂ (Tells n d) texts es) :
    Cuts (Apart false) (", ".intercalate texts) fun tokens => Spells n d tokens (.items es false) := by
  induction h with
  | nil => exact absurd rfl some
  | @cons text e texts es he hes ih =>
      cases hes with
      | nil =>
          rw [String.intercalate_singleton]
          exact (he.mono fun _ h => h.mono nofun).imp fun _ => .item
      | cons =>
          rw [String.intercalate_cons_cons]
          refine (cuts_comma he (ih (by simp))).imp ?_
          rintro _ ⟨front, comma, back, rfl, hcomma, hfront, hback⟩
          exact .items hfront hcomma (nogap n) hback

/-- Texts in brackets, with commas between them. -/
theorem tells_list {opening closing : String} {es : List Expr} {texts : List String}
    (ho : opening ∈ ["(", "[", "\x7b"]) (hc : closing ∈ [")", "]", "\x7d"])
    (h : List.Forall₂ (Tells (n + 1) (d + 1)) texts es) :
    Cuts A (opening ++ ", ".intercalate texts ++ closing) fun tokens =>
      Spells n d tokens (.list opening closing es) := by
  cases h with
  | nil =>
      refine (cuts_bracketed (p := false) ho hc Token.cuts_empty).imp ?_
      rintro _ ⟨o, _, c, rfl, ho, hc, rfl⟩
      exact .emptyList ho nofun hc (nogap n)
  | cons he hes =>
      refine (cuts_bracketed ho hc (tells_items (by simp) (.cons he hes))).imp ?_
      rintro _ ⟨o, inner, c, rfl, ho, hc, hinner⟩
      exact .list ho nofun hinner hc (nogap n)

theorem tells_array {es : List Expr} {texts : List String} (deep : d < maxDepth)
    (h : List.Forall₂ (Tells (n + 1) (d + 1)) texts es) :
    Cuts A ("[" ++ ", ".intercalate texts ++ "]") fun tokens =>
      Spells n d tokens (.expression (.array es) false) := by
  cases h with
  | nil =>
      refine (cuts_bracketed (p := false) (by decide) (by decide) Token.cuts_empty).imp ?_
      rintro _ ⟨o, _, c, rfl, ho, hc, rfl⟩
      exact .emptyArray deep ho nofun hc (nogap n)
  | cons he hes =>
      refine (cuts_bracketed (by decide) (by decide) (tells_items (by simp) (.cons he hes))).imp ?_
      rintro _ ⟨o, inner, c, rfl, ho, hc, hinner⟩
      exact .array deep ho nofun (.row hinner) (fun _ => rfl) hc (nogap n)

/-- A text tells a property: a quoted key, and an expression that is legible. -/
def TellsProperty (n d : Nat) (text : String) (p : String × Expr) : Prop :=
  ∃ value, text = Text.quote p.1 ++ ": " ++ value ∧ Tells n d value p.2 ∧ Expr.Legible false p.2

theorem TellsProperty.cuts {p : String × Expr} (h : TellsProperty n d text p) :
    Cuts (Apart p.2.takesPoint) text fun tokens => ∃ key colon value,
      tokens = key :: [] ++ colon :: [] ++ value ∧ key? key = .ok p.1 ∧ colon.isOperator ":" = true ∧
        Spells n d value (.expression p.2 false) ∧ Expr.Legible false p.2 := by
  obtain ⟨value, rfl, hvalue, legible⟩ := h
  have key := (Text.isCut_quote p.1).cuts
  have colon : IsCut (fun _ => True) ":" .operator ":" := Token.isCut_short (by decide)
  have htext : Text.quote p.1 ++ ": " ++ value = Text.quote p.1 ++ ":" ++ (" " ++ value) := by
    have : ": " = ":" ++ " " := rfl
    rw [this]
    simp only [String.append_assoc]
  rw [htext]
  refine ((key.append colon.cuts fun _ _ => trivial).append hvalue.indented fun _ _ => trivial).imp ?_
  rintro _ ⟨_, v, rfl, ⟨_, _, rfl, ⟨k, rfl, hkind, hkey⟩, c, rfl, hckind, hc⟩, hv⟩
  refine ⟨k, c, v, rfl, ?_, isOperator_iff.2 ⟨hckind, hc⟩, hv, legible⟩
  rw [key?, hkind, hkey, Text.unescape?_escape]

/-- Properties with commas between them. -/
theorem tells_properties {properties : List (String × Expr)} {texts : List String}
    (h : List.Forall₂ (TellsProperty n d) texts properties) :
    Cuts (Apart false) (", ".intercalate texts) fun tokens => Spells n d tokens (.properties properties) := by
  induction h with
  | nil => exact Token.cuts_empty.imp fun _ h => h ▸ .noProperties
  | @cons text p texts properties hp hps ih =>
      cases hps with
      | nil =>
          rw [String.intercalate_singleton]
          refine (hp.cuts.mono fun _ h => h.mono nofun).imp ?_
          rintro _ ⟨key, colon, value, rfl, hkey, hcolon, hvalue, legible⟩
          exact .lastProperty hkey (nogap n) hcolon (nogap n) hvalue legible
      | cons =>
          rw [String.intercalate_cons_cons]
          refine (cuts_comma hp.cuts ih).imp ?_
          rintro _ ⟨_, comma, back, rfl, hcomma, ⟨key, colon, value, rfl, hkey, hcolon, hvalue, legible⟩, hback⟩
          exact .properties hkey (nogap n) hcolon (nogap n) hvalue legible hcomma (nogap n) hback

theorem tells_object {properties : List (String × Expr)} {texts : List String} (deep : d < maxDepth)
    (h : List.Forall₂ (TellsProperty (n + 1) (d + 1)) texts properties)
    (nodup : (Record.keys properties).Nodup) :
    Cuts A ("\x7b" ++ ", ".intercalate texts ++ "\x7d") fun tokens =>
      Spells n d tokens (.expression (.object properties) false) := by
  refine (cuts_bracketed (by decide) (by decide) (tells_properties h)).imp ?_
  rintro _ ⟨o, inner, c, rfl, ho, hc, hinner⟩
  have hspells : Spells n d (o :: [] ++ inner ++ c :: [])
      (.expression (.object (Record.ofList properties)) false) :=
    .object deep ho nofun hinner hc (nogap n)
  rwa [Record.ofList_eq_self nodup] at hspells

/-! ### Calls and parts -/

theorem tells_call {callee : Expr} {args : List Expr} {texts : List String}
    (hcallee : Tells n d text callee) (callable : callee.form = .symbol ∨ callee.form = .access)
    (h : List.Forall₂ (Tells (n + 1) (d + 1)) texts args) :
    Cuts A (text ++ ("(" ++ ", ".intercalate texts ++ ")")) fun tokens =>
      Spells n d tokens (.expression (.call callee args) false) := by
  refine (hcallee.append (tells_list (by decide) (by decide) h) fun more _ => ?_).imp ?_
  · simp only [String.toList_append, List.append_assoc]
    exact Token.apart_cons (by decide) _ _
  · rintro _ ⟨front, back, rfl, hfront, hback⟩
    exact .call hfront callable hback

theorem tells_index {owner : Expr} {dimensions : List Expr} {texts : List String}
    (howner : Tells n d text owner) (h : List.Forall₂ (Tells (n + 1) (d + 1)) texts dimensions) :
    Cuts A (text ++ ("[" ++ ", ".intercalate texts ++ "]")) fun tokens =>
      Spells n d tokens (.expression (.access owner (.index dimensions false)) false) := by
  refine (howner.append (tells_list (by decide) (by decide) h) fun more _ => ?_).imp ?_
  · simp only [String.toList_append, List.append_assoc]
    exact Token.apart_cons (by decide) _ _
  · rintro _ ⟨front, back, rfl, hfront, hback⟩
    exact .index hfront hback

theorem tells_property {owner : Expr} {name : String} (howner : Tells n d text owner)
    (point : owner.takesPoint = true) (lexical : Token.isIdentifier name = true) :
    Cuts (Apart true) (text ++ ("." ++ name)) fun tokens =>
      Spells n d tokens (.expression (.access owner (.property name)) false) := by
  have hname := Token.isCut_identifier lexical
  obtain ⟨c, rest, hstart, hc, -⟩ := Token.exists_of_isName (Token.isName_of_isIdentifier lexical)
  have selector := Token.isCut_point.cuts.append hname.cuts fun more _ => ⟨c, rest ++ more, by rw [hstart]; rfl, hc⟩
  rw [Tells, point] at howner
  refine (howner.append selector fun more _ => ?_).imp ?_
  · rw [String.toList_append]
    exact Token.apart_point _
  · rintro _ ⟨front, _, rfl, hfront, _, _, rfl, ⟨dot, rfl, hdkind, hdot⟩, t, rfl, hkind, rfl⟩
    have := Spells.property hfront (isDelimiter_iff.2 ⟨hdkind, hdot⟩) (nogap n) hkind (nogap n)
    simpa using this

/-! ### Operators -/

/-- A token between spaces. -/
theorem cuts_between {P Q : List Token → Prop} {p : Bool} {word : String} {kind : TokenKind}
    (h : Cuts (Apart p) text P) (hword : IsCut (Apart false) word kind word) (h' : Cuts A text' Q) :
    Cuts A (text ++ " " ++ word ++ " " ++ text') fun tokens => ∃ front o back,
      tokens = front ++ o :: [] ++ back ∧ o.kind = kind ∧ o.text = word ∧ P front ∧ Q back := by
  have spaced := hword.cuts.spaced (A := fun _ => True)
  have hcut := ((h.spaced (A := fun _ => True)).append spaced fun _ _ => trivial).append h'
    fun _ _ => trivial
  have htext : text ++ " " ++ word ++ " " ++ text' = text ++ " " ++ (word ++ " ") ++ text' := by
    simp only [String.append_assoc]
  rw [htext]
  refine hcut.imp ?_
  rintro _ ⟨_, back, rfl, ⟨front, _, rfl, hfront, o, rfl, hkind, ho⟩, hback⟩
  exact ⟨front, o, back, rfl, hkind, ho, hfront, hback⟩

theorem Tells.loose (h : Tells n d text e) :
    Cuts (Apart false) text fun tokens => Spells n d tokens (.expression e false) :=
  h.mono fun _ hmore => hmore.mono nofun

theorem isCut_binary {spelling : String} {op : Operator} (hop : Operator.binary? spelling = some op) :
    IsCut (Apart false) spelling .operator spelling := by
  obtain ⟨_, ⟨rfl, rfl⟩ | rfl⟩ := Operator.binary?_mem hop
  · exact Token.isCut_mark (by decide)
  · exact Token.isCut_symbol op

theorem tells_binary {spelling : String} {op : Operator}
    (hop : Operator.binary? spelling = some op) (weak : op.level ≤ 12) (hleft : Tells n d text left)
    (hright : Tells n d text' right) :
    Tells n d (text ++ " " ++ spelling ++ " " ++ text')
      (.operation spelling op.name [left, right] false) := by
  refine (cuts_between hleft (isCut_binary hop) hright.loose).imp ?_
  rintro _ ⟨front, o, back, rfl, hkind, rfl, hfront, hback⟩
  exact .binary hfront hkind hop weak nofun hback

theorem tells_power {spelling : String} {op : Operator} (hspelling : spelling = "^" ∨ spelling = ".^")
    (hop : Operator.binary? spelling = some op) (hleft : Tells n d text left)
    (hright : Tells n (d + 1) text' right) :
    Tells n d (text ++ " " ++ spelling ++ " " ++ text')
      (.operation spelling op.name [left, right] false) := by
  refine (cuts_between hleft (isCut_binary hop) hright.loose).imp ?_
  rintro _ ⟨front, o, back, rfl, hkind, rfl, hfront, hback⟩
  exact .power hfront hkind hspelling hop nofun hback

theorem tells_juxtaposition (hleft : Tells n d text left) (hright : Tells n d text' right) :
    Tells n d (text ++ " " ++ text') (.juxtapose left right) := by
  refine ((hleft.spaced (A := fun _ => True)).append hright.loose fun _ _ => trivial).imp ?_
  rintro _ ⟨front, back, rfl, hfront, hback⟩
  exact .juxtaposition hfront hback

/-- An operator in front of a text; a word needs a space behind it. -/
theorem tells_prefixed {spelling : String} {op : Operator} (deep : d < maxDepth)
    (hop : Operator.leading? spelling = some op)
    (h : Cuts (Apart false) text fun tokens => Spells n (d + 1) tokens (.expression e false))
    (space : spelling = "not" → ∃ rest, text.toList = ' ' :: rest) :
    Tells n d (spelling ++ text) (.operation spelling op.name [e] false) := by
  have hpoint : (Expr.operation spelling op.name [e] false).takesPoint = false := by
    have hpostfixed : (Operator.trailing? spelling).isSome = false := by
      unfold Operator.leading? at hop
      split at hop
      · rfl
      · rfl
      · rfl
      · rfl
      · cases hop
    rw [Expr.takesPoint, Expr.isPostfixed, hpostfixed]
    rfl
  have hcut : IsCut (fun more => spelling = "not" → Apart false more) spelling .operator spelling := by
    by_cases hword : spelling = "not"
    · subst hword
      exact (Token.isCut_symbol .not).mono fun _ hmore => hmore rfl
    · refine (Token.isCut_short ?_).mono fun _ _ => trivial
      unfold Operator.leading? at hop
      split at hop
      · decide
      · decide
      · decide
      · exact absurd rfl hword
      · cases hop
  rw [Tells, hpoint]
  refine (hcut.cuts.append h fun more _ hword => ?_).imp ?_
  · obtain ⟨rest, hrest⟩ := space hword
    rw [hrest]
    exact Token.apart_cons (by decide) _ _
  · rintro _ ⟨_, back, rfl, ⟨o, rfl, hkind, rfl⟩, hback⟩
    exact .prefixed deep hkind hop nofun hback

/-- An operator behind a text. -/
theorem tells_postfixed {spelling : String} {op : Operator} (hop : Operator.trailing? spelling = some op)
    (h : Cuts B text fun tokens => Spells n d tokens (.expression e false))
    (hB : ∀ c more, c ∈ ['!', '\''] → B (c :: more)) :
    Tells n d (text ++ spelling) (.operation spelling op.name [e] false) := by
  have hspelling : spelling = "!" ∨ spelling = "'" := by
    unfold Operator.trailing? at hop
    split at hop
    · exact .inl rfl
    · exact .inr rfl
    · cases hop
  have hpoint : (Expr.operation spelling op.name [e] false).takesPoint = true := by
    rcases hspelling with rfl | rfl <;> rfl
  obtain ⟨c, hc, hlist⟩ : ∃ c ∈ ['!', '\''], spelling.toList = [c] := by
    rcases hspelling with rfl | rfl
    · exact ⟨'!', by decide, rfl⟩
    · exact ⟨'\'', by decide, rfl⟩
  rw [Tells, hpoint]
  refine (h.append (Token.isCut_trailing hspelling).cuts fun more _ => ?_).imp ?_
  · rw [hlist]
    exact hB c _ hc
  · rintro _ ⟨front, _, rfl, hfront, o, rfl, hkind, rfl⟩
    exact .postfixed hfront hkind hop (nogap n)

/-! ### Comparisons -/

theorem comparisonSymbol_name (op : Operator) : Expr.comparisonSymbol op.name = op.symbol := by
  rw [Expr.comparisonSymbol, Operator.ofName?_name]

theorem filterMap_symbol {ops : List Operator} (relational : ∀ op ∈ ops, op.isRelational = true) :
    (ops.map Operator.symbol).filterMap Operator.binary? = ops := by
  rw [List.filterMap_map]
  have hops : ∀ op ∈ ops, (Operator.binary? ∘ Operator.symbol) op = some op := fun op hop =>
    Operator.binary?_symbol (Operator.isUnary_of_relational (relational op hop))
  rw [List.filterMap_congr hops, List.filterMap_some]

/-- Names of comparisons are those of operators. -/
theorem exists_comparisons {functions : List String}
    (h : ∀ name ∈ functions, Expr.isComparison name = true) : ∃ ops : List Operator,
      functions = ops.map Operator.name ∧ ∀ op ∈ ops, op.isRelational = true := by
  induction functions with
  | nil => exact ⟨[], rfl, nofun⟩
  | cons name functions ih =>
      obtain ⟨hname, hrest⟩ := List.forall_mem_cons.1 h
      obtain ⟨ops, rfl, hops⟩ := ih hrest
      unfold Expr.isComparison at hname
      split at hname
      · rename_i op hop
        refine ⟨op :: ops, ?_, List.forall_mem_cons.2 ⟨hname, hops⟩⟩
        rw [List.map_cons, Operator.name_of_ofName? hop]
      · cases hname

/-- Texts with comparisons between them. -/
theorem tells_chain {ops : List Operator} {operands : List Expr} {texts : List String}
    (relational : ∀ op ∈ ops, op.isRelational = true) (length : operands.length = ops.length + 1)
    (h : List.Forall₂ (Tells n d) texts operands) :
    Cuts (Apart false) (texts.headD "" ++ String.join (List.zipWith
        (fun function text => " " ++ Expr.comparisonSymbol function ++ " " ++ text)
        (ops.map Operator.name) texts.tail)) fun tokens =>
      Spells n d tokens (.chain (ops.map Operator.symbol) operands) := by
  induction ops generalizing operands texts with
  | nil =>
      cases h with
      | nil => cases length
      | cons he hes =>
          cases hes with
          | nil =>
              rw [List.headD_cons, List.map_nil, List.zipWith_nil_left, String.join_nil, String.append_empty]
              exact he.loose.imp fun _ => .operand
          | cons => simp at length
  | cons op ops ih =>
      cases h with
      | nil => cases length
      | @cons text e texts es he hes =>
          cases hes with
          | nil => simp at length
          | @cons text' e' texts es he' hes =>
              obtain ⟨hop, hops⟩ := List.forall_mem_cons.1 relational
              have hchain := ih hops (Nat.succ.inj length) (.cons he' hes)
              rw [List.headD_cons, List.tail_cons] at hchain ⊢
              have htext : ∀ more, text ++ (" " ++ op.symbol ++ " " ++ text' ++ more)
                  = text ++ " " ++ op.symbol ++ " " ++ (text' ++ more) := by
                intro more
                simp only [String.append_assoc]
              rw [List.map_cons, List.zipWith_cons_cons, String.join_cons, comparisonSymbol_name, htext]
              refine (cuts_between he (Token.isCut_symbol op) hchain).imp ?_
              rintro _ ⟨front, o, back, rfl, hkind, ho, hfront, hback⟩
              rw [List.map_cons, ← ho]
              exact .comparing hfront hkind (ho ▸ Operator.contains_comparisons hop) nofun hback

theorem tells_comparison {functions : List String} {operands : List Expr} {texts : List String}
    (comparisons : ∀ name ∈ functions, Expr.isComparison name = true) (many : 2 ≤ functions.length)
    (length : operands.length = functions.length + 1) (h : List.Forall₂ (Tells n d) texts operands) :
    Tells n d (texts.headD "" ++ String.join (List.zipWith
        (fun function text => " " ++ Expr.comparisonSymbol function ++ " " ++ text) functions texts.tail))
      (.comparison functions operands) := by
  obtain ⟨ops, rfl, relational⟩ := exists_comparisons comparisons
  rw [List.length_map] at many length
  refine (tells_chain relational length h).imp fun tokens htokens => ?_
  have hspells := Spells.comparison htokens (by simpa using many)
  rwa [filterMap_symbol relational] at hspells

/-! ### Ranges, conditionals and assignments -/

theorem cuts_colon {P Q : List Token → Prop} {p : Bool} (h : Cuts (Apart p) text P)
    (h' : Cuts A text' Q) : Cuts A (text ++ ":" ++ text') fun tokens => ∃ front colon back,
      tokens = front ++ colon :: [] ++ back ∧ colon.isOperator ":" = true ∧ P front ∧ Q back := by
  have colon : IsCut (fun _ => True) ":" .operator ":" := Token.isCut_short (by decide)
  refine ((h.append colon.cuts fun more _ => Token.apart_cons (by decide) _ _).append h'
    fun _ _ => trivial).imp ?_
  rintro _ ⟨_, back, rfl, ⟨front, _, rfl, hfront, c, rfl, hkind, hc⟩, hback⟩
  exact ⟨front, c, back, rfl, isOperator_iff.2 ⟨hkind, hc⟩, hfront, hback⟩

theorem tells_range {start stop : Expr} (hstart : Tells n d text start) (hstop : Tells n d text' stop) :
    Tells n d (text ++ ":" ++ text') (.range start stop none) := by
  refine (cuts_colon hstart hstop.loose).imp ?_
  rintro _ ⟨front, colon, back, rfl, hcolon, hfront, hback⟩
  exact .range (.start hfront) hcolon (nogap n) (.stop hback)

theorem tells_steppedRange {start step stop : Expr} {text'' : String} (hstart : Tells n d text start)
    (hstep : Tells n d text' step) (hstop : Tells n d text'' stop) :
    Tells n d (text ++ ":" ++ text' ++ ":" ++ text'') (.range start stop (some step)) := by
  refine (cuts_colon (cuts_colon hstart hstep) hstop.loose).imp ?_
  rintro _ ⟨_, colon, back, rfl, hcolon, ⟨front, colon', middle, rfl, hcolon', hfront, hmiddle⟩, hback⟩
  have hspells := Spells.steppedRange (.start hfront) hcolon' (nogap n) hmiddle hcolon (nogap n) (.stop hback)
  simpa using hspells

theorem tells_conditional {condition yes no : Expr} {text'' : String}
    (hcondition : Tells n d text condition) (hyes : Tells n d text' yes) (hno : Tells n d text'' no) :
    Tells n d (text ++ " ? " ++ text' ++ " : " ++ text'') (.conditional condition yes no) := by
  have colon : IsCut (Apart false) ":" .operator ":" :=
    (Token.isCut_short (by decide)).mono fun _ _ => trivial
  have htext : text ++ " ? " ++ text' ++ " : " ++ text''
      = text ++ " " ++ "?" ++ " " ++ text' ++ " " ++ ":" ++ " " ++ text'' := by
    have hmark : " ? " = " " ++ "?" ++ " " := rfl
    have hcolon : " : " = " " ++ ":" ++ " " := rfl
    rw [hmark, hcolon]
    simp only [String.append_assoc]
  rw [htext]
  refine (cuts_between (cuts_between hcondition (Token.isCut_mark (by decide)) hyes) colon hno.loose).imp ?_
  rintro _ ⟨_, c, back, rfl, hckind, hc, ⟨front, q, middle, rfl, hqkind, hq, hfront, hmiddle⟩, hback⟩
  have hspells := Spells.conditional hfront (isOperator_iff.2 ⟨hqkind, hq⟩) (nogap n).1 hmiddle
    (isOperator_iff.2 ⟨hckind, hc⟩) (nogap n).1 hback
  simpa using hspells

theorem tells_assigned {target value : Expr} (htarget : Tells n d text target)
    (hvalue : Tells n d text' value) (he : assign target value = .ok e) :
    Tells n d (text ++ " = " ++ text') e := by
  have hpoint : e.takesPoint = false := by
    obtain ⟨_, _, rfl⟩ | ⟨_, _, _, rfl⟩ | ⟨_, _, _, rfl⟩ := Expr.assign_eq_ok he <;> rfl
  have htext : text ++ " = " ++ text' = text ++ " " ++ "=" ++ " " ++ text' := by
    have hmark : " = " = " " ++ "=" ++ " " := rfl
    rw [hmark]
    simp only [String.append_assoc]
  rw [Tells, hpoint, htext]
  refine (cuts_between htarget (Token.isCut_mark (by decide)) hvalue.loose).imp ?_
  rintro _ ⟨front, o, back, rfl, hkind, ho, hfront, hback⟩
  exact .assigned hfront (isOperator_iff.2 ⟨hkind, ho⟩) nofun hback he

end

end Grammar

end Formula
