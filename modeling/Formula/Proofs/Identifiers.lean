import Formula.Expr.WellFormed
import Formula.Proofs.Words
import Formula.Rendering.Plain
import Mathlib.Data.List.Nodup

/-!
Which texts are names.

What may be declared and what is scanned as one name are decided apart: `isIdentifier` looks at all
characters of a text at once, while scanning asks for blanks, comments, strings, symbols and numbers
first. They agree (`isIdentifier_iff_scan_eq`), so that a definition passes its check exactly if its name
and its parameters are scanned as names and no parameter comes twice (`check_definition_iff`). The text of
such a definition is scanned as these names, in their order, whatever its body is written as
(`prefix_names_render`).
-/

namespace Formula

namespace Token

/-- The tokens of a source that is one name. -/
def nameAlone (name : String) : List Token :=
  [{ kind := .identifier, text := name, position := 0 }, stopAt name.length]

/-- What is scanned as a name is one. -/
theorem isIdentifier_of_mem_scan {source : String} {t : Token} (h : t ∈ scan source)
    (identifier : t.kind = .identifier) : isIdentifier t.text = true :=
  (scanFrom_texts 0 source.toList t h).2 identifier

theorem isIdentifier_iff_scan_eq (name : String) :
    isIdentifier name = true ↔ scan name = nameAlone name := by
  refine ⟨fun h => (isCut_identifier h).scan_eq (apart_nil true), fun h => ?_⟩
  have hmem : { kind := .identifier, text := name, position := 0 } ∈ scan name := by
    rw [h]
    exact List.mem_cons_self
  exact isIdentifier_of_mem_scan hmem rfl

/-! ### The names in a text -/

/-- The names among tokens, in their order. -/
def names (tokens : List Token) : List String :=
  tokens.filterMap fun t => if t.kind = .identifier then some t.text else none

theorem names_append (front back : List Token) : names (front ++ back) = names front ++ names back :=
  List.filterMap_append

/-- A text is scanned as names and what is between them, in front of everything that meets a condition. -/
abbrev Names (A : List Char → Prop) (text : String) (all : List String) : Prop :=
  Cuts A text fun tokens => names tokens = all

variable {A B : List Char → Prop} {text text' name : String} {all all' params : List String}

theorem Names.append (h : Names A text all) (h' : Names B text' all')
    (hA : ∀ more, B more → A (text'.toList ++ more)) : Names B (text ++ text') (all ++ all') := by
  refine (Cuts.append h h' hA).imp ?_
  rintro _ ⟨front, back, rfl, rfl, rfl⟩
  exact names_append front back

/-- What a text is scanned as comes first, whatever stands behind it. -/
theorem Names.prefix_scan (h : Names A text all) {more : String} (hmore : A more.toList) :
    all <+: names (scan (text ++ more)) := by
  obtain ⟨tokens, stop, hscan, rfl⟩ := h 0 more.toList hmore
  rw [scan, String.toList_append, hscan, names_append]
  exact List.prefix_append _ _

theorem names_identifier (h : isIdentifier name = true) : Names (Apart true) name [name] := by
  refine (isCut_identifier h).cuts.imp ?_
  rintro _ ⟨t, rfl, hkind, rfl⟩
  rw [names, List.filterMap_cons, if_pos hkind]
  rfl

/-- Brackets and commas are no names. -/
theorem names_delimiter (h : text ∈ ["(", ")", "[", "]", "\x7b", "\x7d", ",", ";"]) :
    Names (fun _ => True) text [] := by
  refine (isCut_delimiter h).cuts.imp ?_
  rintro _ ⟨t, rfl, hkind, _⟩
  rw [names, List.filterMap_cons, if_neg (by rw [hkind]; nofun)]
  rfl

/-- Names with commas between them. -/
theorem names_intercalate (h : ∀ n ∈ params, isIdentifier n = true) :
    Names (Apart true) (", ".intercalate params) params := by
  induction params with
  | nil => exact cuts_empty.imp fun _ htokens => by rw [htokens]; rfl
  | cons name params ih =>
      obtain ⟨hname, hparams⟩ := List.forall_mem_cons.1 h
      cases params with
      | nil => exact names_identifier hname
      | cons second params =>
          have comma : Names (Apart true) "," [] := (names_delimiter (by decide)).mono fun _ _ => trivial
          have spaced : Names (fun _ => True) ", " [] := comma.spaced
          rw [String.intercalate_cons_cons]
          refine ((names_identifier hname).append spaced fun more _ => ?_).append (ih hparams)
            fun _ _ => trivial
          exact apart_cons (by decide) _ _

/-- A name with names in brackets behind it. -/
theorem names_signature (h : ∀ n ∈ name :: params, isIdentifier n = true) :
    Names A (name ++ "(" ++ ", ".intercalate params ++ ")") (name :: params) := by
  obtain ⟨hname, hparams⟩ := List.forall_mem_cons.1 h
  have opening : Names (fun _ => True) "(" [] := names_delimiter (by decide)
  have closing : Names (fun _ => True) ")" [] := names_delimiter (by decide)
  have front := (names_identifier hname).append opening fun more _ => apart_cons (by decide) _ _
  have signature := (front.append (names_intercalate hparams) fun _ _ => trivial).append closing
    fun more _ => apart_cons (by decide) _ _
  rw [List.append_nil, List.append_nil] at signature
  exact signature.mono fun _ _ => trivial

end Token

namespace Expr

open Token (isIdentifier nameAlone names scan)

variable {name : String} {params : List String} {body : Expr}

/-! ### Definitions -/

theorem firstRepeated?_go_eq_none_iff {seen names : List String} :
    firstRepeated?.go seen names = none ↔ names.Nodup ∧ ∀ n ∈ names, n ∉ seen := by
  induction names generalizing seen with
  | nil => simp [firstRepeated?.go]
  | cons name names ih =>
      by_cases hname : name ∈ seen
      · simp [firstRepeated?.go, hname]
      · rw [firstRepeated?.go, List.contains_eq_mem, if_neg (by simpa using hname), ih]
        grind

/-- Nothing comes a second time if and only if all elements differ. -/
theorem firstRepeated?_eq_none_iff {names : List String} : firstRepeated? names = none ↔ names.Nodup := by
  rw [firstRepeated?, firstRepeated?_go_eq_none_iff]
  exact and_iff_left fun _ _ => List.not_mem_nil

theorem checkNames_eq_ok_iff : checkNames name params = .ok () ↔
    (∀ n ∈ name :: params, isIdentifier n = true) ∧ params.Nodup := by
  rw [← firstRepeated?_eq_none_iff]
  unfold checkNames
  cases hnames : (name :: params).find? fun n => !isIdentifier n with
  | some n =>
      refine iff_of_false nofun fun h => ?_
      have hvalid := h.1 n (List.mem_of_find?_eq_some hnames)
      have hinvalid := List.find?_some hnames
      rw [hvalid] at hinvalid
      cases hinvalid
  | none =>
      have hvalid : ∀ n ∈ name :: params, isIdentifier n = true := by
        simpa using List.find?_eq_none.1 hnames
      cases firstRepeated? params with
      | some n => exact iff_of_false nofun fun h => nomatch h.2
      | none => exact iff_of_true rfl ⟨hvalid, rfl⟩

/-- What may be defined are names that are scanned as such, with distinct ones as parameters. -/
theorem check_definition_iff : (definition name params body).check = .ok () ↔
    (∀ n ∈ name :: params, scan n = nameAlone n) ∧ params.Nodup := by
  simp only [← Token.isIdentifier_iff_scan_eq]
  exact checkNames_eq_ok_iff

/-- The text of a definition is scanned as what it declares and then what its body is written as. -/
theorem prefix_names_render {style : Style} (plain : style.custom (.definition name params body) = none)
    (h : (definition name params body).check = .ok ()) :
    name :: params <+: names (scan ((definition name params body).render style)) := by
  have signature := Token.names_signature (A := fun _ => True) (checkNames_eq_ok_iff.1 h).1
  have htext : (definition name params body).render style
      = name ++ "(" ++ ", ".intercalate params ++ ")"
        ++ (" = " ++ render.part style Precedence.assignment body (body.render style)) := by
    have closing : ") = " = ")" ++ " = " := rfl
    rw [render, plain]
    simp only [closing, String.append_assoc]
  rw [htext]
  exact signature.prefix_scan trivial

/-- A text is a valid name exactly if it is scanned as one name and nothing else. Definitions may declare
such names and no others, the text of a definition is scanned as the names that it declares, and what is
scanned as a name in any source is valid. -/
theorem identifiers_agree :
    (∀ name, isIdentifier name = true ↔ scan name = nameAlone name) ∧
      (∀ name params body, (definition name params body).check = .ok () ↔
        (∀ n ∈ name :: params, scan n = nameAlone n) ∧ params.Nodup) ∧
      (∀ (style : Style) name params body, style.custom (.definition name params body) = none →
        (definition name params body).check = .ok () →
        name :: params <+: names (scan ((definition name params body).render style))) ∧
      ∀ source, ∀ t ∈ scan source, t.kind = .identifier → isIdentifier t.text = true :=
  ⟨Token.isIdentifier_iff_scan_eq, fun _ _ _ => check_definition_iff, fun _ _ _ _ => prefix_names_render,
    fun _ _ => Token.isIdentifier_of_mem_scan⟩

/-- Letters of any script, with digits and signs behind them. -/
theorem identifiers_agree_accented :
    let size : Expr := .definition "größe" ["x_1", "$b"] (.symbol "x_1")
    ({} : Style).custom size = none ∧ size.check = .ok () ∧
      ["größe", "x_1", "$b"] <+: names (scan (size.render {})) ∧
      { kind := .identifier, text := "größe", position := 0 } ∈ scan "größe" ∧
      isIdentifier "größe" = true := by
  intro size
  obtain ⟨-, declared, written, scanned⟩ := identifiers_agree
  have hcheck : size.check = .ok () := rfl
  have hscan := (declared _ _ _).1 hcheck
  have hmem : { kind := .identifier, text := "größe", position := 0 } ∈ scan "größe" := by
    rw [hscan.1 "größe" List.mem_cons_self]
    exact List.mem_cons_self
  exact ⟨rfl, hcheck, written {} _ _ _ rfl hcheck, hmem, scanned _ _ hmem rfl⟩

end Expr

end Formula
