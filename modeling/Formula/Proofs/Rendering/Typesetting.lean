import Formula.Proofs.Identifiers
import Formula.Proofs.Rendering.Pieces
import Formula.Proofs.WellFormed
import Formula.Rendering.Typeset

/-!
The markup of expressions is well formed.

Markup is put together without looking at what meets. A command in front of an operand would take along
a letter that the operand begins with; names are kept apart by a space, but a call of `exp` begins with
a letter. Where none stands behind a command (`Expr.KeepsApart`), the markup of what a source is parsed
to is well formed (`isWellFormed_typeset`).
-/

namespace Formula.Expr

open Rendering Latex

/-! ### What is typeset -/

/-- Whether names and literals hold no characters of markup, operators have as many operands as they
take, and what stands for an index is one. -/
def IsTypesettable : Expr → Prop
  | .constant _ .string => True
  | .constant value .number =>
    value = "NaN" ∨ value = "Infinity" ∨
      (∀ c ∈ value.toList, isInert c = true) ∧ startsApart value = true
  | .constant value _ => (glyph? value).isSome = true
  | .symbol name => ∀ c ∈ name.toList, isInert c = true
  | .operation _ function operands _ =>
    ∃ op, Operator.ofName? function = some op ∧ operands.length = if op.isUnary then 1 else 2
  | .definition _ params _ => ∀ name ∈ params, ∀ c ∈ name.toList, isInert c = true
  | .assignment _ (some part) _ | .access _ part => part.form = .index
  | .comparison functions _ => ∀ name ∈ functions, isComparison name = true
  | _ => True

theorem isInert_of_isNamePart {c : Char} (h : Text.isNamePart c = true) : isInert c = true := by
  have hne : ∀ d, Text.isNamePart d = false → c ≠ d := by
    rintro d hd rfl
    exact absurd (hd.symm.trans h) Bool.false_ne_true
  simp [isInert, hne '\\' rfl, hne '\x7b' rfl, hne '\x7d' rfl]

theorem isInert_of_isIdentifier {name : String} (h : Token.isIdentifier name = true) :
    ∀ c ∈ name.toList, isInert c = true := by
  obtain ⟨c, cs, hname, hstart, hparts⟩ := Token.exists_of_isName (Token.isName_of_isIdentifier h)
  rw [hname]
  exact List.forall_mem_cons.2 ⟨isInert_of_isNamePart (Token.isNamePart_of_isNameStart hstart),
    fun d hd => isInert_of_isNamePart (hparts d hd)⟩

/-- No digit is a letter. -/
theorem isAlpha_of_isDigit {c : Char} (h : c.isDigit = true) : c.isAlpha = false := by
  have hdigit : c.val ≤ '9'.val := of_decide_eq_true (Bool.and_eq_true_iff.1 h).2
  have hupper : c.isUpper = false :=
    decide_eq_false fun hletter => absurd (UInt32.le_trans hletter.1 hdigit) (by decide)
  have hlower : c.isLower = false := Bool.and_eq_false_imp.2 fun hletter =>
    absurd (UInt32.le_trans (of_decide_eq_true hletter) hdigit) (by decide)
  exact Bool.or_eq_false_iff.2 ⟨hupper, hlower⟩

/-- A number ends in front of the characters of markup. -/
theorem isInert_of_isNumber {text : String} (h : Token.IsNumber text) :
    (∀ c ∈ text.toList, isInert c = true) ∧ startsApart text = true := by
  obtain ⟨nonempty, length⟩ := h
  constructor
  · intro c hc
    by_contra hmarkup
    have ends : Token.continues c = false := by
      simp only [isInert, Bool.and_eq_true, decide_eq_true_eq, not_and_or, not_not] at hmarkup
      rcases hmarkup with (rfl | rfl) | rfl <;> decide
    obtain ⟨front, behind, hsplit⟩ := List.append_of_mem hc
    have hle := Token.numberLength_le front
    rw [hsplit, Token.numberLength_append ends] at length
    simp only [List.length_append, List.length_cons] at length
    omega
  · cases htoList : text.toList with
    | nil => exact absurd (String.toList_eq_nil_iff.1 htoList) nonempty
    | cons c cs =>
        rw [htoList] at length
        have hnumber : Token.numberLength (c :: cs) ≠ 0 := by simp [length]
        unfold startsApart
        rw [htoList]
        obtain hdigit | ⟨rfl, _⟩ := Token.starts_of_numberLength hnumber
        · simp [isAlpha_of_isDigit hdigit]
        · rfl

/-- What legible expressions are made of can be typeset. -/
theorem Legible.isTypesettable {f : Bool} {e : Expr} (h : Legible f e) : e.IsTypesettable := by
  cases h with
  | number lexical => exact .inr (.inr (isInert_of_isNumber lexical))
  | @name _ name _ lexical he =>
      subst he
      unfold Grammar.ofName
      split
      next => exact (rfl : (glyph? "true").isSome = true)
      next =>
        split
        next => exact (rfl : (glyph? "false").isSome = true)
        next =>
          split
          next => exact (rfl : (glyph? "null").isSome = true)
          next =>
            split
            next => exact (rfl : (glyph? "undefined").isSome = true)
            next =>
              split
              next hname => exact hname.imp id .inl
              next => exact isInert_of_isIdentifier lexical
  | word hname =>
      have known : ∀ name ∈ Token.namedOperators, name.toList.all isInert = true := by decide
      exact List.all_eq_true.1 (known _ (List.contains_iff_mem.1 hname))
  | postfixed hop =>
      refine ⟨_, Operator.ofName?_name _, ?_⟩
      unfold Operator.trailing? at hop
      split at hop <;> cases hop <;> rfl
  | prefixed hop =>
      refine ⟨_, Operator.ofName?_name _, ?_⟩
      unfold Operator.leading? at hop
      split at hop <;> cases hop <;> rfl
  | power _ hop | binary hop =>
      refine ⟨_, Operator.ofName?_name _, ?_⟩
      rw [(Operator.binary?_mem hop).1]
      rfl
  | fraction => exact ⟨.divide, Operator.ofName?_name _, rfl⟩
  | juxtaposition => exact ⟨.multiply, Operator.ofName?_name _, rfl⟩
  | comparison comparisons => exact comparisons
  | index | property => rfl
  | assigned he =>
      obtain ⟨name, rfl, hcheck, rfl⟩ | ⟨owner, part, rfl, howner, hpart, rfl⟩ |
        ⟨name, params, rfl, hcheck, rfl⟩ := assign_eq_ok_iff.1 he
      · exact trivial
      · unfold checkIndex at hpart
        split at hpart
        · rfl
        · cases hpart
      · obtain ⟨lexical, -⟩ := checkNames_eq_ok_iff.1 hcheck
        exact fun param hparam => isInert_of_isIdentifier (lexical param (List.mem_cons_of_mem _ hparam))
  | _ => exact trivial

/-- Every node of what a source is parsed to can be typeset. -/
theorem isTypesettable_of_parse {source : String} {e : Expr} (h : parse source = .ok e) :
    e.Everywhere IsTypesettable :=
  everywhere_of_parse Legible.isTypesettable (fun _ => trivial) (fun _ => trivial) (fun _ => trivial) h

/-! ### Leaves -/

theorem stands_symbol {name : String} (h : ∀ c ∈ name.toList, isInert c = true) :
    Stands (typesetSymbol name) := by
  have hfits := Fits.symbol h
  unfold typesetSymbol
  dsimp only
  split
  next hhead =>
    refine .of_fits hfits ?_
    unfold startsWithLetter
    rw [hhead]
    rfl
  next => exact .behind rfl rfl hfits (absurd · Bool.false_ne_true)

theorem stands_word {value : String} (h : (glyph? value).isSome = true) :
    Stands (Latex.symbol value) := by
  have hword : ∃ s, word? value = some s := by
    unfold word?
    split
    · exact ⟨_, rfl⟩
    · exact Option.isSome_iff_exists.1 h
  obtain ⟨s, hs⟩ := hword
  obtain ⟨hformed, hstart⟩ := isWellFormed_of_word? hs
  rw [symbol_of_word? hs]
  exact .of_fits (fits_iff.2 hformed) (startsWithLetter_of_startsApart hstart)

theorem stands_number {value : String} (h : ∀ c ∈ value.toList, isInert c = true)
    (start : startsApart value = true) : Stands (typesetNumber value) := by
  have whole : Stands (Latex.symbol value) :=
    .of_fits (.symbol h) (startsWithLetter_nameOfChars (startsWithLetter_of_startsApart start))
  unfold typesetNumber
  extract_lets isMark mantissa
  split
  next c d ds hdrop =>
    split
    next => exact whole
    next =>
      have hmantissa : ∀ m ∈ mantissa, isInert m = true :=
        fun m hm => h m ((List.takeWhile_sublist _).subset hm)
      have hexponent : ∀ m ∈ d :: ds, isInert m = true := by
        intro m hm
        exact h m ((List.drop_sublist _ _).subset (hdrop ▸ List.mem_cons_of_mem _ hm))
      have hstart : startsWithLetter (String.ofList mantissa).toList = false := by
        have hletter := startsWithLetter_of_startsApart start
        rw [String.toList_ofList]
        show startsWithLetter (value.toList.takeWhile (!isMark ·)) = false
        cases htoList : value.toList with
        | nil => rfl
        | cons a as =>
            rw [htoList] at hletter
            rw [List.takeWhile_cons]
            split
            · exact hletter
            · rfl
      have front : Stands (String.ofList mantissa) :=
        .of_fits (Solid.inert (by rwa [String.toList_ofList])).fits hstart
      have exponent : Fits (String.ofList (d :: ds)) :=
        (Solid.inert (by rwa [String.toList_ofList])).fits
      exact front.before exponent.group.fits rfl (absurd · Bool.false_ne_true) rfl
  next => exact whole

/-! ### Nodes -/

theorem stands_enclosed {s : String} (h : Stands s) (wrap : Bool) : Stands (typesetEnclosed wrap s) := by
  cases wrap with
  | false => exact h
  | true => exact .of_fits h.fits.parens (startsWithLetter_of_startsApart (startsApart_parens s))

theorem solid_command {name s : String} (hname : isWellFormed ("\\" ++ name) = true) (h : Fits s) :
    Solid (Latex.command name s) :=
  (fits_iff.2 hname).andSolid h.group (startsApart_group s)

theorem startsApart_command (name s : String) : startsApart (Latex.command name s) = true :=
  startsApart_append (startsApart_append rfl)

theorem stands_command {name s : String} (hname : isWellFormed ("\\" ++ name) = true) (h : Fits s) :
    Stands (Latex.command name s) :=
  .of_fits (solid_command hname h).fits (startsWithLetter_of_startsApart (startsApart_command _ _))

theorem stands_environment {name s : String} (hname : name.toList.all isInert = true)
    (h : Fits s) : Stands (environment name s) := by
  have word : Fits name := (Solid.inert (List.all_eq_true.1 hname)).fits
  have hbegin : Solid (Latex.command "begin" name) := solid_command rfl word
  have hend : Solid (Latex.command "end" name) := solid_command rfl word
  refine .of_fits ?_ ?_
  · exact (hbegin.andFits h).append hend.fits (startsWithLetter_of_startsApart (startsApart_command _ _))
  · exact startsWithLetter_of_startsApart
      (startsApart_append (startsApart_append (startsApart_command _ _)))

theorem isWellFormed_latexSymbol (op : Operator) :
    isWellFormed op.latexSymbol = true ∧ startsApart op.latexSymbol = true := by
  cases op <;> decide

/-- The markup of operands that stands directly behind an operator or a delimiter, with the markup of
this. -/
def seams (style : Style) (e : Expr) : List (String × String) :=
  match e with
  | .operation _ _ operands juxtaposed =>
    let bare := operands.map fun e => e.typeset style
    match e.operator?,
        List.zipWith typesetEnclosed (wrappedOperands style true e operands juxtaposed) bare with
    | some op, [operand] => if op.associativity = .right then [(op.latexSymbol, operand)] else []
    | some op, [_, right] =>
      if op = .divide ∨ op = .pow ∨ juxtaposes style e juxtaposed then []
      else [(op.latexSymbol, right)]
    | _, _ => []
  | .call (.symbol name) [arg] => if isBare name then [("\\l" ++ name, arg.typeset style)] else []
  | .comparison functions operands =>
    (functions.map comparisonLatex).zip
      (operands.tail.map fun e => typeset.part style Precedence.relational e (e.typeset style))
  | _ => []

/-- Whether no power of `e` stands directly behind a command. -/
def KeepsApart (style : Style) (e : Expr) : Prop :=
  ∀ seam ∈ seams style e, endsInCommand (lexemes seam.1) = true → isExponential seam.2 = false

/-- Links of a chain, each of them a comparison and an operand, one behind another. -/
theorem fits_links {functions texts : List String}
    (hfunctions : ∀ f ∈ functions, isComparison f = true) (htexts : ∀ s ∈ texts, Stands s)
    (apart : ∀ seam ∈ (functions.map comparisonLatex).zip texts,
      endsInCommand (lexemes seam.1) = true → isExponential seam.2 = false) :
    Fits (String.join (List.zipWith (fun function text => comparisonLatex function ++ text)
      functions texts)) ∧
    startsWithLetter (String.join (List.zipWith (fun function text => comparisonLatex function ++ text)
      functions texts)).toList = false := by
  have link : ∀ {f s : String}, isComparison f = true → Stands s →
      (endsInCommand (lexemes (comparisonLatex f)) = true → isExponential s = false) →
        Fits (comparisonLatex f ++ s) ∧ startsApart (comparisonLatex f ++ s) = true := by
    intro f s hf hs hseam
    unfold isComparison at hf
    unfold comparisonLatex at hseam ⊢
    cases hop : Operator.ofName? f with
    | none => rw [hop] at hf; cases hf
    | some op =>
        rw [hop] at hseam
        obtain ⟨hformed, hstart⟩ := isWellFormed_latexSymbol op
        exact ⟨.behind hformed hs.fits fun hends => hs.apart (hseam hends), startsApart_append hstart⟩
  induction functions generalizing texts with
  | nil => exact ⟨fits_iff.2 rfl, rfl⟩
  | cons f functions ih =>
      cases texts with
      | nil => exact ⟨fits_iff.2 rfl, rfl⟩
      | cons s texts =>
          obtain ⟨hf, hfunctions⟩ := List.forall_mem_cons.1 hfunctions
          obtain ⟨hs, htexts⟩ := List.forall_mem_cons.1 htexts
          rw [List.map_cons, List.zip_cons_cons, List.forall_mem_cons] at apart
          obtain ⟨hlink, hstart⟩ := link hf hs apart.1
          obtain ⟨hrest, hrestStart⟩ := ih hfunctions htexts apart.2
          rw [List.zipWith_cons_cons, String.join_cons]
          exact ⟨hlink.append hrest hrestStart,
            startsWithLetter_of_startsApart (startsApart_append hstart)⟩

section

variable {style : Style} (plain : ∀ e, style.custom e = none)

section

variable {spelling function : String} {op : Operator} (hop : Operator.ofName? function = some op)
  {juxtaposed : Bool} {wrap wrap' : Bool}

include plain hop

/-- The markup of an operation of one operand. -/
theorem typeset_one {e : Expr} (hwrap : wrappedOperands style true
      (.operation spelling function [e] juxtaposed) [e] juxtaposed = [wrap]) :
    (Expr.operation spelling function [e] juxtaposed).typeset style =
      if op.associativity = .right then op.latexSymbol ++ typesetEnclosed wrap (e.typeset style)
      else typesetEnclosed wrap (e.typeset style) ++ op.latexSymbol := by
  have operator : (Expr.operation spelling function [e] juxtaposed).operator? = some op := hop
  have grouping : grouping? style.parentheses (.operation spelling function [e] juxtaposed)
      = some op.associativity := by
    have hoperator : (Operator.ofName? function).map Operator.associativity = some op.associativity := by
      rw [hop, Option.map_some]
    cases hp : style.parentheses <;> exact hoperator
  rw [typeset, plain]
  dsimp only
  rw [List.map_singleton, hwrap, List.zipWith_cons_cons, List.zipWith_nil_left, typesetOperation,
    grouping, operator]
  cases op.associativity <;> rfl

/-- The markup of an operation of two operands. -/
theorem typeset_two {left right : Expr} (hwrap : wrappedOperands style true
      (.operation spelling function [left, right] juxtaposed) [left, right] juxtaposed
        = [wrap, wrap']) :
    (Expr.operation spelling function [left, right] juxtaposed).typeset style =
      let first := typesetEnclosed wrap (left.typeset style)
      let second := typesetEnclosed wrap' (right.typeset style)
      if op = .divide then op.latexSymbol ++ Latex.group first ++ Latex.group second
      else if op = .pow then
        typesetEnclosed (wrapsBase style.parentheses left) (Latex.group first) ++ op.latexSymbol
          ++ Latex.group second
      else if juxtaposes style (.operation spelling function [left, right] juxtaposed) juxtaposed then
        first ++ "~" ++ second
      else first ++ op.latexSymbol ++ second := by
  have operator : (Expr.operation spelling function [left, right] juxtaposed).operator? = some op := hop
  rw [typeset, plain]
  dsimp only
  rw [List.map_cons, List.map_singleton, hwrap, List.zipWith_cons_cons, List.zipWith_cons_cons,
    List.zipWith_nil_left, typesetOperation, operator]
  cases op <;> rfl

end

include plain

theorem stands_operation {spelling function : String} {operands : List Expr} {juxtaposed : Bool}
    (h : IsTypesettable (.operation spelling function operands juxtaposed))
    (apart : KeepsApart style (.operation spelling function operands juxtaposed))
    (below : ∀ e ∈ operands, Stands (e.typeset style)) :
    Stands ((Expr.operation spelling function operands juxtaposed).typeset style) := by
  obtain ⟨op, hop, length⟩ := h
  obtain ⟨hformed, hstart⟩ := isWellFormed_latexSymbol op
  have operator : (Expr.operation spelling function operands juxtaposed).operator? = some op := hop
  have length' := length_wrappedOperands style true
    (.operation spelling function operands juxtaposed) operands juxtaposed
  unfold KeepsApart seams at apart
  dsimp only at apart
  rw [operator] at apart
  cases unary : op.isUnary with
  | true =>
      rw [unary, if_pos rfl] at length
      obtain ⟨e, rfl⟩ := List.length_eq_one_iff.1 length
      obtain ⟨wrap, hwrap⟩ := List.length_eq_one_iff.1 length'
      have hoperand := stands_enclosed (below e (List.mem_singleton_self e)) wrap
      rw [hwrap] at apart
      rw [typeset_one plain hop hwrap]
      split
      next hright =>
        rw [List.map_singleton, List.zipWith_cons_cons, List.zipWith_nil_left] at apart
        dsimp only at apart
        rw [if_pos hright] at apart
        exact .behind hformed hstart hoperand.fits fun hends =>
          hoperand.apart (apart _ (List.mem_singleton_self _) hends)
      next => exact hoperand.append (fits_iff.2 hformed) (startsWithLetter_of_startsApart hstart)
  | false =>
      rw [unary, if_neg Bool.false_ne_true] at length
      obtain ⟨left, right, rfl⟩ := List.length_eq_two.1 length
      obtain ⟨wrap, wrap', hwrap⟩ := List.length_eq_two.1 length'
      have hleft := stands_enclosed (below left (by simp)) wrap
      have hright := stands_enclosed (below right (by simp)) wrap'
      have grouped : ∀ s, startsWithLetter (Latex.group s).toList = false :=
        fun s => startsWithLetter_of_startsApart (startsApart_group s)
      rw [hwrap] at apart
      rw [typeset_two plain hop hwrap]
      dsimp only
      split
      next =>
        rw [String.append_assoc]
        refine .behind hformed hstart (.append hleft.fits.group.fits hright.fits.group.fits (grouped _))
          fun _ => ?_
        exact startsWithLetter_of_startsApart (startsApart_append (startsApart_group _))
      next hdivide =>
        split
        next =>
          have base : Stands (Latex.group (typesetEnclosed wrap (left.typeset style))) :=
            .of_fits hleft.fits.group.fits (grouped _)
          exact (stands_enclosed base _).before hright.fits.group.fits hformed (fun _ => grouped _) hstart
        next hpow =>
          split
          next => exact hleft.before hright.fits rfl (absurd · Bool.false_ne_true) rfl
          next hshown =>
            rw [List.map_cons, List.map_singleton, List.zipWith_cons_cons, List.zipWith_cons_cons,
              List.zipWith_nil_left] at apart
            dsimp only at apart
            rw [if_neg (by simp [hdivide, hpow, hshown])] at apart
            exact hleft.before hright.fits hformed (fun hends =>
              hright.apart (apart _ (List.mem_singleton_self _) hends)) hstart

theorem stands_call {callee : Expr} {args : List Expr}
    (apart : KeepsApart style (.call callee args)) (hcallee : Stands (callee.typeset style))
    (below : ∀ e ∈ args, Stands (e.typeset style)) :
    Stands ((Expr.call callee args).typeset style) := by
  have hargs : ∀ s ∈ args.map fun e => e.typeset style, Fits s :=
    List.forall_mem_map.2 fun e he => (below e he).fits
  have hparens := (Fits.commas hargs).parens
  have start := startsWithLetter_of_startsApart
    (startsApart_parens (",".intercalate (args.map fun e => e.typeset style)))
  rw [typeset, plain]
  dsimp only
  unfold typesetCall
  split
  next name hname =>
    obtain ⟨_, rfl⟩ : ∃ u : Unit, callee = .symbol name := by
      unfold calledName? at hname
      split at hname
      next heq =>
        obtain ⟨rfl, rfl⟩ := Expr.call.inj heq
        exact ⟨(), by rw [Option.some.inj hname]⟩
      next => cases hname
    split
    next template htemplate =>
      refine .fill htemplate hargs fun hbare => ?_
      have hone := eq_one_of_isBare hbare htemplate
      rw [List.length_map] at hone
      obtain ⟨arg, rfl⟩ := List.length_eq_one_iff.1 hone
      have hseam : isExponential (arg.typeset style) = false := by
        refine apart ("\\l" ++ name, _) ?_ ?_
        · rw [seams, if_pos hbare]
          exact List.mem_singleton_self _
        · simp only [isBare, Bool.or_eq_true, decide_eq_true_eq] at hbare
          rcases hbare with rfl | rfl
          · exact (by decide : endsInCommand (lexemes ("\\l" ++ "ceil")) = true)
          · exact (by decide : endsInCommand (lexemes ("\\l" ++ "floor")) = true)
      exact List.forall_mem_singleton.2 ((below arg (List.mem_singleton_self arg)).apart hseam)
    next =>
      exact (stands_command rfl (Solid.escape name).fits).append hparens start
  next => exact hcallee.append hparens start

omit plain in
theorem stands_part {e : Expr} (h : Stands (e.typeset style)) (limit : Nat) :
    Stands (typeset.part style limit e (e.typeset style)) :=
  stands_enclosed h _

theorem stands_comparison {functions : List String} {operands : List Expr}
    (h : ∀ f ∈ functions, isComparison f = true)
    (apart : KeepsApart style (.comparison functions operands))
    (below : ∀ e ∈ operands, Stands (e.typeset style)) :
    Stands ((Expr.comparison functions operands).typeset style) := by
  rw [typeset, plain]
  dsimp only
  cases operands with
  | nil =>
      rw [List.map_nil, List.tail_nil, List.zipWith_nil_right]
      exact .of_fits (fits_iff.2 rfl) rfl
  | cons e es =>
      obtain ⟨he, hes⟩ := List.forall_mem_cons.1 below
      obtain ⟨hlinks, hstart⟩ := fits_links h
        (List.forall_mem_map.2 fun e he => stands_part (hes e he) Precedence.relational) apart
      exact (stands_part he _).append hlinks hstart

/-- The markup of an index begins with a point or an underscore. -/
theorem startsApart_index {part : Expr} (h : part.form = .index) :
    startsApart (part.typeset style) = true := by
  cases part with
  | index =>
      unfold typeset
      rw [plain]
      dsimp only
      split
      · exact startsApart_append rfl
      · exact startsApart_append rfl
  | _ => cases h

theorem stands_index {dimensions : List Expr} {dotted : Bool}
    (below : ∀ e ∈ dimensions, Stands (e.typeset style)) :
    Stands ((Expr.index dimensions dotted).typeset style) := by
  refine .of_fits ?_ (startsWithLetter_of_startsApart (startsApart_index plain rfl))
  unfold typeset
  rw [plain]
  dsimp only
  split
  next => exact .behind rfl (Solid.escape _).fits (absurd · Bool.false_ne_true)
  next =>
    have hdimensions : ∀ s ∈ dimensions.map fun e => e.typeset style, Fits s :=
      List.forall_mem_map.2 fun e he => (below e he).fits
    exact .behind rfl (Fits.commas hdimensions).group.fits (absurd · Bool.false_ne_true)

theorem stands_array {items : List Expr} (below : ∀ e ∈ items, Stands (e.typeset style))
    (inside : ∀ row, Expr.array row ∈ items → ∀ e ∈ row, Stands (e.typeset style)) :
    Stands ((Expr.array items).typeset style) := by
  have hbreak : Solid "\\\\" := .of_isWellFormed rfl rfl
  have line : ∀ {s : String}, Fits s → Solid (s ++ "\\\\") := fun hs => hs.andSolid hbreak rfl
  rw [typeset, plain]
  dsimp only
  refine stands_environment rfl (Solid.join ?_).fits
  refine List.forall_mem_map.2 fun item hitem => ?_
  split
  next row => 
    refine line (.intercalate ?_ (.of_isWellFormed rfl rfl) rfl)
    exact List.forall_mem_map.2 fun e he => (inside row hitem e he).fits
  next => exact line (below _ hitem).fits

theorem stands_object {properties : List (String × Expr)}
    (below : ∀ p ∈ properties, Stands (p.2.typeset style)) :
    Stands ((Expr.object properties).typeset style) := by
  have word : ∀ s, s.toList.all isInert = true → Fits s :=
    fun s hs => (Solid.inert (List.all_eq_true.1 hs)).fits
  have hbegin : Solid (Latex.command "begin" "array" ++ Latex.group "ll") :=
    (solid_command rfl (word _ rfl)).append (word _ rfl).group
  have hend : Fits (Latex.command "end" "array") := (solid_command rfl (word _ rfl)).fits
  have hlines : Fits ("\n".intercalate (properties.map fun p =>
      Latex.command "mathbf" (Latex.escape p.1 ++ ":") ++ " & " ++ p.2.typeset style ++ "\\\\")) := by
    refine .intercalate (List.forall_mem_map.2 fun p hp => ?_)
      (.of_isWellFormed rfl rfl) rfl
    have key := (Solid.escape p.1).append (.of_isWellFormed (rfl : isWellFormed ":" = true) rfl)
    have column : Solid " & " := .of_isWellFormed rfl rfl
    have line : Solid "\\\\" := .of_isWellFormed rfl rfl
    exact ((((solid_command rfl key.fits).append column).andFits (below p hp).fits).andSolid line
      rfl).fits
  rw [typeset, plain]
  dsimp only
  have inside := (hbegin.andFits hlines).append hend
    (startsWithLetter_of_startsApart (startsApart_command _ _))
  have whole : Stands ("\\left\\\x7b" ++ _ ++ "\\right\\\x7d") :=
    .delimited inside (d := .mark '\x7b') rfl rfl rfl (absurd · Bool.false_ne_true) rfl rfl
  simpa only [String.append_assoc] using whole

theorem stands_conditional {condition yes no : Expr} (hcondition : Stands (condition.typeset style))
    (hyes : Stands (yes.typeset style)) (hno : Stands (no.typeset style)) :
    Stands ((Expr.conditional condition yes no).typeset style) := by
  have word : ∀ s, s.toList.all isInert = true → Solid s :=
    fun _ hs => .inert (List.all_eq_true.1 hs)
  have text : ∀ s, s.toList.all isInert = true → Solid (Latex.command "text" s) :=
    fun s hs => solid_command rfl (word s hs).fits
  have space : Solid "\\;" := .of_isWellFormed rfl rfl
  have line : Solid "\\\\" := .of_isWellFormed rfl rfl
  have cell : ∀ {s t : String}, Solid s → Fits t → Solid (s ++ ", &\\quad" ++ Latex.group t) :=
    fun hs ht => (hs.andFits (fits_iff.2 rfl)).andSolid ht.group (startsApart_group _)
  have first := cell ((word " " rfl).append hyes.fits.group)
    (((text "if " rfl).append space).andFits hcondition.fits)
  have second := cell ((first.append line).append hno.fits.group) (text "otherwise" rfl).fits
  rw [typeset, plain]
  exact stands_environment rfl second.fits

theorem stands_range {start stop : Expr} {step : Option Expr} (hstart : Stands (start.typeset style))
    (hstop : Stands (stop.typeset style)) (hstep : ∀ e ∈ step, Stands (e.typeset style)) :
    Stands ((Expr.range start stop step).typeset style) := by
  have colon : ∀ {s t : String}, Stands s → Stands t → Stands (s ++ ":" ++ t) :=
    fun hs ht => hs.before ht.fits rfl (absurd · Bool.false_ne_true) rfl
  cases step with
  | none =>
      rw [typeset, plain]
      exact colon (stands_part hstart _) (stands_part hstop _)
  | some step =>
      rw [typeset, plain]
      exact colon (colon (stands_part hstart _) (stands_part (hstep step rfl) _)) (stands_part hstop _)

theorem stands_assignment {target value : Expr} {part : Option Expr}
    (h : IsTypesettable (.assignment target part value)) (htarget : Stands (target.typeset style))
    (hpart : ∀ e ∈ part, Stands (e.typeset style)) (hvalue : Stands (value.typeset style)) :
    Stands ((Expr.assignment target part value).typeset style) := by
  have becomes : ∀ {s : String}, Stands s →
      Stands (s ++ ":=" ++ typeset.part style Precedence.assignment value (value.typeset style)) :=
    fun hs => hs.before (stands_part hvalue _).fits rfl (absurd · Bool.false_ne_true) rfl
  cases part with
  | none =>
      rw [typeset, plain]
      exact becomes htarget
  | some part =>
      rw [typeset, plain]
      exact becomes (htarget.append (hpart part rfl).fits
        (startsWithLetter_of_startsApart (startsApart_index plain h)))

theorem stands_definition {name : String} {params : List String} {body : Expr}
    (h : IsTypesettable (.definition name params body)) (hbody : Stands (body.typeset style)) :
    Stands ((Expr.definition name params body).typeset style) := by
  have hparams : ∀ s ∈ params.map Latex.symbol, Fits s :=
    List.forall_mem_map.2 fun param hparam => .symbol (h param hparam)
  have front := (stands_command (by decide : isWellFormed ("\\" ++ "mathrm") = true)
    (Solid.escape name).fits).append (Fits.commas hparams).parens
      (startsWithLetter_of_startsApart (startsApart_parens _))
  rw [typeset, plain]
  exact front.before (stands_part hbody _).fits rfl (absurd · Bool.false_ne_true) rfl

theorem stands_block {entries : List (Entry Expr)}
    (below : ∀ entry ∈ entries, Stands (entry.body.typeset style)) :
    Stands ((Expr.block entries).typeset style) := by
  rw [typeset, plain]
  dsimp only
  refine .intercalate (List.forall_mem_map.2 fun entry hentry => ?_)
    (.of_isWellFormed rfl rfl) rfl
  split
  next => rw [String.append_empty]; exact below entry hentry
  next => exact (below entry hentry).append (fits_iff.2 rfl) rfl

theorem stands_constant {value : String} {kind : ConstantKind}
    (h : IsTypesettable (.constant value kind)) : Stands ((Expr.constant value kind).typeset style) := by
  unfold typeset
  rw [plain]
  cases kind with
  | number =>
      have word : ∀ {name : String}, typesetNumber name = Latex.symbol name →
          (glyph? name).isSome = true → Stands (typesetNumber name) :=
        fun hname hglyph => hname ▸ stands_word hglyph
      obtain rfl | rfl | ⟨inert, start⟩ := h
      · exact word rfl rfl
      · exact word rfl rfl
      · exact stands_number inert start
  | string =>
      have mark : Solid "\"" := .of_isWellFormed rfl rfl
      exact stands_command rfl ((mark.append (.escape value)).append mark).fits
  | boolean | null | undefined => exact stands_word h

/-- The markup of a node stands by itself, if that of its children and of their children does. -/
theorem stands_node {e : Expr} (here : e.IsTypesettable) (apart : KeepsApart style e)
    (below : ∀ child ∈ e.children.map (·.2), Stands (child.typeset style))
    (inside : ∀ child ∈ e.children.map (·.2), ∀ e' ∈ child.children.map (·.2),
      Stands (e'.typeset style)) : Stands (e.typeset style) := by
  cases e with
  | constant value kind => exact stands_constant plain here
  | symbol name =>
      rw [typeset, plain]
      exact stands_symbol here
  | operation spelling function operands juxtaposed =>
      rw [children, map_snd_itemChildren] at below
      exact stands_operation plain here apart below
  | call callee args =>
      simp only [children, List.map_cons, map_snd_itemChildren, List.forall_mem_cons] at below
      exact stands_call plain apart below.1 below.2
  | range start stop step =>
      cases step with
      | none =>
          simp only [children, List.map_cons, List.forall_mem_cons] at below
          exact stands_range plain below.1 below.2.1 (by rintro _ ⟨⟩)
      | some step =>
          simp only [children, List.map_cons, List.forall_mem_cons] at below
          exact stands_range plain below.1 below.2.1 (by simpa using below.2.2.1)
  | conditional condition yes no =>
      simp only [children, List.map_cons, List.forall_mem_cons] at below
      exact stands_conditional plain below.1 below.2.1 below.2.2.1
  | assignment target part value =>
      cases part with
      | none =>
          simp only [children, List.map_cons, List.forall_mem_cons] at below
          exact stands_assignment plain here below.1 (by rintro _ ⟨⟩) below.2.1
      | some part =>
          simp only [children, List.map_cons, List.forall_mem_cons] at below
          exact stands_assignment plain here below.1 (by simpa using below.2.1) below.2.2.1
  | definition name params body =>
      simp only [children, List.map_cons, List.forall_mem_cons] at below
      exact stands_definition plain here below.1
  | block entries =>
      rw [map_snd_children_block, List.forall_mem_map] at below
      exact stands_block plain below
  | array items =>
      rw [children, map_snd_itemChildren] at below
      refine stands_array plain below fun row hrow e he => ?_
      have hrow' : Expr.array row ∈ (Expr.array items).children.map (·.2) := by
        rwa [children, map_snd_itemChildren]
      refine inside _ hrow' e ?_
      rwa [children, map_snd_itemChildren]
  | object properties =>
      rw [map_snd_children_object, List.forall_mem_map] at below
      exact stands_object plain below
  | parenthesis e =>
      rw [typeset, plain]
      exact stands_enclosed (below e (by simp [children])) _
  | index dimensions dotted =>
      rw [children, map_snd_itemChildren] at below
      exact stands_index plain below
  | access owner part =>
      simp only [children, List.map_cons, List.forall_mem_cons] at below
      rw [typeset, plain]
      exact (stands_enclosed below.1 _).append below.2.1.fits
        (startsWithLetter_of_startsApart (startsApart_index plain here))
  | comparison functions operands =>
      rw [children, map_snd_itemChildren] at below
      exact stands_comparison plain here apart below

/-- The markup of an expression stands by itself, if its nodes can be typeset and no power of `e`
stands directly behind a command. -/
theorem stands_typeset {e : Expr}
    (h : e.Everywhere fun node => node.IsTypesettable ∧ KeepsApart style node) :
    Stands (e.typeset style) ∧ ∀ child ∈ e.children.map (·.2), Stands (child.typeset style) := by
  induction h with
  | node here _ ih =>
      have below := fun child hchild => (ih child hchild).1
      exact ⟨stands_node plain here.1 here.2 below fun child hchild => (ih child hchild).2, below⟩

/-- The markup of what a source is parsed to is well formed, if no power of `e` stands directly behind a
command. -/
theorem isWellFormed_typeset {source : String} {e : Expr} (h : parse source = .ok e)
    (apart : e.Everywhere (KeepsApart style)) : isWellFormed (e.typeset style) = true :=
  fits_iff.1 (stands_typeset plain ((isTypesettable_of_parse h).and apart)).1.fits

end

instance (style : Style) (e : Expr) : Decidable (KeepsApart style e) :=
  inferInstanceAs (Decidable (∀ seam ∈ seams style e, _ → _))

/-- The tree of `not (exp(x) * pi <= ceil(a_1))`. -/
def roundedPower : Expr :=
  .apply .not [.parenthesis (.apply .smallerEq
    [.apply .multiply [.call (.symbol "exp") [.symbol "x"], .symbol "pi"],
      .call (.symbol "ceil") [.symbol "a_1"]])]

/-- A power of `e` may stand in front of a command, and behind a parenthesis. -/
theorem isWellFormed_typeset_roundedPower :
    parse "not (exp(x) * pi <= ceil(a_1))" = .ok roundedPower ∧
      roundedPower.Everywhere (KeepsApart {}) ∧
      isWellFormed (roundedPower.typeset {}) = true := by
  have source : parse "not (exp(x) * pi <= ceil(a_1))" = .ok roundedPower := by decide +kernel
  have apart : roundedPower.Everywhere (KeepsApart {}) := forall_mem_nodes.1 (by decide +kernel)
  exact ⟨source, apart, isWellFormed_typeset (fun _ => rfl) source apart⟩

/-- The tree of `2 * exp(x)`. -/
def twicePower : Expr :=
  .apply .multiply [.number "2", .call (.symbol "exp") [.symbol "x"]]

/-- Behind a command, the letter that a power of `e` begins with becomes a part of it. -/
theorem not_isWellFormed_typeset :
    parse "2 * exp(x)" = .ok twicePower ∧ twicePower.typeset {} = "2\\cdote^\x7b x\x7d" ∧
      isWellFormed (twicePower.typeset {}) = false := by
  have source : parse "2 * exp(x)" = .ok twicePower := by decide +kernel
  have markup : twicePower.typeset {} = "2\\cdote^\x7b x\x7d" := by decide +kernel
  exact ⟨source, markup, by rw [markup]; decide⟩

end Formula.Expr
