import Mathlib.Data.List.Forall2
import Formula.Proofs.Grammar.Telling
import Formula.Proofs.Lines

/-!
The grammar realises the table of precedences.

A graded expression is made of names, numbers, parentheses, operators and chains of comparisons, with
operands that bind as tightly as `Operator.precedence` asks for. Written infix, word by word and without
further parentheses, it is read as what it is (`parse_infix`): its words tell it (`Graded.tells`), and
each operand is on a level of the grammar where it may stand (`Graded.legible`).
-/

namespace Formula

/-! ### The operators of each fixity -/

namespace Operator

variable {op : Operator}

theorem leading?_symbol (unary : op.isUnary = true) (right : op.associativity = .right) :
    leading? op.symbol = some op := by
  revert unary right
  cases op <;> decide

theorem trailing?_symbol (unary : op.isUnary = true) (left : op.associativity = .left) :
    trailing? op.symbol = some op := by
  revert unary left
  cases op <;> decide

theorem precedence_of_trailing (unary : op.isUnary = true) (left : op.associativity = .left) :
    15 ≤ op.precedence := by
  revert unary left
  cases op <;> decide

theorem symbol_of_power (binary : op.isUnary = false) (right : op.associativity = .right) :
    op.symbol = "^" ∨ op.symbol = ".^" := by
  revert binary right
  cases op <;> decide

/-- Operators that group to the left are on the levels of their precedences. -/
theorem level_of_left (binary : op.isUnary = false) (left : op.associativity = .left) :
    op.level = op.precedence ∧ op.level ≤ 12 := by
  revert binary left
  cases op <;> decide

theorem precedence_le_level (op : Operator) : op.precedence ≤ op.level := by
  cases op <;> decide

theorem level_of_tight {k : Nat} (h : k ≤ op.precedence) :
    (13 ≤ k → 15 ≤ op.level) ∧ (15 ≤ k → 17 ≤ op.level) := by
  cases op <;> simp only [precedence, Precedence.relational] at h <;> simp only [level, precedence] <;>
    omega

theorem associativity_of_relational (h : op.isRelational = true) :
    op.isUnary = false ∧ op.associativity = .left ∧ op.precedence = 9 := by
  revert h
  cases op <;> decide

end Operator

namespace Expr

open Grammar (Tells maxDepth)

/-! ### Graded expressions -/

/-- Whether an operand binds at least as tightly as a precedence; what is no operation and no chain of
comparisons binds tightest. -/
def BindsAtLeast (k : Nat) (e : Expr) : Prop :=
  ∀ precedence, Rendering.strength? .keep e = some precedence → k ≤ precedence

/-- Expressions whose operands bind as tightly as the table of precedences asks for. -/
inductive Graded : Expr → Prop
  | symbol {name : String} (identifier : Token.isIdentifier name = true)
      (free : Grammar.ofName name = .symbol name) : Graded (.symbol name)
  | number {text : String} (lexical : Token.IsNumber text) : Graded (.number text)
  | parenthesis {e : Expr} (h : Graded e) : Graded (.parenthesis e)
  | prefixed {op : Operator} {e : Expr} (unary : op.isUnary = true)
      (right : op.associativity = .right) (h : Graded e) (tight : e.BindsAtLeast 13) :
      Graded (.apply op [e])
  | postfixed {op : Operator} {e : Expr} (unary : op.isUnary = true)
      (left : op.associativity = .left) (h : Graded e) (tight : e.BindsAtLeast op.precedence) :
      Graded (.apply op [e])
  | power {op : Operator} {base exponent : Expr} (binary : op.isUnary = false)
      (right : op.associativity = .right) (hbase : Graded base) (tight : base.BindsAtLeast 15)
      (hexponent : Graded exponent) (tight' : exponent.BindsAtLeast 14) :
      Graded (.apply op [base, exponent])
  | binary {op : Operator} {left right : Expr} (binary : op.isUnary = false)
      (grouping : op.associativity = .left) (plain : op.isRelational = false) (hleft : Graded left)
      (tight : left.BindsAtLeast op.precedence) (hright : Graded right)
      (tight' : right.BindsAtLeast (op.precedence + 1)) : Graded (.apply op [left, right])
  | compared {op : Operator} {left right : Expr} (relational : op.isRelational = true)
      (hleft : Graded left) (tight : left.BindsAtLeast 10) (hright : Graded right)
      (tight' : right.BindsAtLeast 10) : Graded (.apply op [left, right])
  | comparison {ops : List Operator} {operands : List Expr}
      (relational : ∀ op ∈ ops, op.isRelational = true) (many : 2 ≤ ops.length)
      (length : operands.length = ops.length + 1) (h : ∀ e ∈ operands, Graded e)
      (tight : ∀ e ∈ operands, e.BindsAtLeast 10) :
      Graded (.comparison (ops.map Operator.name) operands)

mutual

/-- The words of an expression that is written infix. -/
def words : Expr → List String
  | .constant value _ => [value]
  | .symbol name => [name]
  | .parenthesis e => ["("] ++ e.words ++ [")"]
  | .operation spelling function [e] _ =>
    if groupsRight function then [spelling] ++ e.words else e.words ++ [spelling]
  | .operation spelling _ [left, right] _ => left.words ++ [spelling] ++ right.words
  | .comparison functions (e :: es) => e.words ++ wordsBehind functions es
  | _ => []

/-- The words of comparisons, each with its right operand. -/
def wordsBehind : List String → List Expr → List String
  | function :: functions, e :: es => [comparisonSymbol function] ++ e.words ++ wordsBehind functions es
  | _, _ => []

end

attribute [local simp] words wordsBehind

/-- The text of an expression that is written infix, with spaces between the words. -/
def infixText (e : Expr) : String :=
  " ".intercalate e.words

/-! ### Levels -/

theorem level_apply (op : Operator) (operands : List Expr) :
    (apply op operands).level false = op.level := by
  simp only [apply, level, Operator.ofName?_name, Bool.false_eq_true, if_false]
  split <;> simp_all [Operator.level, Operator.precedence]

theorem strength?_apply (op : Operator) (operands : List Expr) :
    Rendering.strength? .keep (apply op operands) = some op.precedence := by
  show (Operator.ofName? op.name).map Operator.precedence = _
  rw [Operator.ofName?_name, Option.map_some]

theorem isComparison_names {ops : List Operator} (relational : ∀ op ∈ ops, op.isRelational = true) :
    ∀ name ∈ ops.map Operator.name, isComparison name = true := by
  intro name hname
  obtain ⟨op, hop, rfl⟩ := List.mem_map.1 hname
  rw [isComparison, Operator.ofName?_name]
  exact relational op hop

/-- A graded expression is on a level where operators that bind as tightly as it are. -/
theorem Graded.le_level {e : Expr} {k l : Nat} (h : Graded e) (hk : e.BindsAtLeast k)
    (hl : ∀ op : Operator, k ≤ op.precedence → l ≤ op.level) (top : l ≤ 17) : l ≤ e.level false := by
  have ofOperator : ∀ {op : Operator} {operands : List Expr}, (apply op operands).BindsAtLeast k →
      l ≤ (apply op operands).level false := by
    intro op operands hop
    rw [level_apply]
    exact hl op (hop _ (strength?_apply op operands))
  cases h with
  | symbol => exact top
  | number => exact top
  | parenthesis => exact top
  | prefixed => exact ofOperator hk
  | postfixed => exact ofOperator hk
  | power => exact ofOperator hk
  | binary => exact ofOperator hk
  | compared => exact ofOperator hk
  | comparison => exact hl .equal (hk _ rfl)

theorem Graded.le_level_same {e : Expr} {k : Nat} (h : Graded e) (hk : e.BindsAtLeast k)
    (weak : k ≤ 13) : k ≤ e.level false :=
  h.le_level hk (fun op hop => Nat.le_trans hop op.precedence_le_level) (by omega)

/-! ### Graded expressions are legible -/

theorem Graded.opensProduct_eq_false {e : Expr} (h : Graded e) : e.opensProduct false = false := by
  rw [opensProduct]
  · exact Bool.and_false _
  · rintro spelling function left right rfl
    cases h

theorem Graded.legible {e : Expr} (h : Graded e) : Legible false e := by
  induction h with
  | symbol identifier free => exact .name identifier free
  | number lexical => exact .number lexical (isLiteral_of_isNumber lexical)
  | parenthesis _ ih => exact .parenthesis ih
  | prefixed unary right h tight ih =>
      have level := h.le_level tight (fun op hop => (Operator.level_of_tight hop).1 (by omega)) (by omega)
      exact .prefixed (Operator.leading?_symbol unary right) ih level
  | @postfixed op e unary left h tight ih =>
      have strong := Operator.precedence_of_trailing unary left
      have level := h.le_level tight (fun op hop => (Operator.level_of_tight hop).2 strong) (by omega)
      exact .postfixed (Operator.trailing?_symbol unary left) ih level
  | power binary right hbase tight hexponent tight' ihbase ihexponent =>
      have level := hbase.le_level tight
        (fun op hop => (Operator.level_of_tight hop).2 (by omega)) (by omega)
      have level' := hexponent.le_level tight'
        (fun op hop => (Operator.level_of_tight hop).1 (by omega)) (by omega)
      exact .power (Operator.symbol_of_power binary right) (Operator.binary?_symbol binary) ihbase level
        ihexponent level'
  | binary binary grouping plain hleft tight hright tight' ihleft ihright =>
      obtain ⟨hlevel, weak⟩ := Operator.level_of_left binary grouping
      have level := hleft.le_level_same tight (by omega)
      have level' := hright.le_level_same tight' (by omega)
      refine .binary (Operator.binary?_symbol binary) weak ihleft ?_ ihright ?_
        fun _ _ => hright.opensProduct_eq_false
      · rw [plain]
        exact Nat.le_trans (Nat.le_of_eq hlevel) level
      · omega
  | compared relational hleft tight hright tight' ihleft ihright =>
      obtain ⟨binary, grouping, hprecedence⟩ := Operator.associativity_of_relational relational
      obtain ⟨hlevel, weak⟩ := Operator.level_of_left binary grouping
      have level := hleft.le_level_same tight (by omega)
      have level' := hright.le_level_same tight' (by omega)
      refine .binary (Operator.binary?_symbol binary) weak ihleft ?_ ihright ?_
        fun _ _ => hright.opensProduct_eq_false
      · rw [relational]
        exact level
      · omega
  | @comparison ops operands relational many length h tight ih =>
      have levels : ∀ e ∈ operands, 10 ≤ e.level false := fun e he =>
        (h e he).le_level_same (tight e he) (by omega)
      obtain ⟨init, last, rfl⟩ : ∃ init last, operands = init ++ [last] := by
        rcases List.eq_nil_or_concat' operands with rfl | ⟨init, last, rfl⟩
        · simp at length
        · exact ⟨init, last, rfl⟩
      rw [List.forall_mem_append, List.forall_mem_singleton] at ih levels
      exact .comparison (isComparison_names relational) (by simpa using many) (by simpa using length)
        ih.1 levels.1 ih.2 levels.2

/-! ### Words tell the expressions that they are written for -/

theorem Graded.words_ne_nil {e : Expr} (h : Graded e) : e.words ≠ [] := by
  induction h with
  | symbol => exact nofun
  | number => exact nofun
  | parenthesis => simp
  | prefixed | postfixed =>
      rw [apply, words]
      split <;> simp
  | power => simp [apply]
  | binary => simp [apply]
  | compared => simp [apply]
  | @comparison ops operands _ _ length _ _ ih =>
      cases operands with
      | nil => simp at length
      | cons e es =>
          rw [words]
          exact List.append_ne_nil_of_left_ne_nil (ih e (List.mem_cons_self ..)) _

theorem infixText_parenthesis {e : Expr} (h : e.words ≠ []) :
    (Expr.parenthesis e).infixText = "(" ++ (" " ++ (e.infixText ++ " ")) ++ ")" := by
  rw [infixText, words, String.intercalate_append_of_ne_nil (by simp) (by simp),
    String.intercalate_append_of_ne_nil (by simp) h, String.intercalate_singleton,
    String.intercalate_singleton, ← infixText]
  simp only [String.append_assoc]

theorem infixText_prefixed {op : Operator} {e : Expr} (right : op.associativity = .right)
    (h : e.words ≠ []) : (apply op [e]).infixText = op.symbol ++ (" " ++ e.infixText) := by
  rw [infixText, apply, words, groupsRight_name, right, if_pos (by simp),
    String.intercalate_append_of_ne_nil (by simp) h, String.intercalate_singleton, ← infixText,
    String.append_assoc]

theorem infixText_postfixed {op : Operator} {e : Expr} (left : op.associativity = .left)
    (h : e.words ≠ []) : (apply op [e]).infixText = e.infixText ++ " " ++ op.symbol := by
  rw [infixText, apply, words, groupsRight_name, left, if_neg (by simp),
    String.intercalate_append_of_ne_nil h (by simp), String.intercalate_singleton, ← infixText]

theorem infixText_binary {op : Operator} {left right : Expr} (hleft : left.words ≠ [])
    (hright : right.words ≠ []) : (apply op [left, right]).infixText
      = left.infixText ++ " " ++ op.symbol ++ " " ++ right.infixText := by
  rw [infixText, apply, words, String.intercalate_append_of_ne_nil (by simp) hright,
    String.intercalate_append_of_ne_nil hleft (by simp), String.intercalate_singleton, ← infixText,
    ← infixText]

/-- Each comparison adds its symbol and its right operand. -/
theorem intercalate_wordsBehind {functions front : List String} {es : List Expr} (hfront : front ≠ [])
    (length : es.length = functions.length) (h : ∀ e ∈ es, e.words ≠ []) :
    " ".intercalate (front ++ wordsBehind functions es)
      = " ".intercalate front ++ String.join (List.zipWith
          (fun function text => " " ++ comparisonSymbol function ++ " " ++ text)
          functions (es.map infixText)) := by
  induction functions generalizing front es with
  | nil =>
      rw [wordsBehind, List.append_nil, List.zipWith_nil_left, String.join_nil, String.append_empty]
      exact nofun
  | cons function functions ih =>
      cases es with
      | nil => cases length
      | cons e es =>
          obtain ⟨he, hes⟩ := List.forall_mem_cons.1 h
          have hword : " ".intercalate (front ++ ([comparisonSymbol function] ++ e.words))
              = " ".intercalate front ++ (" " ++ comparisonSymbol function ++ " " ++ e.infixText) := by
            rw [String.intercalate_append_of_ne_nil hfront (by simp),
              String.intercalate_append_of_ne_nil (by simp) he, String.intercalate_singleton,
              ← infixText]
            simp only [String.append_assoc]
          rw [wordsBehind, ← List.append_assoc, ih (by simp) (Nat.succ.inj length) hes, hword,
            List.map_cons, List.zipWith_cons_cons, String.join_cons, String.append_assoc]

theorem infixText_comparison {functions : List String} {operands : List Expr}
    (length : operands.length = functions.length + 1) (h : ∀ e ∈ operands, e.words ≠ []) :
    (Expr.comparison functions operands).infixText
      = (operands.map infixText).headD "" ++ String.join (List.zipWith
          (fun function text => " " ++ comparisonSymbol function ++ " " ++ text)
          functions (operands.map infixText).tail) := by
  cases operands with
  | nil => cases length
  | cons e es =>
      obtain ⟨he, hes⟩ := List.forall_mem_cons.1 h
      rw [infixText, words, intercalate_wordsBehind he (Nat.succ.inj length) hes, ← infixText]
      rfl

/-- The words of a graded expression tell it, if nothing is nested too deeply. -/
theorem Graded.tells {e : Expr} (h : Graded e) {n d : Nat} (fits : d + e.nesting < maxDepth) :
    Tells n d e.infixText e := by
  induction h generalizing d n with
  | @symbol name identifier free =>
      rw [infixText, words, String.intercalate_singleton]
      have htells := Grammar.tells_name (n := n) fits identifier
      rwa [free] at htells
  | @number text lexical =>
      rw [Expr.number, infixText, words, String.intercalate_singleton]
      exact Grammar.tells_number fits lexical (isLiteral_of_isNumber lexical)
  | parenthesis h ih =>
      rw [nesting] at fits
      rw [infixText_parenthesis h.words_ne_nil]
      exact Grammar.tells_parenthesis (p := true) (by omega) (ih (by omega)).spaced.indented
  | @prefixed op e unary right h tight ih =>
      rw [apply, nesting, groupsRight_name, right, if_pos (by simp)] at fits
      rw [infixText_prefixed right h.words_ne_nil]
      exact Grammar.tells_prefixed (by omega) (Operator.leading?_symbol unary right)
        (ih (by omega)).loose.indented fun _ => ⟨_, String.toList_append ..⟩
  | @postfixed op e unary left h tight ih =>
      rw [apply, nesting, groupsRight_name, left, if_neg (by simp)] at fits
      rw [infixText_postfixed left h.words_ne_nil]
      exact Grammar.tells_postfixed (B := fun _ => True) (Operator.trailing?_symbol unary left)
        (ih fits).spaced fun _ _ _ => trivial
  | @power op base exponent binary right hbase tight hexponent tight' ih ih' =>
      rw [apply, nesting, groupsRight_name, right, if_pos (by simp)] at fits
      rw [infixText_binary hbase.words_ne_nil hexponent.words_ne_nil]
      exact Grammar.tells_power (Operator.symbol_of_power binary right) (Operator.binary?_symbol binary)
        (ih (by omega)) (ih' (by omega))
  | @binary op left right binary grouping plain hleft tight hright tight' ih ih' =>
      rw [apply, nesting, groupsRight_name, grouping, if_neg (by simp)] at fits
      rw [infixText_binary hleft.words_ne_nil hright.words_ne_nil]
      exact Grammar.tells_binary (Operator.binary?_symbol binary)
        (Operator.level_of_left binary grouping).2 (ih (by omega)) (ih' (by omega))
  | @compared op left right relational hleft tight hright tight' ih ih' =>
      obtain ⟨binary, grouping, _⟩ := Operator.associativity_of_relational relational
      rw [apply, nesting, groupsRight_name, grouping, if_neg (by simp)] at fits
      rw [infixText_binary hleft.words_ne_nil hright.words_ne_nil]
      exact Grammar.tells_binary (Operator.binary?_symbol binary)
        (Operator.level_of_left binary grouping).2 (ih (by omega)) (ih' (by omega))
  | @comparison ops operands relational many length h tight ih =>
      rw [nesting] at fits
      rw [infixText_comparison (by simpa using length) fun e he => (h e he).words_ne_nil]
      refine Grammar.tells_comparison (isComparison_names relational) (by simpa using many) (by simpa using length) ?_
      rw [List.forall₂_map_left_iff, List.forall₂_same]
      intro e he
      have := nesting_le_of_mem he
      exact ih e he (by omega)

/-- An expression whose operands bind as tightly as the table of precedences asks for is read as what it
is from its words, with spaces between them and without further parentheses. -/
theorem parse_infix {e : Expr} (h : Graded e) (shallow : e.nesting < maxDepth) :
    parse e.infixText = .ok e :=
  parse_of_tells (h.tells (by omega)) h.legible

/-- The tree of `- ( a + 2 ) ^ b ! < c mod 3 <= not d`. -/
def chained : Expr :=
  .comparison ([.smaller, .smallerEq].map Operator.name)
    [.apply .unaryMinus [.apply .pow
      [.parenthesis (.apply .add [.symbol "a", .number "2"]), .apply .factorial [.symbol "b"]]],
      .apply .mod [.symbol "c", .number "3"], .apply .not [.symbol "d"]]

theorem BindsAtLeast.of_none {e : Expr} (h : Rendering.strength? .keep e = none) (k : Nat) :
    e.BindsAtLeast k :=
  fun _ hsome => nomatch h.symm.trans hsome

theorem bindsAtLeast_apply {op : Operator} {operands : List Expr} {k : Nat} (h : k ≤ op.precedence) :
    (apply op operands).BindsAtLeast k := by
  intro precedence hprecedence
  obtain rfl := Option.some.inj ((strength?_apply op operands).symm.trans hprecedence)
  exact h

theorem graded_chained : Graded chained := by
  have a : Graded (.symbol "a") := .symbol (by decide) rfl
  have b : Graded (.symbol "b") := .symbol (by decide) rfl
  have c : Graded (.symbol "c") := .symbol (by decide) rfl
  have d : Graded (.symbol "d") := .symbol (by decide) rfl
  have two : Graded (.number "2") := .number ⟨by decide, by decide⟩
  have three : Graded (.number "3") := .number ⟨by decide, by decide⟩
  have sum : Graded (.apply .add [.symbol "a", .number "2"]) :=
    .binary rfl rfl rfl a (.of_none rfl _) two (.of_none rfl _)
  have factorial : Graded (.apply .factorial [.symbol "b"]) := .postfixed rfl rfl b (.of_none rfl _)
  have power : Graded (.apply .pow
      [.parenthesis (.apply .add [.symbol "a", .number "2"]), .apply .factorial [.symbol "b"]]) :=
    .power rfl rfl (.parenthesis sum) (.of_none rfl _) factorial (bindsAtLeast_apply (by decide))
  have negative : Graded (.apply .unaryMinus [_]) :=
    .prefixed rfl rfl power (bindsAtLeast_apply (by decide))
  have remainder : Graded (.apply .mod [_, _]) :=
    .binary rfl rfl rfl c (.of_none rfl _) three (.of_none rfl _)
  have negation : Graded (.apply .not [_]) := .prefixed rfl rfl d (.of_none rfl _)
  refine .comparison (by decide) (by decide) rfl ?_ ?_
  · simp only [List.forall_mem_cons, List.not_mem_nil, false_imp_iff, implies_true, and_true]
    exact ⟨negative, remainder, negation⟩
  · simp only [List.forall_mem_cons, List.not_mem_nil, false_imp_iff, implies_true, and_true]
    exact ⟨bindsAtLeast_apply (by decide), bindsAtLeast_apply (by decide),
      bindsAtLeast_apply (by decide)⟩

/-- A chain of comparisons, with operators of every fixity. -/
theorem parse_infix_chained :
    parse "- ( a + 2 ) ^ b ! < c mod 3 <= not d" = .ok chained := by
  have text : chained.infixText = "- ( a + 2 ) ^ b ! < c mod 3 <= not d" := by decide
  rw [← text]
  exact parse_infix graded_chained (by decide)

end Expr

end Formula
