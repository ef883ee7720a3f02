import Formula.Proofs.Rendering.Absorbing
import Formula.Proofs.Rendering.Statements

/-!
What is read of an expression that is written without the parentheses of the tree.

Operations that an operator takes in its right operand without parentheses are read to its left
(`Expr.grouped`), and everything else is read part by part, as it is written (`Expr.reading`). The operands
bind as tightly where they are read as the operators need (`Slots`), so an operation is legible as it is
read if its operands are (`Legible.readLeft`).
-/

namespace Formula

/-- The style in which only those parentheses are written that the operators need. -/
def Style.sparing (juxtaposition : Juxtaposition) : Style :=
  { parentheses := .auto, juxtaposition }

namespace Expr

open Grammar Rendering

/-! ### What is read -/

/-- An operation as its text is read, from its operands as they are read: an operator that groups to the
left takes the operand in front of it into the one behind it, unless the product is one by
juxtaposition. -/
def readOperation (spelling function : String) (operands : List Expr) (juxtaposed : Bool) : Expr :=
  match Operator.ofName? function, operands, juxtaposed with
  | some op, [left, right], false =>
    if op.associativity = .left then absorb spelling op left right
    else .operation spelling function [left, right] false
  | _, _, _ => .operation spelling function operands juxtaposed

mutual

/-- An expression as it is read from the tokens of a tree that leaves out parentheses. -/
def grouped : Expr → Expr
  | .constant value kind => .constant value kind
  | .symbol name => .symbol name
  | .operation spelling function operands juxtaposed =>
    readOperation spelling function (groupedAll operands) juxtaposed
  | .call callee args => .call callee.grouped (groupedAll args)
  | .range start stop step => .range start.grouped stop.grouped (groupedOption step)
  | .conditional condition yes no => .conditional condition.grouped yes.grouped no.grouped
  | .assignment target part value => .assignment target.grouped (groupedOption part) value.grouped
  | .definition name params body => .definition name params body.grouped
  | .block entries => .block (groupedEntries entries)
  | .array items => .array (groupedAll items)
  | .object properties => .object (groupedProperties properties)
  | .parenthesis e => .parenthesis e.grouped
  | .index dimensions dotted => .index (groupedAll dimensions) dotted
  | .access owner part => .access owner.grouped part.grouped
  | .comparison functions operands => .comparison functions (groupedAll operands)

/-- Expressions as they are read. -/
def groupedAll : List Expr → List Expr
  | [] => []
  | e :: es => e.grouped :: groupedAll es

/-- An expression as it is read, if there is one. -/
def groupedOption : Option Expr → Option Expr
  | none => none
  | some e => some e.grouped

/-- Statements as they are read. -/
def groupedEntries : List (Entry Expr) → List (Entry Expr)
  | [] => []
  | ⟨e, visible⟩ :: entries => ⟨e.grouped, visible⟩ :: groupedEntries entries

/-- Properties as they are read. -/
def groupedProperties : List (String × Expr) → List (String × Expr)
  | [] => []
  | (key, e) :: properties => (key, e.grouped) :: groupedProperties properties

end

/-- What the text of an expression is read as that leaves out the parentheses of the tree. -/
def reading (j : Juxtaposition) (e : Expr) : Expr :=
  (e.written (.sparing j)).grouped

theorem groupedAll_eq (es : List Expr) : groupedAll es = es.map grouped := by
  induction es with
  | nil => rfl
  | cons e es ih => rw [groupedAll, ih, List.map_cons]

theorem groupedEntries_eq (entries : List (Entry Expr)) :
    groupedEntries entries = entries.map (readLine grouped) := by
  induction entries with
  | nil => rfl
  | cons entry entries ih => rw [groupedEntries, ih, List.map_cons, readLine]

theorem groupedProperties_eq (properties : List (String × Expr)) :
    groupedProperties properties = properties.map fun p => (p.1, p.2.grouped) := by
  induction properties with
  | nil => rfl
  | cons p properties ih => rw [groupedProperties, ih, List.map_cons]

theorem grouped_enclosed (wrap : Bool) (e : Expr) :
    (enclosed wrap e).grouped = enclosed wrap e.grouped := by
  cases wrap <;> rfl

section

variable {j : Juxtaposition} {spelling function : String} {op : Operator} {e left right : Expr}
  {wrap wrap' juxtaposed : Bool}

theorem readOperation_left (grouping : op.associativity = .left) :
    readOperation spelling op.name [left, right] false = absorb spelling op left right := by
  simp [readOperation, grouping]

theorem readOperation_right (grouping : op.associativity = .right) :
    readOperation spelling op.name [left, right] false
      = .operation spelling op.name [left, right] false := by
  simp [readOperation, grouping]

theorem readOperation_one :
    readOperation spelling function [e] juxtaposed = .operation spelling function [e] juxtaposed := by
  simp [readOperation]

theorem readOperation_juxtaposed {operands : List Expr} :
    readOperation spelling function operands true = .operation spelling function operands true := by
  simp [readOperation]

/-- What tells an operation tells what its text is read as. -/
theorem ToldBy.readOperation {text : String} {operands : List Expr}
    (h : ToldBy text (.operation spelling function operands juxtaposed)) :
    ToldBy text (readOperation spelling function operands juxtaposed) := by
  unfold Expr.readOperation
  split
  · rename_i op left right hop
    obtain rfl := Operator.name_of_ofName? hop
    split
    · rename_i grouping
      exact h.absorb grouping
    · exact h
  · exact h

/-- What the operands of an operation are read as, in the parentheses that are written around them. -/
def readOperands (j : Juxtaposition) (spelling function : String) (operands : List Expr)
    (juxtaposed : Bool) : List Expr :=
  List.zipWith enclosed
    (wrappedOperands (.sparing j) false (.operation spelling function operands juxtaposed) operands
      juxtaposed)
    (operands.map (reading j))

theorem reading_operation {operands : List Expr} :
    (Expr.operation spelling function operands juxtaposed).reading j = readOperation spelling function
      (readOperands j spelling function operands juxtaposed) (juxtaposed && j = .hide) := by
  have hgrouped : ∀ (wraps : List Bool) (es : List Expr), groupedAll (List.zipWith enclosed wraps es)
      = List.zipWith enclosed wraps (groupedAll es) := by
    intro wraps es
    induction wraps generalizing es with
    | nil => rw [List.zipWith_nil_left, List.zipWith_nil_left, groupedAll]
    | cons wrap wraps ih =>
        cases es with
        | nil => rw [List.zipWith_nil_right, groupedAll, List.zipWith_nil_right]
        | cons e es =>
            rw [List.zipWith_cons_cons, groupedAll, groupedAll, List.zipWith_cons_cons, ih,
              grouped_enclosed]
  rw [reading, written, grouped, hgrouped, groupedAll_eq, writtenAll_eq, List.map_map]
  rfl

/-- What is read without the parentheses of the tree is read part by part. -/
theorem partwise_reading (j : Juxtaposition) : Partwise (.sparing j) (reading j) where
  constant _ _ := rfl
  symbol _ := rfl
  operation h := by
    rw [reading_operation]
    exact h.readOperation
  call _ _ := by
    rw [reading, written, grouped, grouped_enclosed, groupedAll_eq, writtenAll_eq, List.map_map]
    rfl
  range _ _ step := by
    rw [reading, written, grouped, grouped_enclosed, grouped_enclosed]
    cases step with
    | none => rfl
    | some step =>
        rw [writtenStep, groupedOption, grouped_enclosed]
        rfl
  conditional _ _ _ := by
    rw [reading, written, grouped, grouped_enclosed, grouped_enclosed, grouped_enclosed]
    rfl
  assignment _ part _ := by
    rw [reading, written, grouped, grouped_enclosed]
    cases part <;> rfl
  definition _ _ _ := by
    rw [reading, written, grouped, grouped_enclosed]
    rfl
  array _ := by
    rw [reading, written, grouped, groupedAll_eq, writtenAll_eq, List.map_map]
    rfl
  object _ := by
    rw [reading, written, grouped, groupedProperties_eq, writtenProperties_eq, List.map_map]
    rfl
  parenthesis _ := by
    rw [reading, written, grouped_enclosed]
    rfl
  index _ _ := by
    rw [reading, written, grouped, groupedAll_eq, writtenAll_eq, List.map_map]
    rfl
  access _ _ := by
    rw [reading, written, grouped, grouped_enclosed]
    rfl
  comparison _ operands := by
    rw [reading, written, grouped, groupedAll_eq, writtenOperands_eq, List.map_map]
    simp only [Function.comp_def, grouped_enclosed]
    rfl

theorem reading_block (j : Juxtaposition) (entries : List (Entry Expr)) :
    (Expr.block entries).reading j = .block (entries.map (readLine (reading j))) := by
  rw [reading, written_block, grouped, groupedEntries_eq, List.map_map]
  rfl

/-! ### Which parentheses are written -/

/-- The parentheses of the tree are not read. -/
theorem reading_content : ∀ e : Expr, e.content.reading j = e.reading j
  | .parenthesis e => by
      rw [content, reading_content e, (partwise_reading j).parenthesis]
      rfl
  | .constant .. | .symbol _ | .operation .. | .call .. | .range .. | .conditional ..
  | .assignment .. | .definition .. | .block _ | .array _ | .object _ | .index .. | .access ..
  | .comparison .. => rfl

theorem strength?_readOperation (operands : List Expr) :
    strength? .keep (readOperation spelling function operands juxtaposed)
      = (Operator.ofName? function).map Operator.precedence := by
  unfold readOperation
  split
  · rename_i op left right hop
    split
    · rw [strength?_absorb, hop]
      rfl
    · rfl
  · rfl

/-- What is read of an operand binds as tightly as the operand does without its parentheses. -/
theorem strength?_reading (j : Juxtaposition) (e : Expr) :
    Rendering.strength? .keep (e.reading j) = Rendering.strength? .auto e := by
  have hauto : Rendering.strength? .auto e = Rendering.strength? .keep e.content := rfl
  have hform := form_content_ne e
  rw [hauto, ← reading_content]
  revert hform
  cases e.content with
  | parenthesis => exact fun hform => absurd rfl hform
  | operation =>
      intro _
      rw [reading_operation, strength?_readOperation]
      rfl
  | _ => exact fun _ => rfl

theorem binds_enclosed {k : Nat} (h : wrap = false → e.BindsAtLeast k) :
    (enclosed wrap e).BindsAtLeast k := by
  cases wrap with
  | true => exact .of_none rfl k
  | false => exact h rfl

theorem strength?_auto_operation {operands : List Expr} :
    Rendering.strength? .auto (.operation spelling op.name operands juxtaposed) = some op.precedence :=
  strength?_operation op operands juxtaposed

theorem binds_one (hwrap : wrappedOperands (.sparing j) false (.operation spelling op.name [e] juxtaposed)
    [e] juxtaposed = [wrap]) : (enclosed wrap (e.reading j)).BindsAtLeast (op.precedence + 1) := by
  refine binds_enclosed ?_
  rintro rfl k hk
  rw [strength?_reading] at hk
  simp [wrappedOperands, looseOperands, Style.sparing, strength?_auto_operation, hk] at hwrap
  exact hwrap

theorem grouping?_auto_operation {operands : List Expr} :
    grouping? .auto (.operation spelling op.name operands juxtaposed) = some op.associativity := by
  show (Operator.ofName? op.name).map Operator.associativity = _
  rw [Operator.ofName?_name, Option.map_some]

/-- Whether an operand keeps its parentheses, since it stands next to another one without an operator. -/
def keepsParentheses (j : Juxtaposition) (op : Operator) (juxtaposed : Bool) (e : Expr) : Bool :=
  juxtaposed && j = .hide && op = .multiply && e.form = .parenthesis

/-- Which operands of an operation are written in parentheses. -/
theorem wrappedOperands_sparing : wrappedOperands (.sparing j) false
      (.operation spelling op.name [left, right] juxtaposed) [left, right] juxtaposed
    = [isLooser .auto (.operation spelling op.name [left, right] juxtaposed) left
          (op.associativity = .right) || keepsParentheses j op juxtaposed left,
        isLooser .auto (.operation spelling op.name [left, right] juxtaposed) right
          (op.associativity = .left) || keepsParentheses j op juxtaposed right] := by
  have hop : (Expr.operation spelling op.name [left, right] juxtaposed).operator? = some op :=
    op.ofName?_name
  have hjuxtaposes : juxtaposes (.sparing j) (.operation spelling op.name [left, right] juxtaposed)
      juxtaposed = (juxtaposed && j = .hide && op = .multiply) := by
    cases j <;> simp [juxtaposes, hop, Style.sparing]
  simp only [wrappedOperands, hjuxtaposes, keepsParentheses]
  cases juxtaposed && j = .hide && op = .multiply <;>
    simp [looseOperands, Style.sparing, grouping?_auto_operation]

theorem binds_of_not_looser {operands : List Expr} {other : Bool}
    (h : isLooser .auto (.operation spelling op.name operands juxtaposed) e other = false) :
    (e.reading j).BindsAtLeast op.precedence ∧
      (other = true → op.associativeWith = [] → (e.reading j).BindsAtLeast (op.precedence + 1)) := by
  have hop : (visible .auto (.operation spelling op.name operands juxtaposed)).operator? = some op :=
    op.ofName?_name
  have binds : (e.reading j).BindsAtLeast op.precedence := by
    intro k hk
    rw [strength?_reading] at hk
    exact (tight_of_not_looser hop h hk).1
  refine ⟨binds, fun hother alone => binds.succ fun hk => ?_⟩
  rw [strength?_reading] at hk
  obtain ⟨inner, hinner, _⟩ := (tight_of_not_looser hop h hk).2 hother rfl
  rw [alone] at hinner
  cases hinner

/-- Which operands of an operation of two are read in parentheses, and how tightly they bind. -/
structure Slots (j : Juxtaposition) (spelling : String) (op : Operator) (left right : Expr)
    (juxtaposed wrap wrap' : Bool) : Prop where
  wraps : wrappedOperands (.sparing j) false (.operation spelling op.name [left, right] juxtaposed)
    [left, right] juxtaposed = [wrap, wrap']
  ofLeft : (enclosed wrap (left.reading j)).BindsAtLeast op.precedence
  base : op.associativity = .right → (enclosed wrap (left.reading j)).BindsAtLeast (op.precedence + 1)
  ofRight : (enclosed wrap' (right.reading j)).BindsAtLeast op.precedence
  tight : op.associativity = .left → op.associativeWith = [] →
    (enclosed wrap' (right.reading j)).BindsAtLeast (op.precedence + 1)

theorem exists_slots (j : Juxtaposition) (spelling : String) (op : Operator) (left right : Expr)
    (juxtaposed : Bool) : ∃ wrap wrap', Slots j spelling op left right juxtaposed wrap wrap' := by
  have loose : ∀ {wrap kept : Bool}, (wrap || kept) = false → wrap = false :=
    fun h => (Bool.or_eq_false_iff.1 h).1
  refine ⟨_, _, wrappedOperands_sparing, ?_, fun grouping => ?_, ?_, fun grouping alone => ?_⟩
  · exact binds_enclosed fun h => (binds_of_not_looser (loose h)).1
  · have alone : op.associativeWith = [] := by
      revert grouping
      cases op <;> decide
    exact binds_enclosed fun h => (binds_of_not_looser (loose h)).2 (decide_eq_true grouping) alone
  · exact binds_enclosed fun h => (binds_of_not_looser (loose h)).1
  · exact binds_enclosed fun h => (binds_of_not_looser (loose h)).2 (decide_eq_true grouping) alone

theorem Slots.operands (slots : Slots j spelling op left right juxtaposed wrap wrap') :
    readOperands j spelling op.name [left, right] juxtaposed
      = [enclosed wrap (left.reading j), enclosed wrap' (right.reading j)] := by
  rw [readOperands, slots.wraps]
  rfl

/-- A legible expression is on a level where operators that bind as tightly as it are. -/
theorem Legible.le_level_of_binds {k l : Nat} (h : Legible false e) (hk : e.BindsAtLeast k)
    (hl : ∀ op : Operator, k ≤ op.precedence → l ≤ op.level) (low : k ≤ Precedence.range → l ≤ k)
    (top : l ≤ 17) : l ≤ e.level false := by
  have ofOperator : ∀ {spelling : String} {op : Operator} {operands : List Expr},
      (Expr.operation spelling op.name operands false).BindsAtLeast k →
      l ≤ (Expr.operation spelling op.name operands false).level false := by
    intro spelling op operands hop
    rw [level_false_operation, if_neg Bool.false_ne_true, Operator.ofName?_name]
    exact hl op (hop _ (strength?_operation op operands false))
  cases h with
  | postfixed => exact ofOperator hk
  | prefixed => exact ofOperator hk
  | power => exact ofOperator hk
  | binary => exact ofOperator hk
  | juxtaposition =>
      rw [level_juxtapose]
      exact Nat.le_trans (hl .multiply (hk _ rfl)) (by decide)
  | comparison => exact hl .equal (hk _ rfl)
  | range | steppedRange =>
      have := hk _ rfl
      exact Nat.le_trans (low this) this
  | conditional =>
      have : k ≤ Precedence.conditional := hk _ rfl
      exact Nat.le_trans (low (Nat.le_trans this (by decide))) this
  | assigned he =>
      rw [level_assigned he]
      have : k ≤ Precedence.assignment := by
        obtain ⟨_, _, rfl⟩ | ⟨_, _, _, rfl⟩ | ⟨_, _, _, rfl⟩ := assign_eq_ok he <;>
          exact hk _ rfl
      exact Nat.le_trans (low (Nat.le_trans this (by decide))) this
  | name _ he =>
      rw [← he, level_ofName]
      exact top
  | _ => exact top

theorem Legible.le_level_same {k : Nat} (h : Legible false e) (hk : e.BindsAtLeast k) (weak : k ≤ 13) :
    k ≤ e.level false :=
  h.le_level_of_binds hk (fun op hop => Nat.le_trans hop op.precedence_le_level) (fun _ => Nat.le_refl k)
    (by omega)

theorem Legible.le_level_tight {k : Nat} (h : Legible false e) (hk : e.BindsAtLeast k) :
    (13 ≤ k → 15 ≤ e.level false) ∧ (15 ≤ k → 17 ≤ e.level false) := by
  have low : ∀ {l : Nat}, 13 ≤ k → k ≤ Precedence.range → l ≤ k := by
    intro l strong weak
    have : k ≤ 2 := weak
    omega
  exact ⟨fun strong => h.le_level_of_binds hk (fun op hop => (Operator.level_of_tight hop).1 strong)
      (low strong) (by decide),
    fun strong => h.le_level_of_binds hk (fun op hop => (Operator.level_of_tight hop).2 strong)
      (low (Nat.le_trans (by decide) strong)) (by decide)⟩

/-- What binds tighter than products does not open a product. -/
theorem Legible.opensProduct_of_binds {f : Bool} (h : Legible f e) (hk : e.BindsAtLeast 13) :
    e.opensProduct false = false := by
  rw [opensProduct]
  · exact Bool.and_false _
  · rintro spelling function left right rfl
    obtain ⟨left', right', heq⟩ := h.exists_juxtapose
    rw [heq] at hk
    have : 13 ≤ 12 := hk _ rfl
    omega

/-- An operator that groups to the left is legible as it is read. -/
theorem Legible.readLeft (hop : Operator.binary? spelling = some op) (grouping : op.associativity = .left)
    (hleft : Legible false left) (leftBinds : left.BindsAtLeast op.precedence)
    (unchained : op.isRelational = true → Rendering.strength? .keep left ≠ some Precedence.relational)
    (hright : Legible false right) (rightBinds : right.BindsAtLeast op.precedence)
    (tight : op.associativeWith = [] → right.BindsAtLeast (op.precedence + 1)) :
    Legible false (Expr.absorb spelling op left right) := by
  have weak := Operator.level_of_binary_left hop grouping
  have hlevel := Operator.precedence_eq_level weak
  have limit : ∀ {e : Expr}, Legible false e → e.BindsAtLeast op.precedence →
      (op.isRelational = true → e.BindsAtLeast (op.precedence + 1)) →
      (if op.isRelational then 10 else op.level) ≤ e.level false := by
    intro e he hbinds hrelational
    cases relational : op.isRelational with
    | true =>
        have := he.le_level_same (hrelational relational) (by omega)
        have := op.isRelational_iff.1 relational
        rw [if_pos rfl]
        omega
    | false =>
        have := he.le_level_same hbinds (by omega)
        rw [if_neg Bool.false_ne_true]
        omega
  refine .absorb hop weak hleft (limit hleft leftBinds fun relational => leftBinds.succ ?_) hright
    (limit hright rightBinds fun relational =>
      tight (Operator.associativeWith_of_relational relational)) ?_
  · have := unchained relational
    rwa [(Operator.associativity_of_relational relational).2.2]
  · rintro rfl
    have htight := tight rfl
    refine ⟨Bool.eq_false_iff.2 fun halike => ?_, hright.opensProduct_of_binds htight⟩
    have : 13 ≤ 12 := htight _ (strength?_of_alike halike)
    omega

theorem level_readOperation (operands : List Expr) :
    (readOperation spelling function operands juxtaposed).level false
      = if juxtaposed then 13 else (Operator.ofName? function).elim 17 Operator.level := by
  unfold readOperation
  split
  · rename_i op left right hop
    split
    · rw [level_absorb, hop]
      rfl
    · rw [level_false_operation]
  · rw [level_false_operation]

/-- Without parentheses around it, an expression is read so that it holds together as tightly. -/
theorem level_reading (hform : e.form ≠ .parenthesis) :
    (e.reading .hide).level false = e.level false := by
  cases e with
  | parenthesis => exact absurd rfl hform
  | operation spelling function operands juxtaposed =>
      rw [reading_operation, level_readOperation, level_false_operation, decide_eq_true rfl, Bool.and_true]
  | _ => rfl

/-- What holds together without its parentheses is read so that it does. -/
theorem level_reading_of_tight (h : 17 ≤ e.content.level false) : 17 ≤ (e.reading j).level false := by
  rw [← reading_content]
  have hform := form_content_ne e
  revert h hform
  cases e.content with
  | operation spelling function operands juxtaposed =>
      intro h _
      rw [level_false_operation] at h
      rw [reading_operation, level_readOperation]
      cases juxtaposed with
      | false => exact h
      | true => simp at h
  | parenthesis => exact fun _ hform => absurd rfl hform
  | _ => exact fun h _ => h

theorem exists_readOperation (spelling function : String) (operands : List Expr) (juxtaposed : Bool) :
    ∃ spelling' function' operands', readOperation spelling function operands juxtaposed
      = .operation spelling' function' operands' juxtaposed := by
  unfold readOperation
  repeat' split
  · unfold absorb
    repeat' split
    all_goals exact ⟨_, _, _, rfl⟩
  all_goals exact ⟨_, _, _, rfl⟩

theorem isWhole_reading (j : Juxtaposition) (e : Expr) : (e.reading j).isWhole = e.content.isWhole := by
  rw [← reading_content]
  have hform := form_content_ne e
  revert hform
  cases e.content with
  | parenthesis => exact fun hform => absurd rfl hform
  | operation spelling function operands juxtaposed =>
      intro _
      obtain ⟨_, _, _, hread⟩ := exists_readOperation spelling function
        (readOperands j spelling function operands juxtaposed) (juxtaposed && j = .hide)
      rw [reading_operation, hread]
      rfl
  | _ => exact fun _ => rfl

end

end Expr

end Formula
