import Formula.Proofs.Rendering.Operators

/-!
What the text of a tree of operators is read as.

Of operators as strong as one another, the text of a tree leaves out the parentheses that say how
they group, and it is read as if they grouped to the left (`Expr.leftGrouped`), with comparisons of
comparisons in one chain. So for each tree of operators there is one tree that its text is read as
(`Built.parse_text`).
-/

namespace Formula

namespace Operator

theorem isUnary_eq (op : Operator) :
    op.isUnary = decide (op.precedence = 13 ∨ 15 ≤ op.precedence) := by
  cases op <;> rfl

theorem associativity_eq (op : Operator) :
    op.associativity = if op.precedence = 13 ∨ op.precedence = 14 then .right else .left := by
  cases op <;> rfl

/-- Operators as strong as one another have the same fixity and group alike. -/
theorem of_precedence_eq {op inner : Operator} (h : inner.precedence = op.precedence) :
    inner.isUnary = op.isUnary ∧ inner.associativity = op.associativity ∧
      inner.isRelational = op.isRelational := by
  rw [isUnary_eq, isUnary_eq op, associativity_eq, associativity_eq op, isRelational, isRelational,
    h]
  exact ⟨rfl, rfl, rfl⟩

theorem precedence_of_power (op : Operator) (binary : op.isUnary = false)
    (right : op.associativity = .right) : op.precedence = 14 := by
  revert binary right
  cases op <;> decide

theorem associativeWith_of_relational {op : Operator} (h : op.isRelational = true) :
    op.associativeWith = [] := by
  revert h
  cases op <;> decide

end Operator

namespace Expr

open Grammar Rendering

/-! ### Operands that are taken in -/

/-- An operation as it is read if its right operand stands without parentheses: the operations down
the left of the right operand that are as strong take the left operand in. -/
def graft (op : Operator) (left : Expr) : Expr → Expr
  | .operation spelling function [y, z] juxtaposed =>
    if (Operator.ofName? function).map Operator.precedence = some op.precedence then
      .operation spelling function [graft op left y, z] juxtaposed
    else apply op [left, .operation spelling function [y, z] juxtaposed]
  | right => apply op [left, right]

-- The equations are derived here, once for all the proofs that unfold `graft`.
attribute [local simp] graft

/-- A comparison that goes on with the comparisons that its left operand is made of. -/
def chain (op : Operator) : Expr → Expr → Expr
  | .comparison functions operands, right =>
    .comparison (functions ++ [op.name]) (operands ++ [right])
  | .operation spelling function [x, y] juxtaposed, right =>
    if (Operator.ofName? function).map Operator.precedence = some Precedence.relational then
      .comparison [function, op.name] [x, y, right]
    else apply op [.operation spelling function [x, y] juxtaposed, right]
  | left, right => apply op [left, right]

/-- An operation as it is read, of operands as they are read. -/
def regrouped (op : Operator) (left right : Expr) : Expr :=
  if op.isRelational then chain op left right
  else if op.associativity = .left then graft op left right
  else apply op [left, right]

section

variable {op inner : Operator} {left right y z : Expr}

theorem graft_alike (h : inner.precedence = op.precedence) :
    graft op left (apply inner [y, z]) = apply inner [graft op left y, z] := by
  rw [apply, graft, Operator.ofName?_name, if_pos (by rw [Option.map_some, h])]
  rfl

theorem graft_apart (h : strength? .keep right ≠ some op.precedence) :
    graft op left right = apply op [left, right] := by
  unfold graft
  split
  · exact if_neg h
  · rfl

theorem strength?_graft (op : Operator) (left right : Expr) :
    strength? .keep (graft op left right) = some op.precedence := by
  unfold graft
  split
  · split
    · assumption
    · exact strength?_apply ..
  · exact strength?_apply ..

theorem chain_apart (h : strength? .keep left ≠ some Precedence.relational) :
    chain op left right = apply op [left, right] := by
  unfold chain
  split
  · exact absurd rfl h
  · exact if_neg h
  · rfl

end

/-- The comparisons that an expression is made of, and what they compare. -/
inductive Links : Expr → List Operator → List Expr → Prop
  | one {op : Operator} {x y : Expr} (relational : op.isRelational = true) :
      Links (.apply op [x, y]) [op] [x, y]
  | many {ops : List Operator} {operands : List Expr}
      (relational : ∀ op ∈ ops, op.isRelational = true)
      (many : 2 ≤ ops.length) (length : operands.length = ops.length + 1) :
      Links (.comparison (ops.map Operator.name) operands) ops operands

theorem nestingAmong_concat (es : List Expr) (e : Expr) :
    nestingAmong (es ++ [e]) = max (nestingAmong es) e.nesting := by
  induction es with
  | nil => rw [List.nil_append, nestingAmong, nestingAmong, nestingAmong, Nat.max_comm]
  | cons e' es ih => rw [List.cons_append, nestingAmong, nestingAmong, ih, Nat.max_assoc]

theorem chainText_concat {functions texts : List String}
    (length : texts.length = functions.length + 1)
    (function text : String) : chainText (functions ++ [function]) (texts ++ [text])
      = chainText functions texts ++ " " ++ comparisonSymbol function ++ " " ++ text := by
  cases texts with
  | nil => cases length
  | cons first texts =>
      have hlength : functions.length = texts.length := (Nat.succ.inj length).symm
      rw [chainText, chainText, List.cons_append, List.headD_cons, List.tail_cons, List.headD_cons,
        List.tail_cons, List.zipWith_append hlength, List.zipWith_cons_cons, List.zipWith_nil_left,
        String.join_append, String.join_cons, String.join_nil, String.append_empty]
      simp only [String.append_assoc]

section

variable {op : Operator} {ops : List Operator} {operands : List Expr} {e left right : Expr}

theorem Links.relational (h : Links e ops operands) :
    (∀ op ∈ ops, op.isRelational = true) ∧ 1 ≤ ops.length ∧ operands.length = ops.length + 1 := by
  cases h with
  | one relational =>
      exact ⟨fun op hop => List.mem_singleton.1 hop ▸ relational, Nat.le_refl 1, rfl⟩
  | many relational many length => exact ⟨relational, Nat.le_of_succ_le many, length⟩

theorem Links.flatText_eq (h : Links e ops operands) :
    e.flatText = chainText (ops.map Operator.name) (operands.map flatText) := by
  cases h with
  | one relational =>
      rw [apply, flatText, List.map_singleton, List.map_cons, List.map_singleton, chainText,
        List.headD_cons, List.tail_cons, List.zipWith_cons_cons, List.zipWith_nil_left,
        String.join_cons, String.join_nil, String.append_empty, comparisonSymbol_name]
      simp only [String.append_assoc]
  | many => rw [flatText, flatTexts_eq]

theorem Links.nesting_eq (h : Links e ops operands) : e.nesting = nestingAmong operands := by
  cases h with
  | one relational =>
      rw [apply, nesting, groupsRight_name, (Operator.associativity_of_relational relational).2.1,
        if_neg (by simp), nestingAmong, nestingAmong, nestingAmong, Nat.max_zero]
  | many => rw [nesting]

theorem Links.chain_eq (h : Links left ops operands) : chain op left right
    = .comparison ((ops ++ [op]).map Operator.name) (operands ++ [right]) := by
  rw [List.map_append]
  cases h with
  | @one inner x y relational =>
      rw [apply, chain, if_pos]
      · rfl
      · rw [Operator.ofName?_name, Option.map_some,
          (Operator.associativity_of_relational relational).2.2]
        rfl
  | many => rfl

theorem relational_of_strength? {operands : List Expr}
    (h : strength? .keep (apply op operands) = some Precedence.relational) :
      op.isRelational = true := by
  rw [Operator.isRelational, Option.some.inj ((strength?_apply op operands).symm.trans h)]
  rfl

theorem Operated.links (h : Operated e)
    (hstrength : strength? .keep e = some Precedence.relational) :
    ∃ ops operands, Links e ops operands ∧ ∀ e' ∈ operands, Operated e' := by
  cases h with
  | symbol => cases hstrength
  | parenthesis => cases hstrength
  | @unary op e unary h =>
      have relational := relational_of_strength? hstrength
      rw [(Operator.associativity_of_relational relational).1] at unary
      cases unary
  | @binary op left right binary hleft hright =>
      refine ⟨_, _, .one (relational_of_strength? hstrength), ?_⟩
      exact List.forall_mem_cons.2 ⟨hleft, List.forall_mem_singleton.2 hright⟩
  | comparison relational many length h => exact ⟨_, _, .many relational many length, h⟩

theorem Graded.links (h : Graded e) (hstrength : strength? .keep e = some Precedence.relational) :
    ∃ ops operands, Links e ops operands ∧ ∀ e' ∈ operands, Graded e' ∧ e'.BindsAtLeast 10 := by
  cases h with
  | symbol => cases hstrength
  | number => cases hstrength
  | parenthesis => cases hstrength
  | prefixed unary | postfixed unary =>
      have relational := relational_of_strength? hstrength
      rw [(Operator.associativity_of_relational relational).1] at unary
      cases unary
  | power _ right =>
      have relational := relational_of_strength? hstrength
      rw [(Operator.associativity_of_relational relational).2.1] at right
      cases right
  | binary _ _ plain =>
      rw [relational_of_strength? hstrength] at plain
      cases plain
  | compared relational hleft tight hright tight' =>
      refine ⟨_, _, .one relational, ?_⟩
      exact List.forall_mem_cons.2 ⟨⟨hleft, tight⟩, List.forall_mem_singleton.2 ⟨hright, tight'⟩⟩
  | comparison relational many length h tight =>
      exact ⟨_, _, .many relational many length, fun e he => ⟨h e he, tight e he⟩⟩

/-- A comparison goes on with comparisons in a chain, and is one of its own otherwise. -/
theorem Operated.chain_or (h : Operated left) (op : Operator) (right : Expr) :
    chain op left right = apply op [left, right] ∨
    ∃ ops operands, Links left ops operands ∧ (∀ e' ∈ operands, Operated e') ∧
      chain op left right
        = .comparison ((ops ++ [op]).map Operator.name) (operands ++ [right]) := by
  by_cases hstrength : strength? .keep left = some Precedence.relational
  · obtain ⟨ops, operands, hlinks, hoperands⟩ := h.links hstrength
    exact .inr ⟨ops, operands, hlinks, hoperands, hlinks.chain_eq⟩
  · exact .inl (chain_apart hstrength)

theorem Links.comparison (h : Links left ops operands) (relational : op.isRelational = true)
    (right : Expr) :
    (∀ op' ∈ ops ++ [op], op'.isRelational = true) ∧ 2 ≤ (ops ++ [op]).length ∧
      (operands ++ [right]).length = (ops ++ [op]).length + 1 := by
  obtain ⟨hops, some, length⟩ := h.relational
  rw [List.length_append, List.length_append, List.length_singleton, List.length_singleton]
  refine ⟨List.forall_mem_append.2 ⟨hops, List.forall_mem_singleton.2 relational⟩, ?_, ?_⟩ <;> omega

end

/-! ### Grouping keeps the text -/

/-- Operands are grafted along the operations on the left that are as strong as the operator. -/
@[elab_as_elim]
theorem Operated.spine {op : Operator} (binary : op.isUnary = false)
    (plain : op.isRelational = false)
    {motive : Expr → Prop}
    (apart : ∀ e, Operated e → strength? .keep e ≠ some op.precedence → motive e)
    (alike : ∀ inner y z, inner.isUnary = false → inner.precedence = op.precedence → Operated y →
      Operated z → motive y → motive (apply inner [y, z]))
    {e : Expr} (h : Operated e) : motive e := by
  induction h with
  | symbol identifier free => exact apart _ (.symbol identifier free) nofun
  | parenthesis h => exact apart _ (.parenthesis h) nofun
  | @unary inner e unary h =>
      refine apart _ (.unary unary h) fun hstrength => ?_
      have hprecedence := Option.some.inj ((strength?_apply inner [e]).symm.trans hstrength)
      rw [(Operator.of_precedence_eq hprecedence).1, binary] at unary
      cases unary
  | @binary inner y z hinner hy hz ih =>
      by_cases hprecedence : inner.precedence = op.precedence
      · exact alike inner y z hinner hprecedence hy hz ih
      · refine apart _ (.binary hinner hy hz) fun hstrength => hprecedence ?_
        exact Option.some.inj ((strength?_apply inner [y, z]).symm.trans hstrength)
  | comparison relational many length h =>
      refine apart _ (.comparison relational many length h) fun hstrength => ?_
      rw [Operator.isRelational, ← Option.some.inj hstrength] at plain
      cases plain

theorem regrouped_plain {op : Operator} (plain : op.isRelational = false)
    (grouping : op.associativity = .left) (left right : Expr) :
    regrouped op left right = graft op left right := by
  rw [regrouped, plain, if_neg nofun, if_pos grouping]

theorem regrouped_relational {op : Operator} (relational : op.isRelational = true)
    (left right : Expr) : regrouped op left right = chain op left right := by
  rw [regrouped, if_pos relational]

theorem regrouped_right {op : Operator} (grouping : op.associativity = .right) (left right : Expr) :
    regrouped op left right = apply op [left, right] := by
  have plain : op.isRelational ≠ true := fun relational =>
    nomatch grouping.symm.trans (Operator.associativity_of_relational relational).2.1
  rw [regrouped, if_neg plain, grouping, if_neg nofun]

section

variable {op : Operator} {left right : Expr} (binary : op.isUnary = false)
include binary

theorem Operated.graft (plain : op.isRelational = false) (hleft : Operated left)
    (hright : Operated right) : Operated (graft op left right) := by
  refine hright.spine binary plain (fun e he hstrength => ?_)
    fun inner y z hinner hprecedence hy hz ih => ?_
  · rw [graft_apart hstrength]
    exact .binary binary hleft he
  · rw [graft_alike hprecedence]
    exact .binary hinner ih hz

theorem flatText_graft (plain : op.isRelational = false) (hright : Operated right) :
    (Expr.graft op left right).flatText
      = left.flatText ++ " " ++ op.symbol ++ " " ++ right.flatText := by
  refine hright.spine binary plain (fun e he hstrength => ?_)
    fun inner y z hinner hprecedence hy hz ih => ?_
  · rw [graft_apart hstrength, apply, flatText]
  · rw [graft_alike hprecedence, apply, apply, flatText, flatText, ih]
    simp only [String.append_assoc]

theorem nesting_graft (plain : op.isRelational = false) (grouping : op.associativity = .left)
    (hright : Operated right) :
    (Expr.graft op left right).nesting = max left.nesting right.nesting := by
  have hnesting : ∀ {inner : Operator} (y z : Expr), inner.precedence = op.precedence →
      (apply inner [y, z]).nesting = max y.nesting z.nesting := by
    intro inner y z hprecedence
    rw [apply, nesting, groupsRight_name, (Operator.of_precedence_eq hprecedence).2.1, grouping,
      if_neg (by simp)]
  refine hright.spine binary plain (fun e he hstrength => ?_)
    fun inner y z hinner hprecedence hy hz ih => ?_
  · rw [graft_apart hstrength, hnesting left e rfl]
  · rw [graft_alike hprecedence, hnesting _ z hprecedence, hnesting y z hprecedence, ih,
      Nat.max_assoc]

/-- An operation that is grouped to the left is an operation with the text of one that is not. -/
theorem Operated.regrouped (hleft : Operated left) (hright : Operated right) :
    Operated (regrouped op left right) ∧
      strength? .keep (regrouped op left right) = some op.precedence ∧
      (regrouped op left right).flatText = (apply op [left, right]).flatText ∧
      (regrouped op left right).nesting = (apply op [left, right]).nesting := by
  have hplain : (apply op [left, right]).flatText
      = left.flatText ++ " " ++ op.symbol ++ " " ++ right.flatText := by rw [apply, flatText]
  cases relational : op.isRelational with
  | true =>
      obtain ⟨_, grouping, hprecedence⟩ := Operator.associativity_of_relational relational
      rw [regrouped_relational relational]
      obtain hchain | ⟨ops, operands, hlinks, hoperands, hchain⟩ := hleft.chain_or op right
      · rw [hchain]
        exact ⟨.binary binary hleft hright, strength?_apply .., rfl, rfl⟩
      · obtain ⟨hrelational, many, length⟩ := hlinks.comparison relational right
        rw [hchain]
        refine ⟨.comparison hrelational many length ?_, hprecedence ▸ rfl, ?_, ?_⟩
        · exact List.forall_mem_append.2 ⟨hoperands, List.forall_mem_singleton.2 hright⟩
        · rw [flatText, flatTexts_eq, List.map_append, List.map_append, List.map_singleton,
            List.map_singleton, chainText_concat (by simpa using hlinks.relational.2.2),
            ← hlinks.flatText_eq, comparisonSymbol_name, hplain]
        · rw [nesting, nestingAmong_concat, ← hlinks.nesting_eq, apply, nesting, groupsRight_name,
            grouping, if_neg (by simp)]
  | false =>
      cases grouping : op.associativity with
      | left =>
          rw [regrouped_plain relational grouping]
          refine ⟨hleft.graft binary relational hright, strength?_graft .., ?_, ?_⟩
          · rw [flatText_graft binary relational hright, hplain]
          · rw [nesting_graft binary relational grouping hright, apply, nesting, groupsRight_name,
              grouping, if_neg (by simp)]
      | right =>
          rw [regrouped_right grouping]
          exact ⟨.binary binary hleft hright, strength?_apply .., rfl, rfl⟩

end

/-- An expression in which operators as strong as one another group to the left, as far as they do
not group to the right. -/
def leftGrouped : Expr → Expr
  | .parenthesis e => .parenthesis e.leftGrouped
  | .operation spelling function [e] juxtaposed =>
    .operation spelling function [e.leftGrouped] juxtaposed
  | .operation spelling function [left, right] juxtaposed =>
    match Operator.ofName? function with
    | some op => regrouped op left.leftGrouped right.leftGrouped
    | none => .operation spelling function [left, right] juxtaposed
  | e => e

-- The equations are derived here, once for all the proofs that unfold `leftGrouped`.
attribute [local simp] leftGrouped

theorem leftGrouped_enclosed (wrap : Bool) (e : Expr) :
    (enclosed wrap e).leftGrouped = enclosed wrap e.leftGrouped := by
  cases wrap
  · rfl
  · rw [enclosed, if_pos rfl, leftGrouped]
    rfl

theorem leftGrouped_unary (op : Operator) (e : Expr) :
    (apply op [e]).leftGrouped = apply op [e.leftGrouped] := by
  rw [apply, leftGrouped]
  rfl

theorem leftGrouped_binary (op : Operator) (left right : Expr) :
    (apply op [left, right]).leftGrouped = regrouped op left.leftGrouped right.leftGrouped := by
  rw [apply, leftGrouped, Operator.ofName?_name]

/-- Grouping to the left keeps the text and what the text depends on. -/
theorem Operated.leftGrouped {e : Expr} (h : Operated e) :
    Operated e.leftGrouped ∧ strength? .keep e.leftGrouped = strength? .keep e ∧
      e.leftGrouped.flatText = e.flatText ∧ e.leftGrouped.nesting = e.nesting := by
  induction h with
  | symbol identifier free =>
      rw [Expr.leftGrouped]
      · exact ⟨.symbol identifier free, rfl, rfl, rfl⟩
      all_goals simp
  | parenthesis h ih =>
      obtain ⟨operated, _, text, depth⟩ := ih
      rw [Expr.leftGrouped, flatText, flatText, nesting, nesting, text, depth]
      exact ⟨.parenthesis operated, rfl, rfl, rfl⟩
  | @unary op e unary h ih =>
      obtain ⟨operated, _, text, depth⟩ := ih
      rw [leftGrouped_unary, strength?_apply, strength?_apply]
      refine ⟨.unary unary operated, rfl, ?_, ?_⟩
      · rw [apply, apply, flatText, flatText, text]
      · rw [apply, apply, nesting, nesting, depth]
  | @binary op left right binary hleft hright ihleft ihright =>
      obtain ⟨operated, _, text, depth⟩ := ihleft
      obtain ⟨operated', _, text', depth'⟩ := ihright
      obtain ⟨operated'', strength, text'', depth''⟩ := operated.regrouped binary operated'
      rw [leftGrouped_binary, strength?_apply]
      refine ⟨operated'', strength, ?_, ?_⟩
      · rw [text'', apply, apply, flatText, flatText, text, text']
      · rw [depth'', apply, apply, nesting, nesting, depth, depth']
  | comparison relational many length h ih =>
      rw [Expr.leftGrouped]
      · exact ⟨.comparison relational many length h, rfl, rfl, rfl⟩
      all_goals simp

/-! ### What is read -/

/-- What the text of an expression of operators is read as. -/
def asRead (e : Expr) : Expr :=
  (e.written {}).leftGrouped

section

variable {op : Operator} {e left right : Expr} {wrap wrap' : Bool}

theorem asRead_unary (h : (apply op [e]).written {} = apply op [enclosed wrap (e.written {})]) :
    (apply op [e]).asRead = apply op [enclosed wrap e.asRead] := by
  rw [asRead, h, leftGrouped_unary, leftGrouped_enclosed]
  rfl

theorem Places.asRead (h : Places op left right wrap wrap') : (apply op [left, right]).asRead
    = regrouped op (enclosed wrap left.asRead) (enclosed wrap' right.asRead) := by
  rw [Expr.asRead, h.written, leftGrouped_binary, leftGrouped_enclosed, leftGrouped_enclosed]
  rfl

end

theorem Built.asRead {e : Expr} (h : Built e) : Operated e.asRead :=
  h.text_eq.2.leftGrouped.1

theorem Built.strength?_asRead {e : Expr} (h : Built e) :
    strength? .keep e.asRead = strength? .keep e := by
  rw [Expr.asRead, h.text_eq.2.leftGrouped.2.1]
  cases h with
  | symbol => rfl
  | @unary op e =>
      obtain ⟨wrap, hwritten, _⟩ := exists_written_unary op e
      rw [hwritten, strength?_apply, strength?_apply]
  | @binary op left right =>
      obtain ⟨wrap, wrap', places⟩ := exists_places op left right
      rw [places.written, strength?_apply, strength?_apply]

/-- An operand binds as tightly as it has to, if it is written in parentheses where it does not. -/
theorem Built.bindsAtLeast_asRead {e : Expr} (h : Built e) {wrap : Bool} {k : Nat}
    (tight : wrap = false → e.BindsAtLeast k) : (enclosed wrap e.asRead).BindsAtLeast k := by
  cases wrap with
  | true => exact .of_none rfl k
  | false =>
      intro precedence hprecedence
      exact tight rfl precedence (h.strength?_asRead.symm.trans hprecedence)

theorem Graded.enclosed {e : Expr} (h : Graded e) (wrap : Bool) : Graded (enclosed wrap e) := by
  cases wrap with
  | false => exact h
  | true => exact .parenthesis h

/-- Grafting keeps operands in places that they are tight enough for. -/
theorem Graded.graft {op : Operator} {left right : Expr} (binary : op.isUnary = false)
    (grouping : op.associativity = .left) (plain : op.isRelational = false) (hleft : Graded left)
    (tight : left.BindsAtLeast op.precedence) (hright : Graded right)
    (tight' : right.BindsAtLeast op.precedence) : Graded (graft op left right) := by
  have apart : ∀ {e : Expr}, Graded e → e.BindsAtLeast op.precedence →
      strength? .keep e ≠ some op.precedence → Graded (Expr.graft op left e) := by
    intro e he htight hstrength
    rw [graft_apart hstrength]
    exact .binary binary grouping plain hleft tight he (htight.succ hstrength)
  have alike : ∀ {inner : Operator} {operands : List Expr},
      strength? .keep (apply inner operands) = some op.precedence →
        inner.precedence = op.precedence :=
    fun hstrength => Option.some.inj ((strength?_apply ..).symm.trans hstrength)
  induction hright with
  | symbol identifier free => exact apart (.symbol identifier free) tight' nofun
  | number lexical => exact apart (.number lexical) tight' nofun
  | parenthesis h => exact apart (.parenthesis h) tight' nofun
  | prefixed unary right h htight =>
      refine apart (.prefixed unary right h htight) tight' fun hstrength => ?_
      rw [(Operator.of_precedence_eq (alike hstrength)).1, binary] at unary
      cases unary
  | postfixed unary left h htight =>
      refine apart (.postfixed unary left h htight) tight' fun hstrength => ?_
      rw [(Operator.of_precedence_eq (alike hstrength)).1, binary] at unary
      cases unary
  | power binary' right hbase htight hexponent htight' =>
      refine apart (.power binary' right hbase htight hexponent htight') tight' fun hstrength => ?_
      rw [(Operator.of_precedence_eq (alike hstrength)).2.1, grouping] at right
      cases right
  | @binary inner y z binary' grouping' plain' hy htight hz htight' ihy _ =>
      by_cases hprecedence : inner.precedence = op.precedence
      · rw [graft_alike hprecedence]
        refine .binary binary' grouping' plain' (ihy (hprecedence ▸ htight)) ?_ hz htight'
        intro precedence hstrength
        rw [strength?_graft, ← hprecedence] at hstrength
        exact Nat.le_of_eq (Option.some.inj hstrength)
      · refine apart (.binary binary' grouping' plain' hy htight hz htight') tight' ?_
        exact fun hstrength => hprecedence (alike hstrength)
  | compared relational hy htight hz htight' =>
      refine apart (.compared relational hy htight hz htight') tight' fun hstrength => ?_
      rw [(Operator.of_precedence_eq (alike hstrength)).2.2, plain] at relational
      cases relational
  | comparison relational many length h htight =>
      refine apart (.comparison relational many length h htight) tight' fun hstrength => ?_
      rw [Operator.isRelational, ← Option.some.inj hstrength] at plain
      cases plain

/-- A chain keeps operands in places that they are tight enough for. -/
theorem Graded.chain {op : Operator} {left right : Expr} (relational : op.isRelational = true)
    (hleft : Graded left) (tight : left.BindsAtLeast op.precedence) (hright : Graded right)
    (tight' : right.BindsAtLeast 10) : Graded (chain op left right) := by
  rw [(Operator.associativity_of_relational relational).2.2] at tight
  by_cases hstrength : strength? .keep left = some Precedence.relational
  · obtain ⟨ops, operands, hlinks, hoperands⟩ := hleft.links hstrength
    obtain ⟨hrelational, many, length⟩ := hlinks.comparison relational right
    rw [hlinks.chain_eq]
    refine .comparison hrelational many length ?_ ?_
    · exact List.forall_mem_append.2 ⟨fun e he => (hoperands e he).1,
        List.forall_mem_singleton.2 hright⟩
    · exact List.forall_mem_append.2 ⟨fun e he => (hoperands e he).2,
        List.forall_mem_singleton.2 tight'⟩
  · rw [chain_apart hstrength]
    exact .compared relational hleft (tight.succ hstrength) hright tight'

/-- What the text of an expression of operators is read as has operands as tight as the table of
precedences asks for. -/
theorem Built.graded {e : Expr} (h : Built e) : Graded e.asRead := by
  induction h with
  | symbol identifier free => exact .symbol identifier free
  | @unary op e unary h ih =>
      obtain ⟨wrap, hwritten, _, tight⟩ := exists_written_unary op e
      have hgraded := ih.enclosed wrap
      have htight := h.bindsAtLeast_asRead tight
      rw [asRead_unary hwritten]
      cases grouping : op.associativity with
      | right =>
          have strong := unary
          rw [Operator.isUnary_eq, decide_eq_true_iff] at strong
          exact .prefixed unary grouping hgraded (htight.mono (by omega))
      | left => exact .postfixed unary grouping hgraded (htight.mono (by omega))
  | @binary op left right binary hleft hright ihleft ihright =>
      obtain ⟨wrap, wrap', places⟩ := exists_places op left right
      have hgraded := ihleft.enclosed wrap
      have hgraded' := ihright.enclosed wrap'
      have tight := hleft.bindsAtLeast_asRead places.ofLeft
      have tight' := hright.bindsAtLeast_asRead places.ofRight
      rw [places.asRead]
      cases relational : op.isRelational with
      | true =>
          obtain ⟨_, grouping, hprecedence⟩ := Operator.associativity_of_relational relational
          have tighter' : (Expr.enclosed wrap' right.asRead).BindsAtLeast (op.precedence + 1) := by
            refine hright.bindsAtLeast_asRead fun hwrap =>
              (places.ofRight hwrap).succ fun hstrength => ?_
            obtain ⟨inner, hinner, _⟩ := places.regroups grouping hwrap hstrength
            rw [Operator.associativeWith_of_relational relational] at hinner
            cases hinner
          rw [hprecedence] at tighter'
          rw [regrouped_relational relational]
          exact hgraded.chain relational tight hgraded' tighter'
      | false =>
          cases grouping : op.associativity with
          | left =>
              rw [regrouped_plain relational grouping]
              exact .graft binary grouping relational hgraded tight hgraded' tight'
          | right =>
              have tighter := hleft.bindsAtLeast_asRead (places.tighter grouping)
              rw [op.precedence_of_power binary grouping] at tighter tight'
              rw [regrouped_right grouping]
              exact .power binary grouping hgraded tighter hgraded' tight'

/-- The text of an expression of operators is read as grouped to the left. -/
theorem Built.parse_text {e : Expr} (h : Built e) (shallow : (e.written {}).nesting < maxDepth) :
    parse e.text = .ok e.asRead := by
  obtain ⟨htext, hwritten⟩ := h.text_eq
  obtain ⟨hread, _, hflat, hnesting⟩ := hwritten.leftGrouped
  rw [htext, ← hflat]
  exact parse_of_tells (hread.tells (by rw [hnesting]; omega)) h.graded.legible

end Expr

end Formula
