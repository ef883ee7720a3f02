import Formula.Proofs.Nodes
import Formula.Proofs.Rendering.Grouping

/-!
Which trees of operators are read back from their text.

The tree that is read differs from the one that is written in how operators group that are as strong
as one another. This is a reassociation if and only if only operators meet that may be regrouped
(`Joined`), and no comparisons meet (`Unchained`), so these are the trees that are read back
(`readsBack_iff`).
-/

namespace Formula.Expr

open Grammar Rendering

/-! ### Reassociation -/

/-- Two expressions differ in how operators group that may be regrouped. -/
inductive Reassociated : Expr → Expr → Prop
  | refl (e : Expr) : Reassociated e e
  | symm {e e' : Expr} (h : Reassociated e e') : Reassociated e' e
  | trans {e e' e'' : Expr} (h : Reassociated e e') (h' : Reassociated e' e'') : Reassociated e e''
  | regroup {op inner : Operator} (h : inner ∈ op.associativeWith) (x y z : Expr) :
      Reassociated (.apply op [x, .apply inner [y, z]]) (.apply inner [.apply op [x, y], z])
  | unary (op : Operator) {e e' : Expr} (h : Reassociated e e') :
      Reassociated (.apply op [e]) (.apply op [e'])
  | left (op : Operator) {e e' : Expr} (right : Expr) (h : Reassociated e e') :
      Reassociated (.apply op [e, right]) (.apply op [e', right])
  | right (op : Operator) {e e' : Expr} (left : Expr) (h : Reassociated e e') :
      Reassociated (.apply op [left, e]) (.apply op [left, e'])

/-- Whether an expression without parentheses is read back from its text, up to parentheses and to
reassociation. -/
def ReadsBack (e : Expr) : Prop :=
  ∃ e', parse e.text = .ok e' ∧ Reassociated e'.bare e

/-- Whether all operators down the left of an expression that are as strong as an operator may be
regrouped with it. -/
def joins (op : Operator) : Expr → Bool
  | .operation _ function [left, _] _ => (Operator.ofName? function).all fun inner =>
    inner.precedence ≠ op.precedence || (op.associativeWith.contains inner && joins op left)
  | _ => true

/-- A right operand that may be regrouped with its operator joins it, however deep. -/
def Joined : Expr → Prop
  | .operation _ function [_, right] _ => ∀ op, Operator.ofName? function = some op →
    ∀ inner ∈ op.associativeWith, right.operator? = some inner → right.joins op = true
  | _ => True

/-- No comparison is the left operand of a comparison. -/
def Unchained : Expr → Prop
  | .operation _ function [left, _] _ => ∀ op inner, Operator.ofName? function = some op →
    left.operator? = some inner → op.isRelational = true → inner.isRelational = false
  | _ => True

section

variable {op inner : Operator} {e left right y z : Expr} {wrap wrap' : Bool}

theorem joins_operation {spelling : String} {juxtaposed : Bool} :
    (Expr.operation spelling inner.name [y, z] juxtaposed).joins op = true ↔
      (inner.precedence = op.precedence → inner ∈ op.associativeWith ∧ y.joins op = true) := by
  rw [joins, Operator.ofName?_name, Option.all_some, Bool.or_eq_true, Bool.and_eq_true,
    List.contains_iff_mem, decide_eq_true_iff, or_iff_not_imp_left, Ne, not_not]

theorem joins_binary : (apply inner [y, z]).joins op = true ↔
    (inner.precedence = op.precedence → inner ∈ op.associativeWith ∧ y.joins op = true) :=
  joins_operation

theorem joined_binary : Joined (apply op [left, right]) ↔
    ∀ inner ∈ op.associativeWith, right.operator? = some inner → right.joins op = true := by
  constructor
  · exact fun h => h op op.ofName?_name
  · intro h op' hop
    obtain rfl := Option.some.inj (op.ofName?_name.symm.trans hop)
    exact h

theorem unchained_binary : Unchained (apply op [left, right]) ↔
    (op.isRelational = true → ∀ inner, left.operator? = some inner →
      inner.isRelational = false) := by
  constructor
  · exact fun h relational inner hinner => h op inner op.ofName?_name hinner relational
  · intro h op' inner hop hinner relational
    obtain rfl := Option.some.inj (op.ofName?_name.symm.trans hop)
    exact h relational inner hinner

theorem Built.strength?_eq (h : Built e) :
    strength? .keep e = e.operator?.map Operator.precedence := by
  cases h <;> rfl

theorem Built.unchained_iff (hleft : Built left) : Unchained (apply op [left, right]) ↔
    (op.isRelational = true → strength? .keep left ≠ some Precedence.relational) := by
  rw [unchained_binary, hleft.strength?_eq, Ne, Option.map_eq_some_iff, not_exists]
  refine forall_congr' fun _ => forall_congr' fun inner => ?_
  rw [not_and, Operator.isRelational, beq_eq_false_iff_ne]

theorem joins_of_strength? (h : strength? .keep e ≠ some op.precedence) : e.joins op = true := by
  unfold joins
  split
  · rename_i function _ _ _
    cases hinner : Operator.ofName? function with
    | none => rfl
    | some inner =>
        have hprecedence : inner.precedence ≠ op.precedence := fun heq =>
          h (heq ▸ strength?_of_operator? hinner)
        rw [Option.all_some, decide_eq_true hprecedence, Bool.true_or]
  · rfl

theorem joins_enclosed (h : e.joins op = true) (wrap : Bool) :
    (enclosed wrap e).joins op = true := by
  cases wrap with
  | false => exact h
  | true => rfl

/-! ### Trees that are read back -/

/-- Grafting onto an operand that joins the operator reassociates. -/
theorem Operated.reassociated_graft (binary : op.isUnary = false) (plain : op.isRelational = false)
    (hright : Operated right) (hjoins : right.joins op = true) :
    Reassociated (Expr.graft op left right).bare (apply op [left, right]).bare := by
  revert hjoins
  refine hright.spine binary plain (fun e he hstrength => ?_)
    fun inner y z hinner hprecedence hy hz ih => ?_
  · intro _
    rw [graft_apart hstrength]
    exact .refl _
  · intro hjoins
    obtain ⟨hassociative, hjoins⟩ := joins_binary.1 hjoins hprecedence
    rw [graft_alike hprecedence]
    exact .trans (.left inner z.bare (ih hjoins))
      (.symm (.regroup hassociative left.bare y.bare z.bare))

/-- An operator is joined by a graft of operands that join it. -/
theorem Operated.joins_graft (binary : inner.isUnary = false) (plain : inner.isRelational = false)
    (associative : inner ∈ op.associativeWith) (hleft : left.joins op = true)
    (hright : Operated right) (hjoins : right.joins inner = true) :
    (Expr.graft inner left right).joins op = true := by
  obtain ⟨_, _, _, further⟩ := Operator.of_mem_associativeWith associative
  revert hjoins
  refine hright.spine binary plain (fun e he hstrength => ?_)
    fun inner' y z hinner' hprecedence hy hz ih => ?_
  · intro _
    rw [graft_apart hstrength]
    exact joins_binary.2 fun _ => ⟨associative, hleft⟩
  · intro hjoins
    obtain ⟨hassociative, hjoins⟩ := joins_binary.1 hjoins hprecedence
    rw [graft_alike hprecedence]
    exact joins_binary.2 fun _ => ⟨further inner' hassociative, ih hjoins⟩

/-- A right operand joins the operator that it is read behind. -/
theorem Places.joins (places : Places op left right wrap wrap')
    (grouping : op.associativity = .left)
    (joined : Joined (apply op [left, right])) (hright : Built right)
    (keeps : right.joins op = true → right.asRead.joins op = true) :
    (Expr.enclosed wrap' right.asRead).joins op = true := by
  cases wrap' with
  | true => rfl
  | false =>
      by_cases hstrength : strength? .keep right = some op.precedence
      · obtain ⟨inner, hinner, hoperator⟩ := places.regroups grouping rfl hstrength
        exact keeps (joined_binary.1 joined inner hinner hoperator)
      · exact joins_of_strength? (hright.strength?_asRead.trans_ne hstrength)

/-- A comparison that is the left operand of a comparison is not written in parentheses. -/
theorem Places.strength?_relational (places : Places op left right wrap wrap') (hleft : Built left)
    (relational : op.isRelational = true) :
    strength? .keep (Expr.enclosed wrap left.asRead) = some Precedence.relational ↔
      strength? .keep left = some Precedence.relational := by
  obtain ⟨_, grouping, hprecedence⟩ := Operator.associativity_of_relational relational
  cases wrap with
  | false => exact hleft.strength?_asRead ▸ Iff.rfl
  | true =>
      obtain ⟨precedence, hlt, hstrength⟩ := places.loose grouping rfl
      rw [hprecedence] at hlt
      rw [hstrength]
      exact ⟨nofun, fun h => absurd (Option.some.inj h) (Nat.ne_of_lt hlt)⟩

/-- Without chains, only operators that may be regrouped with some are read as grafts. -/
theorem Places.asRead_or (places : Places op left right wrap wrap') (hleft : Built left)
    (unchained : Unchained (apply op [left, right])) :
    (op.associativity = .left ∧ op.isRelational = false ∧ (apply op [left, right]).asRead
        = Expr.graft op (Expr.enclosed wrap left.asRead) (Expr.enclosed wrap' right.asRead)) ∨
      op.associativeWith = [] ∧ (apply op [left, right]).asRead
        = apply op [Expr.enclosed wrap left.asRead, Expr.enclosed wrap' right.asRead] := by
  rw [places.asRead]
  cases relational : op.isRelational with
  | true =>
      refine .inr ⟨Operator.associativeWith_of_relational relational, ?_⟩
      rw [regrouped_relational relational, chain_apart]
      rw [Ne, places.strength?_relational hleft relational]
      exact hleft.unchained_iff.1 unchained relational
  | false =>
      cases grouping : op.associativity with
      | left => exact .inl ⟨rfl, rfl, regrouped_plain relational grouping ..⟩
      | right =>
          refine .inr ⟨List.eq_nil_iff_forall_not_mem.2 fun inner hinner => ?_,
            regrouped_right grouping ..⟩
          cases grouping.symm.trans (Operator.of_mem_associativeWith hinner).2.2.1

end

/-- What the text of an expression of operators is read as is the expression reassociated, and joins
what the expression joins. -/
theorem Built.reassociated {e : Expr} (h : Built e) (unchained : e.Everywhere Unchained)
    (joined : e.Everywhere Joined) :
    Reassociated e.asRead.bare e ∧ ∀ op, e.joins op = true → e.asRead.joins op = true := by
  induction h with
  | symbol => exact ⟨.refl _, fun _ h => h⟩
  | @unary op e unary h ih =>
      obtain ⟨wrap, hwritten, _⟩ := exists_written_unary op e
      have hread := (ih (everywhere_unary.1 unchained).2 (everywhere_unary.1 joined).2).1
      rw [← bare_enclosed wrap e.asRead] at hread
      rw [asRead_unary hwritten]
      exact ⟨.unary op hread, fun _ _ => rfl⟩
  | @binary op left right binary hleft hright ihleft ihright =>
      obtain ⟨wrap, wrap', places⟩ := exists_places op left right
      obtain ⟨unchainedHere, unchained, unchained'⟩ := everywhere_binary.1 unchained
      obtain ⟨joinedHere, joined, joined'⟩ := everywhere_binary.1 joined
      obtain ⟨hread, hjoins⟩ := ihleft unchained joined
      obtain ⟨hread', hjoins'⟩ := ihright unchained' joined'
      rw [← bare_enclosed wrap left.asRead] at hread
      rw [← bare_enclosed wrap' right.asRead] at hread'
      have hoperands := (Reassociated.left op _ hread).trans (.right op _ hread')
      obtain ⟨grouping, plain, hasRead⟩ | ⟨alone, hasRead⟩ := places.asRead_or hleft unchainedHere
      · have hoperated := hright.asRead.enclosed wrap'
        have joins := places.joins grouping joinedHere hright (hjoins' op)
        rw [hasRead]
        refine ⟨(hoperated.reassociated_graft binary plain joins).trans hoperands,
          fun outer houter => ?_⟩
        by_cases hprecedence : op.precedence = outer.precedence
        · obtain ⟨associative, houter⟩ := joins_binary.1 houter hprecedence
          exact hoperated.joins_graft binary plain associative
            (joins_enclosed (hjoins outer houter) wrap) joins
        · exact joins_of_strength? fun hstrength =>
            hprecedence (Option.some.inj ((strength?_graft ..).symm.trans hstrength))
      · rw [hasRead]
        refine ⟨hoperands, fun outer houter => joins_binary.2 fun hprecedence => ?_⟩
        obtain ⟨associative, houter⟩ := joins_binary.1 houter hprecedence
        exact ⟨associative, joins_enclosed (hjoins outer houter) wrap⟩

theorem everywhere_symbol {P : Expr → Prop} {name : String} (here : P (.symbol name)) :
    (Expr.symbol name).Everywhere P :=
  .node here (by simp [children])

/-! ### Trees that are not read back -/

/-- How many chains of comparisons there are in an expression of operators, next to one another. -/
def chains : Expr → Nat
  | .operation _ _ [e] _ => e.chains
  | .operation _ _ [left, right] _ => left.chains + right.chains
  | .comparison .. => 1
  | _ => 0

/-- How many right operands there are in an expression that do not join their operator. -/
def strays : Expr → Nat
  | .operation _ _ [e] _ => e.strays
  | .operation _ function [left, right] _ => left.strays + right.strays
    + ((Operator.ofName? function).any fun op => !right.joins op).toNat
  | _ => 0

/-- The operand at the end of the operators down the left of an expression that are as strong as an
operator. -/
def stem (op : Operator) : Expr → Expr
  | .operation spelling function [y, z] juxtaposed =>
    if (Operator.ofName? function).map Operator.precedence = some op.precedence then stem op y
    else .operation spelling function [y, z] juxtaposed
  | e => e

section

variable {op inner : Operator} {e e' left right y z : Expr}

theorem chains_binary : (apply op [left, right]).chains = left.chains + right.chains := by
  rw [apply, chains]

theorem strays_binary : (apply op [left, right]).strays
    = left.strays + right.strays + (!right.joins op).toNat := by
  rw [apply, strays, Operator.ofName?_name, Option.any_some]

theorem stem_alike (h : inner.precedence = op.precedence) :
    stem op (apply inner [y, z]) = stem op y := by
  rw [apply, stem, Operator.ofName?_name, if_pos (by rw [Option.map_some, h])]

theorem stem_apart (h : strength? .keep e ≠ some op.precedence) : stem op e = e := by
  unfold stem
  split
  · exact if_neg h
  · rfl

/-- Reassociation changes neither the chains in an expression, nor what it joins, nor how many of
its operands stray. -/
theorem Reassociated.chains_eq (h : Reassociated e e') : e.chains = e'.chains := by
  induction h with
  | refl => rfl
  | symm _ ih => exact ih.symm
  | trans _ _ ih ih' => exact ih.trans ih'
  | regroup =>
      rw [chains_binary, chains_binary, chains_binary, chains_binary, Nat.add_assoc]
  | unary op _ ih => rw [apply, apply, chains, chains, ih]
  | left op right _ ih => rw [chains_binary, chains_binary, ih]
  | right op left _ ih => rw [chains_binary, chains_binary, ih]

theorem Reassociated.joins_eq (h : Reassociated e e') (op : Operator) :
    e.joins op = e'.joins op := by
  induction h with
  | refl => rfl
  | symm _ ih => exact ih.symm
  | trans _ _ ih ih' => exact ih.trans ih'
  | @regroup outer inner h x y z =>
      rw [Bool.eq_iff_iff, joins_binary, joins_binary, joins_binary,
        (Operator.of_mem_associativeWith h).1]
      constructor
      · intro hjoins heq
        obtain ⟨houter, hx⟩ := hjoins heq
        exact ⟨(Operator.of_mem_associativeWith houter).2.2.2 inner h, fun _ => ⟨houter, hx⟩⟩
      · intro hjoins heq
        exact (hjoins heq).2 heq
  | unary => rfl
  | left outer right _ ih => rw [Bool.eq_iff_iff, joins_binary, joins_binary, ih]
  | right outer left _ ih => rw [Bool.eq_iff_iff, joins_binary, joins_binary]

theorem Reassociated.strays_eq (h : Reassociated e e') : e.strays = e'.strays := by
  induction h with
  | refl => rfl
  | symm _ ih => exact ih.symm
  | trans _ _ ih ih' => exact ih.trans ih'
  | @regroup op inner h x y z =>
      have hjoins : (apply inner [y, z]).joins op = y.joins op := by
        rw [Bool.eq_iff_iff, joins_binary]
        exact ⟨fun hjoins => (hjoins (Operator.of_mem_associativeWith h).1).2, fun hy _ => ⟨h, hy⟩⟩
      rw [strays_binary, strays_binary, strays_binary, strays_binary, hjoins]
      omega
  | unary op _ ih => rw [apply, apply, strays, strays, ih]
  | left op right _ ih => rw [strays_binary, strays_binary, ih]
  | right op left h ih => rw [strays_binary, strays_binary, ih, h.joins_eq]

theorem strength?_bare_graft (op : Operator) (left right : Expr) :
    strength? .keep (graft op left right).bare = some op.precedence := by
  unfold graft
  split
  · split
    · assumption
    · exact strength?_apply op _
  · exact strength?_apply op _

end

section

variable {op inner : Operator} {left right : Expr} (binary : inner.isUnary = false)
  (plain : inner.isRelational = false) (hright : Operated right)
include binary plain hright

theorem chains_graft :
    (graft inner left right).bare.chains = left.bare.chains + right.bare.chains := by
  refine hright.spine binary plain (fun e he hstrength => ?_)
    fun inner' y z hinner' hprecedence hy hz ih => ?_
  · rw [graft_apart hstrength]
    exact chains_binary
  · have hgraft : (apply inner' [graft inner left y, z]).bare.chains = _ := chains_binary
    have hplain : (apply inner' [y, z]).bare.chains = _ := chains_binary
    rw [graft_alike hprecedence, hgraft, hplain, ih, Nat.add_assoc]

theorem strays_graft : (graft inner left right).bare.strays
    = left.bare.strays + right.bare.strays + (!(stem inner right).bare.joins inner).toNat := by
  refine hright.spine binary plain (fun e he hstrength => ?_)
    fun inner' y z hinner' hprecedence hy hz ih => ?_
  · rw [graft_apart hstrength, stem_apart hstrength]
    exact strays_binary
  · have hgraft : (apply inner' [graft inner left y, z]).bare.strays = _ := strays_binary
    have hplain : (apply inner' [y, z]).bare.strays = _ := strays_binary
    rw [graft_alike hprecedence, stem_alike hprecedence, hgraft, hplain, ih]
    omega

theorem stem_graft (h : inner.precedence = op.precedence) :
    stem op (graft inner left right) = stem op left := by
  refine hright.spine binary plain (fun e he hstrength => ?_)
    fun inner' y z hinner' hprecedence hy hz ih => ?_
  · rw [graft_apart hstrength, stem_alike h]
  · rw [graft_alike hprecedence, stem_alike (hprecedence.trans h), ih]

end

theorem Built.chains_eq {e : Expr} (h : Built e) : e.chains = 0 := by
  induction h with
  | symbol => rfl
  | unary _ _ ih => exact ih
  | binary _ _ _ ih ih' => rw [chains_binary, ih, ih']

/-- Comparisons that are left operands of comparisons are read as chains. -/
theorem Built.unchained {e : Expr} (h : Built e) (none : e.asRead.bare.chains = 0) :
    e.Everywhere Unchained := by
  induction h with
  | symbol => exact everywhere_symbol trivial
  | @unary op e unary h ih =>
      obtain ⟨wrap, hwritten, _⟩ := exists_written_unary op e
      have hread : (apply op [Expr.enclosed wrap e.asRead]).bare.chains = e.asRead.bare.chains := by
        rw [← bare_enclosed wrap e.asRead]
        rfl
      rw [asRead_unary hwritten, hread] at none
      exact everywhere_unary.2 ⟨trivial, ih none⟩
  | @binary op left right binary hleft hright ihleft ihright =>
      obtain ⟨wrap, wrap', places⟩ := exists_places op left right
      have happly :
        (apply op [Expr.enclosed wrap left.asRead, Expr.enclosed wrap' right.asRead]).bare.chains
          = left.asRead.bare.chains + right.asRead.bare.chains := by
        rw [← bare_enclosed wrap left.asRead, ← bare_enclosed wrap' right.asRead]
        exact chains_binary
      rw [places.asRead] at none
      rw [everywhere_binary, hleft.unchained_iff]
      cases relational : op.isRelational with
      | true =>
          rw [regrouped_relational relational] at none
          have apart : strength? .keep left ≠ some Precedence.relational := by
            rw [Ne, ← places.strength?_relational hleft relational]
            intro hstrength
            obtain ⟨ops, operands, hlinks, _⟩ := (hleft.asRead.enclosed wrap).links hstrength
            rw [hlinks.chain_eq, bare, chains] at none
            cases none
          rw [chain_apart (mt (places.strength?_relational hleft relational).1 apart),
            happly] at none
          exact ⟨fun _ => apart, ihleft (by omega), ihright (by omega)⟩
      | false =>
          have hread : left.asRead.bare.chains + right.asRead.bare.chains = 0 := by
            rw [← none]
            cases grouping : op.associativity with
            | left =>
                rw [regrouped_plain relational grouping, chains_graft binary relational
                  (hright.asRead.enclosed wrap'), bare_enclosed, bare_enclosed]
            | right => rw [regrouped_right grouping, happly]
          exact ⟨nofun, ihleft (by omega), ihright (by omega)⟩

theorem Built.strength?_bare_asRead {e : Expr} (h : Built e) (unchained : e.Everywhere Unchained) :
    strength? .keep e.asRead.bare = strength? .keep e := by
  cases h with
  | symbol => rfl
  | @unary op e =>
      obtain ⟨wrap, hwritten, _⟩ := exists_written_unary op e
      rw [asRead_unary hwritten, strength?_apply]
      exact strength?_apply op _
  | @binary op left right _ hleft =>
      obtain ⟨wrap, wrap', places⟩ := exists_places op left right
      rw [strength?_apply]
      obtain ⟨_, _, hasRead⟩ | ⟨_, hasRead⟩ := places.asRead_or hleft unchained.here
      · rw [hasRead, strength?_bare_graft]
      · rw [hasRead]
        exact strength?_apply op _

/-- What is read at the end of the operators down the left of an expression is no operation that is
as strong as they are. -/
theorem Built.joins_stem {e : Expr} (h : Built e) (unchained : e.Everywhere Unchained)
    {op : Operator}
    (grouping : op.associativity = .left) (plain : op.isRelational = false) :
    (stem op e.asRead).bare.joins op = true := by
  induction h with
  | symbol => rfl
  | @unary inner e unary h ih =>
      obtain ⟨wrap, hwritten, _⟩ := exists_written_unary inner e
      rw [asRead_unary hwritten]
      rfl
  | @binary inner left right binary hleft hright ih =>
      by_cases hprecedence : inner.precedence = op.precedence
      · obtain ⟨wrap, wrap', places⟩ := exists_places inner left right
        obtain ⟨_, grouping', plain'⟩ := Operator.of_precedence_eq hprecedence
        rw [grouping] at grouping'
        rw [plain] at plain'
        have hunchained := (everywhere_binary.1 unchained).2.1
        rw [places.asRead, regrouped_plain plain' grouping',
          stem_graft binary plain' (hright.asRead.enclosed wrap') hprecedence]
        cases wrap with
        | false => exact ih hunchained
        | true =>
            obtain ⟨precedence, hlt, hstrength⟩ := places.loose grouping' rfl
            have hne : strength? .keep left.asRead.bare ≠ some op.precedence := by
              rw [hleft.strength?_bare_asRead hunchained, hstrength, ← hprecedence]
              exact fun heq => Nat.ne_of_lt hlt (Option.some.inj heq)
            exact joins_of_strength? hne
      · have hne : strength? .keep (apply inner [left, right]) ≠ some op.precedence := fun h =>
          hprecedence (Option.some.inj ((strength?_apply ..).symm.trans h))
        have h := Built.binary binary hleft hright
        rw [stem_apart (by rwa [h.strength?_asRead])]
        exact joins_of_strength? (by rwa [h.strength?_bare_asRead unchained])

/-- An operand that cannot be regrouped with its operator does not stray by being read. -/
theorem Built.joins_bare_asRead {e : Expr} (h : Built e) (unchained : e.Everywhere Unchained)
    {op : Operator} (binary : op.isUnary = false)
    (barred : ¬ ∃ inner ∈ op.associativeWith, e.operator? = some inner)
      (hjoins : e.joins op = true) :
    e.asRead.bare.joins op = true := by
  refine joins_of_strength? ?_
  rw [h.strength?_bare_asRead unchained]
  intro hstrength
  cases h with
  | symbol => cases hstrength
  | unary unary =>
      have hprecedence := Option.some.inj ((strength?_apply ..).symm.trans hstrength)
      rw [(Operator.of_precedence_eq hprecedence).1, binary] at unary
      cases unary
  | binary =>
      have hprecedence := Option.some.inj ((strength?_apply ..).symm.trans hstrength)
      exact barred ⟨_, (joins_binary.1 hjoins hprecedence).1, operator?_apply ..⟩

/-- A right operand does not stray from the operator that it is read behind, unless it stays in its
place. -/
theorem Places.strays_or {op : Operator} {left right : Expr} {wrap wrap' : Bool}
    (places : Places op left right wrap wrap') (binary : op.isUnary = false) (hleft : Built left)
    (hright : Built right) (unchained : (apply op [left, right]).Everywhere Unchained) :
    (apply op [left, right]).asRead.bare.strays
      = left.asRead.bare.strays + right.asRead.bare.strays ∨
      (¬ ∃ inner ∈ op.associativeWith, right.operator? = some inner) ∧
        (apply op [left, right]).asRead
        = apply op [Expr.enclosed wrap left.asRead, Expr.enclosed wrap' right.asRead] := by
  obtain ⟨grouping, plain, hasRead⟩ | ⟨alone, hasRead⟩ := places.asRead_or hleft unchained.here
  · cases wrap' with
    | true => exact .inr ⟨places.barred rfl, hasRead.trans (graft_apart nofun)⟩
    | false =>
        have hjoins := hright.joins_stem (everywhere_binary.1 unchained).2.2 grouping plain
        refine .inl ?_
        rw [hasRead, strays_graft binary plain (hright.asRead.enclosed false), bare_enclosed,
          bare_enclosed]
        show _ + (!(stem op right.asRead).bare.joins op).toNat = _
        rw [hjoins]
        rfl
  · refine .inr ⟨?_, hasRead⟩
    rw [alone]
    exact nofun

/-- Fewer operands stray after an expression is read back, unless all join their operators. -/
theorem Built.strays_asRead {e : Expr} (h : Built e) (unchained : e.Everywhere Unchained) :
    e.asRead.bare.strays ≤ e.strays ∧ (e.asRead.bare.strays = e.strays → e.Everywhere Joined) := by
  induction h with
  | symbol => exact ⟨Nat.le_refl _, fun _ => everywhere_symbol trivial⟩
  | @unary op e unary h ih =>
      obtain ⟨wrap, hwritten, _⟩ := exists_written_unary op e
      obtain ⟨hle, heq⟩ := ih (everywhere_unary.1 unchained).2
      have hread : (apply op [Expr.enclosed wrap e.asRead]).bare.strays = e.asRead.bare.strays := by
        rw [← bare_enclosed wrap e.asRead]
        rfl
      have hplain : (apply op [e]).strays = e.strays := rfl
      rw [asRead_unary hwritten, hread, hplain, everywhere_unary]
      exact ⟨hle, fun hstrays => ⟨trivial, heq hstrays⟩⟩
  | @binary op left right binary hleft hright ihleft ihright =>
      obtain ⟨wrap, wrap', places⟩ := exists_places op left right
      obtain ⟨here, hunchained, hunchained'⟩ := everywhere_binary.1 unchained
      obtain ⟨hle, heq⟩ := ihleft hunchained
      obtain ⟨hle', heq'⟩ := ihright hunchained'
      rw [strays_binary, everywhere_binary, joined_binary]
      obtain hstrays | ⟨barred, hasRead⟩ := places.strays_or binary hleft hright unchained
      · rw [hstrays]
        refine ⟨by omega, fun hstrays => ⟨fun _ _ _ => ?_, heq (by omega), heq' (by omega)⟩⟩
        cases hjoins : right.joins op with
        | true => rfl
        | false =>
            rw [hjoins, Bool.not_false, Bool.toNat_true] at hstrays
            omega
      · have hjoins : (!right.asRead.bare.joins op).toNat ≤ (!right.joins op).toNat := by
          cases h : right.joins op with
          | false => exact Bool.toNat_le _
          | true => rw [hright.joins_bare_asRead hunchained' binary barred h]
        have hstrays : (apply op [left, right]).asRead.bare.strays = left.asRead.bare.strays
            + right.asRead.bare.strays + (!right.asRead.bare.joins op).toNat := by
          rw [hasRead, ← bare_enclosed wrap left.asRead, ← bare_enclosed wrap' right.asRead]
          exact strays_binary
        rw [hstrays]
        refine ⟨by omega,
          fun hstrays => ⟨fun inner hinner hoperator => ?_, heq (by omega), heq' (by omega)⟩⟩
        exact absurd ⟨inner, hinner, hoperator⟩ barred

/-- An expression of operators is read back from its text, up to parentheses and to reassociation,
if and only if no comparisons meet and its right operands join their operators. -/
theorem readsBack_iff {e : Expr} (h : Built e) (shallow : (e.written {}).nesting < maxDepth) :
    ReadsBack e ↔ e.Everywhere Unchained ∧ e.Everywhere Joined := by
  have hparse := h.parse_text shallow
  constructor
  · rintro ⟨e', hparse', hreassociated⟩
    obtain rfl := Except.ok.inj (hparse.symm.trans hparse')
    have unchained := h.unchained (hreassociated.chains_eq.trans h.chains_eq)
    exact ⟨unchained, (h.strays_asRead unchained).2 hreassociated.strays_eq⟩
  · exact fun ⟨unchained, joined⟩ => ⟨e.asRead, hparse, (h.reassociated unchained joined).1⟩

/-- The tree of `a + (b - (c mod d) * a)`. -/
def mixed : Expr :=
  .apply .add [.symbol "a", .apply .subtract [.symbol "b",
    .apply .multiply [.apply .mod [.symbol "c", .symbol "d"], .symbol "a"]]]

theorem built_symbol {name : String} (h : name ∈ ["a", "b", "c", "d"]) : Built (.symbol name) := by
  simp only [List.mem_cons, List.not_mem_nil, or_false] at h
  rcases h with rfl | rfl | rfl | rfl <;> exact .symbol (by decide +kernel) rfl

/-- A sum with a difference and a product with a remainder, which need no parentheses. -/
theorem readsBack_mixed : mixed.text = "a + b - c mod d * a" ∧ mixed.Everywhere Joined ∧
    ReadsBack mixed := by
  have built : Built mixed := by
    refine .binary rfl (built_symbol ?_) (.binary rfl (built_symbol ?_)
      (.binary rfl (.binary rfl (built_symbol ?_) (built_symbol ?_)) (built_symbol ?_))) <;> decide
  have unchained : mixed.Everywhere Unchained := by
    have leaf : ∀ {name}, (Expr.symbol name).Everywhere Unchained := everywhere_symbol trivial
    simp only [mixed, everywhere_binary, unchained_binary, leaf, and_true, true_and]
    refine ⟨nofun, nofun, nofun, nofun⟩
  have joined : mixed.Everywhere Joined := by
    have leaf : ∀ {name}, (Expr.symbol name).Everywhere Joined := everywhere_symbol trivial
    have difference : Joined mixed :=
      joined_binary.2 fun _ _ _ => joins_binary.2 fun _ => ⟨by decide, rfl⟩
    refine everywhere_binary.2 ⟨difference, leaf, ?_⟩
    simp only [everywhere_binary, joined_binary, leaf, and_true, true_and]
    exact ⟨nofun, nofun, nofun⟩
  exact ⟨by decide +kernel, joined, (readsBack_iff built (by decide +kernel)).2 ⟨unchained, joined⟩⟩

/-- The tree of `a * ((b mod c) * d)`. -/
def captured : Expr :=
  .apply .multiply
    [.symbol "a", .apply .multiply [.apply .mod [.symbol "b", .symbol "c"], .symbol "d"]]

/-- The tree of `(a < b) < c`. -/
def compared : Expr :=
  .apply .smaller [.apply .smaller [.symbol "a", .symbol "b"], .symbol "c"]

/-- A remainder on the left of a right operand is captured, and comparisons are chained. -/
theorem not_readsBack :
    (Built captured ∧ (captured.written {}).nesting < maxDepth ∧ captured.text = "a * b mod c * d" ∧
        ¬ ReadsBack captured) ∧
      Built compared ∧ (compared.written {}).nesting < maxDepth ∧ compared.text = "a < b < c" ∧
        ¬ ReadsBack compared := by
  have text : captured.text = "a * b mod c * d" := by decide +kernel
  have text' : compared.text = "a < b < c" := by decide +kernel
  have again : parse "a * b mod c * d" = .ok (.apply .multiply
      [.apply .mod [.apply .multiply [.symbol "a", .symbol "b"], .symbol "c"], .symbol "d"]) := by
    decide +kernel
  have again' : parse "a < b < c" = .ok (.comparison ["smaller", "smaller"]
      [.symbol "a", .symbol "b", .symbol "c"]) := by
    decide +kernel
  refine ⟨⟨?_, by decide +kernel, text, ?_⟩, ?_, by decide +kernel, text', ?_⟩
  · refine .binary rfl (built_symbol ?_) (.binary rfl
      (.binary rfl (built_symbol ?_) (built_symbol ?_)) (built_symbol ?_)) <;> decide
  · rintro ⟨e', hparse, hreassociated⟩
    rw [text, again] at hparse
    obtain rfl := Except.ok.inj hparse
    exact absurd hreassociated.strays_eq (by decide +kernel)
  · refine .binary rfl (.binary rfl (built_symbol ?_) (built_symbol ?_))
      (built_symbol ?_) <;> decide
  · rintro ⟨e', hparse, hreassociated⟩
    rw [text', again'] at hparse
    obtain rfl := Except.ok.inj hparse
    exact absurd hreassociated.chains_eq (by decide +kernel)

end Formula.Expr
