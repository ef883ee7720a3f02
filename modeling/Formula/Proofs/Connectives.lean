import Formula.Proofs.Evaluation.Journal
import Formula.Proofs.Grammar.Telling
import Formula.Proofs.ReadBack
import Formula.Proofs.WellFormed

/-!
Conditions that are put together.

As operators `and` and `or` are lazy, as functions they are strict, and a chain of comparisons is a loop
of its own. With the standard operations all of them agree (`connectives_agree`): where the call of the
function has a value the operator has the same one, and a chain of settled operands has the value of its
comparisons joined by `and`.

What a chain does, whatever the operations are, is written down in a journal (`Code.staged`): operand
after operand, each compared with the one before it, up to the first comparison that does not hold.
-/

namespace Formula

namespace Catalog

theorem standard_and (a b : Value) :
    standard.call "and" [a, b] = onConditions.decide "and" false a b :=
  rfl

theorem standard_or (a b : Value) :
    standard.call "or" [a, b] = onConditions.decide "or" true a b :=
  rfl

/-- A comparison says whether it holds. -/
theorem standard_comparison {op : Operator} (relational : op.isRelational = true) {v w u : Value}
    (h : standard.call op.name [v, w] = .ok u) : ∃ b, u = .bool b := by
  cases op with
  | equal | unequal =>
      cases h
      exact ⟨_, rfl⟩
  | smaller | larger | smallerEq | largerEq =>
      -- These are there for numbers alone.
      cases v with
      | number x =>
          cases w with
          | number y =>
              cases h
              exact ⟨_, rfl⟩
          | _ => cases h
      | _ => cases h
  | _ => cases relational

/-- A condition that an operation can take holds or does not hold. -/
theorem truthy_of_condition {name : String} {v : Value} {b : Bool}
    (h : condition name v = .ok b) : v.truthy = .ok b := by
  rw [condition] at h
  split at h
  next holds heq =>
    rw [heq]
    cases h
    rfl
  next => cases h

end Catalog

namespace Code

open Evaluation

/-! ### Operators and functions -/

/-- Whether an operator stops at a first operand that holds, or at one that does not. -/
def stopsAt (op : Operator) : Bool :=
  op == .or

theorem ofOperation_lazy {op : Operator} (lazy : op = .and ∨ op = .or) (left right : Code) :
    ofOperation op.name [left, right] = .lazy op.name (stopsAt op) left right := by
  obtain rfl | rfl := lazy <;> rfl

theorem standard_lazy {op : Operator} (lazy : op = .and ∨ op = .or) (a b : Value) :
    Catalog.standard.call op.name [a, b] = Catalog.onConditions.decide op.name (stopsAt op) a b := by
  obtain rfl | rfl := lazy
  · exact Catalog.standard_and a b
  · exact Catalog.standard_or a b

section

variable {σ : Type} (r : Resolver σ)

theorem ofExprs_cons_eq_ok {e : Expr} {es : List Expr} {codes : List Code} {s s' : σ}
    (h : ofExprs r (e :: es) s = (.ok codes, s')) :
    ∃ code rest s₁, codes = code :: rest ∧ ofExpr r e s = (.ok code, s₁) ∧
      ofExprs r es s₁ = (.ok rest, s') := by
  rw [ofExprs] at h
  obtain ⟨code, s₁, hcode, h⟩ := bind_eq_ok h
  obtain ⟨rest, s₂, hrest, h⟩ := bind_eq_ok h
  cases h
  exact ⟨code, rest, s₁, rfl, hcode, hrest⟩

theorem ofExprs_nil_eq_ok {codes : List Code} {s s' : σ}
    (h : ofExprs r [] s = (.ok codes, s')) : codes = [] ∧ s' = s := by
  rw [ofExprs] at h
  cases h
  exact ⟨rfl, rfl⟩

theorem ofExpr_call_eq_ok {name : String} {args : List Expr} {code : Code} {s s' : σ}
    (h : ofExpr r (.call (.symbol name) args) s = (.ok code, s')) :
    ∃ codes, code = .call name codes ∧ ofExprs r args s = (.ok codes, s') := by
  rw [ofExpr] at h
  obtain ⟨_, s₁, hcheck, h⟩ := bind_eq_ok h
  cases hcheck
  obtain ⟨codes, s₂, hcodes, h⟩ := bind_eq_ok h
  cases h
  exact ⟨codes, rfl, hcodes⟩

/-- An operation on two operands that compile. -/
theorem ofExpr_operation {spelling function : String} {l e : Expr} {left right : Code} {s s₁ s₂ : σ}
    (hl : ofExpr r l s = (.ok left, s₁)) (he : ofExpr r e s₁ = (.ok right, s₂)) :
    ofExpr r (.operation spelling function [l, e] false) s
      = (.ok (ofOperation function [left, right]), s₂) := by
  have hoperands : ofExprs r [l, e] s = (.ok [left, right], s₂) := by
    rw [ofExprs, bind_apply, hl]
    dsimp only
    rw [bind_apply, ofExprs, bind_apply, he]
    rfl
  rw [ofExpr]
  show (ofExprs r [l, e] >>= fun operands => pure (ofOperation function operands)) s = _
  rw [bind_apply, hoperands]
  rfl

theorem require_eq_ok {check : Except ShapeError Unit} {u : Unit} {s s' : σ}
    (h : (require check : Compilation σ Unit) s = (.ok u, s')) : check = .ok () ∧ s' = s := by
  cases check with
  | error => cases h
  | ok =>
      cases h
      exact ⟨rfl, rfl⟩

/-- A chain is checked before its operands are compiled. -/
theorem ofExpr_comparison_eq_ok {functions : List String} {operands : List Expr} {code : Code}
    {s s' : σ} (h : ofExpr r (.comparison functions operands) s = (.ok code, s')) :
    Expr.checkChain functions operands.length = .ok () ∧
      ∃ codes, code = .comparison functions codes ∧ ofExprs r operands s = (.ok codes, s') := by
  rw [ofExpr] at h
  obtain ⟨_, s₁, hrequire, hrest⟩ := bind_eq_ok h
  obtain ⟨hcheck, rfl⟩ := require_eq_ok hrequire
  obtain ⟨codes, s₂, hcodes, hdone⟩ := bind_eq_ok hrest
  cases hdone
  exact ⟨hcheck, codes, rfl, hcodes⟩

/-- The call of an operation whose name is not bound. -/
theorem run_call_unbound (calling : Calling σ) {name : String} {left right : Code} {ctx : Context}
    {m : Machine σ} (unbound : m.store.get? ctx.frame name = none) :
    run r calling (.call name [left, right]) ctx m = (do
      let a ← run r calling left ctx
      let b ← run r calling right (ctx.holding [a])
      ask (r.call name [a, b])) m := by
  rw [run, bind_apply]
  dsimp only [Evaluation.read]
  rw [unbound]
  simp only [runAll, bind_assoc, pure_bind]

end

/-- Where the strict form has a value, the lazy one has the same. -/
theorem run_lazy_of_strict {calling : Calling Unit} {op : Operator} (lazy : op = .and ∨ op = .or)
    {left right : Code} {ctx : Context} {m m' : Machine Unit} {v : Value}
    (h : (do
      let a ← run Catalog.standard.resolver calling left ctx
      let b ← run Catalog.standard.resolver calling right (ctx.holding [a])
      ask (Catalog.standard.resolver.call op.name [a, b])) m = (.ok v, m')) :
    ∃ m'', run Catalog.standard.resolver calling (.lazy op.name (stopsAt op) left right) ctx m
      = (.ok v, m'') := by
  obtain ⟨a, m₁, ha, h⟩ := bind_eq_ok h
  obtain ⟨b, m₂, hb, h⟩ := bind_eq_ok h
  rw [ask_standard, standard_lazy lazy] at h
  have hdecide : Catalog.onConditions.decide op.name (stopsAt op) a b = .ok v := by
    revert h
    rcases Catalog.onConditions.decide op.name (stopsAt op) a b with e | w
    · intro h
      cases h
    · intro h
      cases h
      rfl
  have hresult := hdecide
  rw [Catalog.onConditions.decide] at hresult
  obtain ⟨first, hfirst, hresult⟩ := bind_eq_ok_iff.1 hresult
  have holds : Evaluation.holds a m₁ = (.ok first, m₁) := by
    rw [Evaluation.holds, Catalog.truthy_of_condition hfirst]
    rfl
  rw [run, bind_apply, ha]
  dsimp only
  rw [bind_apply, holds]
  dsimp only
  by_cases decided : first = stopsAt op
  · -- The first operand decides: neither form looks at the truth of the second.
    rw [if_pos (by simpa using decided)] at hresult ⊢
    cases hresult
    exact ⟨m₁, rfl⟩
  · rw [if_neg (by simpa using decided), bind_apply, hb]
    dsimp only
    rw [ask_standard, standard_lazy lazy, hdecide]
    exact ⟨m₂, rfl⟩

/-- The operator has the value of the call of its function if the name of the function is not bound. -/
theorem evaluate_lazy_of_call {op : Operator} (lazy : op = .and ∨ op = .or) {l e : Expr}
    {ctx : Context} {m m' : Machine Unit} (unbound : m.store.get? ctx.frame op.name = none)
    {code : Code} {v : Value}
    (hcode : (Expr.call (.symbol op.name) [l, e]).compile Catalog.standard.resolver ()
      = (.ok code, ()))
    (h : code.evaluate Catalog.standard.resolver ctx m = (.ok v, m')) :
    ∃ code' m'', (Expr.apply op [l, e]).compile Catalog.standard.resolver () = (.ok code', ()) ∧
      code'.evaluate Catalog.standard.resolver ctx m = (.ok v, m'') := by
  obtain ⟨codes, rfl, hcodes⟩ := ofExpr_call_eq_ok _ hcode
  obtain ⟨left, rest, _, rfl, hleft, hcodes⟩ := ofExprs_cons_eq_ok _ hcodes
  obtain ⟨right, rest, _, rfl, hright, hcodes⟩ := ofExprs_cons_eq_ok _ hcodes
  obtain ⟨rfl, _⟩ := ofExprs_nil_eq_ok _ hcodes
  have hcode' : ofExpr Catalog.standard.resolver (.apply op [l, e]) ()
      = (.ok (.lazy op.name (stopsAt op) left right), ()) := by
    rw [← ofOperation_lazy lazy]
    exact ofExpr_operation _ hleft hright
  rw [evaluate, run_call_unbound _ _ unbound] at h
  obtain ⟨m'', hlazy⟩ := run_lazy_of_strict lazy h
  exact ⟨_, m'', hcode', hlazy⟩

/-! ### Settled expressions -/

/-- Code is worth a value where it is evaluated: it always has this value, and no effect, as long as
the bindings stay as they are. -/
def Worth (ctx : Context) (m : Machine Unit) (code : Code) (v : Value) : Prop :=
  ∀ ctx' m', Within ctx ctx' → m.store.Grows (fun _ => True) m'.store →
    ∃ m'', code.evaluate Catalog.standard.resolver ctx' m' = (.ok v, m'') ∧
      m'.store.Grows (fun _ => True) m''.store

/-- An expression is settled where it is evaluated: it can be compiled, and its code is worth a value. -/
def Settled (ctx : Context) (m : Machine Unit) (e : Expr) (v : Value) : Prop :=
  ∃ code, e.compile Catalog.standard.resolver () = (.ok code, ()) ∧ Worth ctx m code v

variable {ctx : Context} {m : Machine Unit} {l e : Expr} {v w u : Value}

/-- A condition is worth itself. -/
theorem Settled.boolean (b : Bool) : Settled ctx m (.boolean b) (.bool b) := by
  refine ⟨.constant (.ok (.bool b)), ?_, fun ctx' m' _ _ => ⟨m', rfl, .refl _ _⟩⟩
  cases b <;> rfl

/-- Two settled expressions that are compared. -/
theorem Settled.compared {op : Operator} (relational : op.isRelational = true)
    (hl : Settled ctx m l v) (he : Settled ctx m e w)
    (answer : Catalog.standard.call op.name [v, w] = .ok u) : Settled ctx m (.apply op [l, e]) u := by
  obtain ⟨left, hleft, worth⟩ := hl
  obtain ⟨right, hright, worth'⟩ := he
  have strict : ofOperation op.name [left, right] = .operation op.name [left, right] := by
    cases op <;> first | rfl | cases relational
  refine ⟨_, ofExpr_operation _ hleft hright, ?_⟩
  rw [strict]
  intro ctx' m' hctx hm
  obtain ⟨m₁, hrun, hgrows⟩ := worth ctx' m' hctx hm
  obtain ⟨m₂, hrun', hgrows'⟩ := worth' (ctx'.holding [v]) m₁ (hctx.holding [v]) (hm.trans hgrows)
  rw [evaluate] at hrun hrun'
  refine ⟨m₂, ?_, hgrows.trans hgrows'⟩
  rw [evaluate, run]
  simp only [runAll, bind_assoc, pure_bind]
  rw [bind_apply, hrun]
  dsimp only
  rw [bind_apply, hrun']
  dsimp only
  rw [ask_standard, answer]
  rfl

/-- Two settled conditions, joined by `and`. -/
theorem Settled.both {a b : Bool} (hl : Settled ctx m l (.bool a)) (he : Settled ctx m e (.bool b)) :
    Settled ctx m (.apply .and [l, e]) (.bool (a && b)) := by
  obtain ⟨left, hleft, worth⟩ := hl
  obtain ⟨right, hright, worth'⟩ := he
  refine ⟨_, ofExpr_operation _ hleft hright, ?_⟩
  show Worth ctx m (.lazy Operator.and.name false left right) _
  intro ctx' m' hctx hm
  obtain ⟨m₁, hrun, hgrows⟩ := worth ctx' m' hctx hm
  rw [evaluate] at hrun
  have holds : Evaluation.holds (.bool a) m₁ = (.ok a, m₁) := rfl
  rw [evaluate, run, bind_apply, hrun]
  dsimp only
  rw [bind_apply, holds]
  cases a with
  | false => exact ⟨m₁, rfl, hgrows⟩
  | true =>
      obtain ⟨m₂, hrun', hgrows'⟩ :=
        worth' (ctx'.holding [.bool true]) m₁ (hctx.holding _) (hm.trans hgrows)
      rw [evaluate] at hrun'
      refine ⟨m₂, ?_, hgrows.trans hgrows'⟩
      show (run _ _ right _ >>= fun w => ask _) m₁ = _
      rw [bind_apply, hrun']
      rfl

/-! ### Chains of comparisons -/

/-- The comparisons of a chain, each on its own. -/
def comparisons : List String → List Expr → List Expr
  | function :: functions, left :: right :: rest =>
    .operation (Expr.comparisonSymbol function) function [left, right] false
      :: comparisons functions (right :: rest)
  | _, _ => []

/-- Conditions joined by `and`, from the left. -/
def conjunction : List Expr → Expr
  | [] => .boolean true
  | e :: es => es.foldl (fun l e => .apply .and [l, e]) e

/-- Values of which each compares with the next, and how. -/
inductive Compares : List Operator → List Value → List Bool → Prop
  | one (v : Value) : Compares [] [v] []
  | more {op : Operator} {ops : List Operator} {v w : Value} {values : List Value} {b : Bool}
      {bs : List Bool} (answer : Catalog.standard.call op.name [v, w] = .ok (.bool b))
      (rest : Compares ops (w :: values) bs) :
      Compares (op :: ops) (v :: w :: values) (b :: bs)

theorem exists_compares : ∀ {ops : List Operator} {v : Value} {values : List Value},
    (∀ op ∈ ops, op.isRelational = true) → values.length = ops.length →
    (∀ i op a b, ops[i]? = some op → (v :: values)[i]? = some a → (v :: values)[i + 1]? = some b →
      ∃ u, Catalog.standard.call op.name [a, b] = .ok u) →
    ∃ bs, Compares ops (v :: values) bs
  | [], v, [], _, _, _ => ⟨[], .one v⟩
  | op :: ops, v, w :: values, relational, length, succeed => by
      obtain ⟨hop, hops⟩ := List.forall_mem_cons.1 relational
      obtain ⟨u, answer⟩ := succeed 0 op v w rfl rfl rfl
      obtain ⟨b, rfl⟩ := Catalog.standard_comparison hop answer
      obtain ⟨bs, rest⟩ : ∃ bs, Compares ops (w :: values) bs :=
        exists_compares hops (Nat.succ.inj length)
          fun i op' a b h ha hb => succeed (i + 1) op' a b h ha hb
      exact ⟨b :: bs, .more answer rest⟩

/-- The comparisons of a chain of settled operands are settled. -/
theorem settled_comparisons {ops : List Operator} {operands : List Expr} {values : List Value}
    {bs : List Bool} (relational : ∀ op ∈ ops, op.isRelational = true)
    (settled : List.Forall₂ (Settled ctx m) operands values) (compares : Compares ops values bs) :
    List.Forall₂ (fun e b => Settled ctx m e (.bool b))
      (comparisons (ops.map Operator.name) operands) bs := by
  induction compares generalizing operands with
  | one v =>
      cases settled with
      | cons => exact .nil
  | more answer rest ih =>
      obtain ⟨hop, hops⟩ := List.forall_mem_cons.1 relational
      cases settled with
      | cons hv settled =>
          cases settled with
          | cons hw settled =>
              refine .cons ?_ (ih hops (.cons hw settled))
              rw [Grammar.comparisonSymbol_name]
              exact hv.compared hop hw answer

/-- Settled conditions are settled when they are joined. -/
theorem settled_foldl {es : List Expr} {a : Bool} {bs : List Bool} (hl : Settled ctx m l (.bool a))
    (settled : List.Forall₂ (fun e b => Settled ctx m e (.bool b)) es bs) :
    Settled ctx m (es.foldl (fun l e => .apply .and [l, e]) l) (.bool (a && bs.all id)) := by
  induction settled generalizing l a with
  | nil => simpa using hl
  | cons h _ ih => simpa [Bool.and_assoc] using ih (hl.both h)

theorem settled_conjunction {es : List Expr} {bs : List Bool}
    (settled : List.Forall₂ (fun e b => Settled ctx m e (.bool b)) es bs) :
    Settled ctx m (conjunction es) (.bool (bs.all id)) := by
  cases settled with
  | nil => exact .boolean true
  | cons h settled => exact settled_foldl h settled

/-- Settled expressions are compiled one after another. -/
theorem ofExprs_of_settled {es : List Expr} {values : List Value}
    (settled : List.Forall₂ (Settled ctx m) es values) :
    ∃ codes, ofExprs Catalog.standard.resolver es () = (.ok codes, ()) ∧
      List.Forall₂ (Worth ctx m) codes values := by
  induction settled with
  | nil => exact ⟨[], rfl, .nil⟩
  | cons h _ ih =>
      obtain ⟨code, hcode, worth⟩ := h
      obtain ⟨codes, hcodes, rest⟩ := ih
      refine ⟨code :: codes, ?_, .cons worth rest⟩
      rw [ofExprs, bind_apply, show ofExpr _ _ () = _ from hcode]
      dsimp only
      rw [bind_apply, hcodes]
      rfl

/-- The rest of a chain holds if all its comparisons do. -/
theorem runChain_of_worth {ops : List Operator} {v : Value} {values : List Value} {bs : List Bool}
    (compares : Compares ops (v :: values) bs) {codes : List Code}
    (worth : List.Forall₂ (Worth ctx m) codes values) {m' : Machine Unit}
    (hm : m.store.Grows (fun _ => True) m'.store) :
    ∃ m'', runChain Catalog.standard.resolver (callWithin Catalog.standard.resolver depthLimit)
      (ops.map Operator.name) codes v ctx m' = (.ok (.bool (bs.all id)), m'') := by
  generalize hvalues : v :: values = all at compares
  induction compares generalizing v values codes m' with
  | one =>
      cases hvalues
      exact ⟨m', by cases worth; rfl⟩
  | @more op ops v w _ b bs answer _ ih =>
      cases hvalues
      cases worth with
      | @cons code _ codes _ hw worth =>
          obtain ⟨m₁, hrun, hgrows⟩ := hw (ctx.holding [v]) m' ((Within.refl ctx).holding [v]) hm
          rw [evaluate] at hrun
          have asked : ask (Catalog.standard.resolver.call op.name [v, w]) m₁
              = (.ok (.bool b), m₁) := by
            rw [ask_standard, answer]
            rfl
          have holds : Evaluation.holds (.bool b) m₁ = (.ok b, m₁) := rfl
          rw [List.map_cons, runChain, bind_apply, hrun]
          dsimp only
          rw [bind_apply, asked]
          dsimp only
          rw [bind_apply, holds]
          cases b with
          | false => exact ⟨m₁, rfl⟩
          | true => exact ih worth (hm.trans hgrows) rfl

/-- A chain of settled operands has the value of its comparisons joined by `and`. -/
theorem evaluate_chain_eq_conjunction {functions : List String} {operands : List Expr}
    {values : List Value} {chain : Code}
    (hchain : (Expr.comparison functions operands).compile Catalog.standard.resolver ()
      = (.ok chain, ()))
    (settled : List.Forall₂ (Settled ctx m) operands values)
    (succeed : ∀ i function a b, functions[i]? = some function → values[i]? = some a →
      values[i + 1]? = some b → ∃ u, Catalog.standard.call function [a, b] = .ok u) :
    ∃ joined v m₁ m₂,
      (conjunction (comparisons functions operands)).compile Catalog.standard.resolver ()
        = (.ok joined, ()) ∧
      chain.evaluate Catalog.standard.resolver ctx m = (.ok v, m₁) ∧
      joined.evaluate Catalog.standard.resolver ctx m = (.ok v, m₂) := by
  obtain ⟨hcheck, codes, rfl, hcodes⟩ := ofExpr_comparison_eq_ok _ hchain
  have hlength := Expr.length_of_checkChain hcheck
  obtain ⟨ops, rfl, relational⟩ :=
    Grammar.exists_comparisons (Expr.isComparison_of_checkChain hcheck)
  obtain ⟨codes', hcodes', worth⟩ := ofExprs_of_settled settled
  obtain rfl : codes' = codes := by
    rw [hcodes'] at hcodes
    cases hcodes
    rfl
  cases worth with
  | nil => cases settled; cases hlength
  | @cons first v codes values hfirst worth =>
      have length : values.length = ops.length := by
        have := settled.length_eq
        simp only [List.length_cons, List.length_map] at this hlength
        omega
      obtain ⟨bs, compares⟩ : ∃ bs, Compares ops (v :: values) bs :=
        exists_compares relational length fun i op a b hop => succeed i op.name a b (by simp [hop])
      obtain ⟨joined, hjoined, worth'⟩ :=
        settled_conjunction (settled_comparisons relational settled compares)
      obtain ⟨m₁, hrun, hgrows⟩ := hfirst ctx m (.refl ctx) (.refl _ _)
      obtain ⟨m₂, hrest⟩ := runChain_of_worth compares worth hgrows
      obtain ⟨m₃, hvalue, _⟩ := worth' ctx m (.refl ctx) (.refl _ _)
      refine ⟨joined, _, m₂, m₃, hjoined, ?_, hvalue⟩
      rw [evaluate] at hrun ⊢
      rw [run, bind_apply, hrun]
      exact hrest

/-! ### What a chain does -/

/-- What a chain of comparisons does: it evaluates an operand, or finds out whether an operand compares
with the next one. -/
inductive Stage where
  | operand (place : Nat)
  | comparison (place : Nat) (holds : Bool)
deriving DecidableEq

/-- A stage, taken to be passed. -/
def Stage.passed : Stage → Stage
  | .comparison place _ => .comparison place true
  | stage => stage

/-- The stages of a chain behind the operand at a place if that many comparisons hold. -/
def stagesFrom (place count : Nat) : List Stage :=
  (List.range' place count).flatMap fun i => [.operand (i + 1), .comparison i true]

/-- The stages of a chain of which all comparisons hold. -/
def stages (count : Nat) : List Stage :=
  .operand 0 :: stagesFrom 0 count

/-- The first stages of those planned, in order, and none behind a comparison that does not hold. -/
def InOrder (planned taken : List Stage) : Prop :=
  taken.map Stage.passed <+: planned ∧
    ∀ before place after, taken = before ++ .comparison place false :: after → after = []

section

variable {σ : Type} (r : Resolver σ) (calling : Calling σ)

/-- The rest of a chain behind the operand at a place, with a journal of its stages. -/
def stagedFrom : Nat → List String → List Code → Value → Context → Evaluation (σ × List Stage) Value
  | place, function :: functions, code :: rest, left, ctx => do
    note (.operand (place + 1))
    let right ← silent (run r calling code (ctx.holding [left]))
    let holds ← silent (ask (r.call function [left, right]) >>= holds)
    note (.comparison place holds)
    if holds then stagedFrom (place + 1) functions rest right ctx else return .bool false
  | _, _, _, _, _ => return .bool true

/-- A chain, with a journal of its stages. -/
def staged (functions : List String) : List Code → Context → Evaluation (σ × List Stage) Value
  | [], _ => return .bool true
  | first :: rest, ctx => do
    note (.operand 0)
    let a ← silent (run r calling first ctx)
    stagedFrom r calling 0 functions rest a ctx

theorem InOrder.nil (planned : List Stage) : InOrder planned [] :=
  ⟨List.nil_prefix, fun before _ _ h => absurd h (by simp)⟩

theorem InOrder.operand {planned taken : List Stage} (h : InOrder planned taken) (place : Nat) :
    InOrder (.operand place :: planned) (.operand place :: taken) := by
  refine ⟨List.cons_prefix_cons.2 ⟨rfl, h.1⟩, fun before place' after heq => ?_⟩
  cases before with
  | nil => cases heq
  | cons => exact h.2 _ place' after (List.cons.inj heq).2

theorem InOrder.compared {planned taken : List Stage} (h : InOrder planned taken) (place : Nat) :
    InOrder (.comparison place true :: planned) (.comparison place true :: taken) := by
  refine ⟨List.cons_prefix_cons.2 ⟨rfl, h.1⟩, fun before place' after heq => ?_⟩
  cases before with
  | nil => cases heq
  | cons => exact h.2 _ place' after (List.cons.inj heq).2

/-- A comparison that does not hold is the last stage. -/
theorem InOrder.stopped (planned : List Stage) (place : Nat) :
    InOrder (.comparison place true :: planned) [.comparison place false] := by
  refine ⟨List.cons_prefix_cons.2 ⟨rfl, List.nil_prefix⟩, fun before place' after heq => ?_⟩
  cases before with
  | nil => exact (List.cons.inj heq).2.symm
  | cons => exact absurd (List.cons.inj heq).2 (by simp)

theorem stagesFrom_succ (place count : Nat) : stagesFrom place (count + 1)
    = .operand (place + 1) :: .comparison place true :: stagesFrom (place + 1) count := by
  rw [stagesFrom, List.range'_succ, List.flatMap_cons]
  rfl

/-- The rest of a chain goes as without a journal, and follows the plan. -/
theorem journals_stagedFrom (functions : List String) (codes : List Code) (place : Nat) (left : Value)
    (ctx : Context) :
    Journals (fun taken _ => InOrder (stagesFrom place functions.length) taken)
      (stagedFrom r calling place functions codes left ctx)
      (runChain r calling functions codes left ctx) := by
  induction functions generalizing codes place left with
  | nil =>
      rw [stagedFrom, runChain]
      · exact .pure (.nil _)
      · simp
      · simp
  | cons function functions ih =>
      cases codes with
      | nil =>
          rw [stagedFrom, runChain]
          · exact .pure (.nil _)
          · simp
          · simp
      | cons code codes =>
          have goesOn : runChain r calling (function :: functions) (code :: codes) left ctx = (do
              let right ← run r calling code (ctx.holding [left])
              let holds ← ask (r.call function [left, right]) >>= Evaluation.holds
              if holds then runChain r calling functions codes right ctx else return .bool false) := by
            rw [runChain]
            simp only [bind_assoc]
          rw [stagedFrom, goesOn, List.length_cons, stagesFrom_succ]
          refine .noted (.bind (.silent _) ?_ ?_)
          · rintro _ _ rfl
            exact (InOrder.nil _).operand _
          intro right
          refine .bind (.silent _) ?_ ?_
          · rintro _ _ rfl _ rfl
            exact (InOrder.nil _).operand _
          intro holds
          refine .noted ?_
          cases holds with
          | false =>
              refine .pure ?_
              rintro _ rfl _ rfl
              exact (InOrder.stopped _ _).operand _
          | true =>
              refine (ih codes (place + 1) right).mono fun taken _ h => ?_
              rintro _ rfl _ rfl
              exact (h.compared _).operand _

/-- A chain goes as without a journal. Its operands are evaluated in order, each at most once and, but
for the first one, right before it is compared with the one before it; after a comparison that does not
hold nothing is evaluated any more. -/
theorem journals_staged (functions : List String) (codes : List Code) (ctx : Context) :
    Journals (fun taken _ => InOrder (stages functions.length) taken)
      (staged r calling functions codes ctx) (run r calling (.comparison functions codes) ctx) := by
  cases codes with
  | nil =>
      rw [staged, run]
      exact .pure (.nil _)
  | cons first codes =>
      rw [staged, run]
      refine .noted (.bind (.silent _) ?_ ?_)
      · rintro _ _ rfl
        exact (InOrder.nil _).operand 0
      intro a
      refine (journals_stagedFrom r calling functions codes 0 a ctx).mono fun taken _ h => ?_
      rintro _ rfl
      exact h.operand 0

end

/-! ### All of them -/

/-- With the standard operations, `and` and `or` as operators have the value that the calls of their
functions have, if these have one and their names are not bound, and a chain of settled operands all of
whose comparisons succeed has the value of these comparisons joined by `and`. Whatever the operations
are, a chain evaluates its operands in order, each at most once, and nothing after the first comparison
that does not hold. -/
theorem connectives_agree :
    (∀ (op : Operator), op = .and ∨ op = .or → ∀ (l e : Expr) (ctx : Context) (m m' : Machine Unit)
      (code : Code) (v : Value), m.store.get? ctx.frame op.name = none →
      (Expr.call (.symbol op.name) [l, e]).compile Catalog.standard.resolver () = (.ok code, ()) →
      code.evaluate Catalog.standard.resolver ctx m = (.ok v, m') →
      ∃ code' m'', (Expr.apply op [l, e]).compile Catalog.standard.resolver () = (.ok code', ()) ∧
        code'.evaluate Catalog.standard.resolver ctx m = (.ok v, m'')) ∧
    (∀ (functions : List String) (operands : List Expr) (values : List Value) (ctx : Context)
      (m : Machine Unit) (chain : Code),
      (Expr.comparison functions operands).compile Catalog.standard.resolver () = (.ok chain, ()) →
      List.Forall₂ (Settled ctx m) operands values →
      (∀ i function a b, functions[i]? = some function → values[i]? = some a →
        values[i + 1]? = some b → ∃ u, Catalog.standard.call function [a, b] = .ok u) →
      ∃ joined v m₁ m₂,
        (conjunction (comparisons functions operands)).compile Catalog.standard.resolver ()
          = (.ok joined, ()) ∧
        chain.evaluate Catalog.standard.resolver ctx m = (.ok v, m₁) ∧
        joined.evaluate Catalog.standard.resolver ctx m = (.ok v, m₂)) ∧
    ∀ (σ : Type) (r : Resolver σ) (functions : List String) (codes : List Code) (ctx : Context)
      (m : Machine σ), ∃ taken,
      staged r (callWithin r depthLimit) functions codes ctx (m.journaled [])
        = (((Code.comparison functions codes).evaluate r ctx m).1,
          ((Code.comparison functions codes).evaluate r ctx m).2.journaled taken) ∧
      InOrder (stages functions.length) taken := by
  refine ⟨?_, ?_, ?_⟩
  · intro op lazy l e ctx m m' code v unbound hcode h
    exact evaluate_lazy_of_call lazy unbound hcode h
  · intro functions operands values ctx m chain hchain settled succeed
    exact evaluate_chain_eq_conjunction hchain settled succeed
  · intro σ r functions codes ctx m
    exact journals_staged r (callWithin r depthLimit) functions codes ctx m []

/-- `or(false, true)` and `false or true`, and the chain `true == true != false`. -/
theorem connectives_agree_conditions :
    let ctx : Context := { frame := 0 }
    let m : Machine Unit := { store := { frames := #[{}] }, resolver := () }
    let arguments := [Expr.boolean false, .boolean true]
    let operands := [Expr.boolean true, .boolean true, .boolean false]
    (∃ code' m'', (Expr.apply .or arguments).compile Catalog.standard.resolver () = (.ok code', ()) ∧
      code'.evaluate Catalog.standard.resolver ctx m = (.ok (.bool true), m'')) ∧
    (∃ chain joined v m₁ m₂,
      (Expr.comparison ["equal", "unequal"] operands).compile Catalog.standard.resolver ()
        = (.ok chain, ()) ∧
      (conjunction (comparisons ["equal", "unequal"] operands)).compile Catalog.standard.resolver ()
        = (.ok joined, ()) ∧
      chain.evaluate Catalog.standard.resolver ctx m = (.ok v, m₁) ∧
      joined.evaluate Catalog.standard.resolver ctx m = (.ok v, m₂)) ∧
    ∃ taken, staged Catalog.standard.resolver (callWithin Catalog.standard.resolver depthLimit)
        ["equal"] [.symbol "a", .symbol "b"] ctx (m.journaled [])
      = (((Code.comparison ["equal"] [.symbol "a", .symbol "b"]).evaluate
            Catalog.standard.resolver ctx m).1,
        ((Code.comparison ["equal"] [.symbol "a", .symbol "b"]).evaluate
            Catalog.standard.resolver ctx m).2.journaled taken) ∧
      InOrder [.operand 0, .operand 1, .comparison 0 true] taken := by
  intro ctx m arguments operands
  have unbound : m.store.get? 0 "or" = none := by
    rw [Store.get?, Store.chain]
    rfl
  have settled : ∀ b, Settled ctx m (.boolean b) (.bool b) := Settled.boolean
  have strict : (Code.call "or" [.constant (.ok (.bool false)), .constant (.ok (.bool true))]).evaluate
      Catalog.standard.resolver ctx m = (.ok (.bool true), m) := by
    rw [evaluate, run_call_unbound _ _ unbound]
    rfl
  refine ⟨?_, ?_, ?_⟩
  · exact connectives_agree.1 .or (.inr rfl) (.boolean false) (.boolean true) ctx m m _ _ unbound rfl
      strict
  · have succeed : ∀ i function a b, ["equal", "unequal"][i]? = some function →
        [Value.bool true, .bool true, .bool false][i]? = some a →
        [Value.bool true, .bool true, .bool false][i + 1]? = some b →
        ∃ u, Catalog.standard.call function [a, b] = .ok u := by
      intro i function a b hfunction ha hb
      rcases i with _ | _ | i
      · cases hfunction
        cases ha
        cases hb
        exact ⟨_, rfl⟩
      · cases hfunction
        cases ha
        cases hb
        exact ⟨_, rfl⟩
      · cases hfunction
    obtain ⟨joined, v, m₁, m₂, h⟩ := connectives_agree.2.1 ["equal", "unequal"] operands _ ctx m
      (.comparison ["equal", "unequal"] ([true, true, false].map fun b => .constant (.ok (.bool b)))) rfl
      (.cons (settled true) (.cons (settled true) (.cons (settled false) .nil))) succeed
    exact ⟨_, joined, v, m₁, m₂, rfl, h⟩
  · exact connectives_agree.2.2 Unit Catalog.standard.resolver ["equal"] [.symbol "a", .symbol "b"]
      ctx m

end Code

end Formula
