import Formula.Proofs.Compilation
import Formula.Proofs.Evaluation.Similarity

/-!
Compiling trees that were rewritten.

Where a tree that compiles is rewritten to another one, the other one compiles too if it passes the
same checks, and it asks the resolver for the same literals on the way: `Follows` says so of two
compilations, step by step.
-/

namespace Formula.Code

variable {σ α α' β β' : Type}

/-- Whenever a compilation succeeds, so does another one, with a related result and the same questions
to the resolver. -/
def Follows (post : α → α' → Prop) (x : Compilation σ α) (y : Compilation σ α') : Prop :=
  ∀ s a s', x s = (.ok a, s') → ∃ b, y s = (.ok b, s') ∧ post a b

namespace Follows

variable {post : α → α' → Prop} {post' : β → β' → Prop} {x : Compilation σ α}
  {y : Compilation σ α'} {f : α → Compilation σ β} {g : α' → Compilation σ β'}

theorem pure {a : α} {b : α'} (h : post a b) :
    Follows post (pure a : Compilation σ α) (pure b) := by
  rintro s _ s' ⟨⟩
  exact ⟨b, rfl, h⟩

theorem failing (e : ShapeError) : Follows post (throw e : Compilation σ α) y := by
  rintro s a s' ⟨⟩

theorem bind (hx : Follows post x y) (hf : ∀ a b, post a b → Follows post' (f a) (g b)) :
    Follows post' (x >>= f) (y >>= g) := by
  intro s c s'' h
  obtain ⟨a, s', ha, hc⟩ := bind_eq_ok h
  obtain ⟨b, hb, hab⟩ := hx s a s' ha
  obtain ⟨d, hd, hcd⟩ := hf a b hab s' c s'' hc
  refine ⟨d, ?_, hcd⟩
  rw [bind_apply, hb]
  exact hd

/-- What is done with the results of the last compilation that can fail. -/
theorem map {f : α → β} {g : α' → β'} (hx : Follows post x y)
    (hf : ∀ a b, post a b → post' (f a) (g b)) :
    Follows post' (x >>= fun a => Pure.pure (f a)) (y >>= fun b => Pure.pure (g b)) :=
  hx.bind fun a b hab => .pure (hf a b hab)

/-- A node that was rewritten passes its check if the old one did. -/
theorem node {e e' : Expr} (hcheck : e.check = .ok () → e'.check = .ok ())
    (h : e.check = .ok () → Follows post x y) :
    Follows post (do require e.check; x) (do require e'.check; y) := by
  cases he : e.check with
  | error e => exact fun s a s' => nofun
  | ok =>
      rw [hcheck he]
      exact h he

/-- A node that no check can make fit. -/
theorem never {e : Expr} (error : ShapeError) :
    Follows post (do require e.check; throw error : Compilation σ α) y := by
  cases e.check with
  | error e => exact fun s a s' => nofun
  | ok => exact .failing error

/-- A node that is rewritten to what one of its children is rewritten to. -/
theorem dropping {e : Expr} (h : Follows post x y) : Follows post (do require e.check; x) y := by
  cases e.check with
  | error e => exact fun s a s' => nofun
  | ok => exact h

end Follows

/-- Literals are compiled to constants. -/
theorem follows_ofConstant (r : Resolver σ) (R : Regime) (k : R.Kind) (value : String)
    (kind : ConstantKind) :
    Follows (Similar R k) (ofConstant r value kind) (ofConstant r value kind) := by
  cases kind with
  | number =>
      rintro s _ s' ⟨⟩
      exact ⟨_, rfl, .constant _⟩
  | string | boolean | null | undefined => exact .pure (.constant _)

theorem similar_ofOperation {R : Regime} {k : R.Kind} (function : String)
    {operands operands' : List Code} (h : SimilarAll R k operands operands') :
    Similar R k (ofOperation function operands) (ofOperation function operands') := by
  match h with
  | .nil => exact .operation _ .nil
  | .cons hleft .nil => exact .operation _ (.cons hleft .nil)
  | .cons hleft (.cons hright .nil) =>
      simp only [ofOperation]
      split
      · exact .lazy _ _ hleft hright
      · exact .lazy _ _ hleft hright
      · exact .operation _ (.cons hleft (.cons hright .nil))
  | .cons hleft (.cons hright (.cons h hs)) =>
      exact .operation _ (.cons hleft (.cons hright (.cons h hs)))

/-- A call of what is no name. -/
theorem follows_callValue {r : Resolver σ} {R : Regime} {k : R.Kind} {callee callee' : Expr}
    {args args' : List Expr} (hform : callee.form ≠ .symbol) (hform' : callee'.form ≠ .symbol)
    (hargs : Follows (SimilarAll R k) (ofExprs r args) (ofExprs r args'))
    (hcallee : Follows (Similar R k) (ofExpr r callee) (ofExpr r callee')) :
    Follows (Similar R k) (ofExpr r (.call callee args)) (ofExpr r (.call callee' args')) := by
  rw [ofExpr, ofExpr]
  · exact .node id fun _ => hargs.bind fun _ _ hcodes =>
      hcallee.map fun _ _ hcode => .callValue _ _ hcode hcodes
  · rintro name rfl
    exact hform' rfl
  · rintro name rfl
    exact hform rfl

/-- An access to a target goes on from there. -/
theorem ofTarget_access (r : Resolver σ) {owner part : Expr} (h : IsTarget owner) :
    ofTarget r (.access owner part) = (do
      let (root, selectors) ← ofTarget r owner
      let selector ← ofPart r part
      return (root, selectors ++ [selector])) := by
  cases owner with
  | symbol | access => conv_lhs => rw [ofTarget]
  | _ => simp [IsTarget, Expr.form] at h

/-- An access to what is neither a name nor an access itself starts from a value. -/
theorem ofTarget_temporary (r : Resolver σ) {owner part : Expr} (hsymbol : owner.form ≠ .symbol)
    (haccess : owner.form ≠ .access) : ofTarget r (.access owner part) = (do
      let body ← ofExpr r owner
      let selector ← ofPart r part
      return (.temporary body, [selector])) := by
  cases owner with
  | symbol => exact absurd rfl hsymbol
  | access => exact absurd rfl haccess
  | _ => simp [ofTarget]

/-! ### Mentioning the size -/

theorem mentionsEnd_eq_false_iff {e : Expr} :
    mentionsEnd e = false ↔ e.Everywhere fun node => node.isSymbol Expr.endName = false := by
  rw [mentionsEnd, List.any_eq_false, ← Expr.forall_mem_nodes]
  simp only [Bool.not_eq_true]

end Formula.Code
