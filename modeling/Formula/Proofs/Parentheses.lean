import Formula.Proofs.Evaluation.Simulation
import Formula.Proofs.Rewriting

/-!
Evaluation without parentheses.

Parentheses are compiled to what is in them, so leaving them out changes the code only where a node looks
at the form of a child: a callee that is a name, the only dimension of an index that is a string, and the
start of an assignment target (`IsTransparent`). Elsewhere an expression and the same without parentheses
are compiled to codes that differ in the texts of what is called at most (`follows_ofExpr`), and such
codes do alike on stores whose functions do (`retelling`).
-/

namespace Formula

namespace Expr

/-! ### Leaving parentheses out -/

mutual

/-- An expression with the content of its parentheses in their place. -/
def unparenthesized : Expr → Expr
  | .constant value kind => .constant value kind
  | .symbol name => .symbol name
  | .operation spelling function operands juxtaposed =>
    .operation spelling function (unparenthesizedAll operands) juxtaposed
  | .call callee args => .call callee.unparenthesized (unparenthesizedAll args)
  | .range start stop step =>
    .range start.unparenthesized stop.unparenthesized (unparenthesizedOption step)
  | .conditional condition yes no =>
    .conditional condition.unparenthesized yes.unparenthesized no.unparenthesized
  | .assignment target part value =>
    .assignment target.unparenthesized (unparenthesizedOption part) value.unparenthesized
  | .definition name params body => .definition name params body.unparenthesized
  | .block entries => .block (unparenthesizedEntries entries)
  | .array items => .array (unparenthesizedAll items)
  | .object properties => .object (unparenthesizedProperties properties)
  | .parenthesis content => content.unparenthesized
  | .index dimensions dotted => .index (unparenthesizedAll dimensions) dotted
  | .access owner part => .access owner.unparenthesized part.unparenthesized
  | .comparison functions operands => .comparison functions (unparenthesizedAll operands)

/-- Expressions with the content of their parentheses in their place. -/
def unparenthesizedAll : List Expr → List Expr
  | [] => []
  | e :: es => e.unparenthesized :: unparenthesizedAll es

/-- An expression, if there is one, with the content of its parentheses in their place. -/
def unparenthesizedOption : Option Expr → Option Expr
  | none => none
  | some e => some e.unparenthesized

/-- Statements with the content of their parentheses in their place. -/
def unparenthesizedEntries : List (Entry Expr) → List (Entry Expr)
  | [] => []
  | ⟨e, visible⟩ :: entries => ⟨e.unparenthesized, visible⟩ :: unparenthesizedEntries entries

/-- Properties with the content of their parentheses in their place. -/
def unparenthesizedProperties : List (String × Expr) → List (String × Expr)
  | [] => []
  | (key, e) :: properties => (key, e.unparenthesized) :: unparenthesizedProperties properties

end

attribute [local simp] unparenthesized unparenthesizedAll unparenthesizedOption
  unparenthesizedEntries unparenthesizedProperties

theorem unparenthesizedAll_eq (es : List Expr) :
    unparenthesizedAll es = es.map unparenthesized := by
  induction es with
  | nil => rfl
  | cons e es ih => simp [ih]

theorem unparenthesizedEntries_eq (entries : List (Entry Expr)) : unparenthesizedEntries entries
    = entries.map fun entry => { entry with body := entry.body.unparenthesized } := by
  induction entries with
  | nil => rfl
  | cons entry entries ih => simp [ih]

theorem unparenthesizedProperties_eq (properties : List (String × Expr)) :
    unparenthesizedProperties properties = properties.map fun p => (p.1, p.2.unparenthesized) := by
  induction properties with
  | nil => rfl
  | cons p properties ih => simp [ih]

/-- What is left of an expression has the form of what is in its parentheses. -/
theorem form_unparenthesized : ∀ e : Expr, e.unparenthesized.form = e.content.form
  | .parenthesis e => by simpa [content] using form_unparenthesized e
  | .constant .. | .symbol _ | .operation .. | .call .. | .range .. | .conditional ..
  | .assignment .. | .definition .. | .block _ | .array _ | .object _ | .index .. | .access ..
  | .comparison .. => rfl

theorem unparenthesized_content : ∀ e : Expr, e.content.unparenthesized = e.unparenthesized
  | .parenthesis e => by simpa [content] using unparenthesized_content e
  | .constant .. | .symbol _ | .operation .. | .call .. | .range .. | .conditional ..
  | .assignment .. | .definition .. | .block _ | .array _ | .object _ | .index .. | .access ..
  | .comparison .. => rfl

theorem children_unparenthesized {e : Expr} (h : e.form ≠ .parenthesis) :
    e.unparenthesized.children.map (·.2) = (e.children.map (·.2)).map unparenthesized := by
  cases e with
  | parenthesis => exact absurd rfl h
  | block entries =>
      rw [unparenthesized, map_snd_children_block, map_snd_children_block, unparenthesizedEntries_eq]
      simp
  | object properties =>
      rw [unparenthesized, map_snd_children_object, map_snd_children_object,
        unparenthesizedProperties_eq]
      simp
  | range start stop step => cases step <;> simp [children]
  | assignment target part value => cases part <;> simp [children]
  | _ => simp [children, unparenthesizedAll_eq]

theorem everywhere_unparenthesized {P : Expr → Prop} (hparenthesis : ∀ e, P (.parenthesis e))
    (hP : ∀ e, e.form ≠ .parenthesis → (P e.unparenthesized ↔ P e)) (e : Expr) :
    e.unparenthesized.Everywhere P ↔ e.Everywhere P := by
  induction hn : sizeOf e using Nat.strongRecOn generalizing e with
  | ind n ih =>
      subst hn
      have split : ∀ e : Expr, e.Everywhere P ↔ P e ∧ ∀ e' ∈ e.children.map (·.2), e'.Everywhere P :=
        fun e => ⟨fun h => ⟨h.here, h.child⟩, fun h => .node h.1 h.2⟩
      by_cases hform : e.form = .parenthesis
      · cases e with
        | parenthesis content =>
            rw [split (.parenthesis content), unparenthesized, ih (sizeOf content) (by simp) content rfl]
            simp [children, hparenthesis]
        | _ => cases hform
      · rw [split e.unparenthesized, split e, hP e hform, children_unparenthesized hform]
        simp only [List.forall_mem_map]
        refine and_congr_right fun _ => forall₂_congr fun p hp => ?_
        exact ih _ (sizeOf_lt_of_mem_children hp) _ rfl

theorem mentionsEnd_unparenthesized (e : Expr) :
    Code.mentionsEnd e.unparenthesized = Code.mentionsEnd e := by
  rw [Bool.eq_iff_iff, ← Bool.not_eq_false, ← Bool.not_eq_false, not_iff_not,
    Code.mentionsEnd_eq_false_iff, Code.mentionsEnd_eq_false_iff]
  refine everywhere_unparenthesized (fun _ => rfl) (fun e hform => ?_) e
  cases e with
  | parenthesis => exact absurd rfl hform
  | _ => rfl

/-- What is left of an expression when all accesses at its end are taken away. -/
def targetRoot : Expr → Expr
  | .access owner _ => owner.targetRoot
  | e => e

/-- Whether the parentheses right below a node do not matter to it: around a callee they keep a name
from being the name of an operation, around the only dimension of an index they keep a string from
being the name of a property, and around the start of a target they keep it from being written. -/
def IsTransparent : Expr → Prop
  | .call callee _ => callee.form = .parenthesis → callee.content.form ≠ .symbol
  | .index dimensions _ =>
    ∀ content, dimensions = [.parenthesis content] → ∀ value, content.content ≠ .constant value .string
  | .assignment target _ _ => target.targetRoot.form = .parenthesis →
    target.targetRoot.content.form ≠ .symbol ∧ target.targetRoot.content.form ≠ .access
  | _ => True

theorem eq_of_unparenthesized_eq_constant {e : Expr} {value : String} {kind : ConstantKind}
    (h : e.unparenthesized = .constant value kind) : e.content = .constant value kind := by
  have hform : e.content.form = .constant := by rw [← form_unparenthesized, h, form]
  rw [← unparenthesized_content] at h
  revert h hform
  cases e.content with
  | constant => exact fun h _ => h
  | _ => exact fun _ hform => nomatch hform

theorem propertyName?_unparenthesized {dimensions : List Expr} {dotted : Bool}
    (h : (Expr.index dimensions dotted).IsTransparent) :
    propertyName? (.index (unparenthesizedAll dimensions) dotted)
      = propertyName? (.index dimensions dotted) := by
  match dimensions, h with
  | [], _ | _ :: _ :: _, _ => simp [propertyName?]
  | [dimension], h =>
      cases dimension with
      | parenthesis content =>
          have hcontent := h content rfl
          simp only [unparenthesizedAll, unparenthesized]
          cases hleft : content.unparenthesized with
          | constant value kind =>
              cases kind with
              | string => exact absurd (eq_of_unparenthesized_eq_constant hleft) (hcontent value)
              | _ => rfl
          | _ => rfl
      | _ => rfl

theorem checkIndex_unparenthesized {owner : Form} {e : Expr} (h : checkIndex owner e = .ok ()) :
    checkIndex owner e.unparenthesized = .ok () := by
  cases e with
  | index => rfl
  | _ => cases h

/-- A node without parentheses passes its check if it did with them. -/
theorem check_unparenthesized {e : Expr} (hform : e.form ≠ .parenthesis) (h : e.check = .ok ()) :
    e.unparenthesized.check = .ok () := by
  cases e with
  | parenthesis => exact absurd rfl hform
  | operation _ _ operands _ =>
      cases operands with
      | nil => cases h
      | cons => rfl
  | assignment target part value =>
      have htarget : target.checkTarget = .ok () → target.unparenthesized.checkTarget = .ok () := by
        cases target with
        | symbol => exact id
        | access => exact fun _ => rfl
        | _ => exact nofun
      cases part with
      | none => exact htarget h
      | some part =>
          obtain ⟨_, htarget', hpart⟩ := bind_eq_ok_iff.1 h
          exact bind_eq_ok_iff.2 ⟨(), htarget htarget', checkIndex_unparenthesized hpart⟩
  | index dimensions dotted =>
      cases dotted with
      | false => rfl
      | true =>
          match dimensions, h with
          | [.constant _ .string], _ => rfl
  | access owner part => exact checkIndex_unparenthesized h
  | comparison functions operands => simpa [check, unparenthesizedAll_eq] using h
  | definition => exact h
  | _ => rfl

end Expr

namespace Code

open Expr

variable {σ : Type} (r : Resolver σ)

/-! ### Compiling without parentheses -/

/-- Codes are alike that differ in the texts of what is called. -/
def retold : Regime where
  Kind := Unit
  inner := id
  body := ()
  Mentions _ _ := True
  Binds _ := True
  Leaf _ _ _ := False

/-- The roots and the selectors of two targets are alike. -/
def SimilarTargets (target target' : Root Code × List (Selector Code)) : Prop :=
  SimilarRoot retold () target.1 target'.1 ∧ SimilarSelectors retold () target.2 target'.2

mutual

theorem follows_ofExpr : ∀ e : Expr, e.Everywhere IsTransparent →
    Follows (Similar retold ()) (ofExpr r e) (ofExpr r e.unparenthesized)
  | .constant value kind, _ => by
      rw [unparenthesized, ofExpr]
      exact .node id fun _ => follows_ofConstant r retold () value kind
  | .symbol name, _ => by
      rw [unparenthesized, ofExpr]
      exact .node id fun _ => .pure (.symbol trivial)
  | .operation spelling function operands juxtaposed, h => by
      have hchildren : ∀ e ∈ operands, e.Everywhere IsTransparent := by simpa [children] using h.child
      rw [ofExpr, unparenthesized, ofExpr]
      exact .node (check_unparenthesized nofun) fun _ =>
        (follows_ofExprs operands hchildren).map fun _ _ hcodes => similar_ofOperation function hcodes
  | .call callee args, h => by
      obtain ⟨hcallee, hargs⟩ :
          callee.Everywhere IsTransparent ∧ ∀ e ∈ args, e.Everywhere IsTransparent := by
        simpa [children] using h.child
      by_cases hsymbol : callee.form = .symbol
      · cases callee with
        | symbol name =>
            rw [ofExpr, unparenthesized, unparenthesized, ofExpr]
            exact .node id fun _ => (follows_ofExprs args hargs).map fun _ _ hcodes =>
              .call trivial hcodes
        | _ => cases hsymbol
      · have hleft : callee.unparenthesized.form ≠ .symbol := by
          rw [form_unparenthesized]
          cases callee with
          | parenthesis => exact h.here rfl
          | _ => exact hsymbol
        rw [unparenthesized]
        exact follows_callValue hsymbol hleft (follows_ofExprs args hargs)
          (follows_ofExpr callee hcallee)
  | .range start stop step, h => by
      obtain ⟨hstart, hstop, hstep⟩ : start.Everywhere IsTransparent ∧
          stop.Everywhere IsTransparent ∧ ∀ e ∈ step, e.Everywhere IsTransparent := by
        cases step <;> simpa [children] using h.child
      rw [ofExpr, unparenthesized, ofExpr]
      exact .node id fun _ => (follows_ofExpr start hstart).bind fun _ _ ha =>
        (follows_ofExpr stop hstop).bind fun _ _ hb =>
          (follows_ofStep step hstep).map fun _ _ hc => .range ha hb hc
  | .conditional condition yes no, h => by
      obtain ⟨hcondition, hyes, hno⟩ : condition.Everywhere IsTransparent ∧
          yes.Everywhere IsTransparent ∧ no.Everywhere IsTransparent := by
        simpa [children] using h.child
      rw [ofExpr, unparenthesized, ofExpr]
      exact .node id fun _ => (follows_ofExpr condition hcondition).bind fun _ _ ha =>
        (follows_ofExpr yes hyes).bind fun _ _ hb =>
          (follows_ofExpr no hno).map fun _ _ hc => .conditional ha hb hc
  | .assignment target none value, h => by
      obtain ⟨htarget, hvalue⟩ : target.Everywhere IsTransparent ∧
          value.Everywhere IsTransparent := by simpa [children] using h.child
      rw [ofExpr, unparenthesized, unparenthesizedOption, ofExpr]
      exact .node (check_unparenthesized nofun) fun _ =>
        (follows_ofExpr value hvalue).bind fun _ _ hcode =>
          (follows_ofTarget target h.here htarget).map fun _ _ hfound =>
            .assignment trivial hfound.1 hfound.2 hcode
  | .assignment target (some part) value, h => by
      obtain ⟨htarget, hpart, hvalue⟩ : target.Everywhere IsTransparent ∧
          part.Everywhere IsTransparent ∧ value.Everywhere IsTransparent := by
        simpa [children] using h.child
      rw [ofExpr, unparenthesized, unparenthesizedOption, ofExpr]
      exact .node (check_unparenthesized nofun) fun _ =>
        (follows_ofExpr value hvalue).bind fun _ _ hcode =>
          (follows_ofTarget target h.here htarget).bind fun _ _ hfound =>
            (follows_ofPart part hpart).map fun _ _ hselector =>
              .assignment trivial hfound.1 (hfound.2.select hselector) hcode
  | .definition name params body, h => by
      have hbody : body.Everywhere IsTransparent := by simpa [children] using h.child
      rw [ofExpr, unparenthesized, ofExpr]
      exact .node id fun _ => (follows_ofExpr body hbody).map fun _ _ hcode =>
        .definition name params trivial hcode
  | .block entries, h => by
      rw [ofExpr, unparenthesized, ofExpr]
      exact .node id fun _ => (follows_ofEntries entries h.entry).map fun _ _ hcodes => .block hcodes
  | .array items, h => by
      have hchildren : ∀ e ∈ items, e.Everywhere IsTransparent := by simpa [children] using h.child
      rw [ofExpr, unparenthesized, ofExpr]
      exact .node id fun _ => (follows_ofExprs items hchildren).map fun _ _ hcodes => .array hcodes
  | .object properties, h => by
      rw [ofExpr, unparenthesized, ofExpr]
      exact .node id fun _ => (follows_ofProperties properties h.property).map fun _ _ hcodes =>
        .object hcodes
  | .parenthesis content, h => by
      have hcontent : content.Everywhere IsTransparent := by simpa [children] using h.child
      rw [ofExpr, unparenthesized]
      exact .dropping (follows_ofExpr content hcontent)
  | .index dimensions dotted, h => by
      have hdimensions : ∀ e ∈ dimensions, e.Everywhere IsTransparent := by
        simpa [children] using h.child
      rw [ofExpr, unparenthesized, ofExpr]
      exact .node (check_unparenthesized nofun) fun _ =>
        (follows_ofDimensions dimensions hdimensions false).map fun _ _ hcodes =>
          .index _ _ dotted hcodes
  | .access owner part, h => by
      obtain ⟨howner, hpart⟩ : owner.Everywhere IsTransparent ∧ part.Everywhere IsTransparent := by
        simpa [children] using h.child
      rw [ofExpr, unparenthesized, ofExpr]
      exact .node (check_unparenthesized nofun) fun _ =>
        (follows_ofExpr owner howner).bind fun _ _ hcode =>
          (follows_ofPart part hpart).map fun _ _ hselector => hselector.access hcode
  | .comparison functions operands, h => by
      have hchildren : ∀ e ∈ operands, e.Everywhere IsTransparent := by simpa [children] using h.child
      rw [ofExpr, unparenthesized, ofExpr]
      exact .node (check_unparenthesized nofun) fun _ =>
        (follows_ofExprs operands hchildren).map fun _ _ hcodes => .comparison functions hcodes

theorem follows_ofExprs : ∀ es : List Expr, (∀ e ∈ es, e.Everywhere IsTransparent) →
    Follows (SimilarAll retold ()) (ofExprs r es) (ofExprs r (unparenthesizedAll es))
  | [], _ => by
      rw [unparenthesizedAll, ofExprs]
      exact .pure .nil
  | e :: es, h => by
      obtain ⟨he, hes⟩ := List.forall_mem_cons.1 h
      rw [ofExprs, unparenthesizedAll, ofExprs]
      exact (follows_ofExpr e he).bind fun _ _ hcode =>
        (follows_ofExprs es hes).map fun _ _ hcodes => .cons hcode hcodes

theorem follows_ofStep : ∀ step : Option Expr, (∀ e ∈ step, e.Everywhere IsTransparent) →
    Follows (SimilarStep retold ()) (ofStep r step) (ofStep r (unparenthesizedOption step))
  | none, _ => by
      rw [unparenthesizedOption, ofStep]
      exact .pure .none
  | some e, h => by
      rw [ofStep, unparenthesizedOption, ofStep]
      exact (follows_ofExpr e (h e rfl)).map fun _ _ hcode => .some hcode

theorem follows_ofEntries : ∀ entries : List (Entry Expr),
    (∀ entry ∈ entries, entry.body.Everywhere IsTransparent) →
    Follows (SimilarEntries retold ()) (ofEntries r entries)
      (ofEntries r (unparenthesizedEntries entries))
  | [], _ => by
      rw [unparenthesizedEntries, ofEntries]
      exact .pure .nil
  | ⟨e, visible⟩ :: entries, h => by
      obtain ⟨he, hentries⟩ := List.forall_mem_cons.1 h
      rw [ofEntries, unparenthesizedEntries, ofEntries]
      exact (follows_ofExpr e he).bind fun _ _ hcode =>
        (follows_ofEntries entries hentries).map fun _ _ hcodes => .cons visible hcode hcodes

theorem follows_ofProperties : ∀ properties : List (String × Expr),
    (∀ p ∈ properties, p.2.Everywhere IsTransparent) →
    Follows (SimilarProperties retold ()) (ofProperties r properties)
      (ofProperties r (unparenthesizedProperties properties))
  | [], _ => by
      rw [unparenthesizedProperties, ofProperties]
      exact .pure .nil
  | (key, e) :: properties, h => by
      obtain ⟨he, hproperties⟩ := List.forall_mem_cons.1 h
      rw [ofProperties, unparenthesizedProperties, ofProperties]
      exact (follows_ofExpr e he).bind fun _ _ hcode =>
        (follows_ofProperties properties hproperties).map fun _ _ hcodes => .cons key hcode hcodes

theorem follows_ofDimensions : ∀ dimensions : List Expr,
    (∀ e ∈ dimensions, e.Everywhere IsTransparent) → ∀ owned : Bool,
    Follows (SimilarDimensions retold () owned) (ofDimensions r dimensions)
      (ofDimensions r (unparenthesizedAll dimensions))
  | [], _, _ => by
      rw [unparenthesizedAll, ofDimensions]
      exact .pure .nil
  | e :: es, h, owned => by
      obtain ⟨he, hes⟩ := List.forall_mem_cons.1 h
      rw [ofDimensions, unparenthesizedAll, ofDimensions, mentionsEnd_unparenthesized]
      exact (follows_ofExpr e he).bind fun _ _ hcode =>
        (follows_ofDimensions es hes owned).map fun _ _ hcodes => .cons (fun _ => rfl) hcode hcodes

theorem follows_ofPart : ∀ part : Expr, part.Everywhere IsTransparent →
    Follows (SimilarSelector retold ()) (ofPart r part) (ofPart r part.unparenthesized)
  | .index dimensions dotted, h => by
      have hdimensions : ∀ e ∈ dimensions, e.Everywhere IsTransparent := by
        simpa [children] using h.child
      rw [ofPart, unparenthesized, ofPart, propertyName?_unparenthesized h.here]
      exact .node (check_unparenthesized nofun) fun _ =>
        (follows_ofDimensions dimensions hdimensions true).map fun _ _ hcodes => ⟨_, _, hcodes⟩
  | .constant .., _ | .symbol _, _ | .operation .., _ | .call .., _ | .range .., _ | .conditional .., _
  | .assignment .., _ | .definition .., _ | .block _, _ | .array _, _ | .object _, _
  | .parenthesis _, _ | .access .., _ | .comparison .., _ => by
      rw [ofPart]
      · exact .never _
      · nofun

theorem follows_ofTarget : ∀ target : Expr,
    (target.targetRoot.form = .parenthesis → target.targetRoot.content.form ≠ .symbol ∧
      target.targetRoot.content.form ≠ .access) → target.Everywhere IsTransparent →
    Follows SimilarTargets (ofTarget r target) (ofTarget r target.unparenthesized)
  | .symbol name, _, _ => by
      rw [unparenthesized, ofTarget]
      exact .pure ⟨.name trivial, .nil⟩
  | .access owner part, hroot, h => by
      obtain ⟨howner, hpart⟩ : owner.Everywhere IsTransparent ∧ part.Everywhere IsTransparent := by
        simpa [children] using h.child
      by_cases hname : IsTarget owner
      · have hleft : IsTarget owner.unparenthesized := by
          cases owner with
          | symbol => exact .inl rfl
          | access => exact .inr rfl
          | _ => simp [IsTarget, form] at hname
        rw [unparenthesized, ofTarget_access r hname, ofTarget_access r hleft]
        exact (follows_ofTarget owner hroot howner).bind fun _ _ hfound =>
          (follows_ofPart part hpart).map fun _ _ hselector =>
            ⟨hfound.1, hfound.2.select hselector⟩
      · obtain ⟨hsymbol, haccess⟩ := not_or.1 hname
        have hleft : owner.content.form ≠ .symbol ∧ owner.content.form ≠ .access := by
          cases owner with
          | parenthesis => exact hroot rfl
          | _ => exact ⟨hsymbol, haccess⟩
        rw [← form_unparenthesized] at hleft
        rw [unparenthesized, ofTarget_temporary r hsymbol haccess,
          ofTarget_temporary r hleft.1 hleft.2]
        exact (follows_ofExpr owner howner).bind fun _ _ hbody =>
          (follows_ofPart part hpart).map fun _ _ hselector =>
            ⟨.temporary hbody, SimilarSelectors.nil.select hselector⟩
  | .constant .., _, _ | .operation .., _, _ | .call .., _, _ | .range .., _, _
  | .conditional .., _, _ | .assignment .., _, _ | .definition .., _, _ | .block _, _, _
  | .array _, _, _ | .object _, _, _ | .parenthesis _, _, _ | .index .., _, _
  | .comparison .., _, _ => by
      rw [ofTarget]
      · exact .failing _
      all_goals nofun

end

/-! ### Stores with codes that are alike -/

open Store

/-- Two stores have the same frames, and their functions do alike. -/
structure Retold (s s' : Store) : Prop where
  frames : s'.frames = s.frames
  size : s'.functions.size = s.functions.size
  closures : ∀ i : Nat, SimilarClosures retold Eq s.functions[i]? s'.functions[i]?

namespace Retold

variable {s s' : Store} (h : Retold s s')

include h

theorem parent? (frame : Nat) : s'.parent? frame = s.parent? frame := by
  rw [Store.parent?, Store.parent?, h.frames]

theorem bindings (frame : Nat) : s'.bindings frame = s.bindings frame := by
  rw [Store.bindings, Store.bindings, h.frames]

theorem chain (frame : Nat) : s'.chain frame = s.chain frame := by
  induction frame using Nat.strongRecOn with
  | ind frame ih =>
      rw [Store.chain, Store.chain, h.parent?]
      cases s.parent? frame with
      | none => rfl
      | some parent =>
          by_cases hlt : parent < frame
          · simp only [if_pos hlt, ih parent hlt]
          · simp only [if_neg hlt]

theorem get? (frame : Nat) (name : String) : s'.get? frame name = s.get? frame name := by
  simp only [Store.get?, own?, h.chain, h.bindings]

theorem capture (frame : Nat) : s'.capture frame = s.capture frame := by
  rw [Store.capture, Store.capture, isRoot, isRoot, h.parent?]

theorem heldByFunction? (id : Nat) : s'.heldByFunction? id = s.heldByFunction? id := by
  have hclosure := h.closures id
  rw [Store.heldByFunction?, Store.heldByFunction?]
  revert hclosure
  generalize s.functions[id]? = closure
  generalize s'.functions[id]? = closure'
  rintro (_ | _ | @⟨_, _, captured, _, _, rfl⟩)
  · rfl
  · rfl
  · cases captured <;> rfl

theorem heldByValue (v : Value) : s'.heldByValue v = s.heldByValue v := by
  rw [Store.heldByValue, Store.heldByValue, funext h.heldByFunction?]

theorem heldByFrame (frame : Nat) : s'.heldByFrame frame = s.heldByFrame frame := by
  rw [Store.heldByFrame, Store.heldByFrame, h.parent?, h.bindings, funext h.heldByValue]

theorem reach : ∀ (n : Nat) (seen fresh : List Nat), s'.reach n seen fresh = s.reach n seen fresh
  | 0, _, _ => rfl
  | n + 1, seen, fresh => by
      simp only [Store.reach, funext h.heldByFrame, reach n]

theorem isAlive (frames : List Nat) (values : List Value) (frame : Nat) :
    s'.isAlive frames values frame = s.isAlive frames values frame := by
  simp only [Store.isAlive, h.frames, funext h.heldByValue, h.reach]

theorem bind (frame : Nat) (name : String) (value : Value) :
    Retold (s.bind frame name value) (s'.bind frame name value) where
  frames := by simp only [Store.bind, Store.modify, h.frames]
  size := h.size
  closures := h.closures

theorem bindAll (frame : Nat) (bindings : List (String × Value)) :
    Retold (s.bindAll frame bindings) (s'.bindAll frame bindings) := by
  induction bindings generalizing s s' with
  | nil => exact h
  | cons binding bindings ih => exact ih (h.bind frame binding.1 binding.2)

theorem newFrame (parent : Option Nat) : Retold (s.newFrame parent).2 (s'.newFrame parent).2 where
  frames := by simp only [Store.newFrame, h.frames]
  size := h.size
  closures := h.closures

theorem newFunction {body body' : Code} (hbody : Similar retold () body body') (captured : Captured) :
    Retold (s.newFunction (.defined body captured)).2 (s'.newFunction (.defined body' captured)).2 where
  frames := h.frames
  size := by simp [Store.newFunction, h.size]
  closures i := by
    simp only [Store.newFunction, Array.getElem?_push, h.size]
    split
    · exact .defined hbody rfl
    · exact h.closures i

theorem entered (captured : Captured) (ctx : Context) (bindings : List (String × Value)) :
    Retold (entered captured ctx bindings s) (Code.entered captured ctx bindings s') := by
  have hparent : parentOf captured ctx s' = parentOf captured ctx s := by
    cases captured with
    | frame => rfl
    | root frame => simp only [parentOf, h.chain, h.isAlive]
  rw [Code.entered, Code.entered, hparent, h.frames]
  exact (h.newFrame _).bindAll _ bindings

end Retold

theorem Retold.refl (s : Store) : Retold s s where
  frames := rfl
  size := rfl
  closures i := by
    cases s.functions[i]? with
    | none => exact .none
    | some closure =>
        cases closure with
        | host rule => exact .host rule
        | defined body captured =>
            have hbody : Similar retold () body body :=
              Similar.refl (R := retold) (fun _ _ => trivial) (fun _ => trivial) () body
            exact .defined hbody rfl

/-- Codes are alike that differ in how they call what is called, and do alike. -/
def retelling : Simulation retold where
  World := Unit
  Later _ _ := True
  refl _ := trivial
  trans _ _ := trivial
  Stores _ := Retold
  Alike _ _ ctx ctx' := ctx' = ctx
  Captures _ := Eq
  later h _ := h
  holding values h := congrArg (·.holding values) h
  closure f h := h.closures f.id
  get hs h _ := by rw [h, hs.get?]
  bind name value hs h _ := by
    rw [h]
    exact hs.bind _ name value
  newFunction hs h _ hbody := by
    rw [h, hs.capture]
    exact ⟨hs.size.symm, hs.newFunction hbody _⟩
  sized value hs h := by
    rw [h, withSized, withSized, hs.frames]
    exact ⟨(), trivial, (hs.newFrame _).bind _ _ value, rfl⟩
  enter bindings hs h hcaptured := by
    rw [h, ← hcaptured, hs.frames]
    exact ⟨(), trivial, hs.entered _ _ bindings, rfl⟩
  leaf _ _ _ _ _ h := h.elim

end Code

namespace Expr

open Code

/-! ### Evaluating without parentheses -/

/-- Parentheses that do not matter to the nodes above them do not matter at all: a well-formed
expression without its parentheses is compiled after the same questions to the resolver, and evaluated
from the same machine it ends alike, with the same value or with an error that at most calls what is
no function by another text, leaves the same bindings in all frames, and the resolver in the same
state. -/
theorem unparenthesized_evaluates {σ : Type} (r : Resolver σ) {e : Expr} (wellFormed : e.WellFormed)
    (transparent : e.Everywhere IsTransparent) (s : σ) :
    ∃ code code' s', e.compile r s = (.ok code, s') ∧
      e.unparenthesized.compile r s = (.ok code', s') ∧
      ∀ (ctx : Context) (m : Machine σ),
        EndAlike Eq (code.evaluate r ctx m).1 (code'.evaluate r ctx m).1 ∧
        (code'.evaluate r ctx m).2.store.frames = (code.evaluate r ctx m).2.store.frames ∧
        (code'.evaluate r ctx m).2.resolver = (code.evaluate r ctx m).2.resolver := by
  obtain ⟨code, s', hcode⟩ := wellFormed.compiles r s
  obtain ⟨code', hcode', hsimilar⟩ := follows_ofExpr r e transparent s code s' hcode
  refine ⟨code, code', s', hcode, hcode', fun ctx m => ?_⟩
  obtain ⟨_, _, hends, hstores, hresolver⟩ := retelling.run (retelling.callWithin r depthLimit)
    hsimilar () ctx ctx rfl m m (Retold.refl m.store) rfl
  exact ⟨hends, hstores.frames, hresolver⟩

/-- A product whose left factor is the element of an array that a sum in parentheses counts. -/
def countedProduct : Expr :=
  let sum := Expr.apply .add [.symbol "i", .number "1"]
  .apply .multiply
    [.access (.parenthesis (.symbol "a")) (.index [.parenthesis sum] false), .parenthesis (.number "2")]

theorem unparenthesized_countedProduct :
    countedProduct.WellFormed ∧ countedProduct.Everywhere IsTransparent ∧
      ∃ code code' s', countedProduct.compile Catalog.standard.resolver () = (.ok code, s') ∧
        countedProduct.unparenthesized.compile Catalog.standard.resolver () = (.ok code', s') ∧
        ∀ (ctx : Context) (m : Machine Unit),
          EndAlike Eq (code.evaluate Catalog.standard.resolver ctx m).1
            (code'.evaluate Catalog.standard.resolver ctx m).1 ∧
          (code'.evaluate Catalog.standard.resolver ctx m).2.store.frames
            = (code.evaluate Catalog.standard.resolver ctx m).2.store.frames ∧
          (code'.evaluate Catalog.standard.resolver ctx m).2.resolver
            = (code.evaluate Catalog.standard.resolver ctx m).2.resolver := by
  have source : parse "(a)[(i + 1)] * (2)" = .ok countedProduct := by decide +kernel
  have wellFormed := (sound_of_parse source).wellFormed
  have leaf : ∀ e : Expr, e.children = [] → e.IsTransparent → e.Everywhere IsTransparent :=
    fun e hchildren he => .node he (by rw [hchildren]; nofun)
  have symbol : ∀ name, (Expr.symbol name).Everywhere IsTransparent := fun _ => leaf _ rfl trivial
  have number : ∀ text, (Expr.number text).Everywhere IsTransparent := fun _ => leaf _ rfl trivial
  have index : (Expr.index [.parenthesis (.apply .add [.symbol "i", .number "1"])] false).IsTransparent := by
    rintro _ ⟨⟩ value
    nofun
  have transparent : countedProduct.Everywhere IsTransparent := by
    refine everywhere_binary.2 ⟨trivial, .node trivial ?_, .node trivial ?_⟩
    · have sum : (Expr.apply .add [.symbol "i", .number "1"]).Everywhere IsTransparent :=
        everywhere_binary.2 ⟨trivial, symbol _, number _⟩
      have dimension : (Expr.parenthesis (.apply .add [.symbol "i", .number "1"])).Everywhere
          IsTransparent := .node trivial (by simpa [children] using sum)
      have owner : (Expr.parenthesis (.symbol "a")).Everywhere IsTransparent :=
        .node trivial (by simpa [children] using symbol "a")
      have part : (Expr.index [.parenthesis (.apply .add [.symbol "i", .number "1"])] false).Everywhere
          IsTransparent := .node index (by simpa [children] using dimension)
      simpa [children] using ⟨owner, part⟩
    · simpa [children] using number "2"
  exact ⟨wellFormed, transparent, unparenthesized_evaluates _ wellFormed transparent ()⟩

/-- Whether the source is evaluated with and without its parentheses alike, by the standard catalog. -/
def EvaluatesUnparenthesized (source : String) : Prop :=
  ∀ e, parse source = .ok e → ∀ code code' s s',
    e.compile Catalog.standard.resolver () = (.ok code, s) →
    e.unparenthesized.compile Catalog.standard.resolver () = (.ok code', s') →
    ∀ (ctx : Context) (m : Machine Unit),
      EndAlike Eq (code.evaluate Catalog.standard.resolver ctx m).1
        (code'.evaluate Catalog.standard.resolver ctx m).1 ∧
      ∀ frame, (code'.evaluate Catalog.standard.resolver ctx m).2.store.bindings frame
        = (code.evaluate Catalog.standard.resolver ctx m).2.store.bindings frame

/-- A string in parentheses is not the name of a property. -/
theorem not_evaluatesUnparenthesized : ¬ EvaluatesUnparenthesized "o[(\"x\")]" := by
  intro h
  have source : parse "o[(\"x\")]"
      = .ok (.access (.symbol "o") (.index [.parenthesis (.string "x")] false)) := by decide +kernel
  let m : Machine Unit :=
    { store := { frames := #[{ bindings := [("o", .object [("x", .null)])] }] }, resolver := () }
  have hends := (h _ source _ _ _ _ rfl rfl { frame := 0 } m).1.isOk_eq
  exact absurd hends (by decide +kernel)

end Expr

end Formula
