import Formula.Catalog.Standard
import Formula.Code.Compile
import Formula.Proofs.Json.Tree

/-!
Which expressions can be compiled, and what they are compiled to.

Compiling fails on expressions that are not well formed, and on no other ones
(`succeedsIff_ofExpr`): checks are made on the way down, node by node, and all that is passed over in
a target of an assignment are accesses to indexes. In compiled code every comparison of a chain has an
operand on both of its sides
(`Code.IsPaired`). So whatever is parsed, read from a document or revised can be compiled
(`Expr.compiles_iff_wellFormed`).
-/

namespace Formula.Code

/-! ### Parts of code -/

/-- The code of the dimensions of an index. -/
def codesOf (selector : Selector Code) : List Code :=
  selector.dimensions.map (·.body)

/-- The code that code is put together from. -/
def parts : Code → List Code
  | .constant _ | .symbol _ => []
  | .operation _ operands | .comparison _ operands => operands
  | .lazy _ _ left right => [left, right]
  | .conditional condition yes no => [condition, yes, no]
  | .block entries => entries.map (·.body)
  | .range start stop step => start :: stop :: step.toList
  | .assignment (.name _) selectors value => value :: selectors.flatMap codesOf
  | .assignment (.temporary body) selectors value => value :: body :: selectors.flatMap codesOf
  | .definition _ _ body => [body]
  | .call _ args => args
  | .callValue _ callee args => callee :: args
  | .array items => items
  | .object properties => properties.map (·.2)
  | .index selector => codesOf selector
  | .access owner selector => owner :: codesOf selector

/-- Whether code and all that it is put together from has a property. -/
inductive Everywhere (P : Code → Prop) : Code → Prop
  | node {code : Code} (here : P code) (below : ∀ part ∈ code.parts, Everywhere P part) :
      Everywhere P code

theorem Everywhere.part {P : Code → Prop} {code : Code} (h : Everywhere P code) :
    ∀ part ∈ code.parts, Everywhere P part := by
  cases h with
  | node _ below => exact below

/-- Whether a chain has an operand on both sides of each comparison. -/
def IsPaired : Code → Prop
  | .comparison functions operands => operands.length = functions.length + 1
  | _ => True

/-! ### Compilations that succeed on a condition -/

section

variable {σ α β : Type}

/-- A compilation succeeds if and only if a condition holds, and then all its results are alike. -/
def SucceedsIff (P : Prop) (post : α → Prop) (x : Compilation σ α) : Prop :=
  ∀ s, match (x s).1 with
    | .ok a => P ∧ post a
    | .error _ => ¬ P

variable {P Q : Prop} {post : α → Prop} {post' : β → Prop} {x : Compilation σ α}
  {f : α → Compilation σ β}

theorem SucceedsIff.congr (h : SucceedsIff P post x) (hiff : P ↔ Q) : SucceedsIff Q post x := by
  rwa [← propext hiff]

theorem SucceedsIff.pure {a : α} (h : post a) : SucceedsIff True post (pure a : Compilation σ α) :=
  fun _ => ⟨trivial, h⟩

theorem SucceedsIff.throw (e : ShapeError) : SucceedsIff False post (throw e : Compilation σ α) :=
  fun _ => id

theorem SucceedsIff.require (check : Except ShapeError Unit) :
    SucceedsIff (check = .ok ()) (fun _ => True) (require check : Compilation σ Unit) := by
  intro s
  cases check with
  | error => exact nofun
  | ok => exact ⟨rfl, trivial⟩

theorem SucceedsIff.bind (hx : SucceedsIff P post x)
    (hf : P → ∀ a, post a → SucceedsIff Q post' (f a)) : SucceedsIff (P ∧ Q) post' (x >>= f) := by
  intro s
  have hs := hx s
  rw [bind_apply]
  revert hs
  rcases x s with ⟨_ | a, s'⟩
  · exact fun hP h => hP h.1
  · rintro ⟨hP, ha⟩
    have hrest := hf hP a ha s'
    revert hrest
    dsimp only
    rcases (f a s').1 with _ | b
    · exact fun hQ h => hQ h.2
    · exact fun ⟨hQ, hb⟩ => ⟨⟨hP, hQ⟩, hb⟩

/-- What follows the last thing that can fail. -/
theorem SucceedsIff.map {f : α → β} (hx : SucceedsIff P post x) (hf : ∀ a, post a → post' (f a)) :
    SucceedsIff P post' (x >>= fun a => Pure.pure (f a)) :=
  (hx.bind fun _ a ha => .pure (hf a ha)).congr (iff_of_eq (and_true _))

/-- A node is checked, and then its children are compiled. -/
theorem SucceedsIff.node {e : Expr} {x : Compilation σ α}
    (h : e.check = .ok () → SucceedsIff (∀ child ∈ e.children.map (·.2), child.WellFormed) post x) :
    SucceedsIff e.WellFormed post (do Code.require e.check; x) :=
  ((SucceedsIff.require e.check).bind fun hcheck _ _ => h hcheck).congr Expr.wellFormed_iff.symm

end

/-! ### Compiling -/

section

variable {σ : Type} (r : Resolver σ)

/-- In code every comparison has an operand on both sides. -/
abbrev Paired : Code → Prop :=
  Everywhere IsPaired

theorem succeedsIff_ofConstant (value : String) (kind : ConstantKind) :
    SucceedsIff True Paired (ofConstant r value kind) := by
  have constant : ∀ result, Paired (.constant result) := fun _ => .node trivial nofun
  cases kind with
  | number =>
      intro s
      exact ⟨trivial, constant _⟩
  | string | boolean | null | undefined => exact .pure (constant _)

theorem paired_ofOperation (function : String) {operands : List Code}
    (h : ∀ code ∈ operands, Paired code) :
    Paired (ofOperation function operands) := by
  unfold ofOperation
  split
  · split <;> exact .node trivial h
  · exact .node trivial h

theorem paired_codesOf {selector : Selector Code} (h : ∀ d ∈ selector.dimensions, Paired d.body) :
    ∀ code ∈ codesOf selector, Paired code :=
  List.forall_mem_map.2 h

/-- Whether an expression stands for something that can be assigned to. -/
def IsTarget (e : Expr) : Prop :=
  e.form = .symbol ∨ e.form = .access

theorem isTarget_of_checkTarget {e : Expr} (h : e.checkTarget = .ok ()) : IsTarget e := by
  cases e with
  | symbol => exact .inl rfl
  | access => exact .inr rfl
  | _ => cases h

theorem form_of_checkIndex {owner : Form} {e : Expr} (h : Expr.checkIndex owner e = .ok ()) :
    e.form = .index := by
  cases e with
  | index => rfl
  | _ => cases h

/-- An access is checked for no more than that an index follows its owner. -/
theorem wellFormed_access {owner part : Expr} : (Expr.access owner part).WellFormed ↔
    owner.WellFormed ∧ part.WellFormed ∧ part.form = .index := by
  rw [Expr.wellFormed_iff]
  constructor
  · rintro ⟨hcheck, hchildren⟩
    exact ⟨hchildren _ (by simp [Expr.children]), hchildren _ (by simp [Expr.children]),
      form_of_checkIndex hcheck⟩
  · rintro ⟨howner, hpart, hform⟩
    refine ⟨?_, by simp [Expr.children, howner, hpart]⟩
    cases part with
    | index => rfl
    | _ => cases hform

/-- The parts of an assignment to a part of something are checked one after the other. -/
theorem check_assignment_part {target part value : Expr}
    (h : (Expr.assignment target (some part) value).check = .ok ()) :
    IsTarget target ∧ part.form = .index := by
  have hcheck : (target.checkTarget >>= fun _ => Expr.checkIndex .assignment part) = .ok () := h
  cases htarget : target.checkTarget with
  | error => rw [htarget] at hcheck; cases hcheck
  | ok =>
      rw [htarget] at hcheck
      exact ⟨isTarget_of_checkTarget htarget, form_of_checkIndex hcheck⟩

/-- The root and the selectors of a target in which comparisons are paired. -/
def PairedTarget (target : Root Code × List (Selector Code)) : Prop :=
  ∀ value, Paired value → Paired (.assignment target.1 target.2 value)

theorem PairedTarget.name (name : String) : PairedTarget (.name name, []) := by
  intro value h
  exact .node trivial (by simpa [parts] using h)

theorem PairedTarget.temporary {body : Code} (h : Paired body) :
    PairedTarget (.temporary body, []) := by
  intro value h'
  exact .node trivial (by simpa [parts] using ⟨h', h⟩)

theorem PairedTarget.select {root : Root Code} {selectors : List (Selector Code)}
    (h : PairedTarget (root, selectors)) {selector : Selector Code}
    (hselector : ∀ d ∈ selector.dimensions, Paired d.body) :
    PairedTarget (root, selectors ++ [selector]) := by
  intro value hvalue
  have hparts := (h value hvalue).part
  refine .node trivial ?_
  cases root <;> simp only [parts, List.flatMap_append, List.flatMap_singleton,
    List.forall_mem_cons, List.forall_mem_append] at hparts ⊢
  · exact ⟨hparts.1, hparts.2, paired_codesOf hselector⟩
  · exact ⟨hparts.1, hparts.2.1, hparts.2.2, paired_codesOf hselector⟩

mutual

/-- An expression is compiled if and only if it is well formed. -/
theorem succeedsIff_ofExpr : ∀ e : Expr, SucceedsIff e.WellFormed Paired (ofExpr r e)
  | .constant value kind => by
      rw [ofExpr]
      exact .node fun _ => (succeedsIff_ofConstant r value kind).congr (by simp [Expr.children])
  | .symbol name => by
      rw [ofExpr]
      exact .node fun _ => (SucceedsIff.pure (.node trivial nofun)).congr (by simp [Expr.children])
  | .operation _ function operands _ => by
      rw [ofExpr]
      exact .node fun _ => ((succeedsIff_ofExprs operands).map fun codes h =>
        paired_ofOperation function h.2).congr (by simp [Expr.children])
  | .call callee args => by
      have called : SucceedsIff ((∀ e ∈ args, e.WellFormed) ∧ callee.WellFormed) Paired
          (do let args ← ofExprs r args
              let code ← ofExpr r callee
              return .callValue callee.text code args) :=
        (succeedsIff_ofExprs args).bind fun _ codes h =>
          (succeedsIff_ofExpr callee).map fun code h' => .node trivial (List.forall_mem_cons.2 ⟨h', h.2⟩)
      cases callee with
      | symbol name =>
          have symbol : (Expr.symbol name).WellFormed := .node rfl nofun
          rw [ofExpr]
          exact .node fun _ => ((succeedsIff_ofExprs args).map fun codes h =>
            .node trivial h.2).congr (by simp [Expr.children, symbol])
      | _ =>
          rw [ofExpr]
          · exact .node fun _ => called.congr (by simp [Expr.children, and_comm])
          · nofun
  | .range start stop step => by
      rw [ofExpr]
      refine .node fun _ => ((succeedsIff_ofExpr start).bind fun _ a ha =>
        (succeedsIff_ofExpr stop).bind fun _ b hb =>
          (succeedsIff_ofStep step).map fun c hc => ?_).congr ?_
      · exact .node trivial (by simpa [parts] using ⟨ha, hb, hc⟩)
      · cases step <;> simp [Expr.children]
  | .conditional condition yes no => by
      rw [ofExpr]
      exact .node fun _ => ((succeedsIff_ofExpr condition).bind fun _ a ha =>
        (succeedsIff_ofExpr yes).bind fun _ b hb => (succeedsIff_ofExpr no).map fun c hc =>
          .node trivial (by simpa [parts] using ⟨ha, hb, hc⟩)).congr (by simp [Expr.children])
  | .assignment target none value => by
      rw [ofExpr]
      refine .node fun hcheck => ((succeedsIff_ofExpr value).bind fun _ code hcode =>
        (succeedsIff_ofTarget target).map fun found hfound => hfound code hcode).congr ?_
      have htarget : IsTarget target := isTarget_of_checkTarget hcheck
      simp [Expr.children, htarget, and_comm]
  | .assignment target (some part) value => by
      rw [ofExpr]
      refine .node fun hcheck => ((succeedsIff_ofExpr value).bind fun _ code hcode =>
        (succeedsIff_ofTarget target).bind fun _ found hfound => (succeedsIff_ofPart part).map
          fun selector hselector => hfound.select hselector code hcode).congr ?_
      obtain ⟨htarget, hpart⟩ := check_assignment_part hcheck
      simp [Expr.children, htarget, hpart]
      tauto
  | .definition name params body => by
      rw [ofExpr]
      exact .node fun _ => ((succeedsIff_ofExpr body).map fun code h =>
        .node trivial (by simpa [parts] using h)).congr (by simp [Expr.children])
  | .block entries => by
      rw [ofExpr]
      exact .node fun _ => ((succeedsIff_ofEntries entries).map fun codes h =>
        .node trivial (List.forall_mem_map.2 h)).congr
          (by rw [Expr.map_snd_children_block, List.forall_mem_map])
  | .array items => by
      rw [ofExpr]
      exact .node fun _ => ((succeedsIff_ofExprs items).map fun codes h => .node trivial h.2).congr
        (by simp [Expr.children])
  | .object properties => by
      rw [ofExpr]
      exact .node fun _ => ((succeedsIff_ofProperties properties).map fun codes h =>
        .node trivial (List.forall_mem_map.2 h)).congr
          (by rw [Expr.map_snd_children_object, List.forall_mem_map])
  | .parenthesis content => by
      rw [ofExpr]
      exact .node fun _ => (succeedsIff_ofExpr content).congr (by simp [Expr.children])
  | .index dimensions dotted => by
      rw [ofExpr]
      exact .node fun _ => ((succeedsIff_ofDimensions dimensions).map fun codes h =>
        .node trivial (paired_codesOf h)).congr (by simp [Expr.children])
  | .access owner part => by
      rw [ofExpr]
      refine .node fun hcheck => ((succeedsIff_ofExpr owner).bind fun _ code hcode =>
        (succeedsIff_ofPart part).map fun selector h =>
          .node trivial (List.forall_mem_cons.2 ⟨hcode, paired_codesOf h⟩)).congr ?_
      simp [Expr.children, form_of_checkIndex hcheck]
  | .comparison functions operands => by
      rw [ofExpr]
      refine .node fun hcheck => ((succeedsIff_ofExprs operands).map fun codes h =>
        .node ?_ h.2).congr (by simp [Expr.children])
      rw [IsPaired, h.1]
      exact Expr.length_of_checkChain hcheck

theorem succeedsIff_ofExprs : ∀ es : List Expr, SucceedsIff (∀ e ∈ es, e.WellFormed)
    (fun codes => codes.length = es.length ∧ ∀ code ∈ codes, Paired code) (ofExprs r es)
  | [] => by
      rw [ofExprs]
      exact (SucceedsIff.pure ⟨rfl, nofun⟩).congr (by simp)
  | e :: es => by
      rw [ofExprs]
      refine ((succeedsIff_ofExpr e).bind fun _ code h =>
        (succeedsIff_ofExprs es).map fun codes h' => ?_).congr (by rw [List.forall_mem_cons])
      exact ⟨congrArg (· + 1) h'.1, List.forall_mem_cons.2 ⟨h, h'.2⟩⟩

theorem succeedsIff_ofStep : ∀ step : Option Expr, SucceedsIff (∀ e ∈ step, e.WellFormed)
    (fun code => ∀ c ∈ code, Paired c) (ofStep r step)
  | none => by
      rw [ofStep]
      exact (SucceedsIff.pure nofun).congr (by simp)
  | some e => by
      rw [ofStep]
      exact ((succeedsIff_ofExpr e).map fun code h => by simpa using h).congr (by simp)

theorem succeedsIff_ofEntries : ∀ entries : List (Entry Expr),
    SucceedsIff (∀ entry ∈ entries, entry.body.WellFormed)
      (fun codes => ∀ entry ∈ codes, Paired entry.body)
      (ofEntries r entries)
  | [] => by
      rw [ofEntries]
      exact (SucceedsIff.pure nofun).congr (by simp)
  | ⟨e, visible⟩ :: entries => by
      rw [ofEntries]
      refine ((succeedsIff_ofExpr e).bind fun _ code h =>
        (succeedsIff_ofEntries entries).map fun codes h' => ?_).congr (by rw [List.forall_mem_cons])
      exact List.forall_mem_cons.2 ⟨h, h'⟩

theorem succeedsIff_ofProperties : ∀ properties : List (String × Expr),
    SucceedsIff (∀ p ∈ properties, p.2.WellFormed) (fun codes => ∀ p ∈ codes, Paired p.2)
      (ofProperties r properties)
  | [] => by
      rw [ofProperties]
      exact (SucceedsIff.pure nofun).congr (by simp)
  | (key, e) :: properties => by
      rw [ofProperties]
      refine ((succeedsIff_ofExpr e).bind fun _ code h =>
        (succeedsIff_ofProperties properties).map fun codes h' => ?_).congr (by rw [List.forall_mem_cons])
      exact List.forall_mem_cons.2 ⟨h, h'⟩

theorem succeedsIff_ofDimensions : ∀ es : List Expr, SucceedsIff (∀ e ∈ es, e.WellFormed)
    (fun dimensions => ∀ d ∈ dimensions, Paired d.body) (ofDimensions r es)
  | [] => by
      rw [ofDimensions]
      exact (SucceedsIff.pure nofun).congr (by simp)
  | e :: es => by
      rw [ofDimensions]
      refine ((succeedsIff_ofExpr e).bind fun _ code h =>
        (succeedsIff_ofDimensions es).map fun codes h' => ?_).congr (by rw [List.forall_mem_cons])
      exact List.forall_mem_cons.2 ⟨h, h'⟩

/-- A selector is compiled if and only if it is a well-formed index. -/
theorem succeedsIff_ofPart : ∀ part : Expr, SucceedsIff (part.WellFormed ∧ part.form = .index)
    (fun selector => ∀ d ∈ selector.dimensions, Paired d.body) (ofPart r part)
  | .index dimensions dotted => by
      rw [ofPart]
      exact (SucceedsIff.node fun _ => ((succeedsIff_ofDimensions dimensions).map
        fun codes h => h).congr (by simp [Expr.children])).congr (by simp [Expr.form])
  | .constant .. | .symbol _ | .operation .. | .call .. | .range .. | .conditional ..
  | .assignment .. | .definition .. | .block _ | .array _ | .object _ | .parenthesis _ | .access ..
  | .comparison .. => by
      rw [ofPart]
      · exact ((SucceedsIff.require _).bind fun _ _ _ => .throw _).congr (by simp [Expr.form])
      · nofun

/-- A target is compiled if and only if it is a well-formed symbol or access. -/
theorem succeedsIff_ofTarget : ∀ target : Expr, SucceedsIff (target.WellFormed ∧ IsTarget target)
    PairedTarget (ofTarget r target)
  | .symbol name => by
      have symbol : (Expr.symbol name).WellFormed := .node rfl nofun
      rw [ofTarget]
      exact (SucceedsIff.pure (.name name)).congr (by simp [symbol, IsTarget, Expr.form])
  | .access owner part => by
      -- the access itself is passed over, but its part is checked to be an index
      have wellFormed : owner.WellFormed ∧ part.WellFormed ∧ part.form = .index ↔
          (Expr.access owner part).WellFormed ∧ IsTarget (.access owner part) := by
        rw [wellFormed_access]
        simp [IsTarget, Expr.form]
      have selected : ∀ found, PairedTarget found →
          SucceedsIff (part.WellFormed ∧ part.form = .index) PairedTarget
            (ofPart r part >>= fun selector => pure (found.1, found.2 ++ [selector])) :=
        fun found hfound =>
          (succeedsIff_ofPart part).map fun selector hselector => hfound.select hselector
      cases owner with
      | symbol | access =>
          rw [ofTarget]
          refine (SucceedsIff.bind ?_ fun _ => selected).congr wellFormed
          exact (succeedsIff_ofTarget _).congr (by simp [IsTarget, Expr.form])
      | _ =>
          rw [ofTarget]
          · exact ((succeedsIff_ofExpr _).bind fun _ body hbody =>
              selected (.temporary body, []) (.temporary hbody)).congr wellFormed
          · nofun
          · nofun
  | .constant .. | .operation .. | .call .. | .range .. | .conditional .. | .assignment ..
  | .definition .. | .block _ | .array _ | .object _ | .parenthesis _ | .index .. | .comparison .. => by
      rw [ofTarget]
      · exact (SucceedsIff.throw _).congr (by simp [IsTarget, Expr.form])
      · nofun
      · nofun

end

end

end Formula.Code

namespace Formula.Expr

variable {σ : Type} (r : Resolver σ)

/-- Whether an expression can be compiled, in whatever state the resolver is. -/
def Compiles (e : Expr) : Prop :=
  ∀ s, ∃ code s', e.compile r s = (.ok code, s')

theorem exists_compile_iff {e : Expr} {s : σ} :
    (∃ code s', e.compile r s = (.ok code, s')) ↔ e.WellFormed := by
  show (∃ code s', Code.ofExpr r e s = (.ok code, s')) ↔ e.WellFormed
  have h := Code.succeedsIff_ofExpr r e s
  revert h
  rcases Code.ofExpr r e s with ⟨_ | code, s'⟩
  · exact fun h => ⟨(fun ⟨_, _, hcode⟩ => nomatch hcode), fun hwellFormed => absurd hwellFormed h⟩
  · exact fun h => ⟨fun _ => h.1, fun _ => ⟨code, s', rfl⟩⟩

theorem paired_of_compile {e : Expr} {s s' : σ} {code : Code} (h : e.compile r s = (.ok code, s')) :
    code.Paired := by
  have hcode := Code.succeedsIff_ofExpr r e s
  rw [show Code.ofExpr r e s = (.ok code, s') from h] at hcode
  exact hcode.2

theorem WellFormed.compiles {e : Expr} (h : e.WellFormed) : e.Compiles r :=
  fun _ => (exists_compile_iff r).2 h

/-- Well-formed expressions are compiled, and no others: so all that are parsed or read from
documents, and all that revisions with well-formed replacements make of them. In what they are
compiled to, bodies of functions included, each comparison of a chain has an operand on both sides. -/
theorem compiles_iff_wellFormed :
    (∀ (e : Expr) s, (∃ code s', e.compile r s = (.ok code, s')) ↔ e.WellFormed) ∧
      (∀ source e, parse source = .ok e → e.Compiles r) ∧
      (∀ json e, ofJson json = .ok e → e.Compiles r) ∧
      (∀ (e : Expr) (replace : Visit → Option Expr) (revision : Revision), e.WellFormed →
        (∀ v new, replace v = some new → new.WellFormed) →
        e.map replace = .ok revision → revision.result.Compiles r) ∧
      (∀ (τ : Type) (e : Expr) (replace : Visit → StateM τ (Option Expr)) (t t' : τ)
        (revision : Revision), e.WellFormed → (∀ v u new u', replace v u = (some new, u') → new.WellFormed) →
        e.transform replace t = (.ok revision, t') → revision.result.Compiles r) ∧
      (∀ (e : Expr) s code s', e.compile r s = (.ok code, s') → code.Paired) := by
  refine ⟨fun e s => exists_compile_iff r, fun source e h => ?_, fun json e h => ?_,
    fun e replace revision h hreplace hmap => ?_,
    fun τ e replace t t' revision h hreplace hrun => ?_,
    fun e s code s' h => paired_of_compile r h⟩
  · exact (sound_of_parse h).wellFormed.compiles r
  · exact (sound_of_ofJson h).wellFormed.compiles r
  · exact (wellFormed_of_map h hreplace hmap).compiles r
  · exact (wellFormed_of_transform hreplace h hrun).compiles r

/-- A chain of comparisons whose middle operand is replaced. -/
theorem compiles_iff_wellFormed_revised :
    let chain (middle : Expr) : Expr :=
      .comparison ["smaller", "smaller"] [.symbol "a", middle, .symbol "c"]
    let replace (v : Visit) : Option Expr :=
      if v.node.isSymbol "b" then some (.number "2") else none
    (∀ v new, replace v = some new → new.WellFormed) ∧ (chain (.symbol "b")).WellFormed ∧
      (∃ revision, (chain (.symbol "b")).map replace = .ok revision ∧
        revision.result = chain (.number "2") ∧ revision.result.Compiles Catalog.standardCalls) ∧
      ∃ code s',
        (chain (.number "2")).compile Catalog.standardCalls () = (.ok code, s') ∧ code.Paired := by
  intro chain replace
  have leaf : ∀ e : Expr, e.children = [] → e.check = .ok () → e.WellFormed :=
    fun e hchildren hcheck => .node hcheck (by rw [hchildren]; nofun)
  have hchain : ∀ middle, middle.WellFormed → (chain middle).WellFormed := by
    intro middle hmiddle
    refine .node (checkChain_eq_ok (by decide) rfl (by decide)) ?_
    have hsymbol : ∀ name, (Expr.symbol name).WellFormed := fun name => leaf _ rfl rfl
    simpa [children, chain, hsymbol] using hmiddle
  have hreplace : ∀ v new, replace v = some new → new.WellFormed := by
    intro v new h
    simp only [replace] at h
    split at h
    · cases h
      exact leaf _ rfl rfl
    · cases h
  have hmap : (chain (.symbol "b")).map replace = .ok (.rebuilt (chain (.number "2"))
      [.kept (.symbol "a"), .replaced (.number "2"), .kept (.symbol "c")]) := by
    rfl
  have hcompiles := compiles_iff_wellFormed Catalog.standardCalls
  have hwellFormed := hchain (.symbol "b") (leaf _ rfl rfl)
  have hrevised := hcompiles.2.2.2.1 _ replace _ hwellFormed hreplace hmap
  refine ⟨hreplace, hwellFormed, ⟨_, hmap, rfl, hrevised⟩, ?_⟩
  obtain ⟨code, s', hcode⟩ := (hcompiles.1 (chain (.number "2")) ()).2 (hchain _ (leaf _ rfl rfl))
  exact ⟨code, s', hcode, hcompiles.2.2.2.2.2 _ _ _ _ hcode⟩

end Formula.Expr
