import Formula.Proofs.Evaluation.Layout
import Formula.Proofs.Rewriting

/-!
Compiling with literals for sizes.

Where an expression mentions the size of what it indexes, another one can stand in its place (`withEnd`);
where it indexes something itself, the size is that of what is indexed there, and is left alone. If the
resolver takes a literal for the size, the codes with and without it are alike (`follows_withEnd`), as
long as nothing is bound next to the size and functions do not look for it where they are called
(`Admits`).
-/

namespace Formula

namespace Expr

/-! ### Mentions of the size of what is indexed -/

/-- The children of a node for which the size of what is indexed is the same as for the node. -/
def ownChildren : Expr → List Expr
  | .access owner _ => [owner]
  | .assignment target _ value => [target, value]
  | e => e.children.map (·.2)

/-- Whether an expression mentions the size of what it indexes, and not only that of what is indexed
within it. -/
inductive MentionsOwnEnd : Expr → Prop
  | here : MentionsOwnEnd (.symbol endName)
  | within {e child : Expr} (h : child ∈ e.ownChildren) (mentions : MentionsOwnEnd child) :
      MentionsOwnEnd e

/-- Whether a node binds nothing. -/
def IsQuiet : Expr → Prop
  | .assignment .. | .definition .. => False
  | _ => True

/-- Whether the functions that a node defines do not look for the size of what is indexed where they
are called. -/
def IsSettled : Expr → Prop
  | .definition _ _ body => ¬ body.MentionsOwnEnd
  | _ => True

mutual

/-- An expression in which another one stands where the size of what it indexes is mentioned. -/
def withEnd (size : Expr) : Expr → Expr
  | .constant value kind => .constant value kind
  | .symbol name => if name = endName then size else .symbol name
  | .operation spelling function operands juxtaposed =>
    .operation spelling function (withEndAll size operands) juxtaposed
  | .call callee args => .call (withEnd size callee) (withEndAll size args)
  | .range start stop step =>
    .range (withEnd size start) (withEnd size stop) (withEndOption size step)
  | .conditional condition yes no =>
    .conditional (withEnd size condition) (withEnd size yes) (withEnd size no)
  | .assignment target part value =>
    .assignment (withEnd size target) part (withEnd size value)
  | .definition name params body => .definition name params (withEnd size body)
  | .block entries => .block (withEndEntries size entries)
  | .array items => .array (withEndAll size items)
  | .object properties => .object (withEndProperties size properties)
  | .parenthesis content => .parenthesis (withEnd size content)
  | .index dimensions dotted => .index (withEndAll size dimensions) dotted
  | .access owner part => .access (withEnd size owner) part
  | .comparison functions operands => .comparison functions (withEndAll size operands)

/-- Expressions in which another one stands where the size is mentioned. -/
def withEndAll (size : Expr) : List Expr → List Expr
  | [] => []
  | e :: es => withEnd size e :: withEndAll size es

/-- An expression, if there is one, in which another one stands where the size is mentioned. -/
def withEndOption (size : Expr) : Option Expr → Option Expr
  | none => none
  | some e => some (withEnd size e)

/-- Statements in which another expression stands where the size is mentioned. -/
def withEndEntries (size : Expr) : List (Entry Expr) → List (Entry Expr)
  | [] => []
  | ⟨e, visible⟩ :: entries => ⟨withEnd size e, visible⟩ :: withEndEntries size entries

/-- Properties in which another expression stands where the size is mentioned. -/
def withEndProperties (size : Expr) : List (String × Expr) → List (String × Expr)
  | [] => []
  | (key, e) :: properties => (key, withEnd size e) :: withEndProperties size properties

end

theorem not_mentionsOwnEnd {e : Expr} : ¬ e.MentionsOwnEnd ↔
    e ≠ .symbol endName ∧ ∀ child ∈ e.ownChildren, ¬ child.MentionsOwnEnd := by
  constructor
  · intro h
    refine ⟨?_, fun child hchild hmentions => h (.within hchild hmentions)⟩
    rintro rfl
    exact h .here
  · rintro ⟨here, below⟩ (_ | ⟨hchild, hmentions⟩)
    · exact here rfl
    · exact below _ hchild hmentions

theorem mem_children_of_mem_ownChildren {e child : Expr} (h : child ∈ e.ownChildren) :
    child ∈ e.children.map (·.2) := by
  cases e with
  | access owner part =>
      rw [List.mem_singleton.1 h]
      simp [children]
  | assignment target part value =>
      cases part <;> simp [ownChildren] at h <;> rcases h with rfl | rfl <;> simp [children]
  | _ => exact h

/-- What mentions no size at all does not mention that of what it indexes. -/
theorem not_mentionsOwnEnd_of_mentionsEnd {e : Expr} (h : Code.mentionsEnd e = false) :
    ¬ e.MentionsOwnEnd := by
  have hnone := Code.mentionsEnd_eq_false_iff.1 h
  clear h
  induction hnone with
  | node here _ ih =>
      refine not_mentionsOwnEnd.2
        ⟨?_, fun child hchild => ih child (mem_children_of_mem_ownChildren hchild)⟩
      rintro rfl
      simp [isSymbol] at here

mutual

/-- An expression stays as it is where it does not mention the size. -/
theorem withEnd_eq_self {size : Expr} : ∀ e : Expr, (e.MentionsOwnEnd → size = .symbol endName) →
    withEnd size e = e
  | .constant .., _ => by rw [withEnd]
  | .symbol name, h => by
      rw [withEnd]
      split
      · rename_i hname
        subst hname
        exact h .here
      · rfl
  | .operation _ _ operands _, h => by
      rw [withEnd, withEndAll_eq_self operands fun e he hm =>
        h (.within (by simpa [ownChildren, children]) hm)]
  | .call callee args, h => by
      rw [withEnd, withEnd_eq_self callee fun hm => h (.within (by simp [ownChildren, children]) hm),
        withEndAll_eq_self args fun e he hm => h (.within (by simp [ownChildren, children, he]) hm)]
  | .range start stop step, h => by
      have hstep : withEndOption size step = step := by
        cases step with
        | none => rw [withEndOption]
        | some step =>
            rw [withEndOption,
              withEnd_eq_self step fun hm => h (.within (by simp [ownChildren, children]) hm)]
      rw [withEnd, hstep,
        withEnd_eq_self start fun hm => h (.within (by cases step <;> simp [ownChildren, children]) hm),
        withEnd_eq_self stop fun hm => h (.within (by cases step <;> simp [ownChildren, children]) hm)]
  | .conditional condition yes no, h => by
      rw [withEnd, withEnd_eq_self condition fun hm => h (.within (by simp [ownChildren, children]) hm),
        withEnd_eq_self yes fun hm => h (.within (by simp [ownChildren, children]) hm),
        withEnd_eq_self no fun hm => h (.within (by simp [ownChildren, children]) hm)]
  | .assignment target _ value, h => by
      rw [withEnd, withEnd_eq_self target fun hm => h (.within (by simp [ownChildren]) hm),
        withEnd_eq_self value fun hm => h (.within (by simp [ownChildren]) hm)]
  | .definition _ _ body, h => by
      rw [withEnd, withEnd_eq_self body fun hm => h (.within (by simp [ownChildren, children]) hm)]
  | .block entries, h => by
      rw [withEnd, withEndEntries_eq_self entries fun entry hentry hm => h (.within (by
        rw [ownChildren, map_snd_children_block]
        · exact List.mem_map_of_mem hentry
        all_goals nofun) hm)]
  | .array items, h => by
      rw [withEnd, withEndAll_eq_self items fun e he hm =>
        h (.within (by simpa [ownChildren, children]) hm)]
  | .object properties, h => by
      rw [withEnd, withEndProperties_eq_self properties fun p hp hm => h (.within (by
        rw [ownChildren, map_snd_children_object]
        · exact List.mem_map_of_mem hp
        all_goals nofun) hm)]
  | .parenthesis content, h => by
      rw [withEnd, withEnd_eq_self content fun hm => h (.within (by simp [ownChildren, children]) hm)]
  | .index dimensions _, h => by
      rw [withEnd, withEndAll_eq_self dimensions fun e he hm =>
        h (.within (by simpa [ownChildren, children]) hm)]
  | .access owner _, h => by
      rw [withEnd, withEnd_eq_self owner fun hm => h (.within (by simp [ownChildren]) hm)]
  | .comparison _ operands, h => by
      rw [withEnd, withEndAll_eq_self operands fun e he hm =>
        h (.within (by simpa [ownChildren, children]) hm)]

theorem withEndAll_eq_self {size : Expr} : ∀ es : List Expr,
    (∀ e ∈ es, e.MentionsOwnEnd → size = .symbol endName) → withEndAll size es = es
  | [], _ => by rw [withEndAll]
  | e :: es, h => by
      obtain ⟨he, hes⟩ := List.forall_mem_cons.1 h
      rw [withEndAll, withEnd_eq_self e he, withEndAll_eq_self es hes]

theorem withEndEntries_eq_self {size : Expr} : ∀ entries : List (Entry Expr),
    (∀ entry ∈ entries, entry.body.MentionsOwnEnd → size = .symbol endName) →
    withEndEntries size entries = entries
  | [], _ => by rw [withEndEntries]
  | ⟨e, visible⟩ :: entries, h => by
      obtain ⟨he, hentries⟩ := List.forall_mem_cons.1 h
      rw [withEndEntries, withEnd_eq_self e he, withEndEntries_eq_self entries hentries]

theorem withEndProperties_eq_self {size : Expr} : ∀ properties : List (String × Expr),
    (∀ p ∈ properties, p.2.MentionsOwnEnd → size = .symbol endName) →
    withEndProperties size properties = properties
  | [], _ => by rw [withEndProperties]
  | (key, e) :: properties, h => by
      obtain ⟨he, hproperties⟩ := List.forall_mem_cons.1 h
      rw [withEndProperties, withEnd_eq_self e he, withEndProperties_eq_self properties hproperties]

end

theorem form_withEnd {size e : Expr} (h : e.form ≠ .symbol) : (withEnd size e).form = e.form := by
  cases e with
  | symbol => exact absurd rfl h
  | _ => rfl

/-- A node passes its check with another expression for the size, unless it assigns to it. -/
theorem check_withEnd {size e : Expr} (hform : e.form ≠ .symbol) (hquiet : e.form ≠ .assignment)
    (h : e.check = .ok ()) : (withEnd size e).check = .ok () := by
  have length : ∀ es : List Expr, (withEndAll size es).length = es.length := fun es => by
    induction es with
    | nil => rfl
    | cons e es ih => rw [withEndAll, List.length_cons, List.length_cons, ih]
  cases e with
  | symbol => exact absurd rfl hform
  | assignment => exact absurd rfl hquiet
  | operation _ _ operands _ =>
      cases operands with
      | nil => cases h
      | cons => rfl
  | index dimensions dotted =>
      cases dotted with
      | false => rfl
      | true =>
          match dimensions, h with
          | [.constant _ .string], _ => rfl
  | comparison functions operands => simpa only [withEnd, check, length] using h
  | access | definition => exact h
  | _ => rfl

end Expr

namespace Code

open Expr

variable {σ : Type}

/-- What an expression has where codes are compared in a certain way: the name of the size, or a
literal that the resolver takes for the size. -/
inductive Stands (r : Resolver σ) : SizeKind → Expr → Prop
  | plain : Stands r .plain (.symbol endName)
  | inner : Stands r .inner (.symbol endName)
  | sized {size : Float} {literal : String}
      (answer : ∀ s, (r.number literal).run s = (.ok (.number size), s)) :
      Stands r (.sized (.number size)) (.number literal)

theorem compile_number {r : Resolver σ} {literal : String} {size : Value}
    (answer : ∀ s, (r.number literal).run s = (.ok size, s)) (s : σ) :
    ofExpr r (.number literal) s = (.ok (.constant (.ok size)), s) := by
  have hcode : ofExpr r (.number literal) s
      = (.ok (.constant ((r.number literal).run s).1), ((r.number literal).run s).2) := by
    rw [number, ofExpr]
    rfl
  rw [hcode, answer]

theorem Stands.binds {r : Resolver σ} {k : SizeKind} (h : Stands r k (.symbol endName)) :
    sizes.Binds k := by
  cases h with
  | plain => trivial
  | inner => trivial

/-- Whether a node can stand where codes are compared in a certain way. -/
def Allows (k : SizeKind) (e : Expr) : Prop :=
  e.IsSettled ∧ ∀ size, k = .sized size → e.IsQuiet

/-- Whether an expression can stand where codes are compared in a certain way. -/
structure Admits (k : SizeKind) (e : Expr) : Prop where
  allows : e.Everywhere (Allows k)
  plain : k = .plain → ¬ e.MentionsOwnEnd

namespace Admits

variable {k : SizeKind} {e : Expr}

theorem own (h : Admits k e) : ∀ child ∈ e.ownChildren, Admits k child := fun child hchild =>
  ⟨h.allows.child child (mem_children_of_mem_ownChildren hchild),
    fun hk hmentions => h.plain hk (.within hchild hmentions)⟩

/-- The body of a definition is run where no size is at hand. -/
theorem body {name : String} {params : List String} {body : Expr}
    (h : Admits k (.definition name params body)) : Admits .plain body where
  allows := by
    have hbody := (h.own body (by simp [ownChildren, children])).allows
    exact hbody.mono fun _ hallows => ⟨hallows.1, nofun⟩
  plain _ := h.allows.here.1

/-- A dimension of an index of something is run where it has the size at hand if it mentions one. -/
theorem dimension (h : e.Everywhere (Allows k)) : Admits (sizes.dimension k (mentionsEnd e)) e := by
  cases hmentions : mentionsEnd e with
  | true => exact ⟨h.mono fun _ hallows => ⟨hallows.1, nofun⟩, nofun⟩
  | false => exact ⟨h, fun _ => not_mentionsOwnEnd_of_mentionsEnd hmentions⟩

end Admits

/-- Nothing stands for the size but its name where something can be bound. -/
theorem Stands.eq_end {r : Resolver σ} {k : SizeKind} {size e : Expr} (h : Stands r k size)
    (hallows : Allows k e) (hloud : ¬ e.IsQuiet) : size = .symbol endName := by
  cases h with
  | plain => rfl
  | inner => rfl
  | @sized size => exact absurd (hallows.2 _ rfl) hloud

/-- Where codes are compared in a certain way, an expression for the size is found for it. -/
theorem Stands.dimension {r : Resolver σ} {k : SizeKind} {size e : Expr} (h : Stands r k size) :
    ∃ size', Stands r (sizes.dimension k (mentionsEnd e)) size' ∧ withEnd size' e = e := by
  cases hmentions : mentionsEnd e with
  | true => exact ⟨_, .inner, withEnd_eq_self e fun _ => rfl⟩
  | false =>
      exact ⟨size, h, withEnd_eq_self e fun h =>
        absurd h (not_mentionsOwnEnd_of_mentionsEnd hmentions)⟩

/-- The roots and the selectors of two targets are alike. -/
def AlikeTargets (k : SizeKind) (target target' : Root Code × List (Selector Code)) : Prop :=
  SimilarRoot sizes k target.1 target'.1 ∧ SimilarSelectors sizes k target.2 target'.2

/-- All names but that of the size may be mentioned. -/
theorem mentions_of_ne {k : SizeKind} {name : String} (h : name ≠ endName) : sizes.Mentions k name := by
  cases k with
  | plain => exact h
  | inner => trivial
  | sized => exact h

/-- A name, in the place of which a literal may stand if it is that of the size. -/
theorem follows_name {r : Resolver σ} {k : SizeKind} {size : Expr} {name : String}
    (hsize : Stands r k size) (h : Admits k (.symbol name)) :
    Follows (Similar sizes k) (ofExpr r (.symbol name)) (ofExpr r (withEnd size (.symbol name))) := by
  rw [withEnd]
  by_cases hname : name = endName
  · subst hname
    rw [if_pos rfl]
    cases hsize with
    | plain => exact absurd .here (h.plain rfl)
    | inner =>
        rw [ofExpr]
        exact .node id fun _ => .pure (.symbol trivial)
    | sized answer =>
        rw [ofExpr]
        refine .dropping ?_
        rintro s _ s' ⟨⟩
        exact ⟨_, compile_number answer s, .leaf .mention⟩
  · rw [if_neg hname, ofExpr]
    exact .node id fun _ => .pure (.symbol (mentions_of_ne hname))

/-- A call of a name, which is a call of a literal if a literal stands for the size. -/
theorem follows_namedCall {r : Resolver σ} {k : SizeKind} {size : Expr} {name : String}
    {args args' : List Expr} (hsize : Stands r k size) (h : Admits k (.symbol name))
    (hargs : Follows (SimilarAll sizes k) (ofExprs r args) (ofExprs r args')) :
    Follows (Similar sizes k) (ofExpr r (.call (.symbol name) args))
      (ofExpr r (.call (withEnd size (.symbol name)) args')) := by
  rw [withEnd]
  by_cases hname : name = endName
  · subst hname
    rw [if_pos rfl]
    cases hsize with
    | plain => exact absurd .here (h.plain rfl)
    | inner =>
        rw [ofExpr, ofExpr]
        exact .node id fun _ => hargs.map fun _ _ hcodes => .call trivial hcodes
    | @sized size literal answer =>
        have hsize : ∀ f, Value.number size ≠ .function f := fun _ => nofun
        rw [ofExpr, ofExpr]
        · refine .node id fun _ => hargs.bind fun args args' _ => ?_
          rintro s _ s' ⟨⟩
          refine ⟨_, ?_, .leaf (.call hsize (Expr.number literal).text args args')⟩
          rw [bind_apply, compile_number answer]
          rfl
        · nofun
  · rw [if_neg hname, ofExpr, ofExpr]
    exact .node id fun _ => hargs.map fun _ _ hcodes => .call (mentions_of_ne hname) hcodes

variable (r : Resolver σ)

mutual

theorem follows_withEnd : ∀ (e : Expr) {k : SizeKind} {size : Expr}, Stands r k size → Admits k e →
    Follows (Similar sizes k) (ofExpr r e) (ofExpr r (withEnd size e))
  | .constant value kind, k, size, hsize, h => by
      rw [withEnd, ofExpr]
      exact .node id fun _ => follows_ofConstant r sizes k value kind
  | .symbol name, k, size, hsize, h => follows_name hsize h
  | .operation spelling function operands juxtaposed, k, size, hsize, h => by
      have hchildren : ∀ e ∈ operands, Admits k e := by simpa [ownChildren, children] using h.own
      rw [ofExpr, withEnd, ofExpr]
      exact .node (check_withEnd nofun nofun) fun _ =>
        (follows_withEndAll operands hsize hchildren).map fun _ _ hcodes =>
          similar_ofOperation function hcodes
  | .call callee args, k, size, hsize, h => by
      obtain ⟨hcallee, hargs⟩ : Admits k callee ∧ ∀ e ∈ args, Admits k e := by
        simpa [ownChildren, children] using h.own
      have hcodes := follows_withEndAll args hsize hargs
      rw [withEnd]
      by_cases hsymbol : callee.form = .symbol
      · cases callee with
        | symbol name => exact follows_namedCall hsize hcallee hcodes
        | _ => cases hsymbol
      · have hleft : (withEnd size callee).form ≠ .symbol := by rwa [form_withEnd hsymbol]
        exact follows_callValue hsymbol hleft hcodes (follows_withEnd callee hsize hcallee)
  | .range start stop step, k, size, hsize, h => by
      obtain ⟨hstart, hstop, hstep⟩ : Admits k start ∧ Admits k stop ∧ ∀ e ∈ step, Admits k e := by
        cases step <;> simpa [ownChildren, children] using h.own
      rw [ofExpr, withEnd, ofExpr]
      exact .node id fun _ => (follows_withEnd start hsize hstart).bind fun _ _ ha =>
        (follows_withEnd stop hsize hstop).bind fun _ _ hb =>
          (follows_withEndOption step hsize hstep).map fun _ _ hc => .range ha hb hc
  | .conditional condition yes no, k, size, hsize, h => by
      obtain ⟨hcondition, hyes, hno⟩ : Admits k condition ∧ Admits k yes ∧ Admits k no := by
        simpa [ownChildren, children] using h.own
      rw [ofExpr, withEnd, ofExpr]
      exact .node id fun _ => (follows_withEnd condition hsize hcondition).bind fun _ _ ha =>
        (follows_withEnd yes hsize hyes).bind fun _ _ hb =>
          (follows_withEnd no hsize hno).map fun _ _ hc => .conditional ha hb hc
  | .assignment target part value, k, size, hsize, h => by
      obtain ⟨htarget, hvalue⟩ : Admits k target ∧ Admits k value := by
        simpa [ownChildren] using h.own
      obtain rfl := hsize.eq_end h.allows.here id
      rw [withEnd, withEnd_eq_self target fun _ => rfl]
      cases part with
      | none =>
          rw [ofExpr, ofExpr]
          exact .node id fun _ => (follows_withEnd value hsize hvalue).bind fun _ _ hcode =>
            (follows_ownTarget target hsize htarget).map fun _ _ hfound =>
              .assignment hsize.binds hfound.1 hfound.2 hcode
      | some part =>
          have hpart : part.Everywhere (Allows k) := h.allows.child part (by simp [children])
          rw [ofExpr, ofExpr]
          exact .node id fun _ => (follows_withEnd value hsize hvalue).bind fun _ _ hcode =>
            (follows_ownTarget target hsize htarget).bind fun _ _ hfound =>
              (follows_ownPart part hsize hpart).map fun _ _ hselector =>
                .assignment hsize.binds hfound.1 (hfound.2.select hselector) hcode
  | .definition name params body, k, size, hsize, h => by
      obtain rfl := hsize.eq_end h.allows.here id
      rw [ofExpr, withEnd, ofExpr]
      exact .node id fun _ => (follows_withEnd body .plain h.body).map fun _ _ hcode =>
        .definition name params hsize.binds hcode
  | .block entries, k, size, hsize, h => by
      have hentries : ∀ entry ∈ entries, Admits k entry.body := by
        rw [← List.forall_mem_map (f := fun entry : Entry Expr => entry.body), ← map_snd_children_block]
        exact h.own
      rw [ofExpr, withEnd, ofExpr]
      exact .node id fun _ => (follows_withEndEntries entries hsize hentries).map fun _ _ hcodes =>
        .block hcodes
  | .array items, k, size, hsize, h => by
      have hchildren : ∀ e ∈ items, Admits k e := by simpa [ownChildren, children] using h.own
      rw [ofExpr, withEnd, ofExpr]
      exact .node id fun _ => (follows_withEndAll items hsize hchildren).map fun _ _ hcodes => .array hcodes
  | .object properties, k, size, hsize, h => by
      have hproperties : ∀ p ∈ properties, Admits k p.2 := by
        rw [← List.forall_mem_map (f := fun p : String × Expr => p.2), ← map_snd_children_object]
        exact h.own
      rw [ofExpr, withEnd, ofExpr]
      exact .node id fun _ => (follows_withEndProperties properties hsize hproperties).map
        fun _ _ hcodes => .object hcodes
  | .parenthesis content, k, size, hsize, h => by
      have hcontent : Admits k content := by simpa [ownChildren, children] using h.own
      rw [ofExpr, withEnd, ofExpr]
      exact .node id fun _ => follows_withEnd content hsize hcontent
  | .index dimensions dotted, k, size, hsize, h => by
      have hdimensions : ∀ e ∈ dimensions, Admits k e := by simpa [ownChildren, children] using h.own
      rw [ofExpr, withEnd, ofExpr]
      exact .node (check_withEnd nofun nofun) fun _ =>
        (follows_dimensions dimensions hsize hdimensions).map fun _ _ hcodes =>
          .index _ _ dotted hcodes
  | .access owner part, k, size, hsize, h => by
      have howner : Admits k owner := by simpa [ownChildren] using h.own
      have hpart : part.Everywhere (Allows k) := h.allows.child part (by simp [children])
      rw [ofExpr, withEnd, ofExpr]
      exact .node (check_withEnd nofun nofun) fun _ => (follows_withEnd owner hsize howner).bind
        fun _ _ hcode => (follows_ownPart part hsize hpart).map fun _ _ hselector => hselector.access hcode
  | .comparison functions operands, k, size, hsize, h => by
      have hchildren : ∀ e ∈ operands, Admits k e := by simpa [ownChildren, children] using h.own
      rw [ofExpr, withEnd, ofExpr]
      exact .node (check_withEnd nofun nofun) fun _ =>
        (follows_withEndAll operands hsize hchildren).map fun _ _ hcodes => .comparison functions hcodes

theorem follows_withEndAll : ∀ (es : List Expr) {k : SizeKind} {size : Expr}, Stands r k size →
    (∀ e ∈ es, Admits k e) →
    Follows (SimilarAll sizes k) (ofExprs r es) (ofExprs r (withEndAll size es))
  | [], k, size, _, _ => by
      rw [withEndAll, ofExprs]
      exact .pure .nil
  | e :: es, k, size, hsize, h => by
      obtain ⟨he, hes⟩ := List.forall_mem_cons.1 h
      rw [ofExprs, withEndAll, ofExprs]
      exact (follows_withEnd e hsize he).bind fun _ _ hcode =>
        (follows_withEndAll es hsize hes).map fun _ _ hcodes => .cons hcode hcodes

theorem follows_withEndOption : ∀ (step : Option Expr) {k : SizeKind} {size : Expr}, Stands r k size →
    (∀ e ∈ step, Admits k e) →
    Follows (SimilarStep sizes k) (ofStep r step) (ofStep r (withEndOption size step))
  | none, k, size, _, _ => by
      rw [withEndOption, ofStep]
      exact .pure .none
  | some e, k, size, hsize, h => by
      rw [ofStep, withEndOption, ofStep]
      exact (follows_withEnd e hsize (h e rfl)).map fun _ _ hcode => .some hcode

theorem follows_withEndEntries : ∀ (entries : List (Entry Expr)) {k : SizeKind} {size : Expr},
    Stands r k size → (∀ entry ∈ entries, Admits k entry.body) →
    Follows (SimilarEntries sizes k) (ofEntries r entries) (ofEntries r (withEndEntries size entries))
  | [], k, size, _, _ => by
      rw [withEndEntries, ofEntries]
      exact .pure .nil
  | ⟨e, visible⟩ :: entries, k, size, hsize, h => by
      obtain ⟨he, hentries⟩ := List.forall_mem_cons.1 h
      rw [ofEntries, withEndEntries, ofEntries]
      exact (follows_withEnd e hsize he).bind fun _ _ hcode =>
        (follows_withEndEntries entries hsize hentries).map fun _ _ hcodes => .cons visible hcode hcodes

theorem follows_withEndProperties : ∀ (properties : List (String × Expr)) {k : SizeKind} {size : Expr},
    Stands r k size → (∀ p ∈ properties, Admits k p.2) →
    Follows (SimilarProperties sizes k) (ofProperties r properties)
      (ofProperties r (withEndProperties size properties))
  | [], k, size, _, _ => by
      rw [withEndProperties, ofProperties]
      exact .pure .nil
  | (key, e) :: properties, k, size, hsize, h => by
      obtain ⟨he, hproperties⟩ := List.forall_mem_cons.1 h
      rw [ofProperties, withEndProperties, ofProperties]
      exact (follows_withEnd e hsize he).bind fun _ _ hcode =>
        (follows_withEndProperties properties hsize hproperties).map fun _ _ hcodes =>
          .cons key hcode hcodes

/-- The dimensions of an index of nothing. -/
theorem follows_dimensions : ∀ (dimensions : List Expr) {k : SizeKind} {size : Expr}, Stands r k size →
    (∀ e ∈ dimensions, Admits k e) →
    Follows (SimilarDimensions sizes k false) (ofDimensions r dimensions)
      (ofDimensions r (withEndAll size dimensions))
  | [], k, size, _, _ => by
      rw [withEndAll, ofDimensions]
      exact .pure .nil
  | e :: es, k, size, hsize, h => by
      obtain ⟨he, hes⟩ := List.forall_mem_cons.1 h
      rw [ofDimensions, withEndAll, ofDimensions]
      exact (follows_withEnd e hsize he).bind fun _ _ hcode =>
        (follows_dimensions es hsize hes).map fun _ _ hcodes => .cons nofun hcode hcodes

/-- The dimensions of an index of something, which have a size of their own. -/
theorem follows_ownDimensions : ∀ (dimensions : List Expr) {k : SizeKind} {size : Expr},
    Stands r k size → (∀ e ∈ dimensions, e.Everywhere (Allows k)) →
    Follows (SimilarDimensions sizes k true) (ofDimensions r dimensions) (ofDimensions r dimensions)
  | [], k, size, _, _ => by
      rw [ofDimensions]
      exact .pure .nil
  | e :: es, k, size, hsize, h => by
      obtain ⟨he, hes⟩ := List.forall_mem_cons.1 h
      obtain ⟨size', hsize', heq⟩ := hsize.dimension (e := e)
      have hcode := follows_withEnd e hsize' (.dimension he)
      rw [heq] at hcode
      rw [ofDimensions]
      exact hcode.bind fun _ _ hcode =>
        (follows_ownDimensions es hsize hes).map fun _ _ hcodes => .cons (fun _ => rfl) hcode hcodes

theorem follows_ownPart : ∀ (part : Expr) {k : SizeKind} {size : Expr}, Stands r k size →
    part.Everywhere (Allows k) →
    Follows (SimilarSelector sizes k) (ofPart r part) (ofPart r part)
  | .index dimensions dotted, k, size, hsize, h => by
      have hdimensions : ∀ e ∈ dimensions, e.Everywhere (Allows k) := by
        simpa [children] using h.child
      rw [ofPart]
      exact .node id fun _ => (follows_ownDimensions dimensions hsize hdimensions).map
        fun _ _ hcodes => ⟨_, _, hcodes⟩
  | .constant .., _, _, _, _ | .symbol _, _, _, _, _ | .operation .., _, _, _, _
  | .call .., _, _, _, _ | .range .., _, _, _, _ | .conditional .., _, _, _, _
  | .assignment .., _, _, _, _ | .definition .., _, _, _, _ | .block _, _, _, _, _
  | .array _, _, _, _, _ | .object _, _, _, _, _ | .parenthesis _, _, _, _, _
  | .access .., _, _, _, _ | .comparison .., _, _, _, _ => by
      rw [ofPart]
      · exact .never _
      · nofun

theorem follows_ownTarget : ∀ (target : Expr) {k : SizeKind}, Stands r k (.symbol endName) →
    Admits k target → Follows (AlikeTargets k) (ofTarget r target) (ofTarget r target)
  | .symbol name, k, hsize, h => by
      rw [ofTarget]
      refine .pure ⟨.name ?_, .nil⟩
      cases hsize with
      | plain =>
          rintro rfl
          exact h.plain rfl .here
      | inner => trivial
  | .access owner part, k, hsize, h => by
      have howner : Admits k owner := by simpa [ownChildren] using h.own
      have hpart : part.Everywhere (Allows k) := h.allows.child part (by simp [children])
      by_cases hname : IsTarget owner
      · rw [ofTarget_access r hname]
        exact (follows_ownTarget owner hsize howner).bind fun _ _ hfound =>
          (follows_ownPart part hsize hpart).map fun _ _ hselector =>
            ⟨hfound.1, hfound.2.select hselector⟩
      · obtain ⟨hsymbol, haccess⟩ := not_or.1 hname
        have hbody := follows_withEnd owner hsize howner
        rw [withEnd_eq_self owner fun _ => rfl] at hbody
        rw [ofTarget_temporary r hsymbol haccess]
        exact hbody.bind fun _ _ hbody => (follows_ownPart part hsize hpart).map fun _ _ hselector =>
          ⟨.temporary hbody, SimilarSelectors.nil.select hselector⟩
  | .constant .., _, _, _ | .operation .., _, _, _ | .call .., _, _, _ | .range .., _, _, _
  | .conditional .., _, _, _ | .assignment .., _, _, _ | .definition .., _, _, _ | .block _, _, _, _
  | .array _, _, _, _ | .object _, _, _, _ | .parenthesis _, _, _, _ | .index .., _, _, _
  | .comparison .., _, _, _ => by
      rw [ofTarget]
      · exact .failing _
      all_goals nofun

end

end Code

end Formula
