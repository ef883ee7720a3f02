import Formula.Code

/-!
Codes that are alike.

Two codes are alike under a regime if they have the same shape, and differ in single places that the
regime takes for alike, and in the texts by which errors name what is called. The regime compares
different places in different ways: what may be mentioned and bound where a dimension is evaluated that
has the size at hand is not what may be in the body of a function.
-/

namespace Formula.Code

/-- What is compared in which way, and which codes are alike in a single place. -/
structure Regime where
  Kind : Type
  /-- How a dimension is compared that mentions the size of what is indexed. -/
  inner : Kind → Kind
  /-- How the body of a function is compared. -/
  body : Kind
  /-- Whether a name may be read. -/
  Mentions : Kind → String → Prop
  /-- Whether anything may be bound. -/
  Binds : Kind → Prop
  /-- Codes that take each other's place. -/
  Leaf : Kind → Code → Code → Prop

/-- How a dimension is compared. -/
def Regime.dimension (R : Regime) (k : R.Kind) (sized : Bool) : R.Kind :=
  if sized then R.inner k else k

variable (R : Regime)

mutual

/-- Two codes are alike. -/
inductive Similar : R.Kind → Code → Code → Prop
  | leaf {k : R.Kind} {code code' : Code} (h : R.Leaf k code code') : Similar k code code'
  | constant {k : R.Kind} (result : Except DispatchError Value) :
      Similar k (.constant result) (.constant result)
  | symbol {k : R.Kind} {name : String} (mentions : R.Mentions k name) :
      Similar k (.symbol name) (.symbol name)
  | operation {k : R.Kind} (function : String) {operands operands' : List Code}
      (h : SimilarAll k operands operands') :
      Similar k (.operation function operands) (.operation function operands')
  | lazy {k : R.Kind} (function : String) (decisive : Bool) {left left' right right' : Code}
      (hleft : Similar k left left') (hright : Similar k right right') :
      Similar k (.lazy function decisive left right) (.lazy function decisive left' right')
  | comparison {k : R.Kind} (functions : List String) {operands operands' : List Code}
      (h : SimilarAll k operands operands') :
      Similar k (.comparison functions operands) (.comparison functions operands')
  | conditional {k : R.Kind} {condition condition' yes yes' no no' : Code}
      (hcondition : Similar k condition condition') (hyes : Similar k yes yes')
      (hno : Similar k no no') :
      Similar k (.conditional condition yes no) (.conditional condition' yes' no')
  | block {k : R.Kind} {entries entries' : List (Entry Code)} (h : SimilarEntries k entries entries') :
      Similar k (.block entries) (.block entries')
  | range {k : R.Kind} {start start' stop stop' : Code} {step step' : Option Code}
      (hstart : Similar k start start') (hstop : Similar k stop stop')
      (hstep : SimilarStep k step step') : Similar k (.range start stop step) (.range start' stop' step')
  | assignment {k : R.Kind} {root root' : Root Code} {selectors selectors' : List (Selector Code)}
      {value value' : Code} (binds : R.Binds k) (hroot : SimilarRoot k root root')
      (hselectors : SimilarSelectors k selectors selectors') (hvalue : Similar k value value') :
      Similar k (.assignment root selectors value) (.assignment root' selectors' value')
  | definition {k : R.Kind} (name : String) (params : List String) {body body' : Code}
      (binds : R.Binds k) (h : Similar R.body body body') :
      Similar k (.definition name params body) (.definition name params body')
  | call {k : R.Kind} {name : String} {args args' : List Code} (mentions : R.Mentions k name)
      (h : SimilarAll k args args') : Similar k (.call name args) (.call name args')
  | callValue {k : R.Kind} (text text' : String) {callee callee' : Code} {args args' : List Code}
      (hcallee : Similar k callee callee') (h : SimilarAll k args args') :
      Similar k (.callValue text callee args) (.callValue text' callee' args')
  | array {k : R.Kind} {items items' : List Code} (h : SimilarAll k items items') :
      Similar k (.array items) (.array items')
  | object {k : R.Kind} {properties properties' : List (String × Code)}
      (h : SimilarProperties k properties properties') :
      Similar k (.object properties) (.object properties')
  /-- The dimensions of an index of nothing have no size at hand. -/
  | index {k : R.Kind} (property property' : Option String) (dotted : Bool)
      {dimensions dimensions' : List (Dimension Code)}
      (h : SimilarDimensions k false dimensions dimensions') :
      Similar k (.index ⟨property, dotted, dimensions⟩) (.index ⟨property', dotted, dimensions'⟩)
  | access {k : R.Kind} {owner owner' : Code} (property : Option String) (dotted : Bool)
      {dimensions dimensions' : List (Dimension Code)} (howner : Similar k owner owner')
      (h : SimilarDimensions k true dimensions dimensions') :
      Similar k (.access owner ⟨property, dotted, dimensions⟩)
        (.access owner' ⟨property, dotted, dimensions'⟩)

inductive SimilarAll : R.Kind → List Code → List Code → Prop
  | nil {k : R.Kind} : SimilarAll k [] []
  | cons {k : R.Kind} {code code' : Code} {codes codes' : List Code} (h : Similar k code code')
      (hs : SimilarAll k codes codes') : SimilarAll k (code :: codes) (code' :: codes')

inductive SimilarEntries : R.Kind → List (Entry Code) → List (Entry Code) → Prop
  | nil {k : R.Kind} : SimilarEntries k [] []
  | cons {k : R.Kind} {code code' : Code} (visible : Bool) {entries entries' : List (Entry Code)}
      (h : Similar k code code') (hs : SimilarEntries k entries entries') :
      SimilarEntries k (⟨code, visible⟩ :: entries) (⟨code', visible⟩ :: entries')

inductive SimilarStep : R.Kind → Option Code → Option Code → Prop
  | none {k : R.Kind} : SimilarStep k none none
  | some {k : R.Kind} {code code' : Code} (h : Similar k code code') :
      SimilarStep k (some code) (some code')

inductive SimilarProperties : R.Kind → List (String × Code) → List (String × Code) → Prop
  | nil {k : R.Kind} : SimilarProperties k [] []
  | cons {k : R.Kind} (key : String) {code code' : Code} {properties properties' : List (String × Code)}
      (h : Similar k code code') (hs : SimilarProperties k properties properties') :
      SimilarProperties k ((key, code) :: properties) ((key, code') :: properties')

/-- The dimensions of an index are alike; those of an index of something may have its size at hand,
and then both have. -/
inductive SimilarDimensions : R.Kind → Bool → List (Dimension Code) → List (Dimension Code) → Prop
  | nil {k : R.Kind} {owned : Bool} : SimilarDimensions k owned [] []
  | cons {k : R.Kind} {owned : Bool} {code code' : Code} {sized sized' : Bool}
      {dimensions dimensions' : List (Dimension Code)} (hsized : owned = true → sized = sized')
      (h : Similar (R.dimension k (owned && sized)) code code')
      (hs : SimilarDimensions k owned dimensions dimensions') :
      SimilarDimensions k owned (⟨code, sized⟩ :: dimensions) (⟨code', sized'⟩ :: dimensions')

inductive SimilarRoot : R.Kind → Root Code → Root Code → Prop
  | name {k : R.Kind} {name : String} (mentions : R.Mentions k name) :
      SimilarRoot k (.name name) (.name name)
  | temporary {k : R.Kind} {body body' : Code} (h : Similar k body body') :
      SimilarRoot k (.temporary body) (.temporary body')

inductive SimilarSelectors : R.Kind → List (Selector Code) → List (Selector Code) → Prop
  | nil {k : R.Kind} : SimilarSelectors k [] []
  | cons {k : R.Kind} (property : Option String) (dotted : Bool)
      {dimensions dimensions' : List (Dimension Code)} {selectors selectors' : List (Selector Code)}
      (h : SimilarDimensions k true dimensions dimensions')
      (hs : SimilarSelectors k selectors selectors') :
      SimilarSelectors k (⟨property, dotted, dimensions⟩ :: selectors)
        (⟨property, dotted, dimensions'⟩ :: selectors')

end

/-- Two selectors of something are alike. -/
inductive SimilarSelector (k : R.Kind) : Selector Code → Selector Code → Prop
  | mk (property : Option String) (dotted : Bool) {dimensions dimensions' : List (Dimension Code)}
      (h : SimilarDimensions R k true dimensions dimensions') :
      SimilarSelector k ⟨property, dotted, dimensions⟩ ⟨property, dotted, dimensions'⟩

section Refl

set_option linter.unusedSectionVars false

variable {R} (mentions : ∀ k name, R.Mentions k name) (binds : ∀ k, R.Binds k)

include mentions binds

mutual

/-- Code is like itself where everything may be mentioned and bound. -/
theorem Similar.refl : ∀ (k : R.Kind) (code : Code), Similar R k code code
  | _, .constant result => .constant result
  | k, .symbol name => .symbol (mentions k name)
  | k, .operation function operands => .operation function (SimilarAll.refl k operands)
  | k, .lazy function decisive left right =>
    .lazy function decisive (Similar.refl k left) (Similar.refl k right)
  | k, .comparison functions operands => .comparison functions (SimilarAll.refl k operands)
  | k, .conditional condition yes no =>
    .conditional (Similar.refl k condition) (Similar.refl k yes) (Similar.refl k no)
  | k, .block entries => .block (SimilarEntries.refl k entries)
  | k, .range start stop none => .range (Similar.refl k start) (Similar.refl k stop) .none
  | k, .range start stop (some step) =>
    .range (Similar.refl k start) (Similar.refl k stop) (.some (Similar.refl k step))
  | k, .assignment (.name name) selectors value =>
    .assignment (binds k) (.name (mentions k name)) (SimilarSelectors.refl k selectors)
      (Similar.refl k value)
  | k, .assignment (.temporary body) selectors value =>
    .assignment (binds k) (.temporary (Similar.refl k body)) (SimilarSelectors.refl k selectors)
      (Similar.refl k value)
  | k, .definition name params body => .definition name params (binds k) (Similar.refl R.body body)
  | k, .call name args => .call (mentions k name) (SimilarAll.refl k args)
  | k, .callValue text callee args => .callValue text text (Similar.refl k callee) (SimilarAll.refl k args)
  | k, .array items => .array (SimilarAll.refl k items)
  | k, .object properties => .object (SimilarProperties.refl k properties)
  | k, .index ⟨property, dotted, dimensions⟩ =>
    .index property property dotted (SimilarDimensions.refl k false dimensions)
  | k, .access owner ⟨property, dotted, dimensions⟩ =>
    .access property dotted (Similar.refl k owner) (SimilarDimensions.refl k true dimensions)

theorem SimilarAll.refl : ∀ (k : R.Kind) (codes : List Code), SimilarAll R k codes codes
  | _, [] => .nil
  | k, code :: codes => .cons (Similar.refl k code) (SimilarAll.refl k codes)

theorem SimilarEntries.refl : ∀ (k : R.Kind) (entries : List (Entry Code)),
    SimilarEntries R k entries entries
  | _, [] => .nil
  | k, ⟨code, visible⟩ :: entries => .cons visible (Similar.refl k code) (SimilarEntries.refl k entries)

theorem SimilarProperties.refl : ∀ (k : R.Kind) (properties : List (String × Code)),
    SimilarProperties R k properties properties
  | _, [] => .nil
  | k, (key, code) :: properties => .cons key (Similar.refl k code) (SimilarProperties.refl k properties)

theorem SimilarDimensions.refl : ∀ (k : R.Kind) (owned : Bool) (dimensions : List (Dimension Code)),
    SimilarDimensions R k owned dimensions dimensions
  | _, _, [] => .nil
  | k, owned, ⟨code, _⟩ :: dimensions =>
    .cons (fun _ => rfl) (Similar.refl _ code) (SimilarDimensions.refl k owned dimensions)

theorem SimilarSelectors.refl : ∀ (k : R.Kind) (selectors : List (Selector Code)),
    SimilarSelectors R k selectors selectors
  | _, [] => .nil
  | k, ⟨property, dotted, dimensions⟩ :: selectors =>
    .cons property dotted (SimilarDimensions.refl k true dimensions) (SimilarSelectors.refl k selectors)

end

end Refl

variable {R}

theorem SimilarSelector.access {k : R.Kind} {selector selector' : Selector Code} {owner owner' : Code}
    (h : SimilarSelector R k selector selector') (howner : Similar R k owner owner') :
    Similar R k (.access owner selector) (.access owner' selector') := by
  cases h with
  | mk property dotted h => exact .access property dotted howner h

/-- Selectors that are alike, with one more behind them. -/
theorem SimilarSelectors.select {k : R.Kind} {selectors selectors' : List (Selector Code)}
    (h : SimilarSelectors R k selectors selectors') {selector selector' : Selector Code}
    (hselector : SimilarSelector R k selector selector') :
    SimilarSelectors R k (selectors ++ [selector]) (selectors' ++ [selector']) := by
  obtain ⟨property, dotted, hdimensions⟩ := hselector
  induction selectors generalizing selectors' with
  | nil =>
      cases h
      exact .cons property dotted hdimensions .nil
  | cons _ _ ih =>
      cases h with
      | cons property' dotted' h hs => exact .cons property' dotted' h (ih hs)

end Formula.Code
