import Formula.Proofs.Compilation
import Formula.Proofs.Evaluation.Moments
import Formula.Proofs.Rewriting
import Formula.Proofs.Transformation
import Formula.Resolver.Symbolic
import Mathlib.Algebra.Order.Group.Multiset
import Mathlib.Tactic.Abel

/-!
When the literals of an expression are looked at.

Compiling asks the resolver for the number of each literal, once, and for nothing else; a literal that it
refuses becomes code that fails (`Tallies.ofExpr`). Evaluating the code never asks for a literal again:
the only number that it asks for is the step of a range without one, and it fails for the refusal of a
literal when it comes to it (`literals_converted_once`).
-/

namespace Formula

namespace Expr

/-- The literal of a number. -/
def literal? : Expr → Option String
  | .constant value .number => some value
  | _ => none

/-- The literals of the numbers in an expression. -/
def literals (e : Expr) : List String :=
  e.nodes.filterMap literal?

theorem map_node_visitsFrom (v : Visit) : (visitsFrom v).map (·.node) = v.node.nodes := by
  rw [visitsFrom_eq, nodes, visits, visitsFrom_eq]
  rfl

theorem nodes_eq (e : Expr) : e.nodes = e :: (e.children.map (·.2)).flatMap nodes := by
  rw [nodes, visits, visitsFrom_eq, List.map_cons, childVisits, List.map_flatMap, List.flatMap_map,
    List.flatMap_map]
  exact congrArg _ (List.flatMap_congr fun p _ => map_node_visitsFrom _)

/-- The literals of an expression are its own and those of its children. -/
theorem literals_eq (e : Expr) :
    e.literals = e.literal?.toList ++ (e.children.map (·.2)).flatMap literals := by
  have below : ∀ es : List Expr, (es.flatMap nodes).filterMap literal? = es.flatMap literals := by
    intro es
    rw [List.filterMap_flatMap]
    rfl
  rw [literals, nodes_eq, List.filterMap_cons, below]
  cases e.literal? <;> rfl

end Expr

namespace Code

/-! ### Code and its parts -/

theorem sizeOf_lt_of_mem_codesOf {selector : Selector Code} {part : Code}
    (h : part ∈ codesOf selector) : sizeOf part < sizeOf selector := by
  obtain ⟨dimension, hmem, rfl⟩ := List.mem_map.1 h
  have := List.sizeOf_lt_of_mem hmem
  obtain ⟨body, sized⟩ := dimension
  obtain ⟨property, dotted, dimensions⟩ := selector
  simp only [Dimension.mk.sizeOf_spec, Selector.mk.sizeOf_spec] at this ⊢
  omega

theorem sizeOf_lt_of_mem_selectors {selectors : List (Selector Code)} {part : Code}
    (h : part ∈ selectors.flatMap codesOf) : sizeOf part < sizeOf selectors := by
  obtain ⟨selector, hmem, hpart⟩ := List.mem_flatMap.1 h
  exact Nat.lt_trans (sizeOf_lt_of_mem_codesOf hpart) (List.sizeOf_lt_of_mem hmem)

/-- Parts are smaller than the code that is put together from them. -/
theorem sizeOf_lt_of_mem_parts {code part : Code} (h : part ∈ code.parts) :
    sizeOf part < sizeOf code := by
  cases code with
  | constant | symbol => cases h
  | operation _ codes | comparison _ codes | call _ codes | array codes =>
      have : sizeOf part < sizeOf codes := List.sizeOf_lt_of_mem h
      grind
  | block entries =>
      obtain ⟨⟨body, visible⟩, hmem, rfl⟩ := List.mem_map.1 h
      have := List.sizeOf_lt_of_mem hmem
      grind
  | object properties =>
      obtain ⟨⟨key, body⟩, hmem, rfl⟩ := List.mem_map.1 h
      have := List.sizeOf_lt_of_mem hmem
      grind
  | assignment root selectors value =>
      have among : part ∈ selectors.flatMap codesOf → sizeOf part < sizeOf selectors :=
        sizeOf_lt_of_mem_selectors
      cases root <;> simp only [parts, List.mem_cons] at h <;> grind
  | lazy | conditional | definition =>
      simp only [parts, List.mem_cons] at h
      grind
  | range start stop step => cases step <;> simp [parts] at h <;> grind
  | callValue _ callee args =>
      have among : part ∈ args → sizeOf part < sizeOf args := List.sizeOf_lt_of_mem
      simp only [parts, List.mem_cons] at h
      grind
  | index selector =>
      have := sizeOf_lt_of_mem_codesOf h
      grind
  | access owner selector =>
      have among : part ∈ codesOf selector → sizeOf part < sizeOf selector := sizeOf_lt_of_mem_codesOf
      simp only [parts, List.mem_cons] at h
      grind

/-- Code and all that it is put together from. -/
def nodes (code : Code) : List Code :=
  code :: code.parts.attach.flatMap fun part => nodes part.1
termination_by sizeOf code
decreasing_by exact sizeOf_lt_of_mem_parts part.2

/-- Why the literal of a piece of code was refused. -/
def refusal? : Code → Option DispatchError
  | .constant (.error e) => some e
  | _ => none

/-- Why literals in code were refused. -/
def refusals (code : Code) : List DispatchError :=
  code.nodes.filterMap refusal?

/-- The refusals in code are its own and those in its parts. -/
theorem refusals_eq (code : Code) :
    code.refusals = code.refusal?.toList ++ code.parts.flatMap refusals := by
  have nodes_eq : code.nodes = code :: code.parts.flatMap nodes := by
    rw [nodes]
    simp
  have below : ∀ codes : List Code, (codes.flatMap nodes).filterMap refusal? = codes.flatMap refusals := by
    intro codes
    rw [List.filterMap_flatMap]
    rfl
  rw [refusals, nodes_eq, List.filterMap_cons, below]
  cases code.refusal? <;> rfl

/-! ### Compiling with a journal -/

/-- Why a resolver refused a literal. -/
def refused? (asked : String × Except DispatchError Value) : Option DispatchError :=
  match asked.2 with
  | .error e => some e
  | .ok _ => none

/-- That literals were asked for, and the answers. -/
def said (answers : List (String × Except DispatchError Value)) : List Moment :=
  answers.map fun a => .asked a.1 a.2

theorem said_append (answers more : List (String × Except DispatchError Value)) :
    said (answers ++ more) = said answers ++ said more :=
  List.map_append

section

variable {σ α β : Type}

/-- A compilation goes with a journal as without one, and all that it asks for are literals. If so many
literals and refusals were counted before it, then it is known how many there are once it succeeds. -/
def Tallies (asked : Multiset String) (refused : Multiset DispatchError) (asked' : Multiset String)
    (refused' : α → Multiset DispatchError) (x : Compilation (σ × List Moment) α)
    (y : Compilation σ α) : Prop :=
  ∀ s journal, ∃ answers, x (s, journal) = ((y s).1, (y s).2, journal ++ said answers) ∧
    ∀ a, (y s).1 = .ok a → asked + answers.map Prod.fst = asked' ∧
      refused + answers.filterMap refused? = refused' a

/-- A compilation that asks for literals, of which some are refused. -/
abbrev Asks (literals : Multiset String) (refusals : α → Multiset DispatchError)
    (x : Compilation (σ × List Moment) α) (y : Compilation σ α) : Prop :=
  Tallies 0 0 literals refusals x y

namespace Tallies

variable {asked asked' literals : Multiset String} {refused : Multiset DispatchError}
  {refusals : α → Multiset DispatchError} {refused' : β → Multiset DispatchError}

theorem done {a : α} {refused' : α → Multiset DispatchError} (hasked : asked = asked')
    (hrefused : refused = refused' a) :
    Tallies (σ := σ) asked refused asked' refused' (pure a) (pure a) := by
  refine fun s journal => ⟨[], by rw [said, List.map_nil, List.append_nil]; rfl, fun a' h => ?_⟩
  cases h
  simpa using ⟨hasked, hrefused⟩

theorem fail (e : ShapeError) {refused' : α → Multiset DispatchError} :
    Tallies (σ := σ) asked refused asked' refused' (throw e) (throw e) := by
  refine fun s journal => ⟨[], by rw [said, List.map_nil, List.append_nil]; rfl, fun a' h => ?_⟩
  cases h

/-- What is counted before and what is asked for add up. -/
theorem andThen {x : Compilation (σ × List Moment) α} {y : Compilation σ α}
    {f : α → Compilation (σ × List Moment) β} {g : α → Compilation σ β} (hx : Asks literals refusals x y)
    (hf : ∀ a, Tallies (asked + literals) (refused + refusals a) asked' refused' (f a) (g a)) :
    Tallies asked refused asked' refused' (x >>= f) (y >>= g) := by
  intro s journal
  obtain ⟨answers, hrun, hanswers⟩ := hx s journal
  rw [bind_apply, bind_apply, hrun]
  revert hanswers
  rcases y s with ⟨e | a, s'⟩
  · intro _
    exact ⟨answers, rfl, fun b h => by cases h⟩
  · intro hanswers
    obtain ⟨hliterals, hrefusals⟩ := hanswers a rfl
    obtain ⟨more, hrest, hmore⟩ := hf a s' (journal ++ said answers)
    refine ⟨answers ++ more, ?_, fun b h => ?_⟩
    · rw [said_append, ← List.append_assoc]
      exact hrest
    · obtain ⟨hasked, hrefused⟩ := hmore b h
      rw [← hasked, ← hrefused, ← hliterals, ← hrefusals]
      constructor
      · simp [add_assoc]
      · simp [add_assoc]

theorem require (check : Except ShapeError Unit) :
    Asks (σ := σ) 0 (fun _ => 0) (require check) (require check) := by
  cases check with
  | error e => exact fail e
  | ok => exact done rfl rfl

/-- A node is checked, and then compiled. -/
theorem node {e : Expr} {x : Compilation (σ × List Moment) α} {y : Compilation σ α}
    (h : Asks literals refusals x y) :
    Asks literals refusals (do Code.require e.check; x) (do Code.require e.check; y) :=
  andThen (require _) fun _ => by simpa using h

end Tallies

end

section

variable {σ τ : Type} (r : Resolver σ)

open Tallies

theorem asks_ofConstant (value : String) (kind : ConstantKind) :
    Asks (Expr.constant value kind).literals (fun code : Code => code.refusals)
      (ofConstant r.heeding value kind) (ofConstant r value kind) := by
  have constant : ∀ result, (Code.constant result).refusals = (refusal? (.constant result)).toList :=
    fun result => by rw [refusals_eq]; simp [parts]
  have own : (Expr.constant value kind).literals = (Expr.constant value kind).literal?.toList := by
    rw [Expr.literals_eq]
    simp [Expr.children]
  rw [own]
  cases kind with
  | number =>
      intro s journal
      let answer := ((r.number value).run s).1
      refine ⟨[(value, answer)], rfl, ?_⟩
      intro code hcode
      obtain rfl : Code.constant answer = code := Except.ok.inj hcode
      dsimp only
      rw [constant]
      refine ⟨by simp [Expr.literal?], ?_⟩
      cases answer <;> simp [refused?, refusal?]
  | string | boolean | null | undefined =>
      exact done rfl (by rw [constant]; rfl)

theorem refusals_ofOperation (function : String) (operands : List Code) :
    (ofOperation function operands).refusals = operands.flatMap refusals := by
  unfold ofOperation
  split
  · split <;> rw [refusals_eq] <;> rfl
  · rw [refusals_eq]
    rfl

/-- The code of a root. -/
def rootCodes : Root Code → List Code
  | .name _ => []
  | .temporary body => [body]

theorem refusals_assignment (root : Root Code) (selectors : List (Selector Code)) (value : Code) :
    ((Code.assignment root selectors value).refusals : Multiset DispatchError)
      = value.refusals + (rootCodes root ++ selectors.flatMap codesOf).flatMap refusals := by
  rw [refusals_eq]
  cases root <;> rfl

/-- The literals of a node without one of its own. -/
theorem literals_node {e : Expr} (own : e.literal? = none) :
    e.literals = (e.children.map (·.2)).flatMap Expr.literals := by
  rw [Expr.literals_eq, own]
  rfl

/-- The refusals in code that is no literal. -/
theorem refusals_node (code : Code) (own : code.refusal? = none) :
    code.refusals = code.parts.flatMap refusals := by
  rw [refusals_eq, own]
  rfl

/-- A call of what is no name. -/
theorem ofExpr_callValue (r : Resolver τ) {callee : Expr} {args : List Expr}
    (hcallee : callee.form ≠ .symbol) : ofExpr r (.call callee args) = (do
      require (Expr.call callee args).check
      let args ← ofExprs r args
      return .callValue callee.text (← ofExpr r callee) args) := by
  rw [ofExpr]
  rintro name rfl
  exact hcallee rfl

mutual

/-- Compiling asks for the literals of an expression, and the refused ones are in the code. -/
theorem asks_ofExpr : ∀ e : Expr,
    Asks e.literals (fun code : Code => code.refusals) (ofExpr r.heeding e) (ofExpr r e)
  | .constant value kind => by
      rw [ofExpr, ofExpr]
      exact .node (asks_ofConstant r value kind)
  | .symbol name => by
      rw [ofExpr, ofExpr, literals_node rfl]
      exact .node (done rfl (by rw [refusals_node (.symbol _) rfl]; rfl))
  | .operation _ function operands _ => by
      rw [ofExpr, ofExpr, literals_node rfl]
      exact .node (andThen (asks_ofExprs operands) fun codes =>
        done (by simp [Expr.children]) (by simp [refusals_ofOperation]))
  | .call callee args => by
      rw [literals_node rfl]
      by_cases hcallee : callee.form = .symbol
      · obtain ⟨name, rfl⟩ : ∃ name, callee = .symbol name := by
          cases callee with
          | symbol name => exact ⟨name, rfl⟩
          | _ => cases hcallee
        have symbol : (Expr.symbol name).literals = [] := literals_node rfl
        rw [ofExpr, ofExpr]
        refine .node (andThen (asks_ofExprs args) fun codes => done ?_ ?_)
        · simp [Expr.children, symbol]
        · rw [refusals_node (.call _ _) rfl]
          simp [parts]
      · rw [ofExpr_callValue _ hcallee, ofExpr_callValue _ hcallee]
        refine .node (andThen (asks_ofExprs args) fun codes =>
          andThen (asks_ofExpr callee) fun code => done ?_ ?_)
        · simpa [Expr.children] using List.perm_append_comm
        · rw [refusals_node (.callValue _ _ _) rfl]
          simpa [parts] using List.perm_append_comm
  | .range start stop step => by
      rw [ofExpr, ofExpr, literals_node rfl]
      refine .node (andThen (asks_ofExpr start) fun a => andThen (asks_ofExpr stop) fun b =>
        andThen (asks_ofStep step) fun c => done ?_ ?_)
      · cases step <;> simp [Expr.children]
      · rw [refusals_node (.range _ _ _) rfl]
        simp [parts]
  | .conditional condition yes no => by
      rw [ofExpr, ofExpr, literals_node rfl]
      refine .node (andThen (asks_ofExpr condition) fun a => andThen (asks_ofExpr yes) fun b =>
        andThen (asks_ofExpr no) fun c => done ?_ ?_)
      · simp [Expr.children]
      · rw [refusals_node (.conditional _ _ _) rfl]
        simp [parts]
  | .assignment target none value => by
      rw [ofExpr, ofExpr, literals_node rfl]
      refine .node (andThen (asks_ofExpr value) fun code => andThen (asks_ofTarget target) fun found =>
        done ?_ ?_)
      · simpa [Expr.children] using List.perm_append_comm
      · rw [refusals_assignment, zero_add]
  | .assignment target (some part) value => by
      rw [ofExpr, ofExpr, literals_node rfl]
      refine .node (andThen (asks_ofExpr value) fun code => andThen (asks_ofTarget target) fun found =>
        andThen (asks_ofPart part) fun selector => done ?_ ?_)
      · simp only [Expr.children, List.map_cons, List.map_nil, List.flatMap_cons, List.flatMap_nil,
          List.append_nil, ← Multiset.coe_add]
        abel
      · rw [refusals_assignment]
        simp
  | .definition name params body => by
      rw [ofExpr, ofExpr, literals_node rfl]
      exact .node (andThen (asks_ofExpr body) fun code =>
        done (by simp [Expr.children]) (by rw [refusals_node (.definition _ _ _) rfl]; simp [parts]))
  | .block entries => by
      rw [ofExpr, ofExpr, literals_node rfl, Expr.map_snd_children_block]
      exact .node (andThen (asks_ofEntries entries) fun codes =>
        done (by simp) (by rw [refusals_node (.block _) rfl]; simp [parts]))
  | .array items => by
      rw [ofExpr, ofExpr, literals_node rfl]
      exact .node (andThen (asks_ofExprs items) fun codes =>
        done (by simp [Expr.children]) (by rw [refusals_node (.array _) rfl]; simp [parts]))
  | .object properties => by
      rw [ofExpr, ofExpr, literals_node rfl, Expr.map_snd_children_object]
      exact .node (andThen (asks_ofProperties properties) fun codes =>
        done (by simp) (by rw [refusals_node (.object _) rfl]; simp [parts]))
  | .parenthesis content => by
      rw [ofExpr, ofExpr, literals_node rfl]
      exact .node (by simpa [Expr.children] using asks_ofExpr content)
  | .index dimensions dotted => by
      rw [ofExpr, ofExpr, literals_node rfl]
      exact .node (andThen (asks_ofDimensions dimensions) fun codes =>
        done (by simp [Expr.children]) (by rw [refusals_node (.index _) rfl]; simp [parts, codesOf]))
  | .access owner part => by
      rw [ofExpr, ofExpr, literals_node rfl]
      refine .node (andThen (asks_ofExpr owner) fun code => andThen (asks_ofPart part) fun selector =>
        done (by simp [Expr.children]) ?_)
      rw [refusals_node (.access _ _) rfl]
      simp [parts]
  | .comparison functions operands => by
      rw [ofExpr, ofExpr, literals_node rfl]
      exact .node (andThen (asks_ofExprs operands) fun codes =>
        done (by simp [Expr.children]) (by rw [refusals_node (.comparison _ _) rfl]; simp [parts]))

theorem asks_ofExprs : ∀ es : List Expr, Asks (es.flatMap Expr.literals)
    (fun codes : List Code => codes.flatMap refusals) (ofExprs r.heeding es) (ofExprs r es)
  | [] => by
      rw [ofExprs, ofExprs]
      exact done rfl rfl
  | e :: es => by
      rw [ofExprs, ofExprs]
      exact andThen (asks_ofExpr e) fun code => andThen (asks_ofExprs es) fun codes =>
        done (by simp) (by simp)

theorem asks_ofStep : ∀ step : Option Expr, Asks (step.toList.flatMap Expr.literals)
    (fun code : Option Code => code.toList.flatMap refusals) (ofStep r.heeding step) (ofStep r step)
  | none => by
      rw [ofStep, ofStep]
      exact done rfl rfl
  | some e => by
      rw [ofStep, ofStep]
      exact andThen (asks_ofExpr e) fun code => done (by simp) (by simp)

theorem asks_ofEntries : ∀ entries : List (Entry Expr),
    Asks ((entries.map (·.body)).flatMap Expr.literals)
      (fun codes : List (Entry Code) => (codes.map (·.body)).flatMap refusals)
      (ofEntries r.heeding entries) (ofEntries r entries)
  | [] => by
      rw [ofEntries, ofEntries]
      exact done rfl rfl
  | ⟨e, visible⟩ :: entries => by
      rw [ofEntries, ofEntries]
      exact andThen (asks_ofExpr e) fun code => andThen (asks_ofEntries entries) fun codes =>
        done (by simp) (by simp)

theorem asks_ofProperties : ∀ properties : List (String × Expr),
    Asks ((properties.map (·.2)).flatMap Expr.literals)
      (fun codes : List (String × Code) => (codes.map (·.2)).flatMap refusals)
      (ofProperties r.heeding properties) (ofProperties r properties)
  | [] => by
      rw [ofProperties, ofProperties]
      exact done rfl rfl
  | (key, e) :: properties => by
      rw [ofProperties, ofProperties]
      exact andThen (asks_ofExpr e) fun code => andThen (asks_ofProperties properties) fun codes =>
        done (by simp) (by simp)

theorem asks_ofDimensions : ∀ es : List Expr, Asks (es.flatMap Expr.literals)
    (fun dimensions : List (Dimension Code) => (dimensions.map (·.body)).flatMap refusals)
    (ofDimensions r.heeding es) (ofDimensions r es)
  | [] => by
      rw [ofDimensions, ofDimensions]
      exact done rfl rfl
  | e :: es => by
      rw [ofDimensions, ofDimensions]
      exact andThen (asks_ofExpr e) fun code => andThen (asks_ofDimensions es) fun dimensions =>
        done (by simp) (by simp)

theorem asks_ofPart : ∀ part : Expr, Asks part.literals
    (fun selector : Selector Code => (codesOf selector).flatMap refusals)
    (ofPart r.heeding part) (ofPart r part)
  | .index dimensions dotted => by
      rw [ofPart, ofPart, literals_node rfl]
      exact .node (andThen (asks_ofDimensions dimensions) fun codes =>
        done (by simp [Expr.children]) (by simp [codesOf]))
  | .constant .. | .symbol _ | .operation .. | .call .. | .range .. | .conditional ..
  | .assignment .. | .definition .. | .block _ | .array _ | .object _ | .parenthesis _ | .access ..
  | .comparison .. => by
      rw [ofPart, ofPart]
      · exact .node (fail _)
      all_goals simp

theorem asks_ofTarget : ∀ target : Expr, Asks target.literals
    (fun found : Root Code × List (Selector Code) =>
      (rootCodes found.1 ++ found.2.flatMap codesOf).flatMap refusals)
    (ofTarget r.heeding target) (ofTarget r target)
  | .symbol name => by
      rw [ofTarget, ofTarget, literals_node rfl]
      exact done rfl rfl
  | .access owner part => by
      rw [literals_node rfl]
      by_cases howner : IsTarget owner
      · rw [ofTarget_access _ howner, ofTarget_access _ howner]
        refine andThen (asks_ofTarget owner) fun found => andThen (asks_ofPart part) fun selector =>
          done ?_ ?_
        · simp [Expr.children]
        · simp
      · obtain ⟨hsymbol, haccess⟩ := not_or.1 howner
        rw [ofTarget_temporary _ hsymbol haccess, ofTarget_temporary _ hsymbol haccess]
        refine andThen (asks_ofExpr owner) fun body => andThen (asks_ofPart part) fun selector =>
          done ?_ ?_
        · simp [Expr.children]
        · simp [rootCodes]
  | .constant .. | .operation .. | .call .. | .range .. | .conditional .. | .assignment ..
  | .definition .. | .block _ | .array _ | .object _ | .parenthesis _ | .index .. | .comparison .. => by
      rw [ofTarget, ofTarget]
      · exact fail _
      all_goals simp

end

end

/-! ### Compiling and evaluating -/

/-- Compiling a well-formed expression asks the resolver for each of its literals, once, and for nothing
else; it succeeds whatever the answers are, and refusals are in the code. Evaluating code, in whatever
context and from whatever machine, asks for no number but the step `1` of a range without one, once
whenever such a range has both its bounds; it fails for the refusal of a literal as soon as it comes to
it, and for no refusal that it did not come to. -/
theorem literals_converted_once {σ : Type} (r : Resolver σ) :
    (∀ (e : Expr) (s : σ) (journal : List Moment), e.WellFormed → ∃ code s' answers,
      e.compile r s = (.ok code, s') ∧
      e.compile r.heeding (s, journal) = (.ok code, s', journal ++ said answers) ∧
      (answers.map Prod.fst).Perm e.literals ∧
      (answers.filterMap refused?).Perm code.refusals) ∧
    ∀ (code : Code) (ctx : Context) (m : Machine σ) (journal : List Moment), ∃ moments,
      heedfully r code ctx (m.journaled journal)
        = ((code.evaluate r ctx m).1, (code.evaluate r ctx m).2.journaled (journal ++ moments)) ∧
      Stepped moments ∧
      (∀ before moment after e, moments = before ++ moment :: after → moment.failure? = some e →
        after = [] ∧ (code.evaluate r ctx m).1 = .error e) ∧
      ∀ reason, (code.evaluate r ctx m).1 = .error (.dispatch reason) →
        ∃ before moment, moments = before ++ [moment] ∧ moment.failure? = some (.dispatch reason) := by
  constructor
  · intro e s journal wellFormed
    obtain ⟨code, s', hcode⟩ := wellFormed.compiles r s
    obtain ⟨answers, hrun, hanswers⟩ := asks_ofExpr r e s journal
    obtain ⟨hliterals, hrefusals⟩ := hanswers code (congrArg Prod.fst hcode)
    refine ⟨code, s', answers, hcode, ?_, ?_, ?_⟩
    · rw [show ofExpr r e s = _ from hcode] at hrun
      exact hrun
    · simpa using hliterals
    · simpa using hrefusals
  · intro code ctx m journal
    obtain ⟨moments, hrun, told⟩ := Heeds.evaluate r code ctx m journal
    refine ⟨moments, hrun, told.stepped, ?_, ?_⟩
    · intro before moment after e hmoments failure
      exact told.ends.last hmoments failure
    · intro reason hresult
      exact told.ends.refused hresult

/-- The literal `9` of the range `1:9` is refused, which its evaluation fails for. -/
theorem literals_converted_once_range :
    let r := Resolver.Symbolic.resolver
    let e : Expr := .range (.number "1") (.number "9") none
    let code : Code := .range (.constant (.ok (.custom (.unit "1u" (some true)))))
      (.constant (.error (.failed "number" "9"))) none
    (∃ answers, e.compile r () = (.ok code, ()) ∧
      e.compile r.heeding ((), []) = (.ok code, (), said answers) ∧
      (answers.map Prod.fst).Perm ["1", "9"] ∧
      (answers.filterMap refused?).Perm [.failed "number" "9"]) ∧
    ∃ before moment,
      heedfully r code { frame := 0 } (Machine.journaled { store := {}, resolver := () } [])
        = ((code.evaluate r { frame := 0 } { store := {}, resolver := () }).1,
          (code.evaluate r { frame := 0 } { store := {}, resolver := () }).2.journaled
            (before ++ [moment])) ∧
      moment.failure? = some (.dispatch (.failed "number" "9")) := by
  intro r e code
  have leaf : ∀ literal, (Expr.number literal).WellFormed := fun literal =>
    .node rfl (List.forall_mem_nil _)
  have wellFormed : e.WellFormed :=
    .node rfl (List.forall_mem_cons.2 ⟨leaf "1", List.forall_mem_singleton.2 (leaf "9")⟩)
  have own : ∀ literal, (Expr.number literal).literals = [literal] := by
    intro literal
    rw [Expr.literals_eq]
    rfl
  have literals : e.literals = ["1", "9"] := by
    rw [literals_node rfl]
    show (Expr.number "1").literals ++ ((Expr.number "9").literals ++ []) = _
    rw [own, own]
    rfl
  have refusals : code.refusals = [.failed "number" "9"] := by
    rw [refusals_node code rfl]
    simp only [code, parts, List.flatMap_cons, refusals_eq (.constant _), refusal?]
    rfl
  constructor
  · obtain ⟨_, _, answers, hcode, hrun, hliterals, hrefusals⟩ :=
      (literals_converted_once r).1 e () [] wellFormed
    have compiled : e.compile r () = (.ok code, ()) := rfl
    obtain ⟨hresult, _⟩ := Prod.mk.inj (hcode.symm.trans compiled)
    obtain rfl := Except.ok.inj hresult
    rw [literals] at hliterals
    rw [refusals] at hrefusals
    exact ⟨answers, hcode, hrun, hliterals, hrefusals⟩
  · obtain ⟨moments, hrun, _, _, hrefused⟩ :=
      (literals_converted_once r).2 code { frame := 0 } { store := {}, resolver := () } []
    obtain ⟨before, moment, rfl, failure⟩ := hrefused (.failed "number" "9") rfl
    exact ⟨before, moment, hrun, failure⟩

end Code

end Formula
