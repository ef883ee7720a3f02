import Formula.Expr.Equality
import Formula.Proofs.Rendering.Faithful

/-!
Reading what was written with all parentheses.

With parentheses around every operand that is no plain value, what is written is legible wherever it
stands (`Legible.written_enclosing`), and is read as the expression it was written of, apart from
parentheses (`rereads_enclosed`). The parentheses that the tree has are left out, though: what an index
follows is not enclosed again, and operands next to each other are read as what they look like, which can
be a call (`Enclosable`).
-/

namespace Formula

/-- The style in which parentheses are around every operand that is no plain value. -/
def Style.enclosing (juxtaposition : Juxtaposition) : Style :=
  { parentheses := .all, juxtaposition }

namespace Expr

open Grammar Rendering

/-! ### What an expression is, however it is written -/

mutual

/-- An expression without parentheses, without blocks of one visible statement, and with every product
spelled out. -/
def skeleton : Expr → Expr
  | .constant value kind => .constant value kind
  | .symbol name => .symbol name
  | .operation spelling function operands _ =>
    .operation spelling function (skeletonAll operands) false
  | .call callee args => .call callee.skeleton (skeletonAll args)
  | .range start stop step => .range start.skeleton stop.skeleton (skeletonOption step)
  | .conditional condition yes no => .conditional condition.skeleton yes.skeleton no.skeleton
  | .assignment target part value =>
    .assignment target.skeleton (skeletonOption part) value.skeleton
  | .definition name params body => .definition name params body.skeleton
  | .block entries => ofStatements (skeletonEntries entries)
  | .array items => .array (skeletonAll items)
  | .object properties => .object (skeletonProperties properties)
  | .parenthesis e => e.skeleton
  | .index dimensions dotted => .index (skeletonAll dimensions) dotted
  | .access owner part => .access owner.skeleton part.skeleton
  | .comparison functions operands => .comparison functions (skeletonAll operands)

/-- The skeletons of expressions. -/
def skeletonAll : List Expr → List Expr
  | [] => []
  | e :: es => e.skeleton :: skeletonAll es

/-- The skeleton of an expression, if there is one. -/
def skeletonOption : Option Expr → Option Expr
  | none => none
  | some e => some e.skeleton

/-- The skeletons of statements. -/
def skeletonEntries : List (Entry Expr) → List (Entry Expr)
  | [] => []
  | ⟨e, visible⟩ :: entries => ⟨e.skeleton, visible⟩ :: skeletonEntries entries

/-- The skeletons of properties. -/
def skeletonProperties : List (String × Expr) → List (String × Expr)
  | [] => []
  | (key, e) :: properties => (key, e.skeleton) :: skeletonProperties properties

end

theorem skeleton_enclosed (wrap : Bool) (e : Expr) : (enclosed wrap e).skeleton = e.skeleton := by
  cases wrap <;> rfl

theorem skeletonAll_enclosed {wraps : List Bool} {es : List Expr} (h : wraps.length = es.length) :
    skeletonAll (List.zipWith enclosed wraps es) = skeletonAll es := by
  induction wraps generalizing es with
  | nil =>
      cases es with
      | nil => rfl
      | cons => cases h
  | cons wrap wraps ih =>
      cases es with
      | nil => cases h
      | cons e es =>
          rw [List.zipWith_cons_cons, skeletonAll, skeletonAll, skeleton_enclosed, ih (Nat.succ.inj h)]

section

variable {style : Style}

mutual

/-- However an expression is written, its skeleton stays. -/
theorem skeleton_written : ∀ e : Expr, (e.written style).skeleton = e.skeleton
  | .constant .. | .symbol _ => rfl
  | .operation spelling function operands juxtaposed => by
      rw [written, skeleton, skeleton, skeletonAll_enclosed, skeletonAll_written operands]
      rw [length_wrappedOperands, writtenAll_eq, List.length_map]
  | .call callee args => by
      rw [written, skeleton, skeleton, skeleton_enclosed, skeleton_written callee,
        skeletonAll_written args]
  | .range start stop none => by
      rw [written, skeleton, skeleton, skeleton_enclosed, skeleton_enclosed, skeleton_written start,
        skeleton_written stop, writtenStep]
  | .range start stop (some step) => by
      rw [written, skeleton, skeleton, skeleton_enclosed, skeleton_enclosed, skeleton_written start,
        skeleton_written stop, writtenStep, skeletonOption, skeletonOption, skeleton_enclosed,
        skeleton_written step]
  | .conditional condition yes no => by
      rw [written, skeleton, skeleton, skeleton_enclosed, skeleton_enclosed, skeleton_enclosed,
        skeleton_written condition, skeleton_written yes, skeleton_written no]
  | .assignment target none value => by
      rw [written, skeleton, skeleton, skeleton_enclosed, skeleton_written target,
        skeleton_written value, writtenPart]
  | .assignment target (some part) value => by
      rw [written, skeleton, skeleton, skeleton_enclosed, skeleton_written target,
        skeleton_written value, writtenPart, skeletonOption, skeletonOption, skeleton_written part]
  | .definition name params body => by
      rw [written, skeleton, skeleton, skeleton_enclosed, skeleton_written body]
  | .block entries => by
      rw [written, skeleton, skeleton, skeletonEntries_written entries]
  | .array items => by
      rw [written, skeleton, skeleton, skeletonAll_written items]
  | .object properties => by
      rw [written, skeleton, skeleton, skeletonProperties_written properties]
  | .parenthesis e => by
      rw [written, skeleton, skeleton_enclosed, skeleton_written e]
  | .index dimensions dotted => by
      rw [written, skeleton, skeleton, skeletonAll_written dimensions]
  | .access owner part => by
      rw [written, skeleton, skeleton, skeleton_enclosed, skeleton_written owner, skeleton_written part]
  | .comparison functions operands => by
      rw [written, skeleton, skeleton, skeletonAll_writtenOperands operands]

theorem skeletonAll_written : ∀ es : List Expr, skeletonAll (writtenAll style es) = skeletonAll es
  | [] => rfl
  | e :: es => by
      rw [writtenAll, skeletonAll, skeletonAll, skeleton_written e, skeletonAll_written es]

theorem skeletonAll_writtenOperands : ∀ es : List Expr,
    skeletonAll (writtenOperands style es) = skeletonAll es
  | [] => rfl
  | e :: es => by
      rw [writtenOperands, skeletonAll, skeletonAll, skeleton_enclosed, skeleton_written e,
        skeletonAll_writtenOperands es]

theorem skeletonEntries_written : ∀ entries : List (Entry Expr),
    skeletonEntries (writtenEntries style entries) = skeletonEntries entries
  | [] => rfl
  | ⟨e, visible⟩ :: entries => by
      rw [writtenEntries, skeletonEntries, skeletonEntries, skeleton_written e,
        skeletonEntries_written entries]

theorem skeletonProperties_written : ∀ properties : List (String × Expr),
    skeletonProperties (writtenProperties style properties) = skeletonProperties properties
  | [] => rfl
  | (key, e) :: properties => by
      rw [writtenProperties, skeletonProperties, skeletonProperties, skeleton_written e,
        skeletonProperties_written properties]

end

theorem skeleton_ofStatements (entries : List (Entry Expr)) :
    (ofStatements entries).skeleton = ofStatements (skeletonEntries entries) := by
  unfold ofStatements
  split
  · rfl
  · rw [skeleton]
    rfl

end

/-! ### Operands that nothing can take apart -/

/-- Whether an expression is a plain value, or in parentheses. -/
def IsClosed (e : Expr) : Prop :=
  e.form = .array ∨ e.form = .constant ∨ e.form = .symbol ∨ e.form = .parenthesis

namespace IsClosed

variable {e : Expr}

theorem level (h : IsClosed e) (f : Bool) : e.level f = 17 := by
  cases e with
  | array | constant | symbol | parenthesis => rfl
  | _ => simp [IsClosed, form] at h

theorem lastFactor (h : IsClosed e) : e.lastFactor = e := by
  cases e with
  | array | constant | symbol | parenthesis => rfl
  | _ => simp [IsClosed, form] at h

theorem opensProduct (h : IsClosed e) (f : Bool) : e.opensProduct f = (e.isLiteral && f) := by
  cases e with
  | array | constant | symbol | parenthesis => rfl
  | _ => simp [IsClosed, form] at h

end IsClosed

theorem IsClosed.of_parenthesis (e : Expr) : IsClosed (.parenthesis e) :=
  .inr (.inr (.inr rfl))

theorem IsClosed.le_level {e : Expr} (h : IsClosed e) {limit : Nat} (strong : limit ≤ 17) (f : Bool) :
    limit ≤ e.level f := by
  rwa [h.level]

/-- An operand as it stands in an operation: a plain value as it is, and everything else in
parentheses. -/
def operand (e : Expr) : Expr :=
  if isPlain e then e.content else .parenthesis e

section

variable {j : Juxtaposition} {e left right : Expr}

/-- Parentheses of the tree are not written where they are all written anew. -/
theorem written_content : ∀ e : Expr, e.content.written (.enclosing j) = e.written (.enclosing j)
  | .parenthesis e => by
      rw [content, written_content e, written]
      rfl
  | .constant .. | .symbol _ | .operation .. | .call .. | .range .. | .conditional ..
  | .assignment .. | .definition .. | .block _ | .array _ | .object _ | .index .. | .access ..
  | .comparison .. => rfl

theorem wrappedOperands_enclosing {spelling function : String} {operands : List Expr}
    {juxtaposed : Bool} : wrappedOperands (.enclosing j) false
      (.operation spelling function operands juxtaposed) operands juxtaposed
      = operands.map fun e => !isPlain e := by
  simp [wrappedOperands, Style.enclosing]

/-- What is written of an operand. -/
def writtenOperand (j : Juxtaposition) (e : Expr) : Expr :=
  enclosed (!isPlain e) (e.written (.enclosing j))

theorem writtenOperand_of_isPlain (h : isPlain e = true) :
    writtenOperand j e = e.content.written (.enclosing j) := by
  rw [writtenOperand, h, written_content]
  rfl

theorem writtenOperand_of_not_isPlain (h : isPlain e = false) :
    writtenOperand j e = .parenthesis (e.written (.enclosing j)) := by
  rw [writtenOperand, h]
  rfl

theorem closed_writtenOperand (j : Juxtaposition) (e : Expr) : IsClosed (writtenOperand j e) := by
  cases h : isPlain e with
  | false =>
      rw [writtenOperand_of_not_isPlain h]
      exact .of_parenthesis _
  | true =>
      rw [writtenOperand_of_isPlain h]
      revert h
      unfold isPlain
      cases e.content with
      | array => exact fun _ => .inl rfl
      | constant => exact fun _ => .inr (.inl rfl)
      | symbol => exact fun _ => .inr (.inr (.inl rfl))
      | _ => exact nofun

/-- What is written of an operand looks from outside as it does. -/
theorem writtenOperand_eq (j : Juxtaposition) (e : Expr) :
    (writtenOperand j e).opening = e.operand.opening ∧
      endsLikeNumber (writtenOperand j e) = endsLikeNumber e.operand ∧
      (writtenOperand j e).endsCallable = e.operand.endsCallable := by
  unfold operand
  cases h : isPlain e with
  | false =>
      rw [writtenOperand_of_not_isPlain h]
      exact ⟨rfl, rfl, rfl⟩
  | true =>
      rw [writtenOperand_of_isPlain h, if_pos rfl]
      revert h
      unfold isPlain
      cases e.content with
      | array | constant | symbol => exact fun _ => ⟨rfl, rfl, rfl⟩
      | _ => exact nofun

theorem legible_writtenOperand (h : ∀ f, Legible f (e.written (.enclosing j))) (f : Bool) :
    Legible f (writtenOperand j e) := by
  cases hplain : isPlain e with
  | false =>
      rw [writtenOperand_of_not_isPlain hplain]
      exact .parenthesis (h false)
  | true =>
      rw [writtenOperand, hplain]
      exact h f

theorem written_enclosing_one {spelling function : String} {juxtaposed : Bool} :
    (Expr.operation spelling function [e] juxtaposed).written (.enclosing j)
      = .operation spelling function [writtenOperand j e] (juxtaposed && j = .hide) :=
  written_one wrappedOperands_enclosing

theorem written_enclosing_two {spelling function : String} {juxtaposed : Bool} :
    (Expr.operation spelling function [left, right] juxtaposed).written (.enclosing j)
      = .operation spelling function [writtenOperand j left, writtenOperand j right]
        (juxtaposed && j = .hide) :=
  written_two wrappedOperands_enclosing

/-- Parts other than operands are written in parentheses whatever they are. -/
theorem enclosed_part (limit : Nat) :
    enclosed (wrapsAt (Style.enclosing j).parentheses limit e) (e.written (.enclosing j))
      = .parenthesis (e.written (.enclosing j)) := by
  simp [wrapsAt, Style.enclosing, enclosed]

/-! ### What is written is legible -/

/-- An operation of two operands that nothing can take apart is legible wherever it stands. -/
theorem legible_binary {spelling : String} {op : Operator} (hop : Operator.binary? spelling = some op)
    (weak : op.level ≤ 12) (hleft : ∀ f, Legible f left) (closedLeft : IsClosed left)
    (hright : ∀ f, Legible f right) (closedRight : IsClosed right) (f : Bool) :
    Legible f (.operation spelling op.name [left, right] false) := by
  by_cases hfraction : f = true ∧ op = .divide ∧ isFraction left right = true
  · -- In front of a factor, a quotient of numbers is read as one number.
    obtain ⟨rfl, rfl, hfraction⟩ := hfraction
    rw [Operator.eq_of_binary?_divide hop]
    exact .fraction hfraction (hleft false) (hright false)
  · refine .binary hop weak (hleft false) ?_ (hright f) ?_ ?_
    · rw [closedLeft.level]
      split <;> omega
    · rw [closedRight.level]
      omega
    · rintro rfl hnumeral
      rw [closedLeft.lastFactor] at hnumeral
      rw [closedRight.opensProduct, Bool.eq_false_iff]
      intro hliteral
      obtain ⟨hliteral, hf⟩ := Bool.and_eq_true_iff.1 hliteral
      exact hfraction ⟨hf, rfl, Bool.and_eq_true_iff.2 ⟨hnumeral, hliteral⟩⟩

/-- Whether two operands next to each other are read as a product: the right one opens as a factor
does, or with a number that goes on with none in front of it, and its parentheses are not those of a
call. -/
def Juxtaposable (left right : Expr) : Prop :=
  (right.operand.opening.isFactor = true ∨
    right.operand.opening = .number ∧ endsLikeNumber left.operand = false) ∧
  (right.operand.opening = .parenthesis → left.operand.endsCallable = false)

/-- What it takes for a node to be read again when all parentheses are written. Those of the tree are
left out around what an index or a property follows, so that has to hold together without them, and a
property is not behind a number of digits alone. Operands of a product by juxtaposition are written next
to each other if it is not spelled out. -/
def Enclosable (j : Juxtaposition) : Expr → Prop
  | .access owner part =>
    (owner.form = .parenthesis → 17 ≤ owner.content.level false) ∧
      ∀ name, part = .property name → owner.content.isWhole = false
  | .operation _ _ [left, right] true => j = .hide → Juxtaposable left right
  | _ => True

theorem Enclosable.of_assigned {target value : Expr} (he : assign target value = .ok e) :
    Enclosable j target := by
  obtain ⟨_, rfl, _, rfl⟩ | ⟨owner, part, rfl, howner, _, rfl⟩ | ⟨_, _, rfl, _, rfl⟩ :=
    assign_eq_ok_iff.1 he
  · trivial
  · cases owner with
    | symbol => exact ⟨nofun, fun _ _ => rfl⟩
    | access => exact ⟨nofun, fun _ _ => rfl⟩
    | _ => cases howner
  · trivial

/-- What holds together without its parentheses is written so that it does. -/
theorem level_written_of_tight (h : 17 ≤ e.content.level false) :
    17 ≤ (e.written (.enclosing j)).level false := by
  rw [← written_content]
  have hform := form_content_ne e
  revert h hform
  cases e.content with
  | operation spelling function operands juxtaposed =>
      intro h _
      obtain ⟨operands', hwritten, _⟩ :=
        exists_written_operation (.enclosing j) spelling function operands juxtaposed
      rw [hwritten, level_false_operation]
      rw [level_false_operation] at h
      cases juxtaposed with
      | false => exact h
      | true => simp at h
  | parenthesis => exact fun _ hform => absurd rfl hform
  | _ => exact fun h _ => h

/-- What an index follows is written so that it holds together. -/
theorem level_writtenOwner (enclosable : e.form = .parenthesis → 17 ≤ e.content.level false) :
    17 ≤ (enclosed (wrapsAccessed e) (e.written (.enclosing j))).level false := by
  cases e with
  | parenthesis => exact level_written_of_tight (enclosable rfl)
  | _ => exact Nat.le_refl 17

/-- What is written with all parentheses of a legible expression is legible wherever it stands. -/
theorem Legible.written_enclosing {f : Bool} (h : Legible f e) (enclosable : e.Everywhere (Enclosable j)) :
    ∀ g, Legible g (e.written (.enclosing j)) := by
  have operandLevel : ∀ {e : Expr} {g : Bool} {limit : Nat}, limit ≤ 17 →
      limit ≤ (writtenOperand j e).level g := fun strong => (closed_writtenOperand j _).le_level strong _
  have partLevel : ∀ {e : Expr} {g : Bool} {limit : Nat}, limit ≤ 17 →
      limit ≤ (Expr.parenthesis e).level g := fun strong => strong
  induction h with
  | number lexical literal => exact fun g => .number lexical literal
  | string value => exact fun g => .string value
  | @name f name e lexical he =>
      subst he
      rw [written_ofName]
      exact fun g => .name lexical rfl
  | word hname infix_ => exact fun g => .word hname infix_
  | parenthesis h ih =>
      -- These are left out, and what is in them is legible without them.
      exact ih (enclosable.child _ (by simp [children]))
  | array h ih =>
      intro g
      rw [Expr.written, writtenAll_eq]
      refine .array (List.forall_mem_map.2 fun e he => ih e he (enclosable.child e ?_) false)
      simpa [children] using he
  | object h nodup ih =>
      intro g
      rw [Expr.written, writtenProperties_eq]
      refine .object (List.forall_mem_map.2 fun p hp => ih p hp (enclosable.child p.2 ?_) false) ?_
      · exact List.mem_map.2 ⟨_, List.mem_map_of_mem hp, rfl⟩
      · rw [Record.keys, List.map_map]
        exact nodup
  | call hcallee callable h ihcallee ih =>
      intro g
      obtain ⟨hwrap, callable'⟩ := enclosed_callee (.enclosing j) callable
      rw [Expr.written, hwrap, writtenAll_eq]
      refine .call (ihcallee (enclosable.child _ (by simp [children])) false) callable' ?_
      refine List.forall_mem_map.2 fun e he => ih e he (enclosable.child e ?_) false
      simp [children, he]
  | @index f owner dimensions howner _ h ihowner ih =>
      intro g
      have hpart := enclosable.child (.index dimensions false) (by simp [children])
      rw [Expr.written, Expr.written, writtenAll_eq]
      refine .index (ihowner (enclosable.child _ (by simp [children])) false).enclosed
        (level_writtenOwner enclosable.here.1) ?_
      refine List.forall_mem_map.2 fun e he => ih e he (hpart.child e ?_) false
      simpa [children] using he
  | property howner _ lexical ih =>
      intro g
      rw [Expr.written]
      exact .property (ih (enclosable.child _ (by simp [children])) false).enclosed
        (level_writtenOwner enclosable.here.1) lexical
  | postfixed hop h _ ih =>
      intro g
      have operand := legible_writtenOperand (ih (enclosable.child _ (by simp [children])))
      rw [written_enclosing_one]
      exact .postfixed hop (operand false) (operandLevel (by omega))
  | prefixed hop h _ ih =>
      intro g
      have operand := legible_writtenOperand (ih (enclosable.child _ (by simp [children])))
      rw [written_enclosing_one]
      exact .prefixed hop (operand false) (operandLevel (by omega))
  | power hspelling hop _ _ _ _ ih ih' =>
      intro g
      have left := legible_writtenOperand (ih (enclosable.child _ (by simp [children])))
      have right := legible_writtenOperand (ih' (enclosable.child _ (by simp [children])))
      rw [written_enclosing_two]
      exact .power hspelling hop (left false) (operandLevel (by omega)) (right false)
        (operandLevel (by omega))
  | fraction _ _ _ ih ih' =>
      have left := legible_writtenOperand (ih (enclosable.child _ (by simp [children])))
      have right := legible_writtenOperand (ih' (enclosable.child _ (by simp [children])))
      rw [written_enclosing_two]
      exact legible_binary (by decide) (by decide) left (closed_writtenOperand j _) right
        (closed_writtenOperand j _)
  | binary hop weak _ _ _ _ _ ih ih' =>
      have left := legible_writtenOperand (ih (enclosable.child _ (by simp [children])))
      have right := legible_writtenOperand (ih' (enclosable.child _ (by simp [children])))
      rw [written_enclosing_two]
      exact legible_binary hop weak left (closed_writtenOperand j _) right (closed_writtenOperand j _)
  | @juxtaposition f left right _ _ _ _ _ _ ih ih' =>
      have hleft := legible_writtenOperand (ih (enclosable.child _ (by simp [children, juxtapose])))
      have hright := legible_writtenOperand (ih' (enclosable.child _ (by simp [children, juxtapose])))
      rw [juxtapose, written_enclosing_two, Bool.true_and]
      cases j with
      | hide =>
          intro g
          obtain ⟨opens, called⟩ : Juxtaposable left right := enclosable.here rfl
          obtain ⟨_, hnumber, hcallable⟩ := writtenOperand_eq .hide left
          obtain ⟨hopening, _⟩ := writtenOperand_eq .hide right
          rw [← hnumber, ← hopening, ← (closed_writtenOperand .hide left).lastFactor] at opens
          rw [← hcallable, ← hopening] at called
          exact .juxtaposition (hleft _) (operandLevel (by omega)) (hright g) (operandLevel (by omega))
            opens called
      | spell =>
          -- Spelled out, it is a product as any other.
          have hop : Operator.binary? "*" = some .multiply := by decide
          exact legible_binary hop (by decide) hleft (closed_writtenOperand .spell _) hright
            (closed_writtenOperand .spell _)
  | @comparison f functions operands last comparisons many length h _ _ _ ih ihlast =>
      intro g
      have below : ∀ e ∈ operands ++ [last], Everywhere (Enclosable j) e :=
        fun e he => enclosable.child e (by simpa [children] using he)
      rw [List.forall_mem_append, List.forall_mem_singleton] at below
      simp only [Expr.written, writtenOperands_eq, List.map_append, List.map_singleton, enclosed_part]
      refine .comparison comparisons many (by simpa using length) ?_ ?_
        (.parenthesis (ihlast below.2 false)) (partLevel (by omega))
      · exact List.forall_mem_map.2 fun e he => .parenthesis (ih e he (below.1 e he) false)
      · exact List.forall_mem_map.2 fun e _ => partLevel (by omega)
  | range _ _ _ _ ih ih' =>
      intro g
      have hstart := ih (enclosable.child _ (by simp [children])) false
      have hstop := ih' (enclosable.child _ (by simp [children])) false
      rw [Expr.written, enclosed_part, enclosed_part, writtenStep]
      exact .range (.parenthesis hstart) (partLevel (by omega)) (.parenthesis hstop)
        (partLevel (by omega))
  | steppedRange _ _ _ _ _ _ ih ih' ih'' =>
      intro g
      have hstart := ih (enclosable.child _ (by simp [children])) false
      have hstep := ih' (enclosable.child _ (by simp [children])) false
      have hstop := ih'' (enclosable.child _ (by simp [children])) false
      rw [Expr.written, enclosed_part, enclosed_part, writtenStep, enclosed_part]
      exact .steppedRange (.parenthesis hstart) (partLevel (by omega)) (.parenthesis hstep)
        (partLevel (by omega)) (.parenthesis hstop) (partLevel (by omega))
  | @conditional f condition yes no _ _ _ _ _ ih ih' ih'' =>
      intro g
      have hcondition := ih (enclosable.child _ (by simp [children])) false
      have hyes := ih' (enclosable.child _ (by simp [children])) false
      have hno := ih'' (enclosable.child _ (by simp [children])) false
      have hwrap : wrapsCondition (Style.enclosing j).parentheses condition = true := by
        simp [wrapsCondition, wrapsAt, Style.enclosing]
      rw [Expr.written, enclosed_part, enclosed_part, hwrap, Expr.enclosed, if_pos rfl]
      exact .conditional (.parenthesis hcondition) (partLevel (by omega)) (.parenthesis hyes) rfl
        (.parenthesis hno)
  | assigned he _ _ ih ih' =>
      intro g
      obtain ⟨htarget, hvalue⟩ :=
        everywhere_assigned (fun _ => trivial) Enclosable.of_assigned he enclosable
      refine .assigned (assign_written he) (ih htarget false) ?_
      rw [enclosed_part]
      exact .parenthesis (ih' hvalue false)

theorem isWhole_written (e : Expr) : (e.written (.enclosing j)).isWhole = e.content.isWhole := by
  rw [← written_content]
  have hform := form_content_ne e
  revert hform
  cases e.content with
  | parenthesis => exact fun hform => absurd rfl hform
  | _ => exact fun _ => rfl

/-- What holds together and is no number of digits alone takes a property right behind it. -/
theorem Legible.takesPoint_of_tight {f : Bool} (h : Legible f e) (tight : 17 ≤ e.level f)
    (hwhole : e.isWhole = false) : e.takesPoint = true := by
  have accessed : wrapsAccessed e = false ∨ e.isPostfixed = true := by
    cases h with
    | number | string | parenthesis | array | object | call | index | property | word => exact .inl rfl
    | name _ he =>
        subst he
        refine .inl ?_
        unfold ofName
        repeat' split
        all_goals rfl
    | postfixed hop =>
        refine .inr ?_
        rw [isPostfixed, hop]
        rfl
    | prefixed hop => simp [level_prefixed hop] at tight
    | power hspelling hop =>
        obtain ⟨_, hlevel⟩ | ⟨h, h', _⟩ := Operator.level_of_binary hop
        · rw [level_binary] at tight
          split at tight <;> omega
        · exact absurd hspelling (not_or.2 ⟨h, h'⟩)
    | fraction hfraction => simp [level_binary, hfraction] at tight
    | binary hop weak =>
        rw [level_binary] at tight
        split at tight <;> omega
    | juxtaposition => simp [level_juxtapose] at tight
    | assigned he => simp [level_assigned he] at tight
    | comparison | range | steppedRange | conditional => simp [Expr.level] at tight
  rw [takesPoint, hwhole]
  rcases accessed with h | h <;> simp [h]

theorem Legible.takesPoint_enclosed {wrap : Bool} (h : Legible false e)
    (tight : 17 ≤ (Expr.enclosed wrap e).level false) (hwhole : e.isWhole = false) :
    (Expr.enclosed wrap e).takesPoint = true := by
  refine h.enclosed.takesPoint_of_tight tight ?_
  cases wrap with
  | true => rfl
  | false => exact hwhole

theorem writable_enclosing : Writable (.enclosing j) (Enclosable j) where
  name _ := trivial
  target := Enclosable.of_assigned
  point {owner name} h enclosable := by
    obtain ⟨tight, hwhole⟩ : Enclosable j (.access owner (.property name)) := enclosable.here
    have hlegible := h.written_enclosing (enclosable.child _ (by simp [children])) false
    exact hlegible.takesPoint_enclosed (level_writtenOwner tight)
      ((isWhole_written owner).trans (hwhole name rfl))
  legible h enclosable := h.written_enclosing enclosable false

/-- With all parentheses, what stands on the next line does not matter. -/
theorem rereadable_enclosing :
    Rereadable (.enclosing j) (written (.enclosing j)) (Enclosable j) fun _ _ => True :=
  { writable_enclosing.readable with
    plain := fun _ => rfl
    block := written_block (.enclosing j)
    line := fun _ legible enclosable _ _ => legible.written_enclosing enclosable _ }

theorem skeleton_singled (e : Expr) : e.singled.skeleton = e.skeleton := by
  cases e with
  | block entries => rw [singled, skeleton_ofStatements, skeleton]
  | _ => rfl

/-- What was read and is enclosable is read again from its text with all parentheses, with the same
skeleton. -/
theorem rereads_enclosed {source : String} {e : Expr} (h : parse source = .ok e)
    (enclosable : e.Everywhere (Enclosable j))
    (shallow : (e.written (.enclosing j)).nesting < maxDepth) :
    ∃ e', parse (e.render (.enclosing j)) = .ok e' ∧ e'.skeleton = e.skeleton := by
  have lines : ∀ entries, e = .block entries → entries.IsChain fun _ _ => True :=
    fun entries _ => (List.pairwise_of_forall fun _ _ => trivial).isChain
  refine ⟨_, rereadable_enclosing.parse_render h enclosable lines shallow, ?_⟩
  rw [skeleton_singled, skeleton_written]

end

/-- The statements of a source with a product of a number and a sum, and the power of an element. -/
def powers : Expr :=
  let sum := .parenthesis (.apply .add [.symbol "a", .symbol "b"])
  let first := .index [.number "1"] false
  .block [
    { body := .assignment (.symbol "y") none (.juxtapose (.number "2") sum), visible := false },
    { body := .apply .pow [.access (.symbol "c") first, .number "2"], visible := true }]

theorem powers_enclosable : powers.Everywhere (Enclosable .hide) := by
  have number : ∀ text, (Expr.number text).Everywhere (Enclosable .hide) :=
    fun _ => .node trivial (List.forall_mem_nil _)
  have symbol : ∀ name, (Expr.symbol name).Everywhere (Enclosable .hide) :=
    fun _ => .node trivial (List.forall_mem_nil _)
  have sum : (Expr.apply .add [.symbol "a", .symbol "b"]).Everywhere (Enclosable .hide) :=
    .node trivial (by simp [children, apply, symbol])
  have enclosed : (Expr.parenthesis (.apply .add [.symbol "a", .symbol "b"])).Everywhere
      (Enclosable .hide) := .node trivial (by simp [children, sum])
  have product : (Expr.juxtapose (.number "2") (.parenthesis (.apply .add [.symbol "a", .symbol "b"])))
      |>.Everywhere (Enclosable .hide) :=
    .node (fun _ => ⟨.inl rfl, fun _ => rfl⟩) (by simp [children, juxtapose, number, enclosed])
  have first : (Expr.index [.number "1"] false).Everywhere (Enclosable .hide) :=
    .node trivial (by simp [children, number])
  have element : (Expr.access (.symbol "c") (.index [.number "1"] false)).Everywhere (Enclosable .hide) :=
    .node ⟨by rintro ⟨⟩, fun _ _ => rfl⟩ (by simp [children, symbol, first])
  have power : (Expr.apply .pow [.access (.symbol "c") (.index [.number "1"] false), .number "2"])
      |>.Everywhere (Enclosable .hide) := .node trivial (by simp [children, apply, number, element])
  have assigned : (Expr.assignment (.symbol "y") none (.juxtapose (.number "2")
      (.parenthesis (.apply .add [.symbol "a", .symbol "b"])))).Everywhere (Enclosable .hide) :=
    .node trivial (by simp [children, symbol, product])
  exact .node trivial (by simp [powers, children, power, assigned])

/-- A product that stays one in front of parentheses, and an index that follows a name. -/
theorem rereads_enclosed_powers : parse "y = 2 (a + b); c[1]^2" = .ok powers ∧
    powers.Everywhere (Enclosable .hide) ∧ (powers.written (.enclosing .hide)).nesting < maxDepth ∧
    ∃ e', parse (powers.render (.enclosing .hide)) = .ok e' ∧ e'.skeleton = powers.skeleton := by
  have source : parse "y = 2 (a + b); c[1]^2" = .ok powers := by decide +kernel
  have shallow : (powers.written (.enclosing .hide)).nesting < maxDepth := by decide +kernel
  exact ⟨source, powers_enclosable, shallow, rereads_enclosed source powers_enclosable shallow⟩

/-- Whether the text of the expression of a source with all parentheses is read as the same expression
apart from parentheses, but for texts that nest too deeply. -/
def FaithfulEnclosed (source : String) : Prop :=
  ∀ e, parse source = .ok e → ∀ j, (e.written (.enclosing j)).nesting < maxDepth →
    ∃ e', parse (e.render (.enclosing j)) = .ok e' ∧ e'.skeleton = e.skeleton

/-- With all parentheses, `(a + b)[1]` is a sum: those in front of an index are left out. -/
theorem not_faithfulEnclosed : ¬ FaithfulEnclosed "(a + b)[1]" := by
  intro h
  let sum := Expr.apply .add [.symbol "a", .symbol "b"]
  let one := Expr.index [.number "1"] false
  have source : parse "(a + b)[1]" = .ok (.access (.parenthesis sum) one) := by decide +kernel
  have shallow : ((Expr.access (.parenthesis sum) one).written (.enclosing .hide)).nesting < maxDepth := by
    decide +kernel
  have text : (Expr.access (.parenthesis sum) one).render (.enclosing .hide) = "a + b[1]" := by
    decide +kernel
  have again : parse "a + b[1]" = .ok (.apply .add [.symbol "a", .access (.symbol "b") one]) := by
    decide +kernel
  obtain ⟨e', hparse, hskeleton⟩ := h _ source .hide shallow
  rw [text, again] at hparse
  obtain rfl := Except.ok.inj hparse
  cases hskeleton

end Expr

end Formula
