import Formula.Proofs.Catalog.Untyped

/-!
How the standard catalog answers a call.

The first signature of the name that accepts the arguments answers (`call_ofLists`), and it does what
the operation of its name does on lists of arguments, which it takes apart itself (`Implements`). What
is to be shown of an operation is told for the values that its rule gets (`RuleOn.Holds`).
-/

namespace Formula

namespace Param

/-- The value that a parameter takes for what it passes on. -/
def toValue : (p : Param) → p.Carrier → Value
  | .any, v => v
  | .of .undefined, _ => .undefined
  | .of .null, _ => .null
  | .of .boolean, b => .bool b
  | .of .number, x => .number x
  | .of .string, s => .string s
  | .of .array, items => .array items
  | .of .object, fields => .object fields
  | .of .index, dimensions => .index dimensions
  | .of .function, f => .function f
  | .of .custom, c => .custom c

theorem eq_toValue {p : Param} {v : Value} {a : p.Carrier} (h : p.take? v = some a) :
    v = p.toValue a := by
  cases p with
  | any =>
      cases h
      rfl
  | of kind => cases kind <;> cases v <;> cases h <;> rfl

theorem eq_map_toValue {p : Param} {vs : List Value} {as : List p.Carrier}
    (h : vs.mapM p.take? = some as) : vs = as.map p.toValue := by
  induction vs generalizing as with
  | nil =>
      cases h
      rfl
  | cons v vs ih =>
      rw [List.mapM_cons] at h
      obtain ⟨a, ha, h⟩ := Option.bind_eq_some_iff.1 h
      obtain ⟨as', has, h⟩ := Option.bind_eq_some_iff.1 h
      cases h
      rw [List.map_cons, ← ih has, eq_toValue ha]

end Param

namespace RuleOn

variable {β : Type}

/-- Whether a relation of arguments and results holds for all that a rule gets. -/
def Holds : (ps : List Param) → (List Value → β → Prop) → RuleOn ps β → Prop
  | [], P, result => P [] result
  | p :: ps, P, rule => ∀ a : p.Carrier, Holds ps (fun args => P (p.toValue a :: args)) (rule a)

theorem Holds.of_feed? {ps : List Param} {P : List Value → β → Prop} {rule : RuleOn ps β}
    (h : Holds ps P rule) {args rest : List Value} {result : β}
    (fed : feed? ps rule args = some (result, rest)) :
    ∃ front, args = front ++ rest ∧ P front result := by
  induction ps generalizing args P with
  | nil =>
      cases fed
      exact ⟨[], rfl, h⟩
  | cons p ps ih =>
      cases args with
      | nil => cases fed
      | cons v args =>
          obtain ⟨a, ha, hfed⟩ := Option.bind_eq_some_iff.1 fed
          obtain ⟨front, rfl, hfront⟩ := ih (h a) hfed
          exact ⟨p.toValue a :: front, by rw [Param.eq_toValue ha]; rfl, hfront⟩

end RuleOn

namespace Catalog

open Attempt (of demand minus next bind_of mapM_of foldlM_of)

/-- Whether an operation fails, if it does, by its name. -/
def FailsAs {α : Type} (name : String) (answer : Except DispatchError α) : Prop :=
  ∀ e, answer = .error e → ∃ reason, e = .failed name reason

/-- Whether an operation on lists of arguments has the parameters of a signature and does what its rule
does, failing by a name only. -/
structure Implements (name : String) (s : Signature) (op : Untyped) : Prop where
  accepts : ∀ args, op.accepts args = s.accepts args
  run : ∀ {args answer}, s.answer? args = some answer → op.run args = of answer
  fails : ∀ {args answer}, s.answer? args = some answer → FailsAs name answer

namespace Untyped

theorem acceptsEach_any (params : List Param) (args : List Value) :
    Signature.acceptsEach .any params args = (decide (params.length ≤ args.length)
      && (params.zip args).all fun each => each.1.accepts each.2) := by
  induction params generalizing args with
  | nil => simp [Signature.acceptsEach, Param.accepts]
  | cons p params ih =>
      cases args with
      | nil => rfl
      | cons v args =>
          simp [Signature.acceptsEach, ih, Bool.and_left_comm]

theorem accepts_fixed (params : List Param) (run : List Value → Attempt DispatchError Value)
    (rule : RuleOn params (Except DispatchError Value)) (args : List Value) :
    (fixed params run).accepts args = (Signature.fixed params rule).accepts args := by
  unfold accepts Signature.accepts fixed
  dsimp only
  rw [acceptsEach_any, if_neg Bool.false_ne_true]
  by_cases h : args.length = params.length
  · rw [decide_eq_true (Nat.le_of_eq h.symm), Bool.true_and]
  · rw [beq_false_of_ne h, Bool.false_and, Bool.false_and]

theorem accepts_variadic (params : List Param) (last : Param)
    (run : List Value → Attempt DispatchError Value)
    (rule : RuleOn params (last.Carrier → List last.Carrier → Except DispatchError Value))
    (args : List Value) :
    (variadic (params ++ [last]) run).accepts args
      = (Signature.variadic params last rule).accepts args := by
  unfold accepts Signature.accepts variadic
  dsimp only
  rw [if_pos rfl, List.getLast?_concat, List.dropLast_concat, Signature.acceptsEach_eq, acceptsEach_any,
    List.length_append, List.length_singleton]
  dsimp only
  by_cases h : params.length < args.length
  · rw [decide_eq_true h, decide_eq_true (Nat.succ_le_of_lt h), decide_eq_true (Nat.le_of_lt h),
      Bool.true_and, Bool.true_and]
  · rw [decide_eq_false h, decide_eq_false (mt Nat.lt_of_succ_le h), Bool.false_and, Bool.false_and,
      Bool.false_and]

end Untyped

/-- What an operation does is told for what its rule gets. -/
theorem Implements.fixed {name : String} {params : List Param}
    {rule : RuleOn params (Except DispatchError Value)}
    {run : List Value → Attempt DispatchError Value}
    (h : RuleOn.Holds params (fun args answer => run args = of answer ∧ FailsAs name answer) rule) :
    Implements name (.fixed params rule) (.fixed params run) := by
  have told : ∀ {args answer}, (Signature.fixed params rule).answer? args = some answer →
      run args = of answer ∧ FailsAs name answer := by
    intro args answer hanswer
    unfold Signature.answer? at hanswer
    dsimp only at hanswer
    split at hanswer
    · rename_i result hfed
      cases hanswer
      obtain ⟨front, rfl, hfront⟩ := h.of_feed? hfed
      rwa [List.append_nil]
    · cases hanswer
  exact ⟨Untyped.accepts_fixed params run rule, fun hanswer => (told hanswer).1,
    fun hanswer => (told hanswer).2⟩

theorem Implements.variadic {name : String} {params : List Param} {last : Param}
    {rule : RuleOn params (last.Carrier → List last.Carrier → Except DispatchError Value)}
    {run : List Value → Attempt DispatchError Value}
    (h : RuleOn.Holds params (fun args rule => ∀ a as,
      run (args ++ (a :: as).map last.toValue) = of (rule a as) ∧ FailsAs name (rule a as)) rule) :
    Implements name (.variadic params last rule) (.variadic (params ++ [last]) run) := by
  have told : ∀ {args answer}, (Signature.variadic params last rule).answer? args = some answer →
      run args = of answer ∧ FailsAs name answer := by
    intro args answer hanswer
    unfold Signature.answer? at hanswer
    dsimp only at hanswer
    split at hanswer
    · rename_i rule more hfed
      split at hanswer
      · rename_i a as hmore
        cases hanswer
        obtain ⟨front, rfl, hfront⟩ := h.of_feed? hfed
        rw [Param.eq_map_toValue hmore]
        exact hfront a as
      · cases hanswer
    · cases hanswer
  exact ⟨Untyped.accepts_variadic params last run rule, fun hanswer => (told hanswer).1,
    fun hanswer => (told hanswer).2⟩

/-! ### Failures -/

section Failures

variable {α β : Type} {name : String}

theorem FailsAs.ok (a : α) : FailsAs name (.ok a) := by
  rintro _ ⟨⟩

theorem FailsAs.failed (reason : String) : FailsAs name (.error (.failed name reason) : Except _ α) := by
  rintro _ ⟨⟩
  exact ⟨reason, rfl⟩

theorem FailsAs.bind {x : Except DispatchError α} {f : α → Except DispatchError β} (hx : FailsAs name x)
    (hf : ∀ a, FailsAs name (f a)) : FailsAs name (x >>= f) := by
  cases x with
  | error e =>
      rintro _ ⟨⟩
      exact hx e rfl
  | ok a => exact hf a

theorem failsAs_word (x : Float) : FailsAs name (word name x) := by
  unfold word
  split
  · exact .ok _
  · exact .failed _

theorem failsAs_condition (v : Value) : FailsAs name (condition name v) := by
  unfold condition
  split
  · exact .ok _
  · exact .failed _

theorem failsAs_factorial (x : Float) : FailsAs "factorial" (factorial x) := by
  unfold factorial
  split
  · exact .failed _
  · exact .ok _

theorem failsAs_range (start stop step : Float) : FailsAs "range" (range start stop step) := by
  unfold range
  split
  · exact .ok _
  · exact .failed _

theorem failsAs_subset (result : Except SelectionError Value) : FailsAs "subset" (subset result) := by
  cases result with
  | error e => exact .failed _
  | ok v => exact .ok v

end Failures

/-! ### The table -/

section Table

variable {name : String}

theorem implements_onNumber (f : Float → Float) : Implements name (onNumber f) (.onNumber f) :=
  .fixed fun _ => ⟨rfl, .ok _⟩

theorem implements_onNumbers (f : Float → Float → Float) :
    Implements name (onNumbers f) (.onNumbers f) :=
  .fixed fun _ _ => ⟨rfl, .ok _⟩

theorem implements_comparison (holds : Float → Float → Bool) :
    Implements name (comparison holds) (.comparison holds) :=
  .fixed fun _ _ => ⟨rfl, .ok _⟩

theorem implements_onWords (name : String) (f : Int64 → Int64 → Int64) :
    Implements name (onWords name f).2 (Untyped.onWords name f).2 := by
  refine .fixed fun (x y : Float) => ⟨?_, ?_⟩
  · exact bind_of fun _ _ => bind_of fun _ _ => rfl
  · exact (failsAs_word x).bind fun _ => (failsAs_word y).bind fun _ => .ok _

theorem implements_onConditions (name : String) (decisive : Bool) :
    Implements name (onConditions name decisive).2 (Untyped.onConditions name decisive).2 := by
  refine .fixed fun (a b : Value) => ⟨?_, ?_⟩
  · show (of (condition name a) >>= fun first => if first == decisive then
      pure (Value.bool decisive) else of (condition name b) >>= fun second => pure (Value.bool second)) = _
    refine bind_of fun first _ => ?_
    split
    · rfl
    · exact bind_of fun _ _ => rfl
  · refine (failsAs_condition a).bind fun first => ?_
    split
    · exact .ok _
    · exact (failsAs_condition b).bind fun _ => .ok _

/-- Whether two tables have operations of the same names in the same order, which do the same. -/
abbrev Realizes (signatures : List (String × Signature)) (operations : List (String × Untyped)) : Prop :=
  List.Forall₂ (fun s op => s.1 = op.1 ∧ Implements s.1 s.2 op.2) signatures operations

theorem realizes_arithmetic : Realizes arithmetic Untyped.arithmetic := by
  refine .cons ⟨rfl, implements_onNumbers _⟩ <| .cons ⟨rfl, implements_onNumbers _⟩ <|
    .cons ⟨rfl, implements_onNumbers _⟩ <| .cons ⟨rfl, implements_onNumbers _⟩ <|
    .cons ⟨rfl, implements_onNumbers _⟩ <| .cons ⟨rfl, implements_onNumbers _⟩ <|
    .cons ⟨rfl, implements_onNumbers _⟩ <| .cons ⟨rfl, implements_onNumbers _⟩ <|
    .cons ⟨rfl, implements_onNumbers _⟩ <| .cons ⟨rfl, implements_onNumber _⟩ <|
    .cons ⟨rfl, implements_onNumber _⟩ <| .cons ⟨rfl, ?_⟩ .nil
  exact .fixed fun (x : Float) => ⟨rfl, failsAs_factorial x⟩

theorem realizes_strings : Realizes strings Untyped.strings := by
  refine .cons ⟨rfl, ?_⟩ <| .cons ⟨rfl, ?_⟩ .nil
  · exact .fixed fun (a b : String) => ⟨rfl, .ok _⟩
  · refine .fixed fun (b : Bool) => ⟨?_, .ok _⟩
    cases b <;> rfl

theorem realizes_equality : Realizes equality Untyped.equality := by
  refine .cons ⟨rfl, ?_⟩ <| .cons ⟨rfl, ?_⟩ .nil
  · exact .fixed fun (a b : Value) => ⟨rfl, .ok _⟩
  · exact .fixed fun (a b : Value) => ⟨rfl, .ok _⟩

theorem realizes_orderings : Realizes orderings Untyped.orderings :=
  .cons ⟨rfl, implements_comparison _⟩ <| .cons ⟨rfl, implements_comparison _⟩ <|
    .cons ⟨rfl, implements_comparison _⟩ <| .cons ⟨rfl, implements_comparison _⟩ .nil

theorem realizes_logic : Realizes logic Untyped.logic := by
  refine .cons ⟨rfl, implements_onConditions _ _⟩ <| .cons ⟨rfl, implements_onConditions _ _⟩ <|
    .cons ⟨rfl, ?_⟩ <| .cons ⟨rfl, ?_⟩ .nil
  · refine .fixed fun (a b : Value) => ⟨?_, ?_⟩
    · exact bind_of fun _ _ => bind_of fun _ _ => rfl
    · exact (failsAs_condition a).bind fun _ => (failsAs_condition b).bind fun _ => .ok _
  · refine .fixed fun (a : Value) => ⟨?_, ?_⟩
    · exact bind_of fun _ _ => rfl
    · exact (failsAs_condition a).bind fun _ => .ok _

theorem realizes_bitwise : Realizes bitwise Untyped.bitwise := by
  refine .cons ⟨rfl, implements_onWords _ _⟩ <| .cons ⟨rfl, implements_onWords _ _⟩ <|
    .cons ⟨rfl, implements_onWords _ _⟩ <| .cons ⟨rfl, implements_onWords _ _⟩ <|
    .cons ⟨rfl, implements_onWords _ _⟩ <| .cons ⟨rfl, implements_onWords _ _⟩ <|
    .cons ⟨rfl, ?_⟩ .nil
  refine .fixed fun (x : Float) => ⟨rfl, ?_⟩
  exact (failsAs_word x).bind fun _ => .ok _

theorem filterMap_content?_number (xs : List Float) :
    (xs.map Value.number).filterMap (Param.content? .number) = xs := by
  rw [List.filterMap_map]
  exact List.filterMap_some

theorem implements_folding (f : Float → Float → Float) (first : Float) :
    Implements name (.variadic [] number fun (x : Float) (xs : List Float) =>
      .ok (.number ((x :: xs).foldl f first)))
    (.variadic [number] fun args =>
      return .number ((args.filterMap (Param.content? .number)).foldl f first)) := by
  refine .variadic fun (x : Float) (xs : List Float) => ⟨?_, .ok _⟩
  show pure (Value.number (((((x :: xs).map Value.number).filterMap _).foldl f first))) = _
  rw [filterMap_content?_number]
  rfl

theorem realizes_elementary : Realizes elementary Untyped.elementary :=
  .cons ⟨rfl, implements_onNumber _⟩ <| .cons ⟨rfl, implements_onNumber _⟩ <|
    .cons ⟨rfl, implements_onNumber _⟩ <| .cons ⟨rfl, implements_onNumber _⟩ <|
    .cons ⟨rfl, implements_onNumber _⟩ <| .cons ⟨rfl, implements_onNumber _⟩ <|
    .cons ⟨rfl, implements_onNumber _⟩ <| .cons ⟨rfl, implements_onNumber _⟩ <|
    .cons ⟨rfl, implements_onNumber _⟩ <| .cons ⟨rfl, implements_onNumber _⟩ <|
    .cons ⟨rfl, implements_onNumber _⟩ <| .cons ⟨rfl, implements_onNumbers _⟩ <|
    .cons ⟨rfl, implements_onNumbers _⟩ <| .cons ⟨rfl, implements_folding _ _⟩ <|
    .cons ⟨rfl, implements_folding _ _⟩ .nil

theorem realizes_inspection : Realizes inspection Untyped.inspection := by
  refine .cons ⟨rfl, ?_⟩ .nil
  exact .fixed fun (a : Value) => ⟨rfl, .ok _⟩

/-- Reading or replacing a part, if all that an index selects is within the range of words. -/
theorem subset_eq {dimensions : List Value} {f : List Selection → Attempt SelectionError Value}
    {g : List Selection → Except SelectionError Value}
    (h : ∀ sels, (∀ s ∈ sels, Untyped.IsCounted s) → f sels = of (g sels)) :
    Untyped.subset (Untyped.selections (.index dimensions) >>= f)
      = of (subset (Selection.ofDimensions dimensions >>= g)) := by
  rw [Untyped.selections_eq,
    bind_of fun sels hsels => h sels (Untyped.isCounted_of_ofDimensions hsels)]
  cases Selection.ofDimensions dimensions >>= g <;> rfl

theorem realizes_collections : Realizes collections Untyped.collections := by
  refine .cons ⟨rfl, ?_⟩ <| .cons ⟨rfl, ?_⟩ <| .cons ⟨rfl, ?_⟩ <| .cons ⟨rfl, ?_⟩ <|
    .cons ⟨rfl, ?_⟩ <| .cons ⟨rfl, ?_⟩ <| .cons ⟨rfl, ?_⟩ <| .cons ⟨rfl, ?_⟩ <|
    .cons ⟨rfl, ?_⟩ <| .cons ⟨rfl, ?_⟩ <| .cons ⟨rfl, ?_⟩ <| .cons ⟨rfl, ?_⟩ .nil
  · exact .fixed fun (x y z : Float) => ⟨rfl, failsAs_range x y z⟩
  · exact .fixed fun (x y : Float) => ⟨rfl, failsAs_range x y 1.0⟩
  · exact .fixed fun (v : Value) => ⟨rfl, .ok _⟩
  · exact .fixed ⟨rfl, .ok _⟩
  · refine .variadic fun (v : Value) (vs : List Value) => ⟨?_, .ok _⟩
    exact congrArg (fun vs => of (.ok (Value.index vs))) (List.map_id (v :: vs))
  · exact .fixed ⟨rfl, .ok _⟩
  · exact .fixed fun (items : List Value) => ⟨rfl, .ok _⟩
  · exact .fixed fun (x : Float) => ⟨rfl, .ok _⟩
  · refine .fixed fun (items : List Value) => ⟨Untyped.transpose_eq items, ?_⟩
    split
    · exact .ok _
    · exact .failed _
  · refine .fixed fun (items dimensions : List Value) => ⟨?_, failsAs_subset _⟩
    exact subset_eq fun sels hsels => Untyped.get_eq hsels _
  · refine .fixed fun (s : String) (dimensions : List Value) => ⟨?_, failsAs_subset _⟩
    refine subset_eq fun sels hsels => ?_
    show (Untyped.getChars sels s >>= fun chars => pure (Value.string chars)) = _
    rw [Untyped.getChars_eq hsels]
    exact bind_of fun _ _ => rfl
  · refine .fixed fun (items dimensions : List Value) (new : Value) => ⟨?_, failsAs_subset _⟩
    exact subset_eq fun sels hsels => Untyped.set_eq hsels new _

end Table

/-! ### Calls -/

/-- The signatures of a name are those that were defined for it, in the order of their definitions. -/
theorem get?_foldl_define (entries : List (String × Signature)) (name : String) (c : Catalog)
    (previous : List Signature)
    (h : c.operations.get? name = if previous = [] then none else some previous) :
    (entries.foldl (fun c (name, signature) => c.define name signature) c).operations.get? name
      = if previous ++ named entries name = [] then none else some (previous ++ named entries name) := by
  induction entries generalizing c previous with
  | nil => rw [named, List.filter_nil, List.map_nil, List.append_nil, List.foldl_nil, h]
  | cons entry entries ih =>
      obtain ⟨other, signature⟩ := entry
      by_cases hname : other = name
      · subst hname
        have hnamed : named ((other, signature) :: entries) other = signature :: named entries other := by
          simp [named]
        have hget : (c.define other signature).operations.get? other = some (previous ++ [signature]) := by
          rw [define, Record.get?_set_self, h]
          by_cases hprevious : previous = [] <;> simp [hprevious]
        rw [List.foldl_cons, ih _ (previous ++ [signature]) (by rw [hget]; simp), hnamed]
        simp
      · have hnamed : named ((other, signature) :: entries) name = named entries name := by
          simp [named, hname]
        have hget : (c.define other signature).operations.get? name = c.operations.get? name := by
          rw [define, Record.get?_set_of_ne (Ne.symm hname)]
        rw [List.foldl_cons, ih _ previous (by rw [hget, h]), hnamed]

theorem operations_foldl_defineConstant (constants : List (String × Value)) (c : Catalog) :
    (constants.foldl (fun c (name, value) => c.defineConstant name value) c).operations
      = c.operations := by
  induction constants generalizing c with
  | nil => rfl
  | cons constant constants ih => exact ih _

theorem get?_ofLists (entries : List (String × Signature)) (constants : List (String × Value))
    (name : String) : (ofLists entries constants).operations.get? name
      = if named entries name = [] then none else some (named entries name) := by
  rw [ofLists, operations_foldl_defineConstant, get?_foldl_define entries name {} [] rfl, List.nil_append]

/-- How a call is answered by the signatures that there are for its name. -/
inductive Answers (signatures : List Signature) (name : String) (args : List Value) :
    Except DispatchError Value → Prop
  | unknown (undefined : signatures = []) : Answers signatures name args (.error (.unknownOperation name))
  | unmatched (defined : signatures ≠ []) (refused : ∀ s ∈ signatures, s.accepts args = false) :
      Answers signatures name args (.error (.noMatchingSignature name (args.map Value.kind)))
  | first {before after : List Signature} {s : Signature} {answer : Except DispatchError Value}
      (split : signatures = before ++ s :: after) (refused : ∀ s ∈ before, s.accepts args = false)
      (accepted : s.accepts args = true) (answered : s.answer? args = some answer) :
      Answers signatures name args answer

theorem answer?_eq_none {s : Signature} {args : List Value} :
    s.answer? args = none ↔ s.accepts args = false := by
  rw [← Signature.isSome_answer?, Option.isSome_eq_false_iff, Option.isNone_iff_eq_none]

/-- A call is answered by the earliest signature that accepts the arguments. -/
theorem answers_call (entries : List (String × Signature)) (constants : List (String × Value))
    (name : String) (args : List Value) :
    Answers (named entries name) name args ((ofLists entries constants).call name args) := by
  unfold call
  rw [get?_ofLists]
  by_cases hnone : named entries name = []
  · rw [if_pos hnone]
    exact .unknown hnone
  · rw [if_neg hnone]
    dsimp only
    cases hfound : (named entries name).findSome? (·.answer? args) with
    | none =>
        rw [List.findSome?_eq_none_iff] at hfound
        exact .unmatched hnone fun s hs => answer?_eq_none.1 (hfound s hs)
    | some answer =>
        obtain ⟨before, s, after, hsplit, hanswer, hbefore⟩ := List.findSome?_eq_some_iff.1 hfound
        refine .first hsplit (fun s hs => answer?_eq_none.1 (hbefore s hs)) ?_ hanswer
        rw [← Signature.isSome_answer?, hanswer, Option.isSome_some]

theorem forall₂_named {signatures : List (String × Signature)} {operations : List (String × Untyped)}
    (h : Realizes signatures operations) (name : String) :
    List.Forall₂ (Implements name) (named signatures name) (named operations name) := by
  induction h with
  | nil => exact .nil
  | @cons s op signatures operations hs _ ih =>
      obtain ⟨hname, himplements⟩ := hs
      unfold named at ih ⊢
      rw [List.filter_cons, List.filter_cons, ← hname]
      by_cases hs : (s.1 == name) = true
      · rw [if_pos hs, if_pos hs]
        exact .cons (eq_of_beq hs ▸ himplements) ih
      · rw [if_neg hs, if_neg hs]
        exact ih

/-- The first operation whose parameters accept the arguments does what the first signature that
accepts them answers. -/
theorem run_eq {name : String} {signatures : List Signature} {operations : List Untyped}
    (h : List.Forall₂ (Implements name) signatures operations) (args : List Value) (e : DispatchError) :
    (match operations.find? (·.accepts args) with
      | none => throw e
      | some op => op.run args) = of (match signatures.findSome? (·.answer? args) with
        | none => .error e
        | some answer => answer) := by
  induction h with
  | nil => rfl
  | @cons s op signatures operations himplements _ ih =>
      have haccepts := himplements.accepts args
      rw [List.find?_cons, List.findSome?_cons, haccepts, ← Signature.isSome_answer?]
      cases hanswer : s.answer? args with
      | none => exact ih
      | some answer => exact himplements.run hanswer

/-- Operations on lists of arguments that implement signatures answer a call as those do. -/
theorem Untyped.call_eq {signatures : List (String × Signature)} {operations : List (String × Untyped)}
    (h : Realizes signatures operations) (constants : List (String × Value)) (name : String)
    (args : List Value) :
    Untyped.call operations name args = of ((ofLists signatures constants).call name args) := by
  have hnamed := forall₂_named h name
  unfold Untyped.call Catalog.call
  rw [get?_ofLists]
  generalize named signatures name = candidates at hnamed
  generalize named operations name = candidates' at hnamed
  cases hnamed with
  | nil => rfl
  | cons hs hrest =>
      rw [if_neg (List.cons_ne_nil _ _)]
      exact run_eq (.cons hs hrest) args _

/-- The signatures of the standard catalog. -/
def signatures : List (String × Signature) :=
  arithmetic ++ strings ++ equality ++ orderings ++ logic ++ bitwise ++ elementary ++ inspection
    ++ collections

theorem realizes_signatures : Realizes signatures Untyped.standard := by
  have append {ss ss' : List (String × Signature)} {ops ops' : List (String × Untyped)}
      (h : Realizes ss ops) (h' : Realizes ss' ops') : Realizes (ss ++ ss') (ops ++ ops') :=
    List.rel_append h h'
  exact append (append (append (append (append (append (append (append realizes_arithmetic
    realizes_strings) realizes_equality) realizes_orderings) realizes_logic) realizes_bitwise)
    realizes_elementary) realizes_inspection) realizes_collections

/-- What the signatures of a name answer fails by the name only. -/
theorem failsAs_answer? {signatures : List (String × Signature)} {operations : List (String × Untyped)}
    (h : Realizes signatures operations) {name : String} {s : Signature} (hs : s ∈ named signatures name)
    {args : List Value} {answer : Except DispatchError Value} (answered : s.answer? args = some answer) :
    FailsAs name answer := by
  have hnamed := forall₂_named h name
  generalize named signatures name = candidates at hnamed hs
  generalize named operations name = candidates' at hnamed
  induction hnamed with
  | nil => cases hs
  | cons himplements _ ih =>
      rcases List.mem_cons.1 hs with rfl | hs
      · exact himplements.fails answered
      · exact ih hs

/-- A call of a standard operation does not break off: taking the arguments apart, reading rows and
items, and counting positions are within range. It is answered by the earliest signature of its name
that accepts the arguments, and fails for an unknown name, if no signature accepts them, or by its
name. -/
theorem standard_call_answers (name : String) (args : List Value) :
    Untyped.call Untyped.standard name args = of (standard.call name args) ∧
      Answers (named signatures name) name args (standard.call name args) ∧
      ∀ e, standard.call name args = .error e → e = .unknownOperation name ∧ named signatures name = [] ∨
        e = .noMatchingSignature name (args.map Value.kind) ∧
          (∀ s ∈ named signatures name, s.accepts args = false) ∨ ∃ reason, e = .failed name reason := by
  have hanswers : Answers (named signatures name) name args (standard.call name args) :=
    answers_call signatures numbers name args
  refine ⟨Untyped.call_eq realizes_signatures numbers name args, hanswers, fun e he => ?_⟩
  rw [he] at hanswers
  cases hanswers with
  | unknown hnone => exact .inl ⟨rfl, hnone⟩
  | unmatched _ hrefused => exact .inr (.inl ⟨rfl, hrefused⟩)
  | @first before after s _ hsplit _ _ hanswered =>
      have hs : s ∈ named signatures name := by
        rw [hsplit]
        exact List.mem_append_right _ List.mem_cons_self
      exact .inr (.inr (failsAs_answer? realizes_signatures hs hanswered e rfl))

end Catalog

end Formula
