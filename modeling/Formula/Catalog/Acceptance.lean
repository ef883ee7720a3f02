import Formula.Catalog

/-!
Which arguments a signature accepts, said without its rule.

A signature has an answer for exactly the arguments that it accepts (`Signature.isSome_answer?`), so
whether a call finds a signature depends on the kinds of the arguments alone.
-/

namespace Formula.Signature

/-- Whether each argument is accepted by its parameter, and by the last one once there are no more
parameters. -/
def acceptsEach (last : Param) : List Param → List Value → Bool
  | [], args => args.all last.accepts
  | _ :: _, [] => false
  | p :: ps, v :: args => p.accepts v && acceptsEach last ps args

/-- Whether a signature accepts arguments. -/
def accepts : Signature → List Value → Bool
  | .fixed params _, args => args.length == params.length && acceptsEach .any params args
  | .variadic params last _, args =>
    decide (params.length < args.length) && acceptsEach last params args
  | .anything _, _ => true

/-- A rule takes an argument for each parameter if each is accepted, and leaves the others. -/
theorem feed?_of_accepts {β : Type} {params : List Param} (rule : RuleOn params β)
    {args : List Value} (enough : params.length ≤ args.length)
    (accepted : acceptsEach .any params args = true) :
    ∃ result, RuleOn.feed? params rule args = some (result, args.drop params.length) := by
  induction params generalizing args with
  | nil => exact ⟨rule, rfl⟩
  | cons p ps ih =>
    cases args with
    | nil => simp at enough
    | cons v args =>
      rw [acceptsEach, Bool.and_eq_true, ← Param.isSome_take?, Option.isSome_iff_exists] at accepted
      obtain ⟨⟨a, taken⟩, others⟩ := accepted
      rw [RuleOn.feed?, taken]
      exact ih (rule a) (by simpa using enough) others

/-- A rule takes no arguments if there are too few or one is refused. -/
theorem feed?_of_refuses {β : Type} {params : List Param} (rule : RuleOn params β)
    {args : List Value}
    (refused : ¬(params.length ≤ args.length ∧ acceptsEach .any params args = true)) :
    RuleOn.feed? params rule args = none := by
  induction params generalizing args with
  | nil => simp [acceptsEach, Param.accepts] at refused
  | cons p ps ih =>
    cases args with
    | nil => rfl
    | cons v args =>
      rw [RuleOn.feed?]
      cases taken : p.take? v with
      | none => rfl
      | some a =>
        refine ih (rule a) fun h => refused ⟨by simpa using h.1, ?_⟩
        rw [acceptsEach, h.2, ← Param.isSome_take?, taken]
        rfl

/-- The last parameter is for what the others leave. -/
theorem acceptsEach_eq (last : Param) (params : List Param) (args : List Value) :
    acceptsEach last params args =
      (acceptsEach .any params args && (args.drop params.length).all last.accepts) := by
  induction params generalizing args with
  | nil => simp [acceptsEach, Param.accepts]
  | cons p ps ih =>
    cases args with
    | nil => rfl
    | cons v args => simp [acceptsEach, ih args, Bool.and_assoc]

/-- All arguments are taken if each is accepted. -/
theorem isSome_mapM_take? (p : Param) (args : List Value) :
    (args.mapM p.take?).isSome = args.all p.accepts := by
  induction args with
  | nil => rfl
  | cons v args ih =>
    rw [List.mapM_cons, List.all_cons, ← ih, ← Param.isSome_take?]
    cases p.take? v <;> cases args.mapM p.take? <;> rfl

/-- A signature has an answer for the arguments that it accepts, and for no others. -/
@[simp] theorem isSome_answer? (s : Signature) (args : List Value) :
    (s.answer? args).isSome = s.accepts args := by
  cases s with
  | anything rule => rfl
  | fixed params rule =>
    rw [answer?, accepts]
    by_cases h : params.length ≤ args.length ∧ acceptsEach .any params args = true
    · obtain ⟨result, fed⟩ := feed?_of_accepts rule h.1 h.2
      rw [fed, h.2, Bool.and_true]
      cases left : args.drop params.length with
      | nil =>
        have : args.length = params.length :=
          Nat.le_antisymm (List.drop_eq_nil_iff.1 left) h.1
        simp [this]
      | cons v left =>
        have : args.length ≠ params.length := by
          intro same
          simp [← same] at left
        simp [this]
    · rw [feed?_of_refuses rule h]
      grind
  | variadic params last rule =>
    rw [answer?, accepts, acceptsEach_eq]
    by_cases h : params.length ≤ args.length ∧ acceptsEach .any params args = true
    · obtain ⟨result, fed⟩ := feed?_of_accepts rule h.1 h.2
      have more := isSome_mapM_take? last (args.drop params.length)
      rw [fed, h.2, Bool.true_and, ← more]
      have longer : (args.drop params.length).length = args.length - params.length :=
        List.length_drop
      cases left : args.drop params.length with
      | nil =>
        have : ¬params.length < args.length := by
          rw [left, List.length_nil] at longer
          omega
        simp [this]
      | cons v others =>
        have : params.length < args.length := by
          rw [left, List.length_cons] at longer
          omega
        simp only [this, decide_true, Bool.true_and, List.mapM_cons]
        cases last.take? v <;> cases others.mapM last.take? <;> rfl
    · rw [feed?_of_refuses rule h]
      grind

end Formula.Signature
