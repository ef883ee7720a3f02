import Formula.Proofs.Grammar.Boundary

/-!
What the level of a legible expression says about its form.
-/

namespace Formula

namespace Expr

open Grammar (isNumeral endsLikeNumber ofName assign)

@[simp] theorem level_prefixed {f : Bool} {spelling : String} {op : Operator} {e : Expr}
    (h : Operator.leading? spelling = some op) :
    (Expr.operation spelling op.name [e] false).level f = 15 := by
  have := Operator.level_of_leading h
  cases op <;> simp_all [level]

@[simp] theorem level_postfixed {f : Bool} {spelling : String} {op : Operator} {e : Expr}
    (h : Operator.trailing? spelling = some op) :
    (Expr.operation spelling op.name [e] false).level f = 17 := by
  have := Operator.level_of_trailing h
  cases op <;> simp_all [level]

/-- A binary operation is as tight as its operator, unless it is a fraction with a factor behind it. -/
theorem level_binary {f : Bool} {spelling : String} {op : Operator} {left right : Expr} :
    (Expr.operation spelling op.name [left, right] false).level f
      = if op = .divide ∧ f = true ∧ isFraction left right = true then 14 else op.level := by
  cases op <;> simp [level, Operator.level, Operator.precedence]

theorem level_juxtapose {f : Bool} {left right : Expr} : (juxtapose left right).level f = 13 :=
  rfl

theorem level_ofName (f : Bool) (name : String) : (ofName name).level f = 17 := by
  unfold ofName
  repeat' split
  all_goals rfl

theorem eq_of_checked_eq_ok {e e' : Expr}
    (h : e.checked.mapError SyntaxFault.shape = .ok e') : e' = e := by
  unfold Expr.checked at h
  cases hcheck : e.check with
  | error fault =>
      rw [hcheck] at h
      cases h
  | ok u =>
      rw [hcheck] at h
      cases h
      rfl

theorem eq_map_of_paramNames? {args : List Expr} {params : List String}
    (h : Grammar.paramNames? args = some params) : args = params.map .symbol := by
  induction args generalizing params with
  | nil =>
      obtain rfl : params = [] := by simpa [Grammar.paramNames?] using h.symm
      rfl
  | cons a args ih =>
      rw [Grammar.paramNames?, List.mapM_cons] at h
      cases a with
      | symbol name =>
          obtain ⟨rest, hrest, rfl⟩ : ∃ rest, Grammar.paramNames? args = some rest ∧
              name :: rest = params := by
            simpa [Grammar.paramNames?, Option.bind_eq_some_iff] using h
          rw [ih hrest, List.map_cons]
      | _ => cases h

/-- What is assigned is an assignment or a definition, and tells what it is made of. -/
theorem assign_eq_ok {target value e : Expr} (h : assign target value = .ok e) :
    (∃ name, target = .symbol name ∧ e = .assignment target none value) ∨
      (∃ owner part, target = .access owner part ∧ e = .assignment owner (some part) value) ∨
      ∃ name params, target = .call (.symbol name) (params.map .symbol) ∧
        e = .definition name params value := by
  unfold assign at h
  split at h
  · exact .inl ⟨_, rfl, eq_of_checked_eq_ok h⟩
  · exact .inr (.inl ⟨_, _, rfl, eq_of_checked_eq_ok h⟩)
  · rename_i name args
    cases hparams : Grammar.paramNames? args with
    | none =>
        rw [hparams] at h
        cases h
    | some params =>
        rw [hparams] at h
        refine .inr (.inr ⟨name, params, ?_, eq_of_checked_eq_ok h⟩)
        rw [eq_map_of_paramNames? hparams]
  · cases h

theorem check_of_checked {e e' : Expr} (h : e.checked.mapError SyntaxFault.shape = .ok e') :
    e.check = .ok () := by
  unfold checked at h
  cases hcheck : e.check with
  | error fault =>
      rw [hcheck] at h
      cases h
  | ok u => rfl

theorem checked_of_check {e : Expr} (h : e.check = .ok ()) :
    e.checked.mapError SyntaxFault.shape = .ok e := by
  rw [checked, h]
  rfl

theorem paramNames?_map (params : List String) :
    Grammar.paramNames? (params.map .symbol) = some params := by
  induction params with
  | nil => rfl
  | cons name params ih =>
      rw [Grammar.paramNames?] at ih
      rw [Grammar.paramNames?, List.map_cons, List.mapM_cons, ih]
      rfl

/-- What can be assigned to: names, parts of what can be assigned to, and calls of names with names. -/
theorem assign_eq_ok_iff {target value e : Expr} : assign target value = .ok e ↔
    (∃ name, target = .symbol name ∧ checkTarget (.symbol name) = .ok () ∧
        e = .assignment (.symbol name) none value) ∨
      (∃ owner part, target = .access owner part ∧ checkTarget owner = .ok () ∧
        checkIndex .assignment part = .ok () ∧ e = .assignment owner (some part) value) ∨
      ∃ name params, target = .call (.symbol name) (params.map .symbol) ∧
        checkNames name params = .ok () ∧ e = .definition name params value := by
  constructor
  · intro h
    obtain ⟨name, rfl, rfl⟩ | ⟨owner, part, rfl, rfl⟩ | ⟨name, params, rfl, rfl⟩ := assign_eq_ok h
    · exact .inl ⟨name, rfl, check_of_checked h, rfl⟩
    · have hcheck : (checkTarget owner >>= fun _ => checkIndex .assignment part) = .ok () :=
        check_of_checked h
      cases howner : checkTarget owner with
      | error fault =>
          rw [howner] at hcheck
          cases hcheck
      | ok u =>
          rw [howner] at hcheck
          exact .inr (.inl ⟨owner, part, rfl, howner, hcheck, rfl⟩)
    · refine .inr (.inr ⟨name, params, rfl, ?_, rfl⟩)
      simp only [assign, paramNames?_map, Option.map_some] at h
      exact check_of_checked h
  · rintro (⟨name, rfl, hcheck, rfl⟩ | ⟨owner, part, rfl, howner, hpart, rfl⟩ | ⟨name, params, rfl, hcheck, rfl⟩)
    · exact checked_of_check hcheck
    · refine checked_of_check (e := .assignment owner (some part) value) ?_
      show (checkTarget owner >>= fun _ => checkIndex .assignment part) = .ok ()
      rw [howner]
      exact hpart
    · simp only [assign, paramNames?_map, Option.map_some]
      exact checked_of_check hcheck

theorem level_assigned {f : Bool} {target value e : Expr} (h : assign target value = .ok e) :
    e.level f = 0 := by
  obtain ⟨_, _, rfl⟩ | ⟨_, _, _, rfl⟩ | ⟨_, _, _, rfl⟩ := assign_eq_ok h <;> rfl

theorem lastFactor_assigned {target value e : Expr} (h : assign target value = .ok e) :
    e.lastFactor = value.lastFactor := by
  obtain ⟨_, _, rfl⟩ | ⟨_, _, _, rfl⟩ | ⟨_, _, _, rfl⟩ := assign_eq_ok h <;> rfl

theorem exposesColon_assigned {target value e : Expr} (h : assign target value = .ok e) :
    e.exposesColon = value.exposesColon := by
  obtain ⟨_, _, rfl⟩ | ⟨_, _, _, rfl⟩ | ⟨_, _, _, rfl⟩ := assign_eq_ok h <;> rfl

/-- An assignment can be told back from what it makes. -/
theorem assign_injective {target target' value value' e : Expr} (h : assign target value = .ok e)
    (h' : assign target' value' = .ok e) : target = target' ∧ value = value' := by
  obtain ⟨_, rfl, rfl⟩ | ⟨_, _, rfl, rfl⟩ | ⟨_, _, rfl, rfl⟩ := assign_eq_ok h <;>
    obtain ⟨_, rfl, he⟩ | ⟨_, _, rfl, he⟩ | ⟨_, _, rfl, he⟩ := assign_eq_ok h' <;> cases he <;>
    exact ⟨rfl, rfl⟩

section Tight

variable {f : Bool} {e : Expr}

/-- Only whether a quotient is a fraction depends on what follows. -/
theorem level_eq (h : 15 ≤ e.level f) (g : Bool) : e.level g = e.level f := by
  cases e with
  | operation spelling function operands juxtaposed =>
      simp only [level] at h ⊢
      split
      · rfl
      · rename_i hjuxtaposed
        rw [if_neg hjuxtaposed] at h
        split at h
      -- A quotient is not as tight as that.
        · split at h <;> omega
        · rfl
        · rfl
  | _ => rfl

theorem le_level_of_tight {k : Nat} (hk : 15 ≤ k) (h : k ≤ e.level f) (g : Bool) :
    k ≤ e.level g := by
  rw [level_eq (Nat.le_trans hk h)]
  exact h

/-- Up to products, what follows does not matter. -/
theorem le_level {k : Nat} (hk : k ≤ 12) (h : k ≤ e.level f) (g : Bool) : k ≤ e.level g := by
  cases e with
  | operation spelling function operands juxtaposed =>
      simp only [level] at h ⊢
      split
      · omega
      · rename_i hjuxtaposed
        rw [if_neg hjuxtaposed] at h
        split at h
        · split <;> omega
        · exact h
        · exact h
  | _ => exact h

theorem Legible.of_tight (h : Legible f e) (tight : 15 ≤ e.level f) (g : Bool) : Legible g e := by
  cases h with
  | number lexical literal => exact .number lexical literal
  | string value => exact .string value
  | name lexical he => exact .name lexical he
  | word hname infix_ => exact .word hname infix_
  | parenthesis h => exact .parenthesis h
  | array h => exact .array h
  | object h nodup => exact .object h nodup
  | call hcallee callable h => exact .call hcallee callable h
  | index howner level h => exact .index howner level h
  | property howner level lexical => exact .property howner level lexical
  | postfixed hop h level => exact .postfixed hop h level
  | power hspelling hop hleft leftLevel hright rightLevel =>
      exact .power hspelling hop hleft leftLevel hright rightLevel
  | prefixed hop h level => exact .prefixed hop h level
  | fraction hfraction hleft hright =>
      rw [level_binary] at tight
      simp [hfraction] at tight
  | juxtaposition => simp [level_juxtapose] at tight
  | binary hop weak hleft leftLevel hright rightLevel divides =>
      rw [level_binary] at tight
      split at tight <;> omega
  | comparison => simp [level] at tight
  | range => simp [level] at tight
  | steppedRange => simp [level] at tight
  | conditional => simp [level] at tight
  | assigned he => simp [level_assigned he] at tight

theorem exposesColon_of_level (h : 3 ≤ e.level f) : e.exposesColon = false := by
  cases e with
  | range | conditional | assignment | definition => simp [level] at h
  | _ => rfl

/-- What holds together as tightly as an operand is a factor of its own. -/
theorem lastFactor_eq_self (h : Legible f e) (tight : 15 ≤ e.level f) : e.lastFactor = e := by
  cases h with
  | name lexical he =>
      subst he
      unfold ofName
      repeat' split
      all_goals rfl
  | power hspelling hop =>
      rw [level_binary] at tight
      split at tight
      · omega
      · rw [lastFactor, if_neg]
        simp
        omega
  | fraction hfraction =>
      rw [level_binary] at tight
      simp [hfraction] at tight
  | juxtaposition => simp [level_juxtapose] at tight
  | binary hop weak =>
      rw [level_binary] at tight
      split at tight <;> omega
  | comparison => simp [level] at tight
  | range => simp [level] at tight
  | steppedRange => simp [level] at tight
  | conditional => simp [level] at tight
  | assigned he => simp [level_assigned he] at tight
  | _ => rfl

theorem lastFactor_binary {spelling : String} {op : Operator} {left right : Expr}
    (weak : op.level ≤ 12) :
    (Expr.operation spelling op.name [left, right] false).lastFactor = right.lastFactor := by
  rw [lastFactor, if_pos]
  simpa using weak

theorem lastFactor_comparison {functions : List String} {operands : List Expr} {last : Expr} :
    (Expr.comparison functions (operands ++ [last])).lastFactor = last.lastFactor := by
  have lastOf : ∀ default, lastFactor.lastOf default (operands ++ [last]) = last.lastFactor := by
    intro default
    induction operands with
    | nil => rfl
    | cons e operands ih =>
        cases operands with
        | nil => rfl
        | cons => exact ih
  exact lastOf _

/-- A numeral is a number with signs in front, so it is as tight as an operand. -/
theorem level_of_isNumeral (h : Legible f e) (hnumeral : isNumeral e = true) : 15 ≤ e.level f := by
  cases h with
  | prefixed hop => exact Nat.le_of_eq (level_prefixed hop).symm
  | postfixed hop =>
      rw [level_postfixed hop]
      decide
  | name lexical he =>
      rw [← he, level_ofName]
      decide
  | assigned he =>
      obtain ⟨_, _, rfl⟩ | ⟨_, _, _, rfl⟩ | ⟨_, _, _, rfl⟩ := assign_eq_ok he <;>
        simp [isNumeral] at hnumeral
  | _ => first | simp [isNumeral, juxtapose] at hnumeral; done | simp [level, number, string]

theorem level_of_callable {e : Expr} (h : e.form = .symbol ∨ e.form = .access) (f : Bool) :
    e.level f = 17 := by
  cases e <;> first | rfl | (rcases h with h | h <;> cases h)

/-- What is tighter than a range does not open with one. -/
theorem Legible.opensRange_eq_false {f : Bool} {e : Expr} (h : Legible f e) (level : 3 ≤ e.level f) :
    e.opensRange = false := by
  induction h with
  | name lexical he =>
      subst he
      unfold ofName
      repeat' split
      all_goals rfl
  | call hcallee callable h ih =>
      refine ih ?_
      rw [level_of_callable callable]
      decide
  | index _ hlevel _ ih => exact ih (by omega)
  | property _ hlevel _ ih => exact ih (by omega)
  | postfixed hop _ hlevel ih =>
      rw [opensRange, ih (by omega), Bool.and_false]
  | power _ _ _ hlevel _ _ ih => exact ih (by omega)
  | prefixed hop => simp [opensRange, hop]
  | fraction hfraction hleft _ ih _ =>
      obtain ⟨hnumeral, _⟩ := Bool.and_eq_true_iff.1 hfraction
      have := level_of_isNumeral hleft hnumeral
      exact ih (by omega)
  | juxtaposition _ hlevel _ _ _ _ ih => exact ih (by omega)
  | @binary _ _ op _ _ hop weak _ hlevel _ _ _ ih =>
      refine ih ?_
      obtain ⟨_, hop⟩ | ⟨_, _, hop, _⟩ := Operator.level_of_binary hop
      · omega
      · split at hlevel <;> omega
  | @comparison _ _ operands last _ _ _ h hlevels _ hlast ih ihlast =>
      cases operands with
      | nil => exact ihlast (by omega)
      | cons e operands =>
          exact ih e (List.mem_cons_self ..) (by have := hlevels e (List.mem_cons_self ..); omega)
  | range | steppedRange | conditional => simp [Expr.level] at level
  | assigned he => simp [level_assigned he] at level
  | _ => rfl

theorem Legible.endsCallable_eq_false {e : Expr} (legible : Legible false e)
    (tight : 17 ≤ e.level false) (h : e.form ≠ .symbol) (h' : e.form ≠ .access) : e.endsCallable = false := by
  cases legible with
  | postfixed hop => simp [endsCallable, Operator.leading?_of_trailing hop]
  | prefixed hop => simp [level_prefixed hop] at tight
  | power hspelling hop =>
      rw [level_binary] at tight
      obtain ⟨_, hlevel⟩ | ⟨_, _, _, hlevel⟩ := Operator.level_of_binary hop <;>
        split at tight <;> omega
  | binary hop weak =>
      rw [level_binary] at tight
      split at tight <;> omega
  | juxtaposition => simp [level_juxtapose] at tight
  | name lexical he =>
      subst he
      revert h
      unfold ofName
      repeat' split
      all_goals first | exact fun _ => rfl | exact fun h => absurd rfl h
  | word => exact absurd rfl h
  | index | property => exact absurd rfl h'
  | assigned he => simp [level_assigned he] at tight
  | _ => rfl

theorem lastFactor_of_isLiteral {e : Expr} (h : e.isLiteral = true) : e.lastFactor = e := by
  unfold isLiteral at h
  split at h
  · rfl
  · cases h

theorem endsLikeNumber_of_isLiteral {e : Expr} (h : e.isLiteral = true) :
    endsLikeNumber e = true := by
  unfold isLiteral at h
  split at h
  · rfl
  · cases h

/-- A quotient that is not taken apart by a fraction is no fraction. -/
theorem not_fraction {f : Bool} {op : Operator} {left right : Expr} (hleft : Legible false left)
    (divides : op = .divide → isNumeral left.lastFactor = true → right.opensProduct f = false) :
    ¬ (op = .divide ∧ f = true ∧ isFraction left right = true) := by
  rintro ⟨rfl, rfl, hfraction⟩
  obtain ⟨hnumeral, hliteral⟩ := Bool.and_eq_true_iff.1 hfraction
  have opens := divides rfl <| by
    rwa [lastFactor_eq_self hleft (level_of_isNumeral hleft hnumeral)]
  unfold isLiteral at hliteral
  split at hliteral
  · simp [opensProduct, isLiteral, hliteral] at opens
  · cases hliteral

/-- What is as tight as a product is an operand, a fraction in front of a factor, or a product. -/
theorem Legible.factor_cases (h : Legible f e) (tight : 13 ≤ e.level f) :
    15 ≤ e.level f ∨
      (f = true ∧ ∃ left right, e = .operation "/" Operator.divide.name [left, right] false ∧
        isFraction left right = true ∧ Legible false left ∧ Legible false right) ∨
      ∃ left right, e = .juxtapose left right ∧ Legible right.opening.isFactor left ∧
        13 ≤ left.level right.opening.isFactor ∧ Legible f right ∧ 14 ≤ right.level f ∧
        (right.opening.isFactor = true
          ∨ right.opening = .number ∧ endsLikeNumber left.lastFactor = false) ∧
        (right.opening = .parenthesis → left.endsCallable = false) := by
  cases h with
  | fraction hfraction hleft hright =>
      exact .inr (.inl ⟨rfl, _, _, rfl, hfraction, hleft, hright⟩)
  | juxtaposition hleft leftLevel hright rightLevel opens called =>
      exact .inr (.inr ⟨_, _, rfl, hleft, leftLevel, hright, rightLevel, opens, called⟩)
  | binary hop weak hleft leftLevel hright rightLevel divides =>
      rw [level_binary, if_neg (not_fraction hleft divides)] at tight
      omega
  | power hspelling hop =>
      left
      rw [level_binary] at tight ⊢
      split
      · rename_i h
        obtain ⟨rfl, _⟩ := h
        rcases hspelling with rfl | rfl <;> revert hop <;> decide
      · obtain ⟨_, hlevel⟩ | ⟨h, h', _⟩ := Operator.level_of_binary hop
        · omega
        · exact absurd hspelling (not_or.2 ⟨h, h'⟩)
  | prefixed hop => exact .inl (Nat.le_of_eq (level_prefixed hop).symm)
  | postfixed hop =>
      left
      rw [level_postfixed hop]
      decide
  | name lexical he =>
      left
      rw [← he, level_ofName]
      decide
  | assigned he => simp [level_assigned he] at tight
  | comparison | range | steppedRange | conditional => simp [level] at tight
  | _ => exact .inl (show 15 ≤ 17 by decide)

/-- What is as tight as a factor is an operand, or a fraction in front of a factor. -/
theorem Legible.operand_or_fraction (h : Legible f e) (tight : 14 ≤ e.level f) :
    15 ≤ e.level f ∨ f = true ∧ ∃ left right, e = .operation "/" Operator.divide.name [left, right] false ∧
      isFraction left right = true ∧ Legible false left ∧ Legible false right := by
  obtain h | h | ⟨_, _, rfl, _⟩ := h.factor_cases (Nat.le_trans (by decide) tight)
  · exact .inl h
  · exact .inr h
  · simp [level_juxtapose] at tight

end Tight

end Expr

namespace Grammar

open Expr (Legible)

/-! ### How spelled expressions open -/

theorem ofRows_eq_ok {position : Nat} {rows : List (List Expr)} {e : Expr}
    (h : ofRows position rows = .ok e) : ∃ es, e = .array es := by
  unfold ofRows at h
  split at h
  · cases h
    exact ⟨_, rfl⟩
  · dsimp only at h
    split at h
    · cases h
    · cases h
      exact ⟨_, rfl⟩

theorem legible_ofRows {position : Nat} {rows : List (List Expr)} {e : Expr}
    (h : ∀ row ∈ rows, ∀ e ∈ row, Legible false e) (he : ofRows position rows = .ok e) :
    Legible false e := by
  unfold ofRows at he
  split at he
  · cases he
    exact .array (h _ (by simp))
  · dsimp only at he
    split at he
    · cases he
    · cases he
      refine .array fun e he => ?_
      obtain ⟨row, hrow, rfl⟩ := List.mem_map.1 he
      exact .array (h row hrow)

theorem ofRows_eq_ok_iff {position : Nat} {rows : List (List Expr)} {e : Expr}
    (h : ofRows position rows = .ok e) (position' : Nat) : ofRows position' rows = .ok e := by
  unfold ofRows at h ⊢
  split at h
  · exact h
  · dsimp only at h ⊢
    split at h
    · cases h
    · exact h

theorem kind_ne_stop_of_key? {t : Token} {key : String} (h : key? t = .ok key) : t.kind ≠ .stop := by
  unfold key? at h
  split at h
  all_goals simp_all

theorem mem_or_of_mem_set {α : Type} {key : String} {value : α} {r : Record α} {p : String × α}
    (h : p ∈ Record.set key value r) : p ∈ r ∨ p.2 = value := by
  induction r with
  | nil =>
      obtain rfl := List.mem_singleton.1 h
      exact .inr rfl
  | cons entry r ih =>
      obtain ⟨k, v⟩ := entry
      rw [Record.set] at h
      split at h
      · rcases List.mem_cons.1 h with rfl | h
        · exact .inr rfl
        · exact .inl (List.mem_cons_of_mem _ h)
      · rcases List.mem_cons.1 h with rfl | h
        · exact .inl (List.mem_cons_self ..)
        · exact (ih h).imp_left (List.mem_cons_of_mem _)

theorem forall_snd_ofList {α : Type} {Q : α → Prop} {entries : List (String × α)}
    (h : ∀ p ∈ entries, Q p.2) : ∀ p ∈ Record.ofList entries, Q p.2 := by
  have fold : ∀ (back : List (String × α)) (front : Record α), (∀ p ∈ back, Q p.2) →
      (∀ p ∈ front, Q p.2) → ∀ p ∈ back.foldl (fun r entry => Record.set entry.1 entry.2 r) front,
        Q p.2 := by
    intro back
    induction back with
    | nil => exact fun _ _ h => h
    | cons entry back ih =>
        intro front hback hfront
        refine ih _ (fun p hp => hback p (List.mem_cons_of_mem _ hp)) fun p hp => ?_
        obtain hp | hp := mem_or_of_mem_set hp
        · exact hfront p hp
        · exact hp ▸ hback entry List.mem_cons_self
  exact fold entries [] h nofun

theorem nodup_keys_ofList {α : Type} (entries : List (String × α)) :
    (Record.keys (Record.ofList entries)).Nodup := by
  have nodup : ∀ r : Record α, (Record.keys r).Nodup →
      (Record.keys (entries.foldl (fun r entry => Record.set entry.1 entry.2 r) r)).Nodup := by
    induction entries with
    | nil => exact fun _ h => h
    | cons entry entries ih => exact fun r h => ih _ (Record.nodup_keys_set h _ _)
  exact nodup [] .nil

theorem opening_ofName {name : String} (h : Token.isIdentifier name = true) :
    (ofName name).opening = .name := by
  have hname : Token.namedOperators.contains name = false := by
    unfold Token.isIdentifier at h
    split at h
    · cases h
    · simp only [Bool.and_eq_true, Bool.not_eq_true'] at h
      exact h.2
  unfold ofName
  repeat' split
  all_goals first | rfl | simp_all [Expr.opening, Expr.number]

/-- A token that expressions can begin with. -/
structure Begins (t : Token) : Prop where
  line : t.kind ≠ .newline
  stop : t.kind ≠ .stop
  bracket : t.kind = .delimiter → t.text = "(" ∨ t.text = "[" ∨ t.text = "\x7b"

theorem begins_of_kind {t : Token} (line : t.kind ≠ .newline) (stop : t.kind ≠ .stop)
    (h : t.kind ≠ .delimiter) : Begins t :=
  ⟨line, stop, fun h' => absurd h' h⟩

theorem begins_of_isDelimiter {t : Token} {text : String} (h : t.isDelimiter text = true)
    (htext : text = "(" ∨ text = "[" ∨ text = "\x7b") : Begins t := by
  obtain ⟨hkind, rfl⟩ := isDelimiter_iff.1 h
  exact ⟨by simp [hkind], by simp [hkind], fun _ => htext⟩

/-- How tokens open an expression: a range without a start, which is a number then, opens with its `:`. -/
def Opens (tokens : List Token) (e : Expr) : Prop :=
  ∃ t tokens', tokens = t :: tokens' ∧ Begins t ∧
    (t.opening = e.opening ∧ t.isOperator ":" = false ∨
      t.isOperator ":" = true ∧ e.opensRange = true ∧ e.opening = .number)

theorem Opens.append {tokens : List Token} {e a : Expr} (h : Opens tokens e)
    (opening : a.opening = e.opening) (range : e.opensRange = true → a.opensRange = true)
    (more : List Token) : Opens (tokens ++ more) a := by
  obtain ⟨t, tokens', rfl, hbegins, ⟨hopening, hcolon⟩ | ⟨hcolon, hrange, hnumber⟩⟩ := h
  · exact ⟨t, tokens' ++ more, rfl, hbegins, .inl ⟨hopening.trans opening.symm, hcolon⟩⟩
  · exact ⟨t, tokens' ++ more, rfl, hbegins, .inr ⟨hcolon, range hrange, opening.trans hnumber⟩⟩

/-- The expression that a phrase opens with, if it has one. -/
def Phrase.first? : Phrase → Option Expr
  | .expression e _ | .chain _ (e :: _) | .items (e :: _) _ | .rows ((e :: _) :: _) _ => some e
  | _ => none

theorem opens_of_kind {t : Token} {e : Expr} (line : t.kind ≠ .newline) (stop : t.kind ≠ .stop)
    (delimiter : t.kind ≠ .delimiter) (colon : t.isOperator ":" = false) (h : t.opening = e.opening)
    (tokens : List Token) : Opens (t :: tokens) e :=
  ⟨t, tokens, rfl, begins_of_kind line stop delimiter, .inl ⟨h, colon⟩⟩

theorem opens_of_isDelimiter {o : Token} {text : String} {e : Expr} (ho : o.isDelimiter text = true)
    (htext : text = "(" ∨ text = "[" ∨ text = "\x7b")
    (h : (if text = "(" then Opening.parenthesis else .other) = e.opening) {tokens front : List Token}
    (htokens : front = o :: tokens) : Opens front e := by
  obtain ⟨hkind, rfl⟩ := isDelimiter_iff.1 ho
  refine ⟨o, tokens, htokens, begins_of_isDelimiter ho htext, .inl ⟨?_, ?_⟩⟩
  · rw [Token.opening, hkind]
    exact h
  · simp [Token.isOperator, hkind]

/-- How the tokens of a phrase open what it begins with. -/
def Phrase.Opens (tokens : List Token) : Phrase → Prop
  | .expression e _ | .chain _ (e :: _) | .items (e :: _) _ | .rows ((e :: _) :: _) _ =>
    Grammar.Opens tokens e
  | .start e => tokens = [] ∧ e = .number "1" ∨ Grammar.Opens tokens e
  | _ => True

theorem Phrase.Opens.first {tokens : List Token} {phrase : Phrase} {e : Expr}
    (h : phrase.Opens tokens) (he : phrase.first? = some e) : Grammar.Opens tokens e := by
  unfold Phrase.first? at he
  split at he
  · cases he
    exact h
  · cases he
    exact h
  · cases he
    exact h
  · cases he
    exact h
  · cases he

theorem Spells.opens {n d : Nat} {tokens : List Token} {phrase : Phrase}
    (h : Spells n d tokens phrase) : phrase.Opens tokens := by
  induction h with
  | @number _ _ t lines deep ht literal gap =>
      refine opens_of_kind (by simp [ht]) (by simp [ht]) (by simp [ht]) (by simp [Token.isOperator, ht]) ?_ _
      simp_all [Token.opening, Expr.opening, Expr.number, Expr.isLiteral]
  | @string _ _ t lines value deep ht hvalue gap =>
      refine opens_of_kind (by simp [ht]) (by simp [ht]) (by simp [ht]) (by simp [Token.isOperator, ht]) ?_ _
      rw [Token.opening, ht]
      rfl
  | @name _ _ t lines e deep ht lexical he gap =>
      refine opens_of_kind (by simp [ht]) (by simp [ht]) (by simp [ht]) (by simp [Token.isOperator, ht]) ?_ _
      rw [← he, opening_ofName lexical, Token.opening, ht]
  | @word _ _ t lines deep ht hname infix_ gap =>
      have hcolon : t.text ≠ ":" := by
        rintro h
        rw [h] at hname
        exact absurd hname (by decide)
      refine opens_of_kind (by simp [ht]) (by simp [ht]) (by simp [ht])
        (by simp [Token.isOperator, hcolon]) ?_ _
      rw [Token.opening, ht, Expr.opening, if_pos hname]
  | parenthesis _ ho =>
      exact opens_of_isDelimiter ho (by decide) rfl (by rw [List.append_assoc, List.cons_append])
  | emptyArray _ ho =>
      exact opens_of_isDelimiter ho (by decide) rfl (by rw [List.cons_append])
  | array _ ho _ _ he =>
      obtain ⟨es, rfl⟩ := ofRows_eq_ok (he 0)
      exact opens_of_isDelimiter ho (by decide) rfl (by rw [List.append_assoc, List.cons_append])
  | object _ ho =>
      exact opens_of_isDelimiter ho (by decide) rfl (by rw [List.append_assoc, List.cons_append])
  | call _ _ _ ih | index _ _ ih | juxtaposition _ _ ih => exact ih.append rfl id _
  | property _ _ _ _ _ ih =>
      rw [List.append_assoc]
      exact ih.append rfl id _
  | postfixed _ _ hop _ ih =>
      have hleading := Operator.leading?_of_trailing hop
      refine ih.append ?_ (fun h => ?_) _
      · simp [Expr.opening, hleading]
      · simpa [Expr.opensRange, hleading] using h
  | power _ _ _ _ _ _ ih =>
      rw [List.append_assoc]
      exact ih.append rfl id _
  | @prefixed _ _ tokens lines o op e deep ho hop =>
      have hcolon : o.text ≠ ":" := by
        rintro h
        rw [h] at hop
        cases hop
      refine opens_of_kind (by simp [ho]) (by simp [ho]) (by simp [ho])
        (by simp [Token.isOperator, hcolon]) ?_ _
      simp [Token.opening, ho, Expr.opening, hop]
  | binary _ _ _ _ _ _ ih =>
      rw [List.append_assoc]
      exact ih.append rfl id _
  | operand _ ih | item _ ih => exact ih
  | comparing _ _ _ _ _ ih =>
      rw [List.append_assoc]
      exact ih.append rfl id _
  | @comparison _ _ tokens spellings operands h _ ih =>
      cases operands with
      | nil => cases h
      | cons e operands =>
          rw [← List.append_nil tokens]
          exact Opens.append (a := .comparison _ (e :: operands)) ih rfl id []
  | noStart => exact .inl ⟨rfl, rfl⟩
  | start _ ih => exact .inr ih
  | noStop | stop | emptyList | list | noProperties | lastProperty | properties => trivial
  | @range _ _ _ tokens' lines colon start stop g _ hcolon _ _ ih =>
      rw [List.append_assoc]
      rcases ih with ⟨rfl, rfl⟩ | ih
      · obtain ⟨hkind, _⟩ := isOperator_iff.1 hcolon
        exact ⟨colon, _, rfl, begins_of_kind (by simp [hkind]) (by simp [hkind]) (by simp [hkind]),
          .inr ⟨hcolon, rfl, rfl⟩⟩
      · exact Opens.append (a := .range _ _ _) ih rfl (fun _ => rfl) _
  | @steppedRange _ _ _ tokens' _ lines _ colon _ start _ stop g _ hcolon _ _ _ _ _ ih =>
      simp only [List.append_assoc]
      rcases ih with ⟨rfl, rfl⟩ | ih
      · obtain ⟨hkind, _⟩ := isOperator_iff.1 hcolon
        exact ⟨colon, _, rfl, begins_of_kind (by simp [hkind]) (by simp [hkind]) (by simp [hkind]),
          .inr ⟨hcolon, rfl, rfl⟩⟩
      · exact Opens.append (a := .range _ _ _) ih rfl (fun _ => rfl) _
  | conditional _ _ _ _ _ _ _ ih =>
      simp only [List.append_assoc]
      exact ih.append rfl id _
  | assigned _ _ _ _ he ih =>
      rw [List.append_assoc]
      obtain ⟨_, rfl, rfl⟩ | ⟨_, _, rfl, rfl⟩ | ⟨_, _, rfl, rfl⟩ := Expr.assign_eq_ok he
      · exact ih.append rfl id _
      · exact ih.append rfl id _
      · exact Opens.append (a := .definition _ _ _) ih rfl (absurd · Bool.false_ne_true) _
  | items _ _ _ _ ih =>
      rw [List.append_assoc]
      exact ih.append rfl id _
  | @row _ _ _ es _ h ih =>
      cases es with
      | nil => trivial
      | cons => exact ih
  | @rows _ _ _ _ _ _ es _ _ h _ _ _ ih =>
      rw [List.append_assoc]
      cases es with
      | nil => trivial
      | cons => exact ih.append rfl id _

theorem opening_of_isOperator {t : Token} {text : String} (h : t.isOperator text = true) :
    t.opening = .other := by
  obtain ⟨hkind, _⟩ := isOperator_iff.1 h
  rw [Token.opening, hkind]

/-- Tokens begin with a factor if the expression does that they spell. -/
theorem Spells.begins_factor {n d : Nat} {tokens : List Token} {e : Expr} {g : Bool}
    (h : Spells n d tokens (.expression e g)) (rest : List Token) :
    (head (tokens ++ rest)).kind ≠ .newline ∧ startsFactor (head (tokens ++ rest)) = e.opening.isFactor := by
  obtain ⟨t, tokens', rfl, hbegins, ⟨hopening, _⟩ | ⟨hcolon, _, hnumber⟩⟩ := h.opens
  · refine ⟨hbegins.line, ?_⟩
    rw [List.cons_append, head_cons, startsFactor_eq, hopening]
  · refine ⟨hbegins.line, ?_⟩
    rw [List.cons_append, head_cons, startsFactor_eq, opening_of_isOperator hcolon, hnumber]
    rfl

end Grammar

end Formula
