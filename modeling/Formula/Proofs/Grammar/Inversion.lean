import Formula.Proofs.Grammar.Levels

/-!
What the tokens that spell an expression look like, from the form of the expression.
-/

namespace Formula.Grammar

open Expr (Legible)

theorem ofName_cases (name : String) : (∃ value kind, ofName name = .constant value kind ∧
    (kind = .number → value = "NaN" ∨ value = "Infinity")) ∨ ofName name = .symbol name := by
  unfold ofName
  split
  · exact .inl ⟨_, _, rfl, nofun⟩
  · split
    · exact .inl ⟨_, _, rfl, nofun⟩
    · split
      · exact .inl ⟨_, _, rfl, nofun⟩
      · split
        · exact .inl ⟨_, _, rfl, nofun⟩
        · split
          · exact .inl ⟨_, _, rfl, fun _ => ‹_›⟩
          · exact .inr rfl

section Inversion

variable {n d : Nat} {tokens : List Token} {g : Bool}

/-- The tokens of a number that is written with digits. -/
theorem Spells.literal {e : Expr} (h : Spells n d tokens (.expression e g))
    (literal : e.isLiteral = true) : ∃ t lines, tokens = t :: lines ∧ d < maxDepth ∧
      t.kind = .number ∧ e = .number t.text ∧ Gap n lines := by
  cases h with
  | number deep ht _ gap => exact ⟨_, _, rfl, deep, ht, rfl, gap⟩
  | name deep ht lexical he gap =>
      obtain ⟨value, kind, hvalue, hword⟩ | hsymbol := ofName_cases (_ : Token).text
      · rw [hvalue] at he
        subst he
        cases kind <;> simp_all [Expr.isLiteral]
      · rw [hsymbol] at he
        subst he
        cases literal
  | array _ _ _ _ he =>
      obtain ⟨_, rfl⟩ := ofRows_eq_ok (he 0)
      cases literal
  | assigned _ _ _ _ he =>
      obtain ⟨_, rfl, rfl⟩ | ⟨_, _, rfl, rfl⟩ | ⟨_, _, rfl, rfl⟩ := Expr.assign_eq_ok he <;>
        cases literal
  | _ => cases literal

theorem form_ofName (name : String) :
    (ofName name).form = .constant ∨ (ofName name).form = .symbol := by
  obtain ⟨_, _, h, _⟩ | h := ofName_cases name
  · exact .inl (by rw [h]; rfl)
  · exact .inr (by rw [h]; rfl)

theorem form_assigned {target value e : Expr} (h : assign target value = .ok e) :
    e.form = .assignment ∨ e.form = .definition := by
  obtain ⟨_, _, rfl⟩ | ⟨_, _, _, rfl⟩ | ⟨_, _, _, rfl⟩ := Expr.assign_eq_ok h
  · exact .inl rfl
  · exact .inl rfl
  · exact .inr rfl

theorem legible_content {f : Bool} {e : Expr} (h : Legible f (.parenthesis e)) : Legible false e := by
  cases h with
  | parenthesis h => exact h
  | name _ he => rcases form_ofName _ with h | h <;> rw [he] at h <;> cases h
  | assigned he => rcases form_assigned he with h | h <;> cases h

theorem legible_items {f : Bool} {es : List Expr} (h : Legible f (.array es)) :
    ∀ e ∈ es, Legible false e := by
  cases h with
  | array h => exact h
  | name _ he => rcases form_ofName _ with h | h <;> rw [he] at h <;> cases h
  | assigned he => rcases form_assigned he with h | h <;> cases h

theorem legible_rows {position : Nat} {rows : List (List Expr)} {f : Bool} {e : Expr}
    (he : ofRows position rows = .ok e) (h : Legible f e) : ∀ row ∈ rows, ∀ e ∈ row, Legible false e := by
  unfold ofRows at he
  split at he
  · cases he
    simpa using legible_items h
  · dsimp only at he
    split at he
    · cases he
    · cases he
      exact fun row hrow => legible_items (legible_items h _ (List.mem_map_of_mem hrow))

/-- What the form of an expression says about the tokens that spell it. -/
def SpelledAs (n d : Nat) (tokens : List Token) (g : Bool) : Expr → Prop
  | .operation spelling function [e] false =>
    (∃ front o lines op, tokens = front ++ o :: lines ∧ o.kind = .operator ∧ o.text = spelling ∧
      Operator.trailing? spelling = some op ∧ op.name = function ∧ Gap n lines ∧
      Spells n d front (.expression e false)) ∨
    ∃ o lines back op, tokens = o :: lines ++ back ∧ o.kind = .operator ∧ o.text = spelling ∧
      Operator.leading? spelling = some op ∧ op.name = function ∧ Lines lines ∧
      Spells n (d + 1) back (.expression e false)
  | .operation spelling function [left, right] false =>
    ∃ front o lines back op, tokens = front ++ o :: lines ++ back ∧ o.kind = .operator ∧
      o.text = spelling ∧ Operator.binary? spelling = some op ∧ op.name = function ∧ Lines lines ∧
      Spells n d front (.expression left false) ∧
      Spells n (if op.level = 16 then d + 1 else d) back (.expression right false)
  | .operation _ _ [left, right] true =>
    ∃ front back, tokens = front ++ back ∧ Spells n d front (.expression left false) ∧
      Spells n d back (.expression right false)
  | .call callee args =>
    ∃ front back, tokens = front ++ back ∧ Spells n d front (.expression callee false) ∧
      Spells n d back (.list "(" ")" args)
  | .access owner (.index dimensions false) =>
    ∃ front back, tokens = front ++ back ∧ Spells n d front (.expression owner false) ∧
      Spells n d back (.list "[" "]" dimensions)
  | .access owner (.index [.constant name .string] true) =>
    ∃ front dot lines t lines', tokens = front ++ dot :: lines ++ t :: lines' ∧
      dot.isDelimiter "." = true ∧ Gap n lines ∧ t.kind = .identifier ∧ t.text = name ∧
      Gap n lines' ∧ Spells n d front (.expression owner false)
  | .comparison functions operands =>
    ∃ spellings, Spells n d tokens (.chain spellings operands) ∧ 2 ≤ spellings.length ∧
      functions = (spellings.filterMap Operator.binary?).map Operator.name
  | .range start stop none =>
    ∃ front colon lines back, tokens = front ++ colon :: lines ++ back ∧
      colon.isOperator ":" = true ∧ Gap n lines ∧ Spells n d front (.start start) ∧
      Spells n d back (.stop stop g)
  | .range start stop (some step) =>
    ∃ front colon lines between colon' lines' back,
      tokens = front ++ colon :: lines ++ between ++ colon' :: lines' ++ back ∧
      colon.isOperator ":" = true ∧ Gap n lines ∧ colon'.isOperator ":" = true ∧ Gap n lines' ∧
      Spells n d front (.start start) ∧ Spells n d between (.expression step false) ∧
      Spells n d back (.stop stop g)
  | .conditional condition yes no =>
    ∃ front mark lines between colon lines' back,
      tokens = front ++ mark :: lines ++ between ++ colon :: lines' ++ back ∧
      mark.isOperator "?" = true ∧ Lines lines ∧ colon.isOperator ":" = true ∧ Lines lines' ∧
      Spells n d front (.expression condition false) ∧ Spells n d between (.expression yes false) ∧
      Spells n d back (.expression no g)
  | .assignment target index value => SpelledAssigned (.assignment target index value)
  | .definition name params body => SpelledAssigned (.definition name params body)
  | _ => True
where
  SpelledAssigned (e : Expr) : Prop :=
    ∃ target value front o lines back, tokens = front ++ o :: lines ++ back ∧
      o.isOperator "=" = true ∧ Lines lines ∧ assign target value = .ok e ∧
      Spells n d front (.expression target false) ∧ Spells n d back (.expression value g)

theorem Spells.as {e : Expr} (h : Spells n d tokens (.expression e g)) :
    SpelledAs n d tokens g e := by
  cases h with
  | name _ _ _ he =>
      obtain ⟨_, _, h, _⟩ | h := ofName_cases (_ : Token).text
      · rw [← he, h]
        trivial
      · rw [← he, h]
        trivial
  | array _ _ _ _ he =>
      obtain ⟨_, rfl⟩ := ofRows_eq_ok (he 0)
      trivial
  | assigned htarget ho gap hvalue he =>
      have assigned : SpelledAs.SpelledAssigned n d _ g e :=
        ⟨_, _, _, _, _, _, rfl, ho, gap, he, htarget, hvalue⟩
      obtain ⟨_, _, rfl⟩ | ⟨_, _, _, rfl⟩ | ⟨_, _, _, rfl⟩ := Expr.assign_eq_ok he <;> exact assigned
  | call hcallee _ h => exact ⟨_, _, rfl, hcallee, h⟩
  | index howner h => exact ⟨_, _, rfl, howner, h⟩
  | property howner hdot gap hname gap' => exact ⟨_, _, _, _, _, rfl, hdot, gap, hname, rfl, gap', howner⟩
  | postfixed h ho hop gap => exact .inl ⟨_, _, _, _, rfl, ho, rfl, hop, rfl, gap, h⟩
  | prefixed _ ho hop gap h => exact .inr ⟨_, _, _, _, rfl, ho, rfl, hop, rfl, gap, h⟩
  | power hleft ho hspelling hop gap hright =>
      refine ⟨_, _, _, _, _, rfl, ho, rfl, hop, rfl, gap, hleft, ?_⟩
      obtain ⟨_, hlevel⟩ | ⟨h, h', _⟩ := Operator.level_of_binary hop
      · rw [if_pos hlevel]
        exact hright
      · exact absurd hspelling (not_or.2 ⟨h, h'⟩)
  | binary hleft ho hop weak gap hright =>
      refine ⟨_, _, _, _, _, rfl, ho, rfl, hop, rfl, gap, hleft, ?_⟩
      rw [if_neg (by omega)]
      exact hright
  | juxtaposition hleft hright => exact ⟨_, _, rfl, hleft, hright⟩
  | comparison h many => exact ⟨_, h, many, rfl⟩
  | range hstart hcolon gap hstop => exact ⟨_, _, _, _, rfl, hcolon, gap, hstart, hstop⟩
  | steppedRange hstart hcolon gap hstep hcolon' gap' hstop =>
      exact ⟨_, _, _, _, _, _, _, rfl, hcolon, gap, hcolon', gap', hstart, hstep, hstop⟩
  | conditional hcondition hmark gap hyes hcolon gap' hno =>
      exact ⟨_, _, _, _, _, _, _, rfl, hmark, gap, hcolon, gap', hcondition, hyes, hno⟩
  | _ => trivial

/-- What does not open with a range is not too deep. -/
theorem Spells.deep {phrase : Phrase} (h : Spells n d tokens phrase) :
    ∀ e, phrase.first? = some e → e.opensRange = false → d < maxDepth := by
  induction h with
  | number deep | string deep | name deep | word deep | parenthesis deep | emptyArray deep
  | array deep | object deep | prefixed deep => exact fun _ _ _ => deep
  | call _ _ _ ih | index _ _ ih | property _ _ _ _ _ ih | power _ _ _ _ _ _ ih
  | juxtaposition _ _ ih | binary _ _ _ _ _ _ ih | conditional _ _ _ _ _ _ _ ih =>
      rintro _ ⟨⟩ hrange
      exact ih _ rfl hrange
  | postfixed _ _ hop _ ih =>
      rintro _ ⟨⟩ hrange
      rw [Expr.opensRange, Operator.leading?_of_trailing hop] at hrange
      exact ih _ rfl hrange
  | comparison h _ ih =>
      rintro _ ⟨⟩ hrange
      cases h with
      | operand => exact ih _ rfl hrange
      | comparing => exact ih _ rfl hrange
  | range | steppedRange =>
      rintro _ ⟨⟩ hrange
      cases hrange
  | assigned _ _ _ _ he ih =>
      rintro _ ⟨⟩ hrange
      obtain ⟨_, rfl, rfl⟩ | ⟨_, _, rfl, rfl⟩ | ⟨_, _, rfl, rfl⟩ := Expr.assign_eq_ok he
      · exact ih _ rfl hrange
      · exact ih _ rfl hrange
      · exact ih _ rfl rfl
  | operand _ ih | comparing _ _ _ _ _ ih | item _ ih | items _ _ _ _ ih =>
      rintro _ ⟨⟩ hrange
      exact ih _ rfl hrange
  | row h ih | rows h _ _ _ ih =>
      cases h with
      | item => exact ih
      | items => exact ih
  | _ => rintro _ ⟨⟩

end Inversion

/-! ### Quotients by numbers -/

theorem head_append {front rest : List Token} (h : front ≠ []) : head (front ++ rest) = head front := by
  cases front with
  | nil => exact absurd rfl h
  | cons => rfl

/-- How tokens open that spell an expression of a level above ranges. -/
theorem Spells.head_opening {n d : Nat} {f g : Bool} {tokens : List Token} {e : Expr}
    (h : Spells n d tokens (.expression e g)) (legible : Legible f e) (level : 3 ≤ e.level f) :
    tokens ≠ [] ∧ (head tokens).kind ≠ .newline ∧ (head tokens).kind ≠ .stop ∧
      (head tokens).opening = e.opening := by
  obtain ⟨t, tokens', rfl, hbegins, ⟨hopening, _⟩ | ⟨_, hrange, _⟩⟩ := h.opens
  · exact ⟨nofun, hbegins.line, hbegins.stop, hopening⟩
  · rw [legible.opensRange_eq_false level] at hrange
    cases hrange

/-- What does not open with a range does not begin with a `:`. -/
theorem Spells.head_ne_colon {n d : Nat} {g : Bool} {front : List Token} {e : Expr}
    (h : Spells n d front (.expression e g)) (hrange : e.opensRange = false) (rest : List Token) :
    (head (front ++ rest)).isOperator ":" = false := by
  obtain ⟨t, tokens', rfl, _, ⟨_, hcolon⟩ | ⟨_, hrange', _⟩⟩ := h.opens
  · exact hcolon
  · rw [hrange] at hrange'
    cases hrange'

theorem followed_append {n d : Nat} {f g : Bool} {front rest : List Token} {e : Expr}
    (h : Spells n d front (.expression e g)) (legible : Legible f e) (level : 3 ≤ e.level f) :
    followed (front ++ rest) = e.opening.isFactor := by
  obtain ⟨hne, hline, _, hopening⟩ := h.head_opening legible level
  rw [followed, dropLines_eq_self (by rwa [head_append hne]), head_append hne, startsFactor_eq,
    hopening]

/-- An expression that opens with a number and a factor does so in tokens too. -/
theorem Spells.divides {ctx : Context} {d : Nat} {f : Bool} {e : Expr}
    (opens : e.opensProduct f = true) {front rest : List Token}
    (h : Spells ctx.nesting d front (.expression e false)) (legible : Legible f e)
    (fresh : Fresh ctx.nesting rest) (hf : followed rest = f) :
    (head (front ++ rest)).kind = .number ∧
      startsFactor (head (nextLine ctx (front ++ rest))) = true := by
  induction f, e using Expr.opensProduct.induct generalizing front rest with
  | case1 f spelling function left right ih =>
      generalize he : Expr.operation spelling function [left, right] true = e at *
      cases legible with
      | juxtaposition hleft leftLevel hright rightLevel =>
          cases he
          obtain ⟨front', back, rfl, hfront, hback⟩ := h.as
          have hfollowed : followed (back ++ rest) = right.opening.isFactor :=
            followed_append hback hright (by omega)
          obtain ⟨hne, hline, _⟩ := hback.head_opening hright (by omega)
          rw [List.append_assoc]
          refine ih opens hfront hleft (fun _ => ?_) hfollowed
          rwa [head_append hne]
      | name _ h =>
          subst he
          rcases form_ofName _ with h' | h' <;> rw [h] at h' <;> cases h'
      | assigned h =>
          subst he
          rcases form_assigned h with h' | h' <;> cases h'
      | _ => cases he
  | case2 f e hne =>
      rw [Expr.opensProduct, Bool.and_eq_true] at opens
      · obtain ⟨literal, rfl⟩ := opens
        obtain ⟨t, lines, rfl, _, hkind, _, gap⟩ := h.literal literal
        refine ⟨hkind, ?_⟩
        rw [nextLine, next_cons (by simp [hkind]) gap fresh]
        exact hf
      · exact hne

theorem literal_form {e : Expr} (h : e.isLiteral = true) : e.form = .constant := by
  unfold Expr.isLiteral at h
  split at h
  · rfl
  · cases h

/-- Tokens begin with a token that no factor follows. -/
def Unfactored (n : Nat) (tokens : List Token) : Prop :=
  ∃ t lines u more, tokens = t :: lines ++ u :: more ∧ Gap n lines ∧ t.kind ≠ .stop ∧
    startsFactor u = false ∧ u.kind ≠ .newline

theorem Unfactored.append {n : Nat} {tokens : List Token} (h : Unfactored n tokens)
    (back : List Token) : Unfactored n (tokens ++ back) := by
  obtain ⟨t, lines, u, more, rfl, h⟩ := h
  exact ⟨t, lines, u, more ++ back, by simp, h⟩

theorem Spells.unfactored {n d : Nat} {left : Expr} {front back : List Token} {u : Token}
    (h : Spells n d front (.expression left false))
    (ih : (head front).kind = .number → left.isLiteral = true ∨ Unfactored n front)
    (hfactor : startsFactor u = false) (hline : u.kind ≠ .newline)
    (hnumber : (head (front ++ u :: back)).kind = .number) : Unfactored n (front ++ u :: back) := by
  obtain ⟨t, tokens', rfl, _⟩ := h.opens
  rcases ih hnumber with literal | ⟨t', lines, v, more, hfront, hunfactored⟩
  · obtain ⟨t', lines, hfront, _, hkind, _, gap⟩ := h.literal literal
    obtain ⟨rfl, rfl⟩ := List.cons.inj hfront
    exact ⟨_, _, u, back, rfl, gap, by simp [hkind], hfactor, hline⟩
  · exact Unfactored.append ⟨t', lines, v, more, hfront, hunfactored⟩ (u :: back)

/-- What opens with a number, and is no number of its own, does not go on with a factor. -/
theorem Spells.literal_or_unfactored {n d : Nat} {f : Bool} {e : Expr} (legible : Legible f e)
    (tight : 15 ≤ e.level f) {tokens : List Token} (h : Spells n d tokens (.expression e false))
    (hnumber : (head tokens).kind = .number) : e.isLiteral = true ∨ Unfactored n tokens := by
  have hopening : e.opening = .number := by
    obtain ⟨_, _, _, hopening⟩ := h.head_opening legible (by omega)
    rw [← hopening, Token.opening, hnumber]
  have passed : ∀ {t : Token} {text : String}, t.isDelimiter text = true → text ≠ "(" →
      startsFactor t = false ∧ t.kind ≠ .newline := by
    intro t text ht htext
    obtain ⟨hkind, rfl⟩ := isDelimiter_iff.1 ht
    simp [startsFactor, Token.isDelimiter, hkind, htext]
  have operated : ∀ {t : Token}, t.kind = .operator → startsFactor t = false ∧ t.kind ≠ .newline := by
    intro t ht
    simp [startsFactor, Token.isDelimiter, ht]
  induction legible generalizing tokens with
  | number _ literal => exact .inl literal
  | name lexical he =>
      rw [← he, opening_ofName lexical] at hopening
      cases hopening
  | word hname =>
      rw [Expr.opening, if_pos hname] at hopening
      cases hopening
  | call hcallee callable _ ih =>
      obtain ⟨front, back, rfl, hfront, hback⟩ := h.as
      obtain ⟨t, tokens', rfl, _⟩ := hfront.opens
      have hlevel := Expr.level_of_callable callable false
      rcases ih (by omega) hfront hnumber hopening with literal | hunfactored
      · rw [literal_form literal] at callable
        rcases callable with h | h <;> cases h
      · exact .inr (hunfactored.append back)
  | index howner hlevel _ ih =>
      obtain ⟨front, back, rfl, hfront, hback⟩ := h.as
      obtain ⟨o, back, rfl, ho⟩ : ∃ o more, back = o :: more ∧ o.isDelimiter "[" = true := by
        cases hback with
        | emptyList ho => exact ⟨_, _, rfl, ho⟩
        | list ho => exact ⟨_, _, by rw [List.append_assoc]; rfl, ho⟩
      exact .inr (hfront.unfactored (fun h => ih (by omega) hfront h hopening) (passed ho (by decide)).1
        (passed ho (by decide)).2 hnumber)
  | property howner hlevel _ ih =>
      obtain ⟨front, dot, lines, t, lines', rfl, hdot, gap, _, _, _, hfront⟩ := h.as
      rw [List.append_assoc] at hnumber ⊢
      exact .inr (hfront.unfactored (fun h => ih (by omega) hfront h hopening) (passed hdot (by decide)).1
        (passed hdot (by decide)).2 hnumber)
  | postfixed hop _ hlevel ih =>
      have hleading := Operator.leading?_of_trailing hop
      obtain ⟨front, o, lines, _, rfl, ho, _, _, _, _, hfront⟩ | ⟨_, _, _, _, _, _, _, hop', _⟩ := h.as
      · rw [Expr.opening, hleading] at hopening
        exact .inr (hfront.unfactored (fun h => ih (by omega) hfront h hopening) (operated ho).1
          (operated ho).2 hnumber)
      · rw [hleading] at hop'
        cases hop'
  | power hspelling hop _ hlevel _ _ ih =>
      obtain ⟨front, o, lines, back, _, rfl, ho, _, _, _, _, hfront, _⟩ := h.as
      rw [List.append_assoc] at hnumber ⊢
      exact .inr (hfront.unfactored (fun h => ih (by omega) hfront h hopening) (operated ho).1 (operated ho).2
        hnumber)
  | prefixed hop => simp [Expr.opening, hop] at hopening
  | fraction hfraction =>
      simp [Expr.level_binary, hfraction] at tight
  | juxtaposition => simp [Expr.level_juxtapose] at tight
  | binary hop weak hleft leftLevel hright rightLevel divides =>
      rw [Expr.level_binary] at tight
      split at tight <;> omega
  | comparison | range | steppedRange | conditional => simp [Expr.level] at tight
  | assigned he => simp [Expr.level_assigned he] at tight
  | _ => cases hopening

theorem Unfactored.startsFactor_eq_false {ctx : Context} {front : List Token}
    (h : Unfactored ctx.nesting front) (rest : List Token) :
    startsFactor (head (nextLine ctx (front ++ rest))) = false := by
  obtain ⟨t, lines, u, more, rfl, gap, hstop, hfactor, hline⟩ := h
  have hhead : (head (u :: more ++ rest)).kind ≠ .newline := hline
  rw [List.append_assoc, nextLine_cons hstop gap.1 hhead]
  exact hfactor

theorem opensProduct_of_isLiteral {f : Bool} {e : Expr} (h : e.isLiteral = true) :
    e.opensProduct f = f := by
  unfold Expr.isLiteral at h
  split at h
  · rw [Expr.opensProduct]
    · rw [Expr.isLiteral, h, Bool.true_and]
    · simp
  · cases h

/-- Tokens that go on like a product after a number spell such a product. -/
theorem Spells.opensProduct {ctx : Context} {d : Nat} {f : Bool} {e : Expr} (legible : Legible f e)
    (tight : 13 ≤ e.level f) {front rest : List Token}
    (h : Spells ctx.nesting d front (.expression e false)) (fresh : Fresh ctx.nesting rest)
    (hf : followed rest = f) (hnumber : (head (front ++ rest)).kind = .number)
    (hfactor : startsFactor (head (nextLine ctx (front ++ rest))) = true) :
    e.opensProduct f = true := by
  induction f, e using Expr.opensProduct.induct generalizing front rest with
  | case1 f spelling function left right ih =>
      obtain hlevel | ⟨_, _, _, he, _⟩ | ⟨_, _, he, hleft, leftLevel, hright, rightLevel, _⟩ :=
        legible.factor_cases tight
      · simp [Expr.level] at hlevel
      · cases he
      · cases he
        obtain ⟨front', back, rfl, hfront, hback⟩ := h.as
        obtain ⟨hne, hline, _⟩ := hback.head_opening hright (by omega)
        rw [List.append_assoc] at hnumber hfactor
        refine ih hleft leftLevel hfront (fun _ => ?_) (followed_append hback hright (by omega))
          hnumber hfactor
        rwa [head_append hne]
  | case2 f e hne =>
      have hempty : front ≠ [] := by
        obtain ⟨t, tokens', rfl, _⟩ := h.opens
        exact List.cons_ne_nil _ _
      obtain hlevel | ⟨_, left, right, rfl, hfraction, hleft, hright⟩ | ⟨_, _, rfl, _⟩ :=
        legible.factor_cases tight
      · rw [head_append hempty] at hnumber
        rcases h.literal_or_unfactored legible hlevel hnumber with literal | hunfactored
        · obtain ⟨t, lines, rfl, _, hkind, _, gap⟩ := h.literal literal
          rw [nextLine, next_cons (by simp [hkind]) gap fresh] at hfactor
          rw [opensProduct_of_isLiteral literal, ← hf]
          exact hfactor
        · rw [hunfactored.startsFactor_eq_false] at hfactor
          cases hfactor
      · obtain ⟨front', o, lines, back, _, rfl, ho, _, _, _, _, hfront, _⟩ := h.as
        obtain ⟨hnumeral, _⟩ := Bool.and_eq_true_iff.1 hfraction
        have hlevel := Expr.level_of_isNumeral hleft hnumeral
        rw [List.append_assoc] at hnumber hfactor
        rw [head_append (by simp)] at hnumber
        have hunfactored := hfront.unfactored (hfront.literal_or_unfactored hleft hlevel)
          (by simp [startsFactor, Token.isDelimiter, ho]) (by simp [ho]) hnumber
        rw [hunfactored.startsFactor_eq_false] at hfactor
        cases hfactor
      · exact absurd rfl (hne _ _ _ _)

end Formula.Grammar
