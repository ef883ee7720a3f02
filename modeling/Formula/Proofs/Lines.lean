import Mathlib.Data.List.Chain
import Formula.Expr.Equality
import Formula.Proofs.Grammar.Statements
import Formula.Proofs.Grammar.Telling

/-!
Sources put together from lines.

A line end belongs to no expression outside brackets, so statements on lines of their own are read one
by one (`parse_lines`). Only a quotient at the end of a statement looks past it: behind `1/2/3` and a
line end, a name makes `2/3` a factor of its own.
-/

namespace Formula

namespace Expr

/-- Whether an expression ends in a quotient by a number that would hold together more tightly in
front of a factor. -/
def exposesQuotient : Expr → Bool
  | .operation _ function [left, right] juxtaposed =>
    if juxtaposed then right.exposesQuotient
    else if Operator.ofName? function = some .divide ∧ right.isLiteral = true then
      Grammar.isNumeral left.lastFactor && !Grammar.isNumeral left
    else (Operator.ofName? function).any (·.level ≤ 12) && right.exposesQuotient
  | .range _ stop _ => stop.exposesQuotient
  | .conditional _ _ no => no.exposesQuotient
  | .assignment _ _ value => value.exposesQuotient
  | .definition _ _ body => body.exposesQuotient
  | .comparison _ operands => lastOf operands
  | _ => false
where
  lastOf : List Expr → Bool
    | [] => false
    | [e] => e.exposesQuotient
    | _ :: es => lastOf es

-- The equations are derived here, once for all the proofs that unfold `exposesQuotient`.
attribute [local simp] exposesQuotient

theorem exposesQuotient_comparison {functions : List String} {operands : List Expr} {last : Expr} :
    (Expr.comparison functions (operands ++ [last])).exposesQuotient = last.exposesQuotient := by
  rw [exposesQuotient]
  induction operands with
  | nil => rfl
  | cons e operands ih =>
      cases operands with
      | nil => rfl
      | cons e' operands => exact ih

theorem exposesQuotient_assigned {target value e : Expr} (h : Grammar.assign target value = .ok e) :
    e.exposesQuotient = value.exposesQuotient := by
  obtain ⟨_, _, rfl⟩ | ⟨_, _, _, rfl⟩ | ⟨_, _, _, rfl⟩ := assign_eq_ok h <;> rfl

/-- The names of the other constants are not numbers. -/
theorem isLiteral_of_isNumber {text : String} (h : Token.IsNumber text) :
    (Expr.number text).isLiteral = true := by
  have hne : ∀ name : String, Token.numberLength name.toList ≠ name.toList.length → text ≠ name := by
    rintro name hname rfl
    exact hname h.2
  simp [Expr.number, Expr.isLiteral, hne "NaN" (by decide), hne "Infinity" (by decide)]

theorem exposesQuotient_of_isLiteral {e : Expr} (h : e.isLiteral = true) :
    e.exposesQuotient = false := by
  unfold isLiteral at h
  split at h
  · rw [exposesQuotient] <;> simp
  · cases h

/-- A factor behind an expression may only bind it together. -/
theorem level_false_le (e : Expr) : e.level false ≤ e.level true := by
  unfold level
  split <;> try exact Nat.le_refl _
  split
  · exact Nat.le_refl _
  · split
    · split <;> split <;> simp_all
    · exact Nat.le_refl _
    · exact Nat.le_refl _

theorem opensProduct_of_not_isLiteral {e : Expr} (h : ¬ e.isLiteral = true) (f g : Bool) :
    e.opensProduct f = e.opensProduct g := by
  unfold opensProduct
  split
  · rfl
  · simp [h]

/-- An expression that ends in no such quotient may stand in front of a factor as well. -/
theorem Legible.of_followed {f : Bool} {e : Expr} (h : Legible f e) (hf : f = false)
    (closed : e.exposesQuotient = false) : Legible true e := by
  have raised : ∀ {k : Nat} {e : Expr}, k ≤ e.level f → k ≤ e.level true := by
    intro k e hk
    rw [hf] at hk
    exact Nat.le_trans hk e.level_false_le
  induction h with
  | number lexical literal => exact .number lexical literal
  | string value => exact .string value
  | name lexical he => exact .name lexical he
  | word hname infix_ => exact .word hname infix_
  | parenthesis h => exact .parenthesis h
  | array h => exact .array h
  | object h nodup => exact .object h nodup
  | call hcallee callable h => exact .call hcallee callable h
  | index howner level h => exact .index howner level h
  | property howner level lexical => exact .property howner level lexical
  | postfixed hop h level => exact .postfixed hop h level
  | power hspelling hop hleft leftLevel hright rightLevel =>
      exact .power hspelling hop hleft leftLevel hright rightLevel
  | prefixed hop h level => exact .prefixed hop h level
  | fraction => cases hf
  | juxtaposition hleft leftLevel hright rightLevel opens called _ ih =>
      exact .juxtaposition hleft leftLevel (ih hf closed raised) (raised rightLevel) opens called
  | @binary f spelling op left right hop weak hleft leftLevel hright rightLevel divides _ ih =>
      rw [exposesQuotient, if_neg (by decide), Operator.ofName?_name] at closed
      by_cases hquotient : op = .divide ∧ right.isLiteral = true
      · obtain ⟨rfl, hliteral⟩ := hquotient
        rw [if_pos ⟨rfl, hliteral⟩] at closed
        obtain rfl := Operator.eq_of_binary?_divide hop
        by_cases hleft' : Grammar.isNumeral left = true
        · have hfraction : isFraction left right = true := by simp [isFraction, hleft', hliteral]
          exact .fraction hfraction hleft (hf ▸ hright)
        · have hlast : Grammar.isNumeral left.lastFactor = false := by simpa [hleft'] using closed
          exact .binary hop weak hleft leftLevel
            (ih hf (exposesQuotient_of_isLiteral hliteral) raised) (raised rightLevel)
            fun _ h => absurd h (by rw [hlast]; decide)
      · rw [if_neg (fun h => hquotient ⟨Option.some.inj h.1, h.2⟩)] at closed
        have hright' : right.exposesQuotient = false := by simpa [weak] using closed
        refine .binary hop weak hleft leftLevel (ih hf hright' raised) (raised rightLevel) ?_
        intro hdivide hlast
        have := divides hdivide hlast
        rw [hf] at this
        exact (opensProduct_of_not_isLiteral (fun h => hquotient ⟨hdivide, h⟩) true false).trans this
  | comparison comparisons many length h levels hlast lastLevel _ ih =>
      exact .comparison comparisons many length h levels
        (ih hf (exposesQuotient_comparison ▸ closed) raised) (raised lastLevel)
  | range hstart startLevel hstop stopLevel _ ih =>
      exact .range hstart startLevel (ih hf closed raised) (raised stopLevel)
  | steppedRange hstart startLevel hstep stepLevel hstop stopLevel _ _ ih =>
      exact .steppedRange hstart startLevel hstep stepLevel (ih hf closed raised) (raised stopLevel)
  | conditional hcondition conditionLevel hyes hcolon hno _ _ ih =>
      exact .conditional hcondition conditionLevel hyes hcolon (ih hf closed raised)
  | assigned he htarget hvalue _ ih =>
      exact .assigned he htarget (ih hf (exposesQuotient_assigned he ▸ closed) raised)

end Expr

namespace Grammar

open Expr (Legible)

/-! ### Tokens of a line -/

theorem Lines.shift {lines : List Token} (h : Lines lines) (k : Nat) :
    Lines (lines.map (Token.shift k)) := by
  intro t ht
  obtain ⟨u, hu, rfl⟩ := List.mem_map.1 ht
  exact h u hu

theorem Gap.shift {n : Nat} {lines : List Token} (h : Gap n lines) (k : Nat) :
    Gap n (lines.map (Token.shift k)) :=
  ⟨h.1.shift k, fun hn => by rw [h.2 hn]; rfl⟩

/-- What tokens spell does not depend on where they stand in a source. -/
theorem Spells.shift {n d : Nat} {tokens : List Token} {phrase : Phrase}
    (h : Spells n d tokens phrase) (k : Nat) : Spells n d (tokens.map (Token.shift k)) phrase := by
  induction h <;> try simp only [List.map_append, List.map_cons, List.map_nil]
  case number deep ht literal gap => exact .number deep ht literal (gap.shift k)
  case string deep ht hvalue gap => exact .string deep ht hvalue (gap.shift k)
  case name deep ht lexical he gap => exact .name deep ht lexical he (gap.shift k)
  case word deep ht hname infix_ gap => exact .word deep ht hname infix_ (gap.shift k)
  case parenthesis deep ho gap _ hc gap' ih =>
    exact .parenthesis deep ho (gap.shift k) ih hc (gap'.shift k)
  case emptyArray deep ho gap hc gap' => exact .emptyArray deep ho (gap.shift k) hc (gap'.shift k)
  case array deep ho gap _ he hc gap' ih => exact .array deep ho (gap.shift k) ih he hc (gap'.shift k)
  case object deep ho gap _ hc gap' ih => exact .object deep ho (gap.shift k) ih hc (gap'.shift k)
  case call callable _ ih ih' => exact .call ih callable ih'
  case index _ ih ih' => exact .index ih ih'
  case property hdot gap hname gap' ih => exact .property ih hdot (gap.shift k) hname (gap'.shift k)
  case postfixed ho hop gap ih => exact .postfixed ih ho hop (gap.shift k)
  case power ho hspelling hop gap _ ih ih' => exact .power ih ho hspelling hop (gap.shift k) ih'
  case prefixed deep ho hop gap _ ih => exact .prefixed deep ho hop (gap.shift k) ih
  case juxtaposition ih ih' => exact .juxtaposition ih ih'
  case binary ho hop weak gap _ ih ih' => exact .binary ih ho hop weak (gap.shift k) ih'
  case operand ih => exact .operand ih
  case comparing ho hspelling gap _ ih ih' => exact .comparing ih ho hspelling (gap.shift k) ih'
  case comparison many ih => exact .comparison ih many
  case noStart => exact .noStart
  case start ih => exact .start ih
  case noStop => exact .noStop
  case stop ih => exact .stop ih
  case range hcolon gap _ ih ih' => exact .range ih hcolon (gap.shift k) ih'
  case steppedRange hcolon gap _ hcolon' gap' _ ih ih' ih'' =>
    exact .steppedRange ih hcolon (gap.shift k) ih' hcolon' (gap'.shift k) ih''
  case conditional hmark gap _ hcolon gap' _ ih ih' ih'' =>
    exact .conditional ih hmark (gap.shift k) ih' hcolon (gap'.shift k) ih''
  case assigned ho gap _ he ih ih' => exact .assigned ih ho (gap.shift k) ih' he
  case item ih => exact .item ih
  case items hcomma gap _ ih ih' => exact .items ih hcomma (gap.shift k) ih'
  case emptyList ho gap hc gap' => exact .emptyList ho (gap.shift k) hc (gap'.shift k)
  case list ho gap _ hc gap' ih => exact .list ho (gap.shift k) ih hc (gap'.shift k)
  case row ih => exact .row ih
  case rows hsemicolon gap _ ih ih' => exact .rows ih hsemicolon (gap.shift k) ih'
  case noProperties => exact .noProperties
  case lastProperty hkey gap hcolon gap' _ legible ih =>
    exact .lastProperty hkey (gap.shift k) hcolon (gap'.shift k) ih legible
  case properties hkey gap hcolon gap' _ legible hcomma gap'' _ ih ih' =>
    exact .properties hkey (gap.shift k) hcolon (gap'.shift k) ih legible hcomma (gap''.shift k) ih'

theorem kind_ne_unknown_of_key? {t : Token} {key : String} (h : key? t = .ok key) :
    t.kind ≠ .unknown := by
  intro hkind
  rw [key?, hkind] at h
  cases h

/-- Tokens that spell something are tokens of the grammar. -/
theorem Spells.kind_ne_unknown {n d : Nat} {tokens : List Token} {phrase : Phrase}
    (h : Spells n d tokens phrase) : ∀ t ∈ tokens, t.kind ≠ .unknown := by
  have ofKind : ∀ {t : Token} {k : TokenKind}, t.kind = k → k ≠ .unknown → t.kind ≠ .unknown :=
    fun h hk => h ▸ hk
  have delimiter : ∀ {t : Token} {text : String}, t.isDelimiter text = true → t.kind ≠ .unknown :=
    fun h => kind_ne_of_isDelimiter h (by decide)
  have operator : ∀ {t : Token} {text : String}, t.isOperator text = true → t.kind ≠ .unknown :=
    fun h => kind_ne_of_isOperator h (by decide)
  have lines : ∀ {lines : List Token}, Lines lines → ∀ t ∈ lines, t.kind ≠ .unknown :=
    fun h t ht => ofKind (h t ht) (by decide)
  have gap : ∀ {n : Nat} {lines : List Token}, Gap n lines → ∀ t ∈ lines, t.kind ≠ .unknown :=
    fun h => lines h.1
  induction h <;> try simp only [List.forall_mem_append, List.forall_mem_cons]
  all_goals grind [kind_ne_unknown_of_key?]

/-- Whether tokens end in a colon. -/
def EndsInColon (tokens : List Token) : Prop :=
  ∃ front colon, tokens = front ++ [colon] ∧ colon.isOperator ":" = true

theorem EndsInColon.append {tokens : List Token} (h : EndsInColon tokens) (front : List Token) :
    EndsInColon (front ++ tokens) := by
  obtain ⟨front', colon, rfl, hcolon⟩ := h
  exact ⟨front ++ front', colon, (List.append_assoc ..).symm, hcolon⟩

/-- Outside brackets, a range without an end ends in its colon. -/
theorem Spells.endsInColon {d : Nat} {tokens : List Token} {e : Expr}
    (h : Spells 0 d tokens (.expression e true)) : EndsInColon tokens := by
  have ends : ∀ {n tokens phrase}, Spells n d tokens phrase → n = 0 →
      (∀ e, phrase = .expression e true → EndsInColon tokens) ∧
        ∀ e, phrase = .stop e true → tokens = [] := by
    clear h
    intro n tokens phrase h hn
    induction h with
    | noStop => exact ⟨nofun, fun _ _ => rfl⟩
    | @range _ _ tokens tokens' lines colon start stop g hstart hcolon gap hstop _ ih =>
        refine ⟨fun e he => ?_, nofun⟩
        obtain ⟨rfl, rfl⟩ : Expr.range start stop none = e ∧ g = true := by simpa using he
        rw [(ih hn).2 _ rfl, gap.2 hn, List.append_nil]
        exact ⟨_, _, rfl, hcolon⟩
    | @steppedRange _ _ tokens tokens' tokens'' lines lines' colon colon' start step stop g hstart hcolon gap hstep hcolon' gap' hstop _ _ ih =>
        refine ⟨fun e he => ?_, nofun⟩
        obtain ⟨rfl, rfl⟩ : Expr.range start stop (some step) = e ∧ g = true := by simpa using he
        rw [(ih hn).2 _ rfl, gap'.2 hn, List.append_nil]
        exact ⟨_, _, rfl, hcolon'⟩
    | @conditional _ _ tokens tokens' tokens'' lines lines' mark colon condition yes no g _ _ _ _ _ _ _ _ _ ih =>
        refine ⟨fun e he => ?_, nofun⟩
        obtain ⟨rfl, rfl⟩ : Expr.conditional condition yes no = e ∧ g = true := by simpa using he
        exact ((ih hn).1 _ rfl).append _
    | @assigned _ _ tokens tokens' lines o target value e g _ _ _ _ _ _ ih =>
        refine ⟨fun e' he => ?_, nofun⟩
        obtain ⟨rfl, rfl⟩ : e = e' ∧ g = true := by simpa using he
        exact ((ih hn).1 _ rfl).append _
    | _ => exact ⟨nofun, nofun⟩
  exact (ends h rfl).1 _ rfl

/-- Where the first end stands in tokens is where they end. -/
theorem eq_of_stop {tokens front rest : List Token} {stop : Token}
    (inner : ∀ t ∈ tokens, t.kind ≠ .stop) (h : tokens ++ [stop] = front ++ rest) (closed : rest ≠ [])
    (hstop : (head rest).kind = .stop) : front = tokens ∧ rest = [stop] := by
  rcases List.append_eq_append_iff.1 h with ⟨back, rfl, hback⟩ | ⟨back, rfl, rfl⟩
  · cases back with
    | nil => exact ⟨List.append_nil _, hback.symm⟩
    | cons t back =>
        rw [List.cons_append] at hback
        exact absurd (List.append_eq_nil_iff.1 (List.cons.inj hback).2.symm).2 closed
  · cases back with
    | nil => exact ⟨(List.append_nil _).symm, rfl⟩
    | cons t back => exact absurd hstop (inner t (by simp))

theorem lexical_of_mem_scanFrom {position : Nat} {cs : List Char} :
    ∀ t ∈ Token.scanFrom position cs, t.Lexical := by
  intro t ht
  obtain ⟨hnumber, hname⟩ := Token.scanFrom_texts position cs t ht
  exact ⟨fun h => ⟨hnumber h, Expr.isLiteral_of_isNumber (hnumber h)⟩, hname⟩

theorem closed_scanFrom (position : Nat) (cs : List Char) : Closed (Token.scanFrom position cs) := by
  obtain ⟨tokens, stop, htokens, _⟩ := Token.exists_scanFrom position cs
  rw [htokens]
  exact ⟨Token.stopAt stop, List.mem_append_right _ (List.mem_singleton_self _), rfl⟩

theorem ready_scan (source : String) : Ready (Token.scan source) :=
  ⟨closed_scanFrom _ _, lexical_of_mem_scanFrom⟩

end Grammar

namespace Expr

open Grammar

/-- A source that has a token, is parsed as one expression, and leaves no range open. -/
structure Alone (source : String) (e : Expr) : Prop where
  nonempty : ∃ t ∈ Token.scan source, t.kind ≠ .stop
  parsed : parse source = .ok e
  plain : e.form ≠ .block
  closed : (Token.scan source).dropLast.getLast?.any (·.isOperator ":") = false

/-- Such a source that is more than separators. -/
structure Single (source : String) (e : Expr) : Prop extends Alone source e where
  statement : ∃ t ∈ Token.scan source, t.kind ≠ .stop ∧ separates t = false

/-- The tokens of a single source spell its expression. -/
theorem Single.spells {source : String} {e : Expr} (h : Single source e) : ∃ tokens stop,
    Token.scan source = tokens ++ [Token.stopAt stop] ∧ Spells 0 0 tokens (.expression e false) ∧
      Legible false e := by
  obtain ⟨tokens, stop, hscan, inner⟩ := Token.exists_scanFrom 0 source.toList
  have hsourced := ofTokens_sound (ready_scan source) h.parsed
  obtain ⟨t, ht, htstop, htsep⟩ := h.statement
  rw [Token.scan] at hsourced ht
  rw [hscan] at hsourced ht
  refine ⟨tokens, stop, hscan, ?_⟩
  have htokens : t ∈ tokens := by
    rcases List.mem_append.1 ht with ht | ht
    · exact ht
    · obtain rfl := List.mem_singleton.1 ht
      exact absurd rfl htstop
  generalize hall : tokens ++ [Token.stopAt stop] = all at hsourced
  cases hsourced with
  | none closed hstop =>
      subst hall
      cases tokens with
      | nil => cases htokens
      | cons u tokens => exact absurd hstop (inner u (List.mem_cons_self ..))
  | @one _ rest _ hreads hstop =>
      obtain ⟨front, g, hfront, hspells, _⟩ := hreads.spelled
      obtain ⟨rfl, rfl⟩ := eq_of_stop inner (hall.trans hfront) hreads.closed.ne_nil hstop
      have hlegible := hreads.legible
      cases g with
      | false => exact ⟨hspells, hlegible⟩
      | true =>
          obtain ⟨front', colon, rfl, hcolon⟩ := hspells.endsInColon
          have := h.closed
          rw [Token.scan, hscan, List.dropLast_concat, List.getLast?_concat, Option.any_some, hcolon] at this
          cases this
  | @separator tokens' u entries hu more =>
      -- without an entry, every token is a separator; with one, there is a block
      cases entries with
      | nil =>
          obtain ⟨front, rest, rfl, hfront, hclosed, hstop⟩ := more.separators
          have hall' : tokens ++ [Token.stopAt stop] = (u :: front) ++ rest := hall
          obtain ⟨hfront', _⟩ := eq_of_stop inner hall' hclosed hstop
          rw [← hfront', List.mem_cons] at htokens
          rcases htokens with rfl | hmem
          · rw [hu] at htsep
            cases htsep
          · rw [hfront t hmem] at htsep
            cases htsep
      | cons entry entries => exact absurd (by rw [ofEntries_cons]; rfl) h.plain
  | many => exact absurd rfl h.plain

end Expr

namespace Grammar

open Expr (Legible)

/-- Any expression ends at a separator and at the end of a source. -/
theorem ends_of_separator {level : Nat} {e : Expr} {rest : List Token}
    (h : separates (head rest) = true ∨ (head rest).kind = .stop) : Ends level {} e rest := by
  have hkind : (head rest).kind = .newline ∨
      ((head rest).kind = .delimiter ∧ (head rest).text = ";") ∨ (head rest).kind = .stop := by
    simp only [separates, Bool.or_eq_true, beq_iff_eq, isDelimiter_iff] at h
    tauto
  have hstrength : strength? (head rest) = none := by
    rcases hkind with h | ⟨h, htext⟩ | h <;> simp [strength?, *]
  refine ⟨fun strength h' => ?_, fun h' => ?_, fun _ h' => ?_, fun _ _ h' => ?_, fun _ h' => ?_⟩
  · rw [hstrength] at h'
    cases h'
  · rcases hkind with h | ⟨h, htext⟩ | h <;> simp [Token.isDelimiter, *] at h'
  · rcases hkind with h | ⟨h, _⟩ | h <;> rw [h] at h' <;> cases h'
  · rcases hkind with h | ⟨h, _⟩ | h <;> simp [Divides, Token.isOperator, h] at h'
  · rcases hkind with h | ⟨h, _⟩ | h <;> simp [Token.isOperator, h] at h'

/-- What is legible in front of what follows is read up to there. -/
theorem Spells.reads_statement {e : Expr} {tokens rest : List Token}
    (h : Spells 0 0 tokens (.expression e false)) (legible : Legible (followed rest) e)
    (closed : Closed rest) (hrest : separates (head rest) = true ∨ (head rest).kind = .stop) :
    Reads 0 {} (tokens ++ rest) e rest :=
  ⟨⟨tokens, false, rfl, h, nofun⟩, legible, Nat.zero_le _, ends_of_separator hrest, closed,
    fun h => absurd rfl h⟩

/-- An expression reads alike in front of each line, unless it would hold together more tightly with
what follows. -/
theorem Spells.reads_line {e : Expr} {tokens rest : List Token}
    (h : Spells 0 0 tokens (.expression e false)) (legible : Legible false e) (closed : Closed rest)
    (hrest : separates (head rest) = true ∨ (head rest).kind = .stop)
    (apart : e.exposesQuotient = true → followed rest = false) :
    Reads 0 {} (tokens ++ rest) e rest := by
  refine h.reads_statement ?_ closed hrest
  cases hfollowed : followed rest with
  | false => exact legible
  | true =>
      refine legible.of_followed rfl ?_
      rw [Bool.eq_false_iff]
      intro hexposes
      rw [apart hexposes] at hfollowed
      cases hfollowed

end Grammar

namespace Expr

open Grammar

/-- A text is read as the legible expression that it tells. -/
theorem parse_of_tells {text : String} {e : Expr} (h : Tells 0 0 text e) (legible : Legible false e) :
    parse text = .ok e := by
  obtain ⟨tokens, stop, hscan, hspells⟩ := h 0 [] (Token.apart_nil _)
  rw [List.append_nil, Token.scanFrom_nil] at hscan
  have closed : Closed [Token.stopAt stop] := ⟨_, List.mem_singleton_self _, rfl⟩
  have hreads := hspells.reads_line legible closed (.inr rfl) fun _ => rfl
  rw [parse, Token.scan, hscan]
  exact (Sourced.one hreads rfl).ofTokens

theorem followed_newline {t : Token} {rest : List Token} (ht : t.kind = .newline)
    (hrest : (head rest).kind ≠ .newline) : followed (t :: rest) = startsFactor (head rest) := by
  rw [followed, dropLines, List.dropWhile_cons_of_pos (by simp [ht])]
  exact congrArg (fun rest => startsFactor (head rest)) (dropLines_eq_self hrest)

/-- The tokens of a single source at some position of another one. -/
theorem Single.scanFrom {source : String} {e : Expr} (h : Single source e) (position : Nat) :
    ∃ tokens stop, Token.scanFrom position source.toList = tokens ++ [Token.stopAt stop] ∧
      Spells 0 0 tokens (.expression e false) ∧ Legible false e ∧
      ∀ rest, head (tokens ++ rest) = Token.shift position (head (Token.scan source)) := by
  obtain ⟨tokens, stop, hscan, hspells, hlegible⟩ := h.spells
  refine ⟨tokens.map (Token.shift position), stop + position, ?_, hspells.shift position, hlegible, ?_⟩
  · have hshift := Token.scanFrom_shift position 0 source.toList
    rw [Nat.zero_add, ← Token.scan, hscan, List.map_append] at hshift
    exact hshift
  · intro rest
    obtain ⟨t, tokens', rfl, _⟩ := hspells.opens
    rw [hscan]
    rfl

theorem Single.begins {source : String} {e : Expr} (h : Single source e) :
    Begins (head (Token.scan source)) := by
  obtain ⟨tokens, stop, hscan, hspells, _⟩ := h.spells
  rw [hscan]
  exact hspells.begins rfl _

/-- The tokens of single sources on lines of their own. -/
theorem statements_scanFrom {s : String × Expr} {more : List (String × Expr)}
    (single : ∀ s' ∈ s :: more, Single s'.1 s'.2)
    (apart : List.IsChain (fun s s' => s.2.exposesQuotient = true →
      startsFactor (head (Token.scan s'.1)) = false) (s :: more)) (position : Nat) :
    Statements ((s :: more).map fun s => { body := s.2, visible := true })
        (Token.scanFrom position ("\n".intercalate ((s :: more).map (·.1))).toList) ∧
      head (Token.scanFrom position ("\n".intercalate ((s :: more).map (·.1))).toList)
        = Token.shift position (head (Token.scan s.1)) := by
  induction more generalizing s position with
  | nil =>
      obtain ⟨tokens, stop, hscan, hspells, hlegible, hhead⟩ :=
        (single s (List.mem_cons_self ..)).scanFrom position
      rw [List.map_singleton, List.map_singleton, String.intercalate_singleton, hscan]
      have closed : Closed [Token.stopAt stop] := ⟨_, List.mem_singleton_self _, rfl⟩
      exact ⟨.last (hspells.reads_line hlegible closed (.inr rfl) fun _ => rfl) rfl, hhead _⟩
  | cons s' more ih =>
      obtain ⟨tokens, stop, hscan, hspells, hlegible, hhead⟩ :=
        (single s (List.mem_cons_self ..)).scanFrom position
      obtain ⟨hfactor, hmore⟩ := List.isChain_cons_cons.1 apart
      obtain ⟨hstatements, hnext⟩ :=
        ih (fun s'' h => single s'' (List.mem_cons_of_mem _ h)) hmore (stop + 1)
      have hline := Token.scanFrom_line hscan hspells.kind_ne_unknown
        ("\n".intercalate ((s' :: more).map (·.1))).toList
      have htext : ("\n".intercalate ((s :: s' :: more).map (·.1))).toList
          = s.1.toList ++ '\n' :: ("\n".intercalate ((s' :: more).map (·.1))).toList := by
        simp only [List.map_cons, String.intercalate_cons_cons, String.toList_append,
          List.append_assoc]
        rfl
      rw [htext, hline]
      refine ⟨.cons (t := { kind := .newline, text := "\n", position := stop })
        (hspells.reads_line hlegible ((closed_scanFrom _ _).append [_]) (.inl rfl) fun hexposes => ?_)
        rfl hstatements, hhead _⟩
      rw [followed_newline rfl, hnext]
      · exact hfactor hexposes
      · rw [hnext]
        exact (single s' (by simp)).begins.line

/-- Statements do not influence one another: sources on lines of their own are parsed as they are
alone. What ends in a quotient is an exception, if the next line opens with a factor. -/
theorem parse_lines (sources : List (String × Expr)) (many : 2 ≤ sources.length)
    (single : ∀ s ∈ sources, Single s.1 s.2)
    (apart : List.IsChain (fun s s' => s.2.exposesQuotient = true →
      startsFactor (head (Token.scan s'.1)) = false) sources) :
    parse ("\n".intercalate (sources.map (·.1)))
      = .ok (.block (sources.map fun s => { body := s.2, visible := true })) := by
  cases sources with
  | nil => exact absurd many (by simp)
  | cons s more =>
      have hstatements := (statements_scanFrom single apart 0).1
      refine (hstatements.sourced nofun ?_).ofTokens
      rintro e hsingle
      obtain rfl : more = [] := by simpa using congrArg List.tail hsingle
      exact absurd many (by simp)

/-- The law at a quotient of two numbers, which a name on the next line leaves alone. -/
theorem parse_lines_half : parse ("\n".intercalate ["1/2", "x"]) = .ok (.block
    [{ body := .operation "/" "divide" [.number "1", .number "2"] false, visible := true },
      { body := .symbol "x", visible := true }]) := by
  have single : ∀ s ∈ [("1/2", Expr.operation "/" "divide" [.number "1", .number "2"] false),
      ("x", .symbol "x")], Single s.1 s.2 := by
    rw [List.forall_mem_cons, List.forall_mem_singleton]
    refine ⟨⟨⟨?_, ?_, nofun, ?_⟩, ?_⟩, ⟨⟨?_, ?_, nofun, ?_⟩, ?_⟩⟩ <;> decide +kernel
  have apart : Expr.exposesQuotient (.operation "/" "divide" [.number "1", .number "2"] false) = false :=
    rfl
  have hparse := parse_lines _ (by decide) single
    (List.isChain_pair.2 fun h => absurd h (by rw [apart]; decide))
  exact hparse

/-- Whether sources on lines of their own are parsed as they are alone. -/
def Independent (sources : List (String × Expr)) : Prop :=
  2 ≤ sources.length → (∀ s ∈ sources, Alone s.1 s.2) →
    parse ("\n".intercalate (sources.map (·.1)))
      = .ok (.block (sources.map fun s => { body := s.2, visible := true }))

/-- Separators alone are parsed as an undefined value, but make no entry among other lines; and a
quotient at the end of a line is grouped with the numbers in front of it, if a name follows. -/
theorem not_independent :
    ¬ Independent [(";", .undefined), ("1", .number "1")] ∧
      ¬ Independent [("1/2/3", .operation "/" "divide"
        [.operation "/" "divide" [.number "1", .number "2"] false, .number "3"] false),
        ("x", .symbol "x")] := by
  constructor
  · intro h
    have alone : ∀ s ∈ [(";", Expr.undefined), ("1", .number "1")], Alone s.1 s.2 := by
      rw [List.forall_mem_cons, List.forall_mem_singleton]
      refine ⟨⟨?_, ?_, nofun, ?_⟩, ⟨?_, ?_, nofun, ?_⟩⟩ <;> decide +kernel
    exact absurd (h (by decide) alone) (by decide +kernel)
  · intro h
    have alone : ∀ s ∈ [("1/2/3", Expr.operation "/" "divide"
        [.operation "/" "divide" [.number "1", .number "2"] false, .number "3"] false),
        ("x", .symbol "x")], Alone s.1 s.2 := by
      rw [List.forall_mem_cons, List.forall_mem_singleton]
      refine ⟨⟨?_, ?_, nofun, ?_⟩, ⟨?_, ?_, nofun, ?_⟩⟩ <;> decide +kernel
    exact absurd (h (by decide) alone) (by decide +kernel)

end Expr

end Formula
