import Formula.Proofs.Lines

/-!
Line ends where brackets are open.

`Spaced` relates tokens to those with other line ends between them where brackets are open. What tokens
spell says of each token that line ends follow it, and between brackets it does not say which: so the
other tokens spell the same (`Spells.spaced`), and a source of them is read alike (`Sourced.spaced`).
-/

namespace Formula

/-- Whether a token is an opening bracket. -/
def Token.isOpening (t : Token) : Bool :=
  t.isDelimiter "(" || t.isDelimiter "[" || t.isDelimiter "\x7b"

/-- Whether a token is a closing bracket. -/
def Token.isClosing (t : Token) : Bool :=
  t.isDelimiter ")" || t.isDelimiter "]" || t.isDelimiter "\x7d"

namespace Grammar

open Expr (Legible)

/-! ### Open brackets -/

/-- The number of open brackets behind a token. -/
def turn (n : Nat) (t : Token) : Nat :=
  if t.isOpening then n + 1 else if t.isClosing then n - 1 else n

/-- The number of open brackets behind some tokens. -/
def after (n : Nat) (tokens : List Token) : Nat :=
  tokens.foldl turn n

/-- Whether a token is neither a bracket nor the end of a line. -/
structure Plain (t : Token) : Prop where
  kind : t.kind ≠ .newline
  flat : ∀ n, turn n t = n

section

variable {t : Token} {n : Nat}

theorem turn_of_kind (h : t.kind ≠ .delimiter) (n : Nat) : turn n t = n := by
  have hne : ∀ text, t.isDelimiter text = false := by simp [Token.isDelimiter, h]
  simp [turn, Token.isOpening, Token.isClosing, hne]

theorem turn_of_newline (h : t.kind = .newline) (n : Nat) : turn n t = n :=
  turn_of_kind (by rw [h]; decide) n

theorem turn_of_isOpening (h : t.isOpening = true) (n : Nat) : turn n t = n + 1 := by
  rw [turn, if_pos h]

theorem isOpening_eq_false (h : t.isClosing = true) : t.isOpening = false := by
  simp only [Token.isClosing, Bool.or_eq_true, isDelimiter_iff] at h
  rcases h with (⟨hkind, htext⟩ | ⟨hkind, htext⟩) | ⟨hkind, htext⟩ <;>
    simp [Token.isOpening, Token.isDelimiter, htext]

theorem turn_of_isClosing (h : t.isClosing = true) (n : Nat) : turn (n + 1) t = n := by
  rw [turn, if_neg (by simp [isOpening_eq_false h]), if_pos h, Nat.add_sub_cancel]

theorem isOpening_of_isDelimiter {text : String} (h : t.isDelimiter text = true)
    (htext : text ∈ ["(", "[", "\x7b"]) : t.isOpening = true := by
  simp only [List.mem_cons, List.not_mem_nil, or_false] at htext
  rcases htext with rfl | rfl | rfl <;> simp [Token.isOpening, h]

theorem isClosing_of_isDelimiter {text : String} (h : t.isDelimiter text = true)
    (htext : text ∈ [")", "]", "\x7d"]) : t.isClosing = true := by
  simp only [List.mem_cons, List.not_mem_nil, or_false] at htext
  rcases htext with rfl | rfl | rfl <;> simp [Token.isClosing, h]

theorem Plain.of_kind {k : TokenKind} (h : t.kind = k) (hdelimiter : k ≠ .delimiter)
    (hnewline : k ≠ .newline) : Plain t :=
  ⟨h ▸ hnewline, turn_of_kind (h ▸ hdelimiter)⟩

theorem Plain.of_operator {text : String} (h : t.isOperator text = true) : Plain t :=
  .of_kind (isOperator_iff.1 h).1 (by decide) (by decide)

theorem Plain.of_delimiter {text : String} (h : t.isDelimiter text = true)
    (htext : text ∉ ["(", "[", "\x7b", ")", "]", "\x7d"]) : Plain t := by
  obtain ⟨hkind, rfl⟩ := isDelimiter_iff.1 h
  refine ⟨by rw [hkind]; decide, fun n => ?_⟩
  simp only [List.mem_cons, List.not_mem_nil, or_false, not_or] at htext
  simp [turn, Token.isOpening, Token.isClosing, Token.isDelimiter, htext]

theorem Plain.of_key {key : String} (h : key? t = .ok key) : Plain t := by
  unfold key? at h
  split at h
  all_goals first
    | exact .of_kind ‹_› (by decide) (by decide)
    | cases h

theorem kind_of_isOpening (h : t.isOpening = true) : t.kind ≠ .newline := by
  intro hkind
  simp [Token.isOpening, Token.isDelimiter, hkind] at h

theorem kind_of_isClosing (h : t.isClosing = true) : t.kind ≠ .newline := by
  intro hkind
  simp [Token.isClosing, Token.isDelimiter, hkind] at h

end

theorem after_append (n : Nat) (front back : List Token) :
    after n (front ++ back) = after (after n front) back :=
  List.foldl_append

theorem after_lines {lines : List Token} (h : Lines lines) (n : Nat) : after n lines = n := by
  induction lines with
  | nil => rfl
  | cons t lines ih =>
      obtain ⟨ht, hlines⟩ := List.forall_mem_cons.1 h
      rw [after, List.foldl_cons, turn_of_newline ht]
      exact ih hlines

/-! ### Other line ends -/

/-- Tokens with other line ends where brackets are open: those behind a token are exchanged. -/
inductive Spaced : Nat → List Token → List Token → Prop
  | nil (n : Nat) : Spaced n [] []
  | token {n : Nat} {t : Token} {lines tokens tokens' : List Token} (ht : t.kind = .newline → n = 0)
      (gap : Gap (turn n t) lines) (more : Spaced (turn n t) tokens tokens') :
      Spaced n (t :: tokens) (t :: lines ++ tokens')
  | line {n : Nat} {t : Token} {tokens tokens' : List Token} (ht : t.kind = .newline) (hn : n ≠ 0)
      (more : Spaced n tokens tokens') : Spaced n (t :: tokens) tokens'

namespace Spaced

variable {n : Nat} {tokens tokens' : List Token}

theorem append_inv {front back : List Token} (h : Spaced n (front ++ back) tokens') :
    ∃ front' back', tokens' = front' ++ back' ∧ Spaced n front front' ∧
      Spaced (after n front) back back' := by
  induction front generalizing n tokens' with
  | nil => exact ⟨[], tokens', rfl, .nil n, h⟩
  | cons t front ih =>
      cases h with
      | token ht gap more =>
          obtain ⟨front', back', rfl, hfront, hback⟩ := ih more
          refine ⟨_, back', (List.append_assoc ..).symm, .token ht gap hfront, hback⟩
      | line ht hn more =>
          obtain ⟨front', back', rfl, hfront, hback⟩ := ih more
          refine ⟨front', back', rfl, .line ht hn hfront, ?_⟩
          rw [after, List.foldl_cons, turn_of_newline ht]
          exact hback

/-- Line ends stay where no bracket is open, and go where one is. -/
theorem lines_inv {lines : List Token} (hlines : Lines lines) (h : Spaced n lines tokens') :
    tokens' = if n = 0 then lines else [] := by
  induction lines generalizing tokens' with
  | nil =>
      cases h
      simp
  | cons t lines ih =>
      obtain ⟨ht, hlines⟩ := List.forall_mem_cons.1 hlines
      cases h with
      | token hn gap more =>
          obtain rfl := hn ht
          rw [turn_of_newline ht] at gap more
          rw [gap.2 rfl, ih hlines more, if_pos rfl, if_pos rfl]
          rfl
      | line _ hn more => rw [ih hlines more, if_neg hn, if_neg hn]

/-- A token stays, and what follows it are line ends again. -/
theorem token_inv {t : Token} {lines : List Token} (ht : t.kind ≠ .newline) (hlines : Lines lines)
    (h : Spaced n (t :: lines) tokens') : ∃ lines', tokens' = t :: lines' ∧ Lines lines' ∧
      (Gap (turn n t) lines → Gap (turn n t) lines') := by
  cases h with
  | @token _ _ lines' _ rest' _ gap more =>
      have hrest := lines_inv hlines more
      refine ⟨lines' ++ rest', rfl, ?_⟩
      by_cases hn : turn n t = 0
      · rw [gap.2 hn, hrest, if_pos hn]
        exact ⟨hlines, id⟩
      · rw [hrest, if_neg hn, List.append_nil]
        exact ⟨gap.1, fun _ => gap⟩
  | line hline => exact absurd hline ht

end Spaced

/-! ### What spaced tokens still are -/

/-- Tokens lead from so many open brackets to so many, and have a property when they are spaced. -/
structure Loose (n m : Nat) (tokens : List Token) (P : List Token → Prop) : Prop where
  leads : after n tokens = m
  spaced : ∀ tokens', Spaced n tokens tokens' → P tokens'

namespace Loose

variable {n m k : Nat} {t : Token} {tokens lines : List Token} {P Q : List Token → Prop}

theorem imp (h : Loose n m tokens P) (himp : ∀ tokens', P tokens' → Q tokens') : Loose n m tokens Q :=
  ⟨h.leads, fun tokens' hspaced => himp tokens' (h.spaced tokens' hspaced)⟩

theorem append {front back : List Token} (h : Loose n m front P) (h' : Loose m k back Q) :
    Loose n k (front ++ back) fun tokens' =>
      ∃ front' back', tokens' = front' ++ back' ∧ P front' ∧ Q back' := by
  refine ⟨by rw [after_append, h.leads, h'.leads], fun tokens' hspaced => ?_⟩
  obtain ⟨front', back', rfl, hfront, hback⟩ := hspaced.append_inv
  rw [h.leads] at hback
  exact ⟨front', back', rfl, h.spaced _ hfront, h'.spaced _ hback⟩

theorem nil (n : Nat) : Loose n n [] (· = []) := by
  refine ⟨rfl, fun tokens' h => ?_⟩
  cases h
  rfl

/-- A token with the line ends behind it. -/
theorem unit (ht : t.kind ≠ .newline) (hturn : turn n t = m) (hlines : Lines lines) :
    Loose n m (t :: lines) fun tokens' => ∃ lines', tokens' = t :: lines' ∧ Lines lines' ∧
      (Gap m lines → Gap m lines') := by
  subst hturn
  exact ⟨after_lines hlines _, fun tokens' h => h.token_inv ht hlines⟩

theorem lined (ht : Plain t) (hlines : Lines lines) :
    Loose n n (t :: lines) fun tokens' => ∃ lines', tokens' = t :: lines' ∧ Lines lines' := by
  refine (unit ht.kind (ht.flat n) hlines).imp ?_
  rintro _ ⟨lines', rfl, hlines', _⟩
  exact ⟨lines', rfl, hlines'⟩

theorem gapped (ht : Plain t) (gap : Gap n lines) :
    Loose n n (t :: lines) fun tokens' => ∃ lines', tokens' = t :: lines' ∧ Gap n lines' := by
  refine (unit ht.kind (ht.flat n) gap.1).imp ?_
  rintro _ ⟨lines', rfl, _, gap'⟩
  exact ⟨lines', rfl, gap' gap⟩

theorem opened {text : String} (ht : t.isDelimiter text = true) (htext : text ∈ ["(", "[", "\x7b"])
    (hlines : Lines lines) :
    Loose n (n + 1) (t :: lines) fun tokens' => ∃ lines', tokens' = t :: lines' ∧ Lines lines' := by
  have opening := isOpening_of_isDelimiter ht htext
  refine (unit (kind_of_isOpening opening) (turn_of_isOpening opening n) hlines).imp ?_
  rintro _ ⟨lines', rfl, hlines', _⟩
  exact ⟨lines', rfl, hlines'⟩

theorem closed {text : String} (ht : t.isDelimiter text = true) (htext : text ∈ [")", "]", "\x7d"])
    (gap : Gap n lines) :
    Loose (n + 1) n (t :: lines) fun tokens' => ∃ lines', tokens' = t :: lines' ∧ Gap n lines' := by
  have closing := isClosing_of_isDelimiter ht htext
  refine (unit (kind_of_isClosing closing) (turn_of_isClosing closing n) gap.1).imp ?_
  rintro _ ⟨lines', rfl, _, gap'⟩
  exact ⟨lines', rfl, gap' gap⟩

/-- Brackets around tokens. -/
theorem between {o c : Token} {opening closing : String} {lines' : List Token}
    (ho : o.isDelimiter opening = true) (hopening : opening ∈ ["(", "[", "\x7b"]) (hlines : Lines lines)
    (h : Loose (n + 1) (n + 1) tokens P) (hc : c.isDelimiter closing = true)
    (hclosing : closing ∈ [")", "]", "\x7d"]) (gap : Gap n lines') :
    Loose n n (o :: lines ++ tokens ++ c :: lines') fun tokens' => ∃ lines inner lines',
      tokens' = o :: lines ++ inner ++ c :: lines' ∧ Lines lines ∧ P inner ∧ Gap n lines' := by
  refine (((opened ho hopening hlines).append h).append (closed hc hclosing gap)).imp ?_
  rintro _ ⟨_, _, rfl, ⟨_, inner, rfl, ⟨lines, rfl, hlines⟩, hinner⟩, lines', rfl, gap⟩
  exact ⟨lines, inner, lines', rfl, hlines, hinner, gap⟩

/-- A token between others. -/
theorem joined {front back : List Token} (h : Loose n n front P) (ht : Plain t) (hlines : Lines lines)
    (h' : Loose n n back Q) : Loose n n (front ++ t :: lines ++ back) fun tokens' =>
      ∃ front' lines' back', tokens' = front' ++ t :: lines' ++ back' ∧ P front' ∧ Lines lines' ∧
        Q back' := by
  refine ((h.append (lined ht hlines)).append h').imp ?_
  rintro _ ⟨_, back', rfl, ⟨front', _, rfl, hfront, lines', rfl, hlines'⟩, hback⟩
  exact ⟨front', lines', back', rfl, hfront, hlines', hback⟩

/-- A token between others, with no line ends behind it but where brackets are open. -/
theorem separated {front back : List Token} (h : Loose n n front P) (ht : Plain t) (gap : Gap n lines)
    (h' : Loose n n back Q) : Loose n n (front ++ t :: lines ++ back) fun tokens' =>
      ∃ front' lines' back', tokens' = front' ++ t :: lines' ++ back' ∧ P front' ∧ Gap n lines' ∧
        Q back' := by
  refine ((h.append (gapped ht gap)).append h').imp ?_
  rintro _ ⟨_, back', rfl, ⟨front', _, rfl, hfront, lines', rfl, gap'⟩, hback⟩
  exact ⟨front', lines', back', rfl, hfront, gap', hback⟩

end Loose

/-- Whether a list stands between brackets of one kind. -/
def Phrase.Bracketed : Phrase → Prop
  | .list opening closing _ => opening = "(" ∧ closing = ")" ∨ opening = "[" ∧ closing = "]"
  | _ => True

/-- What tokens spell does not depend on the line ends where brackets are open. -/
theorem Spells.loose {n d : Nat} {tokens : List Token} {phrase : Phrase} (h : Spells n d tokens phrase)
    (bracketed : phrase.Bracketed) : Loose n n tokens fun tokens' => Spells n d tokens' phrase := by
  induction h with
  | number deep ht literal gap =>
      refine (Loose.gapped (.of_kind ht (by decide) (by decide)) gap).imp ?_
      rintro _ ⟨lines', rfl, gap'⟩
      exact .number deep ht literal gap'
  | string deep ht hvalue gap =>
      refine (Loose.gapped (.of_kind ht (by decide) (by decide)) gap).imp ?_
      rintro _ ⟨lines', rfl, gap'⟩
      exact .string deep ht hvalue gap'
  | name deep ht lexical he gap =>
      refine (Loose.gapped (.of_kind ht (by decide) (by decide)) gap).imp ?_
      rintro _ ⟨lines', rfl, gap'⟩
      exact .name deep ht lexical he gap'
  | word deep ht hname infix_ gap =>
      refine (Loose.gapped (.of_kind ht (by decide) (by decide)) gap).imp ?_
      rintro _ ⟨lines', rfl, gap'⟩
      exact .word deep ht hname infix_ gap'
  | parenthesis deep ho gap _ hc gap' ih =>
      refine (Loose.between ho (by decide) gap (ih trivial) hc (by decide) gap').imp ?_
      rintro _ ⟨lines, inner, lines', rfl, gap, hinner, gap'⟩
      exact .parenthesis deep ho gap hinner hc gap'
  | emptyArray deep ho gap hc gap' =>
      refine ((Loose.opened ho (by decide) gap).append (.closed hc (by decide) gap')).imp ?_
      rintro _ ⟨_, _, rfl, ⟨lines, rfl, gap⟩, lines', rfl, gap'⟩
      exact .emptyArray deep ho gap hc gap'
  | array deep ho gap _ he hc gap' ih =>
      refine (Loose.between ho (by decide) gap (ih trivial) hc (by decide) gap').imp ?_
      rintro _ ⟨lines, inner, lines', rfl, gap, hinner, gap'⟩
      exact .array deep ho gap hinner he hc gap'
  | object deep ho gap _ hc gap' ih =>
      refine (Loose.between ho (by decide) gap (ih trivial) hc (by decide) gap').imp ?_
      rintro _ ⟨lines, inner, lines', rfl, gap, hinner, gap'⟩
      exact .object deep ho gap hinner hc gap'
  | call _ callable _ ihcallee ih =>
      refine ((ihcallee trivial).append (ih (.inl ⟨rfl, rfl⟩))).imp ?_
      rintro _ ⟨front, back, rfl, hcallee, hargs⟩
      exact .call hcallee callable hargs
  | index _ _ ihowner ih =>
      refine ((ihowner trivial).append (ih (.inr ⟨rfl, rfl⟩))).imp ?_
      rintro _ ⟨front, back, rfl, howner, hdimensions⟩
      exact .index howner hdimensions
  | property _ hdot gap hname gap' ihowner =>
      refine ((ihowner trivial).separated (.of_delimiter hdot (by decide)) gap
        (.gapped (.of_kind hname (by decide) (by decide)) gap')).imp ?_
      rintro _ ⟨front, lines, _, rfl, howner, gap, lines', rfl, gap'⟩
      exact .property howner hdot gap hname gap'
  | postfixed _ ho hop gap ih =>
      refine ((ih trivial).append (.gapped (.of_kind ho (by decide) (by decide)) gap)).imp ?_
      rintro _ ⟨front, _, rfl, h, lines, rfl, gap⟩
      exact .postfixed h ho hop gap
  | power _ ho hspelling hop gap _ ihleft ih =>
      refine ((ihleft trivial).joined (.of_kind ho (by decide) (by decide)) gap (ih trivial)).imp ?_
      rintro _ ⟨front, lines, back, rfl, hleft, gap, hright⟩
      exact .power hleft ho hspelling hop gap hright
  | prefixed deep ho hop gap _ ih =>
      refine ((Loose.lined (.of_kind ho (by decide) (by decide)) gap).append (ih trivial)).imp ?_
      rintro _ ⟨_, back, rfl, ⟨lines, rfl, gap⟩, h⟩
      exact .prefixed deep ho hop gap h
  | juxtaposition _ _ ihleft ih =>
      refine ((ihleft trivial).append (ih trivial)).imp ?_
      rintro _ ⟨front, back, rfl, hleft, hright⟩
      exact .juxtaposition hleft hright
  | binary _ ho hop weak gap _ ihleft ih =>
      refine ((ihleft trivial).joined (.of_kind ho (by decide) (by decide)) gap (ih trivial)).imp ?_
      rintro _ ⟨front, lines, back, rfl, hleft, gap, hright⟩
      exact .binary hleft ho hop weak gap hright
  | operand _ ih => exact (ih trivial).imp fun _ => .operand
  | comparing _ ho hspelling gap _ ihleft ih =>
      refine ((ihleft trivial).joined (.of_kind ho (by decide) (by decide)) gap (ih trivial)).imp ?_
      rintro _ ⟨front, lines, back, rfl, hleft, gap, h⟩
      exact .comparing hleft ho hspelling gap h
  | comparison _ many ih => exact (ih trivial).imp fun _ h => .comparison h many
  | noStart => exact (Loose.nil _).imp fun _ h => h ▸ .noStart
  | start _ ih => exact (ih trivial).imp fun _ => .start
  | noStop => exact (Loose.nil _).imp fun _ h => h ▸ .noStop
  | stop _ ih => exact (ih trivial).imp fun _ => .stop
  | range _ hcolon gap _ ihstart ihstop =>
      refine ((ihstart trivial).separated (.of_operator hcolon) gap (ihstop trivial)).imp ?_
      rintro _ ⟨front, lines, back, rfl, hstart, gap, hstop⟩
      exact .range hstart hcolon gap hstop
  | steppedRange _ hcolon gap _ hcolon' gap' _ ihstart ihstep ihstop =>
      refine (((ihstart trivial).separated (.of_operator hcolon) gap (ihstep trivial)).separated
        (.of_operator hcolon') gap' (ihstop trivial)).imp ?_
      rintro _ ⟨_, lines', back, rfl, ⟨front, lines, between, rfl, hstart, gap, hstep⟩, gap', hstop⟩
      exact .steppedRange hstart hcolon gap hstep hcolon' gap' hstop
  | conditional _ hmark gap _ hcolon gap' _ ihcondition ihyes ihno =>
      refine (((ihcondition trivial).joined (.of_operator hmark) gap (ihyes trivial)).joined
        (.of_operator hcolon) gap' (ihno trivial)).imp ?_
      rintro _ ⟨_, lines', back, rfl, ⟨front, lines, between, rfl, hcondition, gap, hyes⟩, gap', hno⟩
      exact .conditional hcondition hmark gap hyes hcolon gap' hno
  | assigned _ ho gap _ he ihtarget ihvalue =>
      refine ((ihtarget trivial).joined (.of_operator ho) gap (ihvalue trivial)).imp ?_
      rintro _ ⟨front, lines, back, rfl, htarget, gap, hvalue⟩
      exact .assigned htarget ho gap hvalue he
  | item _ ih => exact (ih trivial).imp fun _ => .item
  | items _ hcomma gap _ ih ihmore =>
      refine ((ih trivial).separated (.of_delimiter hcomma (by decide)) gap (ihmore trivial)).imp ?_
      rintro _ ⟨front, lines, back, rfl, h, gap, more⟩
      exact .items h hcomma gap more
  | emptyList ho gap hc gap' =>
      obtain ⟨rfl, rfl⟩ | ⟨rfl, rfl⟩ := bracketed
      all_goals
        refine ((Loose.opened ho (by decide) gap).append (.closed hc (by decide) gap')).imp ?_
        rintro _ ⟨_, _, rfl, ⟨lines, rfl, gap⟩, lines', rfl, gap'⟩
        exact .emptyList ho gap hc gap'
  | list ho gap _ hc gap' ih =>
      obtain ⟨rfl, rfl⟩ | ⟨rfl, rfl⟩ := bracketed
      all_goals
        refine (Loose.between ho (by decide) gap (ih trivial) hc (by decide) gap').imp ?_
        rintro _ ⟨lines, inner, lines', rfl, gap, hinner, gap'⟩
        exact .list ho gap hinner hc gap'
  | row _ ih => exact (ih trivial).imp fun _ => .row
  | rows _ hsemicolon gap _ ih ihmore =>
      refine ((ih trivial).separated (.of_delimiter hsemicolon (by decide)) gap (ihmore trivial)).imp ?_
      rintro _ ⟨front, lines, back, rfl, h, gap, more⟩
      exact .rows h hsemicolon gap more
  | noProperties => exact (Loose.nil _).imp fun _ h => h ▸ .noProperties
  | lastProperty hkey gap hcolon gap' _ legible ih =>
      refine ((Loose.gapped (.of_key hkey) gap).separated (.of_operator hcolon) gap' (ih trivial)).imp ?_
      rintro _ ⟨_, lines', back, rfl, ⟨lines, rfl, gap⟩, gap', h⟩
      exact .lastProperty hkey gap hcolon gap' h legible
  | properties hkey gap hcolon gap' _ legible hcomma gap'' _ ih ihmore =>
      have property := (Loose.gapped (.of_key hkey) gap).separated (.of_operator hcolon) gap' (ih trivial)
      refine (property.separated (.of_delimiter hcomma (by decide)) gap'' (ihmore trivial)).imp ?_
      rintro _ ⟨_, lines'', back, rfl, ⟨_, lines', between, rfl, ⟨lines, rfl, gap⟩, gap', h⟩, gap'', more⟩
      exact .properties hkey gap hcolon gap' h legible hcomma gap'' more

/-! ### What stays of spaced tokens -/

namespace Spaced

variable {n : Nat} {t : Token} {tokens tokens' : List Token}

theorem mem (h : Spaced n tokens tokens') (ht : t ∈ tokens) (hkind : t.kind ≠ .newline) : t ∈ tokens' := by
  induction h with
  | nil => cases ht
  | token _ _ _ ih =>
      obtain rfl | ht := List.mem_cons.1 ht
      · exact List.mem_append_left _ List.mem_cons_self
      · exact List.mem_append_right _ (ih ht)
  | line hline _ _ ih =>
      obtain rfl | ht := List.mem_cons.1 ht
      · exact absurd hline hkind
      · exact ih ht

theorem mem_or_newline (h : Spaced n tokens tokens') (ht : t ∈ tokens') :
    t ∈ tokens ∨ t.kind = .newline := by
  induction h with
  | nil => cases ht
  | token _ gap _ ih =>
      obtain ht | ht := List.mem_append.1 ht
      · obtain rfl | ht := List.mem_cons.1 ht
        · exact .inl List.mem_cons_self
        · exact .inr (gap.1 t ht)
      · exact (ih ht).imp_left (List.mem_cons_of_mem _)
  | line _ _ _ ih => exact (ih ht).imp_left (List.mem_cons_of_mem _)

theorem closed (h : Spaced n tokens tokens') (closed : Closed tokens) : Closed tokens' := by
  obtain ⟨t, ht, hkind⟩ := closed
  exact ⟨t, h.mem ht (by rw [hkind]; decide), hkind⟩

theorem ready (h : Spaced n tokens tokens') (ready : Ready tokens) : Ready tokens' := by
  refine ⟨h.closed ready.1, fun t ht => ?_⟩
  obtain ht | hline := h.mem_or_newline ht
  · exact ready.2 t ht
  · constructor
    · intro hkind
      rw [hline] at hkind
      cases hkind
    · intro hkind
      rw [hline] at hkind
      cases hkind

/-- Where no bracket is open, the first token stays. -/
theorem cons_inv (h : Spaced 0 (t :: tokens) tokens') :
    ∃ lines rest, tokens' = t :: lines ++ rest ∧ Gap (turn 0 t) lines ∧ Spaced (turn 0 t) tokens rest := by
  cases h with
  | token _ gap more => exact ⟨_, _, rfl, gap, more⟩
  | line _ hn => exact absurd rfl hn

theorem head_eq (h : Spaced 0 tokens tokens') : head tokens' = head tokens := by
  cases tokens with
  | nil => cases h; rfl
  | cons t tokens =>
      obtain ⟨lines, rest, rfl, _⟩ := h.cons_inv
      rfl

/-- Where no bracket is open, line ends in front stay. -/
theorem dropLines (h : Spaced 0 tokens tokens') : Spaced 0 (dropLines tokens) (dropLines tokens') := by
  induction tokens generalizing tokens' with
  | nil => cases h; exact .nil 0
  | cons t tokens ih =>
      by_cases ht : t.kind = .newline
      · obtain ⟨lines, rest, rfl, gap, more⟩ := h.cons_inv
        rw [turn_of_newline ht] at gap more
        rw [gap.2 rfl]
        have hline : Lines [t] := List.forall_mem_singleton.2 ht
        rw [← List.singleton_append, dropLines_append hline, List.cons_append, List.nil_append,
          ← List.singleton_append, dropLines_append hline]
        exact ih more
      · have here : (head (t :: tokens)).kind ≠ .newline := ht
        rw [dropLines_eq_self here, dropLines_eq_self (by rwa [h.head_eq])]
        exact h

theorem followed_eq (h : Spaced 0 tokens tokens') : followed tokens' = followed tokens := by
  rw [followed, followed, h.dropLines.head_eq]

end Spaced

/-! ### Sources of spaced tokens -/

section

variable {tokens tokens' rest : List Token} {e : Expr}

theorem Reads.spaced (h : Reads 0 {} tokens e rest)
    (hrest : separates (head rest) = true ∨ (head rest).kind = .stop) (hspaced : Spaced 0 tokens tokens') :
    ∃ rest', Spaced 0 rest rest' ∧ Reads 0 {} tokens' e rest' := by
  obtain ⟨front, g, rfl, hspells, hendless⟩ := h.spelled
  obtain ⟨front', rest', rfl, hfront, hback⟩ := hspaced.append_inv
  have loose := hspells.loose trivial
  rw [loose.leads] at hback
  have hhead := hback.head_eq
  refine ⟨rest', hback, ⟨front', g, rfl, loose.spaced _ hfront, ?_⟩, ?_, ?_, ?_, ?_, nofun⟩
  · rw [hhead]
    exact hendless
  · rw [hback.followed_eq]
    exact h.legible
  · exact Nat.zero_le _
  · exact ends_of_separator (by rwa [hhead])
  · exact hback.closed h.closed

theorem turn_of_separates {t : Token} (h : separates t = true) (n : Nat) : turn n t = n := by
  rcases Bool.or_eq_true_iff.1 h with hline | hsemicolon
  · exact turn_of_newline (by simpa using hline) n
  · exact (Plain.of_delimiter hsemicolon (by decide)).flat n

/-- A separator stays, and nothing is put behind it. -/
theorem Spaced.separator_inv {t : Token} (ht : separates t = true) (h : Spaced 0 (t :: tokens) tokens') :
    ∃ rest, tokens' = t :: rest ∧ Spaced 0 tokens rest := by
  obtain ⟨lines, rest, rfl, gap, more⟩ := h.cons_inv
  rw [turn_of_separates ht] at gap more
  exact ⟨rest, by rw [gap.2 rfl]; rfl, more⟩

theorem Spaced.ne_nil (h : Spaced 0 tokens tokens') (some : tokens ≠ []) : tokens' ≠ [] := by
  cases tokens with
  | nil => exact absurd rfl some
  | cons t tokens =>
      obtain ⟨lines, rest, rfl, _⟩ := h.cons_inv
      exact List.cons_ne_nil _ _

theorem Statements.spaced {entries : List (Entry Expr)} (h : Statements entries tokens)
    (hspaced : Spaced 0 tokens tokens') : Statements entries tokens' := by
  induction h generalizing tokens' with
  | stop closed hstop => exact .stop (hspaced.ne_nil closed) (by rwa [hspaced.head_eq])
  | separator ht _ ih =>
      obtain ⟨rest, rfl, hrest⟩ := hspaced.separator_inv ht
      exact .separator ht (ih hrest)
  | last h stop =>
      obtain ⟨rest', hrest, h'⟩ := h.spaced (.inr stop) hspaced
      exact .last h' (by rwa [hrest.head_eq])
  | cons h ht _ ih =>
      obtain ⟨_, hseparated, h'⟩ := h.spaced (.inl ht) hspaced
      obtain ⟨rest', rfl, hrest⟩ := hseparated.separator_inv ht
      exact .cons h' ht (ih hrest)

/-- A source is read alike if its tokens are spaced. -/
theorem Sourced.spaced (h : Sourced e tokens) (hspaced : Spaced 0 tokens tokens') : Sourced e tokens' := by
  cases h with
  | none closed hstop => exact .none (hspaced.ne_nil closed) (by rwa [hspaced.head_eq])
  | one h stop =>
      obtain ⟨rest', hrest, h'⟩ := h.spaced (.inr stop) hspaced
      exact .one h' (by rwa [hrest.head_eq])
  | separator ht more =>
      obtain ⟨rest, rfl, hrest⟩ := hspaced.separator_inv ht
      exact .separator ht (more.spaced hrest)
  | many h ht more =>
      obtain ⟨_, hseparated, h'⟩ := h.spaced (.inl ht) hspaced
      obtain ⟨rest', rfl, hrest⟩ := hseparated.separator_inv ht
      exact .many h' ht (more.spaced hrest)

theorem ofTokens_spaced (ready : Ready tokens) (h : Grammar.ofTokens tokens = .ok e)
    (hspaced : Spaced 0 tokens tokens') : Grammar.ofTokens tokens' = .ok e :=
  ((ofTokens_sound ready h).spaced hspaced).ofTokens

end

end Grammar

end Formula
