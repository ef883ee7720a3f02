import Formula.Operator
import Formula.Proofs.Scanning
import Mathlib.Data.List.TakeWhile
import Mathlib.Tactic.IntervalCases

/-!
Texts that are tokens by themselves, and what is put together from them.

`IsCut` says of a text that it is a token whatever follows it, as long as that meets a condition. No
bracket goes on; a name or a number does not go on with most characters (`Apart`), and only a number
without a point would go on with one. `Cuts` says of a text of any length what its tokens are like, so
that what two texts are cut into tells what both together are (`Cuts.append`).
-/

namespace Formula.Token

/-- What follows a token does not go on with it; a point may follow if the token cannot take it. -/
def Apart (point : Bool) (more : List Char) : Prop :=
  ∀ c rest, more = c :: rest → continues c = false ∨ point = true ∧ c = '.'

theorem apart_cons {c : Char} (h : continues c = false) (point : Bool) (rest : List Char) :
    Apart point (c :: rest) := by
  rintro _ _ ⟨⟩
  exact .inl h

theorem apart_nil (point : Bool) : Apart point [] :=
  nofun

theorem apart_point (rest : List Char) : Apart true ('.' :: rest) := by
  rintro _ _ ⟨⟩
  exact .inr ⟨rfl, rfl⟩

theorem Apart.mono {p q : Bool} {more : List Char} (h : Apart p more) (hpq : p = true → q = true) :
    Apart q more :=
  fun c rest hmore => (h c rest hmore).imp_right fun ⟨hp, hc⟩ => ⟨hpq hp, hc⟩

/-- A text is the token of a kind and a text, in front of everything that meets a condition. -/
def IsCut (A : List Char → Prop) (word : String) (kind : TokenKind) (text : String) : Prop :=
  ∀ position more, A more → scanFrom position (word.toList ++ more)
    = { kind, text, position } :: scanFrom (position + word.length) more

theorem IsCut.mono {A B : List Char → Prop} {word text : String} {kind : TokenKind}
    (h : IsCut A word kind text) (hA : ∀ more, B more → A more) : IsCut B word kind text :=
  fun position more hmore => h position more (hA more hmore)

theorem skipped?_eq_none {c : Char} {cs : List Char} (h : skipped? c cs = none) (cs' : List Char) :
    skipped? c cs' = none := by
  unfold skipped? at h ⊢
  split at h
  · cases h
  · split at h
    · cases h
    · rw [if_neg ‹_›, if_neg ‹_›]

/-- A source that is one token. -/
theorem IsCut.scan_eq {A : List Char → Prop} {word text : String} {kind : TokenKind}
    (h : IsCut A word kind text) (hA : A []) :
    scan word = [{ kind, text, position := 0 }, stopAt word.length] := by
  have hscan := h 0 [] hA
  rwa [List.append_nil, scanFrom_nil, Nat.zero_add] at hscan

theorem isCut_of_shape {A : List Char → Prop} {kind : TokenKind} {c : Char} {cs : List Char}
    (bare : kind ≠ .str) (hskipped : skipped? c cs = none)
    (hshape : ∀ more, A more → shape c (cs ++ more) = (kind, cs.length)) :
    IsCut A (String.ofList (c :: cs)) kind (String.ofList (c :: cs)) := by
  intro position more hmore
  have hlength : (String.ofList (c :: cs)).length = cs.length + 1 := by
    rw [String.length_ofList, List.length_cons]
  rw [String.toList_ofList, List.cons_append, scanFrom_token (skipped?_eq_none hskipped _),
    hshape more hmore, List.take_left, List.drop_left, ofChars, if_neg bare, hlength]
  rfl

theorem isCut_of_char {A : List Char → Prop} {kind : TokenKind} {c : Char} (bare : kind ≠ .str)
    (hskipped : skipped? c [] = none) (hshape : ∀ more, A more → shape c more = (kind, 0)) :
    IsCut A (String.ofList [c]) kind (String.ofList [c]) :=
  isCut_of_shape bare hskipped hshape

theorem scanFrom_space (position : Nat) (more : List Char) :
    scanFrom position (' ' :: more) = scanFrom (position + 1) more := by
  have hskipped : skipped? ' ' more = some 0 := rfl
  rw [scanFrom_skipped hskipped, List.drop_zero]

/-! ### Symbols and brackets -/

/-- A text that is one token is cut off by what does not go on with it. -/
theorem isCut_alone {kind : TokenKind} {word : String} (known : kind ≠ .unknown) (bare : kind ≠ .str)
    (alone : ∃ c cs, word.toList = c :: cs ∧ skipped? c cs = none ∧ shape c cs = (kind, cs.length)) :
    IsCut (Apart false) word kind word := by
  obtain ⟨c, cs, htext, hskipped, hshape⟩ := alone
  obtain rfl : word = String.ofList (c :: cs) := by rw [← htext, String.ofList_toList]
  refine isCut_of_shape bare hskipped fun more hmore => ?_
  cases more with
  | nil => rw [List.append_nil, hshape]
  | cons b more =>
      obtain hb | ⟨hpoint, _⟩ := hmore b more rfl
      · rw [shape_append hb (by rw [hshape]; exact known), hshape]
      · cases hpoint

theorem isCut_symbol (op : Operator) : IsCut (Apart false) op.symbol .operator op.symbol := by
  refine isCut_alone nofun nofun ?_
  cases op <;> exact ⟨_, _, rfl, rfl, by decide⟩

/-- An operator behind its operand does not go on with a point. -/
theorem isCut_trailing {word : String} (h : word = "!" ∨ word = "'") :
    IsCut (Apart true) word .operator word := by
  rcases h with rfl | rfl
  · refine isCut_of_char nofun rfl fun more hmore => ?_
    cases more with
    | nil => rfl
    | cons b more =>
        obtain hb | ⟨_, rfl⟩ := hmore b more rfl
        · have halone : (shape '!' []).1 ≠ .unknown := by decide
          exact shape_append hb halone
        · rfl
  · exact isCut_of_char nofun rfl fun _ _ => rfl

/-- No token starts with a bracket, a comma or a semicolon but that one. -/
theorem isCut_delimiter {word : String}
    (h : word ∈ ["(", ")", "[", "]", "\x7b", "\x7d", ",", ";"]) :
    IsCut (fun _ => True) word .delimiter word := by
  simp only [List.mem_cons, List.not_mem_nil, or_false] at h
  rcases h with rfl | rfl | rfl | rfl | rfl | rfl | rfl | rfl <;>
    exact isCut_of_char nofun rfl fun _ _ => rfl

/-- No token starts with one of these symbols but that one. -/
theorem isCut_short {word : String} (h : word ∈ ["-", "+", "~", "'", ":"]) :
    IsCut (fun _ => True) word .operator word := by
  simp only [List.mem_cons, List.not_mem_nil, or_false] at h
  rcases h with rfl | rfl | rfl | rfl | rfl <;>
    exact isCut_of_char nofun rfl fun _ _ => rfl

/-- The symbols of conditionals and of assignments, and the other one of remainders. -/
theorem isCut_mark {word : String} (h : word ∈ ["?", "=", "%"]) :
    IsCut (Apart false) word .operator word := by
  refine isCut_alone nofun nofun ?_
  simp only [List.mem_cons, List.not_mem_nil, or_false] at h
  rcases h with rfl | rfl | rfl <;> exact ⟨_, _, rfl, rfl, by decide⟩

/-! ### Numbers and names -/

/-- A digit is none of the characters that a name starts with. -/
theorem isDigit_of_isNameStart {c : Char} (h : Text.isNameStart c = true) : c.isDigit = false := by
  rw [Bool.eq_false_iff]
  intro hdigit
  obtain ⟨hlow, hhigh⟩ := Char.isDigit_iff_toNat.1 hdigit
  rw [← Char.ofNat_toNat c] at h
  generalize c.toNat = n at hlow hhigh h
  have hlow' : 48 ≤ n := hlow
  have hhigh' : n ≤ 57 := hhigh
  interval_cases n <;> revert h <;> decide

theorem isNamePart_of_isNameStart {c : Char} (h : Text.isNameStart c = true) :
    Text.isNamePart c = true := by
  simp only [Text.isNameStart, Text.isNamePart, Bool.or_eq_true] at h ⊢
  tauto

/-- No symbol of an operator starts like a name or a number. -/
theorem find?_symbols_eq_none {c : Char} {cs : List Char}
    (h : Text.isNamePart c = true ∨ c = '.' ∧ ∃ d rest, cs = d :: rest ∧ Text.isNamePart d = true) :
    symbols.find? (fun s => s.toList.isPrefixOf (c :: cs)) = none := by
  have starts : (symbols.all fun s => match s.toList with
      | [] => false
      | ['.'] => false
      | '.' :: d :: _ => !Text.isNamePart d
      | a :: _ => !Text.isNamePart a) = true := by decide
  rw [List.find?_eq_none]
  intro s hs hprefix
  have hstart := List.all_eq_true.1 starts s hs
  split at hstart
  · cases hstart
  · cases hstart
  · rename_i d s' hsymbol
    rw [hsymbol, List.isPrefixOf] at hprefix
    obtain ⟨hpoint, htail⟩ := Bool.and_eq_true_iff.1 hprefix
    obtain rfl : '.' = c := by simpa using hpoint
    rcases h with h | ⟨_, d', rest, rfl, hd⟩
    · exact absurd h (by decide)
    · rw [List.isPrefixOf] at htail
      obtain rfl : d = d' := by simpa using (Bool.and_eq_true_iff.1 htail).1
      rw [hd] at hstart
      cases hstart
  · rename_i a s' hlone hpoint hsymbol
    rw [hsymbol, List.isPrefixOf] at hprefix
    obtain rfl : a = c := by simpa using (Bool.and_eq_true_iff.1 hprefix).1
    rcases h with h | ⟨rfl, d', rest, rfl, hd⟩
    · simp [h] at hstart
    · cases s' with
      | nil => exact hlone rfl rfl
      | cons d s' => exact hpoint d s' rfl rfl

/-- A number starts with a digit, or with a point and a digit. -/
theorem starts_of_numberLength {c : Char} {cs : List Char} (h : numberLength (c :: cs) ≠ 0) :
    c.isDigit = true ∨ c = '.' ∧ ∃ d rest, cs = d :: rest ∧ d.isDigit = true := by
  by_cases hdigit : c.isDigit = true
  · exact .inl hdigit
  · have hmantissa : mantissaLength (c :: cs) ≠ 0 := by
      intro hzero
      rw [numberLength_eq, if_pos hzero] at h
      exact h rfl
    have hwhole : (c :: cs).takeWhile Char.isDigit = [] := by
      rw [List.takeWhile_cons, if_neg hdigit]
    unfold mantissaLength at hmantissa
    rw [hwhole, List.length_nil] at hmantissa
    dsimp only at hmantissa
    rw [List.drop_zero] at hmantissa
    by_cases hpoint : c = '.'
    · subst hpoint
      refine .inr ⟨rfl, ?_⟩
      cases cs with
      | nil => exact absurd rfl hmantissa
      | cons d rest =>
          refine ⟨d, rest, rfl, ?_⟩
          by_contra hd
          have hfraction : (d :: rest).takeWhile Char.isDigit = [] := by
            rw [List.takeWhile_cons, if_neg hd]
          simp [hfraction] at hmantissa
    · split at hmantissa
      · rename_i hcons
        exact absurd (List.cons.inj hcons).1 hpoint
      · exact absurd rfl hmantissa

/-- What a name starts with is no number. -/
theorem numberLength_eq_zero {c : Char} (hc : Text.isNameStart c = true) (cs : List Char) :
    numberLength (c :: cs) = 0 := by
  by_contra hnumber
  obtain hdigit | ⟨rfl, _⟩ := starts_of_numberLength hnumber
  · rw [isDigit_of_isNameStart hc] at hdigit
    cases hdigit
  · exact absurd hc (by decide)

/-- A number is cut off by what does not go on with it; one that is more than digits does not go on
with a point. -/
theorem isCut_number {text : String} (h : IsNumber text) :
    IsCut (Apart (!text.toList.all Char.isDigit)) text .number text := by
  obtain ⟨hne, hlength⟩ := h
  cases htext : text.toList with
  | nil => exact absurd (String.toList_eq_nil_iff.1 htext) hne
  | cons c cs =>
      obtain rfl : text = String.ofList (c :: cs) := by rw [← htext, String.ofList_toList]
      rw [String.toList_ofList] at hlength
      have hpositive : numberLength (c :: cs) ≠ 0 := by simp [hlength]
      have hstart := starts_of_numberLength hpositive
      have apart : ∀ d : Char, d.isDigit = false → d ≠ '.' → c ≠ d := by
        rintro d hd hpoint rfl
        rcases hstart with h | ⟨h, _⟩
        · rw [hd] at h
          cases h
        · exact hpoint h
      refine isCut_of_shape nofun ?_ fun more hmore => ?_
      · have hspace := apart ' ' (by decide) (by decide)
        have htab := apart '\t' (by decide) (by decide)
        have hreturn := apart '\r' (by decide) (by decide)
        have hcomment := apart '#' (by decide) (by decide)
        simp [skipped?, isBlank, hspace, htab, hreturn, hcomment]
      · have hline := apart '\n' (by decide) (by decide)
        have hquote := apart '"' (by decide) (by decide)
        have hnumber : numberLength (c :: (cs ++ more)) = cs.length + 1 := by
          cases more with
          | nil => rw [List.append_nil, hlength, List.length_cons]
          | cons b more =>
              rw [← List.cons_append, ← List.length_cons (a := c), ← hlength]
              obtain hb | ⟨hall, rfl⟩ := hmore b more rfl
              · exact numberLength_append hb _ _
              · exact numberLength_append_cons (by decide) (by decide)
                  (fun _ => by simpa only [Bool.not_eq_true'] using hall) more
        have hsymbol : Text.isNamePart c = true ∨
            c = '.' ∧ ∃ d rest, cs ++ more = d :: rest ∧ Text.isNamePart d = true := by
          rcases hstart with h | ⟨rfl, d, rest, rfl, hd⟩
          · exact .inl (isNamePart_of_isDigit h)
          · exact .inr ⟨rfl, d, _, rfl, isNamePart_of_isDigit hd⟩
        rw [shape, if_neg hline, if_neg hquote, find?_symbols_eq_none hsymbol, hnumber]

/-- Whether a text has the characters of a name. -/
def isName (name : String) : Bool :=
  match name.toList with
  | [] => false
  | c :: cs => Text.isNameStart c && cs.all Text.isNamePart

/-- A name starts with a letter or a sign and goes on with more of these and with digits. -/
theorem exists_of_isName {name : String} (h : isName name = true) : ∃ c cs,
    name.toList = c :: cs ∧ Text.isNameStart c = true ∧ ∀ d ∈ cs, Text.isNamePart d = true := by
  unfold isName at h
  split at h
  · cases h
  · rename_i c cs hname
    obtain ⟨hstart, hparts⟩ := Bool.and_eq_true_iff.1 h
    exact ⟨c, cs, hname, hstart, List.all_eq_true.1 hparts⟩

/-- A name is cut off by what does not go on with it; it does not go on with a point. -/
theorem isCut_name {name : String} (h : isName name = true) :
    IsCut (Apart true) name (if namedOperators.contains name then .operator else .identifier) name := by
  obtain ⟨c, cs, hname, hstart, hparts⟩ := exists_of_isName h
  have hword : String.ofList (c :: cs) = name := by rw [← hname, String.ofList_toList]
  have apart : ∀ d : Char, Text.isNameStart d = false → c ≠ d := by
    rintro d hd rfl
    rw [hstart] at hd
    cases hd
  rw [← hword]
  refine isCut_of_shape (by split <;> decide) ?_ fun more hmore => ?_
  · have hspace := apart ' ' (by decide)
    have htab := apart '\t' (by decide)
    have hreturn := apart '\r' (by decide)
    have hcomment := apart '#' (by decide)
    simp [skipped?, isBlank, hspace, htab, hreturn, hcomment]
  · have hwhole : (cs ++ more).takeWhile Text.isNamePart = cs := by
      have hself : cs.takeWhile Text.isNamePart = cs := List.takeWhile_eq_self_iff.2 hparts
      cases more with
      | nil => rw [List.append_nil, hself]
      | cons d more =>
          have hd : Text.isNamePart d = false := by
            rcases hmore d more rfl with hd | ⟨_, rfl⟩
            · exact isNamePart_eq_false hd
            · decide
          rw [takeWhile_append_cons hd, hself]
    rw [shape, if_neg (apart '\n' (by decide)), if_neg (apart '"' (by decide)),
      find?_symbols_eq_none (.inl (isNamePart_of_isNameStart hstart)), numberLength_eq_zero hstart]
    dsimp only
    rw [if_pos hstart, hwhole]

theorem isIdentifier_eq (name : String) :
    isIdentifier name = (isName name && !namedOperators.contains name) := by
  unfold isIdentifier isName
  cases name.toList <;> rfl

theorem isName_of_isIdentifier {name : String} (h : isIdentifier name = true) : isName name = true := by
  rw [isIdentifier_eq, Bool.and_eq_true] at h
  exact h.1

theorem isCut_identifier {name : String} (h : isIdentifier name = true) :
    IsCut (Apart true) name .identifier name := by
  rw [isIdentifier_eq, Bool.and_eq_true, Bool.not_eq_true'] at h
  have hcut := isCut_name h.1
  rwa [h.2] at hcut

theorem isCut_namedOperator {name : String} (h : namedOperators.contains name = true) :
    IsCut (Apart true) name .operator name := by
  have names : ∀ name ∈ namedOperators, isName name = true := by decide
  have hcut := isCut_name (names name (List.contains_iff_mem.1 h))
  rwa [h] at hcut

/-- A point in front of a name is a token. -/
theorem isCut_point : IsCut (fun more => ∃ c rest, more = c :: rest ∧ Text.isNameStart c = true)
    "." .delimiter "." := by
  refine isCut_of_char (c := '.') nofun rfl ?_
  rintro _ ⟨c, rest, rfl, hc⟩
  have hnumber : numberLength ('.' :: c :: rest) = 0 := by
    by_contra hnumber
    rcases starts_of_numberLength hnumber with hdigit | ⟨_, d, rest', hrest, hd⟩
    · exact absurd hdigit (by decide)
    · obtain ⟨rfl, rfl⟩ := List.cons.inj hrest
      rw [isDigit_of_isNameStart hc] at hd
      cases hd
  rw [shape, if_neg (by decide), if_neg (by decide),
    find?_symbols_eq_none (.inr ⟨rfl, c, rest, rfl, isNamePart_of_isNameStart hc⟩), hnumber]
  rfl

/-! ### Texts put together from words -/

/-- A text is cut into tokens with a property, in front of everything that meets a condition. -/
def Cuts (A : List Char → Prop) (text : String) (P : List Token → Prop) : Prop :=
  ∀ position more, A more → ∃ tokens stop,
    scanFrom position (text.toList ++ more) = tokens ++ scanFrom stop more ∧ P tokens

variable {A B : List Char → Prop} {text : String} {P Q : List Token → Prop}

theorem Cuts.mono (h : Cuts A text P) (hA : ∀ more, B more → A more) : Cuts B text P :=
  fun position more hmore => h position more (hA more hmore)

theorem Cuts.imp (h : Cuts A text P) (hP : ∀ tokens, P tokens → Q tokens) : Cuts A text Q := by
  intro position more hmore
  obtain ⟨tokens, stop, hscan, htokens⟩ := h position more hmore
  exact ⟨tokens, stop, hscan, hP tokens htokens⟩

theorem cuts_empty : Cuts A "" fun tokens => tokens = [] :=
  fun position _ _ => ⟨[], position, rfl, rfl⟩

theorem IsCut.cuts {word text : String} {kind : TokenKind} (h : IsCut A word kind text) :
    Cuts A word fun tokens => ∃ t, tokens = [t] ∧ t.kind = kind ∧ t.text = text :=
  fun position more hmore => ⟨_, _, h position more hmore, _, rfl, rfl, rfl⟩

/-- A text that is put together from two is cut into the tokens of both. -/
theorem Cuts.append {text' : String} (h : Cuts A text P) (h' : Cuts B text' Q)
    (hA : ∀ more, B more → A (text'.toList ++ more)) :
    Cuts B (text ++ text') fun tokens => ∃ front back, tokens = front ++ back ∧ P front ∧ Q back := by
  intro position more hmore
  obtain ⟨front, middle, hfront, hP⟩ := h position _ (hA more hmore)
  obtain ⟨back, stop, hback, hQ⟩ := h' middle more hmore
  refine ⟨front ++ back, stop, ?_, front, back, rfl, hP, hQ⟩
  rw [String.toList_append, List.append_assoc, hfront, hback, List.append_assoc]

/-- Spaces in front of a text mean nothing. -/
theorem Cuts.indented (h : Cuts A text P) : Cuts A (" " ++ text) P := by
  intro position more hmore
  obtain ⟨tokens, stop, hscan, htokens⟩ := h (position + 1) more hmore
  refine ⟨tokens, stop, ?_, htokens⟩
  rw [String.toList_append, List.append_assoc]
  exact (scanFrom_space _ _).trans hscan

/-- A space behind a text means nothing, and sets it apart. -/
theorem Cuts.spaced {p : Bool} (h : Cuts (Apart p) text P) : Cuts A (text ++ " ") P := by
  intro position more _
  obtain ⟨tokens, stop, hscan, htokens⟩ :=
    h position (' ' :: more) (apart_cons (by decide) _ _)
  refine ⟨tokens, stop + 1, ?_, htokens⟩
  rw [String.toList_append, List.append_assoc]
  exact hscan.trans (congrArg _ (scanFrom_space _ _))

end Formula.Token
