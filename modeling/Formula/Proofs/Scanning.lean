import Formula.Token

/-!
How a text is cut into tokens when it is put together from pieces.

Most characters end the token in front of them, whatever it is (`shape_append`). A line end does, so
that the tokens of two lines are those of the first and those of the second (`scanFrom_line`).
-/

namespace Formula.Token

/-- Whether a character can go on with a token in front of it. -/
def continues (c : Char) : Bool :=
  Text.isNamePart c || ['.', '+', '-', '>', '*', '/', '^', '|', '=', '<'].contains c

theorem isNamePart_of_isDigit {c : Char} (h : c.isDigit = true) : Text.isNamePart c = true := by
  have hlt : c.toNat < 128 := by
    have := (Char.isDigit_iff_toNat.1 h).2
    exact Nat.lt_of_le_of_lt this (by decide)
  have hdigit : Text.isDecimalDigit c = true := by
    rw [Text.isDecimalDigit, if_pos hlt]
    exact h
  simp [Text.isNamePart, hdigit]

theorem isNamePart_eq_false {c : Char} (h : continues c = false) : Text.isNamePart c = false :=
  (Bool.or_eq_false_iff.1 h).1

theorem isDigit_eq_false {c : Char} (h : continues c = false) : c.isDigit = false := by
  rw [Bool.eq_false_iff]
  intro hdigit
  have := isNamePart_eq_false h
  rw [isNamePart_of_isDigit hdigit] at this
  cases this

/-- A character that ends tokens is none of those that go on with one. -/
theorem ne_of_continues {c d : Char} (h : continues c = false) (hd : continues d = true) : c ≠ d := by
  rintro rfl
  rw [h] at hd
  cases hd

/-- The number of characters of a number in front of its exponent. -/
def mantissaLength (cs : List Char) : Nat :=
  let whole := (cs.takeWhile Char.isDigit).length
  match cs.drop whole with
  | '.' :: cs =>
    let fraction := (cs.takeWhile Char.isDigit).length
    if whole = 0 ∧ fraction = 0 then 0 else whole + 1 + fraction
  | _ => whole

theorem numberLength_eq (cs : List Char) : numberLength cs
    = if mantissaLength cs = 0 then 0
      else mantissaLength cs + exponentLength (cs.drop (mantissaLength cs)) :=
  rfl

theorem length_takeWhile_le {p : Char → Bool} (cs : List Char) : (cs.takeWhile p).length ≤ cs.length :=
  List.IsPrefix.length_le (List.takeWhile_prefix p)

theorem mantissaLength_le (cs : List Char) : mantissaLength cs ≤ cs.length := by
  have hwhole := length_takeWhile_le (p := Char.isDigit) cs
  unfold mantissaLength
  dsimp only
  split
  · rename_i rest hrest
    have hfraction := length_takeWhile_le (p := Char.isDigit) rest
    have hlength := congrArg List.length hrest
    rw [List.length_drop, List.length_cons] at hlength
    split <;> omega
  · exact hwhole

/-- The number of characters of a sign in front of digits. -/
def signLength : List Char → Nat
  | '+' :: _ | '-' :: _ => 1
  | _ => 0

theorem exponentLength_cons (e : Char) (cs : List Char) : exponentLength (e :: cs) =
    if e = 'e' ∨ e = 'E' then
      match ((cs.drop (signLength cs)).takeWhile Char.isDigit).length with
      | 0 => 0
      | digits => 1 + signLength cs + digits
    else 0 :=
  rfl

theorem signLength_le (cs : List Char) : signLength cs ≤ cs.length := by
  unfold signLength
  split <;> simp

theorem exponentLength_le (cs : List Char) : exponentLength cs ≤ cs.length := by
  cases cs with
  | nil => exact Nat.le_refl _
  | cons e cs =>
      rw [exponentLength_cons]
      have hsign := signLength_le cs
      have hdigits := length_takeWhile_le (p := Char.isDigit) (cs.drop (signLength cs))
      rw [List.length_drop] at hdigits
      rw [List.length_cons]
      split
      · generalize ((cs.drop (signLength cs)).takeWhile Char.isDigit).length = digits at hdigits
        cases digits with
        | zero => exact Nat.zero_le _
        | succ n =>
            change 1 + signLength cs + (n + 1) ≤ cs.length + 1
            omega
      · omega

theorem numberLength_le (cs : List Char) : numberLength cs ≤ cs.length := by
  have hmantissa := mantissaLength_le cs
  have hexponent := exponentLength_le (cs.drop (mantissaLength cs))
  rw [List.length_drop] at hexponent
  rw [numberLength_eq]
  split <;> omega

theorem closingQuote?_append {e : Bool} {cs : List Char} {n : Nat} (h : closingQuote? e cs = some n)
    (more : List Char) : closingQuote? e (cs ++ more) = some n := by
  induction cs generalizing e n with
  | nil => cases h
  | cons c cs ih =>
      rw [List.cons_append]
      unfold closingQuote? at h ⊢
      split
      · rename_i hc
        rw [if_pos hc] at h
        exact h
      · rename_i hc
        rw [if_neg hc] at h
        obtain ⟨m, hm, rfl⟩ := Option.map_eq_some_iff.1 h
        rw [ih hm]
        rfl

section Numbers

variable {b : Char} {cs : List Char} (hb : b.isDigit = false)

theorem takeWhile_append_cons {p : Char → Bool} (hp : p b = false) (cs more : List Char) :
    (cs ++ b :: more).takeWhile p = cs.takeWhile p := by
  induction cs with
  | nil => simp [hp]
  | cons c cs ih =>
      rw [List.cons_append, List.takeWhile_cons, List.takeWhile_cons, ih]

include hb

/-- A character that is no digit adds nothing to the digits in front of it, nor does a point if one of
them is no digit. -/
theorem mantissaLength_append (hpoint : b = '.' → cs.all Char.isDigit = false) (more : List Char) :
    mantissaLength (cs ++ b :: more) = mantissaLength cs := by
  have hwhole := takeWhile_append_cons hb cs more
  have hdrop : (cs ++ b :: more).drop (cs.takeWhile Char.isDigit).length
      = cs.drop (cs.takeWhile Char.isDigit).length ++ b :: more :=
    List.drop_append_of_le_length (length_takeWhile_le cs)
  unfold mantissaLength
  dsimp only
  rw [hwhole, hdrop]
  cases hrest : cs.drop (cs.takeWhile Char.isDigit).length with
  | nil =>
      dsimp only [List.nil_append]
      split
      · rename_i h
        -- digits up to the end, although one of the characters is none
        have hall : cs.takeWhile Char.isDigit = cs :=
          (List.takeWhile_prefix _).eq_of_length_le (List.drop_eq_nil_iff.1 hrest)
        have := hpoint (List.cons.inj h).1
        rw [← hall, List.all_takeWhile] at this
        cases this
      · rfl
  | cons d rest =>
      by_cases hd : d = '.'
      · subst hd
        simp only [List.cons_append, takeWhile_append_cons hb]
      · dsimp only [List.cons_append]
        split
        · rename_i h
          exact absurd (List.cons.inj h).1 hd
        · split
          · rename_i h
            exact absurd (List.cons.inj h).1 hd
          · rfl

omit hb in
theorem signLength_append (hexponent : ['e', 'E', '+', '-'].contains b = false) (cs more : List Char) :
    signLength (cs ++ b :: more) = signLength cs := by
  unfold signLength
  cases cs with
  | nil =>
      dsimp only [List.nil_append]
      split
      · rename_i h
        obtain rfl := (List.cons.inj h).1
        cases hexponent
      · rename_i h
        obtain rfl := (List.cons.inj h).1
        cases hexponent
      · rfl
  | cons c cs => split <;> simp_all

theorem exponentLength_append (hexponent : ['e', 'E', '+', '-'].contains b = false)
    (cs more : List Char) : exponentLength (cs ++ b :: more) = exponentLength cs := by
  cases cs with
  | nil =>
      rw [List.nil_append, exponentLength_cons, if_neg]
      · rfl
      · rintro (rfl | rfl) <;> cases hexponent
  | cons e cs =>
      rw [List.cons_append, exponentLength_cons, exponentLength_cons, signLength_append hexponent,
        List.drop_append_of_le_length (signLength_le cs), takeWhile_append_cons hb]

theorem numberLength_append_cons (hexponent : ['e', 'E', '+', '-'].contains b = false)
    (hpoint : b = '.' → cs.all Char.isDigit = false) (more : List Char) :
    numberLength (cs ++ b :: more) = numberLength cs := by
  rw [numberLength_eq, numberLength_eq, mantissaLength_append hb hpoint,
    List.drop_append_of_le_length (mantissaLength_le cs), exponentLength_append hb hexponent]

end Numbers

section Pieces

variable {b c : Char} {cs more : List Char} (hb : continues b = false)

include hb

theorem isPrefixOf_append {s : List Char} (h : ∀ c ∈ s, continues c = true) (cs more : List Char) :
    s.isPrefixOf (cs ++ b :: more) = s.isPrefixOf cs := by
  induction s generalizing cs with
  | nil => simp
  | cons a s ih =>
      obtain ⟨ha, hs⟩ := List.forall_mem_cons.1 h
      cases cs with
      | nil =>
          have hne : a ≠ b := by
            rintro rfl
            rw [hb] at ha
            cases ha
          simp [List.isPrefixOf, hne]
      | cons c cs => rw [List.cons_append, List.isPrefixOf, List.isPrefixOf, ih hs]

theorem symbol_append (c : Char) (cs more : List Char) :
    symbols.find? (fun s => s.toList.isPrefixOf (c :: (cs ++ b :: more)))
      = symbols.find? fun s => s.toList.isPrefixOf (c :: cs) := by
  have tails : (symbols.all fun s => s.toList.tail.all continues) = true := by decide
  have hfind : ∀ l : List String, (∀ s ∈ l, s ∈ symbols) →
      l.find? (fun s => s.toList.isPrefixOf (c :: (cs ++ b :: more)))
        = l.find? fun s => s.toList.isPrefixOf (c :: cs) := by
    intro l hl
    induction l with
    | nil => rfl
    | cons s l ih =>
        obtain ⟨hs, hl⟩ := List.forall_mem_cons.1 hl
        have htail := List.all_eq_true.1 (List.all_eq_true.1 tails s hs)
        have hprefix : s.toList.isPrefixOf (c :: (cs ++ b :: more)) = s.toList.isPrefixOf (c :: cs) := by
          cases h : s.toList with
          | nil => rfl
          | cons a s' =>
              rw [h, List.tail_cons] at htail
              rw [List.isPrefixOf, List.isPrefixOf, isPrefixOf_append hb htail]
        rw [List.find?_cons, List.find?_cons, hprefix, ih hl]
  exact hfind symbols fun _ h => h

theorem numberLength_append (cs more : List Char) :
    numberLength (cs ++ b :: more) = numberLength cs := by
  have hpoint := ne_of_continues hb (d := '.') (by decide)
  have hexponent : ['e', 'E', '+', '-'].contains b = false := by
    rw [Bool.eq_false_iff]
    intro h
    simp only [List.contains_cons, List.contains_nil, Bool.or_false, Bool.or_eq_true, beq_iff_eq] at h
    rcases h with rfl | rfl | rfl | rfl <;> revert hb <;> decide
  exact numberLength_append_cons (isDigit_eq_false hb) hexponent (fun h => absurd h hpoint) more

/-- Characters that end tokens do not go on with the token in front of them, but for a string literal
without its end. -/
theorem shape_append_of_closed (h : c = '"' → closingQuote? false cs ≠ none) :
    shape c (cs ++ b :: more) = shape c cs := by
  have hname := takeWhile_append_cons (isNamePart_eq_false hb) cs more
  have hnumber := numberLength_append hb (c :: cs) more
  rw [List.cons_append] at hnumber
  unfold shape
  rw [symbol_append hb, hnumber, hname]
  split
  · rfl
  · split
    · rename_i hquote
      cases hclosing : closingQuote? false cs with
      | none => exact absurd hclosing (h hquote)
      | some n => rw [closingQuote?_append hclosing]
    · rfl

theorem shape_append (h : (shape c cs).1 ≠ .unknown) : shape c (cs ++ b :: more) = shape c cs := by
  refine shape_append_of_closed hb ?_
  rintro rfl hclosing
  rw [shape, if_neg (by decide), if_pos rfl, hclosing] at h
  exact h rfl

end Pieces

/-! ### The tokens of a text -/

/-- A token further behind in its source. -/
def shift (k : Nat) (t : Token) : Token :=
  { t with position := t.position + k }

theorem scanFrom_nil (position : Nat) :
    scanFrom position [] = [{ kind := .stop, text := "", position }] := by
  rw [scanFrom]

section Step

variable {c : Char} {cs : List Char} {n : Nat}

theorem scanFrom_skipped (h : skipped? c cs = some n) (position : Nat) :
    scanFrom position (c :: cs) = scanFrom (position + n + 1) (cs.drop n) := by
  rw [scanFrom, h]

theorem scanFrom_token (h : skipped? c cs = none) (position : Nat) :
    scanFrom position (c :: cs) = ofChars (shape c cs).1 c (cs.take (shape c cs).2) position
      :: scanFrom (position + (shape c cs).2 + 1) (cs.drop (shape c cs).2) := by
  rw [scanFrom, h]

end Step

/-- Tokens depend on where a text stands in their positions only. -/
theorem scanFrom_shift (k position : Nat) (cs : List Char) :
    scanFrom (position + k) cs = (scanFrom position cs).map (shift k) := by
  induction position, cs using scanFrom.induct with
  | case1 position =>
      rw [scanFrom_nil, scanFrom_nil]
      rfl
  | case2 position c cs n h ih =>
      rw [scanFrom_skipped h, scanFrom_skipped h, ← ih]
      congr 1
      omega
  | case3 position c cs h kind n hshape ih =>
      rw [scanFrom_token h, scanFrom_token h, hshape, List.map_cons, ← ih]
      congr 2
      omega

theorem closingQuote?_le {e : Bool} {cs : List Char} {n : Nat} (h : closingQuote? e cs = some n) :
    n ≤ cs.length := by
  induction cs generalizing e n with
  | nil => cases h
  | cons c cs ih =>
      unfold closingQuote? at h
      split at h
      · obtain rfl := Option.some.inj h
        exact Nat.succ_le_succ (Nat.zero_le _)
      · obtain ⟨m, hm, rfl⟩ := Option.map_eq_some_iff.1 h
        exact Nat.succ_le_succ (ih hm)

theorem symbol_length_le {c : Char} {cs : List Char} {s : String}
    (h : symbols.find? (fun s => s.toList.isPrefixOf (c :: cs)) = some s) : s.length - 1 ≤ cs.length := by
  have hprefix := List.find?_some (p := fun s : String => s.toList.isPrefixOf (c :: cs)) h
  have hlength := List.IsPrefix.length_le (List.isPrefixOf_iff_prefix.1 hprefix)
  rw [String.length_toList, List.length_cons] at hlength
  omega

/-- The ways in which a token starts with `c`, with `cs` behind it. -/
inductive Shaped (c : Char) (cs : List Char) : TokenKind × Nat → Prop
  | line (hc : c = '\n') : Shaped c cs (.newline, 0)
  | string {n : Nat} (hc : c = '"') (h : closingQuote? false cs = some n) : Shaped c cs (.str, n)
  | unclosed (hc : c = '"') (h : closingQuote? false cs = none) : Shaped c cs (.unknown, cs.length)
  | symbol {s : String} (h : symbols.find? (fun s => s.toList.isPrefixOf (c :: cs)) = some s) :
      Shaped c cs (.operator, s.length - 1)
  | number {n : Nat} (h : numberLength (c :: cs) = n + 1) : Shaped c cs (.number, n)
  | word (hc : Text.isNameStart c = true)
      (h : namedOperators.contains (String.ofList (c :: cs.takeWhile Text.isNamePart)) = true) :
      Shaped c cs (.operator, (cs.takeWhile Text.isNamePart).length)
  | name (hc : Text.isNameStart c = true)
      (h : namedOperators.contains (String.ofList (c :: cs.takeWhile Text.isNamePart)) = false) :
      Shaped c cs (.identifier, (cs.takeWhile Text.isNamePart).length)
  | delimiter (h : delimiters.contains c = true) : Shaped c cs (.delimiter, 0)
  | unknown : Shaped c cs (.unknown, 0)

theorem shaped (c : Char) (cs : List Char) : Shaped c cs (shape c cs) := by
  unfold shape
  split
  · exact .line ‹_›
  · split
    · cases h : closingQuote? false cs with
      | none => exact .unclosed ‹_› h
      | some n => exact .string ‹_› h
    · split
      · exact .symbol ‹_›
      · split
        · exact .number ‹_›
        · split
          · dsimp only
            split
            · exact .word ‹_› ‹_›
            · exact .name ‹_› (Bool.eq_false_iff.2 ‹_›)
          · split
            · exact .delimiter ‹_›
            · exact .unknown

/-- A token is made of characters of its text. -/
theorem shape_le (c : Char) (cs : List Char) : (shape c cs).2 ≤ cs.length := by
  have hshaped := shaped c cs
  generalize shape c cs = s at hshaped
  cases hshaped with
  | line => exact Nat.zero_le _
  | string _ h => exact closingQuote?_le h
  | unclosed => exact Nat.le_refl _
  | symbol h => exact symbol_length_le h
  | number h =>
      have hnumber := numberLength_le (c :: cs)
      rw [h] at hnumber
      exact Nat.le_of_succ_le_succ hnumber
  | word => exact length_takeWhile_le cs
  | name => exact length_takeWhile_le cs
  | delimiter => exact Nat.zero_le _
  | unknown => exact Nat.zero_le _

theorem shape_ne_stop (c : Char) (cs : List Char) : (shape c cs).1 ≠ .stop := by
  have hshaped := shaped c cs
  generalize shape c cs = s at hshaped
  cases hshaped <;> exact nofun

theorem skipped?_line (c : Char) (cs more : List Char) :
    skipped? c (cs ++ '\n' :: more) = skipped? c cs := by
  unfold skipped?
  rw [takeWhile_append_cons (by decide)]

theorem skipped?_le {c : Char} {cs : List Char} {n : Nat} (h : skipped? c cs = some n) :
    n ≤ cs.length := by
  unfold skipped? at h
  split at h
  · obtain rfl := Option.some.inj h
    exact Nat.zero_le _
  · split at h
    · obtain rfl := Option.some.inj h
      exact length_takeWhile_le cs
    · cases h

/-- The end of a text that ends at a position. -/
abbrev stopAt (position : Nat) : Token :=
  { kind := .stop, text := "", position }

/-- The last token of a text is its end, and no other is. -/
theorem exists_scanFrom (position : Nat) (cs : List Char) : ∃ tokens stop,
    scanFrom position cs = tokens ++ [stopAt stop] ∧ ∀ t ∈ tokens, t.kind ≠ .stop := by
  induction position, cs using scanFrom.induct with
  | case1 position => exact ⟨[], position, scanFrom_nil position, nofun⟩
  | case2 position c cs n hskipped ih =>
      rw [scanFrom_skipped hskipped]
      exact ih
  | case3 position c cs hskipped kind n hshape ih =>
      obtain ⟨tokens, stop, hscan, hstop⟩ := ih
      refine ⟨ofChars kind c (cs.take n) position :: tokens, stop, ?_, ?_⟩
      · rw [scanFrom_token hskipped, hshape, hscan]
        rfl
      · have hne := shape_ne_stop c cs
        rw [hshape] at hne
        rw [List.forall_mem_cons]
        exact ⟨hne, hstop⟩

/-- The tokens of a text with a line behind it. -/
theorem scanFrom_line {position stop : Nat} {cs : List Char} {tokens : List Token}
    (h : scanFrom position cs = tokens ++ [stopAt stop]) (known : ∀ t ∈ tokens, t.kind ≠ .unknown)
    (more : List Char) :
    scanFrom position (cs ++ '\n' :: more)
      = tokens ++ { kind := .newline, text := "\n", position := stop } :: scanFrom (stop + 1) more := by
  induction position, cs using scanFrom.induct generalizing tokens with
  | case1 position =>
      rw [scanFrom_nil] at h
      cases tokens with
      | nil =>
          obtain rfl : position = stop := by simpa using h
          rw [List.nil_append, scanFrom_token rfl]
          rfl
      | cons t tokens => simp at h
  | case2 position c cs n hskipped ih =>
      rw [scanFrom_skipped hskipped] at h
      have hskipped' : skipped? c (cs ++ '\n' :: more) = some n := by rw [skipped?_line, hskipped]
      rw [List.cons_append, scanFrom_skipped hskipped',
        List.drop_append_of_le_length (skipped?_le hskipped), ih h known]
  | case3 position c cs hskipped kind n hshape ih =>
      rw [scanFrom_token hskipped, hshape] at h
      cases tokens with
      | nil =>
          have hne := shape_ne_stop c cs
          rw [hshape] at hne
          exact absurd (congrArg Token.kind (List.cons.inj h).1) hne
      | cons t tokens =>
          obtain ⟨rfl, hrest⟩ := List.cons.inj h
          obtain ⟨hkind, known⟩ := List.forall_mem_cons.1 known
          have hle := shape_le c cs
          have hskipped' : skipped? c (cs ++ '\n' :: more) = none := by rw [skipped?_line, hskipped]
          have happend : shape c (cs ++ '\n' :: more) = (kind, n) := by
            rw [shape_append (by decide) (by rw [hshape]; exact hkind), hshape]
          rw [hshape] at hle
          rw [List.cons_append, scanFrom_token hskipped', happend,
            List.take_append_of_le_length hle, List.drop_append_of_le_length hle,
            ih hrest known]
          rfl

/-! ### The texts of tokens -/

/-- Whether a text is that of a number token. -/
def IsNumber (text : String) : Prop :=
  text ≠ "" ∧ numberLength text.toList = text.toList.length

theorem length_takeWhile_take (p : Char → Bool) (k : Nat) (cs : List Char) :
    ((cs.take k).takeWhile p).length = min k (cs.takeWhile p).length := by
  induction cs generalizing k with
  | nil => simp
  | cons c cs ih =>
      cases k with
      | zero => simp
      | succ k =>
          rw [List.take_succ_cons, List.takeWhile_cons, List.takeWhile_cons]
          split
          · rw [List.length_cons, List.length_cons, ih, Nat.add_min_add_right]
          · exact (Nat.min_zero _).symm

theorem mantissaLength_take {cs : List Char} {k : Nat} (h : mantissaLength cs ≤ k) :
    mantissaLength (cs.take k) = mantissaLength cs := by
  have hwhole := length_takeWhile_take Char.isDigit k cs
  have hle : (cs.takeWhile Char.isDigit).length ≤ k := by
    unfold mantissaLength at h
    dsimp only at h
    split at h
    · split at h <;> omega
    · exact h
  unfold mantissaLength at h ⊢
  dsimp only at h ⊢
  rw [hwhole, Nat.min_eq_right hle, List.drop_take]
  generalize (cs.takeWhile Char.isDigit).length = whole at h hle ⊢
  generalize cs.drop whole = behind at h ⊢
  by_cases hpoint : ∃ rest, behind = '.' :: rest
  · obtain ⟨rest, rfl⟩ := hpoint
    change (if whole = 0 ∧ (rest.takeWhile Char.isDigit).length = 0 then 0
      else whole + 1 + (rest.takeWhile Char.isDigit).length) ≤ k at h
    change _ = if whole = 0 ∧ (rest.takeWhile Char.isDigit).length = 0 then 0
      else whole + 1 + (rest.takeWhile Char.isDigit).length
    cases hk : k - whole with
    | zero =>
        -- a point that counts would be among the characters that are taken
        rw [List.take_zero]
        split at h
        · rename_i hnone
          rw [if_pos hnone, hnone.1]
        · omega
    | succ m =>
        have hfraction := length_takeWhile_take Char.isDigit m rest
        rw [List.take_succ_cons]
        change (if whole = 0 ∧ ((rest.take m).takeWhile Char.isDigit).length = 0 then 0
          else whole + 1 + ((rest.take m).takeWhile Char.isDigit).length) = _
        rw [hfraction]
        split at h
        · rename_i hnone
          rw [hnone.2, Nat.min_zero]
        · rw [Nat.min_eq_right (by omega)]
  · have htake : ∀ rest, behind.take (k - whole) ≠ '.' :: rest := by
      intro rest htake
      cases behind with
      | nil => simp at htake
      | cons d behind =>
          cases hk : k - whole with
          | zero => simp [hk] at htake
          | succ m =>
              rw [hk, List.take_succ_cons] at htake
              exact hpoint ⟨behind, by rw [(List.cons.inj htake).1]⟩
    split
    · rename_i rest hrest
      exact absurd hrest (htake rest)
    · split
      · exact absurd ⟨_, rfl⟩ hpoint
      · rfl

theorem signLength_take (cs : List Char) (k : Nat) : signLength (cs.take (k + 1)) = signLength cs := by
  cases cs with
  | nil => rw [List.take_nil]
  | cons c cs =>
      rw [List.take_succ_cons]
      unfold signLength
      split <;> simp_all

theorem exponentLength_take {cs : List Char} {k : Nat} (h : exponentLength cs ≤ k) :
    exponentLength (cs.take k) = exponentLength cs := by
  cases cs with
  | nil => rw [List.take_nil]
  | cons e cs =>
      cases k with
      | zero =>
          rw [List.take_zero, Nat.le_zero.1 h]
          rfl
      | succ k =>
          rw [List.take_succ_cons, exponentLength_cons, exponentLength_cons]
          rw [exponentLength_cons] at h
          split
          · rename_i he
            rw [if_pos he] at h
            cases k with
            | zero =>
                rw [List.take_zero]
                generalize ((cs.drop (signLength cs)).takeWhile Char.isDigit).length = digits at h ⊢
                cases digits with
                | zero => rfl
                | succ digits =>
                    change 1 + signLength cs + (digits + 1) ≤ 0 + 1 at h
                    omega
            | succ k =>
                rw [signLength_take, List.drop_take, length_takeWhile_take]
                generalize ((cs.drop (signLength cs)).takeWhile Char.isDigit).length = digits at h ⊢
                cases digits with
                | zero => rw [Nat.min_zero]
                | succ digits =>
                    change 1 + signLength cs + (digits + 1) ≤ k + 1 + 1 at h
                    rw [Nat.min_eq_right (by omega)]
          · rfl

/-- The characters of a number are a number by themselves. -/
theorem numberLength_take (cs : List Char) :
    numberLength (cs.take (numberLength cs)) = numberLength cs := by
  rw [numberLength_eq cs]
  split
  · rfl
  · rename_i h
    rw [numberLength_eq, mantissaLength_take (Nat.le_add_right _ _), if_neg h, List.drop_take,
      Nat.add_sub_cancel_left, exponentLength_take (Nat.le_refl _)]

theorem isNumber_take {c : Char} {cs : List Char} {n : Nat} (h : numberLength (c :: cs) = n + 1) :
    IsNumber (String.ofList (c :: cs.take n)) := by
  have htake := numberLength_take (c :: cs)
  have hle := numberLength_le (c :: cs)
  rw [h, List.take_succ_cons] at htake
  rw [h] at hle
  refine ⟨?_, ?_⟩
  · intro hempty
    have := congrArg String.toList hempty
    rw [String.toList_ofList] at this
    cases this
  · rw [String.toList_ofList, htake, List.length_cons, List.length_take,
      Nat.min_eq_left (Nat.le_of_succ_le_succ hle)]

theorem isIdentifier_takeWhile {c : Char} {cs : List Char} (hc : Text.isNameStart c = true)
    (h : namedOperators.contains (String.ofList (c :: cs.takeWhile Text.isNamePart)) = false) :
    isIdentifier (String.ofList (c :: cs.takeWhile Text.isNamePart)) = true := by
  rw [isIdentifier, String.toList_ofList]
  simp only [hc, List.all_takeWhile, h]
  rfl

theorem take_takeWhile (p : Char → Bool) (cs : List Char) :
    cs.take (cs.takeWhile p).length = cs.takeWhile p :=
  (List.prefix_iff_eq_take.1 (List.takeWhile_prefix _)).symm

/-- Tokens of a source have the texts of their kinds. -/
theorem scanFrom_texts (position : Nat) (cs : List Char) : ∀ t ∈ scanFrom position cs,
    (t.kind = .number → IsNumber t.text) ∧ (t.kind = .identifier → isIdentifier t.text = true) := by
  induction position, cs using scanFrom.induct with
  | case1 position =>
      rw [scanFrom_nil]
      intro t ht
      obtain rfl := List.mem_singleton.1 ht
      exact ⟨nofun, nofun⟩
  | case2 position c cs n hskipped ih =>
      rw [scanFrom_skipped hskipped]
      exact ih
  | case3 position c cs hskipped kind n hshape ih =>
      rw [scanFrom_token hskipped, List.forall_mem_cons, hshape]
      refine ⟨?_, ih⟩
      have h := shaped c cs
      rw [hshape] at h
      cases h with
      | number h => exact ⟨fun _ => isNumber_take h, nofun⟩
      | name hc h =>
          refine ⟨nofun, fun _ => ?_⟩
          have hname := isIdentifier_takeWhile hc h
          rw [← take_takeWhile] at hname
          exact hname
      | _ => exact ⟨nofun, nofun⟩

end Formula.Token
