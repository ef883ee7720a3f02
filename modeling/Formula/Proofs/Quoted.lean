import Formula.Proofs.Words
import Formula.Text.Quoted

/-!
What is written between quotes is one token, whatever it says (`isCut_quote`), and is read as what it
says (`unescape?_escape`).
-/

namespace Formula.Text

/-! ### Where a quoted text ends -/

/-- A hexadecimal digit is neither a quote nor a backslash. -/
theorem hexDigit_ne (n : Nat) (h : n < 16) : hexDigit n ≠ '"' ∧ hexDigit n ≠ '\\' := by
  revert n
  decide

theorem closingQuote?_cons {c : Char} (h : c ≠ '"') (h' : c ≠ '\\') (cs : List Char) :
    Token.closingQuote? false (c :: cs) = (Token.closingQuote? false cs).map (· + 1) := by
  simp [Token.closingQuote?, h, h']

theorem closingQuote?_escaped (c : Char) (cs : List Char) :
    Token.closingQuote? false ('\\' :: c :: cs) = (Token.closingQuote? false cs).map (· + 2) := by
  simp [Token.closingQuote?]

theorem closingQuote?_escapeChar (c : Char) (cs : List Char) :
    Token.closingQuote? false (escapeChar c ++ cs)
      = (Token.closingQuote? false cs).map (· + (escapeChar c).length) := by
  unfold escapeChar
  split
  · exact closingQuote?_escaped _ _
  · split
    · exact closingQuote?_escaped _ _
    · repeat' split
      all_goals try exact closingQuote?_escaped _ _
      · rename_i hcontrol
        have hex := hexDigit_ne (c.toNat / 16) (by omega)
        have hex' := hexDigit_ne (c.toNat % 16) (by omega)
        simp only [List.cons_append, List.nil_append]
        rw [closingQuote?_escaped, closingQuote?_cons (by decide) (by decide),
          closingQuote?_cons (by decide) (by decide), closingQuote?_cons hex.1 hex.2,
          closingQuote?_cons hex'.1 hex'.2]
        simp
      · exact closingQuote?_cons ‹_› ‹_› cs

theorem closingQuote?_escape (s cs : List Char) :
    Token.closingQuote? false (escape s ++ '"' :: cs) = some ((escape s).length + 1) := by
  induction s with
  | nil => rfl
  | cons c s ih =>
      rw [escape, List.flatMap_cons, List.append_assoc, closingQuote?_escapeChar, ← escape, ih]
      simp
      omega

/-! ### What a quoted text says -/

/-- What is written for a character between quotes is read as the character. -/
theorem unescapeChar?_escapeChar (c : Char) (cs : List Char) : ∃ first rest n,
    escapeChar c ++ cs = first :: rest ∧ first ≠ '"' ∧ unescapeChar? first rest = some (c, n) ∧
      rest.drop n = cs := by
  have ofNat : ∀ n : Nat, c.toNat = n → c = Char.ofNat n := fun n h => by rw [← h, Char.ofNat_toNat]
  unfold escapeChar
  by_cases hquote : c = '"'
  · subst hquote
    exact ⟨_, _, 1, rfl, by decide, rfl, rfl⟩
  · by_cases hslash : c = '\\'
    · subst hslash
      exact ⟨_, _, 1, rfl, by decide, rfl, rfl⟩
    · rw [if_neg hquote, if_neg hslash]
      by_cases hcontrol : c.toNat < 32
      · generalize hn : c.toNat = n at hcontrol
        obtain rfl := ofNat n hn
        clear hn ofNat hquote hslash
        -- control characters: the ones with an escape of their own, and the numbered ones
        interval_cases n <;>
          first
          | exact ⟨_, _, 1, rfl, by decide, rfl, rfl⟩
          | exact ⟨_, _, 5, rfl, by decide, rfl, rfl⟩
      · rw [if_neg (by omega), if_neg (by omega), if_neg (by omega), if_neg (by omega), if_neg (by omega),
          if_neg hcontrol]
        refine ⟨c, cs, 0, rfl, hquote, ?_, rfl⟩
        unfold unescapeChar?
        rw [if_neg hslash, if_neg (by simp [hquote, hcontrol])]

theorem unquote?_escape (s cs : List Char) : unquote? (escape s ++ '"' :: cs) = some (s, cs) := by
  induction s with
  | nil =>
      rw [show escape [] ++ '"' :: cs = '"' :: cs from rfl, unquote?, if_pos rfl]
  | cons c s ih =>
      obtain ⟨first, rest, n, htext, hquote, hread, hrest⟩ :=
        unescapeChar?_escapeChar c (escape s ++ '"' :: cs)
      rw [escape, List.flatMap_cons, List.append_assoc, ← escape, htext, unquote?, if_neg hquote, hread]
      simp only [hrest, ih]
      rfl

/-- A text that is written between quotes is read as the text. -/
theorem unescape?_escape (s : String) : unescape? (String.ofList (escape s.toList)) = some s := by
  rw [unescape?, String.toList_ofList, unquote?_escape]
  simp

/-- A text between quotes is one token. -/
theorem isCut_quote (s : String) :
    Token.IsCut (fun _ => True) (quote s) .str (String.ofList (escape s.toList)) := by
  intro position more _
  have hclosing := closingQuote?_escape s.toList more
  have hskipped : ∀ cs, Token.skipped? '"' cs = none := fun _ => rfl
  have htext : (quote s).toList ++ more = '"' :: (escape s.toList ++ '"' :: more) := by
    simp [quote]
  have hlength : (quote s).length = (escape s.toList).length + 2 := by
    rw [quote, String.length_ofList, List.length_append, List.length_cons, List.length_singleton]
  have hshape : Token.shape '"' (escape s.toList ++ '"' :: more)
      = (.str, (escape s.toList).length + 1) := by
    rw [Token.shape, if_neg (by decide), if_pos rfl, hclosing]
  have htake : (escape s.toList ++ '"' :: more).take ((escape s.toList).length + 1)
      = escape s.toList ++ ['"'] := by
    rw [List.take_length_add_append, List.take_succ_cons, List.take_zero]
  have hdrop : (escape s.toList ++ '"' :: more).drop ((escape s.toList).length + 1) = more := by
    rw [List.drop_length_add_append, List.drop_succ_cons, List.drop_zero]
  rw [htext, Token.scanFrom_token (hskipped _), hshape, htake, hdrop, hlength, Token.ofChars,
    if_pos rfl, List.dropLast_concat]
  rfl

end Formula.Text
