import Formula.Text.Shown
import Mathlib.Data.Nat.Digits.Defs

/-!
What is shown of a text tells the text.

How a character is shown can be read back, whatever is behind it (`readShown?_showChar`), so texts that
are shown alike are the same (`shown_injective`). Numbers that are written alike are the same, too
(`toString_nat_injective`).
-/

namespace Formula.Text

/-! ### Numbers -/

theorem hexValue?_digitChar : ∀ d < 16, hexValue? d.digitChar = some d := by
  decide

theorem digitChar_ne_brace : ∀ d < 16, d.digitChar ≠ '\x7d' := by
  decide

/-- The digits of a number are those of numbers below the base. -/
theorem exists_of_mem_toDigits {b n : Nat} (hb : 1 < b) {c : Char} (h : c ∈ Nat.toDigits b n) :
    ∃ d < b, c = d.digitChar := by
  induction n using Nat.strongRecOn with
  | ind n ih =>
    rw [Nat.toDigits_eq_if hb] at h
    split at h
    next hlt => exact ⟨n, hlt, List.mem_singleton.1 h⟩
    next hle =>
      rcases List.mem_append.1 h with h | h
      · exact ih (n / b) (Nat.div_lt_self (by omega) hb) h
      · exact ⟨n % b, Nat.mod_lt n (by omega), List.mem_singleton.1 h⟩

/-- The number that some digits write, behind others. -/
def readHex (n : Nat) (cs : List Char) : Nat :=
  cs.foldl (fun n c => n * 16 + (hexValue? c).getD 0) n

theorem readHex_concat (n : Nat) (cs : List Char) (c : Char) :
    readHex n (cs ++ [c]) = readHex n cs * 16 + (hexValue? c).getD 0 := by
  rw [readHex, List.foldl_append]
  rfl

theorem readHex_hexDigits (n : Nat) : readHex 0 (hexDigits n) = n := by
  induction n using Nat.strongRecOn with
  | ind n ih =>
    have hvalue := hexValue?_digitChar (n % 16) (Nat.mod_lt n (by decide))
    rw [hexDigits, Nat.toDigits_eq_if (by decide)]
    split
    next hlt =>
      rw [← List.nil_append [n.digitChar], readHex_concat, hexValue?_digitChar n hlt]
      exact Nat.zero_add n
    next hle =>
      have hrest := ih (n / 16) (Nat.div_lt_self (by omega) (by decide))
      rw [readHex_concat, ← hexDigits, hrest, hvalue, Option.getD_some, Nat.div_add_mod']

theorem toString_nat_injective {i j : Nat} (h : toString i = toString j) : i = j := by
  have hdigits : Nat.toDigits 10 i = Nat.toDigits 10 j := String.ofList_injective h
  rw [← Nat.ofDigitChars_toDigits (n := i) (by decide) (Nat.le_refl 10), hdigits,
    Nat.ofDigitChars_toDigits (by decide) (Nat.le_refl 10)]

/-! ### Characters -/

/-- The character that is shown by a backslash and what is behind it, and what is behind that. -/
def readEscape? : List Char → Option (Char × List Char)
  | '0' :: cs => some (Char.ofNat 0, cs)
  | 't' :: cs => some (Char.ofNat 9, cs)
  | 'n' :: cs => some (Char.ofNat 10, cs)
  | 'r' :: cs => some (Char.ofNat 13, cs)
  | 'u' :: cs =>
    let digits := (cs.drop 1).takeWhile (· ≠ '\x7d')
    some (Char.ofNat (readHex 0 digits), cs.drop (digits.length + 2))
  | c :: cs => some (c, cs)
  | [] => none

/-- The character that is shown at the front, and what is behind it. -/
def readShown? : List Char → Option (Char × List Char)
  | [] => none
  | c :: cs => if c = '\\' then readEscape? cs else some (c, cs)

/-- A character that is shown can be read back. -/
theorem readShown?_showChar (c : Char) (cs : List Char) :
    readShown? (showChar c ++ cs) = some (c, cs) := by
  have ofNat : ∀ n : Nat, c.toNat = n → Char.ofNat n = c := fun n h => by rw [← h, Char.ofNat_toNat]
  unfold showChar
  split
  next h => rw [← ofNat 0 h]; rfl
  split
  next h => rw [← ofNat 9 h]; rfl
  split
  next h => rw [← ofNat 10 h]; rfl
  split
  next h => rw [← ofNat 13 h]; rfl
  split
  next h => rw [h]; rfl
  split
  next h => rw [h]; rfl
  next hslash =>
    split
    next => rw [List.singleton_append, readShown?, if_neg hslash]
    next =>
      -- no digit is a brace
      have hdigits : ∀ d ∈ hexDigits c.toNat, decide (d ≠ '\x7d') = true := by
        intro d hd
        obtain ⟨n, hn, rfl⟩ := exists_of_mem_toDigits (by decide) hd
        exact decide_eq_true (digitChar_ne_brace n hn)
      have htext : ['\\', 'u', '\x7b'] ++ hexDigits c.toNat ++ ['\x7d'] ++ cs
          = '\\' :: 'u' :: '\x7b' :: (hexDigits c.toNat ++ '\x7d' :: cs) := by simp
      have htake : (hexDigits c.toNat ++ '\x7d' :: cs).takeWhile (· ≠ '\x7d') = hexDigits c.toNat := by
        rw [List.takeWhile_append_of_pos hdigits, List.takeWhile_cons_of_neg (by decide),
          List.append_nil]
      rw [htext, readShown?, if_pos rfl, readEscape?]
      simp only [List.drop_succ_cons, List.drop_zero, htake, readHex_hexDigits, Char.ofNat_toNat]
      rw [List.drop_append]
      simp

/-! ### Texts -/

theorem showChar_ne_nil (c : Char) : showChar c ≠ [] := by
  intro h
  have hread := readShown?_showChar c []
  rw [h] at hread
  cases hread

theorem flatMap_showChar_injective {cs ds : List Char} (h : cs.flatMap showChar = ds.flatMap showChar) :
    cs = ds := by
  induction cs generalizing ds with
  | nil =>
    cases ds with
    | nil => rfl
    | cons d ds => exact absurd (List.append_eq_nil_iff.1 h.symm).1 (showChar_ne_nil d)
  | cons c cs ih =>
    cases ds with
    | nil => exact absurd (List.append_eq_nil_iff.1 h).1 (showChar_ne_nil c)
    | cons d ds =>
      have hread := congrArg readShown? h
      rw [List.flatMap_cons, List.flatMap_cons, readShown?_showChar, readShown?_showChar] at hread
      obtain ⟨rfl, hrest⟩ := Prod.mk.inj (Option.some.inj hread)
      rw [ih hrest]

/-- Texts that are shown alike are the same. -/
theorem shown_injective {s t : String} (h : shown s = shown t) : s = t := by
  have hinside := List.append_cancel_right (List.cons.inj (String.ofList_injective h)).2
  exact String.toList_injective (flatMap_showChar_injective hinside)

end Formula.Text
