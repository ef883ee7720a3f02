import Formula.Proofs.Grammar.Alignment
import Formula.Proofs.Lines
import Formula.Proofs.Scanning.Tiling

/-!
Sources with single spaces between their tokens.

What is cut off a source as a token is one token by itself (`shape_take`), and a space behind it does
not change that. So the spellings of the tokens with a space behind each are cut into the same tokens
again (`Cut.respaced`). A string literal without its end takes all that follows it, but then it is the
last token. Since the grammar does not look at positions, both sources are parsed alike
(`parse_respaced`).
-/

namespace Formula.Token

/-! ### Tokens by themselves -/

theorem closingQuote?_take {e : Bool} {cs : List Char} {n : Nat} (h : closingQuote? e cs = some n) :
    closingQuote? e (cs.take n) = some n := by
  induction cs generalizing e n with
  | nil => cases h
  | cons c cs ih =>
      unfold closingQuote? at h
      split at h
      · rename_i hc
        obtain rfl := Option.some.inj h
        rw [List.take_succ_cons, closingQuote?, if_pos hc]
      · rename_i hc
        obtain ⟨m, hm, rfl⟩ := Option.map_eq_some_iff.1 h
        rw [List.take_succ_cons, closingQuote?, if_neg hc, ih hm]
        rfl

theorem find?_symbols_take_eq_none {c : Char} {cs : List Char}
    (h : symbols.find? (fun s => s.toList.isPrefixOf (c :: cs)) = none) (n : Nat) :
    symbols.find? (fun s => s.toList.isPrefixOf (c :: cs.take n)) = none := by
  rw [List.find?_eq_none] at h ⊢
  intro s hs hprefix
  refine h s hs (List.isPrefixOf_iff_prefix.2 ?_)
  exact (List.isPrefixOf_iff_prefix.1 hprefix).trans (List.cons_prefix_cons.2 ⟨rfl, List.take_prefix n cs⟩)

/-- The symbol in front of a text is the one that it consists of. -/
theorem find?_symbols_take {c : Char} {cs : List Char} {s : String}
    (h : symbols.find? (fun s => s.toList.isPrefixOf (c :: cs)) = some s) :
    symbols.find? (fun other => other.toList.isPrefixOf (c :: cs.take (s.length - 1))) = some s := by
  obtain ⟨hs, before, after, hsymbols, hbefore⟩ := List.find?_eq_some_iff_append.1 h
  have hprefix := List.isPrefixOf_iff_prefix.1 hs
  have nonempty : ∀ s ∈ symbols, s.toList ≠ [] := by decide
  have hsymbol : s.toList = c :: cs.take (s.length - 1) := by
    have hne := nonempty s (hsymbols ▸ by simp)
    have htake := List.prefix_iff_eq_take.1 hprefix
    rw [String.length_toList] at htake
    cases hlength : s.length with
    | zero => exact absurd (List.length_eq_zero_iff.1 (String.length_toList.trans hlength)) hne
    | succ n => rw [htake, hlength, List.take_succ_cons, Nat.add_sub_cancel]
  refine List.find?_eq_some_iff_append.2 ⟨?_, before, after, hsymbols, fun other hother => ?_⟩
  · rw [← hsymbol]
    simp
  · have := hbefore other hother
    rw [Bool.not_eq_true', Bool.eq_false_iff] at this ⊢
    intro hprefix'
    rw [← hsymbol] at hprefix'
    exact this (List.isPrefixOf_iff_prefix.2 ((List.isPrefixOf_iff_prefix.1 hprefix').trans hprefix))

theorem numberLength_ne_zero {c : Char} (hc : c.isDigit = true) (cs : List Char) :
    numberLength (c :: cs) ≠ 0 := by
  have hmantissa : mantissaLength (c :: cs) ≠ 0 := by
    unfold mantissaLength
    rw [List.takeWhile_cons, if_pos hc, List.length_cons]
    dsimp only
    split
    · rw [if_neg (by omega)]
      omega
    · omega
  rw [numberLength_eq, if_neg hmantissa]
  omega

theorem numberLength_singleton {c : Char} {cs : List Char} (h : numberLength (c :: cs) = 0) :
    numberLength [c] = 0 := by
  by_contra hnumber
  obtain hdigit | ⟨_, _, _, hcs, _⟩ := starts_of_numberLength hnumber
  · exact numberLength_ne_zero hdigit cs h
  · cases hcs

/-- What starts neither a symbol nor a number is a name, a delimiter or unknown. -/
theorem shape_bare {c : Char} {cs : List Char} (hline : c ≠ '\n') (hquote : c ≠ '"')
    (hsymbol : symbols.find? (fun s => s.toList.isPrefixOf (c :: cs)) = none)
    (hnumber : numberLength (c :: cs) = 0) : shape c cs =
      if Text.isNameStart c then
        (if namedOperators.contains (String.ofList (c :: cs.takeWhile Text.isNamePart)) then .operator
          else .identifier, (cs.takeWhile Text.isNamePart).length)
      else if delimiters.contains c then (.delimiter, 0)
      else (.unknown, 0) := by
  rw [shape, if_neg hline, if_neg hquote, hsymbol, hnumber]

/-- The characters of a token are one of the same kind by themselves. -/
theorem shape_take (c : Char) (cs : List Char) :
    shape c (cs.take (shape c cs).2) = shape c cs := by
  by_cases hline : c = '\n'
  · rw [shape, shape, if_pos hline, if_pos hline]
  by_cases hquote : c = '"'
  · cases hclosing : closingQuote? false cs with
    | none =>
        have hshape : shape c cs = (.unknown, cs.length) := by
          rw [shape, if_neg hline, if_pos hquote, hclosing]
        rw [hshape, List.take_length, hshape]
    | some n =>
        have hshape : shape c cs = (.str, n) := by
          rw [shape, if_neg hline, if_pos hquote, hclosing]
        rw [hshape, shape, if_neg hline, if_pos hquote, closingQuote?_take hclosing]
  cases hsymbol : symbols.find? fun s => s.toList.isPrefixOf (c :: cs) with
  | some s =>
      have hshape : shape c cs = (.operator, s.length - 1) := by
        rw [shape, if_neg hline, if_neg hquote, hsymbol]
      rw [hshape, shape, if_neg hline, if_neg hquote, find?_symbols_take hsymbol]
  | none =>
      have hnone := find?_symbols_take_eq_none hsymbol
      cases hnumber : numberLength (c :: cs) with
      | succ n =>
          have hshape : shape c cs = (.number, n) := by
            rw [shape, if_neg hline, if_neg hquote, hsymbol, hnumber]
          have htake := numberLength_take (c :: cs)
          rw [hnumber, List.take_succ_cons] at htake
          rw [hshape, shape, if_neg hline, if_neg hquote, hnone, htake]
      | zero =>
          have hshape := shape_bare hline hquote hsymbol hnumber
          by_cases hname : Text.isNameStart c = true
          · have hself : (cs.takeWhile Text.isNamePart).takeWhile Text.isNamePart
                = cs.takeWhile Text.isNamePart :=
              List.takeWhile_eq_self_iff.2 fun _ h => List.all_eq_true.1 List.all_takeWhile _ h
            have hword := shape_bare hline hquote (hnone (cs.takeWhile Text.isNamePart).length)
              (numberLength_eq_zero hname _)
            rw [if_pos hname] at hshape hword
            rw [hshape, hword, take_takeWhile, hself]
          · have hlength : (shape c cs).2 = 0 := by
              rw [hshape, if_neg hname]
              split <;> rfl
            have halone := shape_bare hline hquote (hnone 0) (numberLength_singleton hnumber)
            rw [if_neg hname] at hshape halone
            rw [hlength, hshape]
            exact halone

/-! ### Tokens with spaces behind them -/

/-- The token in front of a text is cut off by what does not go on with it, but for a string literal
without its end, which has nothing behind it. -/
theorem isCut_token {A : List Char → Prop} {c : Char} {cs : List Char} (position : Nat)
    (hskipped : skipped? c cs = none)
    (hA : ∀ more, A more → more = [] ∨ Apart false more ∧ (c = '"' → closingQuote? false cs ≠ none)) :
    IsCut A (ofChars (shape c cs).1 c (cs.take (shape c cs).2) position).spelling (shape c cs).1
      (ofChars (shape c cs).1 c (cs.take (shape c cs).2) position).text := by
  intro position' more hmore
  have hlength : (cs.take (shape c cs).2).length = (shape c cs).2 :=
    List.length_take_of_le (shape_le c cs)
  have hshape : shape c (cs.take (shape c cs).2 ++ more) = shape c cs := by
    cases more with
    | nil => rw [List.append_nil, shape_take]
    | cons b more =>
        obtain h | ⟨hapart, hclosed⟩ := hA _ hmore
        · cases h
        · have hb : continues b = false := by simpa using hapart b more rfl
          rw [shape_append_of_closed hb ?_, shape_take]
          rintro hquote hnone
          cases hclosing : closingQuote? false cs with
          | none => exact hclosed hquote hclosing
          | some n =>
              have hstr : shape c cs = (.str, n) := by
                rw [shape, if_neg (by rw [hquote]; decide), if_pos hquote, hclosing]
              rw [hstr, closingQuote?_take hclosing] at hnone
              cases hnone
  rw [← String.length_toList, spelling_ofChars, List.cons_append,
    scanFrom_token (skipped?_eq_none hskipped _), hshape, List.take_left' hlength,
    List.drop_left' hlength, List.length_cons, hlength]
  rfl

/-- Tokens each of which can have a space behind it, but for the last one. -/
inductive Cut : List Token → Prop
  | nil : Cut []
  | last {t : Token} (h : IsCut (· = []) t.spelling t.kind t.text) : Cut [t]
  | cons {t : Token} {tokens : List Token} (h : IsCut (Apart false) t.spelling t.kind t.text)
      (more : Cut tokens) : Cut (t :: tokens)

theorem cut_scanFrom (position : Nat) (cs : List Char) : ∃ body stop,
    scanFrom position cs = body ++ [stopAt stop] ∧ (∀ t ∈ body, t.kind ≠ .stop) ∧ Cut body := by
  induction position, cs using scanFrom.induct with
  | case1 position => exact ⟨[], position, scanFrom_nil position, List.forall_mem_nil _, .nil⟩
  | case2 position c cs n hskipped ih =>
      rw [scanFrom_skipped hskipped]
      exact ih
  | case3 position c cs hskipped kind n hshape ih =>
      obtain ⟨body, stop, hscan, hkinds, hcut⟩ := ih
      have hstop := shape_ne_stop c cs
      have token := fun A => @isCut_token A c cs position hskipped
      rw [scanFrom_token hskipped]
      rw [hshape] at hstop token ⊢
      rw [hscan]
      refine ⟨_, stop, rfl, List.forall_mem_cons.2 ⟨hstop, hkinds⟩, ?_⟩
      by_cases hclosed : c = '"' → closingQuote? false cs ≠ none
      · exact .cons (token _ fun more hmore => .inr ⟨hmore, hclosed⟩) hcut
      · -- the literal takes all that is behind it
        obtain ⟨hquote, hnone⟩ := Classical.not_imp.1 hclosed
        have hrest : cs.drop n = [] := by
          have hunknown : shape c cs = (.unknown, cs.length) := by
            rw [shape, if_neg (by rw [hquote]; decide), if_pos hquote, not_not.1 hnone]
          obtain ⟨-, rfl⟩ := Prod.mk.inj (hshape.symm.trans hunknown)
          exact List.drop_length
        rw [hrest, scanFrom_nil] at hscan
        cases body with
        | nil => exact .last (token _ fun more hmore => .inl hmore)
        | cons t body => simp at hscan

/-- The spellings of tokens with spaces between them are cut into the same tokens. -/
theorem Cut.respaced {tokens : List Token} (h : Cut tokens) (position : Nat) : ∃ body stop,
    scanFrom position (" ".intercalate (tokens.map spelling)).toList = body ++ [stopAt stop] ∧
      List.Forall₂ IsAlike tokens body := by
  induction h generalizing position with
  | nil => exact ⟨[], position, scanFrom_nil position, .nil⟩
  | @last t h =>
      have hscan := h position [] rfl
      rw [List.append_nil, scanFrom_nil] at hscan
      rw [List.map_singleton, String.intercalate_singleton, hscan]
      exact ⟨[_], _, rfl, .cons ⟨rfl, rfl⟩ .nil⟩
  | @cons t tokens h hmore ih =>
      cases tokens with
      | nil =>
          have hscan := h position [] (apart_nil false)
          rw [List.append_nil, scanFrom_nil] at hscan
          rw [List.map_singleton, String.intercalate_singleton, hscan]
          exact ⟨[_], _, rfl, .cons ⟨rfl, rfl⟩ .nil⟩
      | cons u tokens =>
          obtain ⟨body, stop, hscan, halike⟩ := ih (position + t.spelling.length + 1)
          have happend : (" ".intercalate ((t :: u :: tokens).map spelling)).toList = t.spelling.toList
              ++ ' ' :: (" ".intercalate ((u :: tokens).map spelling)).toList := by
            rw [List.map_cons, List.map_cons, String.intercalate_cons_cons, String.toList_append,
              String.toList_append, List.append_assoc]
            rfl
          rw [happend, h position _ (apart_cons (by decide) _ _), scanFrom_space, hscan]
          exact ⟨_ :: body, stop, rfl, .cons ⟨rfl, rfl⟩ halike⟩

/-- A source with single spaces between its tokens and nothing else. -/
def respaced (source : String) : String :=
  " ".intercalate (((scan source).filter fun t => t.kind != .stop).map spelling)

theorem forall₂_scan_respaced (source : String) :
    List.Forall₂ IsAlike (scan source) (scan (respaced source)) := by
  obtain ⟨body, stop, hscan, hkinds, hcut⟩ := cut_scanFrom 0 source.toList
  obtain ⟨body', stop', hscan', halike⟩ := hcut.respaced 0
  have hbody : (scan source).filter (fun t => t.kind != .stop) = body := by
    rw [scan, hscan, List.filter_append, List.filter_eq_self.2 fun t ht => by simpa using hkinds t ht]
    exact List.append_nil _
  rw [scan, hscan, respaced, hbody, scan, hscan']
  exact List.rel_append halike (.cons ⟨rfl, rfl⟩ .nil)

end Formula.Token

namespace Formula.Expr

open Grammar (Alike Aligned)
open Token (scan respaced)

/-- Whether two positions are those of the same token in two sources. -/
def SameToken (source source' : String) (position position' : Nat) : Prop :=
  ∃ (i : Nat) (t t' : Token), (scan source)[i]? = some t ∧ (scan source')[i]? = some t' ∧
    t.position = position ∧ t'.position = position'

theorem aligned_respaced (source : String) :
    Aligned (SameToken source (respaced source)) (scan source) (scan (respaced source)) := by
  have halike := Token.forall₂_scan_respaced source
  have hlength := halike.length_eq
  refine ⟨List.forall₂_iff_get.2 ⟨hlength, fun i h h' => ?_⟩, Grammar.closed_scanFrom 0 _⟩
  obtain ⟨kind, text⟩ := halike.get h h'
  exact ⟨kind, text, i, _, _, List.getElem?_eq_getElem h, List.getElem?_eq_getElem h', rfl, rfl⟩

/-- The spellings of the tokens of a source with single spaces between them have the same kinds and texts
of tokens, and are parsed to the same tree, or have the same fault at the same token. -/
theorem parse_respaced (source : String) :
    (scan (respaced source)).map (fun t => (t.kind, t.text))
        = (scan source).map (fun t => (t.kind, t.text)) ∧
      ((∃ e, parse source = .ok e ∧ parse (respaced source) = .ok e) ∨
        ∃ fault position position', parse source = .error ⟨fault, position⟩ ∧
          parse (respaced source) = .error ⟨fault, position'⟩ ∧
          SameToken source (respaced source) position position') := by
  refine ⟨?_, Grammar.ofTokens_aligned (aligned_respaced source)⟩
  have hmap : List.Forall₂ Eq ((scan source).map fun t => (t.kind, t.text))
      ((scan (respaced source)).map fun t => (t.kind, t.text)) :=
    List.forall₂_map_left_iff.2 (List.forall₂_map_right_iff.2
      ((Token.forall₂_scan_respaced source).imp fun _ _ h => Prod.ext h.1 h.2))
  rw [List.forall₂_eq_eq_eq] at hmap
  exact hmap.symm

end Formula.Expr
