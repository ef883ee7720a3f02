import Mathlib.Logic.Relation
import Formula.Proofs.Grammar.Spacing

/-!
Line ends between matching brackets.

Exchanging line ends between two matching brackets leaves the tokens as they are up to the line ends
where brackets are open (`compact`), whatever stands around the two. Tokens that agree up to these are
spaced, both ways, so they are read alike (`ofTokens_relined`).
-/

namespace Formula.Grammar

open Relation (ReflTransGen)

/-- An opening bracket and a closing one of its kind. -/
inductive Pair : Token → Token → Prop
  | parentheses {o c : Token} (ho : o.isDelimiter "(" = true) (hc : c.isDelimiter ")" = true) : Pair o c
  | brackets {o c : Token} (ho : o.isDelimiter "[" = true) (hc : c.isDelimiter "]" = true) : Pair o c
  | braces {o c : Token} (ho : o.isDelimiter "\x7b" = true) (hc : c.isDelimiter "\x7d" = true) : Pair o c

/-- Tokens of which each bracket has its match. -/
inductive Balanced : List Token → Prop
  | nil : Balanced []
  | token {t : Token} {tokens : List Token} (ho : t.isOpening = false) (hc : t.isClosing = false)
      (more : Balanced tokens) : Balanced (t :: tokens)
  | pair {o c : Token} {inner tokens : List Token} (pair : Pair o c) (matched : Balanced inner)
      (more : Balanced tokens) : Balanced (o :: inner ++ c :: tokens)

/-- The tokens that are no line ends. -/
def solid (tokens : List Token) : List Token :=
  tokens.filter fun t => t.kind != .newline

/-- Tokens with other line ends strictly between two matching brackets: some are put in, and some taken
out. -/
inductive Relined : List Token → List Token → Prop
  | between {front inner inner' back : List Token} {o c : Token} (pair : Pair o c)
      (matched : Balanced inner) (same : solid inner' = solid inner) :
      Relined (front ++ o :: inner ++ c :: back) (front ++ o :: inner' ++ c :: back)

/-! ### Up to line ends where brackets are open -/

/-- Tokens without the line ends where brackets are open. -/
def compact : Nat → List Token → List Token
  | _, [] => []
  | n, t :: tokens =>
    if t.kind = .newline ∧ n ≠ 0 then compact n tokens else t :: compact (turn n t) tokens

section

variable {n : Nat} {t o c : Token} {tokens tokens' inner : List Token}

theorem compact_line (ht : t.kind = .newline) (hn : n ≠ 0) :
    compact n (t :: tokens) = compact n tokens := by
  rw [compact, if_pos ⟨ht, hn⟩]

theorem compact_token (ht : t.kind = .newline → n = 0) :
    compact n (t :: tokens) = t :: compact (turn n t) tokens := by
  rw [compact, if_neg fun h => h.2 (ht h.1)]

theorem compact_append (n : Nat) (front back : List Token) :
    compact n (front ++ back) = compact n front ++ compact (after n front) back := by
  induction front generalizing n with
  | nil => rfl
  | cons t front ih =>
      by_cases ht : t.kind = .newline ∧ n ≠ 0
      · rw [List.cons_append, compact_line ht.1 ht.2, compact_line ht.1 ht.2, ih, after, after,
          List.foldl_cons, turn_of_newline ht.1]
      · have ht' : t.kind = .newline → n = 0 := fun h => not_not.1 fun hn => ht ⟨h, hn⟩
        rw [List.cons_append, compact_token ht', compact_token ht', ih]
        rfl

theorem compact_lines {lines : List Token} (hlines : Lines lines) (hn : n ≠ 0) :
    compact n (lines ++ tokens) = compact n tokens := by
  induction lines with
  | nil => rfl
  | cons t lines ih =>
      obtain ⟨ht, hlines⟩ := List.forall_mem_cons.1 hlines
      rw [List.cons_append, compact_line ht hn, ih hlines]

theorem Fresh.stays (h : Fresh n (t :: tokens)) (ht : t.kind = .newline) : n = 0 :=
  not_not.1 fun hn => h hn ht

/-- Tokens that agree up to line ends where brackets are open are spaced. -/
theorem spaced_of_compact (h : compact n tokens = compact n tokens') (fresh : Fresh n tokens') :
    Spaced n tokens tokens' := by
  induction tokens generalizing n tokens' with
  | nil =>
      cases tokens' with
      | nil => exact .nil n
      | cons t tokens' =>
          rw [compact_token fresh.stays] at h
          cases h
  | cons t tokens ih =>
      by_cases ht : t.kind = .newline ∧ n ≠ 0
      · rw [compact_line ht.1 ht.2] at h
        exact .line ht.1 ht.2 (ih h fresh)
      · have ht' : t.kind = .newline → n = 0 := fun h => not_not.1 fun hn => ht ⟨h, hn⟩
        rw [compact_token ht'] at h
        cases tokens' with
        | nil => cases h
        | cons t' tokens' =>
            rw [compact_token fresh.stays] at h
            obtain ⟨rfl, h⟩ := List.cons.inj h
            by_cases hturn : turn n t = 0
            · rw [← List.nil_append tokens']
              have gap : Gap (turn n t) [] := ⟨nofun, fun _ => rfl⟩
              exact .token ht' gap (ih h fun hn => absurd hturn hn)
            · obtain ⟨lines, htokens, hlines⟩ := exists_dropLines tokens'
              rw [htokens, compact_lines hlines hturn] at h
              rw [htokens]
              exact .token ht' ⟨hlines, fun hn => absurd hn hturn⟩ (ih h fun _ => head_dropLines)

/-! ### Between two brackets -/

/-- Whether brackets are open everywhere among some tokens. -/
def Stays : Nat → List Token → Prop
  | n, [] => n ≠ 0
  | n, t :: tokens => n ≠ 0 ∧ Stays (turn n t) tokens

theorem Stays.compact (h : Stays n tokens) : compact n tokens = solid tokens := by
  induction tokens generalizing n with
  | nil => rfl
  | cons t tokens ih =>
      obtain ⟨hn, hstays⟩ := h
      by_cases ht : t.kind = .newline
      · rw [turn_of_newline ht] at hstays
        rw [compact_line ht hn, ih hstays, solid, solid, List.filter_cons_of_neg (by simp [ht])]
      · rw [compact_token (absurd · ht), ih hstays, solid, solid, List.filter_cons_of_pos (by simp [ht])]

theorem Stays.append {front back : List Token} (h : Stays n front) (h' : Stays (after n front) back) :
    Stays n (front ++ back) := by
  induction front generalizing n with
  | nil => exact h'
  | cons t front ih => exact ⟨h.1, ih h.2 h'⟩

theorem after_solid (n : Nat) (tokens : List Token) : after n (solid tokens) = after n tokens := by
  induction tokens generalizing n with
  | nil => rfl
  | cons t tokens ih =>
      by_cases ht : t.kind = .newline
      · rw [solid, List.filter_cons_of_neg (by simp [ht]), after, after, List.foldl_cons,
          turn_of_newline ht]
        exact ih n
      · rw [solid, List.filter_cons_of_pos (by simp [ht])]
        exact ih (turn n t)

theorem stays_solid : Stays n (solid tokens) ↔ Stays n tokens := by
  induction tokens generalizing n with
  | nil => exact Iff.rfl
  | cons t tokens ih =>
      by_cases ht : t.kind = .newline
      · rw [solid, List.filter_cons_of_neg (by simp [ht]), Stays, turn_of_newline ht]
        constructor
        · intro h
          have hstays := ih.1 h
          refine ⟨?_, hstays⟩
          cases tokens with
          | nil => exact hstays
          | cons => exact hstays.1
        · exact fun h => ih.2 h.2
      · rw [solid, List.filter_cons_of_pos (by simp [ht]), Stays, Stays]
        exact and_congr_right fun _ => ih

theorem Pair.isOpening (h : Pair o c) : o.isOpening = true := by
  cases h <;> simp [Token.isOpening, *]

theorem Pair.isClosing (h : Pair o c) : c.isClosing = true := by
  cases h <;> simp [Token.isClosing, *]

/-- Behind balanced tokens, as many brackets are open as in front of them, and among them as many at
least. -/
theorem Balanced.stays (h : Balanced inner) (n : Nat) : after n inner = n ∧ Stays (n + 1) inner := by
  induction h generalizing n with
  | nil => exact ⟨rfl, Nat.succ_ne_zero n⟩
  | @token t tokens ho hc _ ih =>
      have hturn : ∀ n, turn n t = n := by simp [turn, ho, hc]
      refine ⟨?_, Nat.succ_ne_zero n, ?_⟩
      · rw [after, List.foldl_cons, hturn]
        exact (ih n).1
      · rw [hturn]
        exact (ih n).2
  | @pair o c inner tokens pair _ _ ihinner ih =>
      have ho := turn_of_isOpening pair.isOpening
      have hc := turn_of_isClosing pair.isClosing
      have hinner : ∀ n, after n (o :: inner) = n + 1 := by
        intro n
        rw [after, List.foldl_cons, ho]
        exact (ihinner (n + 1)).1
      refine ⟨?_, Stays.append ⟨Nat.succ_ne_zero n, ?_⟩ ?_⟩
      · rw [after_append, hinner, after, List.foldl_cons, hc]
        exact (ih n).1
      · rw [ho]
        exact (ihinner (n + 1)).2
      · rw [hinner, Stays, hc]
        exact ⟨Nat.succ_ne_zero _, (ih n).2⟩

/-- Between two brackets, line ends do not count. -/
theorem compact_between {front back : List Token} (pair : Pair o c) (h : Stays (after n front + 1) inner) :
    compact n (front ++ o :: inner ++ c :: back) = compact n front ++ (o :: solid inner) ++
      compact (after (after n front + 1) inner) (c :: back) := by
  have ho := turn_of_isOpening pair.isOpening (after n front)
  have hinner : after (after n front) (o :: inner) = after (after n front + 1) inner := by
    rw [after, List.foldl_cons, ho]
    rfl
  rw [compact_append, compact_append, after_append, hinner,
    compact_token fun ht => absurd ht (kind_of_isOpening pair.isOpening), ho, h.compact]

theorem Relined.compact_eq (h : Relined tokens tokens') (n : Nat) :
    compact n tokens = compact n tokens' := by
  cases h with
  | @between front inner inner' back o c pair matched same =>
      have hstays := (matched.stays (after n front)).2
      have hstays' : Stays (after n front + 1) inner' := by rwa [← stays_solid, same, stays_solid]
      rw [compact_between pair hstays, compact_between pair hstays', ← after_solid _ inner, ← same,
        after_solid]

/-- However line ends are exchanged between matching brackets, the tokens are still spaced. -/
theorem spaced_of_relined (h : ReflTransGen Relined tokens tokens') :
    Spaced 0 tokens tokens' ∧ Spaced 0 tokens' tokens := by
  have hcompact : compact 0 tokens = compact 0 tokens' := by
    induction h with
    | refl => rfl
    | tail _ h ih => exact ih.trans (h.compact_eq 0)
  have fresh : ∀ tokens, Fresh 0 tokens := fun _ h => absurd rfl h
  exact ⟨spaced_of_compact hcompact (fresh _), spaced_of_compact hcompact.symm (fresh _)⟩

end

/-- Line ends between matching brackets do not matter: whichever of them are put in or taken out, the
tokens of a source are accepted as before, and read as the same expression. -/
theorem ofTokens_relined {source : String} {tokens : List Token} {e : Expr}
    (h : ReflTransGen Relined (Token.scan source) tokens) :
    ofTokens tokens = .ok e ↔ Expr.parse source = .ok e := by
  obtain ⟨hspaced, hspaced'⟩ := spaced_of_relined h
  have ready := ready_scan source
  constructor
  · intro hparse
    exact ofTokens_spaced (hspaced.ready ready) hparse hspaced'
  · intro hparse
    exact ofTokens_spaced ready hparse hspaced

/-- A line end in front of the parenthesis that closes a call, and none in the brackets of its argument. -/
theorem ofTokens_relined_call : ∃ tokens, ReflTransGen Relined (Token.scan "f([\n1])") tokens ∧
    tokens ≠ Token.scan "f([\n1])" ∧
    ofTokens tokens = .ok (.call (.symbol "f") [.array [.number "1"]]) := by
  let f : Token := { kind := .identifier, text := "f", position := 0 }
  let o : Token := { kind := .delimiter, text := "(", position := 1 }
  let o' : Token := { kind := .delimiter, text := "[", position := 2 }
  let line : Token := { kind := .newline, text := "\n", position := 3 }
  let one : Token := { kind := .number, text := "1", position := 4 }
  let c' : Token := { kind := .delimiter, text := "]", position := 5 }
  let c : Token := { kind := .delimiter, text := ")", position := 6 }
  let stop : Token := { kind := .stop, text := "", position := 7 }
  have scanned : Token.scan "f([\n1])" = [f] ++ o :: [o', line, one, c'] ++ c :: [stop] := by
    decide +kernel
  have parsed : Expr.parse "f([\n1])" = .ok (.call (.symbol "f") [.array [.number "1"]]) := by
    decide +kernel
  have matched : Balanced [o', line, one, c'] :=
    .pair (.brackets rfl rfl) (.token rfl rfl (.token rfl rfl .nil)) .nil
  have relined : ReflTransGen Relined (Token.scan "f([\n1])")
      ([f] ++ o :: [o', one, c', line] ++ c :: [stop]) := by
    rw [scanned]
    exact .single (.between (.parentheses rfl rfl) matched rfl)
  refine ⟨_, relined, ?_, (ofTokens_relined relined).2 parsed⟩
  rw [scanned]
  decide

end Formula.Grammar
