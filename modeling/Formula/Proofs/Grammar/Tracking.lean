import Formula.Proofs.Grammar.Boundary
import Formula.Proofs.Grammar.Walk

/-!
How a walk keeps up with the production that it stands for.

Where a production reads from the tokens that are left, its walk goes from the number of the first of
them to a number of the first one that the production leaves (`Tracks`). There is one rule for each way
to put walks together. The number of tokens that are left is part of what is told about them: it says how
far a walk has come, and that loops have turns enough (`Tracks.loop`).
-/

namespace Formula.Grammar

open Reading (repeatedly iterate)
open Walk (token goTo forward skipLine skipLines turns)

/-- The cursor in some surroundings, at the token of a number. -/
def Context.cursor (ctx : Context) (index : Nat) : Cursor :=
  { ctx with index }

@[simp] theorem Context.index_cursor (ctx : Context) (index : Nat) : (ctx.cursor index).index = index :=
  rfl

variable {α α' β β' : Type} {tokens : List Token} {ctx ctx₁ ctx₂ : Context} {n index : Nat}
  {H : Token → Prop}

/-- What a walk comes to with its production: to related results, of which the relation may tell how many
tokens are left, in the surroundings and at the token that it should, or to the same error. -/
inductive Arrives (tokens : List Token) (ctx : Context) (Post : α → α' → Nat → Prop) :
    Except Halt (α × Cursor) → Except SyntaxError (α' × List Token) → Prop
  | ok {a : α} {a' : α'} {index : Nat} (h : Post a a' (tokens.drop index).length)
      (closed : Closed (tokens.drop index)) :
      Arrives tokens ctx Post (.ok (a, ctx.cursor index)) (.ok (a', tokens.drop index))
  | error (e : SyntaxError) : Arrives tokens ctx Post (.error (.error e)) (.error e)

theorem Arrives.mono {Post Post' : α → α' → Nat → Prop} {r : Except Halt (α × Cursor)}
    {r' : Except SyntaxError (α' × List Token)} (h : Arrives tokens ctx Post r r')
    (himp : ∀ a a' k, Post a a' k → Post' a a' k) : Arrives tokens ctx Post' r r' := by
  cases h with
  | ok h closed => exact .ok (himp _ _ _ h) closed
  | error e => exact .error e

/-- Whether a walk comes to the same as a production where `n` tokens are left of which the first one
fulfills a condition, and goes from some surroundings to others. -/
def Tracks (tokens : List Token) (H : Token → Prop) (ctx ctx' : Context) (n : Nat)
    (Post : α → α' → Nat → Prop) (W : Walk α) (P : Parser α') : Prop :=
  ∀ index, Closed (tokens.drop index) → (tokens.drop index).length = n → H (head (tokens.drop index)) →
    Arrives tokens ctx' Post (W tokens (ctx.cursor index)) (P (tokens.drop index))

/-! ### Moving -/

section Moving

/-- What follows a walk goes on from where that has come. -/
theorem bind_ok {W : Walk α} {f : α → Walk β} {c c' : Cursor} {a : α} (h : W tokens c = .ok (a, c')) :
    (W >>= f) tokens c = f a tokens c' := by
  show (W tokens c >>= fun p => f p.1 tokens p.2) = f a tokens c'
  rw [h]
  rfl

theorem read_bind_apply (f : List Token → Walk β) (tokens : List Token) (c : Cursor) :
    (read >>= f) tokens c = f tokens tokens c :=
  rfl

theorem get_bind_apply (f : Cursor → Walk β) (tokens : List Token) (c : Cursor) :
    (get >>= f) tokens c = f c tokens c :=
  rfl

theorem drop_eq_cons (h : Closed (tokens.drop index)) :
    tokens.drop index = head (tokens.drop index) :: tokens.drop (index + 1) := by
  have hne := h.ne_nil
  rw [← List.tail_drop]
  cases hdrop : tokens.drop index with
  | nil => exact absurd hdrop hne
  | cons t rest => rfl

theorem lt_length (h : Closed (tokens.drop index)) : index < tokens.length := by
  have hpos := List.length_pos_iff.2 h.ne_nil
  rw [List.length_drop] at hpos
  omega

theorem closed_succ (h : Closed (tokens.drop index)) (hstop : (head (tokens.drop index)).kind ≠ .stop) :
    Closed (tokens.drop (index + 1)) := by
  obtain ⟨t, ht, hkind⟩ := h
  rw [drop_eq_cons ⟨t, ht, hkind⟩] at ht
  rcases List.mem_cons.1 ht with rfl | ht
  · exact absurd hkind hstop
  · exact ⟨t, ht, hkind⟩

theorem length_dropLines_le (rest : List Token) : (dropLines rest).length ≤ rest.length :=
  (List.dropWhile_sublist _).length_le

theorem length_next_le (rest : List Token) : (next ctx rest).length ≤ rest.length := by
  have htail : (if (head rest).kind = .stop then rest else rest.tail).length ≤ rest.length := by
    split
    · exact Nat.le_refl _
    · rw [List.length_tail]
      omega
  unfold next
  dsimp only
  split
  · exact htail
  · exact Nat.le_trans (length_dropLines_le _) htail

theorem token_apply (h : Closed (tokens.drop index)) :
    token tokens (ctx.cursor index) = .ok (head (tokens.drop index), ctx.cursor index) := by
  have hget : tokens[(ctx.cursor index).index]? = some (head (tokens.drop index)) := by
    have hhead := congrArg (·[0]?) (drop_eq_cons h)
    simpa [List.getElem?_drop] using hhead
  unfold token
  rw [read_bind_apply, get_bind_apply, hget]
  rfl

theorem goTo_apply {index' : Nat} (h : index' < tokens.length) :
    goTo index' tokens (ctx.cursor index) = .ok ((), ctx.cursor index') := by
  unfold goTo
  rw [read_bind_apply, if_pos h]
  rfl

theorem forward_apply (h : Closed (tokens.drop index))
    (hstop : (head (tokens.drop index)).kind ≠ .stop) :
    forward tokens (ctx.cursor index) = .ok ((), ctx.cursor (index + 1)) :=
  goTo_apply (lt_length (closed_succ h hstop))

theorem skipLine_apply (ctx : Context) (h : Closed (tokens.drop index)) :
    skipLine tokens (ctx.cursor index) = if (head (tokens.drop index)).kind = .newline then
      .ok (.yield (), ctx.cursor (index + 1)) else .ok (.done (), ctx.cursor index) := by
  unfold skipLine
  rw [bind_ok (token_apply h)]
  split
  case isTrue hline =>
    rw [bind_ok (forward_apply h (by rw [hline]; decide))]
    rfl
  case isFalse => rfl

/-- Passing line ends. -/
theorem skipLines_apply (ctx : Context) (h : Closed (tokens.drop index)) : ∃ index',
    skipLines tokens (ctx.cursor index) = .ok ((), ctx.cursor index') ∧
      tokens.drop index' = dropLines (tokens.drop index) := by
  have pass : ∀ n index, Closed (tokens.drop index) → (tokens.drop index).length ≤ n → ∃ index',
      turns (fun _ => skipLine) n () tokens (ctx.cursor index) = .ok ((), ctx.cursor index') ∧
        tokens.drop index' = dropLines (tokens.drop index) := by
    intro n
    induction n with
    | zero =>
        intro index h hn
        exact absurd (List.length_eq_zero_iff.1 (Nat.le_zero.1 hn)) h.ne_nil
    | succ n ih =>
        intro index h hn
        have hcons := drop_eq_cons h
        have hlength := congrArg List.length hcons
        rw [List.length_cons] at hlength
        have hpass := skipLine_apply ctx h
        unfold turns
        by_cases hline : (head (tokens.drop index)).kind = .newline
        · have hnext := closed_succ h (by rw [hline]; decide)
          obtain ⟨index', hrun, hdrop⟩ := ih (index + 1) hnext (by omega)
          rw [if_pos hline] at hpass
          rw [bind_ok hpass]
          refine ⟨index', hrun, ?_⟩
          rw [hdrop, hcons, dropLines, dropLines, List.dropWhile_cons_of_pos (by simpa using hline)]
        · rw [if_neg hline] at hpass
          rw [bind_ok hpass]
          refine ⟨index, rfl, ?_⟩
          rw [hcons, dropLines, List.dropWhile_cons_of_neg (by simpa using hline)]
  exact pass tokens.length index h (by rw [List.length_drop]; omega)

/-- Passing a token. -/
theorem advance_apply (ctx : Context) (h : Closed (tokens.drop index)) : ∃ index',
    Walk.advance tokens (ctx.cursor index) = .ok ((), ctx.cursor index') ∧
      tokens.drop index' = next ctx (tokens.drop index) := by
  have pass : ∀ index', Closed (tokens.drop index') →
      tokens.drop index' = (if (head (tokens.drop index)).kind = .stop then tokens.drop index
        else (tokens.drop index).tail) → ∃ index'',
      (do if 0 < (← get).nesting then skipLines : Walk Unit) tokens (ctx.cursor index')
          = .ok ((), ctx.cursor index'') ∧
        tokens.drop index'' = next ctx (tokens.drop index) := by
    intro index' h' hdrop
    show ∃ index'', (if 0 < ctx.nesting then skipLines else pure () : Walk Unit) tokens
      (ctx.cursor index') = _ ∧ _
    by_cases hnesting : ctx.nesting = 0
    · refine ⟨index', by rw [if_neg (by omega)]; rfl, ?_⟩
      rw [next, if_pos hnesting, hdrop]
    · obtain ⟨index'', hrun, hlines⟩ := skipLines_apply ctx h'
      refine ⟨index'', by rw [if_pos (Nat.pos_of_ne_zero hnesting), hrun], ?_⟩
      rw [next, if_neg hnesting, hlines, hdrop]
  unfold Walk.advance
  rw [bind_ok (token_apply h)]
  by_cases hstop : (head (tokens.drop index)).kind = .stop
  · obtain ⟨index', hrun, hdrop⟩ := pass index h (by rw [if_pos hstop])
    refine ⟨index', ?_, hdrop⟩
    rw [if_neg fun h => h hstop]
    exact hrun
  · have hnext := closed_succ h hstop
    obtain ⟨index', hrun, hdrop⟩ := pass (index + 1) hnext (by rw [if_neg hstop, List.tail_drop])
    refine ⟨index', ?_, hdrop⟩
    rw [if_pos hstop, bind_ok (forward_apply h hstop)]
    exact hrun

end Moving

/-! ### Putting walks together -/

namespace Tracks

variable {Post : α → α' → Nat → Prop} {Post' : β → β' → Nat → Prop} {W : Walk α} {P : Parser α'}
  {f : α → Walk β} {f' : α' → Parser β'}

theorem pure {a : α} {a' : α'} (h : Post a a' n) : Tracks tokens H ctx ctx n Post (pure a) (pure a') := by
  intro index closed hlength _
  exact .ok (hlength ▸ h) closed

theorem mono {Q : α → α' → Nat → Prop} (h : Tracks tokens H ctx ctx₁ n Post W P)
    (himp : ∀ a a' k, Post a a' k → Q a a' k) : Tracks tokens H ctx ctx₁ n Q W P := by
  intro index closed hlength hhead
  exact (h index closed hlength hhead).mono himp

/-- What comes no further back than a place comes behind what is in front of it. -/
theorem before {R : α → α' → Prop} {k : Nat}
    (h : Tracks tokens H ctx ctx₁ k (fun a a' j => R a a' ∧ j ≤ k) W P) (hlt : k < n) :
    Tracks tokens H ctx ctx₁ k (fun a a' j => R a a' ∧ j < n) W P := by
  refine h.mono ?_
  rintro a a' j ⟨ha, hj⟩
  exact ⟨ha, by omega⟩

/-- Closed tokens are not empty. -/
theorem empty (hn : n = 0) : Tracks tokens H ctx ctx₁ n Post W P := by
  rintro index closed hlength _
  exact absurd (List.length_eq_zero_iff.1 (hlength.trans hn)) closed.ne_nil

theorem pure_bind {f : α → Walk β} {f' : α' → Parser β'} {a : α} {a' : α'}
    (h : Tracks tokens H ctx ctx₁ n Post' (f a) (f' a')) :
    Tracks tokens H ctx ctx₁ n Post' (Pure.pure a >>= f) (Pure.pure a' >>= f') :=
  h

/-- What holds in front of any token holds in front of some. -/
theorem any (h : Tracks tokens (fun _ => True) ctx ctx₁ n Post W P) : Tracks tokens H ctx ctx₁ n Post W P :=
  fun index closed hlength _ => h index closed hlength trivial

/-- What follows starts where the first walk arrives. -/
theorem bind (h : Tracks tokens H ctx ctx₁ n Post W P)
    (hf : ∀ a a' k, Post a a' k → Tracks tokens (fun _ => True) ctx₁ ctx₂ k Post' (f a) (f' a')) :
    Tracks tokens H ctx ctx₂ n Post' (W >>= f) (P >>= f') := by
  intro index closed hlength hhead
  have hrun := h index closed hlength hhead
  show Arrives tokens ctx₂ Post' (W tokens (ctx.cursor index) >>= fun p => f p.1 tokens p.2)
    (P (tokens.drop index) >>= fun p => f' p.1 p.2)
  generalize W tokens (ctx.cursor index) = r at hrun ⊢
  generalize P (tokens.drop index) = r' at hrun ⊢
  cases hrun with
  | ok hpost closed => exact hf _ _ _ hpost _ closed rfl trivial
  | error e => exact .error e

theorem ite {c : Prop} [Decidable c] {W₁ : Walk α} {P₁ : Parser α'}
    (h : c → Tracks tokens H ctx ctx₁ n Post W P) (h₁ : ¬ c → Tracks tokens H ctx ctx₁ n Post W₁ P₁) :
    Tracks tokens H ctx ctx₁ n Post (if c then W else W₁) (if c then P else P₁) := by
  split
  · exact h ‹_›
  · exact h₁ ‹_›

/-- What follows can depend on the current token. -/
theorem peeked {f : Token → Walk β} {f' : Token → Parser β'}
    (h : ∀ t, H t → Tracks tokens (· = t) ctx ctx₁ n Post' (f t) (f' t)) :
    Tracks tokens H ctx ctx₁ n Post' (token >>= f) (peek >>= f') := by
  intro index closed hlength hhead
  show Arrives tokens ctx₁ Post' (token tokens (ctx.cursor index) >>= fun p => f p.1 tokens p.2)
    (f' (head (tokens.drop index)) (tokens.drop index))
  rw [token_apply closed]
  exact h _ hhead index closed hlength rfl

/-- A walk can look at its surroundings. -/
theorem surveyed {f : Cursor → Walk α} (h : ∀ index, Tracks tokens H ctx ctx₁ n Post (f (ctx.cursor index)) P) :
    Tracks tokens H ctx ctx₁ n Post (get >>= f) P :=
  fun index => h index index

/-- A walk can change its surroundings. -/
theorem changed (ctx₁ : Context) {change : Cursor → Cursor} {f : Unit → Walk α}
    (hchange : ∀ index, change (ctx.cursor index) = ctx₁.cursor index)
    (h : Tracks tokens H ctx₁ ctx₂ n Post (f ()) P) :
    Tracks tokens H ctx ctx₂ n Post (modify change >>= f) P := by
  intro index closed hlength hhead
  show Arrives tokens ctx₂ Post (f () tokens (change (ctx.cursor index))) (P (tokens.drop index))
  rw [hchange]
  exact h index closed hlength hhead

theorem failed (fault : SyntaxFault) :
    Tracks tokens H ctx ctx₁ n Post (Walk.fail fault) (fail fault) := by
  intro index closed _ _
  show Arrives tokens ctx₁ Post (token tokens (ctx.cursor index) >>= _) _
  rw [token_apply closed]
  exact .error _

theorem thrown (e : SyntaxError) :
    Tracks tokens H ctx ctx₁ n Post (throw (.error e) : Walk α) (throw e : Parser α') :=
  fun _ _ _ _ => .error e

theorem awaits {f : Bool → Walk α} (h : Tracks tokens H ctx ctx₁ n Post (f ctx.awaits) P) :
    Tracks tokens H ctx ctx₁ n Post (Walk.awaits >>= f) P :=
  h

end Tracks

/-! ### Passing tokens -/

theorem tracks_advance : Tracks tokens H ctx ctx n (fun _ _ k => k ≤ n) Walk.advance (advance ctx) := by
  intro index closed hlength _
  obtain ⟨index', hrun, hdrop⟩ := advance_apply ctx closed
  have hnext : advance ctx (tokens.drop index) = .ok ((), tokens.drop index') := by
    rw [hdrop]
    rfl
  rw [hrun, hnext]
  refine .ok ?_ (hdrop ▸ closed.next ctx)
  rw [hdrop, ← hlength]
  exact length_next_le _

/-- Passing a token that is not the end. -/
theorem tracks_advance_lt (hstop : ∀ t, H t → t.kind ≠ .stop) :
    Tracks tokens H ctx ctx n (fun _ _ k => k < n) Walk.advance (advance ctx) := by
  intro index closed hlength hhead
  obtain ⟨index', hrun, hdrop⟩ := advance_apply ctx closed
  have hnext : advance ctx (tokens.drop index) = .ok ((), tokens.drop index') := by
    rw [hdrop]
    rfl
  rw [hrun, hnext]
  refine .ok ?_ (hdrop ▸ closed.next ctx)
  rw [hdrop, ← hlength]
  exact length_next_lt ctx (hstop _ hhead)

theorem advanceLine_apply (ctx : Context) (h : Closed (tokens.drop index)) : ∃ index',
    Walk.advanceLine tokens (ctx.cursor index) = .ok ((), ctx.cursor index') ∧
      tokens.drop index' = nextLine ctx (tokens.drop index) := by
  obtain ⟨index', hrun, hdrop⟩ := advance_apply ctx h
  obtain ⟨index'', hrun', hdrop'⟩ := skipLines_apply ctx (hdrop ▸ h.next ctx)
  refine ⟨index'', ?_, by rw [hdrop', hdrop, nextLine]⟩
  rw [Walk.advanceLine, bind_ok hrun]
  exact hrun'

/-- Passing a token that is not the end, and the line ends behind it. -/
theorem tracks_advanceLine (hstop : ∀ t, H t → t.kind ≠ .stop) :
    Tracks tokens H ctx ctx n (fun _ _ k => k < n) Walk.advanceLine (advanceLine ctx) := by
  intro index closed hlength hhead
  obtain ⟨index', hrun, hdrop⟩ := advanceLine_apply ctx closed
  have hnext : advanceLine ctx (tokens.drop index) = .ok ((), tokens.drop index') := by
    rw [hdrop]
    rfl
  rw [hrun, hnext]
  refine .ok ?_ (hdrop ▸ closed.nextLine ctx)
  rw [hdrop, ← hlength]
  exact length_nextLine_lt ctx (hstop _ hhead)

/-- Passing an opening bracket. -/
theorem tracks_openBracket (hstop : ∀ t, H t → t.kind ≠ .stop) :
    Tracks tokens H ctx ctx.inside n (fun _ _ k => k < n) Walk.openBracket (advance ctx.inside) :=
  .changed ctx.inside (fun _ => rfl) (tracks_advance_lt hstop)

/-- Passing a closing bracket. -/
theorem tracks_closeBracket :
    Tracks tokens H ctx.inside ctx n (fun _ _ k => k ≤ n) Walk.closeBracket (advance ctx) :=
  .changed ctx (fun _ => rfl) tracks_advance

theorem tracks_expectDelimiter (text : String) (fault : SyntaxFault) :
    Tracks tokens H ctx ctx n (fun _ _ k => k = n) (Walk.expectDelimiter text fault)
      (expectDelimiter text fault) :=
  .peeked fun _ _ => .ite (fun _ => .pure rfl) fun _ => .failed fault

namespace Tracks

variable {Post : β → β' → Nat → Prop}

/-- What follows the spelling of an operator stands at that operator. -/
theorem operatorIn {operators : List String} {f : Option String → Walk β} {f' : Option String → Parser β'}
    (some : ∀ spelling, Tracks tokens (fun t => t.kind ≠ .stop) ctx ctx₁ n Post (f (some spelling))
      (f' (.some spelling)))
    (none : Tracks tokens H ctx ctx₁ n Post (f none) (f' .none)) :
    Tracks tokens H ctx ctx₁ n Post (Walk.operatorIn operators >>= f) (operatorIn operators >>= f') := by
  intro index closed hlength hhead
  have hrun : Walk.operatorIn operators tokens (ctx.cursor index)
      = .ok (spellingIn? operators (head (tokens.drop index)), ctx.cursor index) := by
    unfold Walk.operatorIn
    rw [bind_ok (token_apply closed)]
    rfl
  rw [bind_ok hrun]
  show Arrives tokens ctx₁ Post (f (spellingIn? operators (head (tokens.drop index))) tokens _)
    (f' (spellingIn? operators (head (tokens.drop index))) _)
  cases hspelling : spellingIn? operators (head (tokens.drop index)) with
  | none => exact none index closed hlength hhead
  | some spelling =>
      refine some spelling index closed hlength ?_
      show (head (tokens.drop index)).kind ≠ .stop
      rw [(spellingIn?_eq_some hspelling).1]
      decide

end Tracks

/-! ### Loops -/

/-- What a turn of a loop comes to: it goes on with fewer tokens left, or it is done. -/
inductive Turn (I : α → α' → Prop) (n : Nat) : ForInStep α → ForInStep α' → Nat → Prop
  | done {b : α} {b' : α'} {k : Nat} (h : I b b') (le : k ≤ n) : Turn I n (.done b) (.done b') k
  | yield {b : α} {b' : α'} {k : Nat} (h : I b b') (lt : k < n) : Turn I n (.yield b) (.yield b') k

/-- What a turn comes to that goes on. -/
def GoesOn (I : α → α' → Prop) (n : Nat) (s : ForInStep α) (s' : ForInStep α') (k : Nat) : Prop :=
  ∃ b b', s = .yield b ∧ s' = .yield b' ∧ I b b' ∧ k < n

section Loops

variable {I : α → α' → Prop} {N : Nat} {f : α → Walk (ForInStep α)} {f' : α' → Parser (ForInStep α')}

theorem GoesOn.turn {s : ForInStep α} {s' : ForInStep α'} {k : Nat} (h : GoesOn I n s s' k) :
    Turn I n s s' k := by
  obtain ⟨b, b', rfl, rfl, h, lt⟩ := h
  exact .yield h lt

variable (step : ∀ n ≤ N, ∀ a a', I a a' → Tracks tokens (fun _ => True) ctx ctx n (Turn I n) (f a) (f' a'))

include step

/-- Turns enough are as many as there are tokens left, since every turn that goes on passes one. -/
theorem tracks_turns (items : List Token) : ∀ m n, n ≤ N → n ≤ m → n ≤ items.length → ∀ a a', I a a' →
    Tracks tokens (fun _ => True) ctx ctx n (fun b b' k => I b b' ∧ k ≤ n) (turns f m a)
      (iterate f' items a') := by
  induction items with
  | nil =>
      intro m n _ _ hitems a a' _
      exact .empty (Nat.le_zero.1 hitems)
  | cons item items ih =>
      intro m n hN hm hitems a a' h
      rw [List.length_cons] at hitems
      rcases m with _ | m
      · exact .empty (Nat.le_zero.1 hm)
      · refine (step n hN a a' h).bind ?_
        rintro _ _ k (⟨h, hle⟩ | ⟨h, hlt⟩)
        · exact .pure ⟨h, hle⟩
        · refine (ih m k (by omega) (by omega) (by omega) _ _ h).mono ?_
          rintro b b' j ⟨h, hj⟩
          exact ⟨h, by omega⟩

/-- A loop has as many turns as there are tokens. -/
theorem Tracks.loop (hn : n ≤ N) {a : α} {a' : α'} (h : I a a') :
    Tracks tokens H ctx ctx n (fun b b' k => I b b' ∧ k ≤ n) (Walk.loop a f) (repeatedly a' f') := by
  intro index closed hlength _
  have hturns : n ≤ tokens.length := by
    rw [← hlength, List.length_drop]
    omega
  exact tracks_turns step _ _ n hn hturns (Nat.le_of_eq hlength.symm) a a' h index closed hlength trivial

/-- A loop whose first turn goes on passes a token. -/
theorem Tracks.entered (hn : n ≤ N) {a : α} {a' : α'}
    (first : Tracks tokens H ctx ctx n (GoesOn I n) (f a) (f' a')) :
    Tracks tokens H ctx ctx n (fun b b' k => I b b' ∧ k < n) (Walk.loop a f) (repeatedly a' f') := by
  intro index closed hlength hhead
  have hcons := drop_eq_cons closed
  have hitems := congrArg List.length hcons
  rw [List.length_cons, hlength] at hitems
  obtain ⟨m, hm⟩ := Nat.exists_eq_succ_of_ne_zero (Nat.ne_zero_of_lt (lt_length closed))
  have hturns : n ≤ m + 1 := by
    rw [← Nat.succ_eq_add_one, ← hm, ← hlength, List.length_drop]
    omega
  have run : Tracks tokens H ctx ctx n (fun b b' k => I b b' ∧ k < n) (turns f (m + 1) a)
      (iterate f' (head (tokens.drop index) :: tokens.drop (index + 1)) a') := by
    refine first.bind ?_
    rintro _ _ k ⟨b, b', rfl, rfl, h, hk⟩
    refine (tracks_turns step _ m k (by omega) (by omega) (by omega) b b' h).mono ?_
    rintro c c' j ⟨h, hj⟩
    exact ⟨h, by omega⟩
  show Arrives tokens ctx _ (turns f tokens.length a tokens (ctx.cursor index))
    (iterate f' (tokens.drop index) a' (tokens.drop index))
  have harrives := run index closed hlength hhead
  rw [← hcons, ← Nat.succ_eq_add_one, ← hm] at harrives
  exact harrives

end Loops

end Formula.Grammar
