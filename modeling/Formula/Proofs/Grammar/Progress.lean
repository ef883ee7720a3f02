import Formula.Proofs.Grammar.Tracking
import Formula.Proofs.Grammar.Trails
import Formula.Proofs.Lines

/-!
Reading a source makes progress and ends.

The walk through each production keeps up with it, passes a token, puts its surroundings back, and builds
a sound tree (`Advances`), provided that the productions that contain themselves do so where fewer tokens
are left (`Walk.Routines.Track`). So as many turns as there are tokens are enough for all of them
(`track_routines`), and no walk ever breaks off for want of a token or of a turn.
-/

namespace Formula.Grammar

open Walked (node leaf trees beside inside bodies)

/-- Whether a walk builds a production's tree, and soundly. -/
structure Of (d cap : Nat) (w : Walked) (e : Expr) : Prop where
  tree : w.tree = e
  sound : w.Sound d cap

/-- Whether a walk builds the trees that a production lists. -/
structure Each (d cap : Nat) (ws : List Walked) (es : List Expr) : Prop where
  trees : trees ws = es
  sound : ∀ w ∈ ws, w.Sound d cap

/-- Whether a walk builds the trees in the rows of a production. -/
structure EachRow (d cap : Nat) (rows : List (List Walked)) (rows' : List (List Expr)) : Prop where
  trees : rows.map trees = rows'
  sound : ∀ row ∈ rows, ∀ w ∈ row, w.Sound d cap

/-- Whether a walk builds the trees of the properties of a production. -/
structure EachValue (d cap : Nat) (properties : Record Walked) (properties' : Record Expr) : Prop where
  trees : properties.map (fun p => (p.1, p.2.tree)) = properties'
  sound : ∀ p ∈ properties, p.2.Sound d cap

/-- Whether a walk builds the trees of the statements of a production. -/
structure EachBody (d cap : Nat) (entries : List (Entry Walked)) (entries' : List (Entry Expr)) : Prop where
  trees : bodies entries = entries'
  sound : ∀ entry ∈ entries, entry.body.Sound d cap

variable {α α' : Type} {tokens : List Token} {H : Token → Prop} {ctx : Context} {m n : Nat}
  {r : Walk.Routines} {p : Productions}

/-- Whether a walk keeps up with a production in front of a token that fulfills a condition, passes a token,
and leaves its surroundings as they are. -/
abbrev AdvancesAt (tokens : List Token) (H : Token → Prop) (ctx : Context) (n : Nat) (R : α → α' → Prop)
    (W : Walk α) (P : Parser α') : Prop :=
  Tracks tokens H ctx ctx n (fun a a' k => R a a' ∧ k < n) W P

/-- Whether a walk keeps up with a production, passes a token, and leaves its surroundings as they are. -/
abbrev Advances (tokens : List Token) (ctx : Context) (n : Nat) (R : α → α' → Prop) (W : Walk α)
    (P : Parser α') : Prop :=
  AdvancesAt tokens (fun _ => True) ctx n R W P

/-- Whether the walks through the productions that contain themselves advance where at most so many tokens
are left. -/
structure Walk.Routines.Track (tokens : List Token) (m : Nat) (r : Walk.Routines) (p : Productions) : Prop where
  expression : ∀ ctx, ∀ n ≤ m,
    Advances tokens ctx n (Of ctx.depth maxDepth) r.expression (p.expression ctx)
  operand : ∀ ctx, ∀ n ≤ m, Advances tokens ctx n (Of ctx.depth maxDepth) r.operand (p.operand ctx)

theorem Each.reverse {d cap : Nat} {ws : List Walked} {es : List Expr} (h : Each d cap ws es) :
    Each d cap ws.reverse es.reverse := by
  obtain ⟨rfl, h⟩ := h
  exact ⟨List.map_reverse, fun w hw => h w (List.mem_reverse.1 hw)⟩

theorem Each.cons {d cap : Nat} {w : Walked} {ws : List Walked} {e : Expr} {es : List Expr}
    (h : Of d cap w e) (hws : Each d cap ws es) : Each d cap (w :: ws) (e :: es) := by
  obtain ⟨rfl, h⟩ := h
  obtain ⟨rfl, hws⟩ := hws
  exact ⟨rfl, List.forall_mem_cons.2 ⟨h, hws⟩⟩

theorem Each.nil {d cap : Nat} : Each d cap [] [] :=
  ⟨rfl, List.forall_mem_nil _⟩

theorem Each.one {d cap : Nat} {w : Walked} {e : Expr} (h : Of d cap w e) : Each d cap [w] [e] :=
  .cons h .nil

theorem ne_stop_of_isDelimiter {t : Token} {text : String} (h : t.isDelimiter text = true) :
    ∀ t', t' = t → t'.kind ≠ .stop := by
  rintro _ rfl
  exact kind_ne_of_isDelimiter h (by decide)

theorem ne_stop_of_isOperator {t : Token} {text : String} (h : t.isOperator text = true) :
    ∀ t', t' = t → t'.kind ≠ .stop := by
  rintro _ rfl
  exact kind_ne_of_isOperator h (by decide)

theorem ne_stop_of_kind {t : Token} {kind : TokenKind} (h : t.kind = kind) (hkind : kind ≠ .stop) :
    ∀ t', t' = t → t'.kind ≠ .stop := by
  rintro _ rfl
  exact h ▸ hkind

section Brackets

variable (hr : r.Track tokens m p)

include hr

theorem advances_items (hn : n ≤ m) :
    Advances tokens ctx n (Each ctx.depth maxDepth) (Walk.items r) (items p ctx) := by
  unfold Walk.items items
  refine (hr.expression ctx n hn).bind ?_
  rintro first e k ⟨hfirst, hk⟩
  refine (Tracks.loop (I := Each ctx.depth maxDepth) (N := k) ?_ (Nat.le_refl k) (.one hfirst)).bind ?_
  · intro i hi ws es hws
    refine .peeked fun t _ => .ite (fun hcomma => ?_) fun _ => .pure (.done hws (Nat.le_refl i))
    refine (tracks_advance_lt (ne_stop_of_isDelimiter hcomma)).bind fun _ _ j hj => ?_
    refine (hr.expression ctx j (by omega)).bind ?_
    rintro w e l ⟨hw, hl⟩
    exact .pure (.yield (.cons hw hws) (by omega))
  · rintro ws es l ⟨hws, hl⟩
    exact .pure ⟨hws.reverse, by omega⟩

theorem advances_list (hn : n ≤ m + 1) (hstop : ∀ t, H t → t.kind ≠ .stop) (closing : String) :
    AdvancesAt tokens H ctx n (Each ctx.depth maxDepth) (Walk.list r closing)
      (list p ctx closing) := by
  unfold Walk.list list
  refine (tracks_openBracket hstop).bind fun _ _ k hk => ?_
  have close : ∀ ws es j, Each ctx.depth maxDepth ws es ∧ j ≤ k →
      Tracks tokens (fun _ => True) ctx.inside ctx j (fun ws es k => Each ctx.depth maxDepth ws es ∧ k < n)
        (do
          Walk.expectDelimiter closing (.unclosed closing)
          Walk.closeBracket
          return ws)
        (do
          expectDelimiter closing (.unclosed closing)
          advance ctx
          return es) := by
    rintro ws es j ⟨hws, hj⟩
    refine (tracks_expectDelimiter _ _).bind fun _ _ i hi => ?_
    exact tracks_closeBracket.bind fun _ _ l hl => .pure ⟨hws, by omega⟩
  refine .peeked fun t _ => .ite (fun _ => ?_) fun _ => ?_
  · exact (Tracks.pure ⟨.nil, Nat.le_refl k⟩).bind close
  · refine ((advances_items hr (n := k) (by omega)).any.mono ?_).bind close
    rintro ws es j ⟨hws, hj⟩
    exact ⟨hws, by omega⟩

theorem tracks_accesses (hn : n ≤ m + 1) {w : Walked} {e : Expr} (hw : Of ctx.depth (maxDepth + 1) w e) :
    Tracks tokens H ctx ctx n (fun w e k => Of ctx.depth (maxDepth + 1) w e ∧ k ≤ n) (Walk.accesses r w)
      (accesses p ctx e) := by
  unfold Walk.accesses accesses
  refine .loop (N := n) ?_ (Nat.le_refl n) hw
  rintro i hi w _ ⟨rfl, hw⟩
  have stay : Turn (Of ctx.depth (maxDepth + 1)) i (.done w) (.done w.tree) i :=
    .done ⟨rfl, hw⟩ (Nat.le_refl i)
  refine .peeked fun t _ => .ite (fun hround => ?_) fun _ => .ite (fun hsquare => ?_) fun _ =>
    .ite (fun hdot => ?_) fun _ => .pure stay
  · have call : Tracks tokens (· = t) ctx ctx i (Turn (Of ctx.depth (maxDepth + 1)) i)
        (do
          let args ← Walk.list r ")"
          return .yield (node (.call w.tree (trees args)) ((none, w) :: inside args)))
        (do return .yield (.call w.tree (← list p ctx ")"))) := by
      refine (advances_list hr (n := i) (by omega) (ne_stop_of_isDelimiter hround) _).bind ?_
      rintro args _ k ⟨⟨rfl, hargs⟩, hk⟩
      refine .pure (.yield ⟨rfl, ?_⟩ hk)
      refine .node (Nat.le_succ _) ?_ (List.forall_mem_cons.2 ⟨.beside hw, forall_inside hargs⟩)
      rw [Expr.children, List.map_cons, List.map_cons, Expr.map_snd_itemChildren, map_tree_inside]
    generalize w.tree.form = form
    cases form with
    | symbol | access => exact call
    | _ => exact .pure stay
  · refine (advances_list hr (n := i) (by omega) (ne_stop_of_isDelimiter hsquare) _).bind ?_
    rintro dimensions _ k ⟨⟨rfl, hdimensions⟩, hk⟩
    exact .pure (.yield ⟨rfl, hw.indexed hdimensions⟩ hk)
  · refine (tracks_advance_lt (ne_stop_of_isDelimiter hdot)).bind fun _ _ k hk => ?_
    refine .peeked fun name _ => .ite (fun _ => ?_) fun _ => .failed _
    exact tracks_advance.bind fun _ _ l hl => .pure (.yield ⟨rfl, hw.property name.text⟩ (by omega))

theorem advances_parenthesis (hn : n ≤ m + 1) (hstop : ∀ t, H t → t.kind ≠ .stop) :
    AdvancesAt tokens H ctx n (Of ctx.depth (maxDepth + 1)) (Walk.parenthesis r) (parenthesis p ctx) := by
  unfold Walk.parenthesis parenthesis
  refine (tracks_openBracket hstop).bind fun _ _ k hk => ?_
  refine (hr.expression ctx.inside k (by omega)).bind ?_
  rintro w _ j ⟨⟨rfl, hw⟩, hj⟩
  refine (tracks_expectDelimiter _ _).bind fun _ _ i hi => ?_
  refine tracks_closeBracket.bind fun _ _ l hl => .pure ⟨⟨rfl, ?_⟩, by omega⟩
  exact .node (Nat.le_succ _) rfl (List.forall_mem_singleton.2 (.behind .bracket hw))

theorem advances_matrix (hn : n ≤ m + 1) (hstop : ∀ t, H t → t.kind ≠ .stop) :
    AdvancesAt tokens H ctx n (Of ctx.depth (maxDepth + 1)) (Walk.matrix r) (matrix p ctx) := by
  unfold Walk.matrix matrix
  refine (tracks_openBracket hstop).bind fun _ _ k hk => ?_
  refine .peeked fun t _ => .ite (fun _ => ?_) fun _ => ?_
  · refine tracks_closeBracket.bind fun _ _ l hl => .pure ⟨⟨rfl, ?_⟩, by omega⟩
    exact .leaf (Nat.le_succ _) rfl
  · refine (advances_items hr (n := k) (by omega)).any.bind ?_
    rintro first _ j ⟨⟨rfl, hfirst⟩, hj⟩
    refine (Tracks.loop (I := EachRow ctx.depth maxDepth) (N := j) ?_ (Nat.le_refl j)
      ⟨rfl, List.forall_mem_singleton.2 hfirst⟩).bind ?_
    · rintro i hi rows _ ⟨rfl, hrows⟩
      refine .peeked fun t _ => .ite (fun hsemicolon => ?_) fun _ =>
        .pure (.done ⟨rfl, hrows⟩ (Nat.le_refl i))
      refine (tracks_advance_lt (ne_stop_of_isDelimiter hsemicolon)).bind fun _ _ l hl => ?_
      refine (advances_items hr (n := l) (by omega)).bind ?_
      rintro row _ s ⟨⟨rfl, hrow⟩, hs⟩
      exact .pure (.yield ⟨rfl, List.forall_mem_cons.2 ⟨hrow, hrows⟩⟩ (by omega))
    · rintro rows _ i ⟨⟨rfl, hrows⟩, hi⟩
      refine (tracks_expectDelimiter _ _).bind fun _ _ l hl => ?_
      refine .peeked fun t _ => tracks_closeBracket.bind fun _ _ s hs => ?_
      dsimp only
      rw [← List.map_reverse]
      cases he : ofRows t.position (rows.reverse.map trees) with
      | error e => exact .thrown e
      | ok e =>
          have hsound := Walked.Sound.ofRows he fun row hrow => hrows row (List.mem_reverse.1 hrow)
          exact .pure ⟨⟨Walked.tree_ofRows e _, hsound⟩, by omega⟩

omit hr in
theorem EachValue.set {d cap : Nat} {properties : Record Walked} {properties' : Record Expr} {w : Walked}
    {e : Expr} (key : String) (h : EachValue d cap properties properties') (hw : Of d cap w e) :
    EachValue d cap (Record.set key w properties) (Record.set key e properties') := by
  obtain ⟨rfl, h⟩ := h
  obtain ⟨rfl, hw⟩ := hw
  refine ⟨Record.map_set Walked.tree key w properties, fun p hp => ?_⟩
  obtain hp | hp := mem_or_of_mem_set hp
  · exact h p hp
  · exact hp ▸ hw

theorem advances_object (hn : n ≤ m + 1) (hstop : ∀ t, H t → t.kind ≠ .stop) :
    AdvancesAt tokens H ctx n (Of ctx.depth (maxDepth + 1)) (Walk.object r) (object p ctx) := by
  unfold Walk.object object
  refine (tracks_openBracket hstop).bind fun _ _ k hk => ?_
  refine (Tracks.loop (I := EachValue ctx.depth maxDepth) (N := k) ?_ (Nat.le_refl k)
    ⟨rfl, List.forall_mem_nil _⟩).bind ?_
  · intro i hi properties properties' hproperties
    refine .peeked fun t _ => .ite (fun _ => .pure (.done hproperties (Nat.le_refl i))) fun _ => ?_
    cases hkey : key? t with
    | error fault => exact .failed fault
    | ok key =>
        have hname : ∀ t', t' = t → t'.kind ≠ .stop := by
          rintro _ rfl
          exact kind_ne_stop_of_key? hkey
        refine (tracks_advance_lt hname).bind fun _ _ j hj => ?_
        refine .peeked fun t _ => .ite (fun hcolon => ?_) fun _ => ?_
        · refine (tracks_advance_lt (ne_stop_of_isOperator hcolon)).bind fun _ _ l hl => ?_
          refine (hr.expression ctx.inside l (by omega)).bind ?_
          rintro w e s ⟨hw, hs⟩
          refine .peeked fun t _ => .ite (fun _ => ?_) fun _ =>
            .pure (.done (hproperties.set key hw) (by omega))
          exact tracks_advance.bind fun _ _ u hu => .pure (.yield (hproperties.set key hw) (by omega))
        · exact .failed _
  · rintro properties _ i ⟨⟨rfl, hproperties⟩, hi⟩
    refine (tracks_expectDelimiter _ _).bind fun _ _ l hl => ?_
    exact tracks_closeBracket.bind fun _ _ s hs => .pure ⟨⟨rfl, .object hproperties⟩, by omega⟩

omit hr in
theorem children_ofName (name : String) : (ofName name).children = [] := by
  obtain ⟨_, _, h, _⟩ | h := ofName_cases name
  · rw [h]
    rfl
  · rw [h]
    rfl

theorem advances_primary (hn : n ≤ m + 1) :
    AdvancesAt tokens H ctx n (Of ctx.depth (maxDepth + 1)) (Walk.primary r) (primary p ctx) := by
  have constant : ∀ {t : Token} {e : Expr}, t.kind ≠ .stop → e.children = [] →
      AdvancesAt tokens (· = t) ctx n (Of ctx.depth (maxDepth + 1))
        (do
          Walk.advance
          return leaf e)
        (do
          advance ctx
          return e) := by
    intro t e hstop he
    refine (tracks_advance_lt (by rintro _ rfl; exact hstop)).bind fun _ _ k hk => ?_
    exact .pure ⟨⟨rfl, .leaf (Nat.le_succ _) he⟩, hk⟩
  unfold Walk.primary primary
  refine .peeked fun t _ => ?_
  have bracket : t.kind = .delimiter → ∀ t', t' = t → t'.kind ≠ .stop :=
    fun hkind => ne_stop_of_kind hkind (by decide)
  cases hkind : t.kind with
  | number => exact constant (by simp [hkind]) rfl
  | str =>
      dsimp only
      cases Text.unescape? t.text with
      | none => exact .failed _
      | some value => exact constant (by simp [hkind]) rfl
  | identifier => exact constant (by simp [hkind]) (children_ofName t.text)
  | operator =>
      refine .ite (fun _ => constant (by simp [hkind]) rfl) fun _ => ?_
      exact .ite (fun _ => .failed _) fun _ => .failed _
  | delimiter =>
      refine .ite (fun _ => advances_parenthesis hr hn (bracket hkind)) fun _ => ?_
      refine .ite (fun _ => advances_matrix hr hn (bracket hkind)) fun _ => ?_
      exact .ite (fun _ => advances_object hr hn (bracket hkind)) fun _ => .failed _
  | unknown | stop | newline => exact .failed _

end Brackets

section Operators

theorem tracks_binary {cap : Nat} {left right : Walked} {crossing : Option Crossing} (hcap : maxDepth ≤ cap)
    (spelling : String) (hleft : left.Sound ctx.depth cap) (hright : Part ctx.depth cap (crossing, right)) :
    Tracks tokens H ctx ctx n (fun w e k => Of ctx.depth cap w e ∧ k ≤ n)
      (Walk.binary spelling left crossing right) (binary spelling left.tree right.tree) := by
  unfold Walk.binary binary
  cases Operator.binary? spelling with
  | none => exact .failed _
  | some op =>
      have hparts := List.forall_mem_cons.2 ⟨Part.beside hleft, List.forall_mem_singleton.2 hright⟩
      exact .pure ⟨⟨rfl, .node hcap rfl hparts⟩, Nat.le_refl n⟩

variable (hr : r.Track tokens m p)

include hr

theorem advances_postfixed (hn : n ≤ m + 1) :
    AdvancesAt tokens H ctx n (Of ctx.depth (maxDepth + 1)) (Walk.postfixed r) (postfixed p ctx) := by
  unfold Walk.postfixed postfixed
  refine (advances_primary hr hn).bind ?_
  rintro w e k ⟨hw, hk⟩
  refine (tracks_accesses hr (n := k) (by omega) hw).bind ?_
  rintro w e j ⟨hw, hj⟩
  refine (Tracks.loop (N := j) ?_ (Nat.le_refl j) hw).before (by omega)
  rintro i hi w _ ⟨rfl, hw⟩
  refine .peeked fun t _ => ?_
  by_cases hkind : t.kind = .operator
  · rw [if_pos hkind]
    cases Operator.trailing? t.text with
    | none => exact .pure (.done ⟨rfl, hw⟩ (Nat.le_refl i))
    | some op =>
        refine (tracks_advance_lt (ne_stop_of_kind hkind (by decide))).bind fun _ _ l hl => ?_
        refine (tracks_accesses hr (n := l) (by omega) ⟨rfl, ?_⟩).bind ?_
        · exact .node (Nat.le_succ _) rfl (List.forall_mem_singleton.2 (.beside hw))
        · rintro w e s ⟨hw, hs⟩
          exact .pure (.yield hw (by omega))
  · rw [if_neg hkind]
    exact .pure (.done ⟨rfl, hw⟩ (Nat.le_refl i))

theorem advances_power (hn : n ≤ m + 1) :
    AdvancesAt tokens H ctx n (Of ctx.depth (maxDepth + 1)) (Walk.power r) (power p ctx) := by
  unfold Walk.power power
  refine (advances_postfixed hr hn).bind ?_
  rintro base _ k ⟨⟨rfl, hbase⟩, hk⟩
  refine .operatorIn (fun spelling => ?_) (.pure ⟨⟨rfl, hbase⟩, hk⟩)
  refine (tracks_advanceLine fun _ h => h).bind fun _ _ j hj => ?_
  refine (hr.operand ctx j (by omega)).bind ?_
  rintro exponent _ l ⟨⟨rfl, hexponent⟩, hl⟩
  exact (tracks_binary (Nat.le_succ _) spelling hbase (.behind .exponent hexponent)).before (by omega)

end Operators

/-- What an operand is once it is counted. -/
def signed (p : Productions) (ctx : Context) : Parser Expr := do
  let t ← peek
  match if t.kind = .operator then Operator.leading? t.text else none with
  | some op =>
    advanceLine ctx
    return .operation t.text op.name [← p.operand ctx] false
  | none => power p ctx

theorem operand_eq (p : Productions) (ctx : Context) :
    operand p ctx = if maxDepth ≤ ctx.depth then fail .tooDeep else signed p ctx.deeper := by
  unfold operand
  split
  · rfl
  · rfl

section Levels

variable (hr : r.Track tokens m p)

include hr

theorem advances_signed (hn : n ≤ m + 1) :
    Advances tokens ctx n (Of ctx.depth (maxDepth + 1)) (Walk.signed r) (signed p ctx) := by
  unfold Walk.signed signed
  refine .peeked fun t _ => ?_
  by_cases hkind : t.kind = .operator
  · rw [if_pos hkind]
    cases Operator.leading? t.text with
    | none => exact advances_power hr hn
    | some op =>
        refine (tracks_advanceLine (ne_stop_of_kind hkind (by decide))).bind fun _ _ k hk => ?_
        refine (hr.operand ctx k (by omega)).bind ?_
        rintro w _ j ⟨⟨rfl, hw⟩, hj⟩
        refine .pure ⟨⟨rfl, ?_⟩, by omega⟩
        exact .node (Nat.le_succ _) rfl (List.forall_mem_singleton.2 (.behind .operator hw))
  · rw [if_neg hkind]
    exact advances_power hr hn

theorem advances_operand (hn : n ≤ m + 1) :
    Advances tokens ctx n (Of ctx.depth maxDepth) (Walk.operand r) (operand p ctx) := by
  unfold Walk.operand
  rw [operand_eq]
  refine .surveyed fun index => .ite (fun _ => .failed _) fun hdepth => ?_
  refine .changed ctx.deeper (fun _ => rfl) ?_
  rw [← bind_pure (signed p ctx.deeper)]
  refine (advances_signed hr hn).bind ?_
  rintro w _ k ⟨⟨rfl, hw⟩, hk⟩
  exact .changed ctx (fun _ => rfl) (.pure ⟨⟨rfl, hw.operand (Nat.lt_of_not_le hdepth)⟩, hk⟩)

omit hr in
/-- Looking for a quotient of numbers goes to the denominator, or nowhere. -/
theorem quotient_apply {index : Nat} (ctx : Context) (numerator : Expr) (closed : Closed (tokens.drop index)) :
    ∃ denominator, tokens.drop denominator = nextLine ctx (tokens.drop index) ∧
      Walk.quotient numerator tokens (ctx.cursor index) =
        if (head (tokens.drop index)).isOperator "/" && isNumeral numerator
            && (head (nextLine ctx (tokens.drop index))).kind == .number
            && startsFactor (head (nextLine ctx (nextLine ctx (tokens.drop index)))) then
          .ok (true, ctx.cursor denominator)
        else
          .ok (false, ctx.cursor index) := by
  obtain ⟨denominator, hslash, hdrop⟩ := advanceLine_apply ctx closed
  have closed' : Closed (tokens.drop denominator) := hdrop ▸ closed.nextLine ctx
  obtain ⟨behind, hnumber, hdrop'⟩ := advanceLine_apply ctx closed'
  have closed'' : Closed (tokens.drop behind) := hdrop' ▸ closed'.nextLine ctx
  refine ⟨denominator, hdrop, ?_⟩
  have toDenominator : Walk.goTo (ctx.cursor denominator).index tokens (ctx.cursor behind)
      = .ok ((), ctx.cursor denominator) := goTo_apply (lt_length closed')
  have toSlash : Walk.goTo (ctx.cursor index).index tokens (ctx.cursor denominator)
      = .ok ((), ctx.cursor index) := goTo_apply (lt_length closed)
  unfold Walk.quotient
  rw [← hdrop, ← hdrop', bind_ok (token_apply closed)]
  by_cases hdivides : ((head (tokens.drop index)).isOperator "/" && isNumeral numerator) = true
  · rw [if_pos hdivides, hdivides, Bool.true_and, get_bind_apply,
      bind_ok hslash, bind_ok (token_apply closed')]
    by_cases hkind : ((head (tokens.drop denominator)).kind == .number) = true
    · rw [if_pos hkind, hkind, Bool.true_and, get_bind_apply, bind_ok hnumber,
        bind_ok (token_apply closed''), bind_ok toDenominator]
      by_cases hfactor : startsFactor (head (tokens.drop behind)) = true
      · rw [if_pos hfactor, if_pos hfactor]
        rfl
      · rw [if_neg hfactor, if_neg hfactor, bind_ok toSlash]
        rfl
    · rw [if_neg hkind, Bool.eq_false_iff.2 hkind, Bool.false_and, if_neg Bool.false_ne_true,
        bind_ok toSlash]
      rfl
  · rw [if_neg hdivides, Bool.eq_false_iff.2 hdivides, Bool.false_and, Bool.false_and,
      if_neg Bool.false_ne_true]
    rfl

/-- A quotient of numbers goes on with its denominator. -/
theorem tracks_denominator (hn : n ≤ m + 1) {N : Nat} (hlt : n < N) {w : Walked}
    (hw : w.Sound ctx.depth maxDepth) :
    Tracks tokens H ctx ctx n
      (Turn (fun s s' => Of ctx.depth maxDepth s.1 s'.1 ∧ Of ctx.depth maxDepth s.2 s'.2) N)
      (do
        let last ← Walk.operand r
        return .yield (← Walk.binary "/" w none last, last))
      (do
        let last ← operand p ctx
        return .yield (← binary "/" w.tree last, last)) := by
  refine (advances_operand hr hn).any.bind ?_
  rintro last _ k ⟨⟨rfl, hlast⟩, hk⟩
  refine (tracks_binary (Nat.le_refl _) "/" hw (.beside hlast)).bind ?_
  rintro w e j ⟨hw, hj⟩
  exact .pure (.yield ⟨hw, rfl, hlast⟩ (by omega))

theorem advances_fraction (hn : n ≤ m + 1) :
    Advances tokens ctx n (Of ctx.depth maxDepth) (Walk.fraction r) (fraction p ctx) := by
  unfold Walk.fraction fraction
  refine (advances_operand hr hn).bind ?_
  rintro first e k ⟨hfirst, hk⟩
  refine (Tracks.loop (N := k) (I := fun s s' => Of ctx.depth maxDepth s.1 s'.1 ∧
    Of ctx.depth maxDepth s.2 s'.2) ?_ (Nat.le_refl k) ⟨hfirst, hfirst⟩).bind ?_
  · rintro i hi ⟨w, last⟩ ⟨_, _⟩ ⟨⟨rfl, hw⟩, ⟨rfl, hlast⟩⟩ index closed hlength _
    -- The production looks at all tokens that are left here, so no rule for one token applies.
    obtain ⟨denominator, hdrop, hquotient⟩ := quotient_apply ctx last.tree closed
    show Arrives tokens ctx _ _ ((if ((head (tokens.drop index)).isOperator "/" && isNumeral last.tree
        && (head (nextLine ctx (tokens.drop index))).kind == .number
        && startsFactor (head (nextLine ctx (nextLine ctx (tokens.drop index))))) = true then _
      else _ : Parser (ForInStep (Expr × Expr))) (tokens.drop index))
    by_cases hfollows : ((head (tokens.drop index)).isOperator "/" && isNumeral last.tree
        && (head (nextLine ctx (tokens.drop index))).kind == .number
        && startsFactor (head (nextLine ctx (nextLine ctx (tokens.drop index))))) = true
    · rw [if_pos hfollows] at hquotient
      rw [if_pos hfollows, bind_ok hquotient, if_pos rfl]
      have hslash : (head (tokens.drop index)).isOperator "/" = true := by
        simp only [Bool.and_eq_true] at hfollows
        exact hfollows.1.1.1
      have hlt : (tokens.drop denominator).length < i := by
        rw [hdrop, ← hlength]
        exact length_nextLine_lt ctx (kind_ne_of_isOperator hslash (by decide))
      have hrun := tracks_denominator (H := fun _ => True) hr (n := (tokens.drop denominator).length)
        (by omega) hlt hw denominator (hdrop ▸ closed.nextLine ctx) rfl trivial
      rw [hdrop] at hrun
      exact hrun
    · rw [if_neg hfollows] at hquotient
      rw [if_neg hfollows, bind_ok hquotient, if_neg Bool.false_ne_true]
      exact .ok (.done ⟨⟨rfl, hw⟩, rfl, hlast⟩ (Nat.le_of_eq hlength)) closed
  · rintro s ⟨e, e'⟩ j ⟨⟨hs, _⟩, hj⟩
    exact .pure ⟨hs, by omega⟩

theorem advances_juxtaposition (hn : n ≤ m + 1) :
    Advances tokens ctx n (Of ctx.depth maxDepth) (Walk.juxtaposition r) (juxtaposition p ctx) := by
  unfold Walk.juxtaposition juxtaposition
  refine (advances_fraction hr hn).bind ?_
  rintro first _ k ⟨⟨rfl, hfirst⟩, hk⟩
  refine (Tracks.loop (N := k) (I := fun s s' => Of ctx.depth maxDepth s.1 s'.1 ∧ s.2 = s'.2) ?_
    (Nat.le_refl k) ⟨⟨rfl, hfirst⟩, rfl⟩).bind ?_
  · rintro i hi ⟨w, afterNumber⟩ ⟨_, _⟩ ⟨⟨rfl, hw⟩, rfl⟩
    refine .peeked fun t _ => .ite (fun _ => ?_) fun _ => .pure (.done ⟨⟨rfl, hw⟩, rfl⟩ (Nat.le_refl i))
    refine (advances_fraction hr (n := i) (by omega)).any.bind ?_
    rintro factor _ j ⟨⟨rfl, hfactor⟩, hj⟩
    refine .pure (.yield ⟨⟨rfl, ?_⟩, rfl⟩ hj)
    exact .node (Nat.le_refl _) rfl (forall_beside (by simp [hw, hfactor]))
  · rintro s ⟨e, _⟩ j ⟨⟨hs, _⟩, hj⟩
    exact .pure ⟨hs, by omega⟩

omit hr in
theorem advances_leftGrouped {N : Nat} {W : Walk Walked} {P : Parser Expr}
    (h : ∀ n ≤ N, Advances tokens ctx n (Of ctx.depth maxDepth) W P) (operators : List String) :
    ∀ n ≤ N, Advances tokens ctx n (Of ctx.depth maxDepth) (Walk.leftGrouped operators W)
      (leftGrouped ctx operators P) := by
  intro n hn
  unfold Walk.leftGrouped leftGrouped
  refine (h n hn).bind ?_
  rintro first e k ⟨hfirst, hk⟩
  refine (Tracks.loop (N := k) ?_ (Nat.le_refl k) hfirst).before hk
  rintro i hi left _ ⟨rfl, hleft⟩
  refine .operatorIn (fun spelling => ?_) (.pure (.done ⟨rfl, hleft⟩ (Nat.le_refl i)))
  refine (tracks_advanceLine fun _ h => h).bind fun _ _ j hj => ?_
  refine (h j (by omega)).bind ?_
  rintro right _ l ⟨⟨rfl, hright⟩, hl⟩
  refine (tracks_binary (Nat.le_refl _) spelling hleft (.beside hright)).bind ?_
  rintro w e s ⟨hw, hs⟩
  exact .pure (.yield hw (by omega))

omit hr in
theorem advances_levels {N : Nat} (operators : List (List String)) {W : Walk Walked} {P : Parser Expr}
    (h : ∀ n ≤ N, Advances tokens ctx n (Of ctx.depth maxDepth) W P) :
    ∀ n ≤ N, Advances tokens ctx n (Of ctx.depth maxDepth) (Walk.levels operators W)
      (levels ctx operators P) := by
  unfold Walk.levels levels
  induction operators generalizing W P with
  | nil => exact h
  | cons level operators ih => exact ih (advances_leftGrouped h level)

omit hr in
theorem tracks_ofComparisons {ws : List Walked} {es : List Expr} (hws : Each ctx.depth maxDepth ws es)
    (spellings : List String) :
    Tracks tokens H ctx ctx n (fun w e k => Of ctx.depth maxDepth w e ∧ k ≤ n)
      (Walk.ofComparisons ws spellings) (ofComparisons es spellings) := by
  obtain ⟨rfl, hws⟩ := hws
  have absent : (leaf .undefined).Sound ctx.depth maxDepth := .leaf (Nat.le_refl _) rfl
  have first : Of ctx.depth maxDepth (ws.headD (leaf .undefined)) ((trees ws).headD .undefined) := by
    cases ws with
    | nil => exact ⟨rfl, absent⟩
    | cons w ws => exact ⟨rfl, hws w (List.mem_cons_self ..)⟩
  have second : Of ctx.depth maxDepth (ws.getD 1 (leaf .undefined)) ((trees ws).getD 1 .undefined) := by
    rcases ws with _ | ⟨w, _ | ⟨w', ws⟩⟩
    · exact ⟨rfl, absent⟩
    · exact ⟨rfl, absent⟩
    · exact ⟨rfl, hws w' (by simp)⟩
  rcases spellings with _ | ⟨spelling, _ | ⟨spelling', spellings⟩⟩
  · exact .pure ⟨first, Nat.le_refl n⟩
  · show Tracks tokens H ctx ctx n _ _ (binary spelling ((trees ws).headD .undefined)
      ((trees ws).getD 1 .undefined))
    rw [← first.tree, ← second.tree]
    exact tracks_binary (Nat.le_refl _) spelling first.sound (.beside second.sound)
  · refine .pure ⟨⟨rfl, .node (Nat.le_refl _) ?_ (forall_beside hws)⟩, Nat.le_refl n⟩
    rw [Expr.children, Expr.map_snd_itemChildren, map_tree_beside]

theorem advances_chain (hn : n ≤ m + 1) :
    Advances tokens ctx n (Of ctx.depth maxDepth) (Walk.chain r) (chain p ctx) := by
  have operand : ∀ i ≤ n, Advances tokens ctx i (Of ctx.depth maxDepth)
      (Walk.levels tightLevels (Walk.juxtaposition r)) (levels ctx tightLevels (juxtaposition p ctx)) :=
    advances_levels tightLevels fun i hi => advances_juxtaposition hr (by omega)
  unfold Walk.chain chain
  refine (operand n (Nat.le_refl n)).bind ?_
  rintro first e k ⟨hfirst, hk⟩
  refine (Tracks.loop (N := k) (I := fun s s' => Each ctx.depth maxDepth s.1 s'.1 ∧ s.2 = s'.2) ?_
    (Nat.le_refl k) ⟨.one hfirst, rfl⟩).bind ?_
  · rintro i hi ⟨ws, spellings⟩ ⟨es, _⟩ ⟨hws, rfl⟩
    refine .operatorIn (fun spelling => ?_) (.pure (.done ⟨hws, rfl⟩ (Nat.le_refl i)))
    refine (tracks_advanceLine fun _ h => h).bind fun _ _ j hj => ?_
    refine (operand j (by omega)).bind ?_
    rintro w e l ⟨hw, hl⟩
    exact .pure (.yield ⟨.cons hw hws, rfl⟩ (by omega))
  · rintro ⟨ws, spellings⟩ ⟨es, _⟩ j ⟨⟨hws, rfl⟩, hj⟩
    exact (tracks_ofComparisons hws.reverse _).before (by omega)

theorem advances_disjunction (hn : n ≤ m + 1) :
    Advances tokens ctx n (Of ctx.depth maxDepth) (Walk.disjunction r) (disjunction p ctx) :=
  advances_levels looseLevels (fun _ hi => advances_chain hr hi) n hn

omit hr in
theorem tracks_ofParts {ws : List Walked} {es : List Expr} (hws : Each ctx.depth maxDepth ws es) :
    Tracks tokens H ctx ctx n (fun w e k => Of ctx.depth maxDepth w e ∧ k ≤ n) (Walk.ofParts ws)
      (ofParts es) := by
  obtain ⟨rfl, hws⟩ := hws
  rcases ws with _ | ⟨w, _ | ⟨stop, _ | ⟨stop', _ | ⟨_, _⟩⟩⟩⟩
  · exact .failed _
  · exact .pure ⟨⟨rfl, hws w (List.mem_singleton_self w)⟩, Nat.le_refl n⟩
  · exact .pure ⟨⟨rfl, .node (Nat.le_refl _) rfl (forall_beside hws)⟩, Nat.le_refl n⟩
  · refine .pure ⟨⟨rfl, .node (Nat.le_refl _) rfl (forall_beside ?_)⟩, Nat.le_refl n⟩
    simp only [List.forall_mem_cons] at hws ⊢
    exact ⟨hws.1, hws.2.2.1, hws.2.1, hws.2.2.2⟩
  · exact .failed _

/-- A colon that belongs to a range goes on to the next part of it. -/
theorem tracks_part (hn : n ≤ m + 1) (hstop : ∀ t, H t → t.kind ≠ .stop) {ws : List Walked}
    {es : List Expr} (hws : Each ctx.depth maxDepth ws es) :
    Tracks tokens H ctx ctx n (GoesOn (Each ctx.depth maxDepth) n)
      (do
        if ws.length = 3 then
          Walk.fail .tooManyRangeParts
        else
          Walk.advance
          if closesRange (← Walk.token) then
            return .yield (leaf (.symbol Expr.endName) :: ws)
          else
            return .yield ((← Walk.disjunction r) :: ws))
      (do
        if es.length = 3 then
          fail .tooManyRangeParts
        advance ctx
        if closesRange (← peek) then
          return .yield (.symbol Expr.endName :: es)
        else
          return .yield ((← disjunction p ctx) :: es)) := by
  have hlength : es.length = ws.length := by
    rw [← hws.trees, trees, List.length_map]
  rw [hlength]
  refine .ite (fun _ => .failed _) fun _ => ?_
  refine (tracks_advance_lt hstop).bind fun _ _ k hk => ?_
  refine .peeked fun t _ => .ite (fun _ => ?_) fun _ => ?_
  · have hend : Of ctx.depth maxDepth (leaf (.symbol Expr.endName)) (.symbol Expr.endName) :=
      ⟨rfl, .leaf (Nat.le_refl _) rfl⟩
    exact .pure ⟨_, _, rfl, rfl, .cons hend hws, hk⟩
  · refine (advances_disjunction hr (n := k) (by omega)).any.bind ?_
    rintro w e j ⟨hw, hj⟩
    exact .pure ⟨_, _, rfl, rfl, .cons hw hws, by omega⟩

theorem advances_range (hn : n ≤ m + 1) :
    Advances tokens ctx n (Of ctx.depth maxDepth) (Walk.range r) (range p ctx) := by
  have finish : ∀ ws es k, Each ctx.depth maxDepth ws es ∧ k < n → Tracks tokens (fun _ => True) ctx ctx k
      (fun w e k => Of ctx.depth maxDepth w e ∧ k < n) (Walk.ofParts ws.reverse) (ofParts es.reverse) := by
    rintro ws es k ⟨hws, hk⟩
    exact (tracks_ofParts hws.reverse).before hk
  have colon : ∀ {t : Token} {c : Bool}, (t.isOperator ":" && c) = true → ∀ t', t' = t → t'.kind ≠ .stop :=
    fun h => ne_stop_of_isOperator (Bool.and_eq_true_iff.1 h).1
  unfold Walk.range range
  refine .peeked fun t _ => .awaits (.ite (fun hcolon => ?_) fun _ => ?_)
  · -- A start that is left out passes nothing, so the loop has to: its first turn is at the same colon.
    have hone : Of ctx.depth maxDepth (leaf (.number "1")) (.number "1") := ⟨rfl, .leaf (Nat.le_refl _) rfl⟩
    refine .pure_bind ((Tracks.entered (N := n) (I := Each ctx.depth maxDepth) ?_ (Nat.le_refl n) ?_).bind
      finish)
    · intro i hi ws es hws
      refine .peeked fun t _ => .awaits (.ite (fun hcolon => ?_) fun _ => .pure (.done hws (Nat.le_refl i)))
      exact (tracks_part hr (n := i) (by omega) (colon hcolon) hws).mono fun _ _ _ h => h.turn
    · refine .peeked fun t' ht => .awaits ?_
      obtain rfl : t' = t := ht
      rw [if_pos hcolon, if_pos hcolon]
      exact tracks_part hr hn (colon hcolon) (.one hone)
  · refine (advances_disjunction hr hn).any.bind ?_
    rintro first e k ⟨hfirst, hk⟩
    refine ((Tracks.loop (N := k) (I := Each ctx.depth maxDepth) ?_ (Nat.le_refl k) (.one hfirst)).before
      hk).bind finish
    intro i hi ws es hws
    refine .peeked fun t _ => .awaits (.ite (fun hcolon => ?_) fun _ => .pure (.done hws (Nat.le_refl i)))
    exact (tracks_part hr (n := i) (by omega) (colon hcolon) hws).mono fun _ _ _ h => h.turn

theorem advances_conditional (hn : n ≤ m + 1) :
    Advances tokens ctx n (Of ctx.depth maxDepth) (Walk.conditional r) (conditional p ctx) := by
  unfold Walk.conditional conditional
  refine (advances_range hr hn).bind ?_
  rintro first e k ⟨hfirst, hk⟩
  refine (Tracks.loop (N := k) ?_ (Nat.le_refl k) hfirst).before hk
  rintro i hi condition _ ⟨rfl, hcondition⟩
  refine .peeked fun t _ => .ite (fun hquestion => ?_) fun _ =>
    .pure (.done ⟨rfl, hcondition⟩ (Nat.le_refl i))
  refine .surveyed fun index => .changed ctx.awaiting (fun _ => rfl) ?_
  refine (tracks_advanceLine (ne_stop_of_isOperator hquestion)).bind fun _ _ j hj => ?_
  refine (hr.expression ctx.awaiting j (by omega)).bind ?_
  rintro yes _ l ⟨⟨rfl, hyes⟩, hl⟩
  refine .peeked fun t _ => .ite (fun hcolon => ?_) fun _ => .failed _
  refine .changed ctx.answered (fun _ => rfl) ?_
  refine (tracks_advanceLine (ne_stop_of_isOperator hcolon)).bind fun _ _ s hs => ?_
  refine (hr.expression ctx.answered s (by omega)).bind ?_
  rintro no _ u ⟨⟨rfl, hno⟩, hu⟩
  refine .changed ctx (fun _ => rfl) (.pure (.yield ⟨rfl, ?_⟩ (by omega)))
  have hyes : yes.Sound ctx.depth maxDepth := hyes
  have hno : no.Sound ctx.depth maxDepth := hno
  exact .node (Nat.le_refl _) rfl (forall_beside (by simp [hcondition, hyes, hno]))

theorem advances_expression (hn : n ≤ m + 1) :
    Advances tokens ctx n (Of ctx.depth maxDepth) (Walk.expression r) (expression p ctx) := by
  unfold Walk.expression expression
  refine (advances_conditional hr hn).bind ?_
  rintro target _ k ⟨⟨rfl, htarget⟩, hk⟩
  refine .peeked fun t _ => .ite (fun hequals => ?_) fun _ => .pure ⟨⟨rfl, htarget⟩, hk⟩
  refine (tracks_advanceLine (ne_stop_of_isOperator hequals)).bind fun _ _ j hj => ?_
  refine (hr.expression ctx j (by omega)).bind ?_
  rintro value _ l ⟨⟨rfl, hvalue⟩, hl⟩
  cases he : assign target.tree value.tree with
  | ok e => exact .pure ⟨⟨rfl, .assigned he htarget hvalue⟩, by omega⟩
  | error fault => exact .thrown _

end Levels

/-- As many turns as there are tokens left are enough. -/
theorem track_routines (tokens : List Token) (n : Nat) : (Walk.routines n).Track tokens n (productions n) := by
  induction n with
  | zero => exact ⟨fun _ _ hn => .empty (Nat.le_zero.1 hn), fun _ _ hn => .empty (Nat.le_zero.1 hn)⟩
  | succ n ih => exact ⟨fun _ _ hn => advances_expression ih hn, fun _ _ hn => advances_operand ih hn⟩

/-! ### Sources -/

section Sources

variable (hr : r.Track tokens m p)

include hr

theorem tracks_statement (hn : n ≤ m) :
    Tracks tokens H {} {} n (fun entries entries' k => EachBody 0 maxDepth entries entries' ∧ k ≤ n)
      (Walk.statement r) (statement p) := by
  unfold Walk.statement statement
  refine .peeked fun t _ => .ite (fun _ => ?_) fun _ => ?_
  · exact .pure ⟨⟨rfl, List.forall_mem_nil _⟩, Nat.le_refl n⟩
  · refine (hr.expression {} n hn).any.bind ?_
    rintro w _ k ⟨⟨rfl, hw⟩, hk⟩
    exact .peeked fun t _ => .pure ⟨⟨rfl, List.forall_mem_singleton.2 hw⟩, by omega⟩

omit hr in
theorem EachBody.append {entries more : List (Entry Walked)} {entries' more' : List (Entry Expr)} {d cap : Nat}
    (h : EachBody d cap entries entries') (hmore : EachBody d cap more more') :
    EachBody d cap (more ++ entries) (more' ++ entries') := by
  obtain ⟨rfl, h⟩ := h
  obtain ⟨rfl, hmore⟩ := hmore
  exact ⟨List.map_append, List.forall_mem_append.2 ⟨hmore, h⟩⟩

omit hr in
theorem EachBody.reverse {entries : List (Entry Walked)} {entries' : List (Entry Expr)} {d cap : Nat}
    (h : EachBody d cap entries entries') : EachBody d cap entries.reverse entries'.reverse := by
  obtain ⟨rfl, h⟩ := h
  exact ⟨List.map_reverse, fun entry hentry => h entry (List.mem_reverse.1 hentry)⟩

theorem tracks_statements (hn : n ≤ m) :
    Tracks tokens H {} {} n (fun w e _ => Of 0 maxDepth w e) (Walk.statements r) (statements p) := by
  unfold Walk.statements statements
  refine (tracks_statement hr hn).bind ?_
  rintro first first' k ⟨hfirst, hk⟩
  refine .peeked fun t _ => ?_
  refine (Tracks.loop (N := k) (I := EachBody 0 maxDepth) ?_ (Nat.le_refl k) hfirst.reverse).bind ?_
  · intro i hi entries entries' hentries
    refine .peeked fun t _ => .ite (fun hseparates => ?_) fun _ => .pure (.done hentries (Nat.le_refl i))
    have hstop : ∀ t', t' = t → t'.kind ≠ .stop := by
      rintro _ rfl
      exact kind_ne_stop_of_separates hseparates
    refine (tracks_advance_lt hstop).bind fun _ _ j hj => ?_
    refine (tracks_statement hr (n := j) (by omega)).bind ?_
    rintro more more' l ⟨hmore, hl⟩
    exact .pure (.yield (hentries.append hmore.reverse) (by omega))
  · rintro entries _ j ⟨hentries, hj⟩
    obtain ⟨hbodies, hsound⟩ := hentries.reverse
    rw [← hbodies]
    generalize entries.reverse = entries at hsound ⊢
    rcases entries with _ | ⟨entry, _ | ⟨entry', entries⟩⟩
    · exact .pure ⟨rfl, .leaf (Nat.le_refl _) rfl⟩
    · cases separates t with
      | true => exact .pure ⟨rfl, .block hsound⟩
      | false => exact .pure ⟨rfl, hsound entry (List.mem_singleton_self entry)⟩
    · exact .pure ⟨rfl, .block hsound⟩

theorem tracks_source (hn : n ≤ m) :
    Tracks tokens H {} {} n (fun w e _ => Of 0 maxDepth w e) (Walk.source r) (source p) := by
  unfold Walk.source source
  refine (tracks_statements hr hn).bind fun w e k hw => .peeked fun t _ => ?_
  cases t.kind with
  | stop => exact .pure hw
  | _ => exact .failed _

end Sources

end Formula.Grammar
