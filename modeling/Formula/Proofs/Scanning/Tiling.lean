import Formula.Proofs.Scanning

/-!
How tokens cover their source.

A source is made of tokens and of what may stand between them (`Gap`): blanks, and comments, each of
which goes on to the end of its line. `Tiles` puts this piece by piece, in the way in which a source is
scanned (`scanFrom_tiles`), and `scan_tiles` reads off the positions of the tokens.
-/

namespace Formula.Token

/-- What may stand between tokens, in front of the rest of a text. -/
inductive Gap : List Char → List Char → Prop
  | nil (rest : List Char) : Gap [] rest
  | blank {c : Char} {gap rest : List Char} (hc : c = ' ' ∨ c = '\t' ∨ c = '\r') (more : Gap gap rest) :
      Gap (c :: gap) rest
  /-- A comment, and its line ends or the text does. -/
  | comment {text gap rest : List Char} (line : '\n' ∉ text)
      (ends : gap ++ rest = [] ∨ ∃ behind, gap ++ rest = '\n' :: behind) (more : Gap gap rest) :
      Gap ('#' :: text ++ gap) rest

/-- The position behind the last character of a token. -/
def behind (t : Token) : Nat :=
  t.position + t.spelling.length

/-- A text, from a position of its source on, is made of gaps and the spellings of tokens in turn. -/
inductive Tiles : Nat → List Char → List Token → Prop
  | stop {position : Nat} {gap : List Char} (between : Gap gap []) :
      Tiles position gap [stopAt (position + gap.length)]
  | token {position : Nat} {gap rest : List Char} {t : Token} {tokens : List Token}
      (between : Gap gap (t.spelling.toList ++ rest)) (proper : t.kind ≠ .stop ∧ t.spelling ≠ "")
      (start : t.position = position + gap.length) (more : Tiles t.behind rest tokens) :
      Tiles position (gap ++ (t.spelling.toList ++ rest)) (t :: tokens)

/-! ### How a text is scanned -/

/-- A string literal ends with its quote. -/
theorem take_closingQuote {e : Bool} {cs : List Char} {n : Nat} (h : closingQuote? e cs = some n) :
    (cs.take n).dropLast ++ ['"'] = cs.take n := by
  induction cs generalizing e n with
  | nil => cases h
  | cons c cs ih =>
      unfold closingQuote? at h
      split at h
      · rename_i hc
        obtain rfl := Option.some.inj h
        rw [hc.1]
        rfl
      · obtain ⟨m, hm, rfl⟩ := Option.map_eq_some_iff.1 h
        have htake := ih hm
        have hne : cs.take m ≠ [] := by
          rw [← htake]
          exact List.append_ne_nil_of_right_ne_nil _ (List.cons_ne_nil _ _)
        rw [List.take_succ_cons, List.dropLast_cons_of_ne_nil hne, List.cons_append, htake]

/-- A token is spelled with the characters that it is made of. -/
theorem spelling_ofChars (c : Char) (cs : List Char) (position : Nat) :
    (ofChars (shape c cs).1 c (cs.take (shape c cs).2) position).spelling.toList
      = c :: cs.take (shape c cs).2 := by
  have hshaped := shaped c cs
  generalize shape c cs = s at hshaped
  cases hshaped with
  | string hc h =>
      rw [ofChars, if_pos rfl, spelling, if_pos rfl, String.toList_append, String.toList_append, hc,
        ← take_closingQuote h]
      simp
  | _ => exact String.toList_ofList

/-- A line ends at a line end, or the text does. -/
theorem drop_line (cs : List Char) : cs.drop (cs.takeWhile (· != '\n')).length = [] ∨
    ∃ behind, cs.drop (cs.takeWhile (· != '\n')).length = '\n' :: behind := by
  induction cs with
  | nil => exact .inl rfl
  | cons c cs ih =>
      by_cases hc : c = '\n'
      · exact .inr ⟨cs, by simp [hc]⟩
      · simpa [hc] using ih

/-- What is skipped makes the gap behind it longer. -/
theorem Gap.skipped {n : Nat} {c : Char} {cs gap rest : List Char} (h : skipped? c cs = some n)
    (hdrop : cs.drop n = gap ++ rest) (between : Gap gap rest) : Gap (c :: (cs.take n ++ gap)) rest := by
  unfold skipped? at h
  split at h
  · rename_i hblank
    obtain rfl := Option.some.inj h
    exact .blank (by simpa [isBlank, or_assoc] using hblank) between
  · split at h
    · rename_i hc
      obtain rfl := Option.some.inj h
      have line : '\n' ∉ cs.takeWhile (· != '\n') := by
        intro hline
        simpa using List.all_eq_true.1 (List.all_takeWhile (p := (· != '\n')) (l := cs)) _ hline
      rw [take_takeWhile, hc]
      exact .comment line (hdrop ▸ drop_line cs) between
    · cases h

/-- What is skipped belongs to the gap in front of the first token. -/
theorem Tiles.skipped {position n : Nat} {c : Char} {cs : List Char} {tokens : List Token}
    (h : skipped? c cs = some n) (tiles : Tiles (position + n + 1) (cs.drop n) tokens) :
    Tiles position (c :: cs) tokens := by
  have hle := skipped?_le h
  have shorter : ∀ gap : List Char, position + n + 1 + gap.length
      = position + (c :: (cs.take n ++ gap)).length := by
    intro gap
    rw [List.length_cons, List.length_append, List.length_take_of_le hle]
    omega
  generalize hdrop : cs.drop n = rest at tiles
  have hcs : c :: cs = c :: (cs.take n ++ rest) := by rw [← hdrop, List.take_append_drop]
  rw [hcs]
  cases tiles with
  | stop between =>
      rw [shorter]
      exact .stop (between.skipped h (hdrop.trans (List.append_nil rest).symm))
  | token between proper start more =>
      rw [← List.append_assoc, ← List.cons_append]
      exact .token (between.skipped h hdrop) proper (start.trans (shorter _)) more

theorem scanFrom_tiles (position : Nat) (cs : List Char) :
    Tiles position cs (scanFrom position cs) := by
  induction position, cs using scanFrom.induct with
  | case1 position =>
      rw [scanFrom_nil]
      exact .stop (.nil [])
  | case2 position c cs n hskipped ih =>
      rw [scanFrom_skipped hskipped]
      exact ih.skipped hskipped
  | case3 position c cs hskipped kind n hshape ih =>
      have hspelling := spelling_ofChars c cs position
      have hstop := shape_ne_stop c cs
      have hle := shape_le c cs
      rw [scanFrom_token hskipped]
      rw [hshape] at hspelling hstop hle ⊢
      have some : (ofChars kind c (cs.take n) position).spelling ≠ "" := by
        intro hempty
        rw [hempty] at hspelling
        cases hspelling
      have hbehind : (ofChars kind c (cs.take n) position).behind = position + n + 1 := by
        rw [behind, ← String.length_toList, hspelling, List.length_cons, List.length_take_of_le hle]
        rfl
      rw [← hbehind] at ih
      have tiles := Tiles.token (.nil _) ⟨hstop, some⟩ rfl ih
      rw [hspelling, List.nil_append, List.cons_append, List.take_append_drop, hbehind] at tiles
      exact tiles

/-! ### Where the tokens are -/

/-- The characters of a text from one position to another. -/
def slice (cs : List Char) (start stop : Nat) : List Char :=
  (cs.drop start).take (stop - start)

theorem slice_append (front middle back : List Char) :
    slice (front ++ (middle ++ back)) front.length (front.length + middle.length) = middle := by
  rw [slice, List.drop_left, Nat.add_sub_cancel_left, List.take_left]

/-- What is known of the tokens of a text behind a position of its source. -/
structure Covers (source : List Char) (position : Nat) (tokens : List Token) : Prop where
  ends : ∃ body, tokens = body ++ [stopAt source.length] ∧ ∀ t ∈ body, t.kind ≠ .stop ∧
    t.spelling ≠ "" ∧ slice source t.position t.behind = t.spelling.toList
  after : ∀ t ∈ tokens, position ≤ t.position
  apart : tokens.Pairwise fun t u => t.position < u.position ∧ t.behind ≤ u.position
  gaps : ∀ p ∈ (position :: tokens.map behind).zip (tokens.map (·.position)),
    Gap (slice source p.1 p.2) (source.drop p.2)

theorem Tiles.covers {position : Nat} {cs : List Char} {tokens : List Token}
    (tiles : Tiles position cs tokens) :
    ∀ front : List Char, front.length = position → Covers (front ++ cs) position tokens := by
  induction tiles with
  | @stop position gap between =>
      rintro front rfl
      have hslice := slice_append front gap []
      rw [List.append_nil] at hslice
      refine ⟨⟨[], ?_, List.forall_mem_nil _⟩, List.forall_mem_singleton.2 (Nat.le_add_right _ _),
        List.pairwise_singleton _ _, List.forall_mem_singleton.2 ?_⟩
      · rw [List.length_append, List.nil_append]
      · have hdrop : (front ++ gap).drop (front.length + gap.length) = [] := by simp
        rw [hslice, hdrop]
        exact between
  | @token position gap rest t tokens between proper start more ih =>
      rintro front rfl
      have hposition : t.position = (front ++ gap).length := by rw [start, List.length_append]
      have hbehind : t.behind = (front ++ gap).length + t.spelling.toList.length := by
        rw [behind, hposition, String.length_toList]
      have hlt : t.position < t.behind := by
        have hpositive : t.spelling.length ≠ 0 := fun h => proper.2 (String.length_eq_zero_iff.1 h)
        rw [behind]
        omega
      have covers := ih (front ++ gap ++ t.spelling.toList) (by rw [hbehind, List.length_append])
      rw [List.append_assoc, List.append_assoc] at covers
      obtain ⟨⟨body, hbody, hkinds⟩, hafter, hapart, hgaps⟩ := covers
      refine ⟨⟨t :: body, by rw [List.cons_append, ← hbody], List.forall_mem_cons.2 ⟨?_, hkinds⟩⟩,
        List.forall_mem_cons.2 ⟨by omega, fun u hu => ?_⟩,
        List.pairwise_cons.2 ⟨fun u hu => ⟨?_, hafter u hu⟩, hapart⟩,
        List.forall_mem_cons.2 ⟨?_, hgaps⟩⟩
      · refine ⟨proper.1, proper.2, ?_⟩
        rw [hbehind, hposition, ← List.append_assoc]
        exact slice_append _ _ _
      · have := hafter u hu
        omega
      · exact Nat.lt_of_lt_of_le hlt (hafter u hu)
      · have hdrop : (front ++ (gap ++ (t.spelling.toList ++ rest))).drop (front ++ gap).length
            = t.spelling.toList ++ rest := by
          rw [← List.append_assoc, List.drop_left]
        dsimp only
        rw [hposition, hdrop, List.length_append, slice_append]
        exact between

/-- The tokens of a source are in order and apart from one another, each but the last is spelled with the
characters of the source at its position, at least one, and the last is the end of the source. In front
of each of them, behind the one before it, there are only blanks and comments. -/
theorem scan_tiles (source : String) :
    (∃ body, scan source = body ++ [stopAt source.length] ∧ ∀ t ∈ body, t.kind ≠ .stop ∧
        t.spelling ≠ "" ∧ slice source.toList t.position t.behind = t.spelling.toList) ∧
      (scan source).Pairwise (fun t u => t.position < u.position ∧ t.behind ≤ u.position) ∧
      ∀ p ∈ (0 :: (scan source).map behind).zip ((scan source).map (·.position)),
        Gap (slice source.toList p.1 p.2) (source.toList.drop p.2) := by
  obtain ⟨ends, -, apart, gaps⟩ := (scanFrom_tiles 0 source.toList).covers [] rfl
  rw [List.nil_append, String.length_toList] at ends
  exact ⟨ends, apart, gaps⟩

end Formula.Token
