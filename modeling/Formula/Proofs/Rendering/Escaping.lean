import Formula.Proofs.Rendering.Pieces

/-!
How text is told from its escaped markup.

Each special character has an escape sequence of its own, and no sequence begins another one
(`escapes`), so that markup can be read back (`unescape?`). What is read back are the texts that were
escaped and nothing else (`unescapeChars?_eq_some_iff`).
-/

namespace Formula.Latex

/-- The special characters, each with the sequence that it is escaped by. -/
def escapes : List (Char × List Char) := [
  ('\\', "\\textbackslash\x7b\x7d".toList),
  ('~', "\\textasciitilde\x7b\x7d".toList),
  ('^', "\\textasciicircum\x7b\x7d".toList),
  ('#', ['\\', '#']),
  ('$', ['\\', '$']),
  ('%', ['\\', '%']),
  ('&', ['\\', '&']),
  ('_', ['\\', '_']),
  ('\x7b', ['\\', '\x7b']),
  ('\x7d', ['\\', '\x7d'])]

/-- Whether a character cannot stand for itself in markup. -/
def isSpecial (c : Char) : Bool :=
  escapes.any fun e => c = e.1

/-- The text that was escaped, if markup is that of one: sequences are read as their characters, and
special characters occur in no other place. -/
def unescapeChars? : List Char → Option (List Char)
  | [] => some []
  | c :: cs =>
    match escapes.find? fun e => e.2.isPrefixOf (c :: cs) with
    | some (d, sequence) => (unescapeChars? (cs.drop (sequence.length - 1))).map (d :: ·)
    | none => if isSpecial c then none else (unescapeChars? cs).map (c :: ·)
termination_by cs => cs.length
decreasing_by all_goals simp only [List.length_drop, List.length_cons]; omega

/-- The text that was escaped, if markup is that of one. -/
def unescape? (markup : String) : Option String :=
  (unescapeChars? markup.toList).map String.ofList

/-! ### Characters -/

/-- A special character is escaped by its sequence. -/
theorem escapeChar_of_mem {c : Char} {sequence : List Char} (h : (c, sequence) ∈ escapes) :
    escapeChar c = sequence := by
  have table : ∀ e ∈ escapes, escapeChar e.1 = e.2 := by decide
  exact table _ h

theorem exists_mem_escapes {c : Char} (h : isSpecial c = true) :
    ∃ sequence, (c, sequence) ∈ escapes := by
  obtain ⟨⟨d, sequence⟩, hmem, hd⟩ := List.any_eq_true.1 h
  obtain rfl : c = d := of_decide_eq_true hd
  exact ⟨sequence, hmem⟩

/-- Any other character stands for itself. -/
theorem escapeChar_of_not_isSpecial {c : Char} (h : isSpecial c = false) : escapeChar c = [c] := by
  simp only [isSpecial, escapes, List.any_cons, List.any_nil, Bool.or_false, Bool.or_eq_false_iff,
    decide_eq_false_iff_not] at h
  simp [escapeChar, h]

/-- Every sequence begins with a backslash. -/
theorem exists_backslash {e : Char × List Char} (h : e ∈ escapes) : ∃ more, e.2 = '\\' :: more := by
  have table : ∀ e ∈ escapes, e.2.head? = some '\\' := by decide
  exact List.head?_eq_some_iff.1 (table e h)

theorem find?_escapes_eq_none {c : Char} (h : isSpecial c = false) (cs : List Char) :
    (escapes.find? fun e => e.2.isPrefixOf (c :: cs)) = none := by
  rw [List.find?_eq_none]
  intro e he hprefix
  obtain ⟨more, hmore⟩ := exists_backslash he
  rw [hmore, List.isPrefixOf_iff_prefix, List.cons_prefix_cons] at hprefix
  obtain ⟨rfl, _⟩ := hprefix
  exact Bool.false_ne_true (h.symm.trans rfl)

/-! ### Reading markup back -/

theorem unescapeChars?_escapeChar (c : Char) (rest : List Char) :
    unescapeChars? (escapeChar c ++ rest) = (unescapeChars? rest).map (c :: ·) := by
  cases hspecial : isSpecial c with
  | false =>
      rw [escapeChar_of_not_isSpecial hspecial, List.singleton_append, unescapeChars?,
        find?_escapes_eq_none hspecial]
      simp [hspecial]
  | true =>
      obtain ⟨sequence, hmem⟩ := exists_mem_escapes hspecial
      -- no sequence begins another one, so the first that fits is that of the character
      have first : ∀ e ∈ escapes, (escapes.find? fun e' => e'.2.isPrefixOf (e.2 ++ rest)) = some e := by
        intro e he
        simp only [escapes, List.mem_cons, List.not_mem_nil, or_false] at he
        rcases he with rfl | rfl | rfl | rfl | rfl | rfl | rfl | rfl | rfl | rfl <;> rfl
      have hfind := first _ hmem
      obtain ⟨more, hmore⟩ := exists_backslash hmem
      dsimp only at hfind hmore
      rw [hmore, List.cons_append] at hfind
      rw [escapeChar_of_mem hmem, hmore, List.cons_append, unescapeChars?, hfind]
      simp

theorem eq_flatMap_of_unescapeChars? {markup text : List Char}
    (h : unescapeChars? markup = some text) : markup = text.flatMap escapeChar := by
  fun_induction unescapeChars? markup generalizing text with
  | case1 =>
      cases h
      rfl
  | case2 c cs d sequence hfind ih =>
      obtain ⟨text', htext', rfl⟩ := Option.map_eq_some_iff.1 h
      have hmem := List.mem_of_find?_eq_some hfind
      have hprefix := List.find?_some hfind
      obtain ⟨behind, hbehind⟩ := List.isPrefixOf_iff_prefix.1 hprefix
      obtain ⟨more, hmore⟩ := exists_backslash hmem
      obtain rfl : sequence = '\\' :: more := hmore
      obtain ⟨rfl, rfl⟩ := List.cons.inj hbehind
      rw [List.flatMap_cons, escapeChar_of_mem hmem, ← ih htext']
      simp
  | case3 => cases h
  | case4 c cs _ hspecial ih =>
      obtain ⟨text', htext', rfl⟩ := Option.map_eq_some_iff.1 h
      rw [List.flatMap_cons, escapeChar_of_not_isSpecial (Bool.eq_false_iff.2 hspecial), ← ih htext']
      rfl

theorem unescapeChars?_eq_some_iff {markup text : List Char} :
    unescapeChars? markup = some text ↔ markup = text.flatMap escapeChar := by
  constructor
  · exact eq_flatMap_of_unescapeChars?
  · rintro rfl
    induction text with
    | nil => rw [List.flatMap_nil, unescapeChars?]
    | cons c text ih => rw [List.flatMap_cons, unescapeChars?_escapeChar, ih, Option.map_some]

theorem unescape?_eq_some_iff {markup s : String} : unescape? markup = some s ↔ markup = escape s := by
  unfold unescape? escape
  rw [Option.map_eq_some_iff]
  constructor
  · rintro ⟨text, htext, rfl⟩
    rw [String.toList_ofList, ← unescapeChars?_eq_some_iff.1 htext, String.ofList_toList]
  · rintro rfl
    refine ⟨s.toList, ?_, String.ofList_toList⟩
    rw [String.toList_ofList, unescapeChars?_eq_some_iff]

/-- Escaped text is put together from sequences and from characters that are not special, one for each
character of the text. -/
theorem exists_pieces (s : String) : ∃ pieces : List (List Char),
    (escape s).toList = pieces.flatten ∧ pieces.length = s.length ∧
      ∀ piece ∈ pieces, (∃ c, (c, piece) ∈ escapes) ∨ ∃ c, isSpecial c = false ∧ piece = [c] := by
  refine ⟨s.toList.map escapeChar, ?_, ?_, ?_⟩
  · rw [escape, String.toList_ofList, List.flatMap_def]
  · rw [List.length_map, String.length_toList]
  · rw [List.forall_mem_map]
    intro c _
    cases hspecial : isSpecial c with
    | false => exact .inr ⟨c, hspecial, escapeChar_of_not_isSpecial hspecial⟩
    | true =>
        obtain ⟨sequence, hmem⟩ := exists_mem_escapes hspecial
        exact .inl ⟨c, escapeChar_of_mem hmem ▸ hmem⟩

/-- A text is recovered from its escaped markup, which belongs to no other text. In the markup each
special character is part of an escape sequence, and all braces that are not escaped are nested. -/
theorem escape_reversible (s : String) :
    (∀ markup, unescape? markup = some s ↔ markup = escape s) ∧ (∀ t, escape t = escape s ↔ t = s) ∧
      (∃ pieces : List (List Char), (escape s).toList = pieces.flatten ∧ pieces.length = s.length ∧
        ∀ piece ∈ pieces, (∃ c, (c, piece) ∈ escapes) ∨ ∃ c, isSpecial c = false ∧ piece = [c]) ∧
      isWellFormed (escape s) = true := by
  refine ⟨fun _ => unescape?_eq_some_iff, fun t => ⟨fun h => ?_, fun h => h ▸ rfl⟩, exists_pieces s,
    fits_iff.1 (Solid.escape s).fits⟩
  have hs : unescape? (escape s) = some s := unescape?_eq_some_iff.2 rfl
  have ht : unescape? (escape s) = some t := unescape?_eq_some_iff.2 h.symm
  exact Option.some.inj (ht.symm.trans hs)

end Formula.Latex
