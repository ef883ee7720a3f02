import Formula.Proofs.Grammar.Alignment
import Formula.Proofs.Lines

/-!
Where a source is said to be wrong.

The grammar fails at the position of a token only (`Expr.exists_mem_scan_position`). What is shown for a
position of a source is counted in characters; a printer that cuts the source at byte offsets and
subtracts what it counts (`printed?`) shows the same (`pretty_points_at_position`), and so it never cuts
a character in two, nor goes beyond the source, nor below zero.
-/

namespace Formula

/-! ### Failing at a token -/

namespace Expr

open Grammar

/-- A source that is no expression is wrong at one of its tokens. -/
theorem exists_mem_scan_position {source : String} {e : SyntaxError} (h : parse source = .error e) :
    ∃ t ∈ Token.scan source, t.position = e.position := by
  let Q : Nat → Nat → Prop := fun position position' =>
    position = position' ∧ ∃ t ∈ Token.scan source, t.position = position
  have halike : List.Forall₂ (Alike Q) (Token.scan source) (Token.scan source) := by
    rw [List.forall₂_same]
    intro t ht
    exact ⟨rfl, rfl, rfl, t, ht, rfl⟩
  obtain ⟨e', hparse, _⟩ | ⟨fault, position, position', hparse, _, _, ht⟩ :=
    ofTokens_aligned ⟨halike, closed_scanFrom 0 source.toList⟩
  · exact absurd (hparse.symm.trans h) (by simp)
  · have herror : ofTokens (Token.scan source) = .error e := h
    rw [hparse] at herror
    cases herror
    exact ht

end Expr

namespace SyntaxError

/-! ### Counting in bytes -/

/-- The number of bytes of a text. -/
def byteLength (text : List Char) : Nat :=
  (text.map Char.utf8Size).sum

/-- The byte offset of the last line end of a text. -/
def lastLineEnd? : List Char → Option Nat
  | [] => none
  | c :: cs =>
    match lastLineEnd? cs with
    | some offset => some (c.utf8Size + offset)
    | none => if c = '\n' then some 0 else none

/-- A text cut at a byte offset, if it lies between two characters or at an end of the text. -/
def cutAt? : Nat → List Char → Option (List Char × List Char)
  | 0, cs => some ([], cs)
  | _ + 1, [] => none
  | offset + 1, c :: cs =>
    if c.utf8Size ≤ offset + 1 then
      (cutAt? (offset + 1 - c.utf8Size) cs).map fun (front, rest) => (c :: front, rest)
    else none

/-- The first line of a text, without its line end. -/
def firstLine (text : List Char) : List Char :=
  let line := text.takeWhile (· != '\n')
  if text.dropWhile (· != '\n') = [] then line else withoutReturn line

/-- The byte offset behind the last line end in front of a position. -/
def lineOffset (position : Nat) (source : List Char) : Nat :=
  match lastLineEnd? (source.take position) with
  | some offset => offset + 1
  | none => 0

/-- What is shown for a position of a source, if all cuts lie between characters and nothing is
subtracted from less. -/
def printed? (message : String) (position : Nat) (source : String) : Option String := do
  let (front, rest) ← cutAt? (lineOffset position source.toList) source.toList
  if front.length ≤ position then
    let column := min rest.length (position - front.length)
    some (String.ofList (firstLine rest ++ '\n' :: List.replicate column ' ') ++ "^ "
      ++ describe message position)
  else
    none

theorem byteLength_append (front rest : List Char) :
    byteLength (front ++ rest) = byteLength front + byteLength rest := by
  rw [byteLength, List.map_append, List.sum_append, byteLength, byteLength]

theorem cutAt?_append (front rest : List Char) :
    cutAt? (byteLength front) (front ++ rest) = some (front, rest) := by
  induction front with
  | nil => rw [byteLength, List.map_nil, List.sum_nil, List.nil_append, cutAt?]
  | cons c front ih =>
      have hlength : byteLength (c :: front) = c.utf8Size + byteLength front := by
        rw [byteLength, List.map_cons, List.sum_cons, byteLength]
      obtain ⟨offset, hoffset⟩ := Nat.exists_eq_succ_of_ne_zero
        (Nat.pos_iff_ne_zero.1 (hlength ▸ Nat.add_pos_left c.utf8Size_pos _))
      have hrest : offset + 1 - c.utf8Size = byteLength front := by omega
      rw [hoffset, List.cons_append, cutAt?, if_pos (by omega), hrest, ih, Option.map_some]

theorem lastLineEnd?_eq_none {text : List Char} (h : '\n' ∉ text) : lastLineEnd? text = none := by
  induction text with
  | nil => rw [lastLineEnd?]
  | cons c text ih =>
      obtain ⟨hc, htext⟩ := not_or.1 (mt List.mem_cons.2 h)
      rw [lastLineEnd?, ih htext]
      exact if_neg (Ne.symm hc)

theorem lastLineEnd?_append (front : List Char) {line : List Char} (h : '\n' ∉ line) :
    lastLineEnd? (front ++ '\n' :: line) = some (byteLength front) := by
  induction front with
  | nil => simp [lastLineEnd?, lastLineEnd?_eq_none h, byteLength]
  | cons c front ih =>
      rw [List.cons_append, lastLineEnd?, ih]
      simp [byteLength]

/-! ### The line of a position -/

/-- Whether a text is that of whole lines. -/
def IsLines (text : List Char) : Prop :=
  text = [] ∨ ∃ above, text = above ++ ['\n']

/-- Whether a source is cut at the line that holds a position: into what stands in front of the line, the
line, its end, and what stands behind it. Positions beyond the source are held by the last line. -/
structure IsLineAt (position : Nat) (source front line ending behind : List Char) : Prop where
  cut : source = front ++ (line ++ (ending ++ behind))
  begins : IsLines front
  single : '\n' ∉ line
  ends : ending = [] ∧ behind = [] ∨ ending = ['\n'] ∧ line.getLast? ≠ some '\r' ∨
    ending = ['\r', '\n']
  reaches : front.length ≤ position
  holds : ending = [] ∨ position < front.length + line.length + ending.length

/-- The part of a text behind its last line end. -/
theorem exists_isLines (text : List Char) : ∃ front line, text = front ++ line ∧ IsLines front ∧
    '\n' ∉ line := by
  by_cases h : '\n' ∈ text.reverse
  · obtain ⟨line, above, htext, hline⟩ := List.eq_append_cons_of_mem h
    refine ⟨above.reverse ++ ['\n'], line.reverse, ?_, .inr ⟨_, rfl⟩, by rwa [List.mem_reverse]⟩
    rw [← List.reverse_reverse text, htext]
    simp
  · exact ⟨[], text, rfl, .inl rfl, by rwa [List.mem_reverse] at h⟩

theorem lineStart_append {position : Nat} {source front line : List Char}
    (htake : source.take position = front ++ line) (hfront : IsLines front) (hline : '\n' ∉ line) :
    lineStart position source = front.length := by
  have hpass : ∀ c ∈ line.reverse, (c != '\n') = true := by
    intro c hc
    rw [bne_iff_ne]
    rintro rfl
    exact hline (List.mem_reverse.1 hc)
  have hbehind : (line.reverse ++ front.reverse).takeWhile (· != '\n') = line.reverse := by
    rw [List.takeWhile_append_of_pos hpass]
    obtain rfl | ⟨above, rfl⟩ := hfront <;> simp
  unfold lineStart
  dsimp only
  rw [htake, List.reverse_append, hbehind, List.length_append, List.length_reverse]
  exact Nat.add_sub_cancel _ _

/-- The first line of a text, with its end and what stands behind it. -/
theorem exists_firstLine (text : List Char) : ∃ ending behind,
    text = firstLine text ++ (ending ++ behind) ∧ '\n' ∉ firstLine text ∧
      (ending = [] ∧ behind = [] ∨ ending = ['\n'] ∧ (firstLine text).getLast? ≠ some '\r' ∨
        ending = ['\r', '\n']) ∧
      (ending = [] ∨ (text.takeWhile (· != '\n')).length < (firstLine text).length + ending.length) := by
  have hsingle : '\n' ∉ text.takeWhile (· != '\n') := by
    intro h
    exact absurd (List.mem_takeWhile_imp h) (by simp)
  have htext := List.takeWhile_append_dropWhile (p := (· != '\n')) (l := text)
  unfold firstLine
  generalize text.takeWhile (· != '\n') = line at hsingle htext ⊢
  cases hrest : text.dropWhile (· != '\n') with
  | nil =>
      rw [hrest] at htext
      rw [if_pos rfl]
      exact ⟨[], [], htext.symm, hsingle, .inl ⟨rfl, rfl⟩, .inl rfl⟩
  | cons c behind =>
      obtain rfl : c = '\n' := by
        have hc := List.head?_dropWhile_not (· != '\n') text
        rw [hrest] at hc
        simpa using hc
      rw [hrest] at htext
      rw [if_neg (List.cons_ne_nil _ _)]
      by_cases hreturn : line.getLast? = some '\r'
      · have hline : line.dropLast ++ ['\r'] = line := List.dropLast_append_getLast? _ hreturn
        rw [withoutReturn, if_pos hreturn]
        refine ⟨['\r', '\n'], behind, ?_, ?_, .inr (.inr rfl), .inr ?_⟩
        · rw [← htext, ← hline]
          simp
        · exact fun h => hsingle (List.dropLast_subset _ h)
        · rw [← hline]
          simp
      · rw [withoutReturn, if_neg hreturn]
        refine ⟨['\n'], behind, htext.symm, hsingle, .inr (.inl ⟨rfl, hreturn⟩), .inr ?_⟩
        simp

/-- Every position of a source is held by a line, and the characters in front of the line are those in
front of the byte offset behind the last line end. -/
theorem exists_isLineAt (position : Nat) (source : List Char) : ∃ front rest ending behind,
    source = front ++ rest ∧ lineStart position source = front.length ∧
      lineOffset position source = byteLength front ∧
      IsLineAt position source front (firstLine rest) ending behind := by
  obtain ⟨front, tail, htake, hfront, htail⟩ := exists_isLines (source.take position)
  have hsource : source = front ++ (tail ++ source.drop position) := by
    rw [← List.append_assoc, ← htake, List.take_append_drop]
  have hlength := congrArg List.length htake
  rw [List.length_take, List.length_append] at hlength
  have hpass : (tail ++ source.drop position).takeWhile (· != '\n')
      = tail ++ (source.drop position).takeWhile (· != '\n') := by
    refine List.takeWhile_append_of_pos fun c hc => bne_iff_ne.2 ?_
    rintro rfl
    exact htail hc
  obtain ⟨ending, behind, hrest, hsingle, hends, hholds⟩ := exists_firstLine (tail ++ source.drop position)
  refine ⟨front, _, ending, behind, hsource, lineStart_append htake hfront htail, ?_,
    ⟨by rw [← hrest, ← hsource], hfront, hsingle, hends, by omega, ?_⟩⟩
  · unfold lineOffset
    rw [htake]
    obtain rfl | ⟨above, rfl⟩ := hfront
    · rw [List.nil_append, lastLineEnd?_eq_none htail]
      rfl
    · rw [List.append_assoc, List.singleton_append, lastLineEnd?_append above htail, byteLength_append]
      rfl
  · refine hholds.imp_right fun hline => ?_
    -- a position beyond the source would have all of the line in front of it
    have hrestLength := congrArg List.length hrest
    have hsourceLength := congrArg List.length hsource
    rw [hpass, List.length_append] at hline
    simp only [List.length_append, List.length_drop] at hrestLength hsourceLength hline
    omega

/-! ### What is shown -/

theorem firstLine_eq (text : List Char) :
    firstLine text = if (text.takeWhile (· != '\n')).length < text.length then
      withoutReturn (text.takeWhile (· != '\n')) else text.takeWhile (· != '\n') := by
  have hlength := congrArg List.length (List.takeWhile_append_dropWhile (p := (· != '\n')) (l := text))
  rw [List.length_append] at hlength
  unfold firstLine
  by_cases hrest : text.dropWhile (· != '\n') = []
  · rw [hrest, List.length_nil] at hlength
    rw [if_pos hrest, if_neg (by omega)]
  · have hpos := List.length_pos_iff.2 hrest
    rw [if_neg hrest, if_pos (by omega)]

theorem pretty_eq {position : Nat} {source : String} {front rest : List Char}
    (hsource : source.toList = front ++ rest)
    (hstart : lineStart position source.toList = front.length) (message : String) :
    pretty message position source = String.ofList (firstLine rest ++
      '\n' :: List.replicate (min rest.length (position - front.length)) ' ') ++ "^ "
        ++ describe message position := by
  unfold pretty
  dsimp only
  rw [hstart, hsource, List.drop_left, firstLine_eq]

/-- Errors are at tokens, and the caret points at the position that it is shown for: below the line that
holds the position, behind as many blanks as there are characters of the line, or of what is left of the
source, in front of the position. All that is cut or subtracted for this lies within the source. -/
theorem pretty_points_at_position (source : String) :
    (∀ e, Expr.parse source = .error e → ∃ t ∈ Token.scan source, t.position = e.position) ∧
      ∀ message position, printed? message position source = some (pretty message position source) ∧
        ∃ front line ending behind, IsLineAt position source.toList front line ending behind ∧
          pretty message position source = String.ofList (line ++ '\n' ::
            List.replicate (min (line ++ (ending ++ behind)).length (position - front.length)) ' ')
              ++ "^ " ++ describe message position := by
  refine ⟨fun e => Expr.exists_mem_scan_position, fun message position => ?_⟩
  obtain ⟨front, rest, ending, behind, hsource, hstart, hoffset, hline⟩ :=
    exists_isLineAt position source.toList
  have hpretty := pretty_eq hsource hstart message
  constructor
  · unfold printed?
    rw [hoffset, hsource, cutAt?_append, hpretty]
    exact if_pos hline.reaches
  · have hrest : rest = firstLine rest ++ (ending ++ behind) :=
      List.append_cancel_left (hsource.symm.trans hline.cut)
    refine ⟨front, firstLine rest, ending, behind, hline, ?_⟩
    rw [← hrest, hpretty]

end SyntaxError

end Formula
