import Formula.Proofs.Rendering.Regular

/-!
Statements that are written on lines of their own.

What is written on a line is read from it alone, except that a factor on the next line holds a quotient
of numbers together. `LegibleLines` says what this asks of statements that were read; if a style is
`Rereadable`, its lines tell what is read of them (`LegibleLines.told`), as those of the default style do
if they are `Separable` (`rereadable_text`).
-/

namespace Formula

namespace Expr

/-- Whether a statement is read on its own in front of the next one: if that opens with a factor, a
quotient of numbers at the end stays one, and no other quotient becomes one. -/
def Separable (entry next : Entry Expr) : Prop :=
  entry.visible = true → (next.body.written {}).opening.isFactor = true →
    entry.body.settles = true ∧ (entry.body.written {}).exposesQuotient = false

/-- What is written of a statement is legible in front of the next one. -/
theorem Separable.legible {entry next : Entry Expr} (h : Separable entry next) (visible : entry.visible = true)
    (regular : entry.body.Everywhere Regular) {f : Bool} (legible : Legible f entry.body)
    (hf : f = true → (next.body.written {}).opening.isFactor = true) :
    Legible (next.body.written {}).opening.isFactor (entry.body.written {}) := by
  cases hfactor : (next.body.written {}).opening.isFactor with
  | false =>
      obtain rfl : f = false := by
        rw [Bool.eq_false_iff]
        intro h
        rw [hf h] at hfactor
        cases hfactor
      exact legible.written regular nofun
  | true =>
      obtain ⟨hsettles, hexposes⟩ := h visible hfactor
      have hwritten := legible.written regular fun _ => hsettles
      cases f with
      | true => exact hwritten
      | false => exact hwritten.of_followed rfl hexposes

theorem isFactor_written {f : Bool} {e : Expr} (h : Legible f e) (hfactor : e.opening.isFactor = true) :
    (e.written {}).opening.isFactor = true := by
  rcases opening_written h with h | h
  · rwa [h]
  · rw [h]
    rfl

/-- What is written of a statement is legible in front of what is written of the next one. -/
theorem Legible.line {entry next : Entry Expr} {f : Bool} (legible : Legible f entry.body)
    (regular : entry.body.Everywhere Regular) (separable : Separable entry next)
    (hf : f = true → entry.visible = true ∧ (next.body.written {}).opening.isFactor = true) :
    Legible (entry.visible && (next.body.written {}).opening.isFactor) (entry.body.written {}) := by
  cases hvisible : entry.visible with
  | true => exact separable.legible hvisible regular legible fun h => (hf h).2
  | false =>
      obtain rfl : f = false := by
        rw [Bool.eq_false_iff]
        intro h
        rw [(hf h).1] at hvisible
        cases hvisible
      exact legible.written regular nofun

/-- A statement as it is read. -/
def readLine (read : Expr → Expr) (entry : Entry Expr) : Entry Expr :=
  { entry with body := read entry.body }

/-- The text of a statement. -/
def lineText (style : Style) (entry : Entry Expr) : String :=
  entry.body.render style ++ if entry.visible then "" else ";"

/-- Texts in a style are read part by part if all nodes have one property, and line by line if each
statement has another one in front of the next: what is read of it is legible in front of what is read of
the next one. -/
structure Rereadable (style : Style) (read : Expr → Expr) (P : Expr → Prop)
    (R : Entry Expr → Entry Expr → Prop) : Prop extends Readable style read P where
  plain : ∀ e, style.custom e = none
  block : ∀ entries, read (.block entries) = .block (entries.map (readLine read))
  line : ∀ {entry next : Entry Expr} {f g : Bool}, R entry next → Legible f entry.body →
    entry.body.Everywhere P → Legible g next.body →
    (f = true → entry.visible = true ∧ next.body.opening.isFactor = true) →
    Legible (entry.visible && (read next.body).opening.isFactor) (read entry.body)

end Expr

namespace Grammar

open Expr

/-- Statements, each of which is legible in front of the next one. -/
inductive LegibleLines : List (Entry Expr) → Prop
  | nil : LegibleLines []
  | cons {entry : Entry Expr} {entries : List (Entry Expr)} {f : Bool} (h : Legible f entry.body)
      (followed : f = true → entry.visible = true ∧
        ∃ next ∈ entries.head?, next.body.opening.isFactor = true)
      (more : LegibleLines entries) : LegibleLines (entry :: entries)

theorem LegibleLines.last {entry : Entry Expr} (h : LegibleLines [entry]) : Legible false entry.body := by
  cases h with
  | @cons _ _ f h hfollowed more =>
      cases f with
      | false => exact h
      | true =>
          obtain ⟨_, _, hnext, _⟩ := hfollowed rfl
          cases hnext

variable {tokens rest : List Token} {entries : List (Entry Expr)}

/-! ### What was read -/

theorem followed_cons_newline {t : Token} (ht : t.kind = .newline) : followed (t :: rest) = followed rest := by
  rw [followed, dropLines, List.dropWhile_cons_of_pos (by simp [ht])]
  rfl

theorem followed_of_stop (h : (head tokens).kind = .stop) : followed tokens = false := by
  rw [followed, dropLines_eq_self (by simp [h])]
  simp [startsFactor, Token.isDelimiter, h]

theorem Reads.followed {e : Expr} (h : Reads 0 {} tokens e rest) : followed tokens = e.opening.isFactor := by
  obtain ⟨front, g, rfl, hspells, _⟩ := h.spelled
  obtain ⟨hline, hfactor⟩ := hspells.begins_factor rest
  rw [Grammar.followed, dropLines_eq_self hline, hfactor]

/-- Statements with a factor in front have a statement that opens with a factor. -/
theorem Statements.followed (h : Statements entries tokens) (hf : followed tokens = true) :
    ∃ entry ∈ entries.head?, entry.body.opening.isFactor = true := by
  induction h with
  | stop closed h =>
      rw [followed_of_stop h] at hf
      cases hf
  | @separator tokens t entries ht more ih =>
      rcases Bool.or_eq_true_iff.1 ht with hline | hsemicolon
      · rw [followed_cons_newline (by simpa using hline)] at hf
        exact ih hf
      · rw [followed_of_isDelimiter hsemicolon (by decide)] at hf
        cases hf
  | last h stop =>
      rw [h.followed] at hf
      exact ⟨_, rfl, hf⟩
  | cons h ht more =>
      rw [h.followed] at hf
      exact ⟨_, rfl, hf⟩

/-- Statements that were read are legible. -/
theorem Statements.legible (h : Statements entries tokens) : LegibleLines entries := by
  induction h with
  | stop => exact .nil
  | separator _ _ ih => exact ih
  | last h stop =>
      refine .cons h.legible (fun hf => ?_) .nil
      rw [followed_of_stop stop] at hf
      cases hf
  | @cons tokens rest t e entries h ht more ih =>
      refine .cons h.legible (fun hf => ?_) ih
      rcases Bool.or_eq_true_iff.1 ht with hline | hsemicolon
      · have hkind : t.kind = .newline := by simpa using hline
        rw [followed_cons_newline hkind] at hf
        exact ⟨by simp [Token.isDelimiter, hkind], more.followed hf⟩
      · rw [followed_of_isDelimiter hsemicolon (by decide)] at hf
        cases hf

/-! ### What is written -/

theorem scanFrom_line_end (position : Nat) (more : List Char) :
    Token.scanFrom position ('\n' :: more)
      = { kind := .newline, text := "\n", position } :: Token.scanFrom (position + 1) more := by
  have hcut : Token.IsCut (fun _ => True) "\n" .newline "\n" :=
    Token.isCut_of_char nofun rfl fun _ _ => rfl
  exact hcut position more trivial

/-- What may stand behind a statement: nothing, or a line end. -/
def EndsLine (more : List Char) : Prop :=
  ∀ c rest, more = c :: rest → c = '\n'

theorem EndsLine.apart {more : List Char} (h : EndsLine more) (p : Bool) : Token.Apart p more := by
  rintro c rest rfl
  obtain rfl := h c rest rfl
  exact .inl (by decide)

/-- The tokens of a statement, with the one that hides it. -/
theorem cuts_line {text : String} {line : Entry Expr} (h : ToldBy text line.body)
    (shallow : line.body.nesting < maxDepth) :
    Token.Cuts EndsLine (text ++ if line.visible then "" else ";") fun tokens => ∃ front back,
      tokens = front ++ back ∧ Spells 0 0 front (.expression line.body false) ∧
      if line.visible then back = [] else ∃ t, back = [t] ∧ t.isDelimiter ";" = true := by
  have htells := h 0 0 (by omega)
  cases line.visible with
  | true =>
      rw [if_pos rfl, String.append_empty]
      refine (htells.mono fun more hmore => hmore.apart _).imp fun tokens hspells => ?_
      exact ⟨tokens, [], (List.append_nil _).symm, hspells, rfl⟩
  | false =>
      have hide : Token.IsCut (fun _ => True) ";" .delimiter ";" := Token.isCut_delimiter (by decide)
      refine ((htells.append hide.cuts fun more _ => Token.apart_cons (by decide) _ _).mono
        fun _ _ => trivial).imp ?_
      rintro _ ⟨front, back, rfl, hspells, t, rfl, hkind, htext⟩
      exact ⟨front, _, rfl, hspells, t, rfl, isDelimiter_iff.2 ⟨hkind, htext⟩⟩

/-- Tokens of a statement, with the one that hides it, in front of those of the statements that follow. -/
theorem Behind.line {e : Expr} {front back : List Token} {visible : Bool} (h : Behind entries rest)
    (hspells : Spells 0 0 front (.expression e false))
    (hback : if visible then back = [] else ∃ t, back = [t] ∧ t.isDelimiter ";" = true)
    (closed : Closed rest) (hrest : (head rest).isDelimiter ";" = false)
    (legible : Legible (visible && followed rest) e) :
    Statements ({ body := e, visible } :: entries) (front ++ back ++ rest) := by
  cases visible with
  | true =>
      obtain rfl : back = [] := hback
      rw [List.append_nil]
      cases h with
      | stop _ h => exact .last (hspells.reads_statement legible closed (.inr h)) h
      | @separator tokens t _ ht more =>
          have hstatements := Statements.cons (hspells.reads_statement legible closed (.inl ht)) ht more
          rwa [show t.isDelimiter ";" = false from hrest] at hstatements
  | false =>
      obtain ⟨t, rfl, ht⟩ : ∃ t, back = [t] ∧ t.isDelimiter ";" = true := hback
      have hsep : separates t = true := by simp [separates, ht]
      have hmore : Statements entries rest := by
        cases h with
        | stop closed h => exact .stop closed h
        | separator ht more => exact .separator ht more
      have legible' : Legible (followed (t :: rest)) e := by
        rw [followed_of_isDelimiter ht (by decide)]
        exact legible
      have hstatements := Statements.cons
        (hspells.reads_statement legible' (closed.append [t]) (.inl hsep)) hsep hmore
      rw [List.append_assoc]
      rwa [ht] at hstatements

/-- Characters are cut into the tokens of statements, of which the first one opens with a factor or
not. -/
def TellsLines (more : List Char) (entries : List (Entry Expr)) (factor : Bool) : Prop :=
  ∀ position, Statements entries (Token.scanFrom position more) ∧
    (head (Token.scanFrom position more)).kind ≠ .newline ∧
    startsFactor (head (Token.scanFrom position more)) = factor

section

variable {text : String} {line : Entry Expr} {more : List Char} {factor : Bool}
  (told : ToldBy text line.body) (shallow : line.body.nesting < maxDepth)
include told shallow

/-- A statement is read from its line, in front of what it is legible in front of. -/
theorem tellsLines_line (hmore : EndsLine more)
    (hentries : ∀ position, Behind entries (Token.scanFrom position more) ∧
      (head (Token.scanFrom position more)).isDelimiter ";" = false ∧
      Legible (line.visible && followed (Token.scanFrom position more)) line.body) :
    TellsLines ((text ++ if line.visible then "" else ";").toList ++ more) (line :: entries)
      line.body.opening.isFactor := by
  intro position
  obtain ⟨_, stop, hscan, front, back, rfl, hspells, hback⟩ :=
    cuts_line told shallow position more hmore
  obtain ⟨hbehind, hrest, hlegible⟩ := hentries stop
  rw [hscan]
  refine ⟨hbehind.line hspells hback (closed_scanFrom _ _) hrest hlegible, ?_⟩
  rw [List.append_assoc]
  exact hspells.begins_factor _

theorem tellsLines_last (legible : Legible false line.body) :
    TellsLines (text ++ if line.visible then "" else ";").toList [line] line.body.opening.isFactor := by
  rw [← List.append_nil (text ++ if line.visible then "" else ";").toList]
  refine tellsLines_line told shallow nofun fun position => ?_
  rw [Token.scanFrom_nil, followed_of_stop rfl, Bool.and_false]
  exact ⟨.stop nofun rfl, rfl, legible⟩

theorem TellsLines.cons (h : TellsLines more entries factor)
    (legible : Legible (line.visible && factor) line.body) :
    TellsLines ((text ++ if line.visible then "" else ";").toList ++ '\n' :: more) (line :: entries)
      line.body.opening.isFactor := by
  refine tellsLines_line told shallow (by rintro _ _ ⟨⟩; rfl) fun position => ?_
  obtain ⟨hstatements, hline, hfactor⟩ := h (position + 1)
  rw [scanFrom_line_end, followed_cons_newline rfl, followed, dropLines_eq_self hline, hfactor]
  exact ⟨.separator rfl hstatements, rfl, legible⟩

end

/-- Statements are read from their lines; a visible one alone is no block. -/
theorem parse_of_tellsLines {text : String} {line : Entry Expr} {lines : List (Entry Expr)}
    {factor : Bool} (h : TellsLines text.toList (line :: lines) factor)
    (alone : ∀ e, line :: lines = [{ body := e, visible := true }] →
      ToldBy text e ∧ Legible false e ∧ e.nesting < maxDepth) :
    parse text = .ok (ofStatements (line :: lines)) := by
  by_cases hone : ∃ e, line :: lines = [{ body := e, visible := true }]
  · obtain ⟨e, heq⟩ := hone
    obtain ⟨told, legible, shallow⟩ := alone e heq
    rw [heq]
    exact parse_of_tells (told 0 0 (by omega)) legible
  · have many : ∀ e, line :: lines ≠ [{ body := e, visible := true }] := fun e heq => hone ⟨e, heq⟩
    rw [parse, Token.scan, ofStatements_of_ne many]
    exact ((h 0).1.sourced (List.cons_ne_nil _ _) many).ofTokens

/-- The lines that statements are written on, one after another. -/
theorem toList_lines {α : Type} (text : α → String) (entry next : α) (entries : List α) :
    ("\n".intercalate ((entry :: next :: entries).map text)).toList
      = (text entry).toList ++ '\n' :: ("\n".intercalate ((next :: entries).map text)).toList := by
  simp only [List.map_cons, String.intercalate_cons_cons, String.toList_append, List.append_assoc]
  rfl

/-- A statement and those behind it, each of which its line tells as it is read. What is read of it is
legible in front of what is read of the next one. -/
inductive ToldLines (style : Style) (read : Expr → Expr) : Entry Expr → List (Entry Expr) → Prop
  | last {entry : Entry Expr} (told : ToldBy (entry.body.render style) (read entry.body))
      (legible : Legible false (read entry.body)) : ToldLines style read entry []
  | cons {entry next : Entry Expr} {entries : List (Entry Expr)}
      (told : ToldBy (entry.body.render style) (read entry.body))
      (legible : Legible (entry.visible && (read next.body).opening.isFactor) (read entry.body))
      (more : ToldLines style read next entries) : ToldLines style read entry (next :: entries)

section

variable {style : Style} {read : Expr → Expr} {entry : Entry Expr}

theorem ToldLines.tells (h : ToldLines style read entry entries)
    (shallow : ∀ entry' ∈ entry :: entries, (read entry'.body).nesting < maxDepth) :
    TellsLines ("\n".intercalate ((entry :: entries).map (lineText style))).toList
      ((entry :: entries).map (readLine read)) (read entry.body).opening.isFactor := by
  induction h with
  | last told legible =>
      rw [List.forall_mem_singleton] at shallow
      rw [List.map_singleton, List.map_singleton, String.intercalate_singleton]
      exact tellsLines_last told shallow legible
  | cons told legible more ih =>
      rw [List.forall_mem_cons] at shallow
      rw [toList_lines, List.map_cons]
      exact (ih shallow.2).cons told shallow.1 legible

theorem render_block (plain : ∀ e, style.custom e = none) (entries : List (Entry Expr)) :
    (Expr.block entries).render style = "\n".intercalate (entries.map (lineText style)) := by
  rw [render, plain]
  rfl

theorem written_block (style : Style) (entries : List (Entry Expr)) :
    (Expr.block entries).written style = .block (entries.map (readLine (written style))) := by
  rw [written, writtenEntries_eq]
  rfl

/-- The text of statements is read as what is read of each; a visible one alone is no block. -/
theorem ToldLines.parse_render (h : ToldLines style read entry entries)
    (plain : ∀ e, style.custom e = none)
    (shallow : (Expr.block ((entry :: entries).map (readLine read))).nesting < maxDepth) :
    parse ((Expr.block (entry :: entries)).render style)
      = .ok (ofStatements ((entry :: entries).map (readLine read))) := by
  have each : ∀ entry' ∈ entry :: entries, (read entry'.body).nesting < maxDepth := by
    intro entry' h'
    rw [nesting] at shallow
    exact Nat.lt_of_le_of_lt
      (nesting_le_of_mem_entries (List.mem_map_of_mem (f := readLine read) h')) shallow
  rw [render_block plain]
  refine parse_of_tellsLines (h.tells each) fun e heq => ?_
  obtain ⟨hentry, hentries⟩ := List.cons.inj heq
  have hvisible : entry.visible = true := congrArg Entry.visible hentry
  obtain rfl : read entry.body = e := congrArg Entry.body hentry
  obtain rfl : entries = [] := List.map_eq_nil_iff.1 hentries
  rw [List.map_singleton, String.intercalate_singleton, lineText, hvisible, if_pos rfl,
    String.append_empty]
  cases h with
  | last told legible => exact ⟨told, legible, each entry (List.mem_singleton_self _)⟩

end

/-- Statements that were read are told by their lines. -/
theorem LegibleLines.told {style : Style} {read : Expr → Expr} {P : Expr → Prop}
    {R : Entry Expr → Entry Expr → Prop} (rereadable : Rereadable style read P R) {entry : Entry Expr}
    (legible : LegibleLines (entry :: entries))
    (everywhere : ∀ entry' ∈ entry :: entries, entry'.body.Everywhere P)
    (chain : List.IsChain R (entry :: entries)) : ToldLines style read entry entries := by
  have told : ∀ {f : Bool} {e : Expr}, Legible f e → e.Everywhere P → ToldBy (e.render style) (read e) :=
    fun h => h.told_read rereadable.plain rereadable.toReadable
  induction entries generalizing entry with
  | nil =>
      rw [List.forall_mem_singleton] at everywhere
      exact .last (told legible.last everywhere) (rereadable.legible legible.last everywhere)
  | cons next entries ih =>
      rw [List.forall_mem_cons] at everywhere
      obtain ⟨hnext, hmore⟩ := List.isChain_cons_cons.1 chain
      cases legible with
      | cons h followed more =>
          have hlegible : ∃ g, Legible g next.body := by
            cases more with
            | cons h => exact ⟨_, h⟩
          obtain ⟨g, hlegible⟩ := hlegible
          refine .cons (told h everywhere.1) (rereadable.line hnext h everywhere.1 hlegible fun hf => ?_)
            (ih more everywhere.2 hmore)
          obtain ⟨visible, next', hhead, hopens⟩ := followed hf
          obtain rfl := Option.some.inj hhead
          exact ⟨visible, hopens⟩

/-- The default text is read as it is written. -/
theorem rereadable_text : Rereadable {} (written {}) Regular Separable :=
  { writable_regular.readable with
    plain := fun _ => rfl
    block := written_block {}
    line := fun separable legible regular next followed => legible.line regular separable fun hf =>
      (followed hf).imp_right (isFactor_written next) }

end Grammar

end Formula
