import Formula.Latex

/-!
Well-formed markup.

TeX reads markup as lexemes: a backslash takes the letters behind it along as a command, or else a single
character. Markup is well formed (`Latex.isWellFormed`) if its braces and its `\left` and `\right` are
nested, and all its commands are known.

Markup is put together from pieces. A piece fits (`Latex.Fits`) if it does no harm in front of anything
but a letter, which is so if it is well formed by itself (`Latex.fits_iff`). It is solid (`Latex.Solid`)
if it does none in front of anything at all: then it does not end in a command.
-/

namespace Formula.Latex

/-! ### Lexemes -/

/-- What TeX reads in markup. -/
inductive Lexeme where
  /-- A backslash with the letters behind it. -/
  | command (word : String)
  /-- A backslash with a character behind it that is no letter. -/
  | mark (c : Char)
  | char (c : Char)
deriving DecidableEq, Repr

/-- The command of some letters, the last one first. -/
def commandOf (letters : List Char) : Lexeme :=
  .command (String.ofList letters.reverse)

/-- The lexemes that a character completes, and the letters of the command that is being read behind it,
the last one first. -/
def read : Option (List Char) → Char → List Lexeme × Option (List Char)
  | none, c => if c = '\\' then ([], some []) else ([.char c], none)
  | some letters, c =>
    if c.isAlpha then ([], some (c :: letters))
    else if letters = [] then ([.mark c], none)
    else if c = '\\' then ([commandOf letters], some [])
    else ([commandOf letters, .char c], none)

/-- The lexemes of markup, given the letters of the command that is being read. -/
def lexemesFrom : Option (List Char) → List Char → List Lexeme
  | none, [] => []
  | some letters, [] => [commandOf letters]
  | letters, c :: cs => (read letters c).1 ++ lexemesFrom (read letters c).2 cs

/-- The lexemes of markup. -/
def lexemes (s : String) : List Lexeme :=
  lexemesFrom none s.toList

/-! ### Nesting -/

/-- The delimiter that closes what a delimiter opens. -/
def closing? : Lexeme → Option Lexeme
  | .char '(' => some (.char ')')
  | .char '|' => some (.char '|')
  | .mark '\x7b' => some (.mark '\x7d')
  | .command "lceil" => some (.command "rceil")
  | .command "lfloor" => some (.command "rfloor")
  | _ => none

/-- What is open in markup: a brace, or a delimiter that waits for another one. -/
inductive Opened where
  | brace
  | delimiter (closing : Lexeme)
deriving DecidableEq, Repr

/-- Whether braces, and delimiters behind `\left` and `\right`, close what is open, the last opened
first, and leave nothing open. -/
def nests : List Opened → List Lexeme → Bool
  | stack, [] => stack = []
  | stack, .mark _ :: rest => nests stack rest
  | stack, .char c :: rest =>
    if c = '\x7b' then nests (.brace :: stack) rest
    else if c = '\x7d' then stack.head? = some .brace && nests stack.tail rest
    else nests stack rest
  | stack, [.command word] => word ≠ "left" && word ≠ "right" && stack = []
  | stack, .command word :: delimiter :: rest =>
    if word = "left" then
      (closing? delimiter).any fun closing => nests (.delimiter closing :: stack) rest
    else if word = "right" then
      stack.head? = some (.delimiter delimiter) && nests stack.tail rest
    else nests stack (delimiter :: rest)

-- The equations are derived here, once for all the proofs that unfold `nests`.
attribute [local simp] nests

/-! ### Known commands -/

/-- The commands that markup of expressions consists of: those of operators, Greek letters, glyphs,
well-known functions, escaped characters, and the layout. -/
def commands : List String :=
  ["vee", "veebar", "wedge", "underline", "neq", "leq", "geq", "cdot", "frac", "mod", "neg", "top"]
    ++ greek ++ ["infty", "mathrm", "mathbf"]
    ++ ["sqrt", "left", "right", "lceil", "rceil", "lfloor", "rfloor", "ln", "log", "max", "min"]
    ++ namedFunctions ++ ["textbackslash", "textasciitilde", "textasciicircum"]
    ++ ["mathtt", "begin", "end", "text", "quad"]

/-- Whether a lexeme is no command, or a known one. -/
def Lexeme.isKnown : Lexeme → Bool
  | .command word => commands.contains word
  | _ => true

/-- Whether lexemes nest and are known, with something open in front of them. -/
def passes (stack : List Opened) (lexemes : List Lexeme) : Bool :=
  nests stack lexemes && lexemes.all Lexeme.isKnown

/-- Whether markup is well formed: its braces and its `\left` and `\right` are nested, and its commands
are known. -/
def isWellFormed (s : String) : Bool :=
  passes [] (lexemes s)

/-! ### Reading pieces -/

/-- Whether the first character is a letter, which a command in front of it would take along. -/
def startsWithLetter (cs : List Char) : Bool :=
  cs.head?.any Char.isAlpha

/-- Whether there is a first character and it is no letter. -/
def startsApart (s : String) : Bool :=
  s.toList.head?.any fun c => !c.isAlpha

theorem startsWithLetter_of_startsApart {s : String} (h : startsApart s = true) :
    startsWithLetter s.toList = false := by
  unfold startsApart at h
  unfold startsWithLetter
  cases hhead : s.toList.head? with
  | none => rw [hhead] at h; cases h
  | some c => rw [hhead] at h; simpa using h

@[simp] theorem startsApart_append {s t : String} (h : startsApart s = true) :
    startsApart (s ++ t) = true := by
  unfold startsApart at h ⊢
  rw [String.toList_append]
  cases htoList : s.toList with
  | nil => rw [htoList] at h; cases h
  | cons c cs => rwa [htoList] at h

theorem startsWithLetter_append {cs rest : List Char} (h : startsWithLetter cs = false)
    (hrest : startsWithLetter rest = false) : startsWithLetter (cs ++ rest) = false := by
  cases cs with
  | nil => exact hrest
  | cons c cs => exact h

/-- Whether the last lexeme is a command, which would take along a letter behind it. -/
def endsInCommand (lexemes : List Lexeme) : Bool :=
  match lexemes.getLast? with
  | some (.command _) => true
  | _ => false

theorem endsInCommand_append (lexemes : List Lexeme) {lexemes' : List Lexeme}
    (h : endsInCommand lexemes' = true) : endsInCommand (lexemes ++ lexemes') = true := by
  unfold endsInCommand at h ⊢
  cases hlast : lexemes'.getLast? with
  | none => rw [hlast] at h; cases h
  | some last => rwa [List.getLast?_append, hlast, Option.some_or, ← hlast]

/-- A command ends where no letter follows. -/
theorem lexemesFrom_end {letters rest : List Char} (nonempty : letters ≠ [])
    (hrest : startsWithLetter rest = false) :
    lexemesFrom (some letters) rest = commandOf letters :: lexemesFrom none rest := by
  cases rest with
  | nil => rfl
  | cons c rest =>
      have hc : ¬ c.isAlpha = true := by simpa [startsWithLetter] using hrest
      simp only [lexemesFrom, read, if_neg hc, if_neg nonempty]
      split <;> rfl

/-- What is read from a piece does not depend on what follows, unless a command takes it along. -/
theorem lexemesFrom_append {letters : Option (List Char)} {cs rest : List Char}
    (known : (lexemesFrom letters cs).all Lexeme.isKnown = true)
    (apart : endsInCommand (lexemesFrom letters cs) = true → startsWithLetter rest = false) :
    lexemesFrom letters (cs ++ rest) = lexemesFrom letters cs ++ lexemesFrom none rest := by
  induction cs generalizing letters with
  | nil =>
      cases letters with
      | none => rfl
      | some letters =>
          have nonempty : letters ≠ [] := by
            rintro rfl
            exact absurd known (by decide)
          rw [List.nil_append, lexemesFrom_end nonempty (apart rfl)]
          rfl
  | cons c cs ih =>
      rw [lexemesFrom, List.all_append, Bool.and_eq_true] at known
      rw [lexemesFrom] at apart
      rw [List.cons_append, lexemesFrom, lexemesFrom, List.append_assoc,
        ih known.2 fun h => apart (endsInCommand_append _ h)]

/-- What nests by itself nests in front of what nests. -/
theorem nests_append {stack base : List Opened} {lexemes rest : List Lexeme}
    (h : nests stack lexemes = true) (hrest : nests base rest = true) :
    nests (stack ++ base) (lexemes ++ rest) = true := by
  have pop : ∀ {opened : Opened} {stack : List Opened}, stack.head? = some opened →
      (stack ++ base).head? = some opened ∧ (stack ++ base).tail = stack.tail ++ base := by
    intro opened stack hstack
    cases stack with
    | nil => cases hstack
    | cons => exact ⟨hstack, rfl⟩
  fun_induction nests stack lexemes with
  | case1 stack =>
      obtain rfl : stack = [] := by simpa using h
      exact hrest
  | case2 stack c lexemes ih => exact ih h
  | case3 stack lexemes ih => exact ih h
  | case4 stack lexemes hopen ih =>
      rw [Bool.and_eq_true, decide_eq_true_eq] at h
      obtain ⟨hhead, htail⟩ := pop h.1
      rw [List.cons_append, nests, if_neg hopen, if_pos rfl, hhead, htail, ih h.2]
      rfl
  | case5 stack c lexemes hopen hclose ih =>
      rw [List.cons_append, nests, if_neg hopen, if_neg hclose]
      exact ih h
  | case6 stack word =>
      simp only [Bool.and_eq_true, decide_eq_true_eq, ne_eq] at h
      obtain ⟨⟨hleft, hright⟩, rfl⟩ := h
      cases rest with
      | nil => simpa [nests, hleft, hright] using hrest
      | cons x rest =>
          rw [List.nil_append, List.singleton_append, nests, if_neg hleft, if_neg hright]
          exact hrest
  | case7 stack delimiter lexemes ih =>
      rw [List.cons_append, List.cons_append, nests, if_pos rfl]
      cases hclosing : closing? delimiter with
      | none => rw [hclosing] at h; cases h
      | some closing => rw [hclosing] at h; exact ih closing h
  | case8 stack delimiter lexemes hleft ih =>
      rw [Bool.and_eq_true, decide_eq_true_eq] at h
      obtain ⟨hhead, htail⟩ := pop h.1
      rw [List.cons_append, List.cons_append, nests, if_neg hleft, if_pos rfl, hhead, htail, ih h.2]
      simp
  | case9 stack word delimiter lexemes hleft hright ih =>
      rw [List.cons_append, List.cons_append, nests, if_neg hleft, if_neg hright]
      exact ih h

/-- What passes by itself passes in front of what passes. -/
theorem passes_append {stack base : List Opened} {lexemes rest : List Lexeme}
    (h : passes stack lexemes = true) (hrest : passes base rest = true) :
    passes (stack ++ base) (lexemes ++ rest) = true := by
  rw [passes, Bool.and_eq_true] at h hrest ⊢
  refine ⟨nests_append h.1 hrest.1, ?_⟩
  rw [List.all_append, h.2, hrest.2]
  rfl

theorem lexemesFrom_char {c : Char} (h : c ≠ '\\') (rest : List Char) :
    lexemesFrom none (c :: rest) = .char c :: lexemesFrom none rest := by
  rw [lexemesFrom, read, if_neg h]
  rfl

theorem passes_char {c : Char} (hopen : c ≠ '\x7b') (hclose : c ≠ '\x7d') (stack : List Opened)
    (lexemes : List Lexeme) : passes stack (.char c :: lexemes) = passes stack lexemes := by
  simp [passes, nests, Lexeme.isKnown, hopen, hclose]

theorem passes_open (stack : List Opened) (lexemes : List Lexeme) :
    passes stack (.char '\x7b' :: lexemes) = passes (.brace :: stack) lexemes := by
  simp [passes, nests, Lexeme.isKnown]

theorem passes_close (stack : List Opened) (lexemes : List Lexeme) :
    passes (.brace :: stack) (.char '\x7d' :: lexemes) = passes stack lexemes := by
  simp [passes, nests, Lexeme.isKnown]

theorem passes_left {delimiter closing : Lexeme} (h : closing? delimiter = some closing)
    (known : delimiter.isKnown = true) (stack : List Opened) (lexemes : List Lexeme) :
    passes stack (.command "left" :: delimiter :: lexemes)
      = passes (.delimiter closing :: stack) lexemes := by
  have left : (Lexeme.command "left").isKnown = true := rfl
  simp [passes, nests, h, known, left]

theorem passes_right {closing : Lexeme} (known : closing.isKnown = true) (stack : List Opened)
    (lexemes : List Lexeme) : passes (.delimiter closing :: stack)
      (.command "right" :: closing :: lexemes) = passes stack lexemes := by
  have right : (Lexeme.command "right").isKnown = true := rfl
  simp [passes, nests, known, right]

/-! ### Pieces -/

/-- A piece of markup that does no harm in front of what passes. -/
def Solid (s : String) : Prop :=
  ∀ stack rest, passes stack (lexemesFrom none rest) = true →
    passes stack (lexemesFrom none (s.toList ++ rest)) = true

/-- A piece of markup that does no harm in front of what passes, unless this begins with a letter. -/
def Fits (s : String) : Prop :=
  ∀ stack rest, startsWithLetter rest = false → passes stack (lexemesFrom none rest) = true →
    passes stack (lexemesFrom none (s.toList ++ rest)) = true

/-- A piece fits if it is well formed by itself. -/
theorem fits_iff {s : String} : Fits s ↔ isWellFormed s = true := by
  constructor
  · intro h
    have := h [] [] rfl rfl
    rwa [List.append_nil] at this
  · intro h stack rest hrest hpasses
    rw [lexemesFrom_append (Bool.and_eq_true_iff.1 h).2 fun _ => hrest]
    exact passes_append h hpasses

/-- A piece that does not end in a command is solid. -/
theorem Solid.of_isWellFormed {s : String} (h : isWellFormed s = true)
    (closed : endsInCommand (lexemes s) = false) : Solid s := by
  intro stack rest hpasses
  rw [lexemesFrom_append (Bool.and_eq_true_iff.1 h).2 fun hopen => absurd (closed.symm.trans hopen) nofun]
  exact passes_append h hpasses

theorem Solid.fits {s : String} (h : Solid s) : Fits s :=
  fun stack rest _ hrest => h stack rest hrest

theorem Solid.append {s t : String} (hs : Solid s) (ht : Solid t) : Solid (s ++ t) := by
  intro stack rest h
  rw [String.toList_append, List.append_assoc]
  exact hs _ _ (ht _ _ h)

theorem Solid.join {pieces : List String} (h : ∀ s ∈ pieces, Solid s) : Solid (String.join pieces) := by
  induction pieces with
  | nil => exact fun _ _ hrest => hrest
  | cons s pieces ih =>
      obtain ⟨hs, hpieces⟩ := List.forall_mem_cons.1 h
      rw [String.join_cons]
      exact hs.append (ih hpieces)

theorem Solid.andFits {s t : String} (hs : Solid s) (ht : Fits t) : Fits (s ++ t) := by
  intro stack rest hrest h
  rw [String.toList_append, List.append_assoc]
  exact hs _ _ (ht _ _ hrest h)

/-- A piece that fits may stand in front of one that does not begin with a letter. -/
theorem Fits.append {s t : String} (hs : Fits s) (ht : Fits t)
    (start : startsWithLetter t.toList = false) : Fits (s ++ t) := by
  intro stack rest hrest h
  rw [String.toList_append, List.append_assoc]
  exact hs _ _ (startsWithLetter_append start hrest) (ht _ _ hrest h)

/-- What begins with something that is no letter closes what stands in front of it. -/
theorem Fits.andSolid {s t : String} (hs : Fits s) (ht : Solid t) (start : startsApart t = true) :
    Solid (s ++ t) := by
  intro stack rest h
  rw [String.toList_append, List.append_assoc]
  refine hs _ _ ?_ (ht _ _ h)
  have hstart := startsWithLetter_of_startsApart (startsApart_append (t := String.ofList rest) start)
  rwa [String.toList_append, String.toList_ofList] at hstart

/-- A piece that fits, behind one that does not end in a command unless no letter follows. -/
theorem Fits.behind {s t : String} (hs : isWellFormed s = true) (ht : Fits t)
    (apart : endsInCommand (lexemes s) = true → startsWithLetter t.toList = false) : Fits (s ++ t) := by
  cases hopen : endsInCommand (lexemes s) with
  | true => exact (fits_iff.2 hs).append ht (apart hopen)
  | false => exact (Solid.of_isWellFormed hs hopen).andFits ht

/-- Whether a character is neither a backslash nor a brace. -/
def isInert (c : Char) : Bool :=
  c ≠ '\\' && c ≠ '\x7b' && c ≠ '\x7d'

theorem Solid.inert {s : String} (h : ∀ c ∈ s.toList, isInert c = true) : Solid s := by
  intro stack rest hrest
  generalize s.toList = cs at h ⊢
  induction cs with
  | nil => exact hrest
  | cons c cs ih =>
      obtain ⟨hc, hcs⟩ := List.forall_mem_cons.1 h
      simp only [isInert, Bool.and_eq_true, decide_eq_true_eq] at hc
      rw [List.cons_append, lexemesFrom_char hc.1.1, passes_char hc.1.2 hc.2]
      exact ih hcs

theorem Fits.group {s : String} (h : Fits s) : Solid (group s) := by
  intro stack rest hrest
  have htoList : (Latex.group s).toList ++ rest = '\x7b' :: (s.toList ++ '\x7d' :: rest) := by
    simp [Latex.group]
  rw [htoList, lexemesFrom_char (by decide), passes_open]
  refine h _ _ rfl ?_
  rwa [lexemesFrom_char (by decide), passes_close]

theorem isKnown_of_closing? {lexeme lexeme' : Lexeme} (h : closing? lexeme = some lexeme') :
    lexeme.isKnown = true ∧ lexeme'.isKnown = true := by
  unfold closing? at h
  split at h
  all_goals first | (obtain rfl := Option.some.inj h; exact ⟨rfl, rfl⟩) | cases h

theorem startsApart_group (s : String) : startsApart (Latex.group s) = true := by
  simp [startsApart, Latex.group]

theorem startsApart_parens (s : String) : startsApart (Latex.parens s) = true := by
  simp [startsApart, Latex.parens]

/-- A piece between delimiters that grow with it. -/
theorem Fits.delimited {opening closing s : String} {d d' : Lexeme} (h : Fits s)
    (hopening : lexemes opening = [.command "left", d])
    (hclosing : lexemes closing = [.command "right", d'])
    (pair : closing? d = some d')
    (apart : endsInCommand [d] = true → startsWithLetter s.toList = false)
    (start : startsApart closing = true) : Fits (opening ++ s ++ closing) := by
  obtain ⟨known, known'⟩ := isKnown_of_closing? pair
  have reads : ∀ {t : String} {word : String} {x : Lexeme} {more : List Char},
      lexemes t = [.command word, x] → (Lexeme.command word).isKnown = true → x.isKnown = true →
        (endsInCommand [x] = true → startsWithLetter more = false) →
          lexemesFrom none (t.toList ++ more) = .command word :: x :: lexemesFrom none more := by
    intro t word x more ht hword hx apart
    have hlexemes : lexemesFrom none t.toList = [.command word, x] := ht
    rw [lexemesFrom_append (by simp [hlexemes, hword, hx]) (by rw [hlexemes]; exact apart), hlexemes]
    rfl
  intro stack rest hrest hpasses
  have behind := startsWithLetter_append (startsWithLetter_of_startsApart start) hrest
  have front : endsInCommand [d] = true →
      startsWithLetter (s.toList ++ (closing.toList ++ rest)) = false :=
    fun hends => startsWithLetter_append (apart hends) behind
  rw [String.toList_append, String.toList_append, List.append_assoc, List.append_assoc,
    reads hopening rfl known front, passes_left pair known]
  refine h _ _ behind ?_
  rw [reads hclosing rfl known' fun _ => hrest, passes_right known']
  exact hpasses

theorem Fits.parens {s : String} (h : Fits s) : Fits (parens s) :=
  h.delimited (d := .char '(') rfl rfl rfl nofun rfl

/-- Whether markup begins with a power of `e`, which is how calls of `exp` are written. -/
def isExponential (s : String) : Bool :=
  ['e', '^'].isPrefixOf s.toList

/-- Markup that fits, and begins with a letter only if it begins with a power of `e`. -/
structure Stands (s : String) : Prop where
  fits : Fits s
  start : startsWithLetter s.toList = true → isExponential s = true

theorem Stands.of_fits {s : String} (h : Fits s) (start : startsWithLetter s.toList = false) :
    Stands s :=
  ⟨h, fun hstart => absurd (start.symm.trans hstart) Bool.false_ne_true⟩

theorem Stands.apart {s : String} (h : Stands s) (plain : isExponential s = false) :
    startsWithLetter s.toList = false := by
  rw [Bool.eq_false_iff]
  intro hstart
  exact absurd (plain.symm.trans (h.start hstart)) Bool.false_ne_true

theorem Stands.append {s t : String} (hs : Stands s) (ht : Fits t)
    (start : startsWithLetter t.toList = false) : Stands (s ++ t) := by
  refine ⟨hs.fits.append ht start, fun hstart => ?_⟩
  rw [String.toList_append] at hstart
  have hletter : startsWithLetter s.toList = true := by
    cases hs : startsWithLetter s.toList with
    | true => rfl
    | false => rwa [startsWithLetter_append hs start] at hstart
  have hlead := List.isPrefixOf_iff_prefix.1 (hs.start hletter)
  rw [isExponential, String.toList_append]
  exact List.isPrefixOf_iff_prefix.2 (hlead.trans (List.prefix_append _ _))

/-- Markup that begins with a fixed piece. -/
theorem Stands.behind {s t : String} (hs : isWellFormed s = true) (start : startsApart s = true)
    (ht : Fits t) (apart : endsInCommand (lexemes s) = true → startsWithLetter t.toList = false) :
    Stands (s ++ t) :=
  .of_fits (.behind hs ht apart) (startsWithLetter_of_startsApart (startsApart_append start))

/-- Markup between delimiters that grow with it. -/
theorem Stands.delimited {opening closing s : String} {d d' : Lexeme} (h : Fits s)
    (hopening : lexemes opening = [.command "left", d])
    (hclosing : lexemes closing = [.command "right", d'])
    (pair : closing? d = some d')
    (apart : endsInCommand [d] = true → startsWithLetter s.toList = false)
    (start : startsApart opening = true) (start' : startsApart closing = true) :
    Stands (opening ++ s ++ closing) :=
  .of_fits (h.delimited hopening hclosing pair apart start')
    (startsWithLetter_of_startsApart (startsApart_append (startsApart_append start)))

/-- A command, or nothing, in front of parentheses. -/
theorem Stands.called {s t : String} (hs : isWellFormed s = true) (start : startsApart s = true)
    (ht : Fits t) : Stands (s ++ Latex.parens t) :=
  .behind hs start ht.parens fun _ => startsWithLetter_of_startsApart (startsApart_parens t)

/-- Markup, a separator, and more markup. -/
theorem Stands.before {s separator t : String} (hs : Stands s) (ht : Fits t)
    (hseparator : isWellFormed separator = true)
    (apart : endsInCommand (lexemes separator) = true → startsWithLetter t.toList = false)
    (start : startsApart separator = true) : Stands (s ++ separator ++ t) := by
  rw [String.append_assoc]
  exact hs.append (.behind hseparator ht apart)
    (startsWithLetter_of_startsApart (startsApart_append start))

/-- Pieces with a separator between them. -/
theorem Fits.intercalate {separator : String} {pieces : List String} (h : ∀ s ∈ pieces, Fits s)
    (hseparator : Solid separator) (start : startsApart separator = true) :
    Fits (separator.intercalate pieces) := by
  induction pieces with
  | nil => exact fits_iff.2 rfl
  | cons s pieces ih =>
      obtain ⟨hs, hpieces⟩ := List.forall_mem_cons.1 h
      cases pieces with
      | nil => rwa [String.intercalate_singleton]
      | cons =>
          rw [String.intercalate_cons_cons]
          exact (hs.andSolid hseparator start).andFits (ih hpieces)

theorem Stands.intercalate {separator : String} {pieces : List String} (h : ∀ s ∈ pieces, Stands s)
    (hseparator : Solid separator) (start : startsApart separator = true) :
    Stands (separator.intercalate pieces) := by
  cases pieces with
  | nil => exact .of_fits (fits_iff.2 rfl) rfl
  | cons s pieces =>
      obtain ⟨hs, hpieces⟩ := List.forall_mem_cons.1 h
      cases pieces with
      | nil => rwa [String.intercalate_singleton]
      | cons =>
          have hrest := Fits.intercalate (fun s hs => (hpieces s hs).fits) hseparator start
          rw [String.intercalate_cons_cons, String.append_assoc]
          exact hs.append (hseparator.andFits hrest)
            (startsWithLetter_of_startsApart (startsApart_append start))

theorem Fits.commas {pieces : List String} (h : ∀ s ∈ pieces, Fits s) :
    Fits (",".intercalate pieces) :=
  .intercalate h (.of_isWellFormed rfl rfl) rfl

end Formula.Latex
