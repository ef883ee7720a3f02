import Formula.Proofs.Rendering.Markup
import Formula.Proofs.Rendering.Templates

/-!
The pieces that the markup of expressions is made of: escaped texts, names, and calls of well-known
functions.

What fills a template is followed piece by piece (`Latex.Fills`): the placeholders of a template make
of the pieces that it is put together from the pieces of the markup.
-/

namespace Formula.Latex

/-! ### Texts and names -/

theorem Solid.escapeChar (c : Char) : Solid (String.ofList (escapeChar c)) := by
  unfold Latex.escapeChar
  split
  next => exact .of_isWellFormed rfl rfl
  next hbackslash =>
    split
    next => exact .of_isWellFormed rfl rfl
    next =>
      split
      next => exact .of_isWellFormed rfl rfl
      next =>
        split
        next hcontains =>
          simp only [List.contains_cons, List.contains_nil, Bool.or_false, Bool.or_eq_true, beq_iff_eq]
            at hcontains
          rcases hcontains with rfl | rfl | rfl | rfl | rfl | rfl | rfl
          all_goals exact .of_isWellFormed rfl rfl
        next hcontains =>
          simp only [List.contains_cons, List.contains_nil, Bool.or_false, Bool.or_eq_true, beq_iff_eq,
            not_or] at hcontains
          exact .inert (by simp [isInert, hbackslash, hcontains])

/-- Text of any kind is markup of its own once it is escaped. -/
theorem Solid.escape (s : String) : Solid (escape s) := by
  unfold Latex.escape
  induction s.toList with
  | nil => exact .inert (List.forall_mem_nil _)
  | cons c cs ih =>
      rw [List.flatMap_cons, String.ofList_append]
      exact (escapeChar c).append ih

theorem startsWithLetter_escape {s : String} (h : startsWithLetter s.toList = false) :
    startsWithLetter (escape s).toList = false := by
  rw [Latex.escape, String.toList_ofList]
  cases htoList : s.toList with
  | nil => rfl
  | cons c cs =>
      rw [htoList] at h
      rw [List.flatMap_cons]
      unfold Latex.escapeChar
      repeat' split
      all_goals first | rfl | exact h

/-- What stands for a word is a command. -/
theorem isWellFormed_of_word? {name s : String} (h : word? name = some s) :
    isWellFormed s = true ∧ startsApart s = true := by
  have letters : ∀ name ∈ greek, isWellFormed ("\\" ++ name) = true := by decide
  unfold word? at h
  split at h
  next hgreek =>
    obtain rfl := Option.some.inj h
    exact ⟨letters name (List.contains_iff_mem.1 hgreek), startsApart_append rfl⟩
  next =>
    unfold glyph? at h
    split at h
    all_goals first | (obtain rfl := Option.some.inj h; decide) | cases h

variable {cs : List Char}

theorem Fits.plainName {name : String} (h : ∀ c ∈ name.toList, isInert c = true) :
    Fits (plainName name) := by
  unfold Latex.plainName
  split
  next hword => exact fits_iff.2 (isWellFormed_of_word? hword).1
  next =>
    split
    · exact (Solid.escape name).fits
    · exact (Solid.inert h).fits

/-- The markup of a name fits, unless the name has characters of the markup itself. -/
theorem Fits.nameOfChars (h : ∀ c ∈ cs, isInert c = true) : Fits (nameOfChars cs) := by
  have whole : ∀ {cs : List Char}, (∀ c ∈ cs, isInert c = true) →
      Fits (Latex.plainName (String.ofList cs)) :=
    fun h => .plainName (by rwa [String.toList_ofList])
  fun_induction Latex.nameOfChars cs with
  | case1 cs => exact whole h
  | case2 cs _ base _ sub hsub _ _ ih =>
      have hbase : ∀ c ∈ base, isInert c = true := fun c hc => h c ((List.takeWhile_sublist _).subset hc)
      have hsub' : ∀ c ∈ sub, isInert c = true := fun c hc =>
        h c ((List.dropWhile_sublist _).subset (hsub ▸ List.mem_cons_of_mem _ hc))
      have underscore : Fits "_" := fits_iff.2 rfl
      exact ((whole hbase).append underscore rfl).append (ih hsub').group.fits
        (startsWithLetter_of_startsApart (startsApart_group _))
  | case3 cs => exact whole h

theorem Fits.symbol {name : String} (h : ∀ c ∈ name.toList, isInert c = true) :
    Fits (symbol name) :=
  .nameOfChars h

theorem startsWithLetter_plainName {name : String} (h : startsWithLetter name.toList = false) :
    startsWithLetter (plainName name).toList = false := by
  unfold Latex.plainName
  split
  next hword => exact startsWithLetter_of_startsApart (isWellFormed_of_word? hword).2
  next =>
    split
    · exact startsWithLetter_escape h
    · exact h

/-- The markup of a name begins with a letter only if the name does. -/
theorem startsWithLetter_nameOfChars (h : startsWithLetter cs = false) :
    startsWithLetter (nameOfChars cs).toList = false := by
  have whole : ∀ {cs : List Char}, startsWithLetter cs = false →
      startsWithLetter (Latex.plainName (String.ofList cs)).toList = false :=
    fun h => startsWithLetter_plainName (by rwa [String.toList_ofList])
  fun_cases Latex.nameOfChars cs with
  | case1 => exact whole h
  | case2 _ base =>
      have hbase : startsWithLetter base = false := by
        show startsWithLetter (cs.takeWhile (· != '_')) = false
        cases cs with
        | nil => rfl
        | cons c cs =>
            rw [List.takeWhile_cons]
            split
            · exact h
            · rfl
      rw [String.append_assoc, String.toList_append]
      exact startsWithLetter_append (whole hbase)
        (startsWithLetter_of_startsApart (startsApart_append rfl))
  | case3 => exact whole h

theorem symbol_of_word? {name s : String} (h : word? name = some s) : symbol name = s := by
  have whole : Latex.plainName (String.ofList name.toList) = s := by
    rw [String.ofList_toList, Latex.plainName, h]
  unfold Latex.symbol
  fun_cases Latex.nameOfChars name.toList with
  | case1 => exact whole
  | case2 _ _ _ _ _ hword =>
      have hnone : word? (String.ofList name.toList) = none := hword
      rw [String.ofList_toList, h] at hnone
      cases hnone
  | case3 => exact whole

/-! ### Templates -/

/-- What the placeholders of a template make of it, whatever follows it. -/
def Fills (args : List String) (template s : String) : Prop :=
  ∀ rest, fillChars args (template.toList ++ rest) = s.toList ++ fillChars args rest

variable {args : List String}

theorem Fills.fill {template s : String} (h : Fills args template s) : fill template args = s := by
  have hfill := h []
  rw [List.append_nil, fillChars, List.append_nil] at hfill
  rw [Latex.fill, hfill, String.ofList_toList]

theorem Fills.append {t t' s s' : String} (h : Fills args t s) (h' : Fills args t' s') :
    Fills args (t ++ t') (s ++ s') := by
  intro rest
  rw [String.toList_append, String.toList_append, List.append_assoc, List.append_assoc, h, h']

theorem fillChars_cons {c : Char} (h : c ≠ '\x7b') (cs : List Char) :
    fillChars args (c :: cs) = c :: fillChars args cs := by
  rw [fillChars, if_neg (by simp [h])]

/-- What has no opening brace has no placeholder. -/
theorem Fills.plain {t : String} (h : t.toList.contains '\x7b' = false) : Fills args t t := by
  intro rest
  replace h : '\x7b' ∉ t.toList := fun hmem => by simp [hmem] at h
  generalize t.toList = cs at h ⊢
  induction cs with
  | nil => rfl
  | cons c cs ih =>
      rw [List.mem_cons, not_or] at h
      rw [List.cons_append, fillChars_cons (Ne.symm h.1), ih h.2, List.cons_append]

theorem Fills.parens {t s : String} (h : Fills args t s) :
    Fills args (Latex.parens t) (Latex.parens s) :=
  ((Fills.plain rfl).append h).append (.plain rfl)

/-- A placeholder. -/
theorem Fills.placeholder {inner s : String} (h : argument? args inner.toList = some s)
    (closed : inner.toList.contains '\x7d' = false) : Fills args (Latex.group inner) s := by
  intro rest
  have htoList : (Latex.group inner).toList ++ rest = '\x7b' :: inner.toList ++ '\x7d' :: rest := by
    simp [Latex.group]
  rw [htoList, fillChars_placeholder h fun hmem => by simp [hmem] at closed]

/-- Braces around what begins with a brace are no placeholder. -/
theorem Fills.group {t s : String} (h : Fills args t s) (hbrace : t.toList.head? = some '\x7b') :
    Fills args (Latex.group t) (Latex.group s) := by
  intro rest
  have htoList : ∀ u : String, (Latex.group u).toList ++ rest
      = '\x7b' :: (u.toList ++ '\x7d' :: rest) := by simp [Latex.group]
  have free : ¬ BeginsPlaceholder ('\x7b' :: (t.toList ++ '\x7d' :: rest)) := by
    rintro ⟨inner, rest', hcs, hinner⟩
    obtain ⟨cs, hcs'⟩ := List.head?_eq_some_iff.1 hbrace
    have hhead := congrArg List.head? (List.cons.inj hcs).2
    rw [hcs'] at hhead
    cases inner with
    | nil => cases hhead
    | cons c inner =>
        obtain rfl : '\x7b' = c := Option.some.inj hhead
        rcases hinner with hnumeral | hargs
        · exact hnumeral.unopened List.mem_cons_self
        · cases hargs
  rw [htoList, fillChars_kept free, h, fillChars_cons (by decide)]
  simp [Latex.group]

/-- Whether the markup of a call has the argument directly behind a command. -/
def isBare (name : String) : Bool :=
  name = "ceil" || name = "floor"

/-- Such a call has one argument. -/
theorem eq_one_of_isBare {name template : String} {n : Nat} (h : isBare name = true)
    (htemplate : function? name n = some template) : n = 1 := by
  unfold function? at htemplate
  split at htemplate
  all_goals first | rfl | exact absurd h (by decide) | cases htemplate

/-- The markup of a call of a well-known function stands by itself, if that of its arguments does. -/
theorem Stands.fill {name template : String} (htemplate : function? name args.length = some template)
    (h : ∀ a ∈ args, Fits a)
    (apart : isBare name = true → ∀ a ∈ args, startsWithLetter a.toList = false) :
    Stands (Latex.fill template args) := by
  have one : args.length = 1 → ∃ a, args = [a] ∧ Fits a ∧ Fills args (place 0) a := by
    intro hlength
    obtain ⟨a, rfl⟩ := List.length_eq_one_iff.1 hlength
    exact ⟨a, rfl, h a (List.mem_singleton_self a), .placeholder rfl rfl⟩
  have two : args.length = 2 → ∃ a b, args = [a, b] ∧ Fits a ∧ Fits b ∧
      Fills args (place 0) a ∧ Fills args (place 1) b := by
    intro hlength
    cases args with
    | nil => cases hlength
    | cons a args =>
        obtain ⟨b, rfl⟩ := List.length_eq_one_iff.1 (Nat.succ.inj hlength)
        exact ⟨a, b, rfl, h a (by simp), h b (by simp), .placeholder rfl rfl,
          .placeholder rfl rfl⟩
  have filled : ∀ {s : String}, Fills args template s → Stands s → Stands (Latex.fill template args) :=
    fun hfills hs => hfills.fill ▸ hs
  have grouped : ∀ a, startsWithLetter (Latex.group a).toList = false :=
    fun a => startsWithLetter_of_startsApart (startsApart_group a)
  generalize hlength : args.length = n at htemplate one two
  unfold function? at htemplate
  split at htemplate
  case h_1 =>
    obtain ⟨a, -, ha, fills⟩ := one rfl
    obtain rfl := Option.some.inj htemplate
    exact filled (.append (.plain rfl) (fills.group rfl))
      (.behind rfl rfl ha.group.fits fun _ => grouped a)
  case h_2 =>
    obtain ⟨a, b, -, ha, hb, fills, fills'⟩ := two rfl
    obtain rfl := Option.some.inj htemplate
    have order : Stands ("\\sqrt[" ++ b) := .behind rfl rfl hb nofun
    exact filled
      (.append (.append (.append (.plain rfl) fills') (.plain rfl)) (fills.group rfl))
      (order.before ha.group.fits rfl nofun rfl)
  case h_3 =>
    obtain ⟨a, -, ha, fills⟩ := one rfl
    obtain rfl := Option.some.inj htemplate
    refine filled (.append (.append (.plain rfl) fills) (.plain rfl)) ?_
    exact .delimited (d := .char '|') ha rfl rfl rfl nofun rfl rfl
  case h_4 | h_5 =>
    obtain ⟨a, rfl, ha, fills⟩ := one rfl
    obtain rfl := Option.some.inj htemplate
    have behind := apart rfl a (List.mem_singleton_self a)
    refine filled (.append (.append (.plain rfl) fills) (.plain rfl)) ?_
    exact .delimited ha rfl rfl rfl (fun _ => behind) rfl rfl
  case h_6 =>
    obtain ⟨a, -, ha, fills⟩ := one rfl
    obtain rfl := Option.some.inj htemplate
    have base : Stands "e^" := ⟨fits_iff.2 rfl, fun _ => rfl⟩
    exact filled (.append (.plain rfl) (fills.group rfl)) (base.append ha.group.fits (grouped a))
  case h_7 =>
    obtain ⟨a, -, ha, fills⟩ := one rfl
    obtain rfl := Option.some.inj htemplate
    exact filled (.append (.plain rfl) fills.parens) (.called rfl rfl ha)
  case h_8 =>
    obtain ⟨a, b, -, ha, hb, fills, fills'⟩ := two rfl
    obtain rfl := Option.some.inj htemplate
    have base : Stands ("\\log_" ++ Latex.group b) :=
      .behind rfl rfl hb.group.fits fun _ => grouped b
    exact filled (.append (.append (.plain rfl) (fills'.group rfl)) fills.parens)
      (base.append ha.parens (startsWithLetter_of_startsApart (startsApart_parens a)))
  case h_9 =>
    obtain ⟨a, rfl, ha, fills⟩ := one rfl
    obtain rfl := Option.some.inj htemplate
    -- the base is taken for a placeholder, of an argument that there is not
    have base : Fills [a] (Latex.group "10") "" := .placeholder rfl rfl
    exact filled (.append (.append (.plain (t := "\\log_") rfl) base) fills.parens)
      (.called rfl rfl ha)
  case h_10 | h_11 =>
    obtain rfl := Option.some.inj htemplate
    have fills : Fills args (Latex.group "args") (",".intercalate args) :=
      .placeholder rfl rfl
    exact filled (.append (.plain rfl) fills.parens) (.called rfl rfl (.commas h))
  case h_12 =>
    obtain ⟨a, -, ha, fills⟩ := one rfl
    split at htemplate
    next hname =>
      have known : ∀ name ∈ namedFunctions, ("\\" ++ name).toList.contains '\x7b' = false ∧
          isWellFormed ("\\" ++ name) = true ∧ startsApart ("\\" ++ name) = true := by decide
      obtain ⟨plain, hword, start⟩ := known name (List.contains_iff_mem.1 hname)
      obtain rfl := Option.some.inj htemplate
      exact filled (.append (.plain plain) fills.parens) (.called hword start ha)
    next => cases htemplate
  case h_13 => cases htemplate

end Formula.Latex
