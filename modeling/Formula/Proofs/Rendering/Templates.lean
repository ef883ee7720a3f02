import Formula.Latex
import Mathlib.Data.Nat.Digits.Defs

/-!
What templates become.

`Filled` says it without reading on in what was put in: a placeholder gives way to what it stands for,
and every other character is kept. A template can be filled so if and only if each of its numbers is
that of an argument, and then filling it gives just this text (`filled_iff`). The templates of the
well-known functions have no other numbers, but for the base of `log10` (`filled_function_iff`).
-/

namespace Formula.Latex

/-! ### Placeholders -/

/-- Whether characters write a number. -/
def IsNumeral (cs : List Char) : Prop :=
  cs ≠ [] ∧ ∀ c ∈ cs, c.isDigit = true

instance (cs : List Char) : Decidable (IsNumeral cs) :=
  decidable_of_iff (cs ≠ [] ∧ cs.all Char.isDigit = true) (by rw [List.all_eq_true, IsNumeral])

/-- The number that digits write. -/
def numeral (digits : List Char) : Nat :=
  Nat.ofDigits 10 (digits.reverse.map fun c => c.toNat - '0'.toNat)

/-- Whether a text begins with a placeholder: a number in braces, or `args`. -/
def BeginsPlaceholder (cs : List Char) : Prop :=
  ∃ inner rest, cs = '\x7b' :: inner ++ '\x7d' :: rest ∧ (IsNumeral inner ∨ inner = "args".toList)

/-- What a template becomes if a number in braces gives way to the argument of that number, `args` in
braces to all arguments between commas, and every other character is kept. -/
inductive Filled (args : List String) : List Char → List Char → Prop
  | nil : Filled args [] []
  | argument {inner rest s : List Char} {arg : String} (number : IsNumeral inner)
      (named : args[numeral inner]? = some arg) (h : Filled args rest s) :
      Filled args ('\x7b' :: inner ++ '\x7d' :: rest) (arg.toList ++ s)
  | all {rest s : List Char} (h : Filled args rest s) :
      Filled args ('\x7b' :: "args".toList ++ '\x7d' :: rest) ((",".intercalate args).toList ++ s)
  | kept {c : Char} {rest s : List Char} (free : ¬ BeginsPlaceholder (c :: rest))
      (h : Filled args rest s) : Filled args (c :: rest) (c :: s)

/-- What stands in braces at the beginning of a text. -/
def inBraces? : List Char → Option (List Char)
  | '\x7b' :: cs =>
    let inner := cs.takeWhile (· != '\x7d')
    if inner.length < cs.length then some inner else none
  | _ => none

/-- The numbers of the placeholders of a template. -/
def numbers : List Char → List Nat
  | [] => []
  | c :: cs =>
    let here := ((inBraces? (c :: cs)).filter fun inner => IsNumeral inner).map numeral
    here.toList ++ numbers cs

variable {args : List String} {inner rest cs s : List Char}

theorem takeWhile_closing (h : '\x7d' ∉ inner) :
    (inner ++ '\x7d' :: rest).takeWhile (· != '\x7d') = inner := by
  rw [List.takeWhile_append_of_pos]
  · simp
  · exact fun c hc => bne_iff_ne.2 fun heq => h (heq ▸ hc)

/-- What stands in braces ends with the first closing one. -/
theorem inBraces?_eq_some_iff : inBraces? cs = some inner ↔
    '\x7d' ∉ inner ∧ ∃ rest, cs = '\x7b' :: inner ++ '\x7d' :: rest := by
  constructor
  · intro h
    unfold inBraces? at h
    split at h
    next _ cs =>
      obtain ⟨hlt, rfl⟩ : (cs.takeWhile (· != '\x7d')).length < cs.length ∧ _ = inner := by
        simpa using h
      have closed : '\x7d' ∉ cs.takeWhile (· != '\x7d') := fun hmem => by
        simpa using List.all_eq_true.1 List.all_takeWhile _ hmem
      have hcut : cs.takeWhile (· != '\x7d') ++ cs.dropWhile (· != '\x7d') = cs :=
        List.takeWhile_append_dropWhile
      refine ⟨closed, ?_⟩
      cases hrest : cs.dropWhile (· != '\x7d') with
      | nil =>
          rw [hrest, List.append_nil] at hcut
          rw [hcut] at hlt
          exact absurd hlt (Nat.lt_irrefl _)
      | cons c rest =>
          obtain rfl : c = '\x7d' := by
            have hc := List.head?_dropWhile_not (· != '\x7d') cs
            simpa [hrest] using hc
          exact ⟨rest, by rw [List.cons_append, ← hrest, hcut]⟩
    next => cases h
  · rintro ⟨closed, rest, rfl⟩
    rw [List.cons_append]
    unfold inBraces?
    simp [takeWhile_closing closed]

theorem IsNumeral.closed (h : IsNumeral inner) : '\x7d' ∉ inner :=
  fun hmem => absurd (h.2 _ hmem) (by decide)

theorem IsNumeral.unopened (h : IsNumeral inner) : '\x7b' ∉ inner :=
  fun hmem => absurd (h.2 _ hmem) (by decide)

theorem numeral_eq_foldl :
    numeral inner = inner.foldl (fun n c => 10 * n + (c.toNat - 48)) 0 := by
  rw [numeral, Nat.ofDigits_eq_foldr, List.foldr_map, List.foldr_reverse]
  congr 1
  funext n c
  exact Nat.add_comm _ _

/-- A number stands for the argument at its place, and for nothing if there is none. -/
theorem argument?_numeral (h : IsNumeral inner) :
    argument? args inner = some (args.getD (numeral inner) "") := by
  have hargs : inner ≠ "args".toList := by
    rintro rfl
    exact absurd (h.2 'a' (by decide)) (by decide)
  rw [argument?, if_neg hargs, if_pos ⟨h.1, List.all_eq_true.2 h.2⟩, numeral_eq_foldl]

theorem argument?_eq_none (h : ¬ IsNumeral inner) (h' : inner ≠ "args".toList) :
    argument? args inner = none := by
  rw [argument?, if_neg h', if_neg fun hdigits => h ⟨hdigits.1, List.all_eq_true.1 hdigits.2⟩]

theorem fillChars_placeholder {arg : String} (h : argument? args inner = some arg)
    (closed : '\x7d' ∉ inner) :
    fillChars args ('\x7b' :: inner ++ '\x7d' :: rest) = arg.toList ++ fillChars args rest := by
  rw [List.cons_append, fillChars, takeWhile_closing closed, if_pos ⟨rfl, by simp⟩, h]
  simp

theorem fillChars_kept {c : Char} (free : ¬ BeginsPlaceholder (c :: cs)) :
    fillChars args (c :: cs) = c :: fillChars args cs := by
  rw [fillChars]
  split
  next hopen =>
    have hbraces : inBraces? (c :: cs) = some (cs.takeWhile (· != '\x7d')) := by
      rw [hopen.1, inBraces?, if_pos hopen.2]
    obtain ⟨-, rest, hcs⟩ := inBraces?_eq_some_iff.1 hbraces
    have hnone : argument? args (cs.takeWhile (· != '\x7d')) = none :=
      argument?_eq_none (fun h => free ⟨_, rest, hcs, .inl h⟩) fun h => free ⟨_, rest, hcs, .inr h⟩
    rw [hnone]
  next => rfl

/-! ### The numbers of a template -/

theorem numbers_append (h : '\x7b' ∉ inner) : numbers (inner ++ rest) = numbers rest := by
  induction inner with
  | nil => rfl
  | cons c inner ih =>
      rw [List.mem_cons, not_or] at h
      have hbraces : inBraces? (c :: (inner ++ rest)) = none := by
        refine Option.eq_none_iff_forall_ne_some.2 fun _ hsome => ?_
        obtain ⟨-, _, hcs⟩ := inBraces?_eq_some_iff.1 hsome
        exact h.1 (List.head_eq_of_cons_eq hcs).symm
      rw [List.cons_append, numbers, hbraces, ih h.2]
      rfl

theorem numbers_group (closed : '\x7d' ∉ inner) (h : '\x7b' ∉ inner) :
    numbers ('\x7b' :: inner ++ '\x7d' :: rest) =
      if IsNumeral inner then numeral inner :: numbers rest else numbers rest := by
  have hbraces : inBraces? ('\x7b' :: (inner ++ '\x7d' :: rest)) = some inner :=
    inBraces?_eq_some_iff.2 ⟨closed, rest, rfl⟩
  have hclosing : numbers (['\x7d'] ++ rest) = numbers rest := numbers_append (by decide)
  have hrest : numbers (inner ++ '\x7d' :: rest) = numbers rest := (numbers_append h).trans hclosing
  rw [List.cons_append, numbers, hbraces, hrest]
  by_cases hnumeral : IsNumeral inner <;> simp [Option.filter, hnumeral]

theorem numbers_kept {c : Char} (free : ¬ BeginsPlaceholder (c :: cs)) :
    numbers (c :: cs) = numbers cs := by
  have hnone : ((inBraces? (c :: cs)).filter fun inner => IsNumeral inner) = none := by
    refine Option.filter_eq_none_iff.2 fun inner hinner => ?_
    obtain ⟨-, rest, hcs⟩ := inBraces?_eq_some_iff.1 hinner
    simpa using fun hnumeral => free ⟨inner, rest, hcs, .inl hnumeral⟩
  rw [numbers, hnone]
  rfl

/-- The numbers of a template are those in braces, wherever they stand. -/
theorem mem_numbers_iff {i : Nat} : i ∈ numbers cs ↔ ∃ before inner after,
    cs = before ++ ('\x7b' :: inner ++ '\x7d' :: after) ∧ IsNumeral inner ∧ numeral inner = i := by
  induction cs with
  | nil => simp [numbers]
  | cons c cs ih =>
      have here : i ∈ (((inBraces? (c :: cs)).filter fun inner => IsNumeral inner).map numeral).toList ↔
          ∃ inner after, c :: cs = '\x7b' :: inner ++ '\x7d' :: after ∧ IsNumeral inner ∧
            numeral inner = i := by
        simp only [Option.mem_toList, Option.map_eq_some_iff, Option.filter_eq_some_iff,
          inBraces?_eq_some_iff, decide_eq_true_eq]
        constructor
        · rintro ⟨inner, ⟨⟨-, after, hcs⟩, hnumeral⟩, hi⟩
          exact ⟨inner, after, hcs, hnumeral, hi⟩
        · rintro ⟨inner, after, hcs, hnumeral, hi⟩
          exact ⟨inner, ⟨⟨hnumeral.closed, after, hcs⟩, hnumeral⟩, hi⟩
      rw [numbers, List.mem_append, here, ih]
      constructor
      · rintro (⟨inner, after, hcs, h⟩ | ⟨before, inner, after, rfl, h⟩)
        · exact ⟨[], inner, after, hcs, h⟩
        · exact ⟨c :: before, inner, after, rfl, h⟩
      · rintro ⟨before, inner, after, hcs, h⟩
        cases before with
        | nil => exact .inl ⟨inner, after, hcs, h⟩
        | cons _ before => exact .inr ⟨before, inner, after, (List.cons.inj hcs).2, h⟩

theorem Filled.numbers_lt (h : Filled args cs s) : ∀ i ∈ numbers cs, i < args.length := by
  induction h with
  | nil => exact nofun
  | argument number named _ ih =>
      rw [numbers_group number.closed number.unopened, if_pos number]
      exact List.forall_mem_cons.2 ⟨(List.getElem?_eq_some_iff.1 named).1, ih⟩
  | all _ ih =>
      rw [numbers_group (by decide) (by decide), if_neg (by decide)]
      exact ih
  | kept free _ ih => exact numbers_kept free ▸ ih

theorem Filled.eq_fillChars (h : Filled args cs s) : s = fillChars args cs := by
  induction h with
  | nil => rw [fillChars]
  | argument number named _ ih =>
      rw [fillChars_placeholder (argument?_numeral number) number.closed, ih,
        List.getD_eq_getElem?_getD, named, Option.getD_some]
  | all _ ih => rw [fillChars_placeholder rfl (by decide), ih]
  | kept free _ ih => rw [fillChars_kept free, ih]

/-- A template whose numbers are those of arguments is filled placeholder by placeholder. -/
theorem filled_fillChars (h : ∀ i ∈ numbers cs, i < args.length) : Filled args cs (fillChars args cs) := by
  induction hlength : cs.length using Nat.strongRecOn generalizing cs with
  | ind n ih =>
    cases cs with
    | nil => rw [fillChars]; exact .nil
    | cons c cs =>
        by_cases free : BeginsPlaceholder (c :: cs)
        · obtain ⟨inner, rest, hcs, hinner⟩ := free
          have hlt : rest.length < n := by
            rw [← hlength, hcs]
            simp only [List.length_append, List.length_cons]
            omega
          rw [hcs] at h ⊢
          rcases hinner with number | rfl
          · rw [numbers_group number.closed number.unopened, if_pos number, List.forall_mem_cons] at h
            obtain ⟨hargument, hrest⟩ := h
            rw [fillChars_placeholder (argument?_numeral number) number.closed,
              List.getD_eq_getElem?_getD, List.getElem?_eq_getElem hargument]
            exact .argument number (List.getElem?_eq_getElem hargument) (ih _ hlt hrest rfl)
          · rw [numbers_group (by decide) (by decide), if_neg (by decide)] at h
            rw [fillChars_placeholder rfl (by decide)]
            exact .all (ih _ hlt h rfl)
        · rw [numbers_kept free] at h
          rw [fillChars_kept free]
          exact .kept free (ih _ (hlength ▸ Nat.lt_succ_self _) h rfl)

/-- A template is filled if all its numbers are those of arguments, and in no other way than by filling
its placeholders one after another. -/
theorem filled_iff : Filled args cs s ↔ (∀ i ∈ numbers cs, i < args.length) ∧ s = fillChars args cs := by
  constructor
  · exact fun h => ⟨h.numbers_lt, h.eq_fillChars⟩
  · rintro ⟨h, rfl⟩
    exact filled_fillChars h

/-! ### The templates of functions -/

/-- The templates of functions have numbers of arguments only, but for the base of `log10`, which stands
in braces as they do. -/
theorem numbers_lt_iff {name template : String} {n : Nat} (h : function? name n = some template) :
    (∀ i ∈ numbers template.toList, i < n) ↔ name ≠ "log10" := by
  unfold function? at h
  split at h
  case h_9 =>
    obtain rfl := Option.some.inj h
    exact iff_of_false (by decide) (by decide)
  case h_10 | h_11 =>
    obtain rfl := Option.some.inj h
    exact iff_of_true (List.forall_mem_nil _) (by decide)
  case h_12 =>
    have known : ∀ name ∈ namedFunctions,
        (∀ i ∈ numbers ("\\" ++ name ++ parens (place 0)).toList, i < 1) ∧ name ≠ "log10" := by
      decide
    split at h
    next hname =>
      obtain rfl := Option.some.inj h
      obtain ⟨hnumbers, hne⟩ := known name (List.contains_iff_mem.1 hname)
      exact iff_of_true hnumbers hne
    next => cases h
  case h_13 => cases h
  all_goals
    obtain rfl := Option.some.inj h
    exact iff_of_true (by decide) (by decide)

/-- What fills the template of a function is its text with every placeholder replaced, for every function
but `log10`; the template of `log10` has a number of no argument, so that nothing fills it. -/
theorem filled_function_iff {name template : String} (h : function? name args.length = some template) :
    (∀ text : String,
      Filled args template.toList text.toList ↔ name ≠ "log10" ∧ text = fill template args) ∧
    ((∀ before inner after, template.toList = before ++ ('\x7b' :: inner ++ '\x7d' :: after) →
      IsNumeral inner → numeral inner < args.length) ↔ name ≠ "log10") := by
  constructor
  · intro text
    rw [filled_iff, numbers_lt_iff h, fill, ← String.toList_inj, String.toList_ofList]
  · rw [← numbers_lt_iff h]
    constructor
    · intro hnumbers i hi
      obtain ⟨before, inner, after, hcs, hnumeral, rfl⟩ := mem_numbers_iff.1 hi
      exact hnumbers before inner after hcs hnumeral
    · exact fun hnumbers before inner after hcs hnumeral =>
        hnumbers _ (mem_numbers_iff.2 ⟨before, inner, after, hcs, hnumeral, rfl⟩)

/-- Arguments with braces of their own are put in as they are. -/
theorem filled_function_root :
    function? "nthRoot" ["\\frac\x7b1\x7d\x7b2\x7d", "\x7b0\x7d"].length
        = some "\\sqrt[\x7b1\x7d]\x7b\x7b0\x7d\x7d" ∧
      Filled ["\\frac\x7b1\x7d\x7b2\x7d", "\x7b0\x7d"] "\\sqrt[\x7b1\x7d]\x7b\x7b0\x7d\x7d".toList
        "\\sqrt[\x7b0\x7d]\x7b\\frac\x7b1\x7d\x7b2\x7d\x7d".toList := by
  have h : function? "nthRoot" ["\\frac\x7b1\x7d\x7b2\x7d", "\x7b0\x7d"].length
      = some "\\sqrt[\x7b1\x7d]\x7b\x7b0\x7d\x7d" := rfl
  exact ⟨h, ((filled_function_iff h).1 _).2 ⟨by decide, by decide +kernel⟩⟩

/-- The base of a decimal logarithm gives way to nothing. -/
theorem log10_loses_base :
    function? "log10" 1 = some "\\log_\x7b10\x7d\\left(\x7b0\x7d\\right)" ∧
      fill "\\log_\x7b10\x7d\\left(\x7b0\x7d\\right)" ["x"] = "\\log_\\left(x\\right)" ∧
      ¬ Filled ["x"] "\\log_\x7b10\x7d\\left(\x7b0\x7d\\right)".toList
        "\\log_\\left(x\\right)".toList ∧
      10 ∈ numbers "\\log_\x7b10\x7d\\left(\x7b0\x7d\\right)".toList := by
  have hten : 10 ∈ numbers "\\log_\x7b10\x7d\\left(\x7b0\x7d\\right)".toList := by decide
  refine ⟨rfl, by decide +kernel, fun h => ?_, hten⟩
  exact absurd ((filled_iff.1 h).1 10 hten) (by decide)

end Formula.Latex
