import Formula.Proofs.Json.Tree
import Formula.Proofs.Quoted

/-!
The text of a document, and how deep it may nest to be read.

Documents without numbers whose objects have distinct keys (`Json.IsTextual`) are read back from
their text by a reader that lets them nest as deep as they do, and by no other one (`run_value`).
-/

namespace Formula

namespace Json

mutual

/-- How deep the arrays and objects of a document nest. -/
def depth : Json → Nat
  | .array items => itemsDepth items + 1
  | .object fields => fieldsDepth fields + 1
  | _ => 0

/-- How deep the items of an array nest. -/
def itemsDepth : List Json → Nat
  | [] => 0
  | item :: items => max item.depth (itemsDepth items)

/-- How deep the fields of an object nest. -/
def fieldsDepth : List (String × Json) → Nat
  | [] => 0
  | (_, value) :: fields => max value.depth (fieldsDepth fields)

end

theorem itemsDepth_le {d : Nat} {items : List Json} :
    itemsDepth items ≤ d ↔ ∀ item ∈ items, item.depth ≤ d := by
  induction items with
  | nil => simp [itemsDepth]
  | cons item items ih => rw [itemsDepth, max_le_iff, ih, List.forall_mem_cons]

theorem fieldsDepth_le {d : Nat} {fields : List (String × Json)} :
    fieldsDepth fields ≤ d ↔ ∀ field ∈ fields, field.2.depth ≤ d := by
  induction fields with
  | nil => simp [fieldsDepth]
  | cons field fields ih => rw [fieldsDepth, max_le_iff, ih, List.forall_mem_cons]

/-- Documents without numbers whose objects have distinct keys. -/
inductive IsTextual : Json → Prop
  | null : IsTextual .null
  | bool (b : Bool) : IsTextual (.bool b)
  | string (s : String) : IsTextual (.string s)
  | array {items : List Json} (h : ∀ item ∈ items, IsTextual item) : IsTextual (.array items)
  | object {fields : List (String × Json)} (h : ∀ field ∈ fields, IsTextual field.2)
      (nodup : (Record.keys fields).Nodup) : IsTextual (.object fields)

end Json

namespace JsonText

/-! ### Tokens -/

/-- Whether a character is no blank. -/
def IsSolid (c : Char) : Prop :=
  (c == ' ' || c == '\n' || c == '\t' || c == '\r') = false

instance (c : Char) : Decidable (IsSolid c) :=
  inferInstanceAs (Decidable (_ = _))

variable {c : Char} {cs cs' rest : List Char}

/-- What comes behind something that is read. -/
theorem run_next {α β : Type} {x : Reader α} {f : α → Reader β} {a : α}
    (h : x.run cs = some (a, cs')) :
    (x >>= f).run cs = (f a).run cs' := by
  rw [StateT.run_bind, h]
  rfl

theorem run_tail : (modify List.tail : Reader Unit).run (c :: cs) = some ((), cs) :=
  rfl

theorem run_skipBlanks (h : IsSolid c) : skipBlanks.run (c :: cs) = some ((), c :: cs) := by
  show some ((), (c :: cs).dropWhile _) = _
  rw [List.dropWhile_cons_of_neg (by rw [h]; decide)]

theorem run_peekToken (h : IsSolid c) : peekToken.run (c :: cs) = some (c, c :: cs) := by
  rw [peekToken, run_next (run_skipBlanks h)]
  rfl

/-- The first character of a text. -/
theorem run_peekText {text : String} (h : text.toList.head? = some c) (hc : IsSolid c) :
    peekToken.run (text.toList ++ rest) = some (c, text.toList ++ rest) := by
  obtain ⟨cs, hcs⟩ := List.head?_eq_some_iff.1 h
  rw [hcs]
  exact run_peekToken hc

theorem run_passToken (h : IsSolid c) : (passToken c).run (c :: cs) = some ((), cs) := by
  rw [passToken, run_next (run_peekToken h), if_pos rfl, run_tail]

theorem run_passWord (word : String) (rest : List Char) :
    (passWord word).run (word.toList ++ rest) = some ((), rest) := by
  show (if word.toList.isPrefixOf (word.toList ++ rest) then
    set ((word.toList ++ rest).drop word.length) else failure : Reader Unit).run _ = _
  rw [if_pos (by simp), ← String.length_toList, List.drop_left]
  rfl

theorem run_str (s : String) : str.run ((Text.quote s).toList ++ rest) = some (s, rest) := by
  have hquote : (Text.quote s).toList ++ rest = '"' :: (Text.escape s.toList ++ '"' :: rest) := by
    simp [Text.quote]
  have hunquote :
    ∀ cs, (StateT.lift (Text.unquote? (Text.escape s.toList ++ '"' :: rest)) : Reader _).run cs
      = some ((s.toList, rest), cs) := by
    intro cs
    rw [Text.unquote?_escape]
    rfl
  rw [hquote, str, run_next (run_passToken (by decide)), run_next rfl, run_next (hunquote _)]
  show some (String.ofList s.toList, rest) = _
  rw [String.ofList_toList]

/-! ### Lists -/

section

variable {α : Type} {closing : Char} {item : Reader α} {write : α → List Char} {fits : α → Prop}
  [DecidablePred fits]

/-- A turn of reading things between commas. -/
def turn (item : Reader α) (found : List α) : Reader (ForInStep (List α)) := do
  if (← peekToken) = ',' then
    modify List.tail
    return .yield ((← item) :: found)
  else
    return .done found

theorem run_turn_comma {x : α}
    (h : item.run (write x ++ rest) = if fits x then some (x, rest) else none)
    (found : List α) :
    (turn item found).run (',' :: (write x ++ rest))
      = if fits x then some (.yield (x :: found), rest) else none := by
  rw [turn, run_next (run_peekToken (by decide)), if_pos rfl, run_next run_tail, StateT.run_bind, h]
  split <;> rfl

theorem run_turn_closing (hsolid : IsSolid closing) (hclosing : closing ≠ ',') {found : List α} :
    (turn item found).run (closing :: rest) = some (.done found, closing :: rest) := by
  rw [turn, run_next (run_peekToken hsolid), if_neg hclosing]
  rfl

/-- Reading goes on as long as there are commas, and fails where something does not fit. -/
theorem run_iterate (hsolid : IsSolid closing) (hclosing : closing ≠ ',') {xs : List α}
    (h : ∀ x ∈ xs, ∀ rest, item.run (write x ++ rest) = if fits x then some (x, rest) else none)
    {fuel : List Char} (hfuel : xs.length ≤ fuel.length) (found : List α) :
    (Reading.iterate (turn item) fuel found).run
      ((xs.flatMap fun x => ',' :: write x) ++ closing :: rest)
      = if ∀ x ∈ xs, fits x then some (xs.reverse ++ found, closing :: rest) else none := by
  induction xs generalizing fuel found with
  | nil =>
      cases fuel with
      | nil => rfl
      | cons _ fuel =>
          rw [Reading.iterate, List.flatMap_nil, List.nil_append,
            run_next (run_turn_closing hsolid hclosing)]
          rfl
  | cons x xs ih =>
      obtain ⟨hx, hxs⟩ := List.forall_mem_cons.1 h
      cases fuel with
      | nil => exact absurd hfuel (by simp)
      | cons _ fuel =>
          have hturn :=
            run_turn_comma (hx ((xs.flatMap fun x => ',' :: write x) ++ closing :: rest)) found
          rw [Reading.iterate, List.flatMap_cons, List.append_assoc, List.cons_append]
          by_cases hfits : fits x
          · rw [if_pos hfits] at hturn
            rw [run_next hturn]
            simpa [hfits] using ih hxs (Nat.le_of_succ_le_succ hfuel) (x :: found)
          · rw [if_neg hfits] at hturn
            rw [StateT.run_bind, hturn, if_neg (fun hall => hfits (hall x List.mem_cons_self))]
            rfl

theorem length_le_flatMap (write : α → List Char) (rest : List Char) (xs : List α) :
    xs.length ≤ ((xs.flatMap fun x => ',' :: write x) ++ rest).length := by
  induction xs with
  | nil => exact Nat.zero_le _
  | cons x xs ih =>
      rw [List.flatMap_cons, List.append_assoc, List.length_append, List.length_cons,
        List.length_cons]
      omega

theorem run_repeatedly (hsolid : IsSolid closing) (hclosing : closing ≠ ',') {xs : List α}
    (h : ∀ x ∈ xs, ∀ rest, item.run (write x ++ rest) = if fits x then some (x, rest) else none)
    (found : List α) (rest : List Char) :
    (Reading.repeatedly found (turn item)).run
      ((xs.flatMap fun x => ',' :: write x) ++ closing :: rest)
      = if ∀ x ∈ xs, fits x then some (xs.reverse ++ found, closing :: rest) else none :=
  run_iterate hsolid hclosing h (length_le_flatMap write (closing :: rest) xs) found

theorem commaSeparated_eq : commaSeparated closing item = do
    if (← peekToken) = closing then
      modify List.tail
      return []
    let first ← item
    let reversed ← Reading.repeatedly [first] (turn item)
    passToken closing
    return reversed.reverse :=
  rfl

/-- Things written between commas. -/
def written (write : α → List Char) : List α → List Char
  | [] => []
  | x :: xs => write x ++ xs.flatMap fun x => ',' :: write x

theorem run_commaSeparated (hsolid : IsSolid closing) (hclosing : closing ≠ ',') {xs : List α}
    (h : ∀ x ∈ xs, ∀ rest, item.run (write x ++ rest) = if fits x then some (x, rest) else none)
    (hopen : ∀ x ∈ xs, ∃ c cs, write x = c :: cs ∧ IsSolid c ∧ c ≠ closing) :
    (commaSeparated closing item).run (written write xs ++ closing :: rest)
      = if ∀ x ∈ xs, fits x then some (xs, rest) else none := by
  cases xs with
  | nil =>
      rw [commaSeparated_eq, written, List.nil_append, run_next (run_peekToken hsolid), if_pos rfl]
      rfl
  | cons x xs =>
      obtain ⟨hx, hxs⟩ := List.forall_mem_cons.1 h
      obtain ⟨c, cs, hwrite, hc, hne⟩ := hopen x List.mem_cons_self
      have hpeek : ∀ more, peekToken.run (write x ++ more) = some (c, write x ++ more) := by
        intro more
        rw [hwrite]
        exact run_peekToken hc
      rw [commaSeparated_eq, written, List.append_assoc, run_next (hpeek _), if_neg hne]
      have hfirst := hx ((xs.flatMap fun x => ',' :: write x) ++ closing :: rest)
      by_cases hfits : fits x
      · rw [if_pos hfits] at hfirst
        have hloop := run_repeatedly hsolid hclosing hxs [x] rest
        rw [run_next hfirst]
        by_cases hall : ∀ x ∈ xs, fits x
        · rw [if_pos hall] at hloop
          rw [run_next hloop, run_next (run_passToken hsolid),
            if_pos (List.forall_mem_cons.2 ⟨hfits, hall⟩)]
          simp
        · rw [if_neg hall] at hloop
          rw [StateT.run_bind, hloop, if_neg fun h => hall (List.forall_mem_cons.1 h).2]
          rfl
      · rw [if_neg hfits] at hfirst
        rw [StateT.run_bind, hfirst, if_neg (fun hall => hfits (hall x List.mem_cons_self))]
        rfl

end

/-! ### Documents -/

/-- What a field of an object is written as. -/
def fieldText (field : String × Json) : List Char :=
  (Text.quote field.1).toList ++ ':' :: field.2.text.toList

theorem toList_intercalate (texts : List String) :
    (",".intercalate texts).toList = written String.toList texts := by
  cases texts with
  | nil => rfl
  | cons text texts =>
      induction texts generalizing text with
      | nil => simp [String.intercalate_singleton, written]
      | cons text' texts ih =>
          rw [String.intercalate_cons_cons, String.toList_append, String.toList_append, ih]
          simp [written]

theorem written_map {α β : Type} (write : β → List Char) (k : α → β) (xs : List α) :
    written write (xs.map k) = written (fun x => write (k x)) xs := by
  cases xs with
  | nil => rfl
  | cons x xs => simp [written, List.flatMap_map]

theorem toList_text_array (items : List Json) :
    (Json.array items).text.toList
      = '[' :: (written (fun item => item.text.toList) items ++ [']']) := by
  rw [Json.text, String.toList_append, String.toList_append, toList_intercalate, written_map]
  rfl

theorem toList_text_object (fields : List (String × Json)) :
    (Json.object fields).text.toList = '\x7b' :: (written fieldText fields ++ ['\x7d']) := by
  have hfield : (fun field : String × Json => (Text.quote field.1 ++ ":" ++ field.2.text).toList)
    = fieldText := by
    funext field
    simp [fieldText]
  rw [Json.text, String.toList_append, String.toList_append, toList_intercalate, written_map,
    hfield]
  rfl

/-- A document begins with a character that is no blank and closes nothing. -/
theorem exists_text {json : Json} (h : json.IsTextual) :
    ∃ c cs, json.text.toList = c :: cs ∧ IsSolid c ∧ c ≠ ']' := by
  cases h with
  | null => exact ⟨_, _, by rw [Json.text]; rfl, by decide, by decide⟩
  | bool b => cases b <;> exact ⟨_, _, by rw [Json.text]; rfl, by decide, by decide⟩
  | string s => exact ⟨_, _, by rw [Json.text, Text.quote, String.toList_ofList]; rfl, by decide,
    by decide⟩
  | array => exact ⟨_, _, toList_text_array _, by decide, by decide⟩
  | object => exact ⟨_, _, toList_text_object _, by decide, by decide⟩

theorem run_field {inner : Reader Json} {field : String × Json} {p : Prop} [Decidable p]
    (h : inner.run (field.2.text.toList ++ rest) = if p then some (field.2, rest) else none) :
    (JsonText.field inner).run (fieldText field ++ rest)
      = if p then some (field, rest) else none := by
  rw [JsonText.field, fieldText, List.append_assoc, List.cons_append, run_next (run_str field.1),
    run_next (run_passToken (by decide)), StateT.run_bind, h]
  split <;> rfl

theorem run_inner {r : Reader Json} :
    (StateT.lift (some r) : Reader (Reader Json)).run cs = some (r, cs) :=
  rfl

theorem run_no_inner {f : Reader Json → Reader Json} :
    (StateT.lift (none : Option (Reader Json)) >>= f : Reader Json).run cs = none :=
  rfl

section

variable {inner : Option (Reader Json)}

theorem run_null :
    (valueAround inner).run (Json.null.text.toList ++ rest) = some (.null, rest) := by
  have hpeek : peekToken.run ("null".toList ++ rest) = some ('n', "null".toList ++ rest) :=
    run_peekText rfl (by decide)
  rw [Json.text, valueAround, run_next hpeek, if_neg (by decide), if_neg (by decide),
    if_neg (by decide), if_neg (by decide), if_neg (by decide), if_pos rfl,
    run_next (run_passWord "null" rest)]
  rfl

theorem run_bool (b : Bool) :
    (valueAround inner).run ((Json.bool b).text.toList ++ rest) = some (.bool b, rest) := by
  cases b with
  | false =>
      have hpeek : peekToken.run ("false".toList ++ rest) = some ('f', "false".toList ++ rest) :=
        run_peekText rfl (by decide)
      rw [Json.text, if_neg (by decide), valueAround, run_next hpeek, if_neg (by decide),
        if_neg (by decide), if_neg (by decide), if_neg (by decide), if_pos rfl,
        run_next (run_passWord "false" rest)]
      rfl
  | true =>
      have hpeek : peekToken.run ("true".toList ++ rest) = some ('t', "true".toList ++ rest) :=
        run_peekText rfl (by decide)
      rw [Json.text, if_pos rfl, valueAround, run_next hpeek, if_neg (by decide),
        if_neg (by decide), if_neg (by decide), if_pos rfl, run_next (run_passWord "true" rest)]
      rfl

theorem run_string (s : String) :
    (valueAround inner).run ((Json.string s).text.toList ++ rest) = some (.string s, rest) := by
  have hpeek :
    peekToken.run ((Text.quote s).toList ++ rest) = some ('"', (Text.quote s).toList ++ rest) :=
    run_peekText (by rw [Text.quote, String.toList_ofList]; rfl) (by decide)
  rw [Json.text, valueAround, run_next hpeek, if_pos rfl, run_next (run_str s)]
  rfl

end

/-- A document is read back by a reader that lets it nest as deep as it does, and by no other. -/
theorem run_value {json : Json} (h : json.IsTextual) (d : Nat) (rest : List Char) :
    (value d).run (json.text.toList ++ rest)
      = if json.depth ≤ d then some (json, rest) else none := by
  induction h generalizing d rest with
  | null => cases d <;> exact run_null.trans (if_pos (Nat.zero_le _)).symm
  | bool b => cases d <;> exact (run_bool b).trans (if_pos (Nat.zero_le _)).symm
  | string s => cases d <;> exact (run_string s).trans (if_pos (Nat.zero_le _)).symm
  | @array items hitems ih =>
      rw [toList_text_array, List.cons_append, List.append_assoc]
      cases d with
      | zero =>
          rw [value, valueAround, run_next (run_peekToken (by decide)), if_neg (by decide),
            if_pos rfl, run_next run_tail, run_no_inner, if_neg (by simp [Json.depth])]
      | succ d =>
          have hread : (commaSeparated ']' (value d)).run
              (written (fun item => item.text.toList) items ++ ']' :: rest)
              = if ∀ item ∈ items, item.depth ≤ d then some (items, rest) else none :=
            run_commaSeparated (by decide) (by decide) (fun item hitem rest => ih item hitem d rest)
              fun item hitem => exists_text (hitems item hitem)
          rw [value, valueAround, run_next (run_peekToken (by decide)), if_neg (by decide),
            if_pos rfl, run_next run_tail, run_next run_inner, List.singleton_append,
            StateT.run_bind, hread]
          simp only [Json.depth, Nat.add_le_add_iff_right, Json.itemsDepth_le]
          split <;> rfl
  | @object fields hfields nodup ih =>
      rw [toList_text_object, List.cons_append, List.append_assoc]
      cases d with
      | zero =>
          rw [value, valueAround, run_next (run_peekToken (by decide)), if_neg (by decide),
            if_neg (by decide), if_pos rfl, run_next run_tail, run_no_inner,
            if_neg (by simp [Json.depth])]
      | succ d =>
          have hread : (commaSeparated '\x7d' (JsonText.field (value d))).run
              (written fieldText fields ++ '\x7d' :: rest)
              = if ∀ field ∈ fields, field.2.depth ≤ d then some (fields, rest) else none :=
            run_commaSeparated (by decide) (by decide)
              (fun field hfield rest => run_field (ih field hfield d rest))
              fun field hfield => ⟨'"', _,
                by rw [fieldText, Text.quote, String.toList_ofList]; rfl, by decide,
                by decide⟩
          rw [value, valueAround, run_next (run_peekToken (by decide)), if_neg (by decide),
            if_neg (by decide), if_pos rfl, run_next run_tail, run_next run_inner,
            List.singleton_append, StateT.run_bind, hread]
          simp only [Json.depth, Nat.add_le_add_iff_right, Json.fieldsDepth_le]
          split
          · show some (Json.object (Record.ofList fields), rest) = _
            rw [Record.ofList_eq_self nodup]
          · rfl

end JsonText

namespace Json

/-- A textual document is read from the front of its text, up to the end, if it does not nest too
deep. -/
theorem readFront?_text {json : Json} (h : json.IsTextual) (d : Nat) :
    readFront? d json.text = if json.depth ≤ d then some (json, []) else none := by
  have hread := JsonText.run_value h d []
  rw [List.append_nil] at hread
  rw [readFront?, JsonText.document, StateT.run_bind, hread]
  split <;> rfl

end Json

namespace Expr

/-! ### Texts of expressions -/

theorem isTextual_node {form : Form} {fields : List (String × Json)}
    (h : ∀ field ∈ fields, field.2.IsTextual) (nodup : ("type" :: Record.keys fields).Nodup) :
    (toJson.node form fields).IsTextual :=
  .object (List.forall_mem_cons.2 ⟨.string _, h⟩) nodup

theorem isTextual_strings (strings : List String) :
    (Json.array (strings.map Json.string)).IsTextual :=
  .array (List.forall_mem_map.2 fun s _ => .string s)

/-- A node is written without numbers if its children are. -/
theorem isTextual_toJson_of_children {e : Expr} (hsound : e.IsSound)
    (h : ∀ child ∈ e.children.map (·.2), child.toJson.IsTextual) : e.toJson.IsTextual := by
  have hlist : ∀ es : List Expr, (∀ e ∈ es, e.toJson.IsTextual) →
      (Json.array (es.map fun e => e.toJson)).IsTextual :=
        fun es hes => .array (List.forall_mem_map.2 hes)
  cases e with
  | constant | symbol =>
      rw [toJson]
      exact isTextual_node (by simp [Json.IsTextual.string]) (by simp [Record.keys])
  | operation _ _ operands =>
      have hoperands := hlist operands (by simpa [children] using h)
      rw [toJson]
      exact isTextual_node (by simp [Json.IsTextual.string, Json.IsTextual.bool, hoperands])
        (by simp [Record.keys])
  | call callee args =>
      simp only [children, List.map_cons, map_snd_itemChildren, List.forall_mem_cons] at h
      rw [toJson]
      exact isTextual_node (by simpa using ⟨h.1, hlist args h.2⟩) (by simp [Record.keys])
  | range start stop step =>
      cases step with
      | none =>
          rw [toJson]
          exact isTextual_node (by simpa [children, Json.IsTextual.null] using h)
            (by simp [Record.keys])
      | some step =>
          rw [toJson]
          exact isTextual_node (by simpa [children] using h) (by simp [Record.keys])
  | assignment target part value =>
      cases part with
      | none =>
          rw [toJson]
          exact isTextual_node (by simpa [children, Json.IsTextual.null] using h)
            (by simp [Record.keys])
      | some part =>
          rw [toJson]
          exact isTextual_node (by simpa [children] using h) (by simp [Record.keys])
  | conditional | parenthesis | access =>
      rw [toJson]
      exact isTextual_node (by simpa [children] using h) (by simp [Record.keys])
  | definition name params body =>
      have hparams := isTextual_strings params
      rw [toJson]
      exact isTextual_node (by simpa [children, Json.IsTextual.string, hparams] using h)
        (by simp [Record.keys])
  | block entries =>
      rw [map_snd_children_block, List.forall_mem_map] at h
      have hentry : ∀ entry ∈ entries, Json.IsTextual
          (.object [("node", entry.body.toJson), ("visible", .bool entry.visible)]) :=
            fun entry hentry =>
        .object (by simpa [Json.IsTextual.bool] using h entry hentry) (by simp [Record.keys])
      rw [toJson]
      exact isTextual_node (List.forall_mem_singleton.2 (.array (List.forall_mem_map.2 hentry)))
        (by simp [Record.keys])
  | array items =>
      have hitems := hlist items (by simpa [children] using h)
      rw [toJson]
      exact isTextual_node (List.forall_mem_singleton.2 hitems) (by simp [Record.keys])
  | object properties =>
      rw [map_snd_children_object, List.forall_mem_map] at h
      have hkeys :
        Record.keys (properties.map fun p => (p.1, p.2.toJson)) = Record.keys properties := by
        simp [Record.keys]
      have hproperties : Json.IsTextual (.object (properties.map fun p => (p.1, p.2.toJson))) :=
        .object (List.forall_mem_map.2 h) (hkeys ▸ hsound.2)
      rw [toJson]
      exact isTextual_node (List.forall_mem_singleton.2 hproperties) (by simp [Record.keys])
  | index dimensions _ =>
      have hdimensions := hlist dimensions (by simpa [children] using h)
      rw [toJson]
      exact isTextual_node (by simp [Json.IsTextual.bool, hdimensions]) (by simp [Record.keys])
  | comparison functions operands =>
      have hoperands := hlist operands (by simpa [children] using h)
      rw [toJson]
      exact isTextual_node (by simpa using ⟨isTextual_strings functions, hoperands⟩)
        (by simp [Record.keys])

/-- What is written for an expression that is in order has no numbers. -/
theorem Sound.isTextual {e : Expr} (h : e.Sound) : e.toJson.IsTextual := by
  induction h with
  | node sound _ ih => exact isTextual_toJson_of_children sound ih

/-- An expression that is in order is loaded from its text if that does not nest too deep. -/
theorem Sound.loads {e : Expr} (h : e.Sound) (hdepth : e.toJson.depth ≤ Json.maxDepth) :
    ofJsonText e.toJsonText = .ok e ∧ ofJsonFront e.toJsonText = .ok e := by
  have hread := Json.readFront?_text h.isTextual Json.maxDepth
  rw [if_pos hdepth] at hread
  have hback := ofJson_toJson h
  rw [ofJsonText, ofJsonFront, Json.read?, Json.readDeep?, toJsonText, hread]
  refine ⟨hback, ?_⟩
  dsimp only
  rw [hback]
  rfl

theorem Sound.not_loads {e : Expr} (h : e.Sound) (hdepth : ¬ e.toJson.depth ≤ Json.maxDepth) :
    ofJsonText e.toJsonText = .error .notJson ∧ ofJsonFront e.toJsonText = .error .notJson := by
  have hread := Json.readFront?_text h.isTextual Json.maxDepth
  rw [if_neg hdepth] at hread
  rw [ofJsonText, ofJsonFront, Json.read?, Json.readDeep?, toJsonText, hread]
  exact ⟨rfl, rfl⟩

/-- The text of what a source is parsed to can be loaded if and only if its document nests at most
as deep as readers let it, and then it is loaded as what it is the text of. -/
theorem loads_of_parse {source : String} {e : Expr} (h : parse source = .ok e) :
    (ofJsonText e.toJsonText = if e.toJson.depth ≤ Json.maxDepth then .ok e else .error .notJson) ∧
      ofJsonFront e.toJsonText
        = if e.toJson.depth ≤ Json.maxDepth then .ok e else .error .notJson := by
  have hsound := sound_of_parse h
  by_cases hdepth : e.toJson.depth ≤ Json.maxDepth
  · simpa only [if_pos hdepth] using hsound.loads hdepth
  · simpa only [if_neg hdepth] using hsound.not_loads hdepth

/-- The factorial of the factorial of ... of `a`. -/
def factorials : Nat → Expr
  | 0 => .symbol "a"
  | n + 1 => .apply .factorial [factorials n]

/-- What `factorials` is parsed from. -/
def factorialsSource (n : Nat) : String :=
  "a" ++ String.ofList (List.replicate n '!')

/-- A node and the list of its operands are two levels of a document. -/
theorem depth_toJson_factorials (n : Nat) : (factorials n).toJson.depth = 2 * n + 1 := by
  induction n with
  | zero =>
      rw [factorials, toJson]
      rfl
  | succ n ih =>
      rw [factorials, apply, toJson]
      simp only [toJson.node, List.map_cons, List.map_nil, Json.depth, Json.fieldsDepth,
        Json.itemsDepth, ih]
      omega

theorem loads_of_parse_limit :
    parse (factorialsSource 63) = .ok (factorials 63) ∧
      ofJsonText (factorials 63).toJsonText = .ok (factorials 63) ∧
      ofJsonFront (factorials 63).toJsonText = .ok (factorials 63) := by
  have source : parse (factorialsSource 63) = .ok (factorials 63) := by decide +kernel
  have depth : (factorials 63).toJson.depth ≤ Json.maxDepth := by
    rw [depth_toJson_factorials]
    decide
  have loads := loads_of_parse source
  simp only [if_pos depth] at loads
  exact ⟨source, loads⟩

/-- Whether the text of what a source is parsed to can be loaded again. -/
def Reloads (source : String) : Prop :=
  ∀ e, parse source = .ok e → ofJsonText e.toJsonText = .ok e ∧ ofJsonFront e.toJsonText = .ok e

/-- One factorial more, and the text is refused. -/
theorem not_reloads : ¬ Reloads (factorialsSource 64) := by
  intro h
  have source : parse (factorialsSource 64) = .ok (factorials 64) := by decide +kernel
  have deep : ¬ (factorials 64).toJson.depth ≤ Json.maxDepth := by
    rw [depth_toJson_factorials]
    decide
  have refused := ((sound_of_parse source).not_loads deep).1
  rw [(h _ source).1] at refused
  cases refused

end Expr

end Formula
