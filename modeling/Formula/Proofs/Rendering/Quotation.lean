import Formula.Proofs.Lines
import Formula.Proofs.Rendering.Regular

/-!
Texts between quotes are read as what they say.

A text between quotes is one token, whatever it says (`Text.scan_quote`). So constants and keys with any
contents are written and read again: by themselves, among other data (`Datum.parse_render`), and in front
of any values that can be written (`parse_render_object`).
-/

namespace Formula

/-- The tokens of a text between quotes are the text and the end. -/
theorem Text.scan_quote (s : String) : Token.scan (quote s)
    = [{ kind := .str, text := String.ofList (escape s.toList), position := 0 },
      Token.stopAt (quote s).length] :=
  (isCut_quote s).scan_eq trivial

namespace Expr

open Grammar

/-- Expressions that say what they are: texts, numbers and names, and arrays and objects of these. -/
inductive Datum : Expr → Prop
  | string (value : String) : Datum (.string value)
  | number {text : String} (lexical : Token.IsNumber text)
      (literal : (Expr.number text).isLiteral = true) : Datum (.number text)
  | name {name : String} (lexical : Token.isIdentifier name = true) : Datum (ofName name)
  | array {items : List Expr} (h : ∀ e ∈ items, Datum e) : Datum (.array items)
  | object {properties : List (String × Expr)} (h : ∀ p ∈ properties, Datum p.2)
      (nodup : (Record.keys properties).Nodup) : Datum (.object properties)

variable {style : Style} {e : Expr}

theorem Datum.legible (h : Datum e) : Legible false e := by
  induction h with
  | string value => exact .string value
  | number lexical literal => exact .number lexical literal
  | name lexical => exact .name lexical rfl
  | array _ ih => exact .array ih
  | object _ nodup ih => exact .object ih nodup

/-- Nothing in data is written in parentheses. -/
theorem Datum.written_eq (h : Datum e) : e.written style = e := by
  induction h with
  | string | number => rfl
  | name => exact written_ofName _
  | array _ ih => rw [written, writtenAll_eq, List.map_congr_left ih, List.map_id']
  | object _ _ ih =>
      rw [written, writtenProperties_eq, List.map_congr_left fun p hp => by rw [ih p hp], List.map_id']

section

variable (plain : ∀ e, style.custom e = none)
include plain

theorem Datum.told (h : Datum e) : ToldBy (e.render style) (e.written style) := by
  induction h with
  | string value => exact told_string plain (partwise_written style) value
  | number lexical literal => exact told_number plain (partwise_written style) lexical literal
  | name lexical => exact told_name plain (partwise_written style) lexical
  | array _ ih => exact told_array plain (partwise_written style) ih
  | object h nodup ih =>
      refine told_object plain (partwise_written style) nodup fun p hp => ⟨ih p hp, ?_⟩
      rw [(h p hp).written_eq]
      exact (h p hp).legible

/-- Data are read as they were written, in every style. -/
theorem Datum.parse_render (h : Datum e) (shallow : e.nesting < maxDepth) :
    parse (e.render style) = .ok e := by
  have told := h.told plain 0 0
  rw [h.written_eq, Nat.zero_add] at told
  exact parse_of_tells (told shallow) h.legible

/-- The keys of an object are read as they were written, whatever can be written of the values. -/
theorem parse_render_object {P : Expr → Prop} (writable : Writable style P)
    {properties : List (String × Expr)} (nodup : (Record.keys properties).Nodup)
    (values : ∀ p ∈ properties, Legible false p.2 ∧ p.2.Everywhere P)
    (shallow : ((Expr.object properties).written style).nesting < maxDepth) :
    parse ((Expr.object properties).render style)
      = .ok (.object (properties.map fun p => (p.1, p.2.written style))) := by
  have legible : ∀ p ∈ properties, Legible false (p.2.written style) := fun p hp =>
    writable.legible (values p hp).1 (values p hp).2
  have told := told_object plain (partwise_written style) nodup fun p hp =>
    ⟨(values p hp).1.told plain writable (values p hp).2, legible p hp⟩
  rw [← writtenProperties_eq, ← written]
  refine parse_of_tells (told 0 0 (by omega)) ?_
  rw [written, writtenProperties_eq]
  refine .object (List.forall_mem_map.2 legible) ?_
  rw [Record.keys, List.map_map]
  exact nodup

/-- A text between quotes is one token that says the text, wherever it stands. A constant is written so
and read again, whatever it says, and so are all constants and keys of data, and the keys of an object
with any values. -/
theorem quoted_reread :
    (∀ s : String, ∃ text, Token.IsCut (fun _ => True) (Text.quote s) .str text ∧
      Token.scan (Text.quote s)
        = [{ kind := .str, text, position := 0 }, Token.stopAt (Text.quote s).length] ∧
      Text.unescape? text = some s) ∧
    (∀ s : String, (Expr.string s).render style = Text.quote s ∧
      parse ((Expr.string s).render style) = .ok (.string s)) ∧
    (∀ e, Datum e → e.nesting < maxDepth → parse (e.render style) = .ok e) ∧
    ∀ P, Writable style P → ∀ properties : List (String × Expr), (Record.keys properties).Nodup →
      (∀ p ∈ properties, Legible false p.2 ∧ p.2.Everywhere P) →
      ((Expr.object properties).written style).nesting < maxDepth →
      parse ((Expr.object properties).render style)
        = .ok (.object (properties.map fun p => (p.1, p.2.written style))) := by
  refine ⟨fun s => ?_, fun s => ?_, fun e h shallow => h.parse_render plain shallow,
    fun P writable properties nodup values shallow =>
      parse_render_object plain writable nodup values shallow⟩
  · exact ⟨_, Text.isCut_quote s, Text.scan_quote s, Text.unescape?_escape s⟩
  · refine ⟨render_constant plain s .string, (Datum.string s).parse_render plain ?_⟩
    exact Nat.zero_lt_of_ne_zero (by decide)

end

/-- Quotes, backslashes, controls and other characters, in constants and keys. -/
theorem quoted_reread_object :
    let properties : List (String × Expr) :=
      [("\\\"\n", .string "\u0001\\\\\""), ("é😀", .apply .add [.symbol "a", .string "\\"])]
    (∀ e, ({} : Style).custom e = none) ∧ (Record.keys properties).Nodup ∧
      (∀ p ∈ properties, Legible false p.2 ∧ p.2.Everywhere Regular) ∧
      ((Expr.object properties).written {}).nesting < maxDepth ∧
      parse ((Expr.object properties).render {})
        = .ok (.object (properties.map fun p => (p.1, p.2.written {}))) := by
  intro properties
  have plain : ∀ e, ({} : Style).custom e = none := fun _ => rfl
  have lexical : Token.isIdentifier "a" = true := by decide +kernel
  have sum : Legible false (.apply .add [.symbol "a", .string "\\"]) :=
    .binary (by decide) (by decide) (.name lexical rfl) (by decide) (.string _) (by decide) nofun
  have symbol : (Expr.symbol "a").Everywhere Regular := .node trivial (List.forall_mem_nil _)
  have string : ∀ value, (Expr.string value).Everywhere Regular :=
    fun _ => .node trivial (List.forall_mem_nil _)
  have values : ∀ p ∈ properties, Legible false p.2 ∧ p.2.Everywhere Regular := by
    refine List.forall_mem_cons.2 ⟨⟨.string _, string _⟩, ?_⟩
    refine List.forall_mem_singleton.2 ⟨sum, .node trivial ?_⟩
    simp [children, apply, symbol, string]
  have nodup : (Record.keys properties).Nodup := by decide
  have shallow : ((Expr.object properties).written {}).nesting < maxDepth := by decide +kernel
  exact ⟨plain, nodup, values, shallow,
    (quoted_reread plain).2.2.2 Regular writable_regular properties nodup values shallow⟩

end Expr

end Formula
