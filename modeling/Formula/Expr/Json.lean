import Formula.Expr.WellFormed
import Formula.Json.Reader

/-!
The JSON form of expression trees.

Every node is an object whose field `type` holds the name of its form and which has one field for each
part. `toJson` writes all of them in a fixed order; `ofJson` ignores fields that it does not know,
takes absent and null fields for absent parts, and accepts well-formed trees only.
-/

namespace Formula

/-- What a field of a node has to hold. -/
inductive FieldKind where
  | object | constantKind | string | boolean | array | objects | strings
deriving DecidableEq, Repr

/-- What a field of a node has to hold, in words. -/
def FieldKind.describe : FieldKind → String
  | .object => "an object"
  | .constantKind => "a constant type"
  | .string => "a string"
  | .boolean => "a boolean"
  | .array => "an array"
  | .objects => "an array of objects"
  | .strings => "an array of strings"

/-- Why a document is no expression tree. -/
inductive FormatError where
  | unknownForm (name : String)
  | missing (owner field : String)
  | malformed (owner field : String) (expected : FieldKind)
  | shape (error : ShapeError)
  | notJson
deriving DecidableEq, Repr

/-- The text of an error. -/
def FormatError.message : FormatError → String
  | .unknownForm name => "unknown node type '" ++ name ++ "'"
  | .missing owner field => owner ++ " is missing field '" ++ field ++ "'"
  | .malformed owner field expected =>
    owner ++ " field '" ++ field ++ "' must be " ++ expected.describe
  | .shape error => error.message
  | .notJson => "invalid JSON"

namespace Expr

/-- The JSON form of a tree. -/
def toJson : Expr → Json
  | .constant value kind =>
    node .constant [("value", .string value), ("valueType", .string kind.name)]
  | .symbol name => node .symbol [("name", .string name)]
  | .operation spelling function operands juxtaposed =>
    node .operation [("op", .string spelling), ("fn", .string function),
      ("args", .array (operands.map fun e => e.toJson)), ("implicit", .bool juxtaposed)]
  | .call callee args =>
    node .call [("fn", callee.toJson), ("args", .array (args.map fun e => e.toJson))]
  | .range start stop none =>
    node .range [("start", start.toJson), ("end", stop.toJson), ("step", .null)]
  | .range start stop (some step) =>
    node .range [("start", start.toJson), ("end", stop.toJson), ("step", step.toJson)]
  | .conditional condition yes no =>
    node .conditional [("condition", condition.toJson), ("trueExpr", yes.toJson),
      ("falseExpr", no.toJson)]
  | .assignment target none value =>
    node .assignment [("object", target.toJson), ("index", .null), ("value", value.toJson)]
  | .assignment target (some part) value =>
    node .assignment [("object", target.toJson), ("index", part.toJson), ("value", value.toJson)]
  | .definition name params body =>
    node .definition [("name", .string name), ("params", .array (params.map Json.string)),
      ("expr", body.toJson)]
  | .block entries =>
    node .block [("blocks", .array (entries.map fun entry =>
      .object [("node", entry.body.toJson), ("visible", .bool entry.visible)]))]
  | .array items => node .array [("items", .array (items.map fun e => e.toJson))]
  | .object properties =>
    node .object [("properties", .object (properties.map fun p => (p.1, p.2.toJson)))]
  | .parenthesis e => node .parenthesis [("content", e.toJson)]
  | .index dimensions dotted =>
    node .index [("dimensions", .array (dimensions.map fun e => e.toJson)),
      ("dotNotation", .bool dotted)]
  | .access target part => node .access [("object", target.toJson), ("index", part.toJson)]
  | .comparison functions operands =>
    node .comparison [("conditionals", .array (functions.map Json.string)),
      ("params", .array (operands.map fun e => e.toJson))]
termination_by e => sizeOf e
decreasing_by all_goals grind
where
  node (form : Form) (fields : List (String × Json)) : Json :=
    .object (("type", .string form.name) :: fields)

/-- The JSON text of a tree. -/
def toJsonText (e : Expr) : String :=
  e.toJson.text

/-- A part of a document, which is smaller than the fields that it was found in. -/
abbrev Part (fields : List (String × Json)) := { json : Json // sizeOf json < sizeOf fields }

/-- The value of a field. -/
def field? (key : String) : (fields : List (String × Json)) → Option (Part fields)
  | [] => none
  | (k, json) :: rest =>
    if k = key then some ⟨json, by simp; omega⟩
    else (field? key rest).map fun part => ⟨part.1, by have := part.2; simp; omega⟩

/-- The value of a field that has to be there. -/
def require (owner : String) (fields : List (String × Json)) (key : String) :
    Except FormatError (Part fields) :=
  match field? key fields with
  | some part => .ok part
  | none => .error (.missing owner key)

/-- The characters of a field. -/
def stringField (owner : String) (fields : List (String × Json)) (key : String) :
    Except FormatError String := do
  match (← require owner fields key).1 with
  | .string s => .ok s
  | _ => .error (.malformed owner key .string)

/-- The truth value of a field, which may be absent. -/
def flagField (owner : String) (fields : List (String × Json)) (key : String) (absent : Bool) :
    Except FormatError Bool :=
  match field? key fields with
  | none | some ⟨.null, _⟩ => .ok absent
  | some ⟨.bool b, _⟩ => .ok b
  | some _ => .error (.malformed owner key .boolean)

/-- The items of a field that holds an array. -/
def arrayField (owner : String) (fields : List (String × Json)) (key : String) :
    Except FormatError { items : List Json // sizeOf items < sizeOf fields } := do
  match ← require owner fields key with
  | ⟨.array items, h⟩ => .ok ⟨items, by simp at h; omega⟩
  | _ => .error (.malformed owner key .array)

/-- The strings of a field. -/
def stringsField (owner : String) (fields : List (String × Json)) (key : String) :
    Except FormatError (List String) := do
  (← arrayField owner fields key).1.mapM fun
    | .string s => .ok s
    | _ => .error (.malformed owner key .strings)

/-- The entries of a field that holds an object. -/
def objectField (owner : String) (fields : List (String × Json)) (key : String) :
    Except FormatError { entries : List (String × Json) // sizeOf entries < sizeOf fields } := do
  match ← require owner fields key with
  | ⟨.object entries, h⟩ => .ok ⟨entries, by simp at h; omega⟩
  | _ => .error (.malformed owner key .object)

/-- The constant of a node: a number may be given as one. -/
def constantField (owner : String) (fields : List (String × Json)) : Except FormatError Expr := do
  let kind ← match ConstantKind.ofName? (← stringField owner fields "valueType") with
    | some kind => .ok kind
    | none => .error (.malformed owner "valueType" .constantKind)
  match (← require owner fields "value").1 with
  | .string value => .ok (.constant value kind)
  | .number n =>
    if kind = .number then .ok (.number n.text) else .error (.malformed owner "value" .string)
  | _ => .error (.malformed owner "value" .string)

/-- The form that a node says it has. -/
def formField (fields : List (String × Json)) : Except FormatError Form := do
  match field? "type" fields with
  | some ⟨.string name, _⟩ =>
    match Form.ofName? name with
    | some form => .ok form
    | none => .error (.unknownForm name)
  | _ => .error (.missing "node" "type")

/-- The tree of a document. -/
def ofJson : Json → Except FormatError Expr
  | .object fields => do
    let form ← formField fields
    let owner := form.name
    let child (key : String) : Except FormatError Expr := do
      let ⟨json, _⟩ ← require owner fields key
      ofJson json
    let childOption (key : String) : Except FormatError (Option Expr) :=
      match field? key fields with
      | none | some ⟨.null, _⟩ => .ok none
      | some ⟨json, _⟩ => some <$> ofJson json
    let children (key : String) : Except FormatError (List Expr) := do
      let ⟨items, _⟩ ← arrayField owner fields key
      items.attach.mapM fun ⟨json, _⟩ => ofJson json
    let parts : Except FormatError Expr := do match form with
      | .constant => constantField owner fields
      | .symbol => return .symbol (← stringField owner fields "name")
      | .operation =>
        return .operation (← stringField owner fields "op") (← stringField owner fields "fn")
          (← children "args") (← flagField owner fields "implicit" false)
      | .call => return .call (← child "fn") (← children "args")
      | .range => return .range (← child "start") (← child "end") (← childOption "step")
      | .conditional =>
        return .conditional (← child "condition") (← child "trueExpr") (← child "falseExpr")
      | .assignment =>
        return .assignment (← child "object") (← childOption "index") (← child "value")
      | .definition =>
        return .definition (← stringField owner fields "name")
          (← stringsField owner fields "params") (← child "expr")
      | .block =>
        let ⟨items, _⟩ ← arrayField owner fields "blocks"
        let entries ← items.attach.mapM fun
          | ⟨.object entry, _⟩ => do
            let ⟨json, _⟩ ← require owner entry "node"
            return { body := ← ofJson json, visible := ← flagField owner entry "visible" true }
          | _ => .error (.malformed owner "blocks" .objects)
        return .block entries
      | .array => return .array (← children "items")
      | .object =>
        let ⟨properties, _⟩ ← objectField owner fields "properties"
        return .object (Record.ofList (← properties.attach.mapM fun ⟨p, _⟩ => do
          return (p.1, ← ofJson p.2)))
      | .parenthesis => return .parenthesis (← child "content")
      | .index =>
        return .index (← children "dimensions") (← flagField owner fields "dotNotation" false)
      | .access => return .access (← child "object") (← child "index")
      | .comparison =>
        return .comparison (← stringsField owner fields "conditionals") (← children "params")
    (← parts).checked.mapError .shape
  | _ => .error (.malformed "node" "type" .object)
termination_by json => sizeOf json
decreasing_by all_goals grind

/-- The tree of a JSON text. -/
def ofJsonText (text : String) : Except FormatError Expr :=
  match Json.read? text with
  | some json => ofJson json
  | none => .error .notJson

/-- The tree of the document at the front of a text. That nothing but blanks follows the document is
asked only after it has turned out to be a tree. -/
def ofJsonFront (text : String) : Except FormatError Expr :=
  match Json.readFront? Json.maxDepth text with
  | some (json, rest) => do
    let e ← ofJson json
    if rest = [] then return e else throw .notJson
  | none => .error .notJson

end Expr

end Formula
