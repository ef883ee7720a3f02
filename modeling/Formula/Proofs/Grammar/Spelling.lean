import Formula.Proofs.Grammar.Shape
import Formula.Proofs.Scanning

/-!
Which tokens spell an expression, and which expressions can be spelled.

`Spells` says which tokens stand for an expression, whatever stands around it: it knows nothing of
precedence. `Legible` says of an expression alone that each part holds together tightly enough for
where it stands, so that no parentheses are missing. Together they say what the grammar reads.
-/

namespace Formula

/-- Whether a name token has the text of a name. -/
def Token.Lexical (t : Token) : Prop :=
  (t.kind = .number → IsNumber t.text ∧ (Expr.number t.text).isLiteral = true) ∧
    (t.kind = .identifier → isIdentifier t.text = true)

namespace Grammar

/-- Line ends. -/
def Lines (tokens : List Token) : Prop :=
  ∀ t ∈ tokens, t.kind = .newline

/-- Line ends that mean nothing, since they stand in brackets. -/
def Gap (nesting : Nat) (tokens : List Token) : Prop :=
  Lines tokens ∧ (nesting = 0 → tokens = [])

/-- What tokens can spell. -/
inductive Phrase where
  /-- An expression; the end of the range that it ends in may be left out. -/
  | expression (e : Expr) (endless : Bool)
  /-- The start of a range. -/
  | start (e : Expr)
  /-- The stop of a range; it may be left out. -/
  | stop (e : Expr) (endless : Bool)
  /-- Operands with comparisons between them. -/
  | chain (spellings : List String) (operands : List Expr)
  /-- Expressions between commas, of which the last one may be an endless range. -/
  | items (es : List Expr) (endless : Bool)
  /-- Expressions between commas, with their brackets. -/
  | list (opening closing : String) (es : List Expr)
  /-- Rows of a matrix. -/
  | rows (rows : List (List Expr)) (endless : Bool)
  /-- Properties of an object, as they are written: a later one may have the key of an earlier one. -/
  | properties (properties : List (String × Expr))

end Grammar

namespace Expr

/-- Whether every part of an expression holds together tightly enough for where it stands; what
follows the expression is a factor or not. -/
inductive Legible : Bool → Expr → Prop
  | number {f : Bool} {text : String} (lexical : Token.IsNumber text)
      (literal : (Expr.number text).isLiteral = true) : Legible f (.number text)
  | string {f : Bool} (value : String) : Legible f (.string value)
  | name {f : Bool} {name : String} {e : Expr} (lexical : Token.isIdentifier name = true)
      (he : Grammar.ofName name = e) : Legible f e
  | word {f : Bool} {name : String} (hname : Token.namedOperators.contains name = true)
      (infix_ : Operator.leading? name = none) : Legible f (.symbol name)
  | parenthesis {f : Bool} {e : Expr} (h : Legible false e) : Legible f (.parenthesis e)
  | array {f : Bool} {es : List Expr} (h : ∀ e ∈ es, Legible false e) : Legible f (.array es)
  | object {f : Bool} {properties : List (String × Expr)} (h : ∀ p ∈ properties, Legible false p.2)
      (nodup : (Record.keys properties).Nodup) : Legible f (.object properties)
  | call {f : Bool} {callee : Expr} {args : List Expr} (hcallee : Legible false callee)
      (callable : callee.form = .symbol ∨ callee.form = .access) (h : ∀ e ∈ args, Legible false e) :
      Legible f (.call callee args)
  | index {f : Bool} {owner : Expr} {dimensions : List Expr} (howner : Legible false owner)
      (level : 17 ≤ owner.level false) (h : ∀ e ∈ dimensions, Legible false e) :
      Legible f (.access owner (.index dimensions false))
  | property {f : Bool} {owner : Expr} {name : String} (howner : Legible false owner)
      (level : 17 ≤ owner.level false) (lexical : Token.isIdentifier name = true) :
      Legible f (.access owner (.property name))
  | postfixed {f : Bool} {spelling : String} {op : Operator} {e : Expr}
      (hop : Operator.trailing? spelling = some op) (h : Legible false e)
      (level : 17 ≤ e.level false) : Legible f (.operation spelling op.name [e] false)
  | power {f : Bool} {spelling : String} {op : Operator} {left right : Expr}
      (hspelling : spelling = "^" ∨ spelling = ".^") (hop : Operator.binary? spelling = some op)
      (hleft : Legible false left) (leftLevel : 17 ≤ left.level false)
      (hright : Legible false right) (rightLevel : 15 ≤ right.level false) :
      Legible f (.operation spelling op.name [left, right] false)
  | prefixed {f : Bool} {spelling : String} {op : Operator} {e : Expr}
      (hop : Operator.leading? spelling = some op) (h : Legible false e)
      (level : 15 ≤ e.level false) : Legible f (.operation spelling op.name [e] false)
  | fraction {left right : Expr} (hfraction : isFraction left right = true)
      (hleft : Legible false left) (hright : Legible false right) :
      Legible true (.operation "/" Operator.divide.name [left, right] false)
  | juxtaposition {f : Bool} {left right : Expr} (hleft : Legible right.opening.isFactor left)
      (leftLevel : 13 ≤ left.level right.opening.isFactor) (hright : Legible f right)
      (rightLevel : 14 ≤ right.level f)
      (opens : right.opening.isFactor = true
        ∨ right.opening = .number ∧ Grammar.endsLikeNumber left.lastFactor = false)
      (called : right.opening = .parenthesis → left.endsCallable = false) :
      Legible f (juxtapose left right)
  | binary {f : Bool} {spelling : String} {op : Operator} {left right : Expr}
      (hop : Operator.binary? spelling = some op) (weak : op.level ≤ 12)
      (hleft : Legible false left)
      (leftLevel : (if op.isRelational then 10 else op.level) ≤ left.level false)
      (hright : Legible f right) (rightLevel : op.level < right.level f)
      (divides : op = .divide → Grammar.isNumeral left.lastFactor = true →
        right.opensProduct f = false) :
      Legible f (.operation spelling op.name [left, right] false)
  | comparison {f : Bool} {functions : List String} {operands : List Expr} {last : Expr}
      (comparisons : ∀ name ∈ functions, isComparison name = true) (many : 2 ≤ functions.length)
      (length : operands.length = functions.length)
      (h : ∀ e ∈ operands, Legible false e) (levels : ∀ e ∈ operands, 10 ≤ e.level false)
      (hlast : Legible f last) (lastLevel : 10 ≤ last.level f) :
      Legible f (.comparison functions (operands ++ [last]))
  | range {f : Bool} {start stop : Expr} (hstart : Legible false start)
      (startLevel : 3 ≤ start.level false) (hstop : Legible f stop) (stopLevel : 3 ≤ stop.level f) :
      Legible f (.range start stop none)
  | steppedRange {f : Bool} {start stop step : Expr} (hstart : Legible false start)
      (startLevel : 3 ≤ start.level false) (hstep : Legible false step)
      (stepLevel : 3 ≤ step.level false) (hstop : Legible f stop) (stopLevel : 3 ≤ stop.level f) :
      Legible f (.range start stop (some step))
  | conditional {f : Bool} {condition yes no : Expr} (hcondition : Legible false condition)
      (conditionLevel : 2 ≤ condition.level false) (hyes : Legible false yes)
      (closed : yes.exposesColon = false) (hno : Legible f no) :
      Legible f (.conditional condition yes no)
  | assigned {f : Bool} {target value e : Expr} (he : Grammar.assign target value = .ok e)
      (htarget : Legible false target) (hvalue : Legible f value) : Legible f e

end Expr

namespace Grammar

open Expr (Legible)

/-- Tokens that spell a phrase, between so many open brackets and in so many operands. -/
inductive Spells : Nat → Nat → List Token → Phrase → Prop
  | number {n d : Nat} {t : Token} {lines : List Token} (deep : d < maxDepth)
      (ht : t.kind = .number) (literal : (Expr.number t.text).isLiteral = true)
      (gap : Gap n lines) : Spells n d (t :: lines) (.expression (.number t.text) false)
  | string {n d : Nat} {t : Token} {lines : List Token} {value : String} (deep : d < maxDepth)
      (ht : t.kind = .str) (hvalue : Text.unescape? t.text = some value) (gap : Gap n lines) :
      Spells n d (t :: lines) (.expression (.string value) false)
  | name {n d : Nat} {t : Token} {lines : List Token} {e : Expr} (deep : d < maxDepth)
      (ht : t.kind = .identifier) (lexical : Token.isIdentifier t.text = true)
      (he : ofName t.text = e) (gap : Gap n lines) :
      Spells n d (t :: lines) (.expression e false)
  | word {n d : Nat} {t : Token} {lines : List Token} (deep : d < maxDepth)
      (ht : t.kind = .operator) (hname : Token.namedOperators.contains t.text = true)
      (infix_ : Operator.leading? t.text = none) (gap : Gap n lines) :
      Spells n d (t :: lines) (.expression (.symbol t.text) false)
  | parenthesis {n d : Nat} {o c : Token} {tokens lines lines' : List Token} {e : Expr} {g : Bool}
      (deep : d < maxDepth) (ho : o.isDelimiter "(" = true) (gap : Lines lines)
      (h : Spells (n + 1) (d + 1) tokens (.expression e g)) (hc : c.isDelimiter ")" = true)
      (gap' : Gap n lines') :
      Spells n d (o :: lines ++ tokens ++ c :: lines') (.expression (.parenthesis e) false)
  | emptyArray {n d : Nat} {o c : Token} {lines lines' : List Token} (deep : d < maxDepth)
      (ho : o.isDelimiter "[" = true) (gap : Lines lines) (hc : c.isDelimiter "]" = true)
      (gap' : Gap n lines') : Spells n d (o :: lines ++ c :: lines') (.expression (.array []) false)
  | array {n d : Nat} {o c : Token} {tokens lines lines' : List Token} {rows : List (List Expr)}
      {e : Expr} {g : Bool} (deep : d < maxDepth) (ho : o.isDelimiter "[" = true) (gap : Lines lines)
      (h : Spells (n + 1) (d + 1) tokens (.rows rows g)) (he : ∀ position, ofRows position rows = .ok e)
      (hc : c.isDelimiter "]" = true) (gap' : Gap n lines') :
      Spells n d (o :: lines ++ tokens ++ c :: lines') (.expression e false)
  | object {n d : Nat} {o c : Token} {tokens lines lines' : List Token}
      {properties : List (String × Expr)} (deep : d < maxDepth) (ho : o.isDelimiter "\x7b" = true)
      (gap : Lines lines) (h : Spells (n + 1) (d + 1) tokens (.properties properties))
      (hc : c.isDelimiter "\x7d" = true) (gap' : Gap n lines') :
      Spells n d (o :: lines ++ tokens ++ c :: lines')
        (.expression (.object (Record.ofList properties)) false)
  | call {n d : Nat} {tokens tokens' : List Token} {callee : Expr} {args : List Expr}
      (hcallee : Spells n d tokens (.expression callee false))
      (callable : callee.form = .symbol ∨ callee.form = .access)
      (h : Spells n d tokens' (.list "(" ")" args)) :
      Spells n d (tokens ++ tokens') (.expression (.call callee args) false)
  | index {n d : Nat} {tokens tokens' : List Token} {owner : Expr} {dimensions : List Expr}
      (howner : Spells n d tokens (.expression owner false))
      (h : Spells n d tokens' (.list "[" "]" dimensions)) :
      Spells n d (tokens ++ tokens') (.expression (.access owner (.index dimensions false)) false)
  | property {n d : Nat} {tokens lines lines' : List Token} {dot name : Token} {owner : Expr}
      (howner : Spells n d tokens (.expression owner false)) (hdot : dot.isDelimiter "." = true)
      (gap : Gap n lines) (hname : name.kind = .identifier) (gap' : Gap n lines') :
      Spells n d (tokens ++ dot :: lines ++ name :: lines')
        (.expression (.access owner (.property name.text)) false)
  | postfixed {n d : Nat} {tokens lines : List Token} {o : Token} {op : Operator} {e : Expr}
      (h : Spells n d tokens (.expression e false)) (ho : o.kind = .operator)
      (hop : Operator.trailing? o.text = some op) (gap : Gap n lines) :
      Spells n d (tokens ++ o :: lines) (.expression (.operation o.text op.name [e] false) false)
  | power {n d : Nat} {tokens tokens' lines : List Token} {o : Token} {op : Operator}
      {left right : Expr} (hleft : Spells n d tokens (.expression left false))
      (ho : o.kind = .operator) (hspelling : o.text = "^" ∨ o.text = ".^")
      (hop : Operator.binary? o.text = some op) (gap : Lines lines)
      (hright : Spells n (d + 1) tokens' (.expression right false)) :
      Spells n d (tokens ++ o :: lines ++ tokens')
        (.expression (.operation o.text op.name [left, right] false) false)
  | prefixed {n d : Nat} {tokens lines : List Token} {o : Token} {op : Operator} {e : Expr}
      (deep : d < maxDepth) (ho : o.kind = .operator) (hop : Operator.leading? o.text = some op)
      (gap : Lines lines) (h : Spells n (d + 1) tokens (.expression e false)) :
      Spells n d (o :: lines ++ tokens) (.expression (.operation o.text op.name [e] false) false)
  | juxtaposition {n d : Nat} {tokens tokens' : List Token} {left right : Expr}
      (hleft : Spells n d tokens (.expression left false))
      (hright : Spells n d tokens' (.expression right false)) :
      Spells n d (tokens ++ tokens') (.expression (.juxtapose left right) false)
  | binary {n d : Nat} {tokens tokens' lines : List Token} {o : Token} {op : Operator}
      {left right : Expr} (hleft : Spells n d tokens (.expression left false))
      (ho : o.kind = .operator) (hop : Operator.binary? o.text = some op) (weak : op.level ≤ 12)
      (gap : Lines lines) (hright : Spells n d tokens' (.expression right false)) :
      Spells n d (tokens ++ o :: lines ++ tokens')
        (.expression (.operation o.text op.name [left, right] false) false)
  | operand {n d : Nat} {tokens : List Token} {e : Expr}
      (h : Spells n d tokens (.expression e false)) : Spells n d tokens (.chain [] [e])
  | comparing {n d : Nat} {tokens tokens' lines : List Token} {o : Token} {spellings : List String}
      {left : Expr} {operands : List Expr} (hleft : Spells n d tokens (.expression left false))
      (ho : o.kind = .operator) (hspelling : comparisons.contains o.text = true) (gap : Lines lines)
      (h : Spells n d tokens' (.chain spellings operands)) :
      Spells n d (tokens ++ o :: lines ++ tokens') (.chain (o.text :: spellings) (left :: operands))
  | comparison {n d : Nat} {tokens : List Token} {spellings : List String} {operands : List Expr}
      (h : Spells n d tokens (.chain spellings operands)) (many : 2 ≤ spellings.length) :
      Spells n d tokens (.expression (.comparison
        ((spellings.filterMap Operator.binary?).map Operator.name) operands) false)
  | noStart {n d : Nat} : Spells n d [] (.start (.number "1"))
  | start {n d : Nat} {tokens : List Token} {e : Expr}
      (h : Spells n d tokens (.expression e false)) : Spells n d tokens (.start e)
  | noStop {n d : Nat} : Spells n d [] (.stop (.symbol Expr.endName) true)
  | stop {n d : Nat} {tokens : List Token} {e : Expr}
      (h : Spells n d tokens (.expression e false)) : Spells n d tokens (.stop e false)
  | range {n d : Nat} {tokens tokens' lines : List Token} {colon : Token} {start stop : Expr}
      {g : Bool} (hstart : Spells n d tokens (.start start)) (hcolon : colon.isOperator ":" = true)
      (gap : Gap n lines) (hstop : Spells n d tokens' (.stop stop g)) :
      Spells n d (tokens ++ colon :: lines ++ tokens') (.expression (.range start stop none) g)
  | steppedRange {n d : Nat} {tokens tokens' tokens'' lines lines' : List Token}
      {colon colon' : Token} {start step stop : Expr} {g : Bool}
      (hstart : Spells n d tokens (.start start)) (hcolon : colon.isOperator ":" = true)
      (gap : Gap n lines) (hstep : Spells n d tokens' (.expression step false))
      (hcolon' : colon'.isOperator ":" = true) (gap' : Gap n lines')
      (hstop : Spells n d tokens'' (.stop stop g)) :
      Spells n d (tokens ++ colon :: lines ++ tokens' ++ colon' :: lines' ++ tokens'')
        (.expression (.range start stop (some step)) g)
  | conditional {n d : Nat} {tokens tokens' tokens'' lines lines' : List Token} {mark colon : Token}
      {condition yes no : Expr} {g : Bool} (hcondition : Spells n d tokens (.expression condition false))
      (hmark : mark.isOperator "?" = true) (gap : Lines lines)
      (hyes : Spells n d tokens' (.expression yes false)) (hcolon : colon.isOperator ":" = true)
      (gap' : Lines lines') (hno : Spells n d tokens'' (.expression no g)) :
      Spells n d (tokens ++ mark :: lines ++ tokens' ++ colon :: lines' ++ tokens'')
        (.expression (.conditional condition yes no) g)
  | assigned {n d : Nat} {tokens tokens' lines : List Token} {o : Token} {target value e : Expr}
      {g : Bool} (htarget : Spells n d tokens (.expression target false))
      (ho : o.isOperator "=" = true) (gap : Lines lines)
      (hvalue : Spells n d tokens' (.expression value g)) (he : assign target value = .ok e) :
      Spells n d (tokens ++ o :: lines ++ tokens') (.expression e g)
  | item {n d : Nat} {tokens : List Token} {e : Expr} {g : Bool}
      (h : Spells n d tokens (.expression e g)) : Spells n d tokens (.items [e] g)
  | items {n d : Nat} {tokens tokens' lines : List Token} {comma : Token} {e : Expr}
      {es : List Expr} {g g' : Bool} (h : Spells n d tokens (.expression e g'))
      (hcomma : comma.isDelimiter "," = true) (gap : Gap n lines)
      (more : Spells n d tokens' (.items es g)) :
      Spells n d (tokens ++ comma :: lines ++ tokens') (.items (e :: es) g)
  | emptyList {n d : Nat} {opening closing : String} {o c : Token} {lines lines' : List Token}
      (ho : o.isDelimiter opening = true) (gap : Lines lines) (hc : c.isDelimiter closing = true)
      (gap' : Gap n lines') : Spells n d (o :: lines ++ c :: lines') (.list opening closing [])
  | list {n d : Nat} {opening closing : String} {o c : Token} {tokens lines lines' : List Token}
      {es : List Expr} {g : Bool} (ho : o.isDelimiter opening = true) (gap : Lines lines)
      (h : Spells (n + 1) (d + 1) tokens (.items es g)) (hc : c.isDelimiter closing = true)
      (gap' : Gap n lines') :
      Spells n d (o :: lines ++ tokens ++ c :: lines') (.list opening closing es)
  | row {n d : Nat} {tokens : List Token} {es : List Expr} {g : Bool}
      (h : Spells n d tokens (.items es g)) : Spells n d tokens (.rows [es] g)
  | rows {n d : Nat} {tokens tokens' lines : List Token} {semicolon : Token} {es : List Expr}
      {rows : List (List Expr)} {g : Bool} (h : Spells n d tokens (.items es false))
      (hsemicolon : semicolon.isDelimiter ";" = true) (gap : Gap n lines)
      (more : Spells n d tokens' (.rows rows g)) :
      Spells n d (tokens ++ semicolon :: lines ++ tokens') (.rows (es :: rows) g)
  | noProperties {n d : Nat} : Spells n d [] (.properties [])
  | lastProperty {n d : Nat} {tokens lines lines' : List Token} {t colon : Token} {key : String}
      {value : Expr} (hkey : key? t = .ok key) (gap : Gap n lines)
      (hcolon : colon.isOperator ":" = true) (gap' : Gap n lines')
      (h : Spells n d tokens (.expression value false)) (legible : Legible false value) :
      Spells n d (t :: lines ++ colon :: lines' ++ tokens) (.properties [(key, value)])
  | properties {n d : Nat} {tokens tokens' lines lines' lines'' : List Token}
      {t colon comma : Token} {key : String} {value : Expr} {properties : List (String × Expr)}
      {g : Bool} (hkey : key? t = .ok key) (gap : Gap n lines)
      (hcolon : colon.isOperator ":" = true) (gap' : Gap n lines')
      (h : Spells n d tokens (.expression value g)) (legible : Legible false value)
      (hcomma : comma.isDelimiter "," = true) (gap'' : Gap n lines'')
      (more : Spells n d tokens' (.properties properties)) :
      Spells n d (t :: lines ++ colon :: lines' ++ tokens ++ comma :: lines'' ++ tokens')
        (.properties ((key, value) :: properties))

end Grammar

end Formula
