import Formula.Proofs.Lines
import Formula.Proofs.Nodes

/-!
How deep the trees of sources are nested.

Reading an operand is what the grammar counts: between brackets, behind a prefix operator and in an
exponent there is one operand more around each operand. So a way down a tree passes boundedly many of
these places (`entered_le_of_parse`). The value of an assignment, the body of a function and the
branches of a conditional are read when no operand is open any more, and nothing bounds how many of them
stand inside one another (`not_bounded`).
-/

namespace Formula

namespace Expr

open Grammar

/-! ### Ways down a tree -/

/-- How the grammar comes to read a part of an expression. -/
inductive Slot where
  /-- Between brackets: in parentheses, as an item, a value of an object, an argument or a dimension. -/
  | bracketed
  /-- Behind a prefix operator, or in an exponent. -/
  | operand
  /-- As the value of an assignment, as the body of a function, or as a branch of a conditional. -/
  | branch
  /-- On the way through the levels of the grammar. -/
  | part
deriving DecidableEq, Repr

/-- Whether the grammar starts from its loosest level, or at an operand, once more. -/
def Slot.isEntered (slot : Slot) : Bool :=
  slot != .part

/-- Whether the grammar counts an operand around what it reads. -/
def Slot.deepens : Slot → Bool
  | .bracketed | .operand => true
  | .branch | .part => false

/-- The children of a node, each with how it is read. -/
def slots : Expr → List (Slot × Expr)
  | .constant .. | .symbol _ => []
  | .operation _ function [e] _ => [(if groupsRight function then .operand else .part, e)]
  | .operation _ function [left, right] _ =>
    [(.part, left), (if groupsRight function then .operand else .part, right)]
  | .operation _ _ operands _ => operands.map (.part, ·)
  | .call callee args => (.part, callee) :: args.map (.bracketed, ·)
  | .range start stop none => [(.part, start), (.part, stop)]
  | .range start stop (some step) => [(.part, start), (.part, stop), (.part, step)]
  | .conditional condition yes no => [(.part, condition), (.branch, yes), (.branch, no)]
  | .assignment target none value => [(.part, target), (.branch, value)]
  | .assignment target (some part) value => [(.part, target), (.part, part), (.branch, value)]
  | .definition _ _ body => [(.branch, body)]
  | .block entries => entries.map fun entry => (.part, entry.body)
  | .array items => items.map (.bracketed, ·)
  | .object properties => properties.map fun p => (.bracketed, p.2)
  | .parenthesis e => [(.bracketed, e)]
  | .index dimensions _ => dimensions.map (.bracketed, ·)
  | .access target part => [(.part, target), (.part, part)]
  | .comparison _ operands => operands.map (.part, ·)

theorem map_snd_slots (e : Expr) : e.slots.map (·.2) = e.children.map (·.2) := by
  cases e with
  | operation _ _ operands _ =>
      rw [children, map_snd_itemChildren]
      rcases operands with _ | ⟨_, _ | ⟨_, _ | ⟨_, _⟩⟩⟩ <;> simp [slots]
  | range _ _ step => cases step <;> rfl
  | assignment _ part _ => cases part <;> rfl
  | block entries =>
      rw [map_snd_children_block]
      simp [slots]
  | object properties =>
      rw [map_snd_children_object]
      simp [slots]
  | array | call | index | comparison => simp [slots, children]
  | _ => rfl

/-- A way down from an expression to one of its nodes. -/
inductive Descent : Expr → List Slot → Expr → Prop
  | here (e : Expr) : Descent e [] e
  | into {e child leaf : Expr} {slot : Slot} {path : List Slot} (h : (slot, child) ∈ e.slots)
      (down : Descent child path leaf) : Descent e (slot :: path) leaf

/-- Whether no way down from an expression is deepened more often than a bound says. -/
def Within (bound : Nat) (e : Expr) : Prop :=
  ∀ path leaf, Descent e path leaf → path.countP Slot.deepens ≤ bound

theorem Within.of_slots {bound : Nat} {e : Expr}
    (h : ∀ p ∈ e.slots, ∃ k, p.2.Within k ∧ k + p.1.deepens.toNat ≤ bound) : e.Within bound := by
  intro path leaf down
  cases down with
  | here => exact Nat.zero_le _
  | @into _ child _ slot path hslot down =>
      obtain ⟨k, hk, hbound⟩ := h _ hslot
      have := hk _ _ down
      rw [List.countP_cons]
      cases hdeepens : slot.deepens <;> simp [hdeepens] at hbound ⊢ <;> omega

theorem Within.slot {bound : Nat} {e : Expr} (h : e.Within bound) : ∀ p ∈ e.slots, p.2.Within bound := by
  intro p hp path leaf down
  refine Nat.le_trans ?_ (h _ _ (.into hp down))
  rw [List.countP_cons]
  exact Nat.le_add_right _ _

theorem Everywhere.slot {P : Expr → Prop} {e : Expr} (h : e.Everywhere P) :
    ∀ p ∈ e.slots, p.2.Everywhere P := by
  intro p hp
  refine h.child p.2 ?_
  rw [← map_snd_slots]
  exact List.mem_map_of_mem hp

/-- No range opens what stands in front of the brackets or the operator of a node. -/
def Founded : Expr → Prop
  | .call callee _ => callee.opensRange = false
  | .access owner _ | .assignment owner (some _) _ => owner.opensRange = false
  | .operation _ _ [left, _] _ => left.opensRange = false
  | _ => True

/-- What is legible is founded at every node. -/
theorem Legible.everywhere_founded {f : Bool} {e : Expr} (h : Legible f e) : e.Everywhere Founded := by
  have leaf : ∀ {e : Expr}, e.children = [] → Founded e → e.Everywhere Founded := by
    intro e hchildren here
    refine .node here ?_
    rw [hchildren]
    nofun
  have pair : ∀ {spelling function : String} {left right : Expr} {juxtaposed : Bool},
      left.opensRange = false → left.Everywhere Founded → right.Everywhere Founded →
      (Expr.operation spelling function [left, right] juxtaposed).Everywhere Founded := by
    intro spelling function left right juxtaposed hleft ihleft ihright
    exact .node hleft (by simp [children, ihleft, ihright])
  induction h with
  | number | string | word => exact leaf rfl trivial
  | name _ he =>
      obtain ⟨_, _, h, _⟩ | h := ofName_cases (_ : String)
      · rw [← he, h]
        exact leaf rfl trivial
      · rw [← he, h]
        exact leaf rfl trivial
  | parenthesis _ ih => exact .node trivial (by simp [children, ih])
  | array _ ih => exact .node trivial (by simpa [children] using ih)
  | object _ _ ih =>
      refine .node trivial ?_
      rw [map_snd_children_object, List.forall_mem_map]
      exact ih
  | call hcallee callable _ ihcallee ih =>
      have level := level_of_callable (f := false) callable
      refine .node (hcallee.opensRange_eq_false (by omega)) ?_
      simpa [children, ihcallee] using ih
  | index howner level _ ihowner ih =>
      refine .node (howner.opensRange_eq_false (by omega)) ?_
      have hindex : (Expr.index _ false).Everywhere Founded :=
        .node trivial (by simpa [children] using ih)
      simp [children, ihowner, hindex]
  | property howner level _ ihowner =>
      refine .node (howner.opensRange_eq_false (by omega)) ?_
      have hpart : ∀ name, (Expr.property name).Everywhere Founded := by
        intro name
        refine .node trivial ?_
        rw [Expr.property, children, map_snd_itemChildren, List.forall_mem_singleton]
        exact leaf rfl trivial
      simp [children, ihowner, hpart]
  | postfixed _ _ _ ih | prefixed _ _ _ ih => exact .node trivial (by simp [children, ih])
  | power _ _ hleft level _ _ ihleft ih =>
      exact pair (hleft.opensRange_eq_false (by omega)) ihleft ih
  | fraction hfraction hleft _ ihleft ih =>
      obtain ⟨hnumeral, _⟩ := Bool.and_eq_true_iff.1 hfraction
      have := level_of_isNumeral hleft hnumeral
      exact pair (hleft.opensRange_eq_false (by omega)) ihleft ih
  | juxtaposition hleft level _ _ _ _ ihleft ih =>
      exact pair (hleft.opensRange_eq_false (by omega)) ihleft ih
  | binary hop weak hleft level _ _ _ ihleft ih =>
      refine pair (hleft.opensRange_eq_false ?_) ihleft ih
      obtain ⟨_, hop⟩ | ⟨_, _, hop, _⟩ := Operator.level_of_binary hop
      · omega
      · split at level <;> omega
  | comparison _ _ _ _ _ _ _ ih ihlast =>
      refine .node trivial ?_
      simpa [children, or_imp, forall_and, ihlast] using ih
  | range _ _ _ _ ihstart ihstop => exact .node trivial (by simp [children, ihstart, ihstop])
  | steppedRange _ _ _ _ _ _ ihstart ihstep ihstop =>
      exact .node trivial (by simp [children, ihstart, ihstep, ihstop])
  | conditional _ _ _ _ _ ihcondition ihyes ihno =>
      exact .node trivial (by simp [children, ihcondition, ihyes, ihno])
  | assigned he _ _ ihtarget ihvalue =>
      obtain ⟨_, rfl, rfl⟩ | ⟨_, _, rfl, rfl⟩ | ⟨_, _, rfl, rfl⟩ := Expr.assign_eq_ok he
      · exact .node trivial (by simp [children, ihtarget, ihvalue])
      · have hparts := ihtarget.child
        simp only [children, List.map_cons, List.map_nil, List.forall_mem_cons] at hparts
        exact .node ihtarget.here (by simp [children, hparts, ihvalue])
      · exact .node trivial (by simp [children, ihvalue])

end Expr

/-! ### What tokens spell -/

namespace Grammar

open Expr (Within Founded)

/-- How often ways down may be deepened behind so many operands: twice for each operand that may still
follow, since the items of a matrix are in the brackets of their row as well. -/
def room (d : Nat) : Nat :=
  2 * (maxDepth - d)

/-- Whether no way down from a founded expression is deepened more often than a bound says. -/
def Fits (bound : Nat) (e : Expr) : Prop :=
  e.Everywhere Founded → e.Within bound

/-- Whether the expressions of a phrase fit behind so many operands. -/
abbrev Phrase.Fits (d : Nat) : Phrase → Prop
  | .expression e _ | .start e | .stop e _ => Grammar.Fits (room d) e
  | .chain _ es | .items es _ => ∀ e ∈ es, Grammar.Fits (room d) e
  | .list _ _ es => ∀ e ∈ es, Grammar.Fits (room (d + 1)) e
  | .rows rs _ => ∀ row ∈ rs, ∀ e ∈ row, Grammar.Fits (room d) e
  | .properties ps => ∀ p ∈ ps, Grammar.Fits (room d) p.2

namespace Fits

variable {d bound : Nat} {e : Expr}

theorem mono {bound' : Nat} (h : Fits bound e) (hle : bound ≤ bound') : Fits bound' e :=
  fun founded path leaf down => Nat.le_trans (h founded path leaf down) hle

/-- A node has as much room as its children if it deepens no way to them. -/
theorem of_level (h : ∀ p ∈ e.slots, p.1.deepens = false ∧ Fits bound p.2) : Fits bound e := by
  intro founded
  refine .of_slots fun p hp => ?_
  obtain ⟨hflat, hfits⟩ := h p hp
  exact ⟨bound, hfits (founded.slot p hp), by simp [hflat]⟩

theorem of_leaf (h : e.slots = []) : Fits bound e := by
  refine of_level ?_
  rw [h]
  nofun

/-- A node takes one step from its children, whatever it does. -/
theorem of_children (h : ∀ p ∈ e.slots, Fits bound p.2) : Fits (bound + 1) e := by
  intro founded
  refine .of_slots fun p hp => ?_
  exact ⟨bound, h p hp (founded.slot p hp), Nat.add_le_add_left (Bool.toNat_le _) _⟩

/-- If an operand may follow, two steps more may. -/
theorem of_deep (deep : Founded e → d < maxDepth)
    (h : ∀ p ∈ e.slots, Fits (room (d + 1) + 1) p.2 ∨ p.1.deepens = false ∧ Fits (room d) p.2) :
    Fits (room d) e := by
  intro founded
  have := deep founded.here
  refine .of_slots fun p hp => ?_
  obtain hfits | ⟨hflat, hfits⟩ := h p hp
  · refine ⟨_, hfits (founded.slot p hp), ?_⟩
    have := Bool.toNat_le p.1.deepens
    unfold room
    omega
  · exact ⟨_, hfits (founded.slot p hp), by simp [hflat]⟩

end Fits

/-- An array has the items of its row, or its rows for items. -/
theorem exists_ofRows {position : Nat} {rows : List (List Expr)} {e : Expr}
    (h : ofRows position rows = .ok e) :
    (∃ row ∈ rows, e = .array row) ∨ e = .array (rows.map .array) := by
  unfold ofRows at h
  split at h
  · cases h
    exact .inl ⟨_, List.mem_singleton_self _, rfl⟩
  · dsimp only at h
    split at h
    · cases h
    · cases h
      exact .inr rfl

/-- Operators that are not stronger than a factor group to the left. -/
theorem groupsRight_of_level {op : Operator} (h : op.level ≤ 12 ∨ op.level = 17) :
    Expr.groupsRight op.name = false := by
  rw [Expr.groupsRight_name]
  revert h
  cases op <;> decide

theorem Spells.fits {n d : Nat} {tokens : List Token} {phrase : Phrase} (h : Spells n d tokens phrase) :
    phrase.Fits d := by
  have inner : ∀ {d : Nat} {e : Expr}, Fits (room d) e → Fits (room d + 1) e :=
    fun h => h.mono (by omega)
  induction h with
  | number | string | word | emptyArray | noStart | noStop => exact Fits.of_leaf rfl
  | name _ _ _ he =>
      obtain ⟨_, _, h, _⟩ | h := ofName_cases (_ : Token).text
      · rw [← he, h]
        exact Fits.of_leaf rfl
      · rw [← he, h]
        exact Fits.of_leaf rfl
  | parenthesis deep _ _ _ _ _ ih => exact Fits.of_deep (fun _ => deep) (by simp [Expr.slots, inner ih])
  | array deep _ _ _ he _ _ ih =>
      refine Fits.of_deep (fun _ => deep) ?_
      obtain ⟨row, hrow, rfl⟩ | rfl := exists_ofRows (he 0)
      · simp only [Expr.slots, List.forall_mem_map]
        exact fun e he => .inl (inner (ih row hrow e he))
      · simp only [Expr.slots, List.forall_mem_map]
        intro row hrow
        refine .inl (.of_children ?_)
        simp only [Expr.slots, List.forall_mem_map]
        exact ih row hrow
  | object deep _ _ _ _ _ ih =>
      refine Fits.of_deep (fun _ => deep) ?_
      simp only [Expr.slots, List.forall_mem_map]
      exact fun p hp => .inl (inner (forall_snd_ofList ih p hp))
  | call hcallee _ _ ihcallee ih =>
      refine Fits.of_deep (hcallee.deep _ rfl) ?_
      simp only [Expr.slots, List.forall_mem_cons, List.forall_mem_map]
      exact ⟨.inr ⟨rfl, ihcallee⟩, fun e he => .inl (inner (ih e he))⟩
  | index howner _ ihowner ih =>
      refine Fits.of_deep (howner.deep _ rfl) ?_
      have hindex : Fits _ (.index _ false) := Fits.of_children (List.forall_mem_map.2 ih)
      simp [Expr.slots, Expr.Slot.deepens, ihowner, hindex]
  | property howner _ _ _ _ ihowner =>
      refine Fits.of_deep (howner.deep _ rfl) ?_
      have hname : ∀ {bound : Nat} {name : String}, Fits (bound + 1) (.property name) :=
        Fits.of_children (List.forall_mem_singleton.2 (.of_leaf rfl))
      simp [Expr.slots, Expr.Slot.deepens, ihowner, hname]
  | postfixed _ _ hop _ ih =>
      have hflat := groupsRight_of_level (.inr (Operator.level_of_trailing hop))
      exact Fits.of_level (by simp [Expr.slots, hflat, Expr.Slot.deepens, ih])
  | power hleft _ _ _ _ _ ihleft ih =>
      exact Fits.of_deep (hleft.deep _ rfl) (by simp [Expr.slots, Expr.Slot.deepens, ihleft, inner ih])
  | prefixed deep _ _ _ _ ih => exact Fits.of_deep (fun _ => deep) (by simp [Expr.slots, inner ih])
  | juxtaposition _ _ ihleft ih =>
      have hflat : Expr.groupsRight Operator.multiply.name = false := groupsRight_of_level (by decide)
      exact Fits.of_level (by simp [Expr.slots, Expr.juxtapose, hflat, Expr.Slot.deepens, ihleft, ih])
  | binary _ _ _ weak _ _ ihleft ih =>
      have hflat := groupsRight_of_level (.inl weak)
      exact Fits.of_level (by simp [Expr.slots, hflat, Expr.Slot.deepens, ihleft, ih])
  | operand _ ih | item _ ih | row _ ih => exact List.forall_mem_singleton.2 ih
  | comparing _ _ _ _ _ ihleft ih => exact List.forall_mem_cons.2 ⟨ihleft, ih⟩
  | comparison _ _ ih =>
      refine Fits.of_level ?_
      simp only [Expr.slots, List.forall_mem_map]
      exact fun e he => ⟨rfl, ih e he⟩
  | start _ ih | stop _ ih | list _ _ _ _ _ ih => exact ih
  | range _ _ _ _ ihstart ihstop =>
      exact Fits.of_level (by simp [Expr.slots, Expr.Slot.deepens, ihstart, ihstop])
  | steppedRange _ _ _ _ _ _ _ ihstart ihstep ihstop =>
      exact Fits.of_level (by simp [Expr.slots, Expr.Slot.deepens, ihstart, ihstep, ihstop])
  | conditional _ _ _ _ _ _ _ ihcondition ihyes ihno =>
      exact Fits.of_level (by simp [Expr.slots, Expr.Slot.deepens, ihcondition, ihyes, ihno])
  | assigned _ _ _ _ he ihtarget ihvalue =>
      obtain ⟨_, rfl, rfl⟩ | ⟨object, part, rfl, rfl⟩ | ⟨_, _, rfl, rfl⟩ := Expr.assign_eq_ok he
      · exact Fits.of_level (by simp [Expr.slots, Expr.Slot.deepens, ihtarget, ihvalue])
      · intro founded
        have hslots := founded.slot
        simp only [Expr.slots, List.forall_mem_cons] at hslots
        obtain ⟨hobject, hpart, hvalue, _⟩ := hslots
        -- The parts of the target are those of an access that is no node of the tree.
        have target := ihtarget (.node founded.here (by simp [Expr.children, hobject, hpart]))
        have hparts := target.slot
        simp only [Expr.slots, List.forall_mem_cons] at hparts
        refine Fits.of_level ?_ founded
        simpa [Expr.slots, Expr.Slot.deepens, Fits, hparts] using ihvalue
      · exact Fits.of_level (by simp [Expr.slots, Expr.Slot.deepens, ihvalue])
  | items _ _ _ _ ih ihmore | rows _ _ _ _ ih ihmore => exact List.forall_mem_cons.2 ⟨ih, ihmore⟩
  | emptyList | noProperties => exact List.forall_mem_nil _
  | lastProperty _ _ _ _ _ _ ih => exact List.forall_mem_singleton.2 ih
  | properties _ _ _ _ _ _ _ _ _ ih ihmore => exact List.forall_mem_cons.2 ⟨ih, ihmore⟩

/-! ### What sources are read as -/

theorem Reads.within {tokens rest : List Token} {e : Expr} (h : Reads 0 {} tokens e rest) :
    e.Within (2 * maxDepth) := by
  obtain ⟨front, g, _, hspells, _⟩ := h.spelled
  exact hspells.fits h.legible.everywhere_founded

theorem Statements.within {tokens : List Token} {entries : List (Entry Expr)}
    (h : Statements entries tokens) : ∀ entry ∈ entries, entry.body.Within (2 * maxDepth) := by
  induction h with
  | stop => nofun
  | separator _ _ ih => exact ih
  | last h => exact List.forall_mem_singleton.2 h.within
  | cons h _ _ ih => exact List.forall_mem_cons.2 ⟨h.within, ih⟩

theorem within_block {bound : Nat} {entries : List (Entry Expr)}
    (h : ∀ entry ∈ entries, entry.body.Within bound) : (Expr.block entries).Within bound := by
  refine .of_slots ?_
  simp only [Expr.slots, List.forall_mem_map]
  exact fun entry hentry => ⟨bound, h entry hentry, Nat.le_refl _⟩

theorem Sourced.within {tokens : List Token} {e : Expr} (h : Sourced e tokens) :
    e.Within (2 * maxDepth) := by
  have absent : Expr.undefined.Within (2 * maxDepth) := .of_slots nofun
  cases h with
  | none => exact absent
  | one h => exact h.within
  | @separator _ _ entries _ more =>
      cases entries with
      | nil => exact absent
      | cons => exact ofEntries_cons ▸ within_block more.within
  | many h _ more => exact within_block (List.forall_mem_cons.2 ⟨h.within, more.within⟩)

end Grammar

namespace Expr

open Grammar

/-- What is entered is a step deeper or a branch. -/
theorem countP_isEntered (path : List Slot) :
    path.countP Slot.isEntered = path.countP Slot.deepens + path.count .branch := by
  induction path with
  | nil => rfl
  | cons slot path ih =>
      rw [List.countP_cons, List.countP_cons, List.count_cons, ih]
      cases slot <;> simp [Slot.isEntered, Slot.deepens] <;> omega

/-- Apart from values, bodies and branches, a way down the tree of a source passes no more places that
the grammar enters than twice the deepest nesting of operands. -/
theorem entered_le_of_parse {source : String} {e leaf : Expr} {path : List Slot}
    (h : parse source = .ok e) (down : Descent e path leaf) :
    path.countP Slot.isEntered ≤ 2 * maxDepth + path.count .branch := by
  have hdeepens : path.countP Slot.deepens ≤ 2 * maxDepth :=
    (ofTokens_sound (ready_scan source) h).within path leaf down
  rw [countP_isEntered]
  omega

/-- An argument with an exponent behind a sign, which is a matrix of two rows. -/
theorem entered_le_nested : ∃ e path leaf, parse "x = f(-a ^ [1; 2])" = .ok e ∧ Descent e path leaf ∧
    path.countP Slot.isEntered = 6 ∧ path.countP Slot.isEntered ≤ 2 * maxDepth + path.count .branch := by
  let rows := Expr.array [.array [.number "1"], .array [.number "2"]]
  let power := Expr.apply .pow [.symbol "a", rows]
  let sign := Expr.apply .unaryMinus [power]
  let called := Expr.call (.symbol "f") [sign]
  have source : parse "x = f(-a ^ [1; 2])" = .ok (.assignment (.symbol "x") none called) := by
    decide +kernel
  have down : Descent (.assignment (.symbol "x") none called)
      [.branch, .bracketed, .operand, .operand, .bracketed, .bracketed] (.number "2") := by
    have row : Descent (.array [.number "2"]) [.bracketed] (.number "2") :=
      .into (by simp [slots]) (.here _)
    have matrix : Descent rows (.bracketed :: _) (.number "2") := .into (by simp [slots, rows]) row
    have exponent : Descent power (.operand :: _) (.number "2") :=
      .into (by simp [slots, power, apply, Operator.associativity]) matrix
    have operand : Descent sign (.operand :: _) (.number "2") :=
      .into (by simp [slots, sign, apply, Operator.associativity]) exponent
    have argument : Descent called (.bracketed :: _) (.number "2") :=
      .into (by simp [slots, called]) operand
    exact .into (by simp [slots]) argument
  exact ⟨_, _, _, source, down, rfl, entered_le_of_parse source down⟩

/-! ### Values of assignments -/

/-- A name that is given its own value so many times. -/
def assignments : Nat → Expr
  | 0 => .symbol "a"
  | n + 1 => .assignment (.symbol "a") none (assignments n)

/-- `a = a = a`, with so many signs. -/
def assignmentsText : Nat → String
  | 0 => "a"
  | n + 1 => "a" ++ " = " ++ assignmentsText n

theorem assign_symbol (value : Expr) :
    assign (.symbol "a") value = .ok (.assignment (.symbol "a") none value) :=
  rfl

theorem tells_assignments (n : Nat) : Tells 0 0 (assignmentsText n) (assignments n) := by
  have name : Tells 0 0 "a" (.symbol "a") := tells_name (by decide) rfl
  induction n with
  | zero => exact name
  | succ n ih => exact tells_assigned name ih (assign_symbol _)

theorem legible_assignments (n : Nat) : Legible false (assignments n) := by
  have lexical : Token.isIdentifier "a" = true := rfl
  have name : Legible false (.symbol "a") := .name lexical rfl
  induction n with
  | zero => exact name
  | succ n ih => exact .assigned (assign_symbol _) name ih

theorem descent_assignments (n : Nat) :
    Descent (assignments n) (List.replicate n .branch) (.symbol "a") := by
  induction n with
  | zero => exact .here _
  | succ n ih => exact .into (by simp [assignments, slots]) ih

/-- No bound holds for all places that the grammar enters. -/
theorem not_bounded : ¬ ∃ bound, ∀ source e, parse source = .ok e →
    ∀ path leaf, Descent e path leaf → leaf.children = [] → path.countP Slot.isEntered ≤ bound := by
  rintro ⟨bound, h⟩
  have source := parse_of_tells (tells_assignments (bound + 1)) (legible_assignments (bound + 1))
  have bounded := h _ _ source _ _ (descent_assignments (bound + 1)) rfl
  have entered : (List.replicate (bound + 1) Slot.branch).countP Slot.isEntered = bound + 1 := by
    rw [List.countP_replicate]
    rfl
  omega

end Expr

end Formula
