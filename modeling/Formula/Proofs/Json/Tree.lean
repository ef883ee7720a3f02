import Formula.Expr.Json
import Formula.Proofs.WellFormed

/-!
Expressions as documents, and documents as expressions.

The document of a well-formed expression is read as that expression (`ofJson_toJson`), and whatever
is read from a document is well formed (`sound_of_ofJson`). So the document that an expression is
written as is the only one among all that are read as it which writing gives: its canonical form.
-/

namespace Formula.Expr

/-! ### From documents -/

section

variable {P : Expr → Prop} {owner key : String} {fields : List (String × Json)} {e : Expr}

/-- Whether all expressions that are read from parts of some fields have a property. -/
def ReadFrom (fields : List (String × Json)) (P : Expr → Prop) : Prop :=
  ∀ json e, sizeOf json < sizeOf fields → ofJson json = .ok e → P e

theorem ReadFrom.child (h : ReadFrom fields P)
    (hread : ∃ part, require owner fields key = .ok part ∧ ofJson part.1 = .ok e) : P e := by
  obtain ⟨part, _, hread⟩ := hread
  exact h part.1 e part.2 hread

theorem ReadFrom.childOption (h : ReadFrom fields P) {child : Option Expr}
    (hread : (match field? key fields with
      | none => Except.ok none
      | some ⟨.null, _⟩ => Except.ok none
      | some ⟨json, _⟩ => some <$> ofJson json) = .ok child) : ∀ e ∈ child, P e := by
  split at hread
  · cases hread
    rintro _ ⟨⟩
  · cases hread
    rintro _ ⟨⟩
  · next json hjson _ _ =>
      cases hchild : ofJson json with
      | error => rw [hchild] at hread; cases hread
      | ok e =>
          rw [hchild] at hread
          cases hread
          intro e' he'
          cases he'
          exact h json e hjson hchild

theorem ReadFrom.children (h : ReadFrom fields P) {es : List Expr}
    (hread : ∃ items, arrayField owner fields key = .ok items ∧
      items.1.attach.mapM (fun item => ofJson item.1) = .ok es) : ∀ e ∈ es, P e := by
  obtain ⟨items, _, hread⟩ := hread
  intro e he
  obtain ⟨item, _, hitem⟩ := exists_of_mapM_eq_ok hread e he
  exact h item.1 e (Nat.lt_trans (sizeOf_lt_of_mem item.2) items.2) hitem

theorem constant_of_constantField (h : constantField owner fields = .ok e) :
    ∃ value kind, e = .constant value kind := by
  rw [constantField] at h
  obtain ⟨name, _, h⟩ := bind_eq_ok_iff.1 h
  cases hkind : ConstantKind.ofName? name with
  | none =>
      rw [hkind] at h
      cases h
  | some kind =>
      rw [hkind] at h
      obtain ⟨_, _, h⟩ := bind_eq_ok_iff.1 h
      obtain ⟨part, _, h⟩ := bind_eq_ok_iff.1 h
      split at h
      · cases h
        exact ⟨_, _, rfl⟩
      · split at h
        · cases h
          exact ⟨_, _, rfl⟩
        · cases h
      · cases h

/-- The fields of an expression are those of its form, and its top node is checked. -/
theorem children_of_ofJson (h : ReadFrom fields P) (hread : ofJson (.object fields) = .ok e) :
    e.check = .ok () ∧ e.HasDistinctKeys ∧ ∀ child ∈ e.children.map (·.2), P child := by
  rw [ofJson] at hread
  obtain ⟨form, _, hread⟩ := bind_eq_ok_iff.1 hread
  obtain ⟨e', hparts, hread⟩ := bind_eq_ok_iff.1 hread
  obtain ⟨hcheck, rfl⟩ : e'.check = .ok () ∧ e' = e := by
    cases hcheck : e'.check with
    | error => rw [checked, hcheck] at hread; cases hread
    | ok => rw [checked, hcheck] at hread; cases hread; exact ⟨rfl, rfl⟩
  clear hread
  refine ⟨hcheck, ?_⟩
  cases form <;> simp only [bind_eq_ok_iff, pure, Except.pure, Except.ok.injEq] at hparts
  case constant =>
    obtain ⟨value, kind, rfl⟩ := constant_of_constantField hparts
    exact ⟨trivial, List.forall_mem_nil _⟩
  case symbol =>
    obtain ⟨name, _, rfl⟩ := hparts
    exact ⟨trivial, List.forall_mem_nil _⟩
  case operation =>
    obtain ⟨spelling, _, function, _, operands, hoperands, juxtaposed, _, rfl⟩ := hparts
    exact ⟨trivial, by simpa [children] using h.children hoperands⟩
  case call =>
    obtain ⟨callee, hcallee, args, hargs, rfl⟩ := hparts
    exact ⟨trivial, by simpa [children] using ⟨h.child hcallee, h.children hargs⟩⟩
  case range =>
    obtain ⟨start, hstart, stop, hstop, step, hstep, rfl⟩ := hparts
    have hstep := h.childOption hstep
    refine ⟨trivial, ?_⟩
    cases step with
    | none => simp [children, h.child hstart, h.child hstop]
    | some => simpa [children, h.child hstart, h.child hstop] using hstep
  case conditional =>
    obtain ⟨condition, hcondition, yes, hyes, no, hno, rfl⟩ := hparts
    exact ⟨trivial, by simpa [children] using ⟨h.child hcondition, h.child hyes, h.child hno⟩⟩
  case assignment =>
    obtain ⟨target, htarget, part, hpart, value, hvalue, rfl⟩ := hparts
    have hpart := h.childOption hpart
    refine ⟨trivial, ?_⟩
    cases part with
    | none => simp [children, h.child htarget, h.child hvalue]
    | some => simpa [children, h.child htarget, h.child hvalue] using hpart
  case definition =>
    obtain ⟨name, _, params, _, body, hbody, rfl⟩ := hparts
    exact ⟨trivial, by simpa [children] using h.child hbody⟩
  case block =>
    obtain ⟨items, _, entries, hentries, rfl⟩ := hparts
    refine ⟨trivial, ?_⟩
    rw [map_snd_children_block, List.forall_mem_map]
    intro entry hentry
    obtain ⟨item, _, hread⟩ := exists_of_mapM_eq_ok hentries entry hentry
    split at hread
    · next inner hinner _ =>
        obtain ⟨part, _, hread⟩ := bind_eq_ok_iff.1 hread
        obtain ⟨body, hbody, hread⟩ := bind_eq_ok_iff.1 hread
        obtain ⟨visible, _, hread⟩ := bind_eq_ok_iff.1 hread
        cases hread
        have hinner := sizeOf_lt_of_mem hinner
        rw [Json.object.sizeOf_spec] at hinner
        have hpart := part.2
        have hitems := items.2
        exact h part.1 body (by omega) hbody
    · cases hread
  case array =>
    obtain ⟨items, hitems, rfl⟩ := hparts
    exact ⟨trivial, by simpa [children] using h.children hitems⟩
  case object =>
    obtain ⟨entries, _, properties, hproperties, rfl⟩ := hparts
    refine ⟨Grammar.nodup_keys_ofList _, ?_⟩
    rw [map_snd_children_object, List.forall_mem_map]
    refine Grammar.forall_snd_ofList fun p hp => ?_
    obtain ⟨⟨q, hq⟩, _, hread⟩ := exists_of_mapM_eq_ok hproperties p hp
    obtain ⟨e, he, hread⟩ := bind_eq_ok_iff.1 hread
    cases hread
    exact h q.2 e (Nat.lt_trans (sizeOf_snd_lt_of_mem hq) entries.2) he
  case parenthesis =>
    obtain ⟨content, hcontent, rfl⟩ := hparts
    exact ⟨trivial, by simpa [children] using h.child hcontent⟩
  case index =>
    obtain ⟨dimensions, hdimensions, dotted, _, rfl⟩ := hparts
    exact ⟨trivial, by simpa [children] using h.children hdimensions⟩
  case access =>
    obtain ⟨target, htarget, part, hpart, rfl⟩ := hparts
    exact ⟨trivial, by simpa [children] using ⟨h.child htarget, h.child hpart⟩⟩
  case comparison =>
    obtain ⟨functions, _, operands, hoperands, rfl⟩ := hparts
    exact ⟨trivial, by simpa [children] using h.children hoperands⟩

end

/-- What is read from a document is in order everywhere. -/
theorem sound_of_ofJson {json : Json} {e : Expr} (h : ofJson json = .ok e) : e.Sound := by
  cases json with
  | object fields =>
      have smaller : ReadFrom fields Sound := fun part child hsize hchild => sound_of_ofJson hchild
      obtain ⟨hcheck, hkeys, hchildren⟩ := children_of_ofJson smaller h
      exact .node ⟨hcheck, hkeys⟩ hchildren
  | _ =>
      rw [ofJson] at h
      · cases h
      · simp
termination_by sizeOf json
decreasing_by
  rw [‹json = _›, Json.object.sizeOf_spec]
  omega

/-! ### To documents and back -/

/-- The form of a node is its first field. -/
theorem formField_node (form : Form) (fields : List (String × Json)) :
    formField (("type", .string form.name) :: fields) = .ok form := by
  simp [formField, field?]

theorem mapM_string {ε : Type} {f : Json → Except ε String} (h : ∀ s, f (.string s) = .ok s)
    (strings : List String) : (strings.map Json.string).mapM f = .ok strings :=
  mapM_map_eq_ok fun s _ => h s

theorem mapM_toJson {es : List Expr} (h : ∀ e ∈ es, ofJson e.toJson = .ok e) :
    (es.map fun e => e.toJson).mapM ofJson = .ok es :=
  mapM_map_eq_ok h

/-- The document of an expression is no null. -/
theorem exists_toJson (e : Expr) : ∃ fields, e.toJson = .object fields := by
  cases e with
  | range _ _ step => cases step <;> exact ⟨_, by rw [toJson, toJson.node]⟩
  | assignment _ part _ => cases part <;> exact ⟨_, by rw [toJson, toJson.node]⟩
  | _ => exact ⟨_, by rw [toJson, toJson.node]⟩

/-- A node is read back if its children are. -/
theorem ofJson_toJson_of_children {e : Expr} (hsound : e.IsSound)
    (h : ∀ child ∈ e.children.map (·.2), ofJson child.toJson = .ok child) :
      ofJson e.toJson = .ok e := by
  have hchecked : Except.mapError FormatError.shape e.checked = .ok e := by
    rw [checked, hsound.1]
    rfl
  cases e with
  | constant value kind =>
      rw [toJson, toJson.node, ofJson, formField_node]
      simpa [constantField, stringField, require, field?, bind, Except.bind] using hchecked
  | symbol =>
      rw [toJson, toJson.node, ofJson, formField_node]
      simpa [stringField, require, field?, bind, Except.bind, pure, Except.pure] using hchecked
  | operation spelling function operands juxtaposed =>
      have hoperands := mapM_toJson (by simpa [children] using h)
      rw [toJson, toJson.node, ofJson, formField_node]
      simpa [stringField, flagField, arrayField, require, field?, bind, Except.bind, pure,
        Except.pure, hoperands]
        using hchecked
  | call callee args =>
      simp only [children, List.map_cons, map_snd_itemChildren, List.forall_mem_cons] at h
      have hargs := mapM_toJson h.2
      rw [toJson, toJson.node, ofJson, formField_node]
      simpa [arrayField, require, field?, bind, Except.bind, pure, Except.pure, h.1,
        hargs] using hchecked
  | range start stop step =>
      cases step with
      | none =>
          obtain ⟨hstart, hstop⟩ :
            ofJson start.toJson = .ok start ∧ ofJson stop.toJson = .ok stop := by
            simpa [children] using h
          rw [toJson, toJson.node, ofJson, formField_node]
          simpa [require, field?, bind, Except.bind, pure, Except.pure, hstart,
            hstop] using hchecked
      | some step =>
          obtain ⟨hstart, hstop, hstep⟩ :
            ofJson start.toJson = .ok start ∧ ofJson stop.toJson = .ok stop ∧
              ofJson step.toJson = .ok step := by simpa [children] using h
          obtain ⟨fields, hfields⟩ := exists_toJson step
          rw [toJson, toJson.node, ofJson, formField_node]
          rw [hfields] at hstep ⊢
          simpa [require, field?, bind, Except.bind, pure, Except.pure, hstart, hstop,
            hstep] using hchecked
  | conditional condition yes no =>
      obtain ⟨hcondition, hyes, hno⟩ : ofJson condition.toJson = .ok condition ∧
        ofJson yes.toJson = .ok yes ∧
          ofJson no.toJson = .ok no := by simpa [children] using h
      rw [toJson, toJson.node, ofJson, formField_node]
      simpa [require, field?, bind, Except.bind, pure, Except.pure, hcondition, hyes,
        hno] using hchecked
  | assignment target part value =>
      cases part with
      | none =>
          obtain ⟨htarget, hvalue⟩ :
            ofJson target.toJson = .ok target ∧ ofJson value.toJson = .ok value := by
            simpa [children] using h
          rw [toJson, toJson.node, ofJson, formField_node]
          simpa [require, field?, bind, Except.bind, pure, Except.pure, htarget,
            hvalue] using hchecked
      | some part =>
          obtain ⟨htarget, hpart, hvalue⟩ :
            ofJson target.toJson = .ok target ∧ ofJson part.toJson = .ok part ∧
              ofJson value.toJson = .ok value := by simpa [children] using h
          obtain ⟨fields, hfields⟩ := exists_toJson part
          rw [toJson, toJson.node, ofJson, formField_node]
          rw [hfields] at hpart ⊢
          simpa [require, field?, bind, Except.bind, pure, Except.pure, htarget, hpart,
            hvalue] using hchecked
  | definition name params body =>
      have hbody : ofJson body.toJson = .ok body := by simpa [children] using h
      rw [toJson, toJson.node, ofJson, formField_node]
      simpa [stringField, stringsField, arrayField, require, field?, bind, Except.bind, pure,
        Except.pure, hbody, mapM_string, -List.mapM_map] using hchecked
  | block entries =>
      rw [map_snd_children_block, List.forall_mem_map] at h
      rw [toJson, toJson.node, ofJson, formField_node]
      simp only [bind, Except.bind, arrayField, require, field?, String.reduceEq, reduceIte,
        Option.map_some, flagField, pure, Except.pure]
      rw [mapM_attach_map_eq_ok fun entry hentry => by simp [field?, h entry hentry]]
      exact hchecked
  | array items =>
      have hitems := mapM_toJson (by simpa [children] using h)
      rw [toJson, toJson.node, ofJson, formField_node]
      simpa [arrayField, require, field?, bind, Except.bind, pure, Except.pure,
        hitems] using hchecked
  | object properties => 
      rw [map_snd_children_object, List.forall_mem_map] at h
      rw [toJson, toJson.node, ofJson, formField_node]
      simp only [bind, Except.bind, objectField, require, field?, String.reduceEq, reduceIte,
        Option.map_some, pure, Except.pure]
      rw [mapM_attach_map_eq_ok fun p hp => by simp [h p hp]]
      dsimp only
      rw [Record.ofList_eq_self hsound.2]
      exact hchecked
  | parenthesis content =>
      have hcontent : ofJson content.toJson = .ok content := by simpa [children] using h
      rw [toJson, toJson.node, ofJson, formField_node]
      simpa [require, field?, bind, Except.bind, pure, Except.pure, hcontent] using hchecked
  | index dimensions dotted =>
      have hdimensions := mapM_toJson (by simpa [children] using h)
      rw [toJson, toJson.node, ofJson, formField_node]
      simpa [flagField, arrayField, require, field?, bind, Except.bind, pure, Except.pure,
        hdimensions]
        using hchecked
  | access target part =>
      obtain ⟨htarget, hpart⟩ :
        ofJson target.toJson = .ok target ∧ ofJson part.toJson = .ok part := by
        simpa [children] using h
      rw [toJson, toJson.node, ofJson, formField_node]
      simpa [require, field?, bind, Except.bind, pure, Except.pure, htarget, hpart] using hchecked
  | comparison functions operands =>
      have hoperands := mapM_toJson (by simpa [children] using h)
      rw [toJson, toJson.node, ofJson, formField_node]
      simpa [stringsField, arrayField, require, field?, bind, Except.bind, pure, Except.pure,
        hoperands, mapM_string, -List.mapM_map] using hchecked
/-- The document of an expression is read as that expression. -/
theorem ofJson_toJson {e : Expr} (h : e.Sound) : ofJson e.toJson = .ok e := by
  induction h with
  | node sound _ ih => exact ofJson_toJson_of_children sound ih

/-- Writing an expression as a document and reading documents are faithful to one another:
well-formed expressions are read back, only well-formed expressions are read, and of all documents
that are read as an expression one is what it is written as. -/
theorem json_faithful :
    (∀ e : Expr, e.WellFormed → e.DistinctKeys → ofJson e.toJson = .ok e) ∧
      ∀ json e, ofJson json = .ok e → e.WellFormed ∧ e.DistinctKeys ∧ ofJson e.toJson = .ok e ∧
        ∀ json' e', ofJson json' = .ok e' → (e'.toJson = e.toJson ↔ e' = e) := by
  refine ⟨fun e hwellFormed hkeys => ofJson_toJson (sound_iff.2 ⟨hwellFormed, hkeys⟩),
    fun json e h => ?_⟩
  have hsound := sound_of_ofJson h
  refine ⟨hsound.wellFormed, hsound.distinctKeys, ofJson_toJson hsound, fun json' e' h' => ?_⟩
  refine ⟨fun heq => ?_, fun heq => by rw [heq]⟩
  have hback := ofJson_toJson (sound_of_ofJson h')
  rw [heq, ofJson_toJson hsound] at hback
  exact (Except.ok.inj hback).symm

/-- An object whose keys are in no order, and a range given with a number, a null and a comment. -/
theorem json_faithful_unordered :
    let object : Expr :=
      .object [("b", .index [.string "k"] true), ("a", .range (.symbol "x") (.symbol "y") none)]
    let symbol : Json := .object [("name", .string "x"), ("type", .string "SymbolNode")]
    let one : Json :=
      .object [("type", .string "ConstantNode"), ("valueType", .string "number"), ("value", .nat 1)]
    let range : Json := .object [("comment", .bool true), ("type", .string "RangeNode"),
      ("start", one), ("step", .null), ("end", symbol)]
    ofJson object.toJson = .ok object ∧
      ofJson range = .ok (.range (.number "1") (.symbol "x") none) ∧
      ofJson (Expr.range (.number "1") (.symbol "x") none).toJson
        = .ok (.range (.number "1") (.symbol "x") none) := by
  intro object symbol one range
  have hobject : object.Sound := by
    refine .node ⟨rfl, show List.Nodup ["b", "a"] by decide⟩ ?_
    rw [map_snd_children_object]
    have hsymbol : ∀ name, (Expr.symbol name).Sound := fun _ => .leaf rfl ⟨rfl, trivial⟩
    have hstring : (Expr.string "k").Sound := .leaf rfl ⟨rfl, trivial⟩
    refine List.forall_mem_cons.2 ⟨.node ⟨rfl, trivial⟩ ?_,
      List.forall_mem_singleton.2 (.node ⟨rfl, trivial⟩ ?_)⟩
    · exact List.forall_mem_singleton.2 hstring
    · exact List.forall_mem_cons.2 ⟨hsymbol "x", List.forall_mem_singleton.2 (hsymbol "y")⟩
  have hsymbol : ofJson symbol = .ok (.symbol "x") := by
    rw [ofJson]
    rfl
  have hone : ofJson one = .ok (.number "1") := by
    rw [ofJson]
    rfl
  have hrange : ofJson range = .ok (.range (.number "1") (.symbol "x") none) := by
    have hform : Form.ofName? "RangeNode" = some .range := Form.ofName?_name .range
    simp [range, ofJson, formField, hform, require, field?, bind, Except.bind, pure, Except.pure,
      hsymbol, hone, checked, check, Except.map, Except.mapError]
  exact ⟨json_faithful.1 object hobject.wellFormed hobject.distinctKeys, hrange,
    (json_faithful.2 range _ hrange).2.2.1⟩

end Formula.Expr
