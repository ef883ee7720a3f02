import Formula.Proofs.Catalog.Standard
import Formula.Proofs.Sizes.Replacement

/-!
Sizes, and literals that have their values.

The dimensions of an index are evaluated one after another, and those that mention the size in a frame of
their own in which it is bound (`sizedContext_eq`). With literals in its place they are evaluated where
the access stands, so that the stores of both sides are laid out differently: what one dimension keeps up
(`sizedContext_goes`, `sizedContext_goes_extra`), all dimensions do (`run_sizedDimensions`), and so does
the access to a part of an array (`withLiterals_evaluates`). It fails if something is bound in a
dimension that mentions the size, since that frame is dropped (`not_evaluatesWithLiterals`).
-/

namespace Formula

/-- Whether a store is one that evaluations leave: frames lie above older ones, and functions keep
frames that there are. Nor does the body of a function mention the size of what is indexed where it is
called. -/
structure Store.Settled (s : Store) : Prop where
  parents : ∀ frame parent, s.parent? frame = some parent → parent < frame
  captures : ∀ (i : Nat) (body : Code) (captured : Captured),
    s.functions[i]? = some (.defined body captured) →
    ∃ frame < s.frames.size, captured = .root frame ∨ captured = .frame frame
  bodies : ∀ (i : Nat) (body : Code) (captured : Captured),
    s.functions[i]? = some (.defined body captured) → Code.Similar Code.sizes .plain body body

namespace Code

open Expr Evaluation Store
open Simulation (andThen bind_goes done result ask update)

/-! ### The same store on both sides -/

/-- Every frame is a frame of the other side too, by the same number. -/
def sameFrames (count : Nat) : List Slot :=
  (List.range count).map fun frame => .shared frame .plain

theorem getElem?_sameFrames {count frame : Nat} {x : Slot} :
    (sameFrames count)[frame]? = some x ↔ frame < count ∧ .shared frame .plain = x := by
  simp [sameFrames, List.getElem?_eq_some_iff]

/-- A store is laid out as itself. -/
theorem Layout.refl {top : Nat} {s : Store} (h : s.Settled) :
    Layout top (sameFrames s.frames.size) s s := by
  constructor
  case length => simp [sameFrames]
  case bounded =>
    intro frame frame' k hframe
    obtain ⟨hlt, ⟨⟩⟩ := getElem?_sameFrames.1 hframe
    exact hlt
  case mono =>
    intro frame frame' other other' k l hframe hother
    obtain ⟨_, ⟨⟩⟩ := getElem?_sameFrames.1 hframe
    obtain ⟨_, ⟨⟩⟩ := getElem?_sameFrames.1 hother
    exact .rfl
  case bindings =>
    intro frame frame' k hframe
    obtain ⟨_, ⟨⟩⟩ := getElem?_sameFrames.1 hframe
    rfl
  case knows =>
    intro frame frame' k hframe
    obtain ⟨_, ⟨⟩⟩ := getElem?_sameFrames.1 hframe
    trivial
  case root =>
    intro frame frame' k hframe hroot
    obtain ⟨_, ⟨⟩⟩ := getElem?_sameFrames.1 hframe
    exact hroot
  case parent =>
    intro frame frame' parent k hframe hparent
    obtain ⟨hlt, ⟨⟩⟩ := getElem?_sameFrames.1 hframe
    have hparent' := h.parents frame parent hparent
    exact ⟨hparent', parent, .plain, hparent, hparent',
      .shared (getElem?_sameFrames.2 ⟨hparent'.trans hlt, rfl⟩)⟩
  case extra =>
    intro frame v hframe
    obtain ⟨_, ⟨⟩⟩ := getElem?_sameFrames.1 hframe
  case functions => rfl
  case closures =>
    intro i
    cases hclosure : s.functions[i]? with
    | none => exact .none
    | some closure =>
        cases closure with
        | host rule => exact .host rule
        | defined body captured =>
            refine .defined (h.bodies i body captured hclosure) ?_
            obtain ⟨frame, hlt, rfl | rfl⟩ := h.captures i body captured hclosure
            · exact .root (getElem?_sameFrames.2 ⟨hlt, rfl⟩)
            · exact .frame (getElem?_sameFrames.2 ⟨hlt, rfl⟩)

/-- A context of frames that there are is abreast of itself. -/
theorem Abreast.refl {s : Store} {ctx : Context} (frame : ctx.frame < s.frames.size)
    (frames : ∀ frame ∈ ctx.frames, frame < s.frames.size) :
    Abreast ctx.frame .plain (sameFrames s.frames.size) ctx ctx := by
  have leads : ∀ other < s.frames.size,
      Leads ctx.frame (sameFrames s.frames.size) .plain other other :=
    fun other hlt => .shared (getElem?_sameFrames.2 ⟨hlt, rfl⟩)
  exact ⟨leads _ frame, ⟨fun other h => ⟨other, h, _, leads other (frames other h)⟩,
    fun other h => ⟨other, h, _, leads other (frames other h)⟩⟩, rfl⟩

/-! ### Dimensions -/

/-- A dimension of a given extent, and one in which a literal has it. -/
inductive SizedDimension (x : Float) : Dimension Code → Dimension Code → Prop
  | same {code code' : Code} {sized : Bool} (h : Similar sizes (sizes.dimension .plain sized) code code') :
      SizedDimension x ⟨code, sized⟩ ⟨code', sized⟩
  | literal {code code' : Code} (sized' : Bool) (h : Similar sizes (.sized (.number x)) code code') :
      SizedDimension x ⟨code, true⟩ ⟨code', sized'⟩

/-- The dimensions of an index of something of given extents, and those in which literals have them. -/
inductive SizedDimensions : List Float → List (Dimension Code) → List (Dimension Code) → Prop
  | nil {xs : List Float} : SizedDimensions xs [] []
  | cons {x : Float} {xs : List Float} {d d' : Dimension Code}
      {dimensions dimensions' : List (Dimension Code)} (h : SizedDimension x d d')
      (hs : SizedDimensions xs dimensions dimensions') :
      SizedDimensions (x :: xs) (d :: dimensions) (d' :: dimensions')

/-- An index with literals for the extents is compiled to such dimensions. -/
theorem follows_withLiterals {σ : Type} (r : Resolver σ) {literals : List String} {xs : List Float}
    (answers : List.Forall₂ (fun literal x => ∀ s, (r.number literal).run s = (.ok (.number x), s))
      literals xs) {dimensions : List Expr} (length : dimensions.length ≤ literals.length)
    (settled : ∀ e ∈ dimensions, e.Everywhere IsSettled)
    (quiet : ∀ e ∈ dimensions, e.MentionsOwnEnd → e.Everywhere IsQuiet) :
    Follows (SizedDimensions xs) (ofDimensions r dimensions) (ofDimensions r
      (List.zipWith (fun e literal => withEnd (.number literal) e) dimensions literals)) := by
  induction answers generalizing dimensions with
  | nil =>
      obtain rfl : dimensions = [] := List.length_eq_zero_iff.1 (Nat.le_zero.1 length)
      rw [List.zipWith_nil_left, ofDimensions]
      exact .pure .nil
  | @cons literal x literals xs answer _ ih =>
      cases dimensions with
      | nil =>
          rw [List.zipWith_nil_left, ofDimensions]
          exact .pure .nil
      | cons e dimensions =>
          obtain ⟨settled, settledRest⟩ := List.forall_mem_cons.1 settled
          obtain ⟨quiet, quietRest⟩ := List.forall_mem_cons.1 quiet
          have rest := ih (Nat.le_of_succ_le_succ length) settledRest quietRest
          rw [List.zipWith_cons_cons, ofDimensions, ofDimensions]
          by_cases hmentions : e.MentionsOwnEnd
          · have admits : Admits (.sized (.number x)) e :=
              ⟨(settled.and (quiet hmentions)).mono fun _ h => ⟨h.1, fun _ _ => h.2⟩, nofun⟩
            have hsized : mentionsEnd e = true := by
              rw [← Bool.not_eq_false]
              exact fun h => not_mentionsOwnEnd_of_mentionsEnd h hmentions
            rw [hsized]
            exact (follows_withEnd r e (.sized answer) admits).bind fun _ _ hcode =>
              rest.map fun _ _ hcodes => .cons (.literal _ hcode) hcodes
          · -- What only mentions sizes within it still has a frame for its own, on both sides.
            have hsame : withEnd (.number literal) e = e := withEnd_eq_self e fun h => absurd h hmentions
            obtain ⟨size, stands, hkept⟩ := Stands.plain (r := r).dimension (e := e)
            have hcode := follows_withEnd r e stands
              (.dimension (settled.mono fun _ h => ⟨h, nofun⟩))
            rw [hkept] at hcode
            rw [hsame]
            exact hcode.bind fun _ _ hcode => rest.map fun _ _ hcodes => .cons (.same hcode) hcodes

/-! ### Evaluating dimensions -/

section Run

variable {σ : Type} {r : Resolver σ} {calling calling' : Calling σ} {owner : Value} {all : List Float}

/-- The size of a value, as the resolver tells it. -/
def Measures (r : Resolver σ) (owner : Value) (all : List Float) : Prop :=
  ∀ s, (r.call "size" [owner]).run s = (.ok (.array (all.map .number)), s)

/-- What is known of the size is right. -/
def Known (all : List Float) (size : Option Value) : Prop :=
  ∀ v ∈ size, v = .array (all.map .number)

/-- A dimension with the size at hand is evaluated in a frame with its extent. -/
theorem sizedContext_eq (measures : Measures r owner all) {size : Option Value}
    (known : Known all size) (i : Nat) (ctx : Context) :
    sizedContext r owner size i ctx = Evaluation.update fun s =>
      ((some (.array (all.map .number)), { ctx with frame := s.frames.size }),
        withSized s ctx.frame (extent (.array (all.map .number)) i)) := by
  funext m
  cases size with
  | some v =>
      obtain rfl := known v rfl
      rfl
  | none =>
      have hask : Evaluation.ask (r.call "size" [owner]) m = (.ok (.array (all.map .number)), m) := by
        have hanswer : (r.call "size" [owner]).run m.resolver = _ := measures m.resolver
        rw [Evaluation.ask, hanswer]
        rfl
      rw [sizedContext, bind_apply, hask]
      rfl

/-- The extent of the dimension after the first ones. -/
theorem extent_append (ys : List Float) (x : Float) (xs : List Float) :
    extent (.array ((ys ++ x :: xs).map .number)) ys.length = .number x := by
  simp [extent]

variable {top : Nat} {k : SizeKind} {w : List Slot} {ctx ctx' : Context}

/-- What is known of the size on both sides is right, and the dimension is evaluated alike. -/
structure Ready (all : List Float) (top : Nat) (k : SizeKind) (w : List Slot)
    (p p' : Option Value × Context) : Prop where
  left : Known all p.1
  right : Known all p'.1
  contexts : Abreast top k w p.2 p'.2

/-- Both sides have the size at hand, and the one may have a literal for it. -/
theorem sizedContext_goes (measures : Measures r owner all) {size size' : Option Value}
    (known : Known all size) (known' : Known all size') {i : Nat}
    (hctx : Abreast top .plain w ctx ctx')
    (hk : k.Knows (some (extent (.array (all.map .number)) i))) :
    (sizing top).Goes w (Ready all top k) (sizedContext r owner size i ctx)
      (sizedContext r owner size' i ctx') := by
  rw [sizedContext_eq measures known, sizedContext_eq measures known']
  refine update fun s s' hs => ⟨_, List.prefix_append .., ⟨fun _ h => (Option.some.inj h).symm,
    fun _ h => (Option.some.inj h).symm, .shared (getElem?_append_new hs _),
    hctx.frames.later (List.prefix_append ..), hctx.values⟩, ?_⟩
  rw [withSized_eq, withSized_eq]
  exact hs.push hctx.frame hk

/-- Only the one side has the size at hand, where the other one has a literal for it. -/
theorem sizedContext_goes_extra (measures : Measures r owner all) {size size' : Option Value}
    (known : Known all size) (known' : Known all size') {i : Nat} {x : Float}
    (hx : extent (.array (all.map .number)) i = .number x) (hctx : Abreast top .plain w ctx ctx')
    (htop : ctx'.frame = top) :
    (sizing top).Goes w (Ready all top (.sized (.number x))) (sizedContext r owner size i ctx)
      (pure (size', ctx')) := by
  subst htop
  rw [sizedContext_eq measures known, hx]
  have nothing : (pure (size', ctx') : Evaluation σ (Option Value × Context))
      = Evaluation.update fun s => ((size', ctx'), s) := rfl
  rw [nothing]
  refine update fun s s' hs => ⟨_, List.prefix_append ..,
    ⟨fun _ h => (Option.some.inj h).symm, known', .extra (getElem?_append_new hs _),
      hctx.frames.later (List.prefix_append ..), hctx.values⟩, ?_⟩
  rw [withSized_eq]
  obtain ⟨hframe, -, -⟩ := hctx
  cases hframe with
  | shared hframe => exact hs.pushExtra hframe (by simp [Value.functions])

/-- Dimensions go alike with literals for the extents. -/
theorem run_sizedDimensions (hcalling : (sizing top).Calls calling calling')
    (measures : Measures r owner all) {xs : List Float} {dimensions dimensions' : List (Dimension Code)}
    (h : SizedDimensions xs dimensions dimensions') (ys : List Float) (hxs : ys ++ xs = all)
    {size size' : Option Value} (known : Known all size) (known' : Known all size')
    (hctx : Abreast top .plain w ctx ctx') (htop : ctx'.frame = top) :
    (sizing top).Same w (runDimensions r calling dimensions (some owner) size ys.length ctx)
      (runDimensions r calling' dimensions' (some owner) size' ys.length ctx') := by
  induction h generalizing ys size size' w ctx ctx' with
  | nil =>
      rw [Code.runDimensions, Code.runDimensions]
      exact result _
  | @cons x xs d d' dimensions dimensions' h _ ih =>
      -- What follows once it is known where the dimension is evaluated, and how it is compared there.
      have rest : ∀ k, Similar sizes k d.body d'.body → ∀ w', w <+: w' → ∀ p p',
          Ready all top k w' p p' → (sizing top).Same w'
            (do let v ← Code.run r calling d.body p.2
                let vs ← Code.runDimensions r calling dimensions (some owner) p.1 (ys.length + 1)
                  (ctx.holding [v])
                return v :: vs)
            (do let v ← Code.run r calling' d'.body p'.2
                let vs ← Code.runDimensions r calling' dimensions' (some owner) p'.1 (ys.length + 1)
                  (ctx'.holding [v])
                return v :: vs) := by
        intro k hbody w' hw' p p' ready
        refine andThen ((sizing top).run hcalling hbody _ _ _ ready.contexts) fun w'' hw'' v => ?_
        have next := ih (ys ++ [x]) (by rw [← hxs, List.append_assoc, List.singleton_append])
          ready.left ready.right ((hctx.later (hw'.trans hw'')).holding [v]) htop
        rw [List.length_append, List.length_singleton] at next
        exact andThen next fun _ _ _ => result _
      have hx : extent (.array (all.map .number)) ys.length = .number x := hxs ▸ extent_append ys x xs
      cases h with
      | @same code code' sized hbody =>
          cases sized with
          | false =>
              simp only [Code.runDimensions]
              exact bind_goes (done ⟨known, known', hctx⟩) (rest .plain hbody)
          | true =>
              simp only [Code.runDimensions]
              exact bind_goes (sizedContext_goes (k := .inner) measures known known' hctx rfl)
                (rest .inner hbody)
      | @literal code code' sized' hbody =>
          cases sized' with
          | false =>
              simp only [Code.runDimensions]
              exact bind_goes (sizedContext_goes_extra measures known known' hx hctx htop)
                (rest _ hbody)
          | true =>
              simp only [Code.runDimensions]
              exact bind_goes (sizedContext_goes (k := .sized (.number x)) measures known known' hctx
                (congrArg some hx)) (rest _ hbody)

end Run

/-! ### Reading a part of an array -/

/-- Reading a part of an array goes on to its dimensions, also if these are the name of a property. -/
theorem run_access_array {σ : Type} (r : Resolver σ) (calling : Calling σ) {name : String}
    (property : Option String) (dimensions : List (Dimension Code)) {items : List Value} {ctx : Context}
    {m : Machine σ} (bound : m.store.get? ctx.frame name = some (.array items)) :
    run r calling (.access (.symbol name) ⟨property, false, dimensions⟩) ctx m
      = readPart.subset r (runDimensions r calling dimensions (some (.array items)) none 0)
          (.array items) ctx m := by
  have owner : run r calling (.symbol name) ctx m = (.ok (.array items), m) := by
    rw [run, valueOf, bind_apply, Evaluation.read, bound]
    rfl
  rw [run, bind_apply, owner]
  cases property <;> rfl

/-- Two accesses to a name differ in dimensions that have literals for extents. -/
inductive SizedAccess (xs : List Float) (name : String) : Code → Code → Prop
  | mk (property property' : Option String) {dimensions dimensions' : List (Dimension Code)}
      (h : SizedDimensions xs dimensions dimensions') :
      SizedAccess xs name (.access (.symbol name) ⟨property, false, dimensions⟩)
        (.access (.symbol name) ⟨property', false, dimensions'⟩)

theorem follows_sizedAccess {σ : Type} (r : Resolver σ) {xs : List Float} (name : String)
    {dimensions dimensions' : List Expr}
    (h : Follows (SizedDimensions xs) (ofDimensions r dimensions) (ofDimensions r dimensions')) :
    Follows (SizedAccess xs name) (ofExpr r (.access (.symbol name) (.index dimensions false)))
      (ofExpr r (.access (.symbol name) (.index dimensions' false))) := by
  have owner : Follows (fun code code' => code = .symbol name ∧ code' = .symbol name)
      (ofExpr r (.symbol name)) (ofExpr r (.symbol name)) := by
    rw [ofExpr]
    exact .node id fun _ => .pure ⟨rfl, rfl⟩
  have part : Follows (fun selector selector' => ∃ property property' dimensions dimensions',
      selector = ⟨property, false, dimensions⟩ ∧ selector' = ⟨property', false, dimensions'⟩ ∧
        SizedDimensions xs dimensions dimensions')
      (ofPart r (.index dimensions false)) (ofPart r (.index dimensions' false)) := by
    rw [ofPart, ofPart]
    exact .node id fun _ => h.map fun _ _ hs => ⟨_, _, _, _, rfl, rfl, hs⟩
  rw [ofExpr, ofExpr]
  refine .node id fun _ => owner.bind fun _ _ hsymbols => part.map fun _ _ hparts => ?_
  obtain ⟨rfl, rfl⟩ := hsymbols
  obtain ⟨property, property', _, _, rfl, rfl, hs⟩ := hparts
  exact .mk property property' hs

/-- Accesses to an array go alike with literals for the extents. -/
theorem run_sizedAccess {σ : Type} {r : Resolver σ} {calling calling' : Calling σ} {top : Nat}
    (hcalling : (sizing top).Calls calling calling') {xs : List Float} {name : String}
    {code code' : Code} (h : SizedAccess xs name code code') {items : List Value}
    (measures : Measures r (.array items) xs) {w : List Slot} {ctx ctx' : Context}
    (hctx : Abreast top .plain w ctx ctx') (htop : ctx'.frame = top) {m m' : Machine σ}
    (hm : Layout top w m.store m'.store) (hr : m'.resolver = m.resolver)
    (bound : m.store.get? ctx.frame name = some (.array items))
    (bound' : m'.store.get? ctx'.frame name = some (.array items)) :
    ∃ w', w <+: w' ∧ EndAlike Eq (run r calling code ctx m).1 (run r calling' code' ctx' m').1 ∧
      Layout top w' (run r calling code ctx m).2.store (run r calling' code' ctx' m').2.store := by
  obtain ⟨property, property', hs⟩ := h
  rw [run_access_array r calling property _ bound, run_access_array r calling' property' _ bound']
  have unknown : Known xs none := nofun
  have dimensions := run_sizedDimensions hcalling measures hs [] rfl unknown unknown
    (hctx.holding [.array items]) htop
  have subset := andThen dimensions fun w' _ vs =>
    andThen (ask (r.call "index" vs)) fun w' _ index => ask (S := sizing top) (w := w')
      (r.call "subset" [.array items, index])
  obtain ⟨w', hw', hends, hstores, -⟩ := subset m m' hm hr
  exact ⟨w', hw', hends, hstores⟩

end Code

namespace Expr

open Code

/-- The part of a named value that dimensions select. -/
def element (name : String) (dimensions : List Expr) : Expr :=
  .access (.symbol name) (.index dimensions false)

/-- Dimensions with a literal each where they mention the size of what they index. -/
def withLiterals (dimensions : List Expr) (literals : List String) : List Expr :=
  List.zipWith (fun e literal => withEnd (.number literal) e) dimensions literals

/-- Literals that say the extents of an array. -/
def SayExtents (literals : List String) (items : List Value) : Prop :=
  List.Forall₂ (fun literal n => decimalLiteral literal = .ok (.number (Float.ofNat n))) literals
    (Matrix.extents (.array items))

/-- Literals that say the extents are taken for them. -/
theorem SayExtents.answers {literals : List String} {items : List Value}
    (h : SayExtents literals items) :
    List.Forall₂ (fun literal x =>
      ∀ u, (Catalog.standard.resolver.number literal).run u = (.ok (.number x), u)) literals
      ((Matrix.extents (.array items)).map Float.ofNat) := by
  rw [List.forall₂_map_right_iff]
  refine h.imp fun literal n hliteral u => ?_
  show (decimalLiteral literal, u) = _
  rw [hliteral]

/-- The standard catalog measures an array by its extents. -/
theorem measures_standard (items : List Value) : Measures Catalog.standard.resolver (.array items)
    ((Matrix.extents (.array items)).map Float.ofNat) := by
  intro u
  show (Catalog.standard.call "size" [.array items], u) = _
  rw [Catalog.standard_size, List.map_map]
  rfl

/-- In the dimensions of an index of an array, the size is what literals say that have its value, as
long as nothing is bound in a dimension that mentions it: with and without the literals, reading the
part ends alike, and leaves the same bindings in all frames that there were. -/
theorem withLiterals_evaluates {name : String} {dimensions : List Expr} {literals : List String}
    {items : List Value} (wellFormed : (element name dimensions).WellFormed)
    (length : dimensions.length ≤ literals.length) (extents : SayExtents literals items)
    (settled : ∀ e ∈ dimensions, e.Everywhere IsSettled)
    (quiet : ∀ e ∈ dimensions, e.MentionsOwnEnd → e.Everywhere IsQuiet)
    {ctx : Context} {s : Store} (store : s.Settled) (frame : ctx.frame < s.frames.size)
    (frames : ∀ frame ∈ ctx.frames, frame < s.frames.size)
    (bound : s.get? ctx.frame name = some (.array items)) :
    ∃ code code', (element name dimensions).compile Catalog.standard.resolver () = (.ok code, ()) ∧
      (element name (withLiterals dimensions literals)).compile Catalog.standard.resolver ()
        = (.ok code', ()) ∧
      let (result, after) := code.evaluate Catalog.standard.resolver ctx { store := s, resolver := () }
      let (result', after') := code'.evaluate Catalog.standard.resolver ctx { store := s, resolver := () }
      EndAlike Eq result result' ∧
        ∀ frame < s.frames.size, after'.store.bindings frame = after.store.bindings frame := by
  obtain ⟨code, ⟨⟩, hcode⟩ := wellFormed.compiles Catalog.standard.resolver ()
  obtain ⟨code', hcode', haccess⟩ := follows_sizedAccess Catalog.standard.resolver name
    (follows_withLiterals Catalog.standard.resolver extents.answers length settled quiet) () code () hcode
  refine ⟨code, code', hcode, hcode', ?_⟩
  have start : Layout ctx.frame (sameFrames s.frames.size) s s := Layout.refl store
  have calls := (sizing ctx.frame).callWithin Catalog.standard.resolver depthLimit
  obtain ⟨w, hw, hends, hstores⟩ := run_sizedAccess calls haccess (measures_standard items)
    (Abreast.refl frame frames) rfl (m := { store := s, resolver := () }) start rfl bound bound
  exact ⟨hends, fun other hlt =>
    (hstores.bindings (getElem?_of_later hw (getElem?_sameFrames.2 ⟨hlt, rfl⟩))).symm⟩

/-- The index of the item before the last one. -/
def beforeLast : Expr :=
  .apply .subtract [.symbol endName, .number "1"]

/-- A store with an array of three items. -/
def threeItems : Store :=
  { frames := #[{ bindings := [("a", .array [.null, .null, .null])] }] }

theorem withLiterals_beforeLast :
    (element "a" [beforeLast]).WellFormed ∧ SayExtents ["3"] [.null, .null, .null] ∧
      threeItems.Settled ∧
      ∃ code code', (element "a" [beforeLast]).compile Catalog.standard.resolver () = (.ok code, ()) ∧
        (element "a" (withLiterals [beforeLast] ["3"])).compile Catalog.standard.resolver ()
          = (.ok code', ()) ∧
        let (result, after) :=
          code.evaluate Catalog.standard.resolver { frame := 0 } { store := threeItems, resolver := () }
        let (result', after') :=
          code'.evaluate Catalog.standard.resolver { frame := 0 } { store := threeItems, resolver := () }
        EndAlike Eq result result' ∧
          ∀ frame < threeItems.frames.size,
            after'.store.bindings frame = after.store.bindings frame := by
  have source : parse "a[end - 1]" = .ok (element "a" [beforeLast]) := by decide +kernel
  have wellFormed := (sound_of_parse source).wellFormed
  have extents : SayExtents ["3"] [.null, .null, .null] := .cons rfl .nil
  have store : threeItems.Settled := by
    refine ⟨fun frame parent h => ?_, nofun, nofun⟩
    cases frame with
    | zero => cases h
    | succ frame => cases h
  have leaf : ∀ {P : Expr → Prop} (e : Expr), e.children = [] → P e → e.Everywhere P :=
    fun e hchildren he => .node he (by rw [hchildren]; nofun)
  have settled : ∀ e ∈ [beforeLast], e.Everywhere IsSettled := by
    refine List.forall_mem_singleton.2 (everywhere_binary.2 ⟨trivial, ?_, ?_⟩)
    · exact leaf _ rfl trivial
    · exact leaf _ rfl trivial
  have quiet : ∀ e ∈ [beforeLast], e.MentionsOwnEnd → e.Everywhere IsQuiet := by
    refine List.forall_mem_singleton.2 fun _ => everywhere_binary.2 ⟨trivial, ?_, ?_⟩
    · exact leaf _ rfl trivial
    · exact leaf _ rfl trivial
  have length : [beforeLast].length ≤ ["3"].length := le_rfl
  exact ⟨wellFormed, extents, store, withLiterals_evaluates wellFormed length extents settled quiet
    store (by decide) nofun (Store.get?_of_own? rfl)⟩

/-- Whether dimensions and the same with literals for sizes are evaluated alike, by the standard
catalog. -/
def EvaluatesWithLiterals (dimensions : List Expr) (literals : List String) : Prop :=
  ∀ (name : String) (items : List Value), SayExtents literals items → ∀ (ctx : Context) (s : Store),
    s.get? ctx.frame name = some (.array items) → ∀ code code' u u',
    (element name dimensions).compile Catalog.standard.resolver () = (.ok code, u) →
    (element name (withLiterals dimensions literals)).compile Catalog.standard.resolver ()
      = (.ok code', u') →
    let (result, after) := code.evaluate Catalog.standard.resolver ctx { store := s, resolver := () }
    let (result', after') := code'.evaluate Catalog.standard.resolver ctx { store := s, resolver := () }
    EndAlike Eq result result' ∧
      ∀ frame < s.frames.size, after'.store.bindings frame = after.store.bindings frame

/-- What is bound in a dimension that mentions the size is lost, and what is bound in one that does not
is kept. -/
theorem not_evaluatesWithLiterals :
    ¬ EvaluatesWithLiterals [.assignment (.symbol "i") none (.symbol endName)] ["3"] := by
  intro h
  have extents : SayExtents ["3"] [.null, .null, .null] := .cons rfl .nil
  have bindings := (h "a" _ extents { frame := 0 } threeItems (Store.get?_of_own? rfl)
    _ _ _ _ rfl rfl).2 0 (by decide)
  exact absurd (congrArg Record.keys bindings) (by decide +kernel)

end Expr

end Formula
