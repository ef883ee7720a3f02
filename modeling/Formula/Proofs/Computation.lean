import Mathlib.Data.List.Forall2

/-!
Computations with errors, with and without a state.
-/

namespace Formula

variable {ε σ α β γ : Type}

/-! ### Sequences of computations -/

section

variable {m : Type → Type} [Monad m] [LawfulMonad m]

theorem mapM_attach (as : List α) (f : α → m β) : (as.attach.mapM fun a => f a.1) = as.mapM f := by
  rw [List.mapM_subtype fun _ _ => rfl, List.unattach_attach]

theorem zipWith_zipIdx (put : α → β → γ) (as : List α) (bs : List β) :
    List.zipWith (fun p => put p.1) as.zipIdx bs = List.zipWith put as bs := by
  rw [← List.zipWith_map_left, List.zipIdx_map_fst]

/-- Putting something into each element of a list on the way is putting it there in the end. -/
theorem mapM_put (put : α → β → γ) (f : α → m β) (as : List α) :
    (as.mapM fun a => put a <$> f a) = List.zipWith put as <$> as.mapM f := by
  induction as with
  | nil => simp
  | cons a as ih => simp [ih, List.mapM_cons, bind_map_left, map_bind]

/-- Putting something in the place of each result on the way is putting it there in the end. -/
theorem mapM_const (result : α → γ) (f : α → m β) (as : List α) :
    (as.mapM fun a => (fun _ => result a) <$> f a) = (fun _ => as.map result) <$> as.mapM f := by
  induction as with
  | nil => simp
  | cons a as ih => simp [ih, List.mapM_cons, bind_map_left, map_bind]

end

/-! ### Computations without a state -/

theorem bind_eq_ok_iff {x : Except ε α} {f : α → Except ε β} {b : β} :
    x >>= f = .ok b ↔ ∃ a, x = .ok a ∧ f a = .ok b := by
  cases x with
  | error => exact ⟨nofun, nofun⟩
  | ok a => exact ⟨fun h => ⟨a, rfl, h⟩, fun ⟨_, ha, h⟩ => by cases ha; exact h⟩

theorem map_eq_ok_iff {x : Except ε α} {f : α → β} {b : β} :
    x.map f = .ok b ↔ ∃ a, x = .ok a ∧ f a = b := by
  cases x with
  | error => exact ⟨nofun, nofun⟩
  | ok a => exact ⟨fun h => ⟨a, rfl, Except.ok.inj h⟩, fun ⟨_, ha, h⟩ => by cases ha; exact congrArg _ h⟩

/-- The results of a sequence of computations are those of one each. -/
theorem mapM_eq_ok_iff {f : α → Except ε β} {as : List α} {bs : List β} :
    as.mapM f = .ok bs ↔ List.Forall₂ (fun a b => f a = .ok b) as bs := by
  induction as generalizing bs with
  | nil => simp [pure, Except.pure, eq_comm]
  | cons a as ih =>
      rw [List.mapM_cons, bind_eq_ok_iff, List.forall₂_cons_left_iff]
      simp only [bind_eq_ok_iff, ih]
      constructor
      · rintro ⟨b, hb, bs, hbs, h⟩
        cases h
        exact ⟨b, bs, hb, hbs, rfl⟩
      · rintro ⟨b, bs, hb, hbs, rfl⟩
        exact ⟨b, hb, bs, hbs, rfl⟩

theorem mapM_eq_ok_map {f : α → Except ε β} {g : α → β} {as : List α}
    (h : ∀ a ∈ as, f a = .ok (g a)) :
    as.mapM f = .ok (as.map g) :=
  mapM_eq_ok_iff.2 (List.forall₂_map_right_iff.2 (List.forall₂_same.2 h))

/-- What reads back each element reads back a list of them. -/
theorem mapM_map_eq_ok {k : β → α} {f : α → Except ε β} {bs : List β}
    (h : ∀ b ∈ bs, f (k b) = .ok b) :
    (bs.map k).mapM f = .ok bs := by
  rw [List.mapM_map]
  exact (mapM_eq_ok_map (g := id) h).trans (by rw [List.map_id])

theorem mapM_attach_map_eq_ok {k : β → α} {bs : List β} {f : { a // a ∈ bs.map k } → Except ε β}
    (h : ∀ b (hb : b ∈ bs), f ⟨k b, List.mem_map_of_mem hb⟩ = .ok b) :
    (bs.map k).attach.mapM f = .ok bs := by
  rw [List.attach_map, List.mapM_map]
  exact (mapM_eq_ok_map (g := Subtype.val) fun b _ => h b.1 b.2).trans
    (by rw [List.attach_map_subtype_val])

theorem exists_of_mapM_eq_ok {f : α → Except ε β} {as : List α} {bs : List β}
    (h : as.mapM f = .ok bs) :
    ∀ b ∈ bs, ∃ a ∈ as, f a = .ok b := by
  replace h := mapM_eq_ok_iff.1 h
  induction h with
  | nil => exact List.forall_mem_nil _
  | cons hab _ ih =>
      refine List.forall_mem_cons.2 ⟨⟨_, List.mem_cons_self, hab⟩, fun b hb => ?_⟩
      obtain ⟨a, ha, hab⟩ := ih b hb
      exact ⟨a, List.mem_cons_of_mem _ ha, hab⟩

/-! ### Computations with a state -/

theorem bind_apply (x : ExceptT ε (StateM σ) α) (f : α → ExceptT ε (StateM σ) β) (s : σ) :
    (x >>= f) s = match x s with
      | (.ok a, s') => f a s'
      | (.error e, s') => (.error e, s') := by
  show (ExceptT.bind x f) s = _
  simp only [ExceptT.bind, ExceptT.mk, ExceptT.bindCont, bind, StateT.bind]
  rcases x s with ⟨a | a, s'⟩ <;> rfl

theorem lift_bind_apply (x : StateM σ α) (f : α → ExceptT ε (StateM σ) β) (s : σ) :
    ((x : ExceptT ε (StateM σ) α) >>= f) s = f (x s).1 (x s).2 :=
  rfl

/-- What a sequence does when it succeeds. -/
theorem bind_eq_ok {x : ExceptT ε (StateM σ) α} {f : α → ExceptT ε (StateM σ) β} {s s'' : σ} {b : β}
    (h : (x >>= f) s = (.ok b, s'')) : ∃ a s', x s = (.ok a, s') ∧ f a s' = (.ok b, s'') := by
  rw [bind_apply] at h
  rcases hx : x s with ⟨e | a, s'⟩
  · rw [hx] at h
    cases h
  · rw [hx] at h
    exact ⟨a, s', rfl, h⟩

/-- What a sequence does when it fails. -/
theorem bind_eq_error {x : ExceptT ε (StateM σ) α} {f : α → ExceptT ε (StateM σ) β} {s s'' : σ}
    {e : ε} (h : (x >>= f) s = (.error e, s'')) :
    x s = (.error e, s'') ∨ ∃ a s', x s = (.ok a, s') ∧ f a s' = (.error e, s'') := by
  rw [bind_apply] at h
  rcases hx : x s with ⟨e' | a, s'⟩
  · rw [hx] at h
    cases h
    exact .inl rfl
  · rw [hx] at h
    exact .inr ⟨a, s', rfl, h⟩

theorem pure_eq_ok {a b : α} {s s' : σ} (h : (pure a : ExceptT ε (StateM σ) α) s = (.ok b, s')) :
    a = b := by
  cases h
  rfl

/-- The state after a sequence that cannot fail. -/
theorem mapM_state_snd (f : α → StateM σ β) (as : List α) (s : σ) :
    (as.mapM f s).2 = as.foldl (fun s a => (f a s).2) s := by
  induction as generalizing s with
  | nil => rfl
  | cons a as ih =>
      rw [List.mapM_cons]
      exact ih (f a s).2

/-- What a sequence does of which nothing fails. -/
theorem mapM_apply_ok {f : α → ExceptT ε (StateM σ) β} {g : α → β} {next : σ → α → σ} {as : List α}
    (h : ∀ a ∈ as, ∀ s, f a s = (.ok (g a), next s a)) (s : σ) :
    as.mapM f s = (.ok (as.map g), as.foldl next s) := by
  induction as generalizing s with
  | nil => rfl
  | cons a as ih =>
      obtain ⟨ha, has⟩ := List.forall_mem_cons.1 h
      rw [List.mapM_cons, bind_apply, ha]
      dsimp only
      rw [bind_apply, ih has]
      rfl

/-- The results of a sequence of alike computations are those of one each. -/
theorem mapM_eq_ok {f : α → ExceptT ε (StateM σ) β} {as : List α} {bs : List β} {s s' : σ}
    (h : as.mapM f s = (.ok bs, s')) :
    bs.length = as.length ∧ ∀ b ∈ bs, ∃ a ∈ as, ∃ s s', f a s = (.ok b, s') := by
  induction as generalizing bs s s' with
  | nil =>
      obtain rfl := pure_eq_ok h
      exact ⟨rfl, nofun⟩
  | cons a as ih =>
      rw [List.mapM_cons] at h
      obtain ⟨b, s₁, hb, h⟩ := bind_eq_ok h
      obtain ⟨bs', s₂, hbs, h⟩ := bind_eq_ok h
      obtain rfl := pure_eq_ok h
      obtain ⟨hlength, hmem⟩ := ih hbs
      refine ⟨by rw [List.length_cons, List.length_cons, hlength], fun b' hb' => ?_⟩
      rcases List.mem_cons.1 hb' with rfl | hb'
      · exact ⟨a, List.mem_cons_self, _, _, hb⟩
      · obtain ⟨a', ha', hrun⟩ := hmem b' hb'
        exact ⟨a', List.mem_cons_of_mem _ ha', hrun⟩

end Formula
