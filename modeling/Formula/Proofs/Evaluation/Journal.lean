import Formula.Evaluation
import Formula.Proofs.Computation

/-!
Evaluations beside which a journal is kept.

A journal is a list beside the state of the resolver. What is done there while it is kept (`silent`)
cannot look at it, and what is written there (`note`) changes nothing else. `Journals` says that an
evaluation with a journal goes as one without, and what it has written when it ends.
-/

namespace Formula

variable {σ ι α β : Type}

/-- A machine beside which a journal is kept. -/
def Machine.journaled (m : Machine σ) (journal : List ι) : Machine (σ × List ι) :=
  ⟨m.store, m.resolver, journal⟩

namespace Evaluation

/-- An evaluation that writes nothing into the journal. -/
def silent (x : Evaluation σ α) : Evaluation (σ × List ι) α := fun m =>
  let (a, m') := x ⟨m.store, m.resolver.1⟩
  (a, m'.journaled m.resolver.2)

/-- Writes into the journal. -/
def note (entry : ι) : Evaluation (σ × List ι) Unit := fun m =>
  (.ok (), ⟨m.store, m.resolver.1, m.resolver.2 ++ [entry]⟩)

/-- An evaluation goes as another one beside which a journal is kept, and what it writes into the
journal agrees with how it ends. -/
def Journals (post : List ι → Except EvalError α → Prop) (x : Evaluation (σ × List ι) α)
    (y : Evaluation σ α) : Prop :=
  ∀ m journal, ∃ entries, x (m.journaled journal) = ((y m).1, (y m).2.journaled (journal ++ entries)) ∧
    post entries (y m).1

namespace Journals

variable {post : List ι → Except EvalError α → Prop} {post' : List ι → Except EvalError β → Prop}
  {x : Evaluation (σ × List ι) α} {y : Evaluation σ α}

theorem mono {more : List ι → Except EvalError α → Prop} (h : Journals post x y)
    (hmore : ∀ entries result, post entries result → more entries result) : Journals more x y := by
  intro m journal
  obtain ⟨entries, hx, hpost⟩ := h m journal
  exact ⟨entries, hx, hmore _ _ hpost⟩

theorem pure {a : α} (h : post [] (.ok a)) :
    Journals post (pure a : Evaluation (σ × List ι) α) (pure a) :=
  fun m journal => ⟨[], by rw [List.append_nil]; rfl, h⟩

theorem throw {e : EvalError} (h : post [] (.error e)) :
    Journals post (throw e : Evaluation (σ × List ι) α) (throw e) :=
  fun m journal => ⟨[], by rw [List.append_nil]; rfl, h⟩

theorem silent (y : Evaluation σ α) :
    Journals (fun (entries : List ι) _ => entries = []) (silent y) y :=
  fun m journal => ⟨[], by rw [List.append_nil]; rfl, rfl⟩

/-- What is written before the rest goes in front of what the rest writes. -/
theorem noted {entry : ι} (h : Journals (fun entries result => post (entry :: entries) result) x y) :
    Journals post (note entry >>= fun _ => x) y := by
  intro m journal
  obtain ⟨entries, hx, hpost⟩ := h m (journal ++ [entry])
  refine ⟨entry :: entries, ?_, hpost⟩
  rw [List.append_assoc] at hx
  exact hx

/-- The rest of an evaluation writes behind what the first part wrote, unless the first part fails. -/
theorem bind {f : α → Evaluation (σ × List ι) β} {g : α → Evaluation σ β} (hx : Journals post x y)
    (failed : ∀ entries e, post entries (.error e) → post' entries (.error e))
    (hf : ∀ a, Journals (fun entries result => ∀ before, post before (.ok a) →
      post' (before ++ entries) result) (f a) (g a)) :
    Journals post' (x >>= f) (y >>= g) := by
  intro m journal
  obtain ⟨before, hrun, hpost⟩ := hx m journal
  rw [bind_apply, bind_apply, hrun]
  revert hpost
  rcases y m with ⟨e | a, m'⟩
  · exact fun hpost => ⟨before, rfl, failed _ _ hpost⟩
  · intro hpost
    obtain ⟨entries, hrest, hpost'⟩ := hf a m' (journal ++ before)
    refine ⟨before ++ entries, ?_, hpost' _ hpost⟩
    rw [List.append_assoc] at hrest
    exact hrest

end Journals

end Evaluation

end Formula
