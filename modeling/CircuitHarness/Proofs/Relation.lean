import CircuitHarness.Action

/-! Two steps side by side, each on a state of its own kind: done to states that are related, both answer alike and leave
states that are related, too. One law for each way to build a step. -/
namespace CircuitHarness

theorem Except.ok_of_bind {ε α β : Type} {x : Except ε α} {f : α → Except ε β} {b : β} (h : x >>= f = .ok b) :
    ∃ a, x = .ok a ∧ f a = .ok b := by
  cases x with
  | error e => cases h
  | ok a => exact ⟨a, rfl, h⟩

inductive Answers {α β : Type} (R : α → β → Prop) : Except Failure α → Except Failure β → Prop where
  | ok {a : α} {b : β} (h : R a b) : Answers R (.ok a) (.ok b)
  | error (e : Failure) : Answers R (.error e) (.error e)

theorem Answers.eq {α : Type} {x y : Except Failure α} (h : Answers Eq x y) : x = y := by
  cases h with
  | ok h => rw [h]
  | error e => rfl

theorem Answers.of_eq {α : Type} (x : Except Failure α) : Answers Eq x x := by
  cases x with
  | error e => exact .error e
  | ok a => exact .ok rfl

theorem Answers.mono {α β : Type} {R S : α → β → Prop} (hRS : ∀ a b, R a b → S a b) {x : Except Failure α}
    {y : Except Failure β} (h : Answers R x y) : Answers S x y := by
  cases h with
  | ok h => exact .ok (hRS _ _ h)
  | error e => exact .error e

namespace Action

/-- Done to states under `P`, both steps answer by `R` and leave states under `Q`, also where they fail. -/
def Relates {σ τ α β : Type} (P Q : σ → τ → Prop) (R : α → β → Prop) (x : Action σ α) (y : Action τ β) : Prop :=
  ∀ s t, P s t → Answers R (x s).result (y t).result ∧ Q (x s).state (y t).state

namespace Relates
variable {σ τ α β γ δ : Type} {P Q : σ → τ → Prop} {R : α → β → Prop} {x : Action σ α} {y : Action τ β}

theorem weaken {Q' : σ → τ → Prop} (h : Relates P Q R x y) (hQ : ∀ s t, Q s t → Q' s t) : Relates P Q' R x y :=
  fun s t hst => ⟨(h s t hst).1, hQ _ _ (h s t hst).2⟩

theorem mono {R' : α → β → Prop} (h : Relates P Q R x y) (hR : ∀ a b, R a b → R' a b) : Relates P Q R' x y :=
  fun s t hst => ⟨(h s t hst).1.mono hR, (h s t hst).2⟩

theorem pure {a : α} {b : β} (h : R a b) : Relates P P R (pure a) (pure b) := fun _ _ hst => ⟨.ok h, hst⟩

theorem fail (f : Failure) : Relates P P R (Action.fail f) (Action.fail f) := fun _ _ hst => ⟨.error f, hst⟩

theorem lift {u : Except Failure α} {v : Except Failure β} (h : Answers R u v) :
    Relates P P R (Action.lift u) (Action.lift v) := by
  intro s t hst
  rw [Action.lift_result, Action.lift_result, Action.lift_state, Action.lift_state]
  exact ⟨h, hst⟩

theorem read : Relates P P P Action.read Action.read := fun _ _ hst => ⟨.ok hst, hst⟩

theorem update {f : σ → σ} {g : τ → τ} (h : ∀ s t, P s t → Q (f s) (g t)) :
    Relates P Q Eq (Action.update f) (Action.update g) :=
  fun s t hst => ⟨.ok rfl, h s t hst⟩

theorem note (v w : Severity) (l k m n : String) : Relates P P Eq (Action.note v l m) (Action.note w k n) :=
  fun _ _ hst => ⟨.ok rfl, hst⟩

theorem bind {S : γ → δ → Prop} {f : α → Action σ γ} {g : β → Action τ δ} (hx : Relates P Q R x y)
    (hf : ∀ a b, R a b → Relates Q Q S (f a) (g b)) : Relates P Q S (x >>= f) (y >>= g) := by
  intro s t hst
  obtain ⟨hr, hs⟩ := hx s t hst
  rw [Action.bind_result, Action.bind_result, Action.bind_state, Action.bind_state]
  generalize (x s).result = u at hr ⊢
  generalize (y t).result = v at hr ⊢
  cases hr with
  | error e => exact ⟨.error e, hs⟩
  | ok h => exact hf _ _ h _ _ hs

theorem bind_eq {S : γ → δ → Prop} {y : Action τ α} {f : α → Action σ γ} {g : α → Action τ δ}
    (hx : Relates P Q Eq x y) (hf : ∀ a, Relates Q Q S (f a) (g a)) : Relates P Q S (x >>= f) (y >>= g) :=
  hx.bind fun a b h => by
    subst h
    exact hf a

theorem attempt {y : Action τ α} (h : Relates P Q Eq x y) :
    Relates P Q Eq (Action.attempt x) (Action.attempt y) := by
  intro s t hst
  obtain ⟨hr, hs⟩ := h s t hst
  refine ⟨?_, hs⟩
  rw [Action.attempt_result, Action.attempt_result, hr.eq]
  exact .ok rfl

end Relates
end Action
end CircuitHarness
