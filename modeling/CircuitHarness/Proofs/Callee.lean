import CircuitHarness.Proofs.Quiet

/-! What an operation that calls a circuit comes down to: lookups that leave the simulator standing still, then the
call of what they found. -/
namespace CircuitHarness

/-- What an operation calls, and with which arguments; `none` where it calls nothing or finds nothing. -/
def Operation.callee (s : Simulator) : Operation → Option (Callable × List Value)
  | .call k name args route => ((s.offered k).find name route).toOption.map (·, args)
  | .callHeld c args => some (c, args)
  | _ => none

def Operation.calls : Operation → Bool
  | .call .. | .callHeld .. | .direct .. | .names => true
  | _ => false

/-- A call by name that finds nothing under it. -/
def Operation.Misses (s : Simulator) : Operation → Prop
  | .call k name _ route => ∃ e, (s.offered k).find name route = .error e
  | _ => False

theorem Operation.misses_of_callee {s : Simulator} {k : CircuitKind} {name : Value} {args : List Value} {route : Route}
    (h : (Operation.call k name args route).callee s = none) : (Operation.call k name args route).Misses s := by
  simp only [callee, Option.map_eq_none_iff] at h
  cases hf : (s.offered k).find name route with
  | error e => exact ⟨e, hf⟩
  | ok c =>
    rw [hf] at h
    cases h

namespace Surface

theorem Same.item {x y : Surface} (h : x.Same y) (name : Value) :
    (∃ e, x.item name = .error e ∧ y.item name = .error e) ∨
      ∃ c d, x.item name = .ok c ∧ y.item name = .ok d ∧ c.Same d := by
  cases h with
  | standIn label => exact .inr ⟨_, _, rfl, rfl, .standIn label name⟩
  | dispatcher m n d =>
    simp only [Surface.item]
    cases d.item name with
    | error e => exact .inl ⟨e, rfl, rfl⟩
    | ok b => exact .inr ⟨_, _, rfl, rfl, .bound m n b⟩

theorem Same.member {x y : Surface} (h : x.Same y) (name : Value) :
    (∃ e, x.member name = .error e ∧ y.member name = .error e) ∨
      ∃ c d, x.member name = .ok c ∧ y.member name = .ok d ∧ c.Same d := by
  cases h with
  | standIn label => exact .inr ⟨_, _, rfl, rfl, .standIn label name⟩
  | dispatcher m n d =>
    simp only [Surface.member]
    cases d.member name with
    | error e => exact .inl ⟨e, rfl, rfl⟩
    | ok x => cases x with
      | own v => exact .inl ⟨_, rfl, rfl⟩
      | circuit b => exact .inr ⟨_, _, rfl, rfl, .bound m n b⟩

theorem Same.find {x y : Surface} (h : x.Same y) (name : Value) (route : Route) :
    (∃ e, x.find name route = .error e ∧ y.find name route = .error e) ∨
      ∃ c d, x.find name route = .ok c ∧ y.find name route = .ok d ∧ c.Same d := by
  cases route with
  | item | both => exact h.item name
  | member => exact h.member name

theorem Same.names {x y : Surface} (h : x.Same y) : x.names = y.names := by cases h <;> rfl

end Surface

namespace Simulator

theorem Sound.callee_of {s : Simulator} (hs : s.Sound) {P : CircuitKind → Circuit → Prop} (hP : s.contract.Of P)
    {op : Operation} {c : Callable} {args : List Value} (h : op.callee s = some (c, args))
    (hheld : ∀ c args, op = .callHeld c args → c.Of P) : c.Of P := by
  cases op with
  | call k name as route =>
    obtain ⟨d, hd, he⟩ := Option.map_eq_some_iff.mp h
    cases he
    cases hf : (s.offered k).find name route with
    | error e => rw [hf] at hd; cases hd
    | ok c =>
      rw [hf] at hd
      cases hd
      exact hs.find (hP k) hf
  | callHeld d as =>
    cases h
    exact hheld c args rfl
  | _ => cases h

theorem callCallable_same {c d : Callable} (h : c.Same d) (sv : Services Simulator) (args : List Value) :
    callCallable sv args c = callCallable sv args d := by
  cases h <;> rfl

theorem idle_call_pure [Limits] {s : Simulator} (hs : s.Sound) (hq : s.PureQuiet) {c : Callable}
    (hc : c.Of fun k f => k = .pure ∧ Circuit.Quiet f) (args : List Value) : Idle s (call c args s).state :=
  (still_services Limits.calls).callCallable hc hs hq

theorem reach_spec {s : Simulator} (hs : s.Sound) (k : CircuitKind) (name : Value) (route : Route) :
    Idle s (reach k name route s).state ∧
      ∃ x : Surface, x.Same (s.offered k) ∧ (reach k name route s).result = x.find name route := by
  have hp : Idle s (surface .pure s).state := idle_surface s .pure
  cases route with
  | item | member =>
    simp only [reach, Action.bind_result, Action.bind_state, surface_result, Action.lift_result, Action.lift_state]
    exact ⟨idle_surface s k, _, .refl _, rfl⟩
  | both =>
    simp only [reach, Action.bind_result, Action.bind_state, surface_result, Action.lift_result, Action.lift_state]
    refine ⟨hp.trans (idle_surface _ .impure), ?_⟩
    cases k with
    | pure => exact ⟨_, .refl _, rfl⟩
    | impure => exact ⟨_, hp.offered hs .impure, rfl⟩

theorem reach_rest (s : Simulator) (k : CircuitKind) (name : Value) (route : Route) :
    ∃ c n, (reach k name route s).state = { s with cache := c, dispatchers := n } := by
  cases route with
  | item | member =>
    simp only [reach, Action.bind_state, surface_result, Action.lift_state]
    exact surface_rest s k
  | both =>
    simp only [reach, Action.bind_state, surface_result, Action.lift_state]
    obtain ⟨c, n, hp⟩ := surface_rest s .pure
    rw [hp]
    exact surface_rest { s with cache := c, dispatchers := n } .impure

/-- Whatever is called, is called as if it had been at hand, from a simulator that stood still. -/
theorem perform_callee [Limits] {s : Simulator} (hs : s.Sound) {op : Operation} {c : Callable} {args : List Value}
    (h : op.callee s = some (c, args)) :
    ∃ t, Idle s t ∧ (perform op s).result = (call c args t).result.map Reply.value ∧
      (perform op s).state = (call c args t).state := by
  cases op with
  | call k name as route =>
    obtain ⟨d, hd, he⟩ := Option.map_eq_some_iff.mp h
    cases he
    obtain ⟨hi, x, hx, hr⟩ := reach_spec hs k name route
    obtain ⟨e, -, he⟩ | ⟨d', c', hd', hc', hsame⟩ := hx.find name route
    · rw [he] at hd
      cases hd
    · rw [hc'] at hd
      cases hd
      rw [hd'] at hr
      refine ⟨_, hi, ?_⟩
      simp only [perform, Action.bind_result, Action.bind_state, hr, call, callCallable_same hsame]
      cases (callCallable (services Limits.calls) args c (reach k name route s).state).result with
      | error e => exact ⟨rfl, rfl⟩
      | ok v => exact ⟨rfl, rfl⟩
  | callHeld d as =>
    cases h
    refine ⟨s, .refl s, ?_⟩
    simp only [perform, Action.bind_result, Action.bind_state]
    cases (call c args s).result with
    | error e => exact ⟨rfl, rfl⟩
    | ok v => exact ⟨rfl, rfl⟩
  | _ => cases h

theorem perform_misses [Limits] {s : Simulator} (hs : s.Sound) {op : Operation} (h : op.Misses s) :
    (∃ e, (perform op s).result = .error e) ∧ Idle s (perform op s).state ∧
      ∃ c n, (perform op s).state = { s with cache := c, dispatchers := n } := by
  cases op with
  | call k name as route =>
    obtain ⟨e, he⟩ := h
    obtain ⟨hi, x, hx, hr⟩ := reach_spec hs k name route
    obtain ⟨f, hf, -⟩ | ⟨c, d, -, hd, -⟩ := hx.find name route
    · rw [hf] at hr
      simp only [perform, Action.bind_result, Action.bind_state, hr]
      exact ⟨⟨f, rfl⟩, hi, reach_rest s k name route⟩
    · rw [hd] at he
      cases he
  | _ => cases h

end Simulator
end CircuitHarness
