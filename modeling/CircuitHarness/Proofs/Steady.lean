import CircuitHarness.Proofs.Callee

/-! Operations that leave callers, override and current context as they are: lookups, reads, replaced witnesses and
whatever else is done to the cache. -/
namespace CircuitHarness
namespace Simulator

/-- Nothing has changed but witnesses and what is made of them, the cache, the carryover policy and the marks given. -/
structure Steady (s t : Simulator) : Prop where
  rest : t = { s with
    witnesses := t.witnesses
    contract := t.contract
    cache := t.cache
    dispatchers := t.dispatchers
    manager := { s.manager with made := t.manager.made, carryover := t.manager.carryover } }
  made : s.manager.made ≤ t.manager.made
  sound : s.Sound → t.Sound
  contract : t.contract = s.contract ∨ ∃ ws, s.config.contract ws = .ok t.contract

theorem Steady.refl (s : Simulator) : Steady s s := ⟨rfl, Nat.le_refl _, id, .inl rfl⟩

theorem Idle.steady {s t : Simulator} (h : Idle s t) : Steady s t where
  rest := by
    have hc : t.contract = s.contract := h.contract
    have hw : t.witnesses = s.witnesses := by rw [h.rest]
    have hp : t.manager.carryover = s.manager.carryover := by rw [h.rest]
    rw [hc, hw, hp]
    exact h.rest
  made := h.made
  sound := h.sound
  contract := .inl h.contract

theorem steady_cache {s : Simulator} {c : Cache Surface} (h : s.Sound → ({ s with cache := c } : Simulator).Sound) :
    Steady s { s with cache := c } :=
  ⟨rfl, Nat.le_refl _, h, .inl rfl⟩

theorem sound_invalidated (s : Simulator) : (onCache Cache.invalidate s).state.Sound := by
  refine ⟨fun _ k => ?_, fun k m d h => ?_⟩
  · cases k <;> rfl
  · cases k <;> cases h

theorem steady_resetDispatchers (s : Simulator) : Steady s (resetDispatchers s).state :=
  steady_cache fun _ => sound_invalidated s

theorem steady_put (s : Simulator) (k : CircuitKind) (label : Option Value) :
    Steady s (onCache (Cache.put k (label.map Surface.standIn)) s).state := by
  simp only [onCache, Action.within_state, Cache.put_state]
  refine steady_cache fun hs => ⟨.filled _ _ _, fun j m d h => ?_⟩
  have h' : (s.cache.fill (label.map Surface.standIn) k).slot j = some (some (.dispatcher m d)) := by
    cases j <;> exact h
  rw [Cache.slot_fill] at h'
  by_cases hj : j = k
  · rw [if_pos hj] at h'
    cases label <;> cases h'
  · rw [if_neg hj] at h'
    exact hs.own j m d h'

theorem slot_clearStats (c : Cache Surface) (k : CircuitKind) : (Cache.clearStats c).state.slot k = c.slot k := by
  cases k <;> rfl

theorem steady_clearStats (s : Simulator) : Steady s (onCache Cache.clearStats s).state :=
  steady_cache fun hs => ⟨fun hv k => (slot_clearStats s.cache k).trans (hs.cache hv k), fun k m d h =>
    hs.own k m d ((slot_clearStats s.cache k).symm.trans h)⟩

theorem ready_invalidated (c : Cache Surface) (k : CircuitKind) : (Cache.invalidate c).state.ready k = none := rfl

theorem ready_clearStats (c : Cache Surface) (k : CircuitKind) : (Cache.clearStats c).state.ready k = c.ready k := by
  cases k <;> rfl

theorem offers_resetDispatchers {s t : Simulator} (hcontract : t.contract = s.contract) :
    Offers (resetDispatchers s).state (resetDispatchers t).state := by
  intro k
  simp only [offered, resetDispatchers, onCache, Action.within_state, ready_invalidated, hcontract]
  exact .dispatcher _ _ _

theorem Offers.put {s t : Simulator} (h : Offers s t) (hcontract : t.contract = s.contract) (hs : s.Sound) (ht : t.Sound)
    (k : CircuitKind) (label : Option Value) :
    Offers (onCache (Cache.put k (label.map Surface.standIn)) s).state
      (onCache (Cache.put k (label.map Surface.standIn)) t).state := by
  intro j
  have hj := h j
  simp only [offered, onCache, Action.within_state, Cache.put_state, Cache.ready_filled hs.cache,
    Cache.ready_filled ht.cache] at hj ⊢
  by_cases hjk : j = k
  · rw [if_pos hjk, if_pos hjk, hcontract]
    cases label with
    | none => exact .dispatcher _ _ _
    | some v => exact .standIn v
  · rw [if_neg hjk, if_neg hjk]
    exact hj

theorem Offers.clearStats {s t : Simulator} (h : Offers s t) :
    Offers (onCache Cache.clearStats s).state (onCache Cache.clearStats t).state := by
  intro k
  have hk := h k
  simp only [offered, onCache, Action.within_state, ready_clearStats] at hk ⊢
  exact hk

/-- The table stays even if no contract can be built from it; the cache is emptied with the contract it is over. -/
theorem steady_setWitnesses [Limits] (s : Simulator) (table : Value) : Steady s (setWitnesses table s).state := by
  simp only [setWitnesses, Action.bind_state, Action.lift_result, Action.lift_state]
  cases Witnesses.validate table with
  | error e => exact .refl s
  | ok t =>
    simp only [Action.update_result, Action.update_state, Action.read_result, Action.read_state]
    cases hc : s.config.contract (Witnesses.ofValue t) with
    | error e => exact ⟨rfl, Nat.le_refl _, fun hs => hs.moved rfl rfl, .inl rfl⟩
    | ok a => exact ⟨rfl, Nat.le_refl _, fun _ => sound_invalidated _, .inr ⟨_, hc⟩⟩

theorem steady_overrideWitness [Limits] (s : Simulator) (name fn : Value) :
    Steady s (overrideWitness name fn s).state := by
  simp only [overrideWitness, Action.bind_state, Action.read_result, Action.read_state]
  split
  · exact steady_setWitnesses s _
  · exact .refl s

end Simulator

def Operation.Settled : Operation → Prop
  | .current | .rebuild .. | .setCarryover _ | .senderContext _ | .publicState | .privateState | .contractState => True
  | .witnessContext | .witnesses | .names | .setWitnesses _ | .overrideWitness .. | .resetDispatchers => True
  | .cachePut .. | .cacheClearStats => True
  | _ => False

namespace Simulator

theorem bind_stays {α β : Type} {x : Action Simulator α} {f : α → Action Simulator β} {s : Simulator}
    (hx : (x s).state = s) (hf : ∀ a, (f a s).state = s) : ((x >>= f) s).state = s := by
  rw [Action.bind_state, hx]
  cases (x s).result with
  | error e => rfl
  | ok a => exact hf a

theorem ask_state {α : Type} (f : Simulator → Except Failure α) (s : Simulator) : (ask f s).state = s := by
  simp only [ask, Action.bind_state, Action.read_result, Action.read_state, Action.lift_state]

theorem tell_state (x : Action Simulator Unit) (s : Simulator) : (tell x s).state = (x s).state := by
  simp only [tell, Action.bind_state, Action.pure_state]
  cases (x s).result <;> rfl

theorem steady_perform [Limits] {op : Operation} (h : op.Settled) (s : Simulator) : Steady s (perform op s).state := by
  cases op with
  | setWitnesses t =>
    rw [perform, tell_state]
    exact steady_setWitnesses s t
  | overrideWitness n f =>
    rw [perform, tell_state]
    exact steady_overrideWitness s n f
  | resetDispatchers =>
    rw [perform, tell_state]
    exact steady_resetDispatchers s
  | cachePut k label =>
    rw [perform, tell_state]
    exact steady_put s k label
  | cacheClearStats =>
    rw [perform, tell_state]
    exact steady_clearStats s
  | setCarryover c =>
    rw [perform, tell_state]
    exact ⟨rfl, Nat.le_refl _, fun hs => hs.moved rfl rfl, .inl rfl⟩
  | names =>
    have hp : Idle s (surface .pure s).state := idle_surface s .pure
    have hi := idle_surface (surface .pure s).state .impure
    simp only [perform, Action.bind_state, surface_result, Action.lift_result, Action.lift_state, Action.pure_state]
    cases (s.offered .pure).names with
    | error e => exact hp.steady
    | ok ps =>
      dsimp only
      cases ((surface .pure s).state.offered .impure).names <;> exact (hp.trans hi).steady
  | rebuild sender carryover =>
    have hs : (perform (.rebuild sender carryover) s).state = s :=
      bind_stays (Action.lift_state _ s) fun _ => bind_stays (ask_state _ s) fun _ => rfl
    rw [hs]
    exact .refl s
  | senderContext sender =>
    have hs : (perform (.senderContext sender) s).state = s :=
      bind_stays (Action.lift_state _ s) fun _ => bind_stays (ask_state _ s) fun _ => rfl
    rw [hs]
    exact .refl s
  | publicState =>
    have hs : (perform .publicState s).state = s := bind_stays (ask_state _ s) fun _ => rfl
    rw [hs]
    exact .refl s
  | witnessContext =>
    have hs : (perform .witnessContext s).state = s := bind_stays (ask_state _ s) fun _ => rfl
    rw [hs]
    exact .refl s
  | current | privateState | contractState | witnesses => exact .refl s
  | _ => cases h

end Simulator
end CircuitHarness
