import CircuitHarness.Simulator.Operation

/-! What a simulator offers under a circuit kind, be it cached or built on the spot. Looking it up changes nothing but
the cache and the number of dispatchers built. -/
namespace CircuitHarness

inductive Surface.Same : Surface → Surface → Prop where
  | dispatcher (m n : Mark) (d : Dispatcher Circuit) : Same (.dispatcher m d) (.dispatcher n d)
  | standIn (label : Value) : Same (.standIn label) (.standIn label)

theorem Surface.Same.refl (x : Surface) : x.Same x := by
  cases x with
  | dispatcher m d => exact .dispatcher m m d
  | standIn label => exact .standIn label

theorem Surface.Same.symm {x y : Surface} (h : x.Same y) : y.Same x := by
  cases h with
  | dispatcher m n d => exact .dispatcher n m d
  | standIn label => exact .standIn label

theorem Surface.Same.trans {x y z : Surface} (h : x.Same y) (g : y.Same z) : x.Same z := by
  cases h with
  | dispatcher m n d => cases g with
    | dispatcher _ n d => exact .dispatcher m n d
  | standIn label => exact g

inductive Callable.Same : Callable → Callable → Prop where
  | bound (m n : Mark) (b : Bound Circuit) : Same (.bound m b) (.bound n b)
  | standIn (label name : Value) : Same (.standIn label name) (.standIn label name)

theorem Callable.Same.refl (c : Callable) : c.Same c := by
  cases c with
  | bound m b => exact .bound m m b
  | standIn label name => exact .standIn label name

namespace Cache

def Sound (c : Cache α) : Prop := c.valid = false → ∀ k, c.slot k = none

theorem slot_fill (c : Cache α) (v : Option α) (j k : CircuitKind) :
    (c.fill v k).slot j = if j = k then some v else c.slot j := by
  cases j <;> cases k <;> rfl

theorem slot_counted (c : Cache α) (j k : CircuitKind) : (c.counted k).slot j = c.slot j := by
  rw [counted]
  split <;> cases j <;> rfl

theorem valid_counted (c : Cache α) (k : CircuitKind) : (c.counted k).valid = c.valid := by
  rw [counted]
  split <;> rfl

theorem ready_counted (c : Cache α) (j k : CircuitKind) : (c.counted k).ready j = c.ready j := by
  simp only [ready, live, valid_counted, slot_counted]

theorem Sound.counted {c : Cache α} (h : c.Sound) (k : CircuitKind) : (c.counted k).Sound := by
  intro hv j
  rw [slot_counted]
  exact h (by rwa [valid_counted] at hv) j

theorem Sound.filled (c : Cache α) (v : Option α) (k : CircuitKind) : Sound { c.fill v k with valid := true } := by
  intro hv
  cases hv

theorem ready_filled {c : Cache α} (h : c.Sound) (v : Option α) (j k : CircuitKind) :
    ready { c.fill v k with valid := true } j = if j = k then v else c.ready j := by
  have hs : slot { c.fill v k with valid := true } j = (c.fill v k).slot j := by cases j <;> rfl
  have hr : ready { c.fill v k with valid := true } j = (slot { c.fill v k with valid := true } j).join := rfl
  rw [hr, hs, slot_fill]
  by_cases hj : j = k
  · simp [hj]
  · rw [if_neg hj, if_neg hj, ready, live]
    cases hv : c.valid with
    | true => rfl
    | false => rw [h hv j]; rfl

end Cache

namespace Simulator

/-- What a lookup of the kind hands out now. -/
def offered (s : Simulator) (k : CircuitKind) : Surface :=
  (s.cache.ready k).getD (.dispatcher ⟨s.manager.maker, s.dispatchers⟩ ⟨k, s.contract.circuits k⟩)

def Offers (s t : Simulator) : Prop := ∀ k, (t.offered k).Same (s.offered k)

theorem Offers.refl (s : Simulator) : Offers s s := fun k => .refl (s.offered k)

theorem Offers.symm {s t : Simulator} (h : Offers s t) : Offers t s := fun k => (h k).symm

theorem Offers.trans {s t u : Simulator} (h : Offers s t) (g : Offers t u) : Offers s u := fun k => (g k).trans (h k)

theorem offers_of_eq {s t : Simulator} (hcache : t.cache = s.cache) (hcontract : t.contract = s.contract) :
    Offers s t := by
  intro k
  simp only [offered, hcache, hcontract]
  cases s.cache.ready k with
  | none => exact .dispatcher _ _ _
  | some x => exact .refl x

theorem Offers.moved {s t u v : Simulator} (h : Offers s t) (hu : u.cache = s.cache ∧ u.contract = s.contract)
    (hv : v.cache = t.cache ∧ v.contract = t.contract) : Offers u v :=
  (offers_of_eq hu.1 hu.2).symm.trans (h.trans (offers_of_eq hv.1 hv.2))

/-- Every cached dispatcher is one over the current contract. -/
structure Sound (s : Simulator) : Prop where
  cache : s.cache.Sound
  own : ∀ k m d, s.cache.slot k = some (some (.dispatcher m d)) → d = ⟨k, s.contract.circuits k⟩

theorem Sound.moved {s t : Simulator} (h : s.Sound) (hcache : t.cache = s.cache) (hcontract : t.contract = s.contract) :
    t.Sound where
  cache := by
    rw [hcache]
    exact h.cache
  own := by
    rw [hcache, hcontract]
    exact h.own

theorem Sound.offered {s : Simulator} (h : s.Sound) {k : CircuitKind} {m : Mark} {d : Dispatcher Circuit}
    (hd : s.offered k = .dispatcher m d) : d = ⟨k, s.contract.circuits k⟩ := by
  rw [Simulator.offered] at hd
  cases hr : s.cache.ready k with
  | none =>
    rw [hr] at hd
    cases hd
    rfl
  | some x =>
    rw [hr] at hd
    change x = _ at hd
    subst hd
    have hl : s.cache.live k = some (some (.dispatcher m d)) := Option.join_eq_some_iff.mp hr
    rw [Cache.live] at hl
    split at hl
    · exact h.own k m d hl
    · cases hl

theorem surface_eq (s : Simulator) (k : CircuitKind) :
    (surface k s).result = .ok (s.offered k) ∧
      ((surface k s).state = { s with cache := s.cache.counted k } ∧ (s.cache.ready k).isSome ∨
        (surface k s).state = { s with
          cache := { (s.cache.counted k).fill (some (s.offered k)) k with valid := true }
          dispatchers := s.dispatchers+1 } ∧ s.cache.ready k = none) := by
  cases h : s.cache.ready k with
  | some x =>
    obtain ⟨hr, hs⟩ := Cache.getOrBuild_of_ready Simulator.cache (fun c s => { s with cache := c })
      (buildDispatcher k) h
    have ho : s.offered k = x := by simp [offered, h]
    simp [surface, Action.bind_result, Action.bind_state, hr, hs, ho]
  | none =>
    obtain ⟨hr, hs⟩ := Cache.getOrBuild_of_built Simulator.cache (fun c s => { s with cache := c })
      (buildDispatcher k) (v := some (s.offered k)) h
      (by simp [buildDispatcher, Dispatcher.ofMapping_eq, offered, h])
    simp only [surface, Action.bind_result, Action.bind_state, hr, hs]
    exact ⟨rfl, .inr ⟨rfl, trivial⟩⟩

theorem surface_result (s : Simulator) (k : CircuitKind) : (surface k s).result = .ok (s.offered k) :=
  (surface_eq s k).1

theorem surface_rest (s : Simulator) (k : CircuitKind) :
    ∃ c n, (surface k s).state = { s with cache := c, dispatchers := n } := by
  obtain ⟨h, -⟩ | ⟨h, -⟩ := (surface_eq s k).2
  · exact ⟨_, s.dispatchers, h⟩
  · exact ⟨_, _, h⟩

/-- What may happen to a simulator that stands still: lookups in the cache, and marks given away. -/
structure Idle (s t : Simulator) : Prop where
  rest : t = { s with
    cache := t.cache
    dispatchers := t.dispatchers
    manager := { s.manager with made := t.manager.made } }
  made : s.manager.made ≤ t.manager.made
  sound : s.Sound → t.Sound
  offered : s.Sound → Offers s t

theorem Idle.refl (s : Simulator) : Idle s s := ⟨rfl, Nat.le_refl _, id, fun _ => .refl s⟩

theorem Idle.trans {s t u : Simulator} (h : Idle s t) (g : Idle t u) : Idle s u where
  rest := by
    rw [g.rest, h.rest]
  made := Nat.le_trans h.made g.made
  sound hs := g.sound (h.sound hs)
  offered hs := (h.offered hs).trans (g.offered (h.sound hs))

theorem idle_surface (s : Simulator) (k : CircuitKind) : Idle s (surface k s).state := by
  obtain ⟨-, ⟨h, -⟩ | ⟨h, hr⟩⟩ := surface_eq s k
  · rw [h]
    refine ⟨rfl, Nat.le_refl _, fun hs => ⟨hs.cache.counted k, ?_⟩, fun _ j => ?_⟩
    · intro j m d hd
      exact hs.own j m d (by rwa [Cache.slot_counted] at hd)
    · simp only [Simulator.offered, Cache.ready_counted]
      exact .refl _
  · rw [h]
    refine ⟨rfl, Nat.le_refl _, fun hs => ⟨.filled _ _ _, ?_⟩, fun hs j => ?_⟩
    · intro j m d hd
      have hd' : ((s.cache.counted k).fill (some (s.offered k)) k).slot j = some (some (.dispatcher m d)) := by
        cases j <;> exact hd
      rw [Cache.slot_fill, Cache.slot_counted] at hd'
      by_cases hj : j = k
      · subst hj
        rw [if_pos rfl] at hd'
        exact hs.offered (Option.some.inj (Option.some.inj hd'))
      · rw [if_neg hj] at hd'
        exact hs.own j m d hd'
    · simp only [Simulator.offered, Cache.ready_filled (hs.cache.counted k), Cache.ready_counted]
      by_cases hj : j = k
      · subst hj
        rw [if_pos rfl, hr]
        exact .refl _
      · rw [if_neg hj]
        cases s.cache.ready j with
        | none => exact .dispatcher _ _ _
        | some x => exact .refl x

end Simulator
end CircuitHarness
