import CircuitHarness.Proofs.Machine
import CircuitHarness.Proofs.Reachable

/-! Simulators that differ in what is cached and in what is pending only. Whatever is done to both, with circuits of any
kind, both answer alike and stay as alike: what is pending is always set down anew before a commit looks at it. -/
namespace CircuitHarness

namespace Simulator
open CircuitHarness.Action (Relates)

/-- Different in cache and dispatchers at most, and not even there in what is offered; in what is pending only if `p`
does not hold. -/
structure Alike (p : Prop) (s t : Simulator) : Prop where
  rest : t = { s with cache := t.cache, dispatchers := t.dispatchers, pending := t.pending }
  pending : p → t.pending = s.pending
  offers : Offers s t
  left : s.Sound
  right : t.Sound

def Agrees {α β : Type} (p q : Prop) (R : α → β → Prop) (x : Action Simulator α) (y : Action Simulator β) : Prop :=
  Action.Relates (Alike p) (Alike q) R x y

variable {α β γ δ : Type} {p q r : Prop} {s t : Simulator}

theorem Alike.weaken (h : Alike p s t) (hq : q → p) : Alike q s t :=
  ⟨h.rest, fun k => h.pending (hq k), h.offers, h.left, h.right⟩

theorem Alike.manager (h : Alike p s t) : t.manager = s.manager := by rw [h.rest]

theorem Alike.current (h : Alike p s t) : t.current = s.current := by rw [h.rest]; rfl

theorem Alike.contract (h : Alike p s t) : t.contract = s.contract := by rw [h.rest]

theorem Alike.moved (h : Alike p s t) {u v : Simulator}
    (rest : v = { u with cache := v.cache, dispatchers := v.dispatchers, pending := v.pending })
    (pending : q → v.pending = u.pending) (hu : u.cache = s.cache ∧ u.contract = s.contract)
    (hv : v.cache = t.cache ∧ v.contract = t.contract) : Alike q u v where
  rest := rest
  pending := pending
  offers := h.offers.moved hu hv
  left := h.left.moved hu.1 hu.2
  right := h.right.moved hv.1 hv.2

namespace Agrees

theorem weaken {R : α → β → Prop} {x : Action Simulator α} {y : Action Simulator β} (h : Agrees p q R x y)
    (hr : r → q) : Agrees p r R x y :=
  Relates.weaken h fun _ _ hst => hst.weaken hr

theorem onManager (x : Action Manager α) : Agrees p p Eq (onManager x) (onManager x) := by
  intro s t hst
  have hm : t.manager = s.manager := hst.manager
  simp only [Simulator.onManager, Action.within_result, Action.within_state, hm]
  refine ⟨.of_eq _, hst.moved ?_ hst.pending ⟨rfl, rfl⟩ ⟨rfl, rfl⟩⟩
  rw [hst.rest]

end Agrees

theorem agrees_surface (k : CircuitKind) : Agrees p p Surface.Same (surface k) (surface k) := by
  intro s t hst
  have hs : Idle s (surface k s).state := idle_surface s k
  have ht : Idle t (surface k t).state := idle_surface t k
  have hoffers : Offers (surface k s).state (surface k t).state :=
    (hs.offered hst.left).symm.trans (hst.offers.trans (ht.offered hst.right))
  rw [surface_result, surface_result]
  refine ⟨.ok (hst.offers k).symm, ?_, ?_, hoffers, hs.sound hst.left, ht.sound hst.right⟩
  · obtain ⟨c, n, hc⟩ := surface_rest s k
    obtain ⟨d, m, hd⟩ := surface_rest t k
    rw [hc, hd, hst.rest]
  · obtain ⟨c, n, hc⟩ := surface_rest s k
    obtain ⟨d, m, hd⟩ := surface_rest t k
    rw [hc, hd]
    exact hst.pending

theorem agrees_callerContext : Agrees p True Eq callerContext callerContext := by
  intro s t hst
  have hh : t.handed = s.handed := by
    rw [handed_eq, handed_eq, hst.rest]
    rfl
  have hc : t.consumed = { s.consumed with cache := t.cache, dispatchers := t.dispatchers } := by
    rw [hst.rest]
    rfl
  rw [callerContext_state, callerContext_state]
  refine ⟨?_, hst.moved ?_ (fun _ => ?_) ⟨rfl, rfl⟩ ⟨rfl, rfl⟩⟩
  · change Answers Eq s.handed t.handed
    rw [hh]
    exact .of_eq _
  · rw [hc]
  · rw [hc]

theorem agrees_source (k : CircuitKind) : Agrees p (p ∨ k = .impure) Eq (source k) (source k) := by
  cases k with
  | pure =>
    have hsource : Agrees p p Eq (source .pure) (source .pure) :=
      Relates.read.bind fun s t hst => .pure (by rw [hst.current])
    exact hsource.weaken fun h => h.resolve_right (by simp)
  | impure => exact agrees_callerContext.weaken fun _ => trivial

theorem agrees_commit (hp : p) (h : Handed) : Agrees p p Eq (commit h) (commit h) := by
  refine .update fun s t hst => hst.moved ?_ (fun _ => rfl) ⟨rfl, rfl⟩ ⟨rfl, rfl⟩
  rw [hst.rest, hst.pending hp]

theorem agrees_asCaller (c : Option Caller) :
    Agrees p p Eq (Action.update (asCaller c)) (Action.update (asCaller c)) := by
  refine .update fun s t hst => hst.moved ?_ hst.pending ⟨rfl, rfl⟩ ⟨rfl, rfl⟩
  rw [hst.rest]
  rfl

theorem alike_match [Limits] : machine.Match Alike Eq (fun _ _ => True) machine where
  surface _ k := (agrees_surface k).mono fun x y h => ⟨h, x.of_true⟩
  bound {sv tv} hsv p m n b args _ := by
    have hcall : Agrees p (p ∨ b.kind = .impure) Eq (callCallable sv args (.bound m b))
        (callCallable tv args (.bound n b)) := by
      refine Bound.call_relates (H := Eq) b args (agrees_source b.kind) ?_ ?_
      · rintro g _ rfl
        exact hsv.run (fun _ => rfl) _ rfl (Program.blind_eq _)
      · rintro hk g _ rfl
        exact agrees_commit (.inr hk) g
    exact hcall.weaken .inl
  mark _ := Agrees.onManager _
  asCaller _ c := agrees_asCaller c
  contract _ _ _ h := ⟨h.contract.symm, fun _ _ _ _ => trivial⟩
  blind _ _ _ _ _ := Program.blind_eq _

theorem agrees_ask {f : Simulator → Except Failure α} (h : ∀ s t, Alike p s t → f s = f t) :
    Agrees p p Eq (ask f) (ask f) :=
  Relates.read.bind fun s t hst => .lift (by
    rw [h s t hst]
    exact .of_eq _)

theorem agrees_tell {x : Action Simulator Unit} (h : Agrees p q Eq x x) : Agrees p q Eq (tell x) (tell x) :=
  h.bind_eq fun _ => .pure rfl

theorem agrees_get {f : Simulator → α} (h : ∀ s t, Alike p s t → f s = f t) :
    Agrees p p Eq (do return f (← Action.read)) (do return f (← Action.read)) :=
  Relates.read.bind fun s t hst => .pure (h s t hst)

theorem agrees_onCache {x : Action (Cache Surface) Unit} (hok : ∀ c, (x c).result = .ok ())
    (hsteady : ∀ s, Steady s (onCache x s).state)
    (hoffers : ∀ s t, Alike p s t → Offers (onCache x s).state (onCache x t).state) :
    Agrees p p Eq (onCache x) (onCache x) := by
  intro s t hst
  refine ⟨?_, ?_, hst.pending, hoffers s t hst, (hsteady s).sound hst.left, (hsteady t).sound hst.right⟩
  · simp only [onCache, Action.within_result, hok]
    exact .ok rfl
  · simp only [onCache, Action.within_state]
    rw [hst.rest]

theorem agrees_resetDispatchers : Agrees p p Eq resetDispatchers resetDispatchers :=
  agrees_onCache (fun _ => rfl) steady_resetDispatchers fun _ _ hst => offers_resetDispatchers hst.contract

theorem agrees_put (k : CircuitKind) (label : Option Value) :
    Agrees p p Eq (onCache (Cache.put k (label.map Surface.standIn))) (onCache (Cache.put k (label.map .standIn))) :=
  agrees_onCache (fun _ => Cache.put_result _ _ _) (fun s => steady_put s k label) fun _ _ hst =>
    hst.offers.put hst.contract hst.left hst.right k label

theorem agrees_clearStats : Agrees p p Eq (onCache Cache.clearStats) (onCache Cache.clearStats) :=
  agrees_onCache (fun _ => rfl) steady_clearStats fun _ _ hst => hst.offers.clearStats

section
variable [Limits]

theorem agrees_setWitnesses (table : Value) : Agrees p p Eq (setWitnesses table) (setWitnesses table) := by
  intro s t hst
  have hconfig : t.config = s.config := by rw [hst.rest]
  -- In one go: between the new contract and the emptied cache the simulators are not sound.
  simp only [setWitnesses, Action.bind_result, Action.bind_state, Action.lift_result, Action.lift_state]
  cases Witnesses.validate table with
  | error e => exact ⟨.error e, hst⟩
  | ok ws =>
    simp only [Action.update_result, Action.update_state, Action.read_result, Action.read_state, hconfig]
    cases s.config.contract (Witnesses.ofValue ws) with
    | error e =>
      refine ⟨.error e, hst.moved ?_ hst.pending ⟨rfl, rfl⟩ ⟨rfl, rfl⟩⟩
      rw [hst.rest]
    | ok a =>
      refine ⟨.ok rfl, ?_, hst.pending, fun k => ?_, sound_invalidated _, sound_invalidated _⟩
      · rw [hst.rest]
        rfl
      · exact .dispatcher _ _ _

theorem agrees_overrideWitness (name fn : Value) :
    Agrees p p Eq (overrideWitness name fn) (overrideWitness name fn) := by
  refine Relates.read.bind fun s t hst => ?_
  have hw : t.witnesses = s.witnesses := by rw [hst.rest]
  rw [hw]
  split
  · exact agrees_setWitnesses _
  · exact .fail _

theorem agrees_perform (op : Operation) : Agrees p p Eq (perform op) (perform op) := by
  rw [← machine_perform]
  refine alike_match.perform_eq p fun hcalls => ?_
  change Agrees p p Eq (perform op) (perform op)
  cases op with
  | asCaller c => exact (agrees_asCaller c).bind_eq fun _ => .pure rfl
  | persistentCaller c =>
    refine agrees_tell (.update fun s t hst => hst.moved ?_ hst.pending ⟨rfl, rfl⟩ ⟨rfl, rfl⟩)
    rw [hst.rest]
    rfl
  | resetCaller =>
    refine agrees_tell (.update fun s t hst => hst.moved ?_ hst.pending ⟨rfl, rfl⟩ ⟨rfl, rfl⟩)
    rw [hst.rest]
    rfl
  | callerContext =>
    exact Agrees.weaken (agrees_callerContext.bind_eq fun h => .pure rfl) fun _ => trivial
  | current => exact agrees_get fun s t hst => by rw [hst.current]
  | write h => exact agrees_tell (.onManager _)
  | updatePrivate v =>
    exact (Agrees.onManager _).bind_eq fun _ => agrees_get fun s t hst => by rw [hst.current]
  | rebuild sender carryover =>
    refine (Relates.lift (.of_eq _)).bind_eq fun text => ?_
    exact (agrees_ask fun s t hst => by rw [hst.manager]).bind_eq fun c => .pure rfl
  | switchSender sender carryover =>
    exact (Agrees.onManager _).bind_eq fun _ => agrees_get fun s t hst => by rw [hst.current]
  | setCarryover c => exact agrees_tell (.onManager _)
  | senderContext sender =>
    refine (Relates.lift (.of_eq _)).bind_eq fun text => ?_
    exact (agrees_ask fun s t hst => by rw [hst.rest]; rfl).bind_eq fun c => .pure rfl
  | publicState => exact (agrees_ask fun s t hst => by rw [hst.rest]; rfl).bind_eq fun v => .pure rfl
  | privateState => exact agrees_get fun s t hst => by rw [hst.rest]; rfl
  | contractState => exact agrees_get fun s t hst => by rw [hst.rest]; rfl
  | witnessContext => exact (agrees_ask fun s t hst => by rw [hst.rest]; rfl).bind_eq fun w => .pure rfl
  | witnesses => exact agrees_get fun s t hst => by rw [hst.rest]
  | setWitnesses t => exact agrees_tell (agrees_setWitnesses t)
  | overrideWitness n f => exact agrees_tell (agrees_overrideWitness n f)
  | resetDispatchers => exact agrees_tell agrees_resetDispatchers
  | cachePut k label => exact agrees_tell (agrees_put k label)
  | cacheClearStats => exact agrees_tell agrees_clearStats
  | call | callHeld | direct | names => cases hcalls

def history : List Operation → Simulator → List (Except Failure Reply × Held)
  | [], _ => []
  | op :: ops, s => ((perform op s).result, (s.after op).current) :: history ops (s.after op)

/-- Nobody can tell simulators alike from each other, whatever is done to them. -/
theorem Alike.history (h : Alike p s t) (ops : List Operation) : history ops t = history ops s := by
  induction ops generalizing s t with
  | nil => rfl
  | cons op ops ih =>
    obtain ⟨hr, hs⟩ := agrees_perform op s t h
    have hcurrent : (t.after op).current = (s.after op).current := hs.current
    rw [Simulator.history, Simulator.history, hr.eq, hcurrent]
    congr 1
    exact ih hs

end

end Simulator
end CircuitHarness
