import CircuitHarness.Proofs.Agreement
import CircuitHarness.Proofs.Desk
import CircuitHarness.Proofs.Samples

/-! The dispatcher cache cannot be seen. As long as nothing is put into it from outside, a simulator shows what one does
that never looks into a cache and builds a dispatcher over its contract whenever one is asked for. -/
namespace CircuitHarness

def Operation.Puts : Operation → Prop
  | .cachePut .. => True
  | _ => False

namespace Simulator
open CircuitHarness.Action (Relates)

/-- The same simulator, but for the cache: whoever asks for a dispatcher gets a new one, also a running circuit. -/
def uncached [Limits] : Machine Simulator :=
  { machine with
    surface := fun k => do
      match ← buildDispatcher k with
      | some d => return d
      | none => Action.fail .noAttribute }

def Clear (s : Simulator) : Prop := ∀ k v, s.cache.slot k = some v → ∃ m d, v = some (.dispatcher m d)

def Unfilled (s : Simulator) : Prop := ∀ k, s.cache.slot k = none

variable {s t : Simulator}

theorem Unfilled.clear (h : s.Unfilled) : s.Clear := by
  intro k v hv
  rw [h k] at hv
  cases hv

theorem Clear.offered (h : s.Clear) (hs : s.Sound) (k : CircuitKind) :
    ∃ m, s.offered k = .dispatcher m ⟨k, s.contract.circuits k⟩ := by
  cases hx : s.offered k with
  | dispatcher m d => exact ⟨m, by rw [hs.offered hx]⟩
  | standIn label =>
    rw [Simulator.offered] at hx
    cases hr : s.cache.ready k with
    | none =>
      rw [hr] at hx
      cases hx
    | some x =>
      rw [hr] at hx
      change x = _ at hx
      subst hx
      have hl : s.cache.live k = some (some (.standIn label)) := Option.join_eq_some_iff.mp hr
      rw [Cache.live] at hl
      split at hl
      · obtain ⟨m, d, hd⟩ := h k _ hl
        cases hd
      · cases hl

theorem Clear.surface (h : s.Clear) (hs : s.Sound) (k : CircuitKind) : (surface k s).state.Clear := by
  intro j v hv
  obtain ⟨-, ⟨ht, -⟩ | ⟨ht, -⟩⟩ := surface_eq s k
  · rw [ht] at hv
    exact h j v ((Cache.slot_counted _ _ _).symm.trans hv)
  · rw [ht] at hv
    have hslot : ((s.cache.counted k).fill (some (s.offered k)) k).slot j = some v := by cases j <;> exact hv
    rw [Cache.slot_fill, Cache.slot_counted] at hslot
    split at hslot
    · obtain ⟨m, hm⟩ := h.offered hs k
      cases hslot
      exact ⟨m, _, by rw [hm]⟩
    · exact h j v hslot

/-- The simulator on the left has a cache, the one on the right never uses its own; nothing else tells them apart, and
contexts go by the same marks. -/
structure Mirrors (L : List (Mark × Mark)) (s t : Simulator) : Prop where
  alike : Alike True s t
  clear : s.Clear
  unfilled : t.Unfilled
  marks : ∀ x ∈ L, x.1 = x.2

variable {L : List (Mark × Mark)} {α β : Type} {R : α → β → Prop}

theorem Agrees.mirrors {x : Action Simulator α} {y : Action Simulator β} (h : Agrees True True R x y)
    (hx : ∀ s, s.Clear → (x s).state.Clear) (hy : ∀ t, t.Unfilled → (y t).state.Unfilled) :
    Relates (Mirrors L) (Mirrors L) R x y := by
  intro s t hst
  obtain ⟨hr, hs⟩ := h s t hst.alike
  exact ⟨hr, hs, hx s hst.clear, hy t hst.unfilled, hst.marks⟩

section
variable [Limits]

theorem mirrors_surface (k : CircuitKind) :
    Relates (Mirrors L) (Mirrors L) (fun x y => x.Same y ∧ x.Of fun _ _ => True) (surface k) (uncached.surface k) := by
  intro s t hst
  have hi : Idle s (surface k s).state := idle_surface s k
  obtain ⟨m, hm⟩ := hst.clear.offered hst.alike.left k
  have hcontract : t.contract = s.contract := hst.alike.contract
  have hr : (uncached.surface k t).result =
      .ok (.dispatcher ⟨t.manager.maker, t.dispatchers⟩ ⟨k, t.contract.circuits k⟩) := by
    rw [← Dispatcher.ofMapping_eq]
    rfl
  have ht : (uncached.surface k t).state = { t with dispatchers := t.dispatchers+1 } := rfl
  obtain ⟨c, n, hc⟩ := surface_rest s k
  rw [surface_result, hr, hm, hcontract, ht]
  refine ⟨.ok ⟨.dispatcher _ _ _, fun _ _ _ => trivial⟩, ⟨?_, ?_, ?_, ?_, ?_⟩, ?_, hst.unfilled, hst.marks⟩
  · rw [hc, hst.alike.rest]
  · rw [hc]
    exact hst.alike.pending
  · exact (hi.offered hst.alike.left).symm.trans (hst.alike.offers.trans (offers_of_eq rfl rfl))
  · exact hi.sound hst.alike.left
  · exact hst.alike.right.moved rfl rfl
  · exact hst.clear.surface hst.alike.left k

theorem mirrors_mark : Relates (Mirrors L) (Mirrors L) Eq machine.mark uncached.mark :=
  Agrees.mirrors (.onManager _) (fun _ h => h) fun _ h => h

theorem mirrors_asCaller (c : Option Caller) :
    Relates (Mirrors L) (Mirrors L) Eq (machine.asCaller c) (uncached.asCaller c) :=
  Agrees.mirrors (agrees_asCaller c) (fun _ h => h) fun _ h => h

end

theorem mirrors_source (k : CircuitKind) : Relates (Mirrors L) (Mirrors L) Eq (source k) (source k) := by
  cases k with
  | pure => exact Relates.read.bind fun s t hst => .pure (by rw [hst.alike.current])
  | impure =>
    have hread : Relates (Mirrors L) (Mirrors L) Eq callerContext callerContext := by
      refine Agrees.mirrors agrees_callerContext (fun s h => ?_) fun t h => ?_
      · rw [callerContext_state]
        exact h
      · rw [callerContext_state]
        exact h
    exact hread

theorem mirrors_commit (h : Handed) : Relates (Mirrors L) (Mirrors L) Eq (commit h) (commit h) :=
  Agrees.mirrors (agrees_commit trivial h) (fun _ h => h) fun _ h => h

section
variable [Limits]

theorem mirrors_rest {op : Operation} (hop : op.calls = false) (hput : ¬op.Puts) :
    Relates (Mirrors L) (Mirrors L) Eq (perform op) (perform op) := by
  have kept (s : Simulator) (k : CircuitKind) :
      (s.after op).cache.slot k = s.cache.slot k ∨ (s.after op).cache.slot k = none := by
    obtain hk | hk | ⟨label, rfl, -⟩ := (slot_after hop s k).2
    · exact .inl hk
    · exact .inr hk
    · exact absurd trivial hput
  refine Agrees.mirrors (agrees_perform op) (fun s hs k v hv => ?_) fun t ht k => ?_
  · obtain hk | hk := kept s k
    · exact hs k v (hk.symm.trans hv)
    · cases hk.symm.trans hv
  · obtain hk | hk := kept t k
    · exact hk.trans (ht k)
    · exact hk

theorem uncached_match : machine.Match Mirrors Eq (fun _ _ => True) uncached where
  surface _ k := mirrors_surface k
  bound hsv i m n b args _ := by
    refine Bound.call_relates (H := Eq) b args (mirrors_source b.kind) ?_ ?_
    · rintro g _ rfl
      exact hsv.run (fun _ => rfl) i rfl (Program.blind_eq _)
    · rintro - g _ rfl
      exact mirrors_commit g
  mark _ := mirrors_mark
  asCaller _ c := mirrors_asCaller c
  contract _ s t hst := ⟨hst.alike.contract.symm, fun _ _ _ _ => trivial⟩
  blind _ _ _ c args := Program.blind_eq _

theorem uncached_front : Simulator.front.Match Mirrors (fun _ _ => True) (fun op => ¬op.Puts)
    (uncached.front Simulator.current) := by
  have hperform (L : List (Mark × Mark)) (op : Operation) (hop : ¬op.Puts) :
      Relates (Mirrors L) (Mirrors L) (fun r r' => r.unmarked = r'.unmarked) (machine.perform op)
        (uncached.perform op) :=
    uncached_match.perform L (fun c args _ => c.of_true) fun hcalls =>
      (mirrors_rest hcalls hop).mono fun r r' h => by rw [h]
  rw [← front_machine]
  refine ⟨fun L k => uncached_match.surface L k, fun L c d args hcd hc => uncached_match.call L hcd hc args,
    hperform, fun L x c hx => ?_, fun L s t hst => ?_⟩
  · intro s t hst
    rw [← hst.marks x hx]
    exact hperform L (.write ⟨c, some x.1⟩) id s t hst
  · have hcurrent : t.current = s.current := hst.alike.current
    refine ⟨congrArg Held.context hcurrent.symm, hst.alike, hst.clear, hst.unfilled, fun x hx => ?_⟩
    obtain rfl | hx := List.mem_cons.mp hx
    · exact congrArg Held.mark hcurrent.symm
    · exact hst.marks x hx

theorem mirrors_start {name : String} {config : Config} {maker : Nat} {args options : Value} {start : Simulator}
    (hb : build name config maker args options = .ok start) :
    Desk.Match Mirrors (fun _ _ => True) [] (Desk.start start) (Desk.start start) := by
  have hsound : start.Sound := (Rooted.of_build hb).sound
  have hunfilled : start.Unfilled := by
    obtain ⟨ws, contract, context, -, rfl⟩ := build_spec hb
    intro k
    cases k <;> rfl
  exact ⟨⟨⟨rfl, fun _ => rfl, .refl start, hsound, hsound⟩, hunfilled.clear, hunfilled, fun x hx => by cases hx⟩, .nil, .nil⟩

/-- A simulator built and operated on in any way, but for direct puts into its cache, shows in every move what one does
that builds a dispatcher each time: the same answers, failures and contexts. The two are at no point different but in
their caches, of which the second stays empty, and the first holds dispatchers over its current contract only. -/
theorem cache_is_transparent {name : String} {config : Config} {maker : Nat} {args options : Value} {start : Simulator}
    (hb : build name config maker args options = .ok start) {ms : List Move}
    (hms : ∀ op, .operate op ∈ ms → ¬op.Puts) :
    let cached := Simulator.front.run ms (Desk.start start)
    let plain := (uncached.front Simulator.current).run ms (Desk.start start)
    (uncached.front Simulator.current).history ms (Desk.start start) = Simulator.front.history ms (Desk.start start) ∧
    plain.host = { cached.host with cache := plain.host.cache, dispatchers := plain.host.dispatchers } ∧
    plain.host.Unfilled ∧
    ∀ k v, cached.host.cache.slot k = some v →
      ∃ m, v = some (.dispatcher m ⟨k, cached.host.contract.circuits k⟩) := by
  obtain ⟨hhistory, L, hend⟩ := uncached_front.run (mirrors_start hb) hms
  refine ⟨hhistory.symm, ?_, hend.host.unfilled, fun k v hv => ?_⟩
  · have hpending := hend.host.alike.pending trivial
    have hrest := hend.host.alike.rest
    rw [hpending] at hrest
    exact hrest
  · obtain ⟨m, d, rfl⟩ := hend.host.clear k v hv
    exact ⟨m, by rw [hend.host.alike.left.own k m d hv]⟩

end

def keepAndReplace : List Move :=
  [.access .impure true, .operate (.setWitnesses (.map [])), .through 0 (.str "setVal") [.int 5] .item,
    .operate (.call .pure (.str "getVal") [] .item), .operate .resetDispatchers,
    .operate (.call .pure (.str "getVal") [] .member)]

theorem keepAndReplace_transparent :
    let cached := Simulator.front.run keepAndReplace (Desk.start counter)
    let plain := (uncached.front Simulator.current).run keepAndReplace (Desk.start counter)
    (uncached.front Simulator.current).history keepAndReplace (Desk.start counter) =
      Simulator.front.history keepAndReplace (Desk.start counter) ∧
    plain.host = { cached.host with cache := plain.host.cache, dispatchers := plain.host.dispatchers } ∧
    plain.host.Unfilled ∧
    ∀ k v, cached.host.cache.slot k = some v →
      ∃ m, v = some (.dispatcher m ⟨k, cached.host.contract.circuits k⟩) := by
  refine cache_is_transparent counter_built fun op hop => ?_
  simp only [keepAndReplace, List.mem_cons, Move.operate.injEq, reduceCtorEq, List.not_mem_nil, or_false, false_or] at hop
  obtain rfl | rfl | rfl | rfl := hop <;> exact id

end Simulator
end CircuitHarness
