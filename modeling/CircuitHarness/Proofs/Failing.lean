import CircuitHarness.Proofs.Agreement
import CircuitHarness.Proofs.Tracking

/-! An impure call that fails leaves nothing behind but a one-shot caller used up: from then on nothing tells it from
the caller having been cleared. A result without its value is committed before the call fails over it. -/
namespace CircuitHarness

/-- The same manager, but with marks given away that nothing goes by. -/
def Manager.pass (n : Nat) (m : Manager) : Manager := { m with made := m.made+n }

namespace Simulator

def cleared (n : Nat) (s : Simulator) : Simulator := { s with caller := none, manager := s.manager.pass n }

variable {config : Config} {s t : Simulator} {op : Operation} {m : Mark} {b : Bound Circuit} {args : List Value}

theorem Idle.consumed (h : Idle s t) : Idle s.consumed t.consumed where
  rest := by
    have hp : t.consumed.pending = s.consumed.pending := by
      rw [h.rest]
      rfl
    rw [h.rest]
    rfl
  made := h.made
  sound hs := (h.sound (hs.moved rfl rfl)).moved rfl rfl
  offered hs := by
    have ho : Offers s t := h.offered (hs.moved rfl rfl)
    exact ho

theorem idle_failed_call [Limits] (hb : b.kind = .impure) (hquiet : b.circuit.Quiet) (hwhole : b.circuit.Whole)
    (hs : s.Sound) (hq : s.PureQuiet) {e : Failure} (hf : (call (.bound m b) args s).result = .error e) :
    Idle s.consumed (call (.bound m b) args s).state := by
  cases impureEnd (services Limits.calls) args m hb s with
  | unread f hg hr ht =>
    rw [call, ht]
    exact .refl _
  | failed g f hg hx hr ht =>
    rw [call, ht]
    exact (still_services Limits.calls).run g (hquiet _ _) (hs.moved rfl rfl) hq
  | committed g v left hg hx hr ht =>
    obtain ⟨w, rfl⟩ := Program.run_whole (hwhole _ _) hx
    rw [call, hr] at hf
    cases hf

theorem hollow_call [Limits] (hb : b.kind = .impure) {g left : Handed} {f : Failure} (hg : s.handed = .ok g)
    (hx : ((b.circuit g.context args).run (services Limits.calls) g s.consumed).result = .ok (.error f, left)) :
    (call (.bound m b) args s).result = .error f ∧ (call (.bound m b) args s).state.context = left.context := by
  obtain ⟨hr, ht⟩ := callCallable_impure (services Limits.calls) args m hb s
  rw [call, hr, ht, hg]
  dsimp only
  rw [hx]
  exact ⟨rfl, hold_context _ _⟩

/-- Standing still after the context was read is all but standing still with the caller cleared. -/
theorem Idle.alike_cleared (h : Idle s.consumed t) (hs : s.Sound) :
    Alike False (s.cleared (t.manager.made-s.manager.made)) t where
  rest := by
    have hmade : s.manager.made+(t.manager.made-s.manager.made) = t.manager.made := Nat.add_sub_cancel' h.made
    have hpending : t.pending = s.consumed.pending := by rw [h.rest]
    rw [cleared, Manager.pass, hmade, hpending]
    exact h.rest
  pending hf := hf.elim
  offers := (offers_of_eq rfl rfl).trans (h.offered (hs.moved rfl rfl))
  left := hs.moved rfl rfl
  right := h.sound (hs.moved rfl rfl)

/-- An impure call that fails, of a quiet circuit whose results have their values, leaves the current context in its
place, and the persistent caller, the witnesses and the contract; whatever is done afterwards comes out as if the
one-shot caller had been cleared and nothing else. A call that fails over a result without its value leaves the result's
context behind. A call that finds no circuit does not even clear the caller. -/
theorem failed_call_leaves_nothing [Limits] (hs : Reachable config s) :
    (∀ (op : Operation) (m : Mark) (b : Bound Circuit) (args : List Value) (e : Failure),
      op.callee s = some (.bound m b, args) → b.kind = .impure → b.circuit.Quiet → b.circuit.Whole → s.PureQuiet →
      (perform op s).result = .error e →
        (s.after op).current = s.current ∧ (s.after op).persistentCaller = s.persistentCaller ∧
        (s.after op).witnesses = s.witnesses ∧ (s.after op).contract = s.contract ∧
        ∀ ops, history ops (s.after op) =
          history ops (s.cleared ((s.after op).manager.made-s.manager.made))) ∧
    (∀ (op : Operation) (m : Mark) (b : Bound Circuit) (args : List Value),
      op.callee s = some (.bound m b, args) → b.kind = .impure → ∃ t, Idle s t ∧
        ∀ g f left, s.handed = .ok g →
          ((b.circuit g.context args).run (services Limits.calls) g t.consumed).result = .ok (.error f, left) →
          (perform op s).result = .error f ∧ (s.after op).context = left.context) ∧
    ∀ op : Operation, op.Misses s → (∃ e, (perform op s).result = .error e) ∧ (s.after op).caller = s.caller ∧
      ∀ ops, history ops (s.after op) = history ops s := by
  have hsound : s.Sound := hs.rooted.sound
  refine ⟨fun op m b args e hc hb hquiet hwhole hq hf => ?_, fun op m b args hc hb => ?_, fun op hm => ?_⟩
  · obtain ⟨t, hi, hr, ht⟩ := perform_callee hsound hc
    rw [hr] at hf
    have hcall : ∃ f, (call (.bound m b) args t).result = .error f := by
      cases hx : (call (.bound m b) args t).result with
      | error f => exact ⟨f, rfl⟩
      | ok v =>
        rw [hx] at hf
        cases hf
    obtain ⟨f, hx⟩ := hcall
    have hidle : Idle s.consumed (s.after op) := by
      rw [after, ht]
      exact hi.consumed.trans (idle_failed_call hb hquiet hwhole (hi.sound hsound) (hi.pureQuiet hq) hx)
    refine ⟨?_, ?_, ?_, hidle.contract, (hidle.alike_cleared hsound).history⟩
    · rw [hidle.rest]
      rfl
    · rw [hidle.rest]
      rfl
    · rw [hidle.rest]
      rfl
  · obtain ⟨t, hi, hr, ht⟩ := perform_callee hsound hc
    refine ⟨t, hi, fun g f left hg hx => ?_⟩
    obtain ⟨hres, hcontext⟩ := hollow_call (m := m) hb (hi.handed.trans hg) hx
    rw [hr, hres, after, ht]
    exact ⟨rfl, hcontext⟩
  · obtain ⟨he, hi, c, n, hst⟩ := perform_misses hsound hm
    have halike : Alike True s (s.after op) := by
      refine ⟨?_, fun _ => ?_, hi.offered hsound, hsound, hi.sound hsound⟩
      · rw [after, hst]
      · rw [after, hst]
    refine ⟨he, ?_, halike.history⟩
    rw [halike.rest]

def counterNamed : Simulator := counter.after (.asCaller (some (.text "ab")))

def refused : Operation := .call .impure (.str "setVal") [.int (-1)] .item

theorem refused_leaves_nothing :
    Reachable Simple.config counterNamed ∧
    (perform refused counterNamed).result = .error (.assertion "failed assert: Simple: value must be non-negative") ∧
    (counterNamed.after refused).current = counterNamed.current ∧
    (counterNamed.after refused).persistentCaller = counterNamed.persistentCaller ∧
    (counterNamed.after refused).witnesses = counterNamed.witnesses ∧
    (counterNamed.after refused).contract = counterNamed.contract ∧
    ∀ ops, history ops (counterNamed.after refused) =
      history ops (counterNamed.cleared ((counterNamed.after refused).manager.made-counterNamed.manager.made)) := by
  have hb : build "Counter" Simple.config 0 (.list []) .none = .ok counter := counter_built
  have hknown : Operation.Known counter (.asCaller (some (.text "ab"))) := trivial
  have hr : Reachable Simple.config counterNamed := .step (.build hb) hknown
  have hcall : refused.callee counterNamed =
      some (.bound ⟨0, 0⟩ ⟨.impure, "setVal", fun c as => .ofResult (Simple.setVal c as)⟩, [.int (-1)]) := by rfl
  have hfail : (perform refused counterNamed).result =
      .error (.assertion "failed assert: Simple: value must be non-negative") := by cbv
  have htidy : Circuit.Tidy .impure fun c as => .ofResult (Simple.setVal c as) :=
    Circuit.tidy_ofResult (fun c as v d => Simple.setVal_key) .impure
  exact ⟨hr, hfail, (failed_call_leaves_nothing hr).1 refused _ _ _ _ hcall rfl htidy.quiet htidy.whole
    (hr.rooted.pureQuiet Simple.tidy.orderly) hfail⟩

end Simulator

namespace Reckless

/-- Circuits that do something to the simulator they run on before they fail, and one whose result has no value. -/
def circuits : List (String × Circuit) :=
  [("writing", fun c _ => .done (.ok .none) (some c)),
    ("calling", fun _ _ => .call .impure (.str "writing") (.list []) fun _ => .fail .wrongType),
    ("naming", fun _ _ => .asCaller (some (.text "ab")) (.fail .wrongType)),
    ("hollow", fun c _ => .done (.error .noAttribute) (some { c with payload := .int 1 }))]

def contract : Artifact := ⟨.ofList [], .ofList circuits, fun c _ => .ok ⟨Simple.start, c.privateState⟩⟩

def config : Config := { Simple.config with contract := fun _ => .ok contract }

def simulator : Simulator := { Simulator.counter with name := "Reckless", config := config, contract := contract }

end Reckless

namespace Simulator

/-- A circuit that has called another one before it fails leaves behind what that one committed, one that has named a
caller leaves the caller behind, and a call that fails over a result without its value has committed it. -/
theorem reckless_call_leaves_traces :
    build "Reckless" Reckless.config 0 (.list []) .none = .ok Reckless.simulator ∧
    ((perform (.call .impure (.str "calling") [] .item) Reckless.simulator).result = .error .wrongType ∧
      Reckless.simulator.current.mark = ⟨0, 0⟩ ∧
      (Reckless.simulator.after (.call .impure (.str "calling") [] .item)).current.mark = ⟨0, 1⟩) ∧
    ((perform (.call .impure (.str "naming") [] .item) Reckless.simulator).result = .error .wrongType ∧
      (Reckless.simulator.cleared 0).handed.map (·.context.key) = .ok (List.replicate 32 0) ∧
      (Reckless.simulator.after (.call .impure (.str "naming") [] .item)).handed.map (·.context.key) = .ok [0xab]) ∧
    (perform (.call .impure (.str "hollow") [] .item) Reckless.simulator).result = .error .noAttribute ∧
      Reckless.simulator.context.payload = Simple.start ∧
      (Reckless.simulator.after (.call .impure (.str "hollow") [] .item)).context.payload = .int 1 := by
  refine ⟨by rfl, ⟨?_, rfl, ?_⟩, ⟨?_, ?_, ?_⟩, ?_, rfl, ?_⟩
  · cbv
  · cbv
  · cbv
  · cbv
  · cbv
  · cbv
  · cbv

end Simulator
end CircuitHarness
