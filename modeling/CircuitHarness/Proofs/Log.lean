import CircuitHarness.Proofs.Desk
import CircuitHarness.Proofs.Reachable

/-! A simulator beside a log of what went on in it: the dispatchers built, the circuits run, what they came to, what was
committed and what was written. Keeping the log changes nothing for whoever uses the simulator. -/
namespace CircuitHarness

abbrev Logged.Came := Except Failure (Except Failure Value × CircuitContext)

/-- `began` names the dispatcher that the circuit was taken from and the context it was handed. -/
inductive Event where
  | built (mark : Mark) (kind : CircuitKind) (contract : Artifact)
  | began (mark : Mark) (b : Bound Circuit) (args : List Value) (given : CircuitContext)
  | ended (b : Bound Circuit) (came : Logged.Came)
  | committed (c : CircuitContext)
  | wrote (c : CircuitContext)

structure Logged where
  host : Simulator
  log : List Event

def Operation.written (s : Simulator) : Operation → Option CircuitContext
  | .write h => some h.context
  | .updatePrivate p => some { s.context with privateState := p }
  | .switchSender sender carryover =>
    sender.key?.map fun k => s.context.rekey k (carryover.getD s.manager.carryover)
  | _ => none

namespace Logged

def onHost (x : Action Simulator α) : Action Logged α := x.within Logged.host fun s l => { l with host := s }

def record (e : Event) : Action Logged Unit := Action.update fun l => { l with log := e :: l.log }

def buildDispatcher (k : CircuitKind) : Action Logged (Option Surface) := do
  let l ← Action.read
  record (.built ⟨l.host.manager.maker, l.host.dispatchers⟩ k l.host.contract)
  onHost (Simulator.buildDispatcher k)

def source (m : Mark) (b : Bound Circuit) (args : List Value) : Action Logged Handed := do
  let given ← onHost (Simulator.source b.kind)
  record (.began m b args given.context)
  return given

def run (sv : Services Logged) (b : Bound Circuit) (f : Circuit) (given : Handed) (args : List Value) :
    Action Logged (Except Failure Value × Handed) := do
  let came ← Action.attempt ((f given.context args).run sv given)
  record (.ended b (came.map fun x => (x.1, x.2.context)))
  Action.lift came

def commit (left : Handed) : Action Logged Unit := do
  onHost (Simulator.commit left)
  record (.committed left.context)

def noting (l : Logged) : Option CircuitContext → Logged
  | some c => { l with log := .wrote c :: l.log }
  | none => l

def recordWrite (op : Operation) : Action Logged Unit := Action.update fun l => l.noting (op.written l.host)

/-- Every part does what the simulator's own does, and takes a note of it. -/
def machine [Limits] : Machine Logged where
  surface k := do
    match ← Cache.getOrBuild (·.host.cache) (fun c l => { l with host := { l.host with cache := c } })
      (buildDispatcher k) k with
    | some d => return d
    | none => Action.fail .noAttribute
  bound sv m b args := b.call (source m b args) commit (run sv b) args
  mark := onHost (Simulator.onManager Manager.nextMark)
  asCaller c := onHost (Action.update (Simulator.asCaller c))
  contract l := l.host.contract
  rest op := do
    recordWrite op
    onHost (Simulator.perform op)

def front [Limits] : Front Logged := machine.front fun l => l.host.current

open CircuitHarness.Action (Relates)
variable {L : List (Mark × Mark)} {l : Logged} {s : Simulator}

structure Follows (L : List (Mark × Mark)) (l : Logged) (s : Simulator) : Prop where
  host : l.host = s
  marks : ∀ x ∈ L, x.1 = x.2

def lookedUp (k : CircuitKind) (l : Logged) : List Event :=
  if (l.host.cache.ready k).isSome then l.log
  else .built ⟨l.host.manager.maker, l.host.dispatchers⟩ k l.host.contract :: l.log

theorem surface_eq [Limits] (k : CircuitKind) (l : Logged) :
    (machine.surface k l).result = .ok (l.host.offered k) ∧
      (machine.surface k l).state = ⟨(Simulator.surface k l.host).state, l.lookedUp k⟩ := by
  cases h : l.host.cache.ready k with
  | some x =>
    obtain ⟨hr, hs⟩ := Cache.getOrBuild_of_ready (fun l : Logged => l.host.cache)
      (fun c l => { l with host := { l.host with cache := c } }) (buildDispatcher k) h
    obtain ⟨hr', hs'⟩ := Cache.getOrBuild_of_ready Simulator.cache (fun c s => { s with cache := c })
      (Simulator.buildDispatcher k) h
    have ho : l.host.offered k = x := by simp [Simulator.offered, h]
    simp [machine, Simulator.surface, Action.bind_result, Action.bind_state, hr, hs, hr', hs', ho, lookedUp, h]
  | none =>
    obtain ⟨hr, hs⟩ := Cache.getOrBuild_of_built (fun l : Logged => l.host.cache)
      (fun c l => { l with host := { l.host with cache := c } }) (buildDispatcher k) (v := some (l.host.offered k)) h
      (by simp [buildDispatcher, record, onHost, Action.bind_result, Simulator.buildDispatcher,
        Simulator.offered, Dispatcher.ofMapping_eq, h])
    obtain ⟨hr', hs'⟩ := Cache.getOrBuild_of_built Simulator.cache (fun c s => { s with cache := c })
      (Simulator.buildDispatcher k) (v := some (l.host.offered k)) h
      (by simp [Simulator.buildDispatcher, Simulator.offered, Dispatcher.ofMapping_eq, h])
    simp only [machine, Simulator.surface, Action.bind_result, Action.bind_state, hr, hs, hr', hs']
    refine ⟨rfl, ?_⟩
    simp only [lookedUp, h]
    rfl

theorem run_eq (sv : Services Logged) (b : Bound Circuit) (f : Circuit) (given : Handed) (args : List Value) (l : Logged) :
    let o := (f given.context args).run sv given l
    (run sv b f given args l).result = o.result ∧
      (run sv b f given args l).state =
        { o.state with log := .ended b (o.result.map fun x => (x.1, x.2.context)) :: o.state.log } := by
  simp only [run, record, Action.bind_result, Action.bind_state, Action.attempt_result, Action.attempt_state,
    Action.update_result, Action.update_state, Action.lift_result, Action.lift_state, and_self]

section
variable [Limits]

end

end Logged
end CircuitHarness
