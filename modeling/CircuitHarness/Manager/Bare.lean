import CircuitHarness.Simulator.Operation

/-! A context manager with its two dispatchers and nothing else: no cache and no overrides. -/
namespace CircuitHarness

structure Bare where
  contract : Artifact
  manager : Manager

namespace Bare

def dispatcher (k : CircuitKind) (b : Bare) : Dispatcher Circuit := .ofMapping k (b.contract.circuits k)

def built (b : Bare) : List Notice :=
  [Manager.started b.manager.current.context.address, (b.dispatcher .pure).built, (b.dispatcher .impure).built]

def onManager (x : Action Manager α) : Action Bare α := x.within Bare.manager fun m b => { b with manager := m }

def source : Action Bare Handed := do return (← Action.read).manager.current.handed

def commit (h : Handed) : Action Bare Unit := Action.update fun b => { b with manager := b.manager.adopt h }

def services : Nat → Services Bare
  | 0 => ⟨onManager Manager.nextMark, fun _ => Action.fail .noAttribute, fun _ _ _ => Action.fail .tooDeep⟩
  | n+1 => ⟨onManager Manager.nextMark, fun _ => Action.fail .noAttribute, fun k name args => do
      let c ← Action.lift (((← Action.read).dispatcher k).item name)
      c.callCircuit source commit (services n) (← Action.lift args.items)⟩

def call [Limits] (c : Bound Circuit) (args : List Value) : Action Bare Value :=
  c.callCircuit source commit (services Limits.calls) args

def execute [Limits] (given : Handed) (p : Program) : Action Bare (Except Failure Value × Handed) :=
  p.run (services Limits.calls) given

def reach (k : CircuitKind) (name : Value) (route : Route) : Action Bare Callable := do
  let b ← Action.read
  match route with
  | .both => Action.fail .noAttribute
  | _ => Action.lift ((Surface.dispatcher ⟨b.manager.maker, 0⟩ (b.dispatcher k)).find name route)

def callFound [Limits] (args : List Value) : Callable → Action Bare Reply
  | .bound _ f => do return .value (← call f args)
  | .standIn .. => Action.fail .noAttribute

def perform [Limits] : Operation → Action Bare Reply
  | .call k name args route => do callFound args (← reach k name route)
  | .callHeld c args => callFound args c
  | .direct k name given args => do
    let c ← Action.lift ((← Action.read).contract.circuit k name)
    let (v, left) ← execute given.handed (c given.context args)
    return .result (← Action.lift v) left
  | .current => do return .context (← source)
  | .write h => do
    commit h
    return .itself
  | .updatePrivate p => do
    onManager (Action.update (Manager.updatePrivate p))
    return .context (← source)
  | .rebuild sender carryover => do
    let sender ← Action.lift sender.asSender
    return .context (.fresh (← Action.lift ((← Action.read).manager.rebuild sender carryover)))
  | .switchSender sender carryover => do
    let _ ← onManager (Manager.switchSender sender carryover)
    return .context (← source)
  | .setCarryover c => do
    onManager (Action.update fun m => { m with carryover := c })
    return .nothing
  | .names => do
    let b ← Action.read
    return .names (b.dispatcher .pure).names (b.dispatcher .impure).names
  | _ => Action.fail .noAttribute

end Bare
end CircuitHarness
