import CircuitHarness.Simulator.Build

/-! What can be done with a simulator from outside, one operation after another, and what comes back. -/
namespace CircuitHarness

/-- How a circuit is reached: as an item of its dispatcher, as a member of it, or as an item after both dispatchers
were looked up. -/
inductive Route where
  | item
  | member
  | both

/-- `callHeld` calls a circuit taken from a dispatcher before, `direct` runs the contract's own circuit on any context,
and `write` makes a context the current one. -/
inductive Operation where
  | call (kind : CircuitKind) (name : Value) (args : List Value) (route : Route)
  | callHeld (c : Callable) (args : List Value)
  | direct (kind : CircuitKind) (name : Value) (given : Held) (args : List Value)
  | asCaller (caller : Option Caller)
  | persistentCaller (caller : Option Caller)
  | resetCaller
  | callerContext
  | current
  | write (h : Handed)
  | updatePrivate (p : Value)
  | rebuild (sender : Value) (carryover : Option Carryover)
  | switchSender (sender : Value) (carryover : Option Carryover)
  | setCarryover (carryover : Carryover)
  | senderContext (sender : Value)
  | publicState
  | privateState
  | contractState
  | witnessContext
  | witnesses
  | names
  | setWitnesses (table : Value)
  | overrideWitness (name fn : Value)
  | resetDispatchers
  | cachePut (kind : CircuitKind) (label : Option Value)
  | cacheClearStats

inductive Reply where
  | nothing
  | itself
  | value (v : Value)
  | context (h : Handed)
  | result (v : Value) (left : Handed)
  | names (pure impure : List String)

def Artifact.circuit (k : CircuitKind) (name : Value) (a : Artifact) : Except Failure Circuit :=
  if name.isHashable then
    match (name.asText.toOption).bind (a.circuits k).get? with
    | some c => .ok c
    | none => .error (.missingKey name)
  else .error .wrongType

namespace Surface

def find (name : Value) (route : Route) (x : Surface) : Except Failure Callable :=
  match route with
  | .member => x.member name
  | .item | .both => x.item name

end Surface

namespace Simulator

def reach (k : CircuitKind) (name : Value) (route : Route) : Action Simulator Callable := do
  match route with
  | .both => do
    let p ← surface .pure
    let i ← surface .impure
    Action.lift ((match k with
      | .pure => p
      | .impure => i).find name route)
  | _ => do Action.lift ((← surface k).find name route)

def ask (f : Simulator → Except Failure α) : Action Simulator α := do Action.lift (f (← Action.read))

def tell (x : Action Simulator Unit) : Action Simulator Reply := do
  x
  return .nothing

def perform [Limits] : Operation → Action Simulator Reply
  | .call k name args route => do return .value (← call (← reach k name route) args)
  | .callHeld c args => do return .value (← call c args)
  | .direct k name given args => do
    let c ← ask fun s => s.contract.circuit k name
    let (v, left) ← execute given.handed (c given.context args)
    return .result (← Action.lift v) left
  | .asCaller c => do
    Action.update (asCaller c)
    return .itself
  | .persistentCaller c => tell (Action.update (setPersistentCaller c))
  | .resetCaller => tell (Action.update resetCaller)
  | .callerContext => do return .context (← callerContext)
  | .current => do return .context (← Action.read).current.handed
  | .write h => tell (onManager (Action.update (Manager.adopt h)))
  | .updatePrivate p => do
    onManager (Action.update (Manager.updatePrivate p))
    return .context (← Action.read).current.handed
  | .rebuild sender carryover => do
    let sender ← Action.lift sender.asSender
    return .context (.fresh (← ask fun s => s.manager.rebuild sender carryover))
  | .switchSender sender carryover => do
    let _ ← onManager (Manager.switchSender sender carryover)
    return .context (← Action.read).current.handed
  | .setCarryover c => tell (onManager (Action.update fun m => { m with carryover := c }))
  | .senderContext sender => do
    let sender ← Action.lift sender.asSender
    return .context (.fresh (← ask (senderContext sender)))
  | .publicState => do return .value (← ask publicState)
  | .privateState => do return .value (← Action.read).context.privateState
  | .contractState => do return .value (← Action.read).context.payload
  | .witnessContext => do
    let w ← ask witnessContext
    return .value (.record "WitnessContext"
      [("ledger", w.ledger), ("private_state", w.privateState), ("contract_address", w.address)])
  | .witnesses => do return .value (.map (← Action.read).witnesses)
  | .names => do
    let ps ← Action.lift (← surface .pure).names
    let is ← Action.lift (← surface .impure).names
    return .names ps is
  | .setWitnesses t => tell (setWitnesses t)
  | .overrideWitness n f => tell (overrideWitness n f)
  | .resetDispatchers => tell resetDispatchers
  | .cachePut k label => tell (onCache (Cache.put k (label.map .standIn)))
  | .cacheClearStats => tell (onCache Cache.clearStats)

end Simulator
end CircuitHarness
