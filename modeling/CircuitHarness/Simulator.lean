import CircuitHarness.Cache
import CircuitHarness.Execution

/-! A simulator runs the circuits of one contract against its current context, under caller overrides. An override
changes the sender of impure calls only; the context it commits remembers the sender to return to for as long as it
stays the current one. -/
namespace CircuitHarness

inductive Refusal where
  | mismatch (text : String)
  | failure (f : Failure)

structure Config where
  contract : Witnesses → Except Failure Artifact
  defaultPrivate : Value
  ledger : Value → Except Failure Value
  defaultWitnesses : Witnesses
  transform : List Value → Except Refusal (List Value)
  carryover : Carryover

/-- What a cache slot holds: a dispatcher with the mark of its making, or a stand-in that answers every call with its
label, the name and the arguments. -/
inductive Surface where
  | dispatcher (mark : Mark) (d : Dispatcher Circuit)
  | standIn (label : Value)

/-- The context an override call committed, and the key to return to. -/
structure Override where
  mark : Mark
  home : Key

/-- `dispatchers` counts those built so far, and `pending` is the key that the next commit returns to. -/
structure Simulator where
  name : String
  config : Config
  witnesses : Witnesses
  contract : Artifact
  address : Value
  manager : Manager
  cache : Cache Surface
  dispatchers : Nat
  caller : Option Caller
  persistentCaller : Option Caller
  override : Option Override
  pending : Option Key

namespace Simulator

def current (s : Simulator) : Held := s.manager.current
def context (s : Simulator) : CircuitContext := s.current.context

def named : Option Caller → Option Caller
  | some (.text "") => none
  | c => c

def asCaller (c : Option Caller) (s : Simulator) : Simulator := { s with caller := named c }
def setPersistentCaller (c : Option Caller) (s : Simulator) : Simulator := { s with persistentCaller := named c }
def resetCaller (s : Simulator) : Simulator := { s with caller := none, persistentCaller := none }

def activeCaller (s : Simulator) : Option Caller := s.caller <|> s.persistentCaller

def home (s : Simulator) : Key :=
  match s.override with
  | some o => if o.mark = s.current.mark then o.home else s.context.key
  | none => s.context.key

def onManager (x : Action Manager α) : Action Simulator α :=
  x.within Simulator.manager fun m s => { s with manager := m }

def onCache (x : Action (Cache Surface) α) : Action Simulator α :=
  x.within Simulator.cache fun c s => { s with cache := c }

def buildDispatcher (k : CircuitKind) : Action Simulator (Option Surface) := fun s =>
  let d : Dispatcher Circuit := .ofMapping k (s.contract.circuits k)
  ⟨.ok (some (.dispatcher ⟨s.manager.maker, s.dispatchers⟩ d)), { s with dispatchers := s.dispatchers+1 }, [d.built]⟩

def surface (k : CircuitKind) : Action Simulator Surface := do
  match ← Cache.getOrBuild Simulator.cache (fun c s => { s with cache := c }) (buildDispatcher k) k with
  | some d => return d
  | none => Action.fail .noAttribute

def resetDispatchers : Action Simulator Unit := onCache Cache.invalidate

def publicState (s : Simulator) : Except Failure Value := s.config.ledger s.context.payload

def witnessContext (s : Simulator) : Except Failure WitnessContext := do
  return ⟨← s.publicState, s.context.privateState, s.context.address⟩

def senderContext (sender : String) (s : Simulator) : Except Failure CircuitContext :=
  (LocalState.ofSender sender).map fun l => { s.context with address := s.address, localState := l }

/-- The context the next impure call runs on. Reading it uses up a one-shot caller. -/
def callerContext : Action Simulator Handed := do
  let s ← Action.read
  let caller := s.activeCaller
  let home := s.home
  Action.write { s with caller := none, pending := if caller.isSome then some home else none }
  match caller with
  | some .other => Action.fail .noAttribute
  | some (.bytes bs) =>
    Action.note .debug Logger.simulator ("Running impure call as caller '" ++ Quoted.bytes (bs.take 16) ++ "...'.")
    Action.fail .wrongType
  | some (.text c) =>
    if c.map Char.toLower = s.context.sender then return s.current.handed
    Action.note .debug Logger.simulator ("Running impure call as caller '" ++ Manager.clip c ++ "...'.")
    return .fresh (← Action.lift (s.manager.rebuild c none))
  | none =>
    if home = s.context.key then return s.current.handed
    Action.note .debug Logger.simulator
      ("Returning to sender '" ++ Manager.clip home.toHex ++ "...' after caller override.")
    return .fresh (s.context.rekey home .preserve)

/-- What is pending is used up, whether there was something or not. -/
def commit (h : Handed) : Action Simulator Unit :=
  Action.update fun s =>
    let (held, m) := s.manager.hold h
    { s with manager := m.set held, override := s.pending.map fun k => ⟨held.mark, k⟩, pending := none }

def source (k : CircuitKind) : Action Simulator Handed :=
  match k with
  | .pure => return (← Action.read).current.handed
  | .impure => callerContext

end Simulator

inductive Callable where
  | bound (mark : Mark) (b : Bound Circuit)
  | standIn (label name : Value)

namespace Surface

def item (name : Value) : Surface → Except Failure Callable
  | .dispatcher m d => (d.item name).map (.bound m)
  | .standIn label => .ok (.standIn label name)

def member (name : Value) : Surface → Except Failure Callable
  | .dispatcher m d => do match ← d.member name with
    | .circuit b => .ok (.bound m b)
    | .own _ => .error .wrongType
  | .standIn label => .ok (.standIn label name)

def names : Surface → Except Failure (List String)
  | .dispatcher _ d => .ok d.names
  | .standIn _ => .error .wrongType

end Surface

namespace Simulator

def callCallable (services : Services Simulator) (args : List Value) : Callable → Action Simulator Value
  | .bound _ b => b.callCircuit (source b.kind) commit services args
  | .standIn label name => return .list [label, name, .list args]

def services : Nat → Services Simulator
  | 0 => ⟨onManager Manager.nextMark, fun c => Action.update (asCaller c), fun _ _ _ => Action.fail .tooDeep⟩
  | n+1 => ⟨onManager Manager.nextMark, fun c => Action.update (asCaller c), fun k name args => do
      let d ← surface k
      let c ← Action.lift (d.item name)
      callCallable (services n) (← Action.lift args.items) c⟩

def call [Limits] (c : Callable) (args : List Value) : Action Simulator Value :=
  callCallable (services Limits.calls) args c

def execute [Limits] (given : Handed) (p : Program) : Action Simulator (Except Failure Value × Handed) :=
  p.run (services Limits.calls) given

end Simulator
end CircuitHarness
