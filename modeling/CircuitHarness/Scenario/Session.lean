import CircuitHarness.Contracts
import CircuitHarness.Manager.Bare

/-! A session: simulators and bare managers made one after another, with named slots for the contexts and the circuits
kept from earlier steps. -/
namespace CircuitHarness.Session

inductive Host where
  | simulator (s : Simulator) (fixture : Option Fixture)
  | bare (b : Bare)

/-- What a slot holds: a context, or a circuit with the number of the host it was taken from and the number of the step
that took it. -/
inductive Kept where
  | context (h : Held)
  | circuit (owner taken : Nat) (c : Callable)

def Kept.same : Kept → Kept → Bool
  | .context a, .context b => a.context.same b.context
  | .circuit _ _ (.bound m b), .circuit _ _ (.bound n c) => m = n && b.kind = c.kind && b.name = c.name
  | .circuit _ m (.standIn ..), .circuit _ n (.standIn ..) => m = n
  | _, _ => false

/-- `made` counts the marks given to contexts that no manager has made current, and `lost` says that a host was given
what is no context. -/
structure State where
  hosts : List Host
  slots : Value.Keyed Kept
  made : Nat
  lost : Bool

def State.start : State := ⟨[], [], 0, false⟩

def State.host? (n : Nat) (s : State) : Option Host := s.hosts[n]?

inductive Answer where
  | skipped
  | value (v : Value)
  | context (c : CircuitContext)
  | result (v : Value) (c : CircuitContext)

def Answer.nothing : Answer := .value .none

structure Changes where
  privateState : Option Value
  payload : Option Value
  address : Option Value
  gas : Option Value
  key : Option Value
  index : Option Value
  inputs : Option Value
  outputs : Option Value
  charge : Option Value

namespace Changes

def isDeep (h : Changes) : Bool :=
  h.payload.isSome || h.address.isSome || h.key.isSome || h.index.isSome || h.inputs.any Value.isTruthy ||
    h.outputs.any Value.isTruthy || h.charge.isSome

def records : Option Value → Except Failure (List Value)
  | some v => v.items
  | none => .ok []

def apply (h : Changes) (c : CircuitContext) : Except Failure CircuitContext := do
  let l := c.localState
  let key ← match h.key with
    | some v => do Key.ofHex (← v.asSender)
    | none => pure l.key
  let l := { l with key := key, index := h.index.getD l.index }
  let l := (← records h.inputs).foldl LocalState.addInput l
  let l ← (← records h.outputs).foldlM LocalState.addOutput l
  return {
    privateState := h.privateState.getD c.privateState
    payload := h.payload.getD c.payload
    address := h.address.getD c.address
    localState := l
    cost := ← match h.charge with
      | some v => do c.cost.charge (← Cost.named v)
      | none => pure c.cost
    gas := h.gas.getD c.gas }

end Changes

inductive Step where
  | create (sample : Sample) (className : Option Value) (transform : Option Transform) (carryover : Option Carryover)
      (args options : Value)
  | createFixture (fixture : Fixture) (args : List Value) (options : Option Value)
  | createManager (sample : Sample) (sender address privateState : Value) (args : List Value)
      (carryover : Option Carryover)
  | method (name : String) (args : List Value)
  | call (kind : CircuitKind) (name : Value) (args : List Value) (route : Route)
  | hold (kind : CircuitKind) (name : Value) (slot : Value)
  | callHeld (slot : Value) (args : List Value)
  | direct (kind : CircuitKind) (name : Value) (source : Value) (args : List Value) (slot : Option Value)
  | asCaller (caller : Option Caller)
  | persistentCaller (caller : Option Caller)
  | resetCaller
  | callerContext (slot : Option Value)
  | publicState
  | privateState
  | contractState
  | witnessContext
  | witnesses
  | names
  | setWitnesses (table : Value)
  | overrideWitness (name fn : Value)
  | resetDispatchers
  | cachePut (kind : CircuitKind) (value : Value)
  | cacheClearStats
  | saveContext (slot : Value)
  | setContext (slot : Value)
  | editContext (source slot : Value) (changes : Changes)
  | contextsEqual (a b : Value)
  | updatePrivate (value : Value)
  | rebuild (sender : Value) (carryover : Option Carryover) (slot : Option Value)
  | switchSender (sender : Value) (carryover : Option Carryover) (slot : Option Value)
  | setCarryover (carryover : Carryover)
  | senderContext (sender : Value) (slot : Option Value)

def assign (slot : Value) (k : Kept) : Action State PUnit :=
  if slot.isHashable then Action.update fun s => { s with slots := Value.Keyed.put slot k s.slots }
  else Action.fail .wrongType

def fresh : Action State Nat := do
  Action.update fun s => { s with made := s.made+1 }
  return (← Action.read).made-1

def keep (slot : Option Value) (h : Handed) : Action State PUnit :=
  match slot with
  | none => return ⟨⟩
  | some n => do
    let mark ← match h.mark with
      | some m => pure m
      | none => do pure ⟨0, ← fresh⟩
    assign n (.context ⟨mark, h.context⟩)

def add (made : Except Failure Host) (notices : Host → List Notice) : Action State Answer := fun s =>
  match made with
  | .error f => ⟨.error f, s, []⟩
  | .ok u => ⟨.ok (.value (.int s.hosts.length)), { s with hosts := s.hosts ++ [u] }, notices u⟩

def onHost (n : Nat) (x : Action Host α) (u : Host) : Action State α := fun s =>
  let r := x u
  ⟨r.result, { s with hosts := s.hosts.set n r.state }, r.notices⟩

def onEither (x : Action Simulator α) (y : Action Bare α) : Action Host α := fun
  | .simulator s fx => let r := x s; ⟨r.result, .simulator r.state fx, r.notices⟩
  | .bare b => let r := y b; ⟨r.result, .bare r.state, r.notices⟩

def reach (k : CircuitKind) (name : Value) (route : Route) : Action Host Callable :=
  onEither (Simulator.reach k name route) (Bare.reach k name route)

def Step.operation? : Step → Option Operation
  | .call k name args route => some (.call k name args route)
  | .asCaller c => some (.asCaller c)
  | .persistentCaller c => some (.persistentCaller c)
  | .resetCaller => some .resetCaller
  | .callerContext _ => some .callerContext
  | .publicState => some .publicState
  | .privateState => some .privateState
  | .contractState => some .contractState
  | .witnessContext => some .witnessContext
  | .witnesses => some .witnesses
  | .names => some .names
  | .setWitnesses t => some (.setWitnesses t)
  | .overrideWitness n f => some (.overrideWitness n f)
  | .resetDispatchers => some .resetDispatchers
  | .cachePut k v => some (.cachePut k (match v with
    | .none => none
    | l => some l))
  | .cacheClearStats => some .cacheClearStats
  | .saveContext _ => some .current
  | .updatePrivate p => some (.updatePrivate p)
  | .rebuild sender carryover _ => some (.rebuild sender carryover)
  | .switchSender sender carryover _ => some (.switchSender sender carryover)
  | .setCarryover c => some (.setCarryover c)
  | .senderContext sender _ => some (.senderContext sender)
  | _ => none

def perform [Limits] (op : Operation) : Action Host Reply := onEither (Simulator.perform op) (Bare.perform op)

def method [Limits] (name : String) (args : List Value) : Action Host Answer := fun u =>
  match u with
  | .simulator s (some fx) =>
    match fx.method? name, fx.secret? name, args with
    | some (k, circuit, arity), _, _ =>
      if args.length = arity then (do
        let r ← perform (.call k (.str circuit) args .both)
        return match k, r with
          | .pure, .value v => .value v
          | _, _ => .nothing : Action Host Answer) u
      else ⟨.error .wrongType, u, []⟩
    | none, some secret, [v] => (do
        let p ← Action.lift (Witness.inject secret v s.context.privateState)
        let _ ← perform (.updatePrivate p)
        return .value p : Action Host Answer) u
    | none, some _, _ => ⟨.error .wrongType, u, []⟩
    | none, none, _ => ⟨.error .noAttribute, u, []⟩
  | _ => ⟨.error .noAttribute, u, []⟩

def Answer.ofReply : Reply → Answer
  | .nothing => .nothing
  | .itself => .value (.bool true)
  | .value v => .value v
  | .context h => .context h.context
  | .result v h => .result v h.context
  | .names ps is => .value (.list [.list (ps.map .str), .list (is.map .str)])

def left : Reply → Option Handed
  | .context h | .result _ h => some h
  | _ => none

def slotOf : Step → Option Value
  | .callerContext s | .rebuild _ _ s | .switchSender _ _ s | .senderContext _ s => s
  | .saveContext s => some s
  | _ => none

def classNameOf : Option Value → Except Failure String
  | none => .ok "GeneratedSimulator"
  | some v => do
    let s ← v.asText
    if s.toList.contains '\x00' then throw (.badValue "type name must not contain null characters")
    return s

def create [Limits] (s : State) (sample : Sample) (className : Option Value) (transform : Option Transform)
    (carryover : Option Carryover) (args options : Value) : Except Failure Host := do
  let base := sample.config
  let config := { base with
    transform := match transform with
      | some t => t.apply
      | none => base.transform
    carryover := carryover.getD base.carryover }
  return .simulator (← Simulator.build (← classNameOf className) config (s.hosts.length+1) args options) none

def createFixture [Limits] (s : State) (fx : Fixture) (args : List Value) (options : Option Value) :
    Except Failure Host := do
  let (as, options) ← fx.arguments args options
  return .simulator (← Simulator.build fx.name fx.sample.config (s.hosts.length+1) (.tuple as) options) (some fx)

def createManager (s : State) (sample : Sample) (sender address privateState : Value) (args : List Value)
    (carryover : Option Carryover) : Except Failure Host := do
  let config := sample.config
  let contract ← config.contract config.defaultWitnesses
  let m ← Manager.start (s.hosts.length+1) contract privateState (← sender.asSender) address args
    (carryover.getD .reset)
  return .bare ⟨contract, m⟩

def notices : Host → List Notice
  | .simulator s _ => s.built
  | .bare b => b.built

def withHost (n : Nat) (f : Host → Action State Answer) : Action State Answer := do
  match (← Action.read).host? n with
  | none => return .skipped
  | some u => f u

def withSlot (slot : Value) (f : Kept → Action State Answer) : Action State Answer := do
  if slot.isHashable then
    match Value.Keyed.get? slot (← Action.read).slots with
    | none => return .skipped
    | some k => f k
  else Action.fail .wrongType

def stepOn [Limits] (n : Nat) (u : Host) : Step → Action State Answer
  | .hold k name slot => do
    let c ← onHost n (reach k name .item) u
    assign slot (.circuit n (← fresh) c)
    return .nothing
  | .callHeld slot args => withSlot slot fun
    | .context _ => Action.fail .wrongType
    | .circuit owner _ c => withHost owner fun u => do return .ofReply (← onHost owner (perform (.callHeld c args)) u)
  | .direct k name source args slot => withSlot source fun
    | .context h => do
      let r ← onHost n (perform (.direct k name h args)) u
      keepLeft slot r
      return .ofReply r
    | .circuit .. => do
      let _ ← Action.lift ((contract u).circuit k name)
      Action.fail .noAttribute
  | .setContext slot => withSlot slot fun
    | .context h => do return .ofReply (← onHost n (perform (.write h.handed)) u)
    | .circuit .. => do
      Action.update fun s => { s with lost := true }
      return .nothing
  | .editContext source slot changes => withSlot source fun
    | .context h => do
      let c ← Action.lift (changes.apply h.context)
      keep (some slot) (.fresh c)
      return .context c
    | .circuit .. => Action.fail (if changes.isDeep then .noAttribute else .wrongType)
  | .contextsEqual a b => withSlot a fun x => withSlot b fun y => return .value (.bool (x.same y))
  | .method name args => onHost n (method name args) u
  | .saveContext slot => do
    keepLeft (some slot) (← onHost n (perform .current) u)
    return .nothing
  | other => match other.operation? with
    | none => return .skipped
    | some op => do
      let r ← onHost n (perform op) u
      keepLeft (slotOf other) r
      return .ofReply r
where
  keepLeft (slot : Option Value) (r : Reply) : Action State PUnit :=
    match left r with
    | some h => keep slot h
    | none => return ⟨⟩
  contract : Host → Artifact
    | .simulator s _ => s.contract
    | .bare b => b.contract

def step [Limits] (n : Nat) : Step → Action State Answer
  | .create sample className transform carryover args options => do
    add (create (← Action.read) sample className transform carryover args options) notices
  | .createFixture fx args options => do add (createFixture (← Action.read) fx args options) notices
  | .createManager sample sender address p args carryover => do
    add (createManager (← Action.read) sample sender address p args carryover) notices
  | other => withHost n fun u => stepOn n u other

end CircuitHarness.Session
