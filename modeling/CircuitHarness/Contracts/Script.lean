import CircuitHarness.Contracts.Witness

/-! Contracts given as data: each circuit is a list of effects, run in order on its context. -/
namespace CircuitHarness.Script

inductive Operand where
  | value (v : Value)
  | argument (place : Value)
  | arguments
  | entry (k : Value)
  | privateState
  | sender
  | last
  | list (xs : List Operand)
deriving Inhabited

inductive Effect where
  | set (key value : Operand)
  | privateState (v : Operand)
  | charge (deltas : Operand)
  | input (record : Operand)
  | output (record : Operand)
  | gas (limit : Operand)
  | address (text : Operand)
  | key (hex : Operand)
  | result (v : Operand)
  | fail (kind message : Operand)
  | witness (name args : Operand)
  | asCaller (caller : Operand)
  | call (guarded : Bool) (kind name args : Operand)

/-- A circuit in progress, under the mark of its run; `changed` once its context is no longer the one it was given. -/
structure Frame where
  run : Mark
  context : CircuitContext
  changed : Bool
  args : List Value
  last : Value
  result : Value

def Frame.move (f : Frame) (c : CircuitContext) : Frame := { f with context := c, changed := true }

mutual
def Operand.eval (f : Frame) : Operand → Except Failure Value
  | .value v => .ok (v.renew f.run)
  | .argument i => Value.placeOf i f.args
  | .arguments => .ok (.list f.args)
  | .entry k => f.context.payload.entry k
  | .privateState => .ok f.context.privateState
  | .sender => .ok (.str f.context.sender)
  | .last => .ok f.last
  | .list xs => (evalAll f xs).map .list
termination_by structural x => x
def evalAll (f : Frame) : List Operand → Except Failure (List Value)
  | [] => .ok []
  | x :: r => do return (← x.eval f) :: (← evalAll f r)
termination_by structural x => x
end

def setEntry (k v : Value) (c : CircuitContext) : Except Failure CircuitContext :=
  match c.payload with
  | .map es => if k.isHashable then .ok (c.withPayload (Value.Keyed.put k v es)) else .error .wrongType
  | _ => .error .wrongType

def callWitness (call : WitnessCall) (ws : Witnesses) (name args : Value) (f : Frame) : Except Failure Frame := do
  let (p, v) ← ws.call call name ⟨f.context.payload, f.context.privateState, f.context.address⟩ args.items
  return { f.move { f.context with privateState := p } with last := v }

def Effect.apply (call : WitnessCall) (ws : Witnesses) (f : Frame) : Effect → Except Failure Frame
  | .set k v => do return f.move (← setEntry (← k.eval f) (← v.eval f) f.context)
  | .privateState v => do return f.move { f.context with privateState := ← v.eval f }
  | .charge ds => do return f.move { f.context with cost := ← f.context.cost.charge (← Cost.named (← ds.eval f)) }
  | .input r => do return f.move { f.context with localState := f.context.localState.addInput (← r.eval f) }
  | .output r => do return f.move { f.context with localState := ← f.context.localState.addOutput (← r.eval f) }
  | .gas n => do return f.move { f.context with gas := ← n.eval f }
  | .address s => do return f.move { f.context with address := ← s.eval f }
  | .key h => do
    let k ← Key.ofHex (← (← h.eval f).asSender)
    return f.move { f.context with localState := { f.context.localState with key := k } }
  | .result v => do return { f with result := ← v.eval f }
  | .fail k m => do
    let k ← k.eval f
    let m ← m.eval f
    throw (.ofKind k.text m)
  | .witness n as => do
    let n ← n.eval f
    callWitness call ws n (← as.eval f) f
  | _ => .ok f

def kindOf : Value → CircuitKind
  | .str "pure" => .pure
  | _ => .impure

def target (f : Frame) (kind name args : Operand) : Except Failure (CircuitKind × Value × Value) := do
  let k ← kind.eval f
  let n ← name.eval f
  return (kindOf k, n, ← args.eval f)

def program (call : WitnessCall) (ws : Witnesses) : List Effect → Frame → Program
  | [], f => .done (.ok f.result) (if f.changed then some f.context else none)
  | .asCaller c :: r, f => match c.eval f with
    | .ok v => .asCaller (Caller.ofValue? v) (program call ws r f)
    | .error e => .fail e
  | .call guarded kind name args :: r, f => match target f kind name args with
    | .ok (k, n, as) => .call k n as fun
      | .ok v => program call ws r { f with last := v }
      | .error e => if guarded then program call ws r { f with last := .str e.kind } else .fail e
    | .error e => .fail e
  | e :: r, f => match e.apply call ws f with
    | .ok g => program call ws r g
    | .error e => .fail e

def circuit (call : WitnessCall) (ws : Witnesses) (es : List Effect) : Circuit :=
  fun c args => .marked fun run => program call ws es ⟨run, c, false, args, .none, .none⟩

structure Spec where
  pure : List (String × List Effect)
  impure : List (String × List Effect)
  state : Value
  initial : List Effect
  witnesses : Witnesses
  defaultPrivate : Value
  extract : Option Value
  required : List String

def initialState (call : WitnessCall) (ws : Witnesses) (s : Spec) (c : ConstructorContext) (args : List Value) :
    Except Failure ConstructorResult := do
  let first : CircuitContext := ⟨c.privateState, s.state, .str "", c.localState, .zero, .none⟩
  let left ← (circuit call ws s.initial first args).runAlone c.mark first
  return ⟨left.payload, left.privateState⟩

def contract (call : WitnessCall) (s : Spec) (ws : Witnesses) : Except Failure Artifact :=
  match s.required.find? fun n => (Value.Keyed.get? (.str n) ws).isNone with
  | some n => .error (.badValue ("missing witness: " ++ n))
  | none => .ok {
      pure := .ofList (s.pure.map fun (n, es) => (n, circuit call ws es))
      impure := .ofList (s.impure.map fun (n, es) => (n, circuit call ws es))
      initialState := initialState call ws s }

def ledger (extract : Option Value) (payload : Value) : Except Failure Value :=
  match extract with
  | some k => payload.entry k
  | none => .ok payload

def config (s : Spec) : Config where
  contract := contract Witness.call s
  defaultPrivate := s.defaultPrivate
  ledger := ledger s.extract
  defaultWitnesses := s.witnesses
  transform := Simple.noArguments
  carryover := .reset

end CircuitHarness.Script
