import CircuitHarness.Contracts.Simple

/-! A contract whose circuits draw on witnesses: each takes the private state a witness returns and stores the value
that comes with it. -/
namespace CircuitHarness.Witness

def stateType : String := "WitnessPrivateState"

def privateState (secretBytes secretField secretUint counter : Value) : Value :=
  .record stateType
    [("secret_bytes", secretBytes), ("secret_field", secretField), ("secret_uint", secretUint), ("counter", counter)]

def defaultPrivate : Value := privateState (.bytes (List.replicate 32 1)) (.int 10) (.int 20) (.int 0)

def inject (name : String) (v : Value) : Value → Except Failure Value
  | .record t fs =>
    if t = stateType then .ok (.record t (fs.map fun f => if f.1 = name then (name, v) else f))
    else .error .wrongType
  | _ => .error .wrongType

def start : Value :=
  .map [(.str "_valBytes", .bytes (List.replicate 32 0)), (.str "_valField", .int 0), (.str "_valUint", .int 0),
    (.str "_valCounter", .int 0)]

def ledger (payload : Value) : Except Failure Value := do
  return .record "WitnessLedger"
    [("val_bytes", ← payload.entry (.str "_valBytes")), ("val_field", ← payload.entry (.str "_valField")),
      ("val_uint", ← payload.entry (.str "_valUint")), ("val_counter", ← payload.entry (.str "_valCounter"))]

def view (c : CircuitContext) : Except Failure WitnessContext := do
  return ⟨← ledger c.payload, c.privateState, c.address⟩

def callWitness (call : WitnessCall) (ws : Witnesses) (c : CircuitContext) (name : String) (args : List Value) :
    Except Failure (CircuitContext × Value) := do
  let (p, v) ← ws.call call (.str name) (← view c) (.ok args)
  return ({ c with privateState := p }, v)

def store (c : CircuitContext) (key : String) (v : Value) : Except Failure (Value × CircuitContext) := do
  let es ← c.payload.entries
  let cost ← c.cost.charge [("bytes_written", .int 1)]
  return (.none, { c.withPayload (es.put (.str key) v) with cost := cost })

def circuit (call : WitnessCall) (ws : Witnesses) (witness key : String) (arity : Nat) (c : CircuitContext)
    (args : List Value) : Except Failure (Value × CircuitContext) :=
  if args.length = arity then do
    let (c, v) ← callWitness call ws c witness args
    store c key v
  else .error .wrongType

def impure (call : WitnessCall) (ws : Witnesses) : List (String × Circuit) :=
  [("setBytes", "wit_secretBytes", "_valBytes", 0), ("setField", "wit_secretFieldPlusArg", "_valField", 1),
    ("setUint", "wit_secretUintPlusArgs", "_valUint", 2), ("bumpCounter", "wit_bumpCounter", "_valCounter", 0)].map
    fun (name, witness, key, arity) => (name, fun c as => .ofResult (circuit call ws witness key arity c as))

def contract (call : WitnessCall) (ws : Witnesses) : Artifact where
  pure := .empty
  impure := .ofList (impure call ws)
  initialState c _ := .ok ⟨start, c.privateState⟩

def own (label : String) (c : WitnessContext) (args : List Value) : Except Failure (Value × Value) :=
  match label, args with
  | "wit_secret_bytes", [] => do return (c.privateState, ← c.privateState.field "secret_bytes")
  | "wit_secret_field_plus_arg", [a] => do
    return (c.privateState, ← (← c.privateState.field "secret_field").add a)
  | "wit_secret_uint_plus_args", [a, b] => do
    return (c.privateState, ← (← (← c.privateState.field "secret_uint").add a).add b)
  | "wit_bump_counter", [] => do
    let n ← (← c.privateState.field "counter").add (.int 1)
    match c.privateState with
    | .record t fs => return (.record t (fs.map fun f => if f.1 = "counter" then ("counter", n) else f), n)
    | _ => throw .wrongType
  | _, _ => .error .wrongType

def made (label : String) (data : List (String × Value)) (c : WitnessContext) (args : List Value) :
    Except Failure (Value × Value) :=
  let given (name : String) : Value := .ofOption (Value.field? name data)
  match label with
  | "const" => .ok (c.privateState, given "value")
  | "private" => .ok (given "private", given "value")
  | "sum" => (Value.sum args).map fun v => (c.privateState, v)
  | "echo" => .ok (c.privateState, .list args)
  | "address" => .ok (c.privateState, c.address)
  | "raise" => .error (.ofKind (given "kind").text (given "msg"))
  | _ => own label c args

def call : WitnessCall
  | .fn _ label data, c, args => made label data c args
  | _, _, _ => .error .wrongType

def ownLabels : List (String × String) :=
  [("wit_secretBytes", "wit_secret_bytes"), ("wit_secretFieldPlusArg", "wit_secret_field_plus_arg"),
    ("wit_secretUintPlusArgs", "wit_secret_uint_plus_args"), ("wit_bumpCounter", "wit_bump_counter")]

def written (place : Nat) (label : String) (data : List (String × Value)) : Value :=
  .fn (.written (if ownLabels.any (·.2 = label) then 0 else place)) label data

def ownWitnesses : Witnesses := ownLabels.map fun (name, label) => (.str name, written 0 label [])

def configOf (call : WitnessCall) : Config where
  contract ws := .ok (contract call ws)
  defaultPrivate := defaultPrivate
  ledger := ledger
  defaultWitnesses := ownWitnesses
  transform := Simple.noArguments
  carryover := .reset

def config : Config := configOf call

end CircuitHarness.Witness
