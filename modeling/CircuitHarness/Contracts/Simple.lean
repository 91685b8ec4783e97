import CircuitHarness.Simulator
import CircuitHarness.Value.Access

/-! A contract with one counter and a note of who set it last. -/
namespace CircuitHarness

def CircuitContext.withPayload (es : Value.Entries) (c : CircuitContext) : CircuitContext := { c with payload := .map es }

namespace Simple

def start : Value := .map [(.str "_val", .int 0), (.str "_setter", .str "")]

def ledger (payload : Value) : Except Failure Value := do
  return .record "SimpleLedger"
    [("val", ← payload.entry (.str "_val")), ("setter", ← payload.entry (.str "_setter"))]

def getVal (c : CircuitContext) : List Value → Except Failure (Value × CircuitContext)
  | [] => do
    let v ← c.payload.entry (.str "_val")
    return (v, { c with cost := ← c.cost.charge [("read_time", .int 1)] })
  | _ => .error .wrongType

def scratchVal (c : CircuitContext) : List Value → Except Failure (Value × CircuitContext)
  | [n] => do
    let es ← c.payload.entries
    let cost ← c.cost.charge [("compute_time", .int 100)]
    let c := c.withPayload (es.put (.str "_val") n)
    return (n, { c with privateState := .map [(.str "scratched", .bool true)], cost := cost })
  | _ => .error .wrongType

def setVal (c : CircuitContext) : List Value → Except Failure (Value × CircuitContext)
  | [n] => do
    if ← n.less (.int 0) then throw (.assertion "failed assert: Simple: value must be non-negative")
    let es ← c.payload.entries
    let l ← c.localState.addOutput (.tuple [.str "setVal", n])
    let cost ← c.cost.charge [("compute_time", .int 1), ("bytes_written", .int 8)]
    let c := c.withPayload ((es.put (.str "_val") n).put (.str "_setter") (.str c.sender))
    return (.none, { c with localState := l, cost := cost })
  | _ => .error .wrongType

def contract : Artifact where
  pure := .ofList [("getVal", fun c as => .ofResult (getVal c as)), ("scratchVal", fun c as => .ofResult (scratchVal c as))]
  impure := .ofList [("setVal", fun c as => .ofResult (setVal c as))]
  initialState c _ := .ok ⟨start, c.privateState⟩

def noArguments : List Value → Except Refusal (List Value)
  | [] => .ok []
  | as => .error (.mismatch ("this contract takes no constructor arguments, got " ++ toString as.length))

def config : Config where
  contract _ := .ok contract
  defaultPrivate := .map []
  ledger := ledger
  defaultWitnesses := []
  transform := noArguments
  carryover := .reset

end Simple
end CircuitHarness
