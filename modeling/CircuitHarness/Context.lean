import CircuitHarness.Address
import CircuitHarness.Cost

/-! The state threaded between circuit calls. A context is never changed in place: every step makes a new one. -/
namespace CircuitHarness

structure LocalState where
  key : Key
  index : Value
  inputs : List Value
  outputs : List Value

namespace LocalState

def empty (k : Key) : LocalState := ⟨k, .int 0, [], []⟩

def ofSender (sender : String) : Except Failure LocalState := (Key.ofHex sender).map empty

def addInput (l : LocalState) (record : Value) : LocalState := { l with inputs := l.inputs ++ [record] }

/-- Every output moves the index on, so it has to be something that one can be added to. -/
def addOutput (l : LocalState) (record : Value) : Except Failure LocalState :=
  (l.index.add (.int 1)).map fun n => { l with outputs := l.outputs ++ [record], index := n }

def same (a b : LocalState) : Bool :=
  a.key = b.key && a.index.same b.index && Value.sameAll a.inputs b.inputs && Value.sameAll a.outputs b.outputs

end LocalState

structure CircuitContext where
  privateState : Value
  payload : Value
  address : Value
  localState : LocalState
  cost : Cost
  gas : Value

namespace CircuitContext

def key (c : CircuitContext) : Key := c.localState.key

def sender (c : CircuitContext) : String := c.key.toHex

def fresh (privateState payload : Value) (sender : String) (address : Value) : Except Failure CircuitContext :=
  (LocalState.ofSender sender).map fun l => ⟨privateState, payload, address, l, .zero, .none⟩

def same (a b : CircuitContext) : Bool :=
  a.privateState.same b.privateState && a.payload.same b.payload && a.address.same b.address &&
    a.localState.same b.localState && a.cost.same b.cost && a.gas.same b.gas

end CircuitContext

structure WitnessContext where
  ledger : Value
  privateState : Value
  address : Value

structure ConstructorContext where
  mark : Mark
  privateState : Value
  localState : LocalState

structure ConstructorResult where
  payload : Value
  privateState : Value

end CircuitHarness
