import CircuitHarness.Action
import CircuitHarness.Table

/-! A dispatcher offers the circuits of one kind by name. A call reads the context at that moment; what an impure
circuit leaves behind is committed before its value is looked at, what a pure one leaves behind is dropped. -/
namespace CircuitHarness

def CircuitKind.dispatcherName : CircuitKind → String
  | .pure => "PureCircuitDispatcher"
  | .impure => "ImpureCircuitDispatcher"

structure Dispatcher (β : Type) where
  kind : CircuitKind
  circuits : Table β

structure Bound (β : Type) where
  kind : CircuitKind
  name : String
  circuit : β

inductive Member (β : Type) where
  | own (v : Value)
  | circuit (b : Bound β)

namespace Dispatcher
variable {β : Type}

/-- Over the circuits that a mapping has now, one after the other in a table of the dispatcher's own. -/
def ofMapping (kind : CircuitKind) (mapping : Table β) : Dispatcher β := ⟨kind, .ofList mapping.entries⟩

theorem ofMapping_eq (kind : CircuitKind) (mapping : Table β) : ofMapping kind mapping = ⟨kind, mapping⟩ := by
  rw [ofMapping, Table.ofList_entries]

def names (d : Dispatcher β) : List String := d.circuits.names

def walk (d : Dispatcher β) : List String := d.circuits.entries.map (·.1)

def size (d : Dispatcher β) : Nat := d.circuits.entries.length

def built (d : Dispatcher β) : Notice :=
  ⟨.debug, Logger.dispatch,
    "Built " ++ d.kind.name ++ " dispatcher over " ++ toString d.size ++ " circuit(s)."⟩

def build (kind : CircuitKind) : Action (Table β) (Dispatcher β) := fun mapping =>
  let d := ofMapping kind mapping
  ⟨.ok d, mapping, [d.built]⟩

def unknown (d : Dispatcher β) (name : Value) : Failure :=
  .unknownCircuit name (.kind d.kind) (d.names.map .str)

def find? (d : Dispatcher β) : Value → Option (Bound β)
  | .str s => (d.circuits.get? s).map fun c => ⟨d.kind, s, c⟩
  | _ => none

def item (d : Dispatcher β) (name : Value) : Except Failure (Bound β) :=
  if name.isHashable then
    match d.find? name with
    | some b => .ok b
    | none => .error (d.unknown name)
  else .error .wrongType

def has (d : Dispatcher β) (name : Value) : Except Failure Bool :=
  if name.isHashable then .ok (d.find? name).isSome else .error .wrongType

/-- A dispatcher's own members hide circuits of that name, and no circuit is reachable under a name that starts
with an underscore. -/
def member (d : Dispatcher β) : Value → Except Failure (Member β)
  | .str s =>
    if s = "names" then .ok (.own (.tuple (d.names.map .str)))
    else if s = "kind" then .ok (.own (.kind d.kind))
    else if s.toList.head? = some '_' then .error .noAttribute
    else (d.item (.str s)).map .circuit
  | _ => .error .wrongType

def isAbsence : Failure → Bool
  | .noAttribute | .unknownCircuit .. => true
  | _ => false

def member? (d : Dispatcher β) (name : Value) : Except Failure (Option (Member β)) :=
  match d.member name with
  | .ok m => .ok (some m)
  | .error f => if isAbsence f then .ok none else .error f

def hasMember (d : Dispatcher β) (name : Value) : Except Failure Bool := (d.member? name).map Option.isSome

def repr (d : Dispatcher β) : String := d.kind.dispatcherName ++ "(" ++ (Value.list (d.names.map .str)).repr ++ ")"

def members (d : Dispatcher β) : List String :=
  (d.names ++ ["kind", "names"].filter fun n => !d.names.contains n).mergeSort fun a b => a ≤ b

def unboundSize : List String → Except Failure Nat
  | [] => .ok 0
  | _ => .error .unimplemented

end Dispatcher

namespace Bound
variable {β κ σ : Type}

def qualifiedName (b : Bound β) : String := b.kind.dispatcherName ++ "." ++ b.name

/-- The value of a result is looked at last, when what an impure circuit leaves behind has been committed. -/
def call (source : Action σ κ) (commit : κ → Action σ Unit)
    (run : β → κ → List Value → Action σ (Except Failure Value × κ)) (b : Bound β) (args : List Value) :
    Action σ Value := do
  let context ← source
  Action.note .debug Logger.dispatch ("Dispatching " ++ b.kind.name ++ " circuit '" ++ b.name ++ "'.")
  let (value, left) ← run b.circuit context args
  match b.kind with
  | .pure => Action.lift value
  | .impure => do
    commit left
    Action.note .debug Logger.dispatch ("Committed context produced by impure circuit '" ++ b.name ++ "'.")
    Action.lift value

end Bound
end CircuitHarness
