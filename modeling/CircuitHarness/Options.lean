import CircuitHarness.Circuit
import CircuitHarness.Options.Schema

/-! What can be chosen for one simulator. An option left out, or given as nothing, leaves the default. -/
namespace CircuitHarness

structure Options where
  privateState : Value := .none
  witnesses : Value := .none
  coinKey : Value := .none
  address : Value := .none

namespace Options

def typeName : String := "SimulatorOptions"

def fields (o : Options) : List (String × Value) :=
  [("private_state", o.privateState), ("witnesses", o.witnesses), ("coin_pk", o.coinKey),
    ("contract_address", o.address)]

def toValue (o : Options) : Value := .record typeName o.fields

def document (o : Options) : Value.Entries := o.fields.map fun f => (.str f.1, f.2)

def ofDocument (es : Value.Entries) : Options :=
  let get (n : String) : Value := .ofOption (Value.Keyed.get? (.str n) es)
  ⟨get "private_state", get "witnesses", get "coin_pk", get "contract_address"⟩

def ofFields (fs : List (String × Value)) : Options :=
  let get (n : String) : Value := .ofOption (Value.field? n fs)
  ⟨get "private_state", get "witnesses", get "coin_pk", get "contract_address"⟩

def validateDocument [Limits] (es : Value.Entries) : Except Failure Options := do
  Schema.options.checkValues es
  return ofDocument es

def validate [Limits] : Value → Except Failure Options
  | .none => .ok {}
  | .map es => validateDocument es
  | v => match v with
    | .record t fs => if t = typeName then validateDocument (ofFields fs).document else refuse t
    | v => refuse v.typeName
where
  refuse (type : String) : Except Failure Options := .error (.invalidOptions
    (.map [(.str "options", .list [.str ("expected SimulatorOptions or a mapping, got '" ++ type ++ "'")])]) none)

end Options

namespace Witnesses

def validate [Limits] (t : Value) : Except Failure Value := do
  Schema.replacement.checkValues [(.str "witnesses", t)]
  return t

def ofValue : Value → Witnesses
  | .map es => es
  | _ => []

end Witnesses
end CircuitHarness
