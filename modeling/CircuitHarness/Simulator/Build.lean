import CircuitHarness.Options
import CircuitHarness.Simulator

/-! Building a simulator from options and constructor arguments, and replacing its witnesses. Options and arguments that
are refused become one build failure, whose message is the report of its cause. -/
namespace CircuitHarness

namespace Failure

def asBuild (f : Failure) : Failure :=
  match f.report? with
  | some (.ok r) => .build r f
  | some (.error g) => g
  | none => f

end Failure

namespace Simulator

def arguments (name : String) (transform : List Value → Except Refusal (List Value)) (given : Value) :
    Except Failure (List Value) :=
  let refuse (text : String) : Except Failure (List Value) :=
    .error (Failure.badArguments (.str name) (.str text)).asBuild
  match given with
  | .list as | .tuple as => match transform as with
    | .ok bs => .ok bs
    | .error (.mismatch text) => refuse text
    | .error (.failure f) => .error f
  | v => refuse ("Contract arguments must be a sequence, got '" ++ v.typeName ++ "'.")

def textOr (default : String) : Value → String
  | .str "" => default
  | .str s => s
  | _ => default

def resolve [Limits] (options : Value) : Except Failure Options :=
  match Options.validate options with
  | .ok o => .ok o
  | .error f => .error f.asBuild

def build [Limits] (name : String) (config : Config) (maker : Nat) (args options : Value) :
    Except Failure Simulator := do
  let o ← resolve options
  let privateState := match o.privateState with
    | .none => config.defaultPrivate
    | p => p
  let witnesses := match o.witnesses with
    | .none => config.defaultWitnesses
    | w => Witnesses.ofValue w
  let contract ← config.contract witnesses
  let processed ← arguments name config.transform args
  let manager ← Manager.start maker contract privateState (textOr Key.zeroText o.coinKey)
    (.str (textOr Address.placeholder o.address)) processed config.carryover
  let address := manager.current.context.address
  return ⟨name, config, witnesses, contract, address, manager, .empty, 0, none, none, none, none⟩

def built (s : Simulator) : List Notice :=
  [Manager.started s.address, Cache.created, ⟨.info, Logger.build, s.name ++ " deployed at '" ++ s.address.text ++ "'."⟩]

/-- The table is in place before the contract is built from it, and stays if that fails. -/
def setWitnesses [Limits] (table : Value) : Action Simulator Unit := do
  let t ← Action.lift (Witnesses.validate table)
  let ws := Witnesses.ofValue t
  Action.update fun s => { s with witnesses := ws }
  let s ← Action.read
  let contract ← Action.lift (s.config.contract ws)
  Action.update fun s => { s with contract := contract }
  resetDispatchers
  Action.note .info Logger.build ("Witnesses replaced on " ++ s.name ++ "; contract rebuilt.")

def overrideWitness [Limits] (name fn : Value) : Action Simulator Unit := do
  let s ← Action.read
  if name.isHashable then setWitnesses (.map (Value.Keyed.put name fn s.witnesses))
  else Action.fail .wrongType

end Simulator
end CircuitHarness
