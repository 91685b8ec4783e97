import CircuitHarness.Contracts.Ownable
import CircuitHarness.Contracts.Script

/-! The sample contracts by name, and the ways to transform constructor arguments. -/
namespace CircuitHarness

inductive Sample where
  | simple
  | ownable
  | witness
  | script (s : Script.Spec)

def Sample.config : Sample → Config
  | .simple => Simple.config
  | .ownable => Ownable.config
  | .witness => Witness.config
  | .script s => Script.config s

inductive Transform where
  | none
  | ownerAndSalt
  | all
  | reverse
  | string
  | null
  | badValue
  | wrongType

namespace Transform

def characters (as : List Value) : Except Refusal (List Value) :=
  let text? : Value → Option String := fun
    | .str s => some s
    | _ => Option.none
  match as.findIdx? fun a => (text? a).isNone with
  | some i => .error (.mismatch ("sequence item " ++ toString i ++ ": expected str instance, " ++
      ((as[i]?).getD .none).typeName ++ " found"))
  | Option.none => .ok ((String.join (as.filterMap text?)).toList.map fun c => .str (String.singleton c))

def apply : Transform → List Value → Except Refusal (List Value)
  | .none, as => Simple.noArguments as
  | .ownerAndSalt, as => Ownable.ownerAndSalt as
  | .all, as => .ok as
  | .reverse, as => .ok as.reverse
  | .string, as => characters as
  | .null, _ => .error (.failure .wrongType)
  | .badValue, _ => .error (.failure (.badValue "transform refused"))
  | .wrongType, as => .error (.mismatch ("transform type: " ++ toString as.length))

end Transform

inductive Fixture where
  | simple
  | witness
  | ownable
deriving DecidableEq

namespace Fixture

def name : Fixture → String
  | .simple => "SimpleSimulator"
  | .witness => "WitnessSimulator"
  | .ownable => "OwnableSimulator"

def sample : Fixture → Sample
  | .simple => .simple
  | .witness => .witness
  | .ownable => .ownable

/-- The contract's arguments and the options, from the simulator's own arguments: an owner may come without a salt, and
options given apart may not stand among the arguments as well. -/
def arguments : Fixture → List Value → Option Value → Except Failure (List Value × Value)
  | .ownable, [owner], o => .ok ([owner, .bytes (List.replicate 32 0)], .ofOption o)
  | .ownable, [owner, salt], o => .ok ([owner, salt], .ofOption o)
  | .ownable, [owner, salt, o], none => .ok ([owner, salt], o)
  | .ownable, _, _ => .error .wrongType
  | _, [], o => .ok ([], .ofOption o)
  | _, [o], none => .ok ([], o)
  | _, _, _ => .error .wrongType

def method? : Fixture → String → Option (CircuitKind × String × Nat)
  | .simple, "set_val" => some (.impure, "setVal", 1)
  | .simple, "get_val" => some (.pure, "getVal", 0)
  | .witness, "set_bytes" => some (.impure, "setBytes", 0)
  | .witness, "set_field" => some (.impure, "setField", 1)
  | .witness, "set_uint" => some (.impure, "setUint", 2)
  | .witness, "bump_counter" => some (.impure, "bumpCounter", 0)
  | .ownable, "owner" => some (.pure, "owner", 0)
  | .ownable, "transfer_ownership" => some (.impure, "transferOwnership", 1)
  | _, _ => none

def secret? : Fixture → String → Option String
  | .witness, "inject_secret_bytes" => some "secret_bytes"
  | .witness, "inject_secret_field" => some "secret_field"
  | .witness, "inject_secret_uint" => some "secret_uint"
  | _, _ => none

end Fixture
end CircuitHarness
