import CircuitHarness.Contracts.Simple
import CircuitHarness.Options.File
import CircuitHarness.Simulator.Build

/-! Trying options out: they are read from a file to be shown, and a simulator of the counter contract is built from
them and its counter set once. -/
namespace CircuitHarness.Trial

def depth : Nat := 494

def isShown : Yaml.Content → Bool
  | .mapping parts => parts.all fun e => e.2.depth.any (· ≤ depth)
  | _ => true

/-- What is nested too deep, or has no end, is read but cannot be shown. -/
def parse [Limits] (path : String) (content : FileContent) : Action σ Options := do
  let o ← Options.parse Yaml.loadBytes path content
  if !isShown (← Action.lift (Options.readContent Yaml.loadBytes path content)) then Action.fail .tooDeep
  return o

def run [Limits] (options : Options) : Action σ CircuitContext := fun s =>
  match Simulator.build "GeneratedSimulator" Simple.config 1 (.tuple []) options.toValue with
  | .error f => ⟨.error f, s, []⟩
  | .ok sim =>
    let set : Action Simulator CircuitContext := do
      let d ← Simulator.surface .impure
      let _ ← Simulator.call (← Action.lift (d.item (.str "setVal"))) [.int 7]
      return (← Action.read).context
    let r := set sim
    ⟨r.result, s, sim.built ++ r.notices⟩

end CircuitHarness.Trial
