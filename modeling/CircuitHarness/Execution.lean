import CircuitHarness.Dispatcher
import CircuitHarness.Limits
import CircuitHarness.Manager

/-! Running a circuit's program on a state of any kind, given what the program may ask for. -/
namespace CircuitHarness

structure Services (σ : Type) where
  mark : Action σ Mark
  asCaller : Option Caller → Action σ Unit
  call : CircuitKind → Value → Value → Action σ Value

namespace Services

def alone (mark : Mark) : Services Unit where
  mark := return mark
  asCaller _ := Action.fail .noAttribute
  call _ _ _ := Action.fail .noAttribute

end Services

namespace Program
variable {σ : Type}

/-- A failed call is told to the program, which may go on. -/
def run (s : Services σ) (given : Handed) : Program → Action σ (Except Failure Value × Handed)
  | .done v none => return (v, given)
  | .done v (some c) => return (v, .fresh c)
  | .fail f => Action.fail f
  | .marked next => do run s given (next (← s.mark))
  | .asCaller c next => do
    s.asCaller c
    run s given next
  | .call k name args next => do
    let answer ← Action.attempt (s.call k name args)
    run s given (next answer)

def runAlone (mark : Mark) (given : CircuitContext) (p : Program) : Except Failure CircuitContext :=
  (p.run (Services.alone mark) (.fresh given) ()).result.map (·.2.context)

end Program

namespace Bound
variable {σ : Type}

def callCircuit (source : Action σ Handed) (commit : Handed → Action σ Unit) (s : Services σ) (b : Bound Circuit)
    (args : List Value) : Action σ Value :=
  b.call source commit (fun c given as => (c given.context as).run s given) args

end Bound

end CircuitHarness
