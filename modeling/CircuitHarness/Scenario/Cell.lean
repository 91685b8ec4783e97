import CircuitHarness.Dispatcher
import CircuitHarness.Value.Access

/-! A single cell in place of a manager: what a dispatcher reads from it and commits to it is kept in a trace. -/
namespace CircuitHarness

inductive Access where
  | read
  | commit

structure Cell where
  content : Value
  trace : List (Access × Value)

/-- A circuit over a cell. `odd` answers with something that is no circuit result. -/
inductive Behaviour where
  | result (v : Value) (next : Option Value)
  | sum
  | echo
  | fail (f : Failure)
  | odd

namespace Behaviour

def run (b : Behaviour) (content : Value) (args : List Value) : Except Failure (Value × Value) :=
  match b with
  | .result v next => .ok (v, next.getD content)
  | .sum => (Value.sum args).map fun v => (v, content)
  | .echo => .ok (.list [content, .list args], content)
  | .fail f => .error f
  | .odd => .error .noAttribute

end Behaviour

namespace Cell

def read : Action Cell Value := fun c => ⟨.ok c.content, { c with trace := c.trace ++ [(.read, c.content)] }, []⟩

def commit (v : Value) : Action Cell Unit := Action.update fun c => ⟨v, c.trace ++ [(.commit, v)]⟩

def call (b : Bound Behaviour) (args : List Value) : Action Cell Value :=
  b.call read commit (fun c v as => Action.lift ((c.run v as).map fun (w, left) => (.ok w, left))) args

def callMember (args : List Value) : Member Behaviour → Action Cell Value
  | .circuit b => call b args
  | .own _ => Action.fail .wrongType

end Cell
end CircuitHarness
