import CircuitHarness.Cache

/-! A cache of plain values, with a count of how often something was built for it. -/
namespace CircuitHarness

structure Shelf where
  cache : Cache Value
  builds : Nat

inductive Builder where
  | value (v : Value)
  | fail (f : Failure)
  | invalidating (v : Value)

namespace Shelf

def start : Shelf := ⟨.empty, 0⟩

def stored : Value → Option Value
  | .none => none
  | v => some v

def onCache (x : Action (Cache Value) α) : Action Shelf α := x.within Shelf.cache fun c s => { s with cache := c }

def build (b : Builder) : Action Shelf (Option Value) := do
  Action.update fun s => { s with builds := s.builds+1 }
  match b with
  | .value v => return stored v
  | .fail f => Action.fail f
  | .invalidating v => do
    onCache Cache.invalidate
    return stored v

def get (k : CircuitKind) : Action Shelf Value := do return .ofOption (← onCache (Cache.lookup k))

def put (k : CircuitKind) (v : Value) : Action Shelf Unit := onCache (Cache.put k (stored v))

def getOrBuild (b : Builder) (k : CircuitKind) : Action Shelf Value := do
  return .ofOption (← Cache.getOrBuild Shelf.cache (fun c s => { s with cache := c }) (build b) k)

end Shelf
end CircuitHarness
