import CircuitHarness.Action

/-! At most one value for each circuit kind, under an explicit validity flag. `none` in a slot that is filled is a
stored nothing: looking it up counts as a hit and yet has it built again. -/
namespace CircuitHarness

structure Cache (α : Type) where
  pureSlot : Option (Option α)
  impureSlot : Option (Option α)
  valid : Bool
  generation : Nat
  hits : Nat
  misses : Nat

namespace Cache
variable {α σ : Type}

def empty : Cache α := ⟨none, none, false, 0, 0, 0⟩

def slot (c : Cache α) : CircuitKind → Option (Option α)
  | .pure => c.pureSlot
  | .impure => c.impureSlot

def fill (c : Cache α) (v : Option α) : CircuitKind → Cache α
  | .pure => { c with pureSlot := some v }
  | .impure => { c with impureSlot := some v }

def live (c : Cache α) (k : CircuitKind) : Option (Option α) := if c.valid then c.slot k else none

def created : Notice := ⟨.debug, Logger.cache, "DispatcherCache instance created."⟩

def lookup (k : CircuitKind) : Action (Cache α) (Option α) := do
  let c ← Action.read
  match c.live k with
  | some v => do
    Action.write { c with hits := c.hits+1 }
    Action.note .debug Logger.cache
      ("Dispatcher cache HIT for '" ++ k.name ++ "' (generation " ++ toString c.generation ++ ").")
    return v
  | none => do
    Action.write { c with misses := c.misses+1 }
    Action.note .debug Logger.cache
      ("Dispatcher cache MISS for '" ++ k.name ++ "' (generation " ++ toString c.generation ++ ").")
    return none

def put (k : CircuitKind) (v : Option α) : Action (Cache α) Unit := do
  let c ← Action.read
  if (c.live k).isSome then
    Action.note .warning Logger.cache
      ("Dispatcher for '" ++ k.name ++ "' already cached. Overwriting existing value.")
  Action.write { c.fill v k with valid := true }

def invalidate : Action (Cache α) Unit := do
  let c ← Action.read
  Action.write { c with pureSlot := none, impureSlot := none, valid := false, generation := c.generation+1 }
  Action.note .debug Logger.cache
    ("Dispatcher cache invalidated (now generation " ++ toString (c.generation+1) ++ ").")

def clearStats : Action (Cache α) Unit := Action.update fun c => { c with hits := 0, misses := 0 }

def ready (c : Cache α) (k : CircuitKind) : Option α := (c.live k).join

def counted (c : Cache α) (k : CircuitKind) : Cache α :=
  if (c.live k).isSome then { c with hits := c.hits+1 } else { c with misses := c.misses+1 }

theorem lookup_result (k : CircuitKind) (c : Cache α) : (lookup k c).result = .ok (c.ready k) := by
  cases h : c.live k <;> simp [lookup, ready, Action.bind_result, h]

theorem lookup_state (k : CircuitKind) (c : Cache α) : (lookup k c).state = c.counted k := by
  cases h : c.live k <;> simp [lookup, counted, Action.bind_state, h]

theorem put_result (k : CircuitKind) (v : Option α) (c : Cache α) : (put k v c).result = .ok () := by
  cases h : (c.live k).isSome <;> simp [put, Action.bind_result, h]

theorem put_state (k : CircuitKind) (v : Option α) (c : Cache α) :
    (put k v c).state = { c.fill v k with valid := true } := by
  cases h : (c.live k).isSome <;> simp [put, Action.bind_state, h]

/-- `get` and `set` place the cache in the state that `build` works on. -/
def getOrBuild (get : σ → Cache α) (set : Cache α → σ → σ) (build : Action σ (Option α)) (k : CircuitKind) :
    Action σ (Option α) := do
  match ← Action.within get set (lookup k) with
  | some v => return some v
  | none => do
    let v ← build
    Action.within get set (put k v)
    return v

section
variable (get : σ → Cache α) (set : Cache α → σ → σ) (build : Action σ (Option α)) {k : CircuitKind} {s : σ}

theorem getOrBuild_of_ready {v : α} (h : (get s).ready k = some v) :
    (getOrBuild get set build k s).result = .ok (some v) ∧
      (getOrBuild get set build k s).state = set ((get s).counted k) s := by
  simp [getOrBuild, Action.bind_result, Action.bind_state, lookup_result, lookup_state, h]

theorem getOrBuild_of_built {v : Option α} (h : (get s).ready k = none)
    (hb : (build (set ((get s).counted k) s)).result = .ok v) :
    let t := (build (set ((get s).counted k) s)).state
    (getOrBuild get set build k s).result = .ok v ∧
      (getOrBuild get set build k s).state = set { (get t).fill v k with valid := true } t := by
  simp [getOrBuild, Action.bind_result, Action.bind_state, lookup_result, lookup_state, h, hb, put_result, put_state]

theorem getOrBuild_of_failed {e : Failure} (h : (get s).ready k = none)
    (hb : (build (set ((get s).counted k) s)).result = .error e) :
    (getOrBuild get set build k s).result = .error e ∧
      (getOrBuild get set build k s).state = (build (set ((get s).counted k) s)).state := by
  simp [getOrBuild, Action.bind_result, Action.bind_state, lookup_result, lookup_state, h, hb]

end

end Cache
end CircuitHarness
