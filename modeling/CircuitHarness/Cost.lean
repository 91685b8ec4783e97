import CircuitHarness.Failure

/-! The five cost counters a circuit charges. -/
namespace CircuitHarness

inductive Counter where
  | readTime
  | computeTime
  | blockUsage
  | bytesWritten
  | bytesDeleted
deriving DecidableEq

namespace Counter

def all : List Counter := [.readTime, .computeTime, .blockUsage, .bytesWritten, .bytesDeleted]

def name : Counter → String
  | .readTime => "read_time"
  | .computeTime => "compute_time"
  | .blockUsage => "block_usage"
  | .bytesWritten => "bytes_written"
  | .bytesDeleted => "bytes_deleted"

def ofName? (s : String) : Option Counter := all.find? (·.name = s)

end Counter

structure Cost where
  readTime : Value
  computeTime : Value
  blockUsage : Value
  bytesWritten : Value
  bytesDeleted : Value

namespace Cost

def zero : Cost := ⟨.int 0, .int 0, .int 0, .int 0, .int 0⟩

def get (c : Cost) : Counter → Value
  | .readTime => c.readTime
  | .computeTime => c.computeTime
  | .blockUsage => c.blockUsage
  | .bytesWritten => c.bytesWritten
  | .bytesDeleted => c.bytesDeleted

def set (c : Cost) (v : Value) : Counter → Cost
  | .readTime => { c with readTime := v }
  | .computeTime => { c with computeTime := v }
  | .blockUsage => { c with blockUsage := v }
  | .bytesWritten => { c with bytesWritten := v }
  | .bytesDeleted => { c with bytesDeleted := v }

def toList (c : Cost) : List Value := Counter.all.map c.get

def same (c d : Cost) : Bool := Value.sameAll c.toList d.toList

def named : Value → Except Failure (List (String × Value))
  | .map es => es.mapM fun e => match e.1 with
    | .str s => .ok (s, e.2)
    | _ => .error .wrongType
  | _ => .error .wrongType

def ofNames (given : List (String × Value)) : Except Failure Cost :=
  given.foldlM (fun c e => match Counter.ofName? e.1 with
    | some k => .ok (c.set e.2 k)
    | none => .error .wrongType) zero

def unknownNames (deltas : List (String × Value)) : List String :=
  (deltas.map (·.1)).filter fun n => (Counter.ofName? n).isNone

def chargeKnown (deltas : List (String × Value)) (c : Cost) : Except Failure Cost :=
  deltas.foldlM (fun acc e => match Counter.ofName? e.1 with
    | some k => (Value.add (acc.get k) e.2).map (acc.set · k)
    | none => .ok acc) c

def ownName : String := "self"

/-- Adds each delta to its counter. All unknown names are reported together, sorted, before any is added. -/
def charge (deltas : List (String × Value)) (c : Cost) : Except Failure Cost :=
  if deltas.any (·.1 = ownName) then .error .wrongType
  else match unknownNames deltas with
  | [] => chargeKnown deltas c
  | ns => .error (.badValue ("Unknown cost counter(s): " ++
      (Value.list ((ns.mergeSort fun a b => a ≤ b).map .str)).repr))

end Cost
end CircuitHarness
