import CircuitHarness.Value.Depth
import CircuitHarness.Value.Order
import CircuitHarness.Yaml.Merge

/-! From nodes to objects. A node is made into one object however often it is met. Collections are made empty and filled
in the order they were met, so a fault inside one comes after all faults beside it. -/
namespace CircuitHarness.Yaml

/-- What a node is made into: a value that holds no others, or a collection, whose members are known by their nodes. -/
inductive Object where
  | single (v : Value)
  | list (items : List Nat)
  | map (entries : Value.Keyed Nat)
  | set (keys : List Value)
  | pairs (entries : List (Nat × Nat))
deriving Inhabited

namespace Object

def members : Object → List Nat
  | .single _ | .set _ => []
  | .list xs => xs
  | .map es => es.map (·.2)
  | .pairs es => es.flatMap fun e => [e.1, e.2]

def layers : Object → Nat
  | .single _ => 0
  | .list _ | .map _ | .set _ => 1
  | .pairs _ => 2

def copyDepth : Object → Nat
  | .single v => v.copyDepth
  | .list _ => (Value.list []).copyDepth
  | .map _ => (Value.map []).copyDepth
  | .set ks => (Value.set ks).copyDepth
  | .pairs _ => (Value.list [.tuple []]).copyDepth

def paired : List Value → List Value
  | k :: v :: r => .tuple [k, v] :: paired r
  | _ => []

def value (o : Object) (vs : List Value) : Value :=
  match o with
  | .single v => v
  | .list _ => .list vs
  | .map es => .map ((es.map (·.1)).zip vs)
  | .set ks => .set ks
  | .pairs _ => .list (paired vs)

end Object

namespace Graph
variable [Limits]

/-- The code points of a scalar, or of what a mapping has under the value key. The first argument says how many nodes
there may be on the way. -/
def codes (g : Graph) : Nat → Nat → Except Fault (List Nat)
  | 0, _ => .error .tooDeep
  | n+1, i => match g.shape i with
    | .scalar cs => .ok cs
    | .mapping es => match es.find? fun e => g.tag e.1 = .value with
      | some e => codes g n e.2
      | none => refuse "expected a scalar node"
    | .sequence _ => refuse "expected a scalar node"

def isScalar (g : Graph) (i : Nat) : Bool :=
  match g.shape i with
  | .scalar _ => true
  | _ => false

def object (g : Graph) (i : Nat) : Except Fault Object :=
  let scalar (f : List Nat → Except Fault Value) : Except Fault Object := do
    return .single (← f (← g.codes Limits.scalars i))
  let read (f : String → Except Fault Value) : Except Fault Object :=
    scalar fun cs => f (String.ofList (cs.map Surrogate.char))
  match g.tag i with
  | .null => scalar fun _ => .ok .none
  | .bool => read Scalar.boolOf
  | .int => read Scalar.intOf
  | .float => read (Scalar.floatOf (.written (i+1)))
  | .binary => read Scalar.binaryOf
  | .str => scalar fun cs => .ok (Value.ofCodes cs)
  | .timestamp => read fun s => if g.isScalar i then Scalar.stampOf s else .error .wrongType
  | .seq => .ok (.list [])
  | .map => .ok (.map [])
  | .set => .ok (.set [])
  | .omap | .pairs => .ok (.pairs [])
  | .merge | .value | .unknown => refuse "could not determine a constructor for the tag"

end Graph

abbrev Objects := Array (Option Object)

/-- Objects by the numbers of their nodes, and the collections still to be filled, the last one met first. `merges` is
how many merge entries there were at first. -/
structure Builder where
  graph : Graph
  merges : Nat
  objects : Objects
  waiting : List Nat

abbrev Build := StateT Builder (Except Fault)

namespace Build
variable [Limits]

def shape (i : Nat) : Build Shape := return (← get).graph.shape i

def put (i : Nat) (o : Object) : Build Unit := modify fun b => { b with objects := b.objects.set! i (some o) }

def meet (i : Nat) : Build Object := do
  match ((← get).objects[i]?).join with
  | some o => return o
  | none => do
    let o ← (← get).graph.object i
    put i o
    match o with
    | .single _ => return o
    | _ => do
      modify fun b => { b with waiting := i :: b.waiting }
      return o

def merge (i : Nat) : Build Unit := do
  let b ← get
  set { b with graph := ← b.graph.flatten (b.merges+1) Limits.merges i }

def entries (i : Nat) : Build (Value.Keyed Nat) := do
  match ← shape i with
  | .mapping _ => do
    merge i
    ((← get).graph.entries i).foldlM (fun es e => do
      match ← meet e.1 with
      | .single k => do
        let _ ← meet e.2
        return es.put k e.2
      | _ => refuse "found unhashable key") []
  | _ => refuse "expected a mapping node"

def items (i : Nat) : Build (List Nat) := do
  match ← shape i with
  | .sequence xs => return xs
  | _ => refuse "expected a sequence node"

def entry (i : Nat) : Build (Nat × Nat) := do
  match ← shape i with
  | .mapping [e] => do
    let _ ← meet e.1
    let _ ← meet e.2
    return e
  | _ => refuse "expected a mapping of length one"

def fill (i : Nat) : Build Unit := do
  match ← meet i with
  | .single _ => return ()
  | .list _ => do
    let xs ← items i
    xs.forM fun x => do
      let _ ← meet x
    put i (.list xs)
  | .map _ => do put i (.map (← entries i))
  | .set _ => do put i (.set ((← entries i).map (·.1)))
  | .pairs _ => do put i (.pairs (← (← items i).mapM entry))

/-- Fills what waits, then what was met meanwhile. Every round fills a node, so their number bounds the rounds. -/
def rounds : Nat → Build Unit
  | 0 => return ()
  | n+1 => do
    match (← get).waiting with
    | [] => return ()
    | is => do
      modify fun b => { b with waiting := [] }
      is.reverse.forM fill
      rounds n

end Build

def Graph.objects [Limits] (g : Graph) (root : Nat) : Except Fault Objects := do
  let b : Builder := ⟨g, g.merges, Array.replicate g.size none, []⟩
  let (_, b) ← (do let _ ← Build.meet root; Build.rounds (g.size+1) : Build Unit).run b
  return b.objects

end CircuitHarness.Yaml
