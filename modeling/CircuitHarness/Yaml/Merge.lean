import CircuitHarness.Yaml.Node

/-! Merge keys. A mapping's merge entries give way to the entries of the mappings they name, which come in front of its
own. The change stays in the graph, so whoever else holds that mapping sees it merged. -/
namespace CircuitHarness.Yaml.Graph

def tag (g : Graph) (i : Nat) : Tag := (g[i]?.map Node.tag).getD .unknown

def shape (g : Graph) (i : Nat) : Shape := (g[i]?.map Node.shape).getD (.scalar [])

def entries (g : Graph) (i : Nat) : List (Nat × Nat) :=
  match g.shape i with
  | .mapping es => es
  | _ => []

def isMapping (g : Graph) (i : Nat) : Bool :=
  match g.shape i with
  | .mapping _ => true
  | _ => false

def setEntries (g : Graph) (i : Nat) (es : List (Nat × Nat)) : Graph := g.modify i fun n => { n with shape := .mapping es }

def isMerge (g : Graph) (e : Nat × Nat) : Bool := g.tag e.1 = .merge

def merges (g : Graph) : Nat :=
  g.foldl (fun k n => match n.shape with
    | .mapping es => k+(es.filter g.isMerge).length
    | _ => k) 0

def keyTag (t : Tag) : Tag := if t = .value then .str else t

def settleKeys (g : Graph) (i : Nat) : Graph :=
  (g.entries i).foldl (fun g e => g.modify e.1 fun n => { n with tag := keyTag n.tag }) g

/-- Merges what a mapping is to be merged with, its first merge entry first. Each step takes one merge entry away and
none is ever added, so their number bounds the steps. The second argument says how many links a chain of merges may
still have. -/
def flatten : Nat → Nat → Nat → Graph → Except Fault Graph
  | 0, _, _, _ | _, 0, _, _ => .error .tooDeep
  | n+1, links+1, i, g =>
    let es := g.entries i
    match es.find? g.isMerge with
    | none => .ok (g.settleKeys i)
    | some (_, v) => do
      let g := g.setEntries i (es.eraseP g.isMerge)
      let (front, g) ← match g.shape v with
        | .mapping _ => do
          let g ← flatten n links v g
          pure (g.entries v, g)
        | .sequence xs => do
          let (parts, g) ← xs.foldlM (fun (parts, g) x => do
            if !g.isMapping x then refuse "expected a mapping for merging"
            let g ← flatten n links x g
            return (g.entries x :: parts, g)) (([] : List (List (Nat × Nat))), g)
          pure (parts.flatten, g)
        | .scalar _ => refuse "expected a mapping or list of mappings for merging"
      let g ← flatten n (links+1) i g
      return g.setEntries i (front ++ g.entries i)

end CircuitHarness.Yaml.Graph
