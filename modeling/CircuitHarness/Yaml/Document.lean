import CircuitHarness.Yaml.Object
import CircuitHarness.Yaml.Token.Lexer

/-! What a document holds: its objects as values. Values have no identity, so an object met in many places becomes the
same value in each, and one that lies inside itself has no end. -/
namespace CircuitHarness.Yaml

inductive Progress where
  | untouched
  | begun
  | done (v : Value) (depth : Option Nat)
deriving Inhabited

namespace Objects

def object (os : Objects) (i : Nat) : Object := os[i]?.join.getD (.single .none)

def deepest (ds : List (Option Nat)) : Option Nat := ds.foldlM (fun n d => d.map (max n)) 0

/-- The value of a node, and how many collections lie inside one another in it; `none` if one lies inside itself, where
it is left out. Each node is looked at once, so what is met in many places is shared by them. The first argument bounds
the depth. -/
def resolve (os : Objects) : Nat → Nat → StateM (Array Progress) (Value × Option Nat)
  | 0, _ => return (.none, none)
  | n+1, i => do
    match (← get)[i]? with
    | some (.done v d) => return (v, d)
    | some .begun => return (.none, none)
    | _ => do
      modify fun s => s.set! i .begun
      let o := os.object i
      let ps ← o.members.mapM (resolve os n)
      let v := o.value (ps.map (·.1))
      let d := (deepest (ps.map (·.2))).map (· + o.layers)
      modify fun s => s.set! i (.done v d)
      return (v, d)

def descend (os : Objects) : Nat → Nat → StateM (Array Bool) Nat
  | 0, _ => return 0
  | n+1, i => do
    if ((← get)[i]?).getD true then return 0
    modify fun s => s.set! i true
    let o := os.object i
    return (← o.members.mapM (descend os n)).foldl max 0+o.copyDepth

end Objects

/-- A value that lies in a document, with its depth (none if it has no end) and how deep a copy of it goes. -/
structure Part where
  value : Value
  depth : Option Nat
  copyDepth : Nat

inductive Content where
  | nothing
  | mapping (entries : Value.Keyed Part)
  | other

def Graph.content [Limits] (g : Graph) (root : Nat) : Except Fault Content := do
  let os ← g.objects root
  match os.object root with
  | .single .none => return .nothing
  | .map es => do
    let (vs, _) := ((es.map (·.2)).mapM (os.resolve (g.size+1))).run (Array.replicate g.size .untouched)
    let part (i : Nat) (v : Value × Option Nat) : Part :=
      ⟨v.1, v.2, ((os.descend (g.size+1) i).run (Array.replicate g.size false)).1⟩
    return .mapping (List.zipWith (fun e v => (e.1, part e.2 v)) es vs)
  | _ => return .other

abbrev Loader := List UInt8 → Except Fault Content

def load [Limits] (s : Source) : Except Fault Content := do
  let (tokens, fault) := Token.scan s
  match ← Node.ofTokens? tokens fault with
  | (some root, g) => g.content root
  | (none, _) => return .nothing

def loadBytes [Limits] : Loader := fun bs => load (.ofBytes bs)

end CircuitHarness.Yaml
