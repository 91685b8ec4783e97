import CircuitHarness.Limits
import CircuitHarness.Text.Surrogate
import CircuitHarness.Yaml.Scalar

/-! The graph of nodes that a token stream describes. A node is known by its number, and an alias is the number of the
node its anchor names, which may be one that it lies in. -/
namespace CircuitHarness.Yaml

inductive Shape where
  | scalar (codes : List Nat)
  | sequence (items : List Nat)
  | mapping (entries : List (Nat × Nat))
deriving Inhabited

structure Node where
  tag : Tag
  shape : Shape
deriving Inhabited

abbrev Graph := Array Node

namespace Node

/-- Tokens not yet read, the document's tag handles, the numbers its anchors name, the nodes so far, and how many
collections the next token lies in. -/
structure Reader where
  tokens : List Token
  handles : List (String × String)
  anchors : List (String × Nat)
  nodes : Graph
  depth : Nat

/-- `none` as a fault: the tokens ended. -/
abbrev Read := StateT Reader (Except (Option Fault))

def stuck {α : Type} (problem : String) : Read α := throw (some (.malformed problem))

def peek : Read Token := do
  match (← get).tokens with
  | t :: _ => return t
  | [] => throw none

def drop : Read Unit := modify fun r => { r with tokens := r.tokens.drop 1 }

structure Properties where
  anchor : Option String
  tag : Option String

def resolveTag (handle : Option String) (suffix : String) : Read String := do
  match handle with
  | none => return suffix
  | some h => match (← get).handles.find? (·.1 = h) with
    | some d => return d.2 ++ suffix
    | none => stuck "found undefined tag handle"

def properties : Read Properties := do
  match ← peek with
  | .anchor a => do
    drop
    match ← peek with
    | .tag h s => do
      drop
      return ⟨some a, some (← resolveTag h s)⟩
    | _ => return ⟨some a, none⟩
  | .tag h s => do
    drop
    match ← peek with
    | .anchor a => do
      drop
      return ⟨some a, some (← resolveTag h s)⟩
    | _ => return ⟨none, some (← resolveTag h s)⟩
  | _ => return ⟨none, none⟩

def Properties.isBare (p : Properties) : Bool := p.tag.isNone || p.tag = some "!"

def Properties.tagOr (p : Properties) (own : Tag) : Tag :=
  if p.isBare then own else Tag.ofText (p.tag.getD "")

def Properties.scalarTag (p : Properties) (codes : List Nat) (plain : Bool) : Tag :=
  if p.tag = some "!" || (plain && p.tag.isNone) then Scalar.resolve (String.ofList (codes.map Surrogate.char))
  else match p.tag with
    | none => .str
    | some t => Tag.ofText t

def add (anchor : Option String) (n : Node) : Read Nat := do
  let r ← get
  let i := r.nodes.size
  set { r with
    nodes := r.nodes.push n
    anchors := match anchor with
      | some a => (a, i) :: r.anchors
      | none => r.anchors }
  return i

def empty : Read Nat := add none ⟨Scalar.resolve "", .scalar []⟩

def newAnchor (p : Properties) : Read Unit := do
  match p.anchor with
  | some a => if (← get).anchors.any (·.1 = a) then stuck "found duplicate anchor"
  | none => return ()

def fill (i : Nat) (s : Shape) : Read Nat := do
  modify fun r => { r with nodes := r.nodes.modify i fun n => { n with shape := s } }
  return i

section
variable [Limits]

def within {α : Type} (x : Read α) : Read α := do
  let d := (← get).depth
  if d = Limits.nodes then throw (some .tooDeep)
  modify fun r => { r with depth := d+1 }
  let a ← x
  modify fun r => { r with depth := d }
  return a

def sequenceOf (p : Properties) (items : Read (List Nat)) : Read Nat := do
  let i ← add p.anchor ⟨p.tagOr .seq, .sequence []⟩
  fill i (.sequence (← within items))

def mappingOf (p : Properties) (entries : Read (List (Nat × Nat))) : Read Nat := do
  let i ← add p.anchor ⟨p.tagOr .map, .mapping []⟩
  fill i (.mapping (← within entries))

def scalarOf (p : Properties) (codes : List Nat) (plain : Bool) : Read Nat :=
  add p.anchor ⟨p.scalarTag codes plain, .scalar codes⟩

def named (a : String) : Read Nat := do
  match (← get).anchors.find? (·.1 = a) with
  | some x => return x.2
  | none => stuck "found undefined alias"

def isBlockEntry : Token → Bool
  | .blockEntry => true
  | _ => false

def closesBlock : Token → Bool
  | .blockEntry | .blockEnd => true
  | _ => false

def closesItem : Token → Bool
  | .blockEntry | .key | .value | .blockEnd => true
  | _ => false

def closesPair : Token → Bool
  | .key | .value | .blockEnd => true
  | _ => false

def closesFlowItem : Token → Bool
  | .flowEntry | .flowSequenceEnd => true
  | _ => false

def closesFlowKey : Token → Bool
  | .value | .flowEntry | .flowSequenceEnd => true
  | _ => false

def closesFlowPair : Token → Bool
  | .flowEntry | .flowMappingEnd => true
  | _ => false

def closesFlowPairKey : Token → Bool
  | .value | .flowEntry | .flowMappingEnd => true
  | _ => false

mutual
/-- One node. `block` admits block collections, `indentless` sequences that are not indented further. -/
def node : Nat → Bool → Bool → Read Nat
  | 0, _, _ => stuck "too many nodes"
  | n+1, block, indentless => do
    match ← peek with
    | .alias a => do
      drop
      named a
    | _ => do
      let p ← properties
      newAnchor p
      match ← peek with
      | .scalar codes plain => do
        drop
        scalarOf p codes plain
      | .flowSequenceStart => do
        drop
        sequenceOf p (flowItems n true)
      | .flowMappingStart => do
        drop
        mappingOf p (flowEntries n true)
      | .blockEntry => if indentless then sequenceOf p (indentlessItems n) else blank p
      | .blockSequenceStart =>
        if block then do
          drop
          sequenceOf p (blockItems n)
        else blank p
      | .blockMappingStart =>
        if block then do
          drop
          mappingOf p (blockEntries n)
        else blank p
      | _ => blank p
def blank (p : Properties) : Read Nat := do
  if p.anchor.isNone && p.tag.isNone then stuck "expected the node content"
  else scalarOf p [] true
def nodeOr : Nat → (Token → Bool) → Bool → Bool → Read Nat
  | 0, _, _, _ => stuck "too many nodes"
  | n+1, closes, block, indentless => do if closes (← peek) then empty else node n block indentless
def blockItems : Nat → Read (List Nat)
  | 0 => stuck "too many nodes"
  | n+1 => do
    match ← peek with
    | .blockEntry => do
      drop
      let x ← nodeOr n closesBlock true false
      return x :: (← blockItems n)
    | .blockEnd => do
      drop
      return []
    | _ => stuck "expected block end"
def indentlessItems : Nat → Read (List Nat)
  | 0 => stuck "too many nodes"
  | n+1 => do
    if isBlockEntry (← peek) then do
      drop
      let x ← nodeOr n closesItem true false
      return x :: (← indentlessItems n)
    else return []
def valueOr : Nat → (Token → Bool) → Bool → Read Nat
  | 0, _, _ => stuck "too many nodes"
  | n+1, closes, block => do
    match ← peek with
    | .value => do
      drop
      nodeOr n closes block block
    | _ => empty
def blockEntries : Nat → Read (List (Nat × Nat))
  | 0 => stuck "too many nodes"
  | n+1 => do
    match ← peek with
    | .key => do
      drop
      let k ← nodeOr n closesPair true true
      let v ← valueOr n closesPair true
      return (k, v) :: (← blockEntries n)
    | .blockEnd => do
      drop
      return []
    | _ => stuck "expected block end"
/-- A pair written inside a flow sequence is a mapping of its own. -/
def flowItems : Nat → Bool → Read (List Nat)
  | 0, _ => stuck "too many nodes"
  | n+1, first => do
    match ← peek with
    | .flowSequenceEnd => do
      drop
      return []
    | t => do
      if !first then match t with
        | .flowEntry => drop
        | _ => stuck "expected ',' or ']'"
      match ← peek with
      | .key => do
        drop
        let x ← mappingOf ⟨none, none⟩ do
          let k ← nodeOr n closesFlowKey false false
          let v ← valueOr n closesFlowItem false
          return [(k, v)]
        return x :: (← flowItems n false)
      | .flowSequenceEnd => do
        drop
        return []
      | _ => do
        let x ← node n false false
        return x :: (← flowItems n false)
def flowEntries : Nat → Bool → Read (List (Nat × Nat))
  | 0, _ => stuck "too many nodes"
  | n+1, first => do
    match ← peek with
    | .flowMappingEnd => do
      drop
      return []
    | t => do
      if !first then match t with
        | .flowEntry => drop
        | _ => stuck "expected ',' or a closing brace"
      match ← peek with
      | .key => do
        drop
        let k ← nodeOr n closesFlowPairKey false false
        let v ← valueOr n closesFlowPair false
        return (k, v) :: (← flowEntries n false)
      | .flowMappingEnd => do
        drop
        return []
      | _ => do
        let k ← node n false false
        let v ← empty
        return (k, v) :: (← flowEntries n false)
end

def standardHandles : List (String × String) := [("!", "!"), ("!!", Tag.domain)]

/-- Directives up to the document's start: one version at most, of the first kind, and each handle once. -/
def directives : Nat → Bool → List (String × String) → Read (List (String × String))
  | 0, _, _ => stuck "too many directives"
  | n+1, versioned, handles => do
    match ← peek with
    | .directive d => do
      drop
      match d with
      | .version major =>
        if versioned then stuck "found duplicate YAML directive"
        else if major ≠ 1 then stuck "found incompatible YAML document"
        else directives n true handles
      | .tag h s =>
        if (handles.find? (·.1 = h)).isSome then stuck "duplicate tag handle"
        else directives n versioned (handles ++ [(h, s)])
      | .other => directives n versioned handles
    | _ => return handles ++ standardHandles.filter fun s => !handles.any (·.1 = s.1)

def skipDocumentEnds : Nat → Read Unit
  | 0 => return ()
  | n+1 => do
    match ← peek with
    | .documentEnd => do
      drop
      skipDocumentEnds n
    | _ => return ()

def startsDocument : Token → Bool
  | .directive _ | .documentStart | .streamEnd => true
  | _ => false

def content (n : Nat) : Read Nat := do
  match ← peek with
  | .directive _ | .documentStart | .documentEnd | .streamEnd => empty
  | _ => node n true false

def explicitDocument (n : Nat) : Read Nat := do
  let handles ← directives n false []
  modify fun r => { r with handles := handles }
  match ← peek with
  | .documentStart => do
    drop
    content n
  | _ => stuck "expected the document start"

def closing (n : Nat) : Read Unit := do
  skipDocumentEnds n
  match ← peek with
  | .streamEnd => return ()
  | .documentStart => stuck "expected a single document in the stream"
  | .directive _ => do
    let _ ← directives n false []
    stuck "expected a single document in the stream"
  | _ => stuck "expected the document start"

def document (n : Nat) : Read (Option Nat) := do
  if startsDocument (← peek) then
    match ← peek with
    | .streamEnd => return none
    | _ => do
      let d ← explicitDocument n
      closing n
      return some d
  else do
    let d ← node n true false
    closing n
    return some d

/-- Reads the tokens of a stream: the graph, and the number of the document's node if there is one. Where they end too
early, the fault that ended them counts. -/
def ofTokens? (tokens : List Token) (fault : Option Fault) : Except Fault (Option Nat × Graph) :=
  match (document (4*tokens.length+16)).run ⟨tokens, standardHandles, [], #[], 0⟩ with
  | .ok (n, r) => .ok (n, r.nodes)
  | .error (some f) => .error f
  | .error none => .error (fault.getD (.malformed "unexpected end of tokens"))

end
end Node
end CircuitHarness.Yaml
