import CircuitHarness.Address
import CircuitHarness.Limits
import CircuitHarness.Options.Issue

/-! The rules for single options, and documents checked against them option by option. -/
namespace CircuitHarness

inductive OptionType where
  | any
  | text
  | mapping

namespace OptionType

def admits : OptionType → Value → Bool
  | .any, _ => true
  | .text, .str _ | .text, .codes _ => true
  | .mapping, .map _ => true
  | _, _ => false

def name : OptionType → String
  | .any => "any"
  | .text => "string"
  | .mapping => "dict"

end OptionType

/-- `checks` are made of values of the right type only. -/
structure Field where
  name : String
  nullable : Bool
  type : OptionType
  checks : Value → Except Failure (List Issue)

namespace Field

def issues (f : Field) (v : Value) : Except Failure (List Issue) :=
  match v with
  | .none => .ok (if f.nullable then [] else [.null])
  | _ => if f.type.admits v then f.checks v else .ok [.notOfType f.type.name]

def free (_ : Value) : Except Failure (List Issue) := .ok []

/-- A line feed at the very end is not looked at. -/
def isHex (s : String) : Bool :=
  let cs := s.toList
  (if cs.getLast? = some '\n' then cs.dropLast else cs).all Hex.isDigit

def hexIssues (v : Value) : List Issue := if isHex v.text then [] else [.notHex v.text]

def keyIssues (v : Value) : Except Failure (List Issue) :=
  match v.codes? with
  | some cs => .ok (hexIssues v ++ (if cs.length < Key.hexLength then [.tooShort Key.hexLength] else []) ++
      if Key.hexLength < cs.length then [.tooLong Key.hexLength] else [])
  | none => .ok []

def addressIssues (v : Value) : Except Failure (List Issue) :=
  match v.codes? with
  | some cs => .ok (if cs.isEmpty then [.empty] else hexIssues v)
  | none => .ok []

def nameIssue : Value → Option Issue
  | .none => some .null
  | v => match v.codes? with
    | some cs => if cs.isEmpty then some .empty else none
    | none => some (.notOfType OptionType.text.name)

def nameFindings (es : Value.Entries) : Except Failure (List Finding) :=
  es.foldlM (fun found e => match nameIssue e.1 with
    | some i => Finding.insert found (e.1, i)
    | none => .ok found) []

def notCallable (es : Value.Entries) : List String :=
  ((es.filter fun e => !e.2.isCallable).map fun e => e.1.text).mergeSort fun a b => a ≤ b

def witnessIssues : Value → Except Failure (List Issue)
  | .map es => do
    let keys := match ← nameFindings es with
      | [] => []
      | found => [.keys found]
    return keys ++ match notCallable es with
      | [] => []
      | ns => [.notCallable ns]
  | _ => .ok []

def privateState (nullable : Bool) (type : OptionType) : Field := ⟨"private_state", nullable, type, free⟩
def witnesses (nullable : Bool) : Field := ⟨"witnesses", nullable, .mapping, witnessIssues⟩
def coinKey (nullable : Bool) : Field := ⟨"coin_pk", nullable, .text, keyIssues⟩
def address (nullable : Bool) : Field := ⟨"contract_address", nullable, .text, addressIssues⟩

end Field

abbrev Schema := List Field

namespace Schema

def options : Schema := [.privateState true .any, .witnesses true, .coinKey true, .address true]

def replacement : Schema := [.witnesses false]

/-- A file cannot hold witnesses, and its private state is a mapping. -/
def file : Schema := [.privateState false .mapping, .coinKey false, .address false]

def field? (s : Schema) : Value → Option Field
  | .str n => s.find? (·.name = n)
  | _ => none

def issues (s : Schema) (name v : Value) : Except Failure (List Issue) :=
  match s.field? name with
  | some f => f.issues v
  | none => .ok [.unknown]

def findings (s : Schema) (document : Value.Entries) : Except Failure (List Finding) :=
  Findings.all <$> document.foldlM (fun found e => do
    (← s.issues e.1 e.2).foldlM (fun found i => found.add (e.1, i)) found) Findings.none

section
variable [Limits]

/-- Accepts a document without findings. What is found is reported with a copy of the option, whose value takes a copy as
deep as `depth` says. -/
def check (s : Schema) (source : Option String) (depth : Value → Nat) (document : Value.Entries) :
    Except Failure Unit := do
  match ← s.findings document with
  | [] => return ()
  | found =>
    if found.any fun x => Limits.copies < x.copyDepth (depth x.1) then throw .tooDeep
    throw (.invalidOptions (.map (Finding.errors found)) source)

def checkValues (s : Schema) (document : Value.Entries) : Except Failure Unit :=
  s.check none (fun k => ((Value.Keyed.get? k document).map (·.copyDepth)).getD 0) document

end
end Schema
end CircuitHarness
